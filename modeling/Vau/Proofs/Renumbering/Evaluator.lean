import Vau.Proofs.Renumbering.World

/-! Evaluation does the same under other numbers.

One lemma says so for each thing that evaluation does to a world, and from these it follows for
forms, by what they read as, and for combinations, by the fuel. -/

set_option autoImplicit false

namespace Vau

/-- What comes of a computation in a world, and what comes of one under other numbers. -/
inductive Ends (ρ : Renumbering) (apart : ScopeId → Option Scope) {α β : Type}
    (related : World → α → β → Prop) (w : World) :
    Option (Except Exit α × World) → Option (Except Exit β × World) → Prop
  | spent : Ends ρ apart related w none none
  | value {a : α} {b : β} {later later' : World} : w.store.Grows later.store →
    later.Moved ρ apart later' → related later a b →
    Ends ρ apart related w (some (.ok a, later)) (some (.ok b, later'))
  | error {error : Error} {later later' : World} : w.store.Grows later.store →
    later.Moved ρ apart later' → Ends ρ apart related w
      (some (.error (.error error), later)) (some (.error (.error error), later'))
  | control {later later' : World} : Ends ρ apart related w
      (some (.error .control, later)) (some (.error .control, later'))

/-- From any other numbers for the world, both computations come to the same. -/
def Meaning.Moves (ρ : Renumbering) (apart : ScopeId → Option Scope) {α β : Type}
    (related : World → α → β → Prop) (meaning : Meaning α) (meaning' : Meaning β) (w : World) :
    Prop :=
  ∀ other, w.Moved ρ apart other → Ends ρ apart related w (meaning.result w) (meaning'.result other)

/-- The form under other numbers. It leads to nothing but what is there. -/
def Form.Image (ρ : Renumbering) (w : World) (f g : Form) : Prop :=
  w.store.Knows (f.Obeys ·) ∧ g = f.renumber ρ

def Combiner.Image (ρ : Renumbering) (w : World) (c d : Combiner) : Prop :=
  w.store.Knows (c.Obeys ·) ∧ d = c.renumber ρ

def Form.Images (ρ : Renumbering) (w : World) (fs gs : List Form) : Prop :=
  (∀ f ∈ fs, w.store.Knows (f.Obeys ·)) ∧ gs = fs.map (Form.renumber ρ)

def World.ScopeImage (ρ : Renumbering) (w : World) (d e : ScopeId) : Prop :=
  d < w.store.scopes.size ∧ e = ρ.scope d

variable {ρ : Renumbering} {apart : ScopeId → Option Scope}

namespace Meaning.Moves

variable {α β γ δ : Type} {related : World → α → β → Prop} {related' : World → γ → δ → Prop}
  {meaning : Meaning α} {meaning' : Meaning β} {w : World}

theorem bind (first : Moves ρ apart related meaning meaning' w) {k : α → Meaning γ}
    {k' : β → Meaning δ} (rest : ∀ a b later, w.store.Grows later.store → related later a b →
      Moves ρ apart related' (k a) (k' b) later) :
    Moves ρ apart related' (meaning >>= k) (meaning' >>= k') w := by
  intro other moved
  have ends := first other moved
  rw [result_bind, result_bind]
  generalize meaning.result w = left at ends
  generalize meaning'.result other = right at ends
  cases ends with
  | spent => exact .spent
  | @value a b later later' grows after holds =>
    have ends := rest a b later grows holds later' after
    dsimp only
    generalize (k a).result later = left at ends
    generalize (k' b).result later' = right at ends
    cases ends with
    | spent => exact .spent
    | value more last holds => exact .value (grows.trans more) last holds
    | error more last => exact .error (grows.trans more) last
    | control => exact .control
  | error grows after => exact .error grows after
  | control => exact .control

theorem pure {a : α} {b : β} (holds : related w a b) :
    Moves ρ apart related (Pure.pure a) (Pure.pure b) w :=
  fun _ moved => .value (.refl _) moved holds

theorem fail (error : Error) :
    Moves ρ apart related (Meaning.fail error) (Meaning.fail error) w :=
  fun _ moved => .error (.refl _) moved

theorem nothing : Moves ρ apart related Meaning.nothing Meaning.nothing w :=
  fun _ _ => .spent

theorem control : Moves ρ apart related (throw .control) (throw .control) w :=
  fun _ _ => .control

end Meaning.Moves

section

variable {w : World} {e : ScopeId}

/-! Numbers. -/

theorem World.grows_reserve (w : World) (count : Nat) : w.store.Grows (w.reserve count).store :=
  ⟨Nat.le_add_right _ _, Nat.le_refl _⟩

theorem Meaning.result_act {α : Type} (action : Action α) (w : World) :
    (act action).result w =
      some ((action.run w.store).1.mapError .error, { w with store := (action.run w.store).2 }) :=
  rfl

theorem Meaning.moves_numbered {α β : Type} {related : World → α → β → Prop} {action : Action α}
    {action' : Action β} (count : Nat) (value : Identity → α) (value' : Identity → β)
    (runs : ∀ store, action.run store =
      (.ok (value store.fresh), { store with fresh := store.fresh + count }))
    (runs' : ∀ store, action'.run store =
      (.ok (value' store.fresh), { store with fresh := store.fresh + count }))
    (holds : ∀ other, w.Moved ρ apart other →
      related (w.reserve count) (value w.store.fresh) (value' other.store.fresh)) :
    Moves ρ apart related (act action) (act action') w := by
  intro other moved
  have here : (act action).result w = some (.ok (value w.store.fresh), w.reserve count) := by
    rw [result_act, runs]
    rfl
  have there : (act action').result other =
      some (.ok (value' other.store.fresh), other.reserve count) := by
    rw [result_act, runs']
    rfl
  rw [here, there]
  exact .value (w.grows_reserve count) (moved.reserve count) (holds other moved)

theorem Meaning.moves_fresh : Moves ρ apart
    (fun later i j => i < later.store.fresh ∧ j = ρ.object i) (act Action.fresh)
    (act Action.fresh) w :=
  moves_numbered 1 id id (fun _ => rfl) (fun _ => rfl) fun _ moved =>
    ⟨Nat.lt_succ_self _, moved.store.next.symm⟩

theorem Meaning.moves_wrap {c : Combiner} (known : w.store.Knows (c.Obeys ·)) :
    Moves ρ apart (Form.Image ρ) (act (Action.wrap c)) (act (Action.wrap (c.renumber ρ))) w := by
  refine moves_numbered 1 (fun i => .combiner (.applicative i c))
    (fun i => .combiner (.applicative i (c.renumber ρ))) (fun _ => rfl) (fun _ => rfl)
    fun other moved => ⟨fun D spans => ?_, ?_⟩
  · exact ⟨spans.object _ (Nat.lt_succ_self _), known D (spans.earlier (w.grows_reserve 1))⟩
  · rw [Form.renumber, Combiner.renumber, moved.store.next]

theorem Meaning.moves_list {values : List Form}
    (known : ∀ v ∈ values, w.store.Knows (v.Obeys ·)) :
    Moves ρ apart (Form.Image ρ) (act (Action.list values))
      (act (Action.list (values.map (Form.renumber ρ)))) w := by
  intro other moved
  have same := ρ.likeness.chain values .nil moved.store.fresh
  rw [result_list, result_list, List.length_map]
  refine .value (w.grows_reserve _) (moved.reserve _) ⟨fun D spans => ?_, congrArg Prod.fst same⟩
  exact Form.obeys_chain (fun i _ below => spans.object i below)
    (fun v member => known v member D (spans.earlier (w.grows_reserve _))) trivial

/-! Scopes. -/

theorem Meaning.moves_lookup (there : e < w.store.scopes.size) (name : String) :
    Moves ρ apart (Form.Image ρ) (lookup e name) (lookup (ρ.scope e) name) w := by
  intro other moved
  unfold lookup
  rw [result_onScopes, result_onScopes, moved.store.scopes.lookup]
  cases found : w.store.scopes.lookup e name with
  | error error => exact .error (.refl _) moved
  | ok value =>
    refine .value (.refl _) moved ⟨fun D spans => ?_, rfl⟩
    exact (moved.closed D spans).scopes.lookup (spans.scope e there) found

theorem Meaning.moves_inert {meaning meaning' : Meaning Unit}
    (done : Moves ρ apart (fun _ _ _ => True) meaning meaning' w) :
    Moves ρ apart (Form.Image ρ) (do meaning; return .inert) (do meaning'; return .inert) w :=
  done.bind fun _ _ _ _ _ => .pure ⟨fun _ _ => trivial, rfl⟩

theorem Meaning.moves_define (e : ScopeId) (parameters : Form) {value value' : Form}
    (image : Form.Image ρ w value value') : Moves ρ apart (Form.Image ρ)
      (define e parameters value) (define (ρ.scope e) (parameters.renumber ρ) value') w := by
  obtain ⟨known, rfl⟩ := image
  refine moves_inert fun other moved => ?_
  obtain ⟨same, new⟩ := moved.store.scopes.bind e parameters value
  have size := Scopes.size_bind w.store.scopes e parameters value
  have grows : w.store.Grows { w.store with
      scopes := (w.store.scopes.bind e parameters value).2 } :=
    ⟨Nat.le_refl _, Nat.le_of_eq size.symm⟩
  have after := moved.withScopes grows (fun D spans obeys =>
    obeys.bind e parameters (known D (spans.earlier grows))) new
  rw [result_onScopes, result_onScopes, same]
  cases (w.store.scopes.bind e parameters value).1 with
  | error error => exact .error grows after
  | ok done => exact .value grows after trivial

theorem Meaning.moves_assign (e : ScopeId) (name : String) {value value' : Form}
    (image : Form.Image ρ w value value') : Moves ρ apart (Form.Image ρ)
      (assign e name value) (assign (ρ.scope e) name value') w := by
  obtain ⟨known, rfl⟩ := image
  refine moves_inert fun other moved => ?_
  rw [result_onScopes, result_onScopes]
  unfold Scopes.set
  rw [moved.store.scopes.binder?]
  cases w.store.scopes.binder? e name with
  | none => exact .error (.refl _) moved
  | some d =>
    have size := Scopes.size_define w.store.scopes d name value
    have grows : w.store.Grows { w.store with scopes := w.store.scopes.define d name value } :=
      ⟨Nat.le_refl _, Nat.le_of_eq size.symm⟩
    exact .value grows (moved.withScopes grows (fun D spans obeys =>
      obeys.define d name (known D (spans.earlier grows)))
      (moved.store.scopes.define d name value)) trivial

theorem Meaning.moves_enter (there : e < w.store.scopes.size) {static : ScopeId}
    (below : static < w.store.scopes.size) (t : Template) {operands : Form}
    (known : w.store.Knows (operands.Obeys ·)) : Moves ρ apart (World.ScopeImage ρ)
      (enter e static t operands)
      (enter (ρ.scope e) (ρ.scope static) (t.renumber ρ) (operands.renumber ρ)) w := by
  intro other moved
  obtain ⟨parameters, formal, source, body, wraps⟩ := t
  have extended := moved.store.scopes.extend fun p same => Option.some.inj same ▸ below
  have next : ρ.scope w.store.scopes.size = other.store.scopes.size := moved.store.scopes.next 0
  obtain ⟨same, new⟩ := extended.bind w.store.scopes.size parameters operands
  -- To bind is not to make scopes, so the new one is the last, whatever is bound.
  have size := (Scopes.size_bind (w.store.scopes.extend (some static)).2 w.store.scopes.size
    parameters operands).trans (Scopes.size_extend _ _)
  have obeys {D : Discipline} (spans : D.Spans w.store) (obeys : w.store.scopes.Obeys D) :=
    Scopes.Obeys.bind (obeys.extend fun p same => Option.some.inj same ▸ spans.scope static below)
      w.store.scopes.size parameters (known D spans)
  have grows {scopes : Scopes} (more : scopes.size = w.store.scopes.size + 1) :
      w.store.Grows { w.store with scopes } :=
    ⟨Nat.le_refl _, Nat.le.intro more.symm⟩
  unfold enter
  rw [result_onScopes, result_onScopes]
  simp only [Scopes.extend, Template.renumber, Option.map_some, next] at same new size obeys ⊢
  generalize Scopes.bind _ w.store.scopes.size parameters operands = left at same new size obeys ⊢
  generalize Scopes.bind _ other.store.scopes.size _ _ = right at same new ⊢
  obtain ⟨outcome, scopes⟩ := left
  obtain ⟨outcome', scopes'⟩ := right
  cases same
  cases outcome with
  | error error =>
    exact .error (grows size) (moved.withScopes (grows size)
      (fun D spans => obeys (spans.earlier (grows size))) new)
  | ok done =>
    cases formal with
    | symbol name =>
      -- The scope of the caller is bound as well, and it is there.
      have same := Scopes.size_define scopes w.store.scopes.size name (.environment e)
      have last := new.define w.store.scopes.size name (.environment e)
      rw [next] at last
      refine .value (grows (same.trans size)) (moved.withScopes (grows (same.trans size))
        (fun D spans kept => ?_) last) ⟨?_, next.symm⟩
      · have before := spans.earlier (grows (same.trans size))
        exact (obeys before kept).define _ name (before.scope e there)
      · exact Nat.lt_of_lt_of_eq (Nat.lt_succ_self _) (same.trans size).symm
    | _ =>
      refine .value (grows size) (moved.withScopes (grows size)
        (fun D spans => obeys (spans.earlier (grows size))) new) ⟨?_, next.symm⟩
      exact Nat.lt_of_lt_of_eq (Nat.lt_succ_self _) size.symm

/-! Combiners. -/

theorem Meaning.moves_combiner {value value' : Form} (image : Form.Image ρ w value value') :
    Moves ρ apart (Combiner.Image ρ) (combiner value) (combiner value') w := by
  obtain ⟨known, rfl⟩ := image
  have text := value.text_renumber (ρ := ρ)
  cases value with
  | combiner c => exact .pure ⟨known, rfl⟩
  | pair id car cdr =>
    simp only [Form.renumber, combiner] at text ⊢
    rw [text]
    exact .fail _
  | _ => exact .fail _

theorem Form.Obeys.compileAll {D : Discipline} {f : Form} (obeys : f.Obeys D) {next code : Code}
    (later : next.Obeys D) (compiled : f.compileAll next = .ok code) : code.Obeys D := by
  obtain ⟨x, read, rfl⟩ := Form.compileAll_eq_ok.mp compiled
  exact (read.obeys obeys).code later

theorem Meaning.moves_close (there : e < w.store.scopes.size) {parameters formal source : Form}
    {wraps : Bool} {b : Expr} (checked : formal.checkClosure parameters = .ok ())
    (read : source.ReadsAll b) (known : w.store.Knows fun D =>
      parameters.Obeys D ∧ formal.Obeys D ∧ source.Obeys D) :
    Moves ρ apart (Form.Image ρ) (close e parameters formal source wraps)
      (close (ρ.scope e) (parameters.renumber ρ) (formal.renumber ρ) (source.renumber ρ) wraps)
      w := by
  have compiled : source.compileAll .ret = .ok (b.code .ret) :=
    Form.compileAll_eq_ok.mpr ⟨b, read, rfl⟩
  have concur := source.concur_compileAll .ret .ret (ρ := ρ)
  rw [compiled] at concur
  generalize compiled' : (source.renumber ρ).compileAll .ret = outcome at concur
  cases concur with
  | ok _ body =>
    -- The image of the source compiles too, so what is closed over it is the image of the template.
    let t : Template := ⟨parameters, formal, source, b.code .ret, wraps⟩
    have image : t.renumber ρ = ⟨parameters.renumber ρ, formal.renumber ρ, source.renumber ρ, body,
        wraps⟩ := by
      rw [Template.renumber, compiled']
      rfl
    unfold close
    rw [compiled, compiled', ofExcept, ofExcept, pure_bind, pure_bind, ← image]
    refine moves_fresh.bind fun i _ later grows ⟨below, same⟩ => ?_
    subst same
    have operative : later.store.Knows (Combiner.Obeys · (.operative i e t)) := by
      intro D spans
      obtain ⟨p, f, s⟩ := known D (spans.earlier grows)
      exact ⟨spans.object i below, spans.scope e (Nat.lt_of_lt_of_le there grows.scopes),
        D.compiled _ ⟨checked, compiled⟩, p, f, s,
        s.compileAll (show Code.ret.Obeys D from trivial) compiled⟩
    cases wraps with
    | true => exact moves_wrap operative
    | false => exact .pure ⟨operative, rfl⟩

theorem Meaning.moves_accept (c inner : Combiner) (operands : Form) :
    Moves ρ apart (fun _ _ _ => ∃ xs, operands.exprs = .ok xs) (accept c inner operands)
      (accept (c.renumber ρ) (inner.renumber ρ) (operands.renumber ρ)) w := by
  have concur := operands.concur_arguments inner (inner.renumber ρ) (ρ := ρ)
  unfold accept
  rw [Combiner.name?_renumber]
  generalize compiled : operands.compileArguments inner = left at concur
  generalize (operands.renumber ρ).compileArguments (inner.renumber ρ) = right at concur
  cases concur with
  | ok =>
    obtain ⟨_, xs, _, read, _⟩ := Form.compileArguments_eq_ok compiled
    exact .pure ⟨xs, read⟩
  | error error => exact .fail _

theorem Meaning.moves_native (n : Native) {operands : Form}
    (known : w.store.Knows (operands.Obeys ·)) : Moves ρ apart (Form.Image ρ)
      (native n operands) (native n (operands.renumber ρ)) w := by
  unfold native
  rw [@Form.operands_renumber ρ operands (·.textDuring n) fun f => f.textDuring_renumber n]
  cases proper : operands.operands (·.textDuring n) with
  | error error => exact .fail _
  | ok args =>
    intro other moved
    obtain ⟨grows, same, after, values⟩ := moved.call n fun x member D spans =>
      (known D spans).operands proper x member
    change Ends ρ apart _ w (some ((w.call n args).1.mapError Exit.error, (w.call n args).2))
      (some ((other.call n (args.map (Form.renumber ρ))).1.mapError Exit.error,
        (other.call n (args.map (Form.renumber ρ))).2))
    rw [same]
    cases outcome : (w.call n args).1 with
    | error error => exact .error grows after
    | ok v => exact .value grows after ⟨values v outcome, rfl⟩

theorem Meaning.moves_acceptEval {operands : Form} (known : w.store.Knows (operands.Obeys ·)) :
    Moves ρ apart (fun later (read read' : Form × ScopeId) =>
        (∃ x, read.1.Reads x) ∧ Form.Image ρ later read.1 read'.1 ∧
          World.ScopeImage ρ later read.2 read'.2)
      (acceptEval operands) (acceptEval (operands.renumber ρ)) w := by
  unfold acceptEval
  rw [operands.operands_renumber Form.text_renumber]
  cases proper : operands.operands Form.text with
  | error error => exact .fail _
  | ok args =>
    have each (x : Form) (member : x ∈ args) : w.store.Knows (x.Obeys ·) :=
      fun D spans => (known D spans).operands proper x member
    rcases args with _ | ⟨form, _ | ⟨second, _ | ⟨third, rest⟩⟩⟩
    · exact .fail _
    · exact .fail _
    · have text := second.text_renumber (ρ := ρ)
      cases second with
      | environment d =>
        have concur := form.concur_compile .ret .ret (ρ := ρ)
        dsimp only [Except.map, List.map, Form.renumber]
        generalize compiled : form.compile .ret = left at concur
        generalize (form.renumber ρ).compile .ret = right at concur
        cases concur with
        | error error => exact .fail _
        | ok code =>
          obtain ⟨x, read, _⟩ := Form.compile_eq_ok.mp compiled
          refine .pure ⟨⟨x, read⟩, ⟨each form (by simp), rfl⟩, ?_, rfl⟩
          exact each (.environment d) (by simp) _ w.store.spans_discipline
      | pair | combiner =>
        dsimp only [Except.map, List.map, Form.renumber] at text ⊢
        rw [text]
        exact .fail _
      | _ => exact .fail _
    · cases second <;>
      · simp only [Except.map, List.map, Form.renumber, List.length_cons, List.length_map]
        exact .fail _

end

/-! Forms, by what they read as. -/

def Combiner.Moves (ρ : Renumbering) (apart : ScopeId → Option Scope) (fuel : Nat) : Prop :=
  ∀ {w : World} {c : Combiner} {operands : Form} {e : ScopeId}, w.store.Knows (c.Obeys ·) →
    w.store.Knows (operands.Obeys ·) → e < w.store.scopes.size →
      Meaning.Moves ρ apart (Form.Image ρ) (combine fuel c operands e)
        (combine fuel (c.renumber ρ) (operands.renumber ρ) (ρ.scope e)) w

section

variable {fuel : Nat} {w : World} {e : ScopeId}

theorem World.in_later {later : World} (there : e < w.store.scopes.size)
    (grows : w.store.Grows later.store) : e < later.store.scopes.size :=
  Nat.lt_of_lt_of_le there grows.scopes

mutual

theorem Form.Reads.moves (combines : Combiner.Moves ρ apart fuel) :
    ∀ {f : Form} {x : Expr}, f.Reads x → ∀ {w : World} {e : ScopeId}, w.store.Knows (f.Obeys ·) →
      e < w.store.scopes.size → Meaning.Moves ρ apart (Form.Image ρ)
        (f.evaluate (Combiner.combine fuel) e)
        ((f.renumber ρ).evaluate (Combiner.combine fuel) (ρ.scope e)) w
  | _, _, .refer, w, e, _, there => by
    simp only [Form.renumber, Form.evaluate]
    exact Meaning.moves_lookup there _
  | f, _, .constant notSymbol notPair, w, e, known, _ => by
    have value (g : Form) (symbol : g.symbol? = none) (pair : g.car? = none) (d : ScopeId) :
        g.evaluate (Combiner.combine fuel) d = pure g := by
      cases g with
      | symbol => cases symbol
      | pair => cases pair
      | _ => rfl
    rw [value f notSymbol notPair, value (f.renumber ρ) (by rwa [Form.symbol?_renumber])
      (by rw [Form.car?_renumber, notPair]; rfl)]
    exact .pure ⟨known, rfl⟩
  | _, _, .quote found, w, e, known, _ => by
    simp only [Form.renumber, Form.evaluate, SpecialForm.ofHead?_renumber, found]
    exact .pure ⟨fun D spans => (known D spans).cdr.car, rfl⟩
  | _, _, .consequent found t c, w, e, known, there => by
    simp only [Form.renumber, Form.evaluate, SpecialForm.ofHead?_renumber, found]
    refine (t.moves combines (fun D spans => (known D spans).cdr.car) there).bind
      fun v _ later grows ⟨_, same⟩ => ?_
    rw [same, Form.isFalse_renumber]
    split
    · exact .pure ⟨fun _ _ => trivial, rfl⟩
    · exact c.moves combines (fun D spans => (known D (spans.earlier grows)).cdr.cdr.car)
        (World.in_later there grows)
  | _, _, .conditional found t c a, w, e, known, there => by
    simp only [Form.renumber, Form.evaluate, SpecialForm.ofHead?_renumber, found]
    refine (t.moves combines (fun D spans => (known D spans).cdr.car) there).bind
      fun v _ later grows ⟨_, same⟩ => ?_
    rw [same, Form.isFalse_renumber]
    split
    · exact a.moves combines (fun D spans => (known D (spans.earlier grows)).cdr.cdr.cdr.car)
        (World.in_later there grows)
    · exact c.moves combines (fun D spans => (known D (spans.earlier grows)).cdr.cdr.car)
        (World.in_later there grows)
  | _, _, .define found _ v, w, e, known, there => by
    simp only [Form.renumber, Form.evaluate, SpecialForm.ofHead?_renumber, found]
    exact (v.moves combines (fun D spans => (known D spans).cdr.cdr.car) there).bind
      fun _ _ _ _ image => Meaning.moves_define e _ image
  | _, _, .assign found v, w, e, known, there => by
    simp only [Form.renumber, Form.evaluate, SpecialForm.ofHead?_renumber, found]
    exact (v.moves combines (fun D spans => (known D spans).cdr.cdr.car) there).bind
      fun _ _ _ _ image => Meaning.moves_assign e _ image
  | _, _, .vau found _ _ checked b, w, e, known, there => by
    simp only [Form.renumber, Form.evaluate, SpecialForm.ofHead?_renumber, found]
    exact Meaning.moves_close there checked b fun D spans =>
      ⟨(known D spans).cdr.car, (known D spans).cdr.cdr.car, (known D spans).cdr.cdr.cdr⟩
  | _, _, .lambda found _ _ checked b, w, e, known, there => by
    simp only [Form.renumber, Form.evaluate, SpecialForm.ofHead?_renumber, found]
    exact Meaning.moves_close there checked b fun D spans =>
      ⟨(known D spans).cdr.car, trivial, (known D spans).cdr.cdr⟩
  | _, _, .sequence found _ b, w, e, known, there => by
    simp only [Form.renumber, Form.evaluate, SpecialForm.ofHead?_renumber, found]
    exact b.moves combines (fun D spans => (known D spans).cdr) there
  | _, _, .callCC found _, w, e, _, _ => by
    simp only [Form.renumber, Form.evaluate, SpecialForm.ofHead?_renumber, found]
    -- The evaluator has no stack to capture, and gives up on both sides.
    exact .control
  | _, _, .combination found h, w, e, known, there => by
    simp only [Form.renumber, Form.evaluate, SpecialForm.ofHead?_renumber, found]
    refine (h.moves combines (fun D spans => (known D spans).car) there).bind
      fun v _ later grows image => (Meaning.moves_combiner image).bind
        fun c _ last more ⟨leads, same⟩ => ?_
    rw [same]
    exact combines leads (fun D spans => (known D (spans.earlier (grows.trans more))).cdr)
      (World.in_later there (grows.trans more))

theorem Form.ReadsAll.moves (combines : Combiner.Moves ρ apart fuel) :
    ∀ {f : Form} {x : Expr}, f.ReadsAll x → ∀ {w : World} {e : ScopeId},
      w.store.Knows (f.Obeys ·) → e < w.store.scopes.size → Meaning.Moves ρ apart (Form.Image ρ)
        (f.evaluateAll (Combiner.combine fuel) e)
        ((f.renumber ρ).evaluateAll (Combiner.combine fuel) (ρ.scope e)) w
  | f, _, .none notPair, w, e, _, _ => by
    have value (g : Form) (pair : g.car? = none) (d : ScopeId) :
        g.evaluateAll (Combiner.combine fuel) d = pure .inert := by
      cases g with
      | pair => cases pair
      | _ => rfl
    rw [value f notPair, value (f.renumber ρ) (by rw [Form.car?_renumber, notPair]; rfl)]
    exact .pure ⟨fun _ _ => trivial, rfl⟩
  | .pair _ form rest, _, .last notPair x, w, e, known, there => by
    have here := x.moves combines (fun D spans => (known D spans).car) there
    cases rest with
    | pair => cases notPair
    | _ => exact here
  | .pair _ form (.pair _ _ _), _, .more x rest, w, e, known, there => by
    refine (x.moves combines (fun D spans => (known D spans).car) there).bind
      fun _ _ later grows _ => ?_
    exact rest.moves combines (fun D spans => (known D (spans.earlier grows)).cdr)
      (World.in_later there grows)

end

/-! Combinations, by the fuel. -/

theorem Form.moves_operands (combines : Combiner.Moves ρ apart fuel) : ∀ {operands : Form}
    {xs : List Expr}, operands.exprs = .ok xs → ∀ {w : World} {e : ScopeId},
      w.store.Knows (operands.Obeys ·) → e < w.store.scopes.size →
      Meaning.Moves ρ apart (Form.Images ρ) (operands.evaluateOperands (Combiner.combine fuel) e)
        ((operands.renumber ρ).evaluateOperands (Combiner.combine fuel) (ρ.scope e)) w
  | .pair _ operand rest, xs, read, w, e, known, there => by
    obtain ⟨ys, readRest, read⟩ := Except.bind_eq_ok.mp read
    obtain ⟨y, readOperand, _⟩ := Except.bind_eq_ok.mp read
    refine ((Form.reads_of_expr readOperand).moves combines
      (fun D spans => (known D spans).car) there).bind fun v _ later grows ⟨value, same⟩ => ?_
    refine Meaning.moves_fresh.bind fun _ _ middle more _ => ?_
    refine (rest.moves_operands combines readRest
      (fun D spans => (known D (spans.earlier (grows.trans more))).cdr)
      (World.in_later there (grows.trans more))).bind fun vs _ last most ⟨values, same'⟩ => ?_
    refine .pure ⟨fun f member => ?_, by rw [same, same']; rfl⟩
    rcases List.mem_cons.mp member with rfl | member
    · exact value.later (more.trans most)
    · exact values f member
  | .nil, _, _, w, e, _, _ | .symbol _, _, _, w, e, _, _ | .int _, _, _, w, e, _, _
  | .real _, _, _, w, e, _, _ | .bool _, _, _, w, e, _, _ | .ignore, _, _, w, e, _, _
  | .inert, _, _, w, e, _, _ | .combiner _, _, _, w, e, _, _ | .environment _, _, _, w, e, _, _ =>
    .pure ⟨nofun, rfl⟩

theorem Combiner.moves_receive (combines : Combiner.Moves ρ apart fuel) {c : Combiner}
    (known : w.store.Knows (c.Obeys ·)) {values values' : List Form}
    (images : Form.Images ρ w values values') (there : e < w.store.scopes.size) :
    Meaning.Moves ρ apart (Form.Image ρ) (c.receive (combine fuel) e values)
      ((c.renumber ρ).receive (combine fuel) (ρ.scope e) values') w := by
  obtain ⟨each, rfl⟩ := images
  by_cases continuation : ∃ k, c = .continuation k
  · obtain ⟨k, rfl⟩ := continuation
    exact .control
  · have other : ∀ k, c ≠ .continuation k := fun k same => continuation ⟨k, same⟩
    have other' : ∀ k, c.renumber ρ ≠ .continuation k := by
      intro k same
      cases c <;> first | exact other _ rfl | cases same
    rw [receive_eq other, receive_eq other']
    refine (Meaning.moves_list each).bind fun args _ later grows ⟨given, same⟩ => ?_
    rw [same]
    exact combines (known.later grows) given (World.in_later there grows)

theorem Combiner.moves_arguments (combines : Combiner.Moves ρ apart fuel) (c : Combiner)
    {inner : Combiner} {operands : Form} (known : w.store.Knows (inner.Obeys ·))
    (given : w.store.Knows (operands.Obeys ·)) (there : e < w.store.scopes.size) :
    Meaning.Moves ρ apart (Form.Image ρ)
      (do
        Meaning.accept c inner operands
        inner.receive (combine fuel) e (← operands.evaluateOperands (combine fuel) e))
      (do
        Meaning.accept (c.renumber ρ) (inner.renumber ρ) (operands.renumber ρ)
        (inner.renumber ρ).receive (combine fuel) (ρ.scope e)
          (← (operands.renumber ρ).evaluateOperands (combine fuel) (ρ.scope e))) w := by
  refine (Meaning.moves_accept c inner operands).bind fun _ _ later grows ⟨xs, read⟩ => ?_
  refine (operands.moves_operands combines read (given.later grows)
    (World.in_later there grows)).bind fun vs _ last more images => ?_
  exact Combiner.moves_receive combines (known.later (grows.trans more)) images
    (World.in_later there (grows.trans more))

end

theorem Combiner.moves (ρ : Renumbering) (apart : ScopeId → Option Scope) (fuel : Nat) :
    Combiner.Moves ρ apart fuel := by
  induction fuel with
  | zero => exact fun _ _ _ => .nothing
  | succ fuel combines =>
    intro w c operands e known given there
    cases c with
    | operative id static t =>
      obtain ⟨parameters, formal, source, body, wraps⟩ := t
      have compiled : Template.Compiled ⟨parameters, formal, source, body, wraps⟩ :=
        (known _ w.store.spans_discipline).2.2.1
      obtain ⟨x, read, _⟩ := Form.compileAll_eq_ok.mp compiled.2
      refine (Meaning.moves_enter there (known _ w.store.spans_discipline).2.1 _ given).bind
        fun d _ later grows ⟨below, same⟩ => ?_
      rw [same]
      exact read.moves combines (fun D spans => (known D (spans.earlier grows)).2.2.2.2.2.1) below
    | applicative id inner =>
      exact moves_arguments combines _ (fun D spans => (known D spans).2) given there
    | native n => exact Meaning.moves_native n given
    | eval =>
      refine (Meaning.moves_acceptEval given).bind fun read read' later grows holds => ?_
      obtain ⟨⟨x, reads⟩, ⟨form, same⟩, below, same'⟩ := holds
      obtain ⟨f, d⟩ := read
      obtain ⟨f', d'⟩ := read'
      cases same
      cases same'
      exact reads.moves combines form below
    | continuation k => exact moves_arguments combines _ known given there

end Vau
