import Vau.Proofs.Discipline

/-! Scopes and natives keep a discipline: they move closures and continuations around, and neither
make nor open them. What they make is new, and numbered so. -/

set_option autoImplicit false

namespace Vau

variable {D : Discipline}

/-- Scopes that the discipline allows lead to nothing else, by their values or their parents. -/
structure Scopes.Obeys (D : Discipline) (scopes : Scopes) : Prop where
  value : ∀ e, D.scope e → ∀ binding ∈ scopes.bindings e, binding.2.Obeys D
  parent : ∀ e p, D.scope e → scopes.parent? e = some p → D.scope p

theorem Bindings.mem_put {bindings : Bindings} {name : String} {value : Form}
    {binding : String × Form} (member : binding ∈ bindings.put name value) :
    binding.2 = value ∨ binding ∈ bindings := by
  induction bindings with
  | nil => simp_all [put]
  | cons head rest ih =>
    obtain ⟨bound, old⟩ := head
    unfold put at member
    split at member
    · rcases List.mem_cons.mp member with rfl | member
      · exact .inl rfl
      · exact .inr (List.mem_cons_of_mem _ member)
    · rcases List.mem_cons.mp member with rfl | member
      · exact .inr (by simp)
      · exact (ih member).imp_right (List.mem_cons_of_mem _)

theorem Bindings.mem_of_get? {bindings : Bindings} {name : String} {value : Form}
    (found : bindings.get? name = some value) : ∃ bound, (bound, value) ∈ bindings := by
  induction bindings with
  | nil => cases found
  | cons head rest ih =>
    obtain ⟨bound, old⟩ := head
    unfold get? at found
    split at found
    · cases found
      exact ⟨bound, by simp⟩
    · obtain ⟨other, member⟩ := ih found
      exact ⟨other, List.mem_cons_of_mem _ member⟩

/-! Every value alike. -/

theorem Bindings.get?_map (bindings : Bindings) (f : Form → Form) (name : String) :
    Bindings.get? (bindings.map fun binding => (binding.1, f binding.2)) name =
      (bindings.get? name).map f := by
  induction bindings with
  | nil => rfl
  | cons head rest ih =>
    obtain ⟨bound, value⟩ := head
    rw [List.map_cons, get?, get?, ih]
    split <;> rfl

theorem Bindings.map_put (bindings : Bindings) (f : Form → Form) (name : String) (value : Form) :
    (bindings.put name value).map (fun binding => (binding.1, f binding.2)) =
      Bindings.put (bindings.map fun binding => (binding.1, f binding.2)) name (f value) := by
  induction bindings with
  | nil => rfl
  | cons head rest ih =>
    obtain ⟨bound, old⟩ := head
    rw [List.map_cons, put, put, ← ih]
    split <;> rfl

namespace Scopes

theorem bindings_define (scopes : Scopes) (e d : ScopeId) (name : String) (value : Form) :
    (scopes.define e name value).bindings d =
      if d = e ∧ e < scopes.size then (scopes.bindings e).put name value
      else scopes.bindings d := by
  unfold define bindings
  by_cases same : d = e
  · subst same
    by_cases bound : d < scopes.size
    · simp [bound, Array.getElem_modify]
    · simp [bound]
  · simp [same, Array.getElem?_modify, Ne.symm same]

theorem bindings_extend (scopes : Scopes) (parent : Option ScopeId) (d : ScopeId) :
    (scopes.extend parent).2.bindings d = scopes.bindings d := by
  unfold extend bindings
  by_cases last : d = scopes.size
  · subst last
    simp
  · simp [Array.getElem?_push, last]

theorem bindings_clear (scopes : Scopes) (e d : ScopeId) :
    (scopes.clear e).bindings d = if d = e then [] else scopes.bindings d := by
  unfold clear bindings
  by_cases same : d = e
  · subst same
    simp [Array.getElem?_modify]
    cases scopes[d]? <;> rfl
  · simp [same, Array.getElem?_modify, Ne.symm same]

theorem parent?_define (scopes : Scopes) (e d : ScopeId) (name : String) (value : Form) :
    (scopes.define e name value).parent? d = scopes.parent? d := by
  unfold define parent?
  rw [Array.getElem?_modify]
  split
  · cases scopes[d]? <;> rfl
  · rfl

theorem parent?_clear (scopes : Scopes) (e d : ScopeId) :
    (scopes.clear e).parent? d = scopes.parent? d := by
  unfold clear parent?
  rw [Array.getElem?_modify]
  split
  · cases scopes[d]? <;> rfl
  · rfl

theorem parent?_extend (scopes : Scopes) (parent : Option ScopeId) (d : ScopeId) :
    (scopes.extend parent).2.parent? d = if d = scopes.size then parent else scopes.parent? d := by
  unfold extend parent?
  rw [Array.getElem?_push]
  split <;> rfl

theorem size_define (scopes : Scopes) (e : ScopeId) (name : String) (value : Form) :
    (scopes.define e name value).size = scopes.size :=
  Array.size_modify

theorem size_clear (scopes : Scopes) (e : ScopeId) : (scopes.clear e).size = scopes.size :=
  Array.size_modify

theorem size_extend (scopes : Scopes) (parent : Option ScopeId) :
    (scopes.extend parent).2.size = scopes.size + 1 :=
  Array.size_push _

theorem size_set {scopes changed : Scopes} {e : ScopeId} {name : String} {value : Form}
    (assigned : scopes.set e name value = .ok changed) : changed.size = scopes.size := by
  unfold Scopes.set at assigned
  split at assigned
  · cases assigned
    exact size_define _ _ _ _
  · cases assigned

theorem size_bind (scopes : Scopes) (e : ScopeId) (parameters operands : Form) :
    (scopes.bind e parameters operands).2.size = scopes.size := by
  fun_induction Scopes.bind scopes e parameters operands with
  | case1 => exact size_define _ _ _ _
  | case4 scopes id car cdr id' first rest scopes' bound ih ih' =>
    rw [bound] at ih
    exact ih'.trans ih
  | case5 scopes id car cdr id' first rest failed ih => exact ih
  | case2 | case3 | case6 | case7 | case8 => rfl

theorem Obeys.define {scopes : Scopes} (obeys : scopes.Obeys D) (e : ScopeId) (name : String)
    {value : Form} (new : value.Obeys D) : (scopes.define e name value).Obeys D := by
  refine ⟨fun d allowed binding member => ?_, fun d p allowed found => ?_⟩
  · rw [bindings_define] at member
    split at member
    · rename_i same
      rcases Bindings.mem_put member with rfl | member
      · exact new
      · exact obeys.value e (same.1 ▸ allowed) binding member
    · exact obeys.value d allowed binding member
  · rw [parent?_define] at found
    exact obeys.parent d p allowed found

theorem Obeys.extend {scopes : Scopes} (obeys : scopes.Obeys D) {parent : Option ScopeId}
    (allowed : ∀ p, parent = some p → D.scope p) : (scopes.extend parent).2.Obeys D := by
  refine ⟨fun d here binding member => ?_, fun d p here found => ?_⟩
  · rw [bindings_extend] at member
    exact obeys.value d here binding member
  · rw [parent?_extend] at found
    split at found
    · exact allowed p found
    · exact obeys.parent d p here found

theorem Obeys.clear {scopes : Scopes} (obeys : scopes.Obeys D) (e : ScopeId) :
    (scopes.clear e).Obeys D := by
  refine ⟨fun d allowed binding member => ?_, fun d p allowed found => ?_⟩
  · rw [bindings_clear] at member
    split at member
    · cases member
    · exact obeys.value d allowed binding member
  · rw [parent?_clear] at found
    exact obeys.parent d p allowed found

theorem Obeys.set {scopes changed : Scopes} (obeys : scopes.Obeys D) {e : ScopeId} {name : String}
    {value : Form} (new : value.Obeys D) (assigned : scopes.set e name value = .ok changed) :
    changed.Obeys D := by
  unfold Scopes.set at assigned
  split at assigned
  · cases assigned
    exact obeys.define _ name new
  · cases assigned

theorem Obeys.chainOf {scopes : Scopes} (obeys : scopes.Obeys D) (n : Nat) {e : ScopeId}
    (allowed : D.scope e) : ∀ d ∈ scopes.chainOf n e, D.scope d := by
  induction n generalizing e with
  | zero => nofun
  | succ n ih =>
    intro d member
    rcases List.mem_cons.mp member with rfl | member
    · exact allowed
    · split at member
      · rename_i p found
        exact ih (obeys.parent e p allowed found) d member
      · cases member

theorem Obeys.lookup {scopes : Scopes} (obeys : scopes.Obeys D) {e : ScopeId}
    (allowed : D.scope e) {name : String} {value : Form}
    (found : scopes.lookup e name = .ok value) : value.Obeys D := by
  unfold Scopes.lookup Scopes.get? at found
  split at found
  · rename_i value binding
    cases found
    obtain ⟨d, member, bound⟩ := List.exists_of_findSome?_eq_some binding
    obtain ⟨other, member'⟩ := Bindings.mem_of_get? bound
    exact obeys.value d (obeys.chainOf _ allowed d member) _ member'
  · cases found

theorem Obeys.bind {scopes : Scopes} (obeys : scopes.Obeys D) (e : ScopeId) (parameters : Form)
    {operands : Form} (values : operands.Obeys D) :
    (scopes.bind e parameters operands).2.Obeys D := by
  fun_induction Scopes.bind scopes e parameters operands with
  | case1 scopes name operand => exact obeys.define e name values
  | case4 scopes id car cdr id' first rest scopes' bound ih ih' =>
    have here := ih obeys values.car
    rw [bound] at here
    exact ih' here values.cdr
  | case5 scopes id car cdr id' first rest failed ih => exact ih obeys values.car
  | case2 | case3 | case6 | case7 | case8 => exact obeys

end Scopes

structure Store.Grows (store later : Store) : Prop where
  fresh : store.fresh ≤ later.fresh
  scopes : store.scopes.size ≤ later.scopes.size

theorem Store.Grows.refl (store : Store) : store.Grows store :=
  ⟨Nat.le_refl _, Nat.le_refl _⟩

theorem Store.Grows.trans {store middle later : Store} (first : store.Grows middle)
    (rest : middle.Grows later) : store.Grows later :=
  ⟨Nat.le_trans first.fresh rest.fresh, Nat.le_trans first.scopes rest.scopes⟩

/-- The discipline allows the numbers of what the later store has in addition. -/
structure Discipline.Allows (D : Discipline) (store later : Store) : Prop where
  object : ∀ i : Nat, store.fresh ≤ i → i < later.fresh → D.object i
  scope : ∀ e : Nat, store.scopes.size ≤ e → e < later.scopes.size → D.scope e

namespace Discipline.Allows

variable {store middle later : Store}

theorem first (allows : D.Allows store later) (grows : middle.Grows later) :
    D.Allows store middle :=
  ⟨fun i low high => allows.object i low (Nat.lt_of_lt_of_le high grows.fresh),
    fun e low high => allows.scope e low (Nat.lt_of_lt_of_le high grows.scopes)⟩

theorem rest (allows : D.Allows store later) (grows : store.Grows middle) :
    D.Allows middle later :=
  ⟨fun i low high => allows.object i (Nat.le_trans grows.fresh low) high,
    fun e low high => allows.scope e (Nat.le_trans grows.scopes low) high⟩

end Discipline.Allows

/-- An action takes nothing away. From scopes that obey it leads to such scopes, and its results
are as described, if what is given holds and its new numbers are allowed. -/
def Action.Yields (D : Discipline) (given : Prop) {α : Type} (result : α → Prop)
    (action : Action α) : Prop :=
  ∀ store : Store, store.Grows (action.run store).2 ∧
    (given → store.scopes.Obeys D → D.Allows store (action.run store).2 →
      (action.run store).2.scopes.Obeys D ∧ ∀ a, (action.run store).1 = .ok a → result a)

namespace Action

variable {α β : Type} {given : Prop} {result : α → Prop}

theorem run_bind (action : Action α) (k : α → Action β) (store : Store) :
    (action >>= k).run store =
      match action.run store with
      | (.ok a, store) => (k a).run store
      | (.error e, store) => (.error e, store) := by
  change ExceptT.bindCont k (action.run store).1 (action.run store).2 = _
  rcases action.run store with ⟨outcome, store⟩
  cases outcome <;> rfl

theorem Yields.pure {a : α} (holds : given → result a) : Yields D given result (pure a) := by
  refine fun store => ⟨.refl store, fun assumed obeys _ => ⟨obeys, fun b same => ?_⟩⟩
  cases same
  exact holds assumed

theorem Yields.throw (e : Error) : Yields D given result (throw e) := by
  refine fun store => ⟨.refl store, fun _ obeys _ => ⟨obeys, fun b same => ?_⟩⟩
  cases same

theorem Yields.bind {action : Action α} (first : Yields D given result action) {k : α → Action β}
    {result' : β → Prop} (later : ∀ a, Yields D (given ∧ result a) result' (k a)) :
    Yields D given result' (action >>= k) := by
  intro store
  rw [run_bind]
  obtain ⟨grows, holds⟩ := first store
  rcases ran : action.run store with ⟨outcome, middle⟩
  rw [ran] at grows holds
  cases outcome with
  | error e =>
    refine ⟨grows, fun assumed obeys allows => ⟨(holds assumed obeys allows).1, nofun⟩⟩
  | ok a =>
    obtain ⟨grows', holds'⟩ := later a middle
    refine ⟨grows.trans grows', fun assumed obeys allows => ?_⟩
    obtain ⟨kept, is⟩ := holds assumed obeys (allows.first grows')
    exact holds' ⟨assumed, is a rfl⟩ kept (allows.rest grows)

theorem yields_ofExcept {outcome : Except Error α}
    (holds : given → ∀ a, outcome = .ok a → result a) :
    Yields D given result (ofExcept outcome : Action α) := by
  cases outcome with
  | ok a => exact .pure fun assumed => holds assumed a rfl
  | error e => exact .throw e

theorem yields_fresh : Yields D given D.object Action.fresh := by
  refine fun store => ⟨⟨Nat.le_succ _, Nat.le_refl _⟩, fun _ obeys allows => ⟨obeys, ?_⟩⟩
  intro id same
  cases same
  exact allows.object _ (Nat.le_refl _) (Nat.lt_succ_self _)

theorem yields_cons {car cdr : Form} (both : given → car.Obeys D ∧ cdr.Obeys D) :
    Yields D given (Form.Obeys D) (cons car cdr) :=
  yields_fresh.bind fun _ => .pure fun ⟨assumed, new⟩ => ⟨new, both assumed⟩

theorem yields_wrap {c : Combiner} (inner : given → c.Obeys D) :
    Yields D given (Form.Obeys D) (wrap c) :=
  yields_fresh.bind fun _ => .pure fun ⟨assumed, new⟩ => ⟨new, inner assumed⟩

theorem yields_newScope {parent : Option ScopeId}
    (allowed : given → ∀ p, parent = some p → D.scope p) :
    Yields D given D.scope (newScope parent) := by
  intro store
  have size := Scopes.size_extend store.scopes parent
  refine ⟨⟨Nat.le_refl _, Nat.le.intro size.symm⟩, fun assumed obeys allows => ?_⟩
  refine ⟨obeys.extend (allowed assumed), fun e same => ?_⟩
  cases same
  exact allows.scope _ (Nat.le_refl _) (Nat.lt_of_lt_of_eq (Nat.lt_succ_self _) size.symm)

theorem yields_define (e : ScopeId) (name : String) {value : Form} (new : given → value.Obeys D) :
    Yields D given (fun _ => True) (define e name value) := by
  intro store
  have size := Scopes.size_define store.scopes e name value
  exact ⟨⟨Nat.le_refl _, Nat.le_of_eq size.symm⟩,
    fun assumed obeys _ => ⟨obeys.define e name (new assumed), fun _ _ => trivial⟩⟩

theorem run_get (store : Store) : (get : Action Store).run store = (.ok store, store) := rfl

theorem run_write (text : String) (store : Store) :
    (write text).run store = match store.output.write text with
      | (.ok (), output) => (.ok (), { store with output })
      | (.error fault, output) => (.error (.of (.output fault)), { store with output }) := by
  unfold write
  rw [run_bind, run_get]
  dsimp only
  rcases store.output.write text with ⟨_ | _, output⟩ <;> rfl

theorem run_flush (store : Store) :
    flush.run store = match store.output.flush with
      | .ok () => (.ok (), store)
      | .error fault => (.error (.of (.output fault)), store) := by
  unfold flush
  rw [run_bind, run_get]
  dsimp only
  rcases store.output.flush with _ | _ <;> rfl

theorem yields_write (text : String) : Yields D given (fun _ => True) (write text) := by
  intro store
  rw [run_write]
  rcases store.output.write text with ⟨_ | _, output⟩
  · exact ⟨⟨Nat.le_refl _, Nat.le_refl _⟩, fun _ obeys _ => ⟨⟨obeys.value, obeys.parent⟩, nofun⟩⟩
  · exact ⟨⟨Nat.le_refl _, Nat.le_refl _⟩,
      fun _ obeys _ => ⟨⟨obeys.value, obeys.parent⟩, fun _ _ => trivial⟩⟩

theorem yields_flush : Yields D given (fun _ => True) flush := by
  intro store
  rw [run_flush]
  cases store.output.flush with
  | error fault => exact ⟨.refl store, fun _ obeys _ => ⟨obeys, nofun⟩⟩
  | ok _ => exact ⟨.refl store, fun _ obeys _ => ⟨obeys, fun _ _ => trivial⟩⟩

end Action

namespace Primitive

variable {given : Prop}

theorem yields_one {args : List Form} (each : given → ∀ x ∈ args, x.Obeys D) :
    Action.Yields D given (Form.Obeys D) (one args) := by
  unfold one
  split
  · exact .pure fun assumed => each assumed _ (by simp)
  · exact .throw _

theorem yields_two {args : List Form} (each : given → ∀ x ∈ args, x.Obeys D) :
    Action.Yields D given (fun pair => pair.1.Obeys D ∧ pair.2.Obeys D) (two args) := by
  unfold two
  split
  · exact .pure fun assumed => ⟨each assumed _ (by simp), each assumed _ (by simp)⟩
  · exact .throw _

theorem yields_test {args : List Form} (holds : Form → Bool) :
    Action.Yields D given (Form.Obeys D) (test args holds) := by
  unfold test one
  split
  · exact .pure fun _ => trivial
  · exact .throw _

theorem yields_part {α : Type} (result : α → Prop) (p : Primitive) (expected : String) (f : Form)
    {found : Option α} (holds : given → ∀ a, found = some a → result a) :
    Action.Yields D given result (p.part expected f found) := by
  cases found with
  | some a => exact .pure fun assumed => holds assumed a rfl
  | none => exact .throw _

theorem yields_numbers (p : Primitive) (args : List Form) :
    Action.Yields D given (fun _ => True) (p.numbers args) :=
  Action.yields_ofExcept fun _ _ _ => trivial

theorem yields_count (a : Arity) (args : List Form) :
    Action.Yields D given (fun _ => True) (ofExcept (a.check args.length)) :=
  Action.yields_ofExcept fun _ _ _ => trivial

theorem yields_compare (p : Primitive) (args : List Form) (holds : Ordering → Bool) :
    Action.Yields D given (Form.Obeys D) (p.compare args holds) :=
  (yields_numbers p args).bind fun _ => .pure fun _ => trivial

theorem obeys_number (n : Number) : n.form.Obeys D := by cases n <;> trivial

theorem yields_call (p : Primitive) {args : List Form} (each : given → ∀ x ∈ args, x.Obeys D) :
    Action.Yields D given (Form.Obeys D) (p.call args) := by
  cases p
  case add | multiply =>
    exact (yields_numbers _ args).bind fun _ => .pure fun _ => obeys_number _
  case subtract =>
    refine (yields_count _ args).bind fun _ => ?_
    exact (yields_numbers _ args).bind fun _ => .pure fun _ => obeys_number _
  case divide =>
    refine (yields_count _ args).bind fun _ => (yields_numbers _ args).bind fun _ => ?_
    exact (Action.yields_ofExcept fun _ _ _ => trivial).bind fun _ => .pure fun _ => obeys_number _
  case numberEqual | less | greater | atMost | atLeast => exact yields_compare _ args _
  case same | equal => exact (yields_two each).bind fun _ => .pure fun _ => trivial
  case cons => exact (yields_two each).bind fun _ => Action.yields_cons And.right
  case car =>
    refine (yields_one each).bind fun x => yields_part _ _ _ x fun ⟨_, obeys⟩ a found => ?_
    cases x <;> cases found
    exact obeys.car
  case cdr =>
    refine (yields_one each).bind fun x => yields_part _ _ _ x fun ⟨_, obeys⟩ a found => ?_
    cases x <;> cases found
    exact obeys.cdr
  case wrap =>
    refine (yields_one each).bind fun x => ?_
    refine (yields_part (Combiner.Obeys D) _ _ x fun ⟨_, obeys⟩ c found => ?_).bind fun _ =>
      Action.yields_wrap And.right
    cases x <;> cases found
    exact obeys
  case unwrap =>
    refine (yields_one each).bind fun x => ?_
    refine (yields_part (Combiner.Obeys D) _ _ x fun ⟨_, obeys⟩ c found => ?_).bind fun c => ?_
    · refine (yields_part (Combiner.Obeys D) _ _ x fun ⟨_, inner⟩ c' found => ?_).bind fun _ =>
        .pure And.right
      cases c <;> cases found
      exact inner.2
    · cases x <;> cases found
      exact obeys
  case makeEnvironment =>
    rcases args with _ | ⟨x, _ | ⟨y, rest⟩⟩
    · exact (Action.yields_newScope fun _ _ same => by cases same).bind fun _ => .pure And.right
    · refine (yields_part D.scope _ _ _ fun assumed e found => ?_).bind fun parent => ?_
      · have obeys := each assumed x (by simp)
        cases x <;> cases found
        exact obeys
      · refine Action.Yields.bind (Action.yields_newScope ?_) fun _ => .pure And.right
        rintro ⟨_, allowed⟩ p ⟨⟩
        exact allowed
    · exact .throw _
  case display =>
    refine (yields_one each).bind fun _ => (Action.yields_write _).bind fun _ => ?_
    exact .pure fun _ => trivial
  case newline =>
    refine (yields_count _ args).bind fun _ => (Action.yields_write _).bind fun _ => ?_
    exact Action.yields_flush.bind fun _ => .pure fun _ => trivial
  all_goals exact yields_test _

end Primitive

end Vau
