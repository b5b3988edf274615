import Vau.Proofs.Discipline

/-! Other numbers for objects and scopes.

Nothing that looks at a form tells it from its image under a map that only changes numbers, when
the map keeps which forms are the same. So such a map goes through all that is read off a form. -/

set_option autoImplicit false

namespace Vau

/-- A map of forms, and of the numbers in them, that natives cannot tell. -/
structure Likeness where
  form : Form → Form
  combiner : Combiner → Combiner
  object : Identity → Identity
  scope : ScopeId → ScopeId
  pair : ∀ id car cdr, form (.pair id car cdr) = .pair (object id) (form car) (form cdr)
  combined : ∀ c, form (.combiner c) = .combiner (combiner c)
  environment : ∀ e, form (.environment e) = .environment (scope e)
  atom : ∀ f : Form, f.car? = none → f.combiner? = none → f.environment? = none → form f = f
  applicative : ∀ id c, combiner (.applicative id c) = .applicative (object id) (combiner c)
  underlying? : ∀ c, (combiner c).underlying? = c.underlying?.map combiner
  isOperative : ∀ c, (combiner c).isOperative = c.isOperative
  textDuring : ∀ (f : Form) (n : Native), (form f).textDuring n = f.textDuring n
  isSame : ∀ f g, (form f).isSame (form g) = f.isSame g
  isEqual : ∀ f g, (form f).isEqual (form g) = f.isEqual g

def Likeness.same : Likeness where
  form := id
  combiner := id
  object := id
  scope := id
  pair _ _ _ := rfl
  combined _ := rfl
  environment _ := rfl
  atom _ _ _ _ := rfl
  applicative _ _ := rfl
  underlying? _ := Option.map_id_apply.symm
  isOperative _ := rfl
  textDuring _ _ := rfl
  isSame _ _ := rfl
  isEqual _ _ := rfl

theorem Form.isEqual_of_atom {f g : Form} (atom : f.car? = none ∨ g.car? = none) :
    f.isEqual g = f.isSame g := by
  cases f <;> cases g
  case pair.pair => simp [Form.car?] at atom
  all_goals rfl

/-- A map that goes through pairs and keeps which forms are the same keeps which are equal. -/
theorem Form.isEqual_image {form : Form → Form} {object : Identity → Identity}
    (pair : ∀ id car cdr, form (.pair id car cdr) = .pair (object id) (form car) (form cdr))
    (atom : ∀ f : Form, f.car? = none → (form f).car? = none)
    (same : ∀ f g, (form f).isSame (form g) = f.isSame g) (f g : Form) :
    (form f).isEqual (form g) = f.isEqual g := by
  induction f, g using Form.isEqual.induct with
  | case1 i a d j a' d' first rest =>
    have here : (object i == object j) = (i == j) := by
      have here := same (.pair i a d) (.pair j a' d')
      rwa [pair, pair] at here
    rw [pair, pair, isEqual, isEqual, here, first, rest]
  | case2 f g other =>
    have atoms : f.car? = none ∨ g.car? = none := by
      cases f with
      | pair =>
        cases g with
        | pair => exact (other _ _ _ _ _ _ rfl rfl).elim
        | _ => exact .inr rfl
      | _ => exact .inl rfl
    rw [isEqual_of_atom atoms, isEqual_of_atom (atoms.imp (atom f) (atom g)), same]

theorem Except.bind_eq_map {α β γ δ : Type} {m : Except Error α} {m' : Except Error β} {f : α → β}
    {g : γ → δ} {k : α → Except Error γ} {k' : β → Except Error δ} (first : m' = m.map f)
    (later : ∀ a, k' (f a) = (k a).map g) : (m' >>= k') = (m >>= k).map g := by
  cases first
  cases m with
  | error error => rfl
  | ok a => exact later a

theorem Except.eq_map_id {α : Type} {m : Except Error α} : m = m.map id := by cases m <;> rfl

namespace Likeness

variable {L : Likeness}

inductive Kind (L : Likeness) : Form → Form → Prop
  | pair (id : Identity) (car cdr : Form) :
    Kind L (.pair id car cdr) (.pair (L.object id) (L.form car) (L.form cdr))
  | combiner (c : Combiner) : Kind L (.combiner c) (.combiner (L.combiner c))
  | environment (e : ScopeId) : Kind L (.environment e) (.environment (L.scope e))
  | nil : Kind L .nil .nil
  | symbol (name : String) : Kind L (.symbol name) (.symbol name)
  | int (value : Int64) : Kind L (.int value) (.int value)
  | real (value : Float) : Kind L (.real value) (.real value)
  | bool (value : Bool) : Kind L (.bool value) (.bool value)
  | ignore : Kind L .ignore .ignore
  | inert : Kind L .inert .inert

theorem kind (L : Likeness) (f : Form) : L.Kind f (L.form f) := by
  cases f with
  | pair id car cdr => exact L.pair id car cdr ▸ .pair id car cdr
  | combiner c => exact L.combined c ▸ .combiner c
  | environment e => exact L.environment e ▸ .environment e
  | _ =>
    rw [L.atom _ rfl rfl rfl]
    constructor

theorem reads (L : Likeness) {β : Type} (read : Form → β)
    (pair : ∀ i j a d a' d', read (.pair i a d) = read (.pair j a' d'))
    (combiner : ∀ c d, read (.combiner c) = read (.combiner d))
    (environment : ∀ d e, read (.environment d) = read (.environment e)) (f : Form) :
    read (L.form f) = read f := by
  have kind := L.kind f
  generalize L.form f = image at kind
  cases kind with
  | pair => exact pair ..
  | combiner => exact combiner ..
  | environment => exact environment ..
  | _ => rfl

theorem car? (f : Form) : (L.form f).car? = f.car?.map L.form := by
  have kind := L.kind f
  generalize L.form f = image at kind
  cases kind <;> rfl

theorem cdr? (f : Form) : (L.form f).cdr? = f.cdr?.map L.form := by
  have kind := L.kind f
  generalize L.form f = image at kind
  cases kind <;> rfl

theorem combiner? (f : Form) : (L.form f).combiner? = f.combiner?.map L.combiner := by
  have kind := L.kind f
  generalize L.form f = image at kind
  cases kind <;> rfl

theorem environment? (f : Form) : (L.form f).environment? = f.environment?.map L.scope := by
  have kind := L.kind f
  generalize L.form f = image at kind
  cases kind <;> rfl

theorem symbol? (f : Form) : (L.form f).symbol? = f.symbol? :=
  L.reads _ (fun _ _ _ _ _ _ => rfl) (fun _ _ => rfl) (fun _ _ => rfl) f

theorem isNil (f : Form) : (L.form f).isNil = f.isNil :=
  L.reads _ (fun _ _ _ _ _ _ => rfl) (fun _ _ => rfl) (fun _ _ => rfl) f

theorem ofHead? (f : Form) : SpecialForm.ofHead? (L.form f) = SpecialForm.ofHead? f :=
  L.reads _ (fun _ _ _ _ _ _ => rfl) (fun _ _ => rfl) (fun _ _ => rfl) f

theorem items : ∀ f : Form, (L.form f).items = f.items.map L.form
  | .pair id car cdr => by
    rw [L.pair]
    exact congrArg (L.form car :: ·) (items cdr)
  | .combiner c => congrArg Form.items (L.combined c)
  | .environment e => congrArg Form.items (L.environment e)
  | .nil | .symbol _ | .int _ | .real _ | .bool _ | .ignore | .inert =>
    congrArg Form.items (L.atom _ rfl rfl rfl)

theorem ending : ∀ f : Form, (L.form f).ending = L.form f.ending
  | .pair id car cdr => by
    rw [L.pair]
    exact ending cdr
  | .combiner c => by
    rw [L.combined]
    exact (L.combined c).symm
  | .environment e => by
    rw [L.environment]
    exact (L.environment e).symm
  | .nil | .symbol _ | .int _ | .real _ | .bool _ | .ignore | .inert => by
    rw [L.atom _ rfl rfl rfl]
    exact (L.atom _ rfl rfl rfl).symm

theorem list? (f : Form) : (L.form f).list? = f.list?.map (List.map L.form) := by
  unfold Form.list?
  rw [L.ending, L.isNil, L.items]
  split <;> rfl

theorem operands (f : Form) {text : Form → String} (written : ∀ f, text (L.form f) = text f) :
    (L.form f).operands text = (f.operands text).map (List.map L.form) := by
  unfold Form.operands
  rw [L.list?, written]
  cases f.list? <;> rfl

theorem chain (items : List Form) (tail : Form) {fresh fresh' : Nat}
    (shifts : ∀ n : Nat, L.object (fresh + n) = fresh' + n) :
    Form.chain (items.map L.form) (L.form tail) fresh' =
      (L.form (Form.chain items tail fresh).1, fresh' + items.length) := by
  induction items with
  | nil => rfl
  | cons head rest ih =>
    change (Form.pair (Form.chain (rest.map L.form) (L.form tail) fresh').2 (L.form head)
      (Form.chain (rest.map L.form) (L.form tail) fresh').1,
      (Form.chain (rest.map L.form) (L.form tail) fresh').2 + 1) =
      (L.form (.pair (Form.chain rest tail fresh).2 head (Form.chain rest tail fresh).1), _)
    rw [ih, L.pair, Form.fresh_chain, shifts]
    rfl

inductive Listed (L : Likeness) : Form → Form → Prop
  | nil : Listed L .nil .nil
  | pair (id : Identity) (head : Form) {rest image : Form} : L.form rest = image →
    Listed L rest image → Listed L (.pair id head rest) (.pair (L.object id) (L.form head) image)

theorem listed (L : Likeness) : ∀ {f : Form}, f.ending.isNil → L.Listed f (L.form f)
  | .pair id head _, proper => L.pair id head _ ▸ .pair id head rfl (L.listed proper)
  | .nil, _ => (L.atom .nil rfl rfl rfl).symm ▸ .nil

/-! Reading. -/

theorem form_ignore : L.form .ignore = .ignore := L.atom _ rfl rfl rfl

theorem form_inert : L.form .inert = .inert := L.atom _ rfl rfl rfl

def expr (L : Likeness) : Expr → Expr
  | .refer name => .refer name
  | .constant value => .constant (L.form value)
  | .conditional test consequent alternative =>
    .conditional (L.expr test) (L.expr consequent) (L.expr alternative)
  | .define parameters value => .define (L.form parameters) (L.expr value)
  | .assign target value => .assign target (L.expr value)
  | .close parameters formal source body wraps =>
    .close (L.form parameters) (L.form formal) (L.form source) (L.expr body) wraps
  | .sequence first rest => .sequence (L.expr first) (L.expr rest)
  | .capture receiver => .capture (L.expr receiver)
  | .combine operator operands => .combine (L.expr operator) (L.form operands)

theorem expr_of_value (L : Likeness) {f : Form} (notSymbol : f.symbol? = none)
    (notPair : f.car? = none) : (L.form f).expr = f.expr.map L.expr := by
  have read : (L.form f).Reads (.constant (L.form f)) :=
    .constant (by rw [L.symbol?, notSymbol]) (by rw [L.car?, notPair]; rfl)
  rw [read.expr, (Form.Reads.constant notSymbol notPair).expr]
  rfl

theorem body_of_atom (L : Likeness) {f : Form} (notPair : f.car? = none) :
    (L.form f).body = f.body.map L.expr := by
  have none : (L.form f).ReadsAll (.constant .inert) := .none (by rw [L.car?, notPair]; rfl)
  rw [none.body, (Form.ReadsAll.none notPair).body]
  exact congrArg (fun value => Except.ok (Expr.constant value)) L.form_inert.symm

/-- Errors carry texts, so forms that are read alike are written alike. -/
def Legible (L : Likeness) : Prop := ∀ f : Form, (L.form f).text = f.text

namespace Legible

theorem parametersAfter (legible : L.Legible) : ∀ (f : Form) (seen : List String),
    (L.form f).parametersAfter seen = f.parametersAfter seen
  | .pair id car cdr, seen => by
    rw [L.pair]
    simp only [Form.parametersAfter, legible.parametersAfter car, legible.parametersAfter cdr]
  | .combiner c, seen => by
    have text := legible (.combiner c)
    rw [L.combined] at text ⊢
    unfold Form.parametersAfter
    rw [text]
  | .environment e, seen => by
    have text := legible (.environment e)
    rw [L.environment] at text ⊢
    unfold Form.parametersAfter
    rw [text]
  | .symbol _, _ | .nil, _ | .ignore, _ | .int _, _ | .real _, _ | .bool _, _ | .inert, _ => by
    rw [L.atom _ rfl rfl rfl]

theorem checkParameters (legible : L.Legible) (f : Form) :
    (L.form f).checkParameters = f.checkParameters := by
  unfold Form.checkParameters
  rw [legible.parametersAfter]

theorem checkClosure (legible : L.Legible) (formal parameters : Form) :
    (L.form formal).checkClosure (L.form parameters) = formal.checkClosure parameters := by
  unfold Form.checkClosure
  simp only [legible.parametersAfter, legible formal]
  cases formal with
  | pair => rw [L.pair]
  | combiner => rw [L.combined]
  | environment => rw [L.environment]
  | _ => rw [L.atom _ rfl rfl rfl]

theorem checkClosure_ignore (legible : L.Legible) (parameters : Form) :
    Form.ignore.checkClosure (L.form parameters) = Form.ignore.checkClosure parameters := by
  have same := legible.checkClosure .ignore parameters
  rwa [L.form_ignore] at same

mutual

theorem expr (legible : L.Legible) : ∀ f : Form, (L.form f).expr = f.expr.map L.expr
  | .pair id head operands => by
    rw [L.pair, Form.expr, Form.expr, L.ofHead?, L.ending, L.isNil, L.items, List.length_map]
    cases SpecialForm.ofHead? head with
    | none => exact Except.bind_eq_map (legible.expr head) fun _ => rfl
    | some found =>
      obtain ⟨special, name⟩ := found
      dsimp only
      by_cases proper : operands.ending.isNil
      · simp only [proper, Bool.not_true, Bool.false_eq_true, ↓reduceIte]
        have body := legible.body operands
        have listed := L.listed proper
        generalize L.form operands = image at body listed
        -- Where the operands are too few or too many, that is by the same count on both sides.
        cases special with
        | quote => rcases listed with _ | ⟨_, _, _, _ | _⟩ <;> rfl
        | conditional =>
          rcases listed with
            _ | ⟨_, test, _, _ | ⟨_, consequent, _, _ | ⟨_, alternative, _, _ | _⟩⟩⟩
          · rfl
          · rfl
          · refine Except.bind_eq_map (legible.expr consequent) fun c => ?_
            refine Except.bind_eq_map (legible.expr test) fun t => ?_
            change _ = Except.ok (Expr.conditional _ _ (.constant (L.form .inert)))
            rw [L.form_inert]
          · exact Except.bind_eq_map (legible.expr consequent) fun _ =>
              Except.bind_eq_map (legible.expr alternative) fun _ =>
                Except.bind_eq_map (legible.expr test) fun _ => rfl
          · rfl
        | define =>
          rcases listed with _ | ⟨_, parameters, _, _ | ⟨_, value, _, _ | _⟩⟩
          · rfl
          · rfl
          · dsimp only
            rw [legible.checkParameters]
            exact Except.bind_eq_map Except.eq_map_id fun _ =>
              Except.bind_eq_map (legible.expr value) fun _ => rfl
          · rfl
        | assign =>
          rcases listed with _ | ⟨_, target, _, listed⟩
          · rfl
          · have text := legible target
            have kind := L.kind target
            generalize L.form target = image at text kind
            rcases listed with _ | ⟨_, value, _, _ | _⟩
            · cases kind <;> rfl
            · cases kind with
              | symbol name => exact Except.bind_eq_map (legible.expr value) fun _ => rfl
              | pair | combiner | environment =>
                dsimp only
                rw [text]
                rfl
              | _ => rfl
            · cases kind <;> rfl
        | vau =>
          rcases listed with _ | ⟨_, parameters, _, _ | ⟨_, formal, rfl, _⟩⟩
          · rfl
          · rfl
          · dsimp only
            rw [L.isNil, legible.checkClosure]
            split
            · rfl
            · exact Except.bind_eq_map Except.eq_map_id fun _ =>
                Except.bind_eq_map (legible.body _) fun _ => rfl
        | lambda =>
          rcases listed with _ | ⟨_, parameters, rfl, _⟩
          · rfl
          · dsimp only
            rw [L.isNil, legible.checkClosure_ignore]
            split
            · rfl
            · refine Except.bind_eq_map Except.eq_map_id fun _ => ?_
              refine Except.bind_eq_map (legible.body _) fun b => ?_
              change _ = Except.ok (Expr.close _ (L.form .ignore) _ _ true)
              rw [L.form_ignore]
        | sequence => exact body
        | callCC =>
          rcases listed with _ | ⟨_, receiver, _, _ | _⟩
          · rfl
          · exact Except.bind_eq_map (legible.expr receiver) fun _ => rfl
          · rfl
      · simp only [proper]
        rfl
  | .symbol name => by
    rw [L.atom _ rfl rfl rfl]
    rfl
  | .nil | .int _ | .real _ | .bool _ | .ignore | .inert | .combiner _ | .environment _ =>
    L.expr_of_value rfl rfl

theorem body (legible : L.Legible) : ∀ f : Form, (L.form f).body = f.body.map L.expr
  | .pair id form rest => by
    have later := legible.body rest
    have kind := L.kind rest
    rw [L.pair]
    generalize L.form rest = image at later kind
    cases kind with
    | pair j car cdr =>
      exact Except.bind_eq_map later fun _ => Except.bind_eq_map (legible.expr form) fun _ => rfl
    | _ => exact legible.expr form
  | .combiner _ | .environment _ | .nil | .symbol _ | .int _ | .real _ | .bool _ | .ignore
  | .inert => L.body_of_atom rfl

end

theorem exprs (legible : L.Legible) :
    ∀ f : Form, (L.form f).exprs = f.exprs.map (List.map L.expr)
  | .pair id operand rest => by
    rw [L.pair]
    exact Except.bind_eq_map (legible.exprs rest) fun _ =>
      Except.bind_eq_map (legible.expr operand) fun _ => rfl
  | .combiner c => congrArg Form.exprs (L.combined c)
  | .environment e => congrArg Form.exprs (L.environment e)
  | .nil | .symbol _ | .int _ | .real _ | .bool _ | .ignore | .inert =>
    congrArg Form.exprs (L.atom _ rfl rfl rfl)

end Legible

end Likeness

end Vau
