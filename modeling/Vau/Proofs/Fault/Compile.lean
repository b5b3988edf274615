import Vau.Proofs.Discipline

/-! Forms that do not compile. -/

set_option autoImplicit false

namespace Vau

def Raises {α : Type} (kind : ErrorClass) (m : Except Error α) : Prop :=
  ∀ error, m = .error error → error.errorClass = kind

namespace Raises

variable {α β : Type} {kind : ErrorClass}

theorem ok (a : α) : Raises kind (.ok a : Except Error α) := by
  intro error same
  cases same

theorem error {error : Error} (same : error.errorClass = kind) :
    Raises kind (.error error : Except Error α) := by
  intro raised found
  cases found
  exact same

theorem bind {m : Except Error α} {k : α → Except Error β} (first : Raises kind m)
    (rest : ∀ a, Raises kind (k a)) : Raises kind (m >>= k) := by
  cases m with
  | ok a => exact rest a
  | error raised =>
    intro error found
    cases found
    exact first _ rfl

theorem withOperator {m : Except Error α} (raises : Raises kind m) (name : String) :
    Raises kind (m.mapError (·.withOperator name)) := by
  cases m with
  | ok a => exact ok a
  | error raised => exact error (raises raised rfl)

end Raises

namespace Form

theorem raises_parametersAfter : ∀ (f : Form) (seen : List String),
    Raises .compile (f.parametersAfter seen)
  | .symbol name, seen => by
    unfold parametersAfter
    split
    · exact .error rfl
    · exact .ok _
  | .nil, _ | .ignore, _ => .ok _
  | .pair _ car cdr, seen =>
    (car.raises_parametersAfter seen).bind fun _ => cdr.raises_parametersAfter _
  | .int _, _ | .real _, _ | .bool _, _ | .inert, _ | .combiner _, _ | .environment _, _ =>
    .error rfl

theorem raises_checkParameters (f : Form) : Raises .compile f.checkParameters :=
  (f.raises_parametersAfter []).bind fun _ => .ok _

theorem raises_checkClosure (formal parameters : Form) :
    Raises .compile (formal.checkClosure parameters) := by
  have walk (f : Form) : Raises .compile (do
      let _ ← parameters.parametersAfter (← f.parametersAfter [])
      pure () : Except Error Unit) :=
    (f.raises_parametersAfter []).bind fun seen =>
      (parameters.raises_parametersAfter seen).bind fun _ => .ok _
  unfold checkClosure
  split
  · exact walk _
  · exact walk _
  · exact .error rfl

mutual

theorem raises_expr : ∀ f : Form, Raises .compile f.expr
  | .symbol _ => .ok _
  | .pair _ head operands => by
    rw [Form.expr]
    split
    · exact head.raises_expr.bind fun _ => .ok _
    · rename_i special name found
      by_cases proper : operands.ending.isNil
      · simp only [proper, Bool.not_true, Bool.false_eq_true, ↓reduceIte]
        split
        · exact .ok _
        · rename_i test _ consequent
          exact consequent.raises_expr.bind fun _ => test.raises_expr.bind fun _ => .ok _
        · rename_i test _ consequent _ alternative
          exact consequent.raises_expr.bind fun _ => alternative.raises_expr.bind fun _ =>
            test.raises_expr.bind fun _ => .ok _
        · rename_i parameters _ value
          exact (parameters.raises_checkParameters.withOperator name).bind fun _ =>
            value.raises_expr.bind fun _ => .ok _
        · rename_i value
          exact value.raises_expr.bind fun _ => .ok _
        · exact .error rfl
        · rename_i parameters _ formal source
          split
          · exact .error rfl
          · exact ((formal.raises_checkClosure parameters).withOperator name).bind fun _ =>
              source.raises_body.bind fun _ => .ok _
        · rename_i parameters source
          split
          · exact .error rfl
          · exact ((ignore.raises_checkClosure parameters).withOperator name).bind fun _ =>
              source.raises_body.bind fun _ => .ok _
        · exact operands.raises_body
        · rename_i receiver
          exact receiver.raises_expr.bind fun _ => .ok _
        · exact .error rfl
      · simp only [proper]
        exact .error rfl
  | .nil | .int _ | .real _ | .bool _ | .ignore | .inert | .combiner _ | .environment _ => .ok _

theorem raises_body : ∀ f : Form, Raises .compile f.body
  | .pair _ form rest => by
    have later := rest.raises_body
    unfold Form.body
    cases rest with
    | pair id car cdr => exact later.bind fun _ => form.raises_expr.bind fun _ => .ok _
    | _ => exact form.raises_expr
  | .symbol _ | .nil | .int _ | .real _ | .bool _ | .ignore | .inert | .combiner _
  | .environment _ => .ok _

end

theorem refused_iff {f : Form} {error : Error} :
    (∀ next, f.compile next = .error error) ↔ f.expr = .error error :=
  ⟨fun refused => compile_eq_error.mp (refused .halt),
    fun refused _ => compile_eq_error.mpr refused⟩

theorem raises_compile (f : Form) (next : Code) : Raises .compile (f.compile next) :=
  fun _ refused => f.raises_expr _ (compile_eq_error.mp refused)

/-- The error of the last form that does not compile. Forms are compiled from the last to the
first, and fail alike whatever code comes next. -/
def LastRefused (forms : List Form) (error : Error) : Prop :=
  ∃ before f after, forms = before ++ f :: after ∧ (∀ next, f.compile next = .error error) ∧
    ∀ g ∈ after, ∃ code, g.compile .halt = .ok code

theorem lastRefused_cons {f : Form} {rest : List Form} {error : Error} :
    LastRefused (f :: rest) error ↔ LastRefused rest error ∨
      (∀ next, f.compile next = .error error) ∧ ∀ g ∈ rest, ∃ code, g.compile .halt = .ok code := by
  constructor
  · rintro ⟨before, g, after, same, refused, compile⟩
    cases before with
    | nil =>
      cases same
      exact .inr ⟨refused, compile⟩
    | cons _ before =>
      cases same
      exact .inl ⟨before, g, after, rfl, refused, compile⟩
  · rintro (⟨before, g, after, rfl, refused, compile⟩ | ⟨refused, compile⟩)
    · exact ⟨f :: before, g, after, rfl, refused, compile⟩
    · exact ⟨[], f, rest, rfl, refused, compile⟩

theorem compiles_iff {f : Form} :
    (∃ code, f.compile .halt = .ok code) ↔ ∃ x, f.expr = .ok x := by
  rw [compile_eq]
  cases f.expr <;> simp [Except.map]

theorem exprs_eq_ok {f : Form} :
    (∃ xs, f.exprs = .ok xs) ↔ ∀ g ∈ f.items, ∃ code, g.compile .halt = .ok code := by
  induction f using exprs.induct with
  | case1 id operand rest ih =>
    rw [exprs, items, List.forall_mem_cons, ← ih, compiles_iff]
    cases rest.exprs <;> cases operand.expr <;> simp [bind, Except.bind]
  | case2 f atom =>
    cases f with
    | pair id operand rest => exact (atom id operand rest rfl).elim
    | _ => simp [exprs, items]

theorem exprs_eq_error {f : Form} {error : Error} :
    f.exprs = .error error ↔ LastRefused f.items error := by
  induction f using exprs.induct with
  | case1 id operand rest ih =>
    rw [exprs, items, lastRefused_cons, ← ih, ← exprs_eq_ok, refused_iff]
    cases rest.exprs <;> cases operand.expr <;> simp [bind, Except.bind]
  | case2 f atom =>
    cases f with
    | pair id operand rest => exact (atom id operand rest rfl).elim
    | _ => simp [exprs, items, LastRefused]

theorem operands_eq_error {f : Form} {text : Form → String} {error : Error} :
    f.operands text = .error error ↔
      f.list? = none ∧ error = .of (.mismatch "a proper list of operands" (text f)) := by
  unfold operands
  cases f.list? <;> simp [eq_comm]

theorem operands_eq_ok {f : Form} {text : Form → String} {args : List Form} :
    f.operands text = .ok args ↔ f.list? = some args := by
  unfold operands
  cases f.list? <;> simp

theorem compileArguments_eq_error {operands : Form} {c : Combiner} {error : Error} :
    operands.compileArguments c = .error error ↔
      (operands.list? = none ∧
        error = .of (.mismatch "a proper list of operands" operands.text)) ∨
      ∃ args, operands.list? = some args ∧ LastRefused args error := by
  unfold compileArguments
  rw [compileOperands_eq, ← operands_eq_error]
  cases proper : operands.list? with
  | none => simp [Form.operands, proper, bind, Except.bind]
  | some args =>
    rw [operands_eq_ok.mpr proper]
    have refused := @exprs_eq_error operands error
    rw [items_of_list? proper] at refused
    simp only [Option.some.injEq, exists_eq_left', ← refused]
    cases operands.exprs <;> simp [bind, Except.bind, Except.map]

end Form

end Vau
