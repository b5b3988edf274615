import Vau.Code.Compile

/-! The syntax that a form is read as, apart from the code that it becomes.

Reading can fail and does not look at the code that comes next; writing the code of what was read
cannot fail. Compiling is the one after the other. -/

set_option autoImplicit false

namespace Vau

inductive Expr where
  | refer (name : String)
  | constant (value : Form)
  | conditional (test consequent alternative : Expr)
  | define (parameters : Form) (value : Expr)
  | assign (target : String) (value : Expr)
  | close (parameters formal source : Form) (body : Expr) (wraps : Bool)
  | sequence (first rest : Expr)
  | capture (receiver : Expr)
  | combine (operator : Expr) (operands : Form)

mutual

def Form.expr : Form → Except Error Expr
  | .symbol name => .ok (.refer name)
  | .pair _ head operands =>
    match SpecialForm.ofHead? head with
    | none => do .ok (.combine (← head.expr) operands)
    | some (special, name) =>
      let attributed {α : Type} (r : Except Error α) : Except Error α :=
        r.mapError (·.withOperator name)
      let count := Count.saturated operands.items.length
      let miscounted := attributed (.error (.of (.arity special.arity count)))
      if !operands.ending.isNil then attributed (.error (.of .dottedOperands))
      else match special, operands with
        | .quote, .pair _ value .nil => .ok (.constant value)
        | .conditional, .pair _ test (.pair _ consequent .nil) => do
          let consequent ← consequent.expr
          .ok (.conditional (← test.expr) consequent (.constant .inert))
        | .conditional, .pair _ test (.pair _ consequent (.pair _ alternative .nil)) => do
          let consequent ← consequent.expr
          let alternative ← alternative.expr
          .ok (.conditional (← test.expr) consequent alternative)
        | .define, .pair _ parameters (.pair _ value .nil) => do
          attributed parameters.checkParameters
          .ok (.define parameters (← value.expr))
        | .assign, .pair _ (.symbol target) (.pair _ value .nil) => do
          .ok (.assign target (← value.expr))
        | .assign, .pair _ target (.pair _ _ .nil) =>
          attributed (.error (.of (.illegalParameter target.text)))
        | .vau, .pair _ parameters (.pair _ formal source) =>
          if source.isNil then miscounted
          else do
            attributed (formal.checkClosure parameters)
            .ok (.close parameters formal source (← source.body) false)
        | .lambda, .pair _ parameters source =>
          if source.isNil then miscounted
          else do
            attributed (Form.ignore.checkClosure parameters)
            .ok (.close parameters .ignore source (← source.body) true)
        | .sequence, forms => forms.body
        | .callCC, .pair _ receiver .nil => do .ok (.capture (← receiver.expr))
        | _, _ => miscounted
  | value => .ok (.constant value)

def Form.body : Form → Except Error Expr
  | .pair _ form rest =>
    match rest with
    | .pair .. => do
      let rest ← rest.body
      .ok (.sequence (← form.expr) rest)
    | _ => form.expr
  | _ => .ok (.constant .inert)

end

def Form.exprs : Form → Except Error (List Expr)
  | .pair _ operand rest => do
    let rest ← rest.exprs
    .ok ((← operand.expr) :: rest)
  | _ => .ok []

def Expr.code : Expr → Code → Code
  | refer name, next => .refer name next
  | constant value, next => .constant value next
  | conditional test consequent alternative, next =>
    test.code (.test (consequent.code next) (alternative.code next))
  | define parameters value, next => value.code (.define parameters next)
  | assign target value, next => value.code (.assign target next)
  | close parameters formal source body wraps, next =>
    .close ⟨parameters, formal, source, body.code .ret, wraps⟩ next
  | sequence first rest, next => first.code (rest.code next)
  | capture receiver, next => .framed (.capture (receiver.code .call)) next
  | combine operator operands, next => .framed (operator.code (.apply operands)) next

/-- Code that puts the values of expressions in front of the pending arguments. -/
def Expr.operandsCode : List Expr → Code → Code
  | [], next => next
  | x :: xs, next => x.code (.argument (operandsCode xs next))

theorem Code.framed_ne_ret {code : Code} (proper : code ≠ .ret) (next : Code) :
    code.framed next ≠ .ret := by
  unfold Code.framed
  split
  · exact proper
  · nofun

theorem Expr.code_ne_ret (x : Expr) (next : Code) : x.code next ≠ .ret := by
  induction x generalizing next with
  | refer | constant | close => nofun
  | conditional test consequent alternative testIH => exact testIH _
  | define parameters value ih => exact ih _
  | assign target value ih => exact ih _
  | sequence first rest firstIH => exact firstIH _
  | capture receiver ih =>
    have proper : Code.capture (receiver.code .call) ≠ .ret := nofun
    exact Code.framed_ne_ret proper next
  | combine operator operands ih => exact Code.framed_ne_ret (ih _) next

mutual

theorem Form.compile_eq : ∀ (f : Form) (next : Code),
    f.compile next = f.expr.map (·.code next)
  | .symbol _, _ => rfl
  | .pair id head operands, next => by
    rw [Form.compile]
    cases found : SpecialForm.ofHead? head with
    | none =>
      simp only [Form.expr, found, head.compile_eq]
      cases head.expr <;> rfl
    | some special =>
      obtain ⟨special, name⟩ := special
      dsimp only
      by_cases proper : operands.ending.isNil
      · simp only [proper, Bool.not_true, Bool.false_eq_true, ↓reduceIte]
        split <;> simp only [Form.expr, found, proper, Bool.not_true, Bool.false_eq_true, ↓reduceIte]
        · rfl
        · rename_i test _ consequent
          simp only [consequent.compile_eq, test.compile_eq]
          cases consequent.expr <;> cases test.expr <;> rfl
        · rename_i test _ consequent _ alternative
          simp only [consequent.compile_eq, test.compile_eq, alternative.compile_eq]
          cases consequent.expr <;> cases alternative.expr <;> cases test.expr <;> rfl
        · rename_i parameters _ value
          simp only [value.compile_eq]
          cases parameters.checkParameters <;> cases value.expr <;> rfl
        · rename_i value
          simp only [value.compile_eq]
          cases value.expr <;> rfl
        · rfl
        · rename_i parameters _ formal source
          by_cases empty : source.isNil
          · simp only [empty, ↓reduceIte]
            rfl
          · simp only [empty, source.compileAll_eq]
            cases formal.checkClosure parameters <;> cases source.body <;> rfl
        · rename_i parameters source
          by_cases empty : source.isNil
          · simp only [empty, ↓reduceIte]
            rfl
          · simp only [empty, source.compileAll_eq]
            cases ignore.checkClosure parameters <;> cases source.body <;> rfl
        · exact operands.compileAll_eq next
        · rename_i receiver
          simp only [receiver.compile_eq]
          cases receiver.expr <;> rfl
        · rfl
      · simp only [Form.expr, found, proper]
        rfl
  | .nil, _ | .int _, _ | .real _, _ | .bool _, _ | .ignore, _ | .inert, _ | .combiner _, _
  | .environment _, _ => rfl

theorem Form.compileAll_eq : ∀ (f : Form) (next : Code),
    f.compileAll next = f.body.map (·.code next)
  | .pair _ form rest, next => by
    have later := rest.compileAll_eq next
    unfold Form.compileAll Form.body
    cases rest with
    | pair id car cdr =>
      simp only [later, form.compile_eq]
      cases (Form.pair id car cdr).body <;> cases form.expr <;> rfl
    | _ => exact form.compile_eq next
  | .symbol _, _ | .nil, _ | .int _, _ | .real _, _ | .bool _, _ | .ignore, _ | .inert, _
  | .combiner _, _ | .environment _, _ => rfl

end

theorem Form.compileOperands_eq (operands : Form) (next : Code) :
    operands.compileOperands next = operands.exprs.map (Expr.operandsCode · next) := by
  induction operands using Form.exprs.induct with
  | case1 id operand rest ih =>
    simp only [compileOperands, exprs, ih, operand.compile_eq]
    cases rest.exprs <;> cases operand.expr <;> rfl
  | case2 f atom =>
    cases f with
    | pair id operand rest => exact (atom id operand rest rfl).elim
    | _ => rfl

mutual

/-- The rules of the grammar: a special form is known by its head, all else is a combination. -/
inductive Form.Reads : Form → Expr → Prop
  | refer {name : String} : Reads (.symbol name) (.refer name)
  | constant {f : Form} : f.symbol? = none → f.car? = none → Reads f (.constant f)
  | quote {i j : Identity} {head value : Form} {name : String} :
    SpecialForm.ofHead? head = some (.quote, name) →
    Reads (.pair i head (.pair j value .nil)) (.constant value)
  | consequent {i j k : Identity} {head test consequent : Form} {name : String} {t c : Expr} :
    SpecialForm.ofHead? head = some (.conditional, name) → Reads test t → Reads consequent c →
    Reads (.pair i head (.pair j test (.pair k consequent .nil)))
      (.conditional t c (.constant .inert))
  | conditional {i j k l : Identity} {head test consequent alternative : Form} {name : String}
      {t c a : Expr} :
    SpecialForm.ofHead? head = some (.conditional, name) → Reads test t → Reads consequent c →
    Reads alternative a →
    Reads (.pair i head (.pair j test (.pair k consequent (.pair l alternative .nil))))
      (.conditional t c a)
  | define {i j k : Identity} {head parameters value : Form} {name : String} {v : Expr} :
    SpecialForm.ofHead? head = some (.define, name) → parameters.checkParameters = .ok () →
    Reads value v →
    Reads (.pair i head (.pair j parameters (.pair k value .nil))) (.define parameters v)
  | assign {i j k : Identity} {head value : Form} {target name : String} {v : Expr} :
    SpecialForm.ofHead? head = some (.assign, name) → Reads value v →
    Reads (.pair i head (.pair j (.symbol target) (.pair k value .nil))) (.assign target v)
  | vau {i j k : Identity} {head parameters formal source : Form} {name : String} {b : Expr} :
    SpecialForm.ofHead? head = some (.vau, name) → source.ending.isNil → source.isNil = false →
    formal.checkClosure parameters = .ok () → source.ReadsAll b →
    Reads (.pair i head (.pair j parameters (.pair k formal source)))
      (.close parameters formal source b false)
  | lambda {i j : Identity} {head parameters source : Form} {name : String} {b : Expr} :
    SpecialForm.ofHead? head = some (.lambda, name) → source.ending.isNil →
    source.isNil = false → Form.ignore.checkClosure parameters = .ok () → source.ReadsAll b →
    Reads (.pair i head (.pair j parameters source)) (.close parameters .ignore source b true)
  | sequence {i : Identity} {head forms : Form} {name : String} {b : Expr} :
    SpecialForm.ofHead? head = some (.sequence, name) → forms.ending.isNil → forms.ReadsAll b →
    Reads (.pair i head forms) b
  | callCC {i j : Identity} {head receiver : Form} {name : String} {r : Expr} :
    SpecialForm.ofHead? head = some (.callCC, name) → Reads receiver r →
    Reads (.pair i head (.pair j receiver .nil)) (.capture r)
  | combination {i : Identity} {head operands : Form} {h : Expr} :
    SpecialForm.ofHead? head = none → Reads head h →
    Reads (.pair i head operands) (.combine h operands)

inductive Form.ReadsAll : Form → Expr → Prop
  | none {f : Form} : f.car? = none → ReadsAll f (.constant .inert)
  | last {i : Identity} {form rest : Form} {x : Expr} : rest.car? = none → form.Reads x →
    ReadsAll (.pair i form rest) x
  | more {i j : Identity} {form car cdr : Form} {x y : Expr} : form.Reads x →
    ReadsAll (.pair j car cdr) y → ReadsAll (.pair i form (.pair j car cdr)) (.sequence x y)

end

theorem Except.bind_eq_ok {ε α β : Type} {m : Except ε α} {k : α → Except ε β} {b : β} :
    (m >>= k) = .ok b ↔ ∃ a, m = .ok a ∧ k a = .ok b := by
  cases m <;> simp [bind, Except.bind]

theorem Except.mapError_ok {ε ε' α : Type} (f : ε → ε') (a : α) :
    (Except.ok a).mapError f = .ok a := rfl

theorem Except.mapError_eq_ok {ε ε' α : Type} {m : Except ε α} {f : ε → ε'} {a : α} :
    m.mapError f = .ok a ↔ m = .ok a := by
  cases m with
  | ok value => rw [mapError_ok, Except.ok.injEq, Except.ok.injEq]
  | error e =>
    constructor
    · intro same
      cases same
    · intro same
      cases same

mutual

theorem Form.reads_of_expr : ∀ {f : Form} {x : Expr}, f.expr = .ok x → f.Reads x
  | .symbol _, _, h => by cases h; exact .refer
  | .pair id head operands, x, h => by
    -- The cases are the special forms, each with its right number of operands, in their order.
    rw [Form.expr] at h
    split at h
    · rename_i combination
      obtain ⟨y, read, same⟩ := Except.bind_eq_ok.mp h
      cases same
      exact .combination combination (Form.reads_of_expr read)
    · rename_i special name found
      by_cases proper : operands.ending.isNil
      · simp only [proper, Bool.not_true, Bool.false_eq_true, ↓reduceIte] at h
        split at h
        · cases h
          exact .quote found
        · obtain ⟨c, readC, h⟩ := Except.bind_eq_ok.mp h
          obtain ⟨t, readT, h⟩ := Except.bind_eq_ok.mp h
          cases h
          exact .consequent found (Form.reads_of_expr readT) (Form.reads_of_expr readC)
        · obtain ⟨c, readC, h⟩ := Except.bind_eq_ok.mp h
          obtain ⟨a, readA, h⟩ := Except.bind_eq_ok.mp h
          obtain ⟨t, readT, h⟩ := Except.bind_eq_ok.mp h
          cases h
          exact .conditional found (Form.reads_of_expr readT) (Form.reads_of_expr readC)
            (Form.reads_of_expr readA)
        · obtain ⟨_, checked, h⟩ := Except.bind_eq_ok.mp h
          obtain ⟨v, readV, h⟩ := Except.bind_eq_ok.mp h
          cases h
          exact .define found (Except.mapError_eq_ok.mp checked) (Form.reads_of_expr readV)
        · obtain ⟨v, readV, h⟩ := Except.bind_eq_ok.mp h
          cases h
          exact .assign found (Form.reads_of_expr readV)
        · cases h
        · split at h
          · cases h
          · rename_i nonempty
            obtain ⟨_, checked, h⟩ := Except.bind_eq_ok.mp h
            obtain ⟨b, readB, h⟩ := Except.bind_eq_ok.mp h
            cases h
            exact .vau found proper (Bool.eq_false_iff.mpr nonempty)
              (Except.mapError_eq_ok.mp checked) (Form.readsAll_of_body readB)
        · split at h
          · cases h
          · rename_i nonempty
            obtain ⟨_, checked, h⟩ := Except.bind_eq_ok.mp h
            obtain ⟨b, readB, h⟩ := Except.bind_eq_ok.mp h
            cases h
            exact .lambda found proper (Bool.eq_false_iff.mpr nonempty)
              (Except.mapError_eq_ok.mp checked) (Form.readsAll_of_body readB)
        · exact .sequence found proper (Form.readsAll_of_body h)
        · obtain ⟨r, readR, h⟩ := Except.bind_eq_ok.mp h
          cases h
          exact .callCC found (Form.reads_of_expr readR)
        · cases h
      · simp only [proper] at h
        cases h
  | .nil, _, h | .int _, _, h | .real _, _, h | .bool _, _, h | .ignore, _, h | .inert, _, h
  | .combiner _, _, h | .environment _, _, h => by
    cases h
    exact .constant rfl rfl

theorem Form.readsAll_of_body : ∀ {f : Form} {x : Expr}, f.body = .ok x → f.ReadsAll x
  | .pair _ form rest, x, h => by
    have later := @Form.readsAll_of_body rest
    unfold Form.body at h
    cases rest with
    | pair id car cdr =>
      obtain ⟨y, readY, h⟩ := Except.bind_eq_ok.mp h
      obtain ⟨z, readZ, h⟩ := Except.bind_eq_ok.mp h
      cases h
      exact .more (Form.reads_of_expr readZ) (later readY)
    | _ => exact .last rfl (Form.reads_of_expr h)
  | .symbol _, _, h | .nil, _, h | .int _, _, h | .real _, _, h | .bool _, _, h | .ignore, _, h
  | .inert, _, h | .combiner _, _, h | .environment _, _, h => by
    cases h
    exact .none rfl

end

mutual

theorem Form.Reads.expr : ∀ {f : Form} {x : Expr}, f.Reads x → f.expr = .ok x
  | _, _, .refer => rfl
  | f, _, .constant notSymbol notPair => by
    cases f with
    | symbol name => cases notSymbol
    | pair id car cdr => cases notPair
    | _ => rfl
  | _, _, .quote found => by simp [Form.expr, found, Form.ending, Form.isNil]
  | _, _, .consequent found t c => by
    simp [Form.expr, found, Form.ending, Form.isNil, t.expr, c.expr, bind, Except.bind]
  | _, _, .conditional found t c a => by
    simp [Form.expr, found, Form.ending, Form.isNil, t.expr, c.expr, a.expr, bind, Except.bind]
  | _, _, .define found checked v => by
    simp [Form.expr, found, Form.ending, Form.isNil, checked, v.expr, bind, Except.bind,
      Except.mapError_ok]
  | _, _, .assign found v => by
    simp [Form.expr, found, Form.ending, Form.isNil, v.expr, bind, Except.bind]
  | _, _, .vau found proper nonempty checked b => by
    simp [Form.expr, found, Form.ending, proper, nonempty, checked, b.body, bind, Except.bind,
      Except.mapError_ok]
  | _, _, .lambda found proper nonempty checked b => by
    simp [Form.expr, found, Form.ending, proper, nonempty, checked, b.body, bind, Except.bind,
      Except.mapError_ok]
  | _, _, .sequence found proper b => by simp [Form.expr, found, proper, b.body]
  | _, _, .callCC found r => by
    simp [Form.expr, found, Form.ending, Form.isNil, r.expr, bind, Except.bind]
  | _, _, .combination found h => by simp [Form.expr, found, h.expr, bind, Except.bind]

theorem Form.ReadsAll.body : ∀ {f : Form} {x : Expr}, f.ReadsAll x → f.body = .ok x
  | f, _, .none notPair => by
    cases f with
    | pair id car cdr => cases notPair
    | _ => rfl
  | .pair _ _ rest, _, .last notPair x => by
    unfold Form.body
    cases rest with
    | pair id car cdr => cases notPair
    | _ => exact x.expr
  | _, _, .more x y => by
    unfold Form.body
    simp only [x.expr, y.body, bind, Except.bind]

end

theorem Form.expr_eq_ok {f : Form} {x : Expr} : f.expr = .ok x ↔ f.Reads x :=
  ⟨Form.reads_of_expr, Form.Reads.expr⟩

theorem Form.body_eq_ok {f : Form} {x : Expr} : f.body = .ok x ↔ f.ReadsAll x :=
  ⟨Form.readsAll_of_body, Form.ReadsAll.body⟩

theorem Form.readsAll_of_items {f : Form} (each : ∀ item ∈ f.items, ∃ x : Expr, item.Reads x) :
    ∃ x : Expr, f.ReadsAll x := by
  induction f using Form.items.induct with
  | case1 id form rest ih =>
    obtain ⟨x, read⟩ := each form List.mem_cons_self
    obtain ⟨y, others⟩ := ih fun item member => each item (List.mem_cons_of_mem form member)
    cases rest with
    | pair => exact ⟨_, .more read others⟩
    | _ => exact ⟨_, .last rfl read⟩
  | case2 f atom =>
    cases f with
    | pair id form rest => exact (atom id form rest rfl).elim
    | _ => exact ⟨_, .none rfl⟩

theorem Form.compile_eq_ok {f : Form} {next code : Code} :
    f.compile next = .ok code ↔ ∃ x, f.Reads x ∧ code = x.code next := by
  rw [compile_eq]
  cases read : f.expr with
  | error e => simp [Except.map, ← Form.expr_eq_ok, read]
  | ok x => simp [Except.map, ← Form.expr_eq_ok, read, eq_comm]

theorem Form.compile_eq_error {f : Form} {next : Code} {error : Error} :
    f.compile next = .error error ↔ f.expr = .error error := by
  rw [compile_eq]
  cases f.expr <;> simp [Except.map]

theorem Form.compileAll_eq_ok {f : Form} {next code : Code} :
    f.compileAll next = .ok code ↔ ∃ x, f.ReadsAll x ∧ code = x.code next := by
  rw [compileAll_eq]
  cases read : f.body with
  | error e => simp [Except.map, ← Form.body_eq_ok, read]
  | ok x => simp [Except.map, ← Form.body_eq_ok, read, eq_comm]

theorem Form.compileArguments_eq_ok {operands : Form} {c : Combiner} {code : Code}
    (compiled : operands.compileArguments c = .ok code) :
    ∃ args xs, operands.operands Form.text = .ok args ∧ operands.exprs = .ok xs ∧
      code = Expr.operandsCode xs (.constant (.combiner c) .call) := by
  obtain ⟨args, proper, compiled⟩ := Except.bind_eq_ok.mp compiled
  rw [compileOperands_eq] at compiled
  cases read : operands.exprs with
  | error e =>
    rw [read] at compiled
    cases compiled
  | ok xs =>
    rw [read] at compiled
    cases compiled
    exact ⟨args, xs, proper, rfl, rfl⟩

end Vau
