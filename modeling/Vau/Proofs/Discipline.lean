import Vau.Proofs.Syntax
import Vau.Primitive.Call

/-! What holds of everything that a machine has.

A discipline says what is asked of a closure, of a captured stack, and of the numbers of objects,
frames and scopes. A value obeys it when all that it leads to does, however deep, also in code and
in frames. Closures that were compiled from their own source obey every discipline, so compiling a
form adds nothing new. -/

set_option autoImplicit false

namespace Vau

/-- The body is the code of the source, and the formal and the parameters can share a scope. -/
def Template.Compiled (t : Template) : Prop :=
  t.formal.checkClosure t.parameters = .ok () ∧ t.source.compileAll .ret = .ok t.body

structure Discipline where
  template : Template → Prop
  stack : Stack → Prop
  object : Identity → Prop := fun _ => True
  frame : Identity → Prop := fun _ => True
  scope : ScopeId → Prop := fun _ => True
  compiled : ∀ t : Template, t.Compiled → template t

variable (D : Discipline)

mutual

def Form.Obeys : Form → Prop
  | .pair id car cdr => D.object id ∧ car.Obeys ∧ cdr.Obeys
  | .combiner c => c.Obeys
  | .environment e => D.scope e
  | .nil | .symbol _ | .int _ | .real _ | .bool _ | .ignore | .inert => True

def Combiner.Obeys : Combiner → Prop
  | .operative id scope t => D.object id ∧ D.scope scope ∧ t.Obeys
  | .applicative id inner => D.object id ∧ inner.Obeys
  | .continuation stack => D.stack stack ∧ stack.Obeys
  | .native _ | .eval => True

def Template.Obeys : Template → Prop
  | ⟨parameters, formal, source, body, wraps⟩ =>
    D.template ⟨parameters, formal, source, body, wraps⟩ ∧ parameters.Obeys ∧ formal.Obeys ∧
      source.Obeys ∧ body.Obeys

def Code.Obeys : Code → Prop
  | .constant value next => value.Obeys ∧ next.Obeys
  | .close template next => template.Obeys ∧ next.Obeys
  | .define parameters next => parameters.Obeys ∧ next.Obeys
  | .test consequent alternative => consequent.Obeys ∧ alternative.Obeys
  | .frame resume next => resume.Obeys ∧ next.Obeys
  | .apply operands => operands.Obeys
  | .refer _ next | .assign _ next | .argument next | .capture next => next.Obeys
  | .halt | .call | .ret => True

def Stack.Obeys : Stack → Prop
  | .empty => True
  | .push top rest => top.Obeys ∧ rest.Obeys

def Frame.Obeys : Frame → Prop
  | ⟨id, _, resume, scope, pending⟩ =>
    D.frame id ∧ D.scope scope ∧ resume.Obeys ∧ pending.Obeys

end

variable {D : Discipline}

theorem Template.Obeys.holds : ∀ {t : Template}, t.Obeys D → D.template t
  | ⟨_, _, _, _, _⟩, obeys => obeys.1

namespace Form

theorem Obeys.car {id : Identity} {car cdr : Form} (obeys : (pair id car cdr).Obeys D) :
    car.Obeys D :=
  obeys.2.1

theorem Obeys.cdr {id : Identity} {car cdr : Form} (obeys : (pair id car cdr).Obeys D) :
    cdr.Obeys D :=
  obeys.2.2

theorem Obeys.items {f : Form} (obeys : f.Obeys D) : ∀ x ∈ f.items, x.Obeys D := by
  induction f using Form.items.induct with
  | case1 id car cdr ih =>
    intro x member
    rcases List.mem_cons.mp member with same | member
    · exact same ▸ obeys.car
    · exact ih obeys.cdr x member
  | case2 f atom => simp [Form.items]

theorem fresh_chain (items : List Form) (tail : Form) (fresh : Nat) :
    (chain items tail fresh).2 = fresh + items.length := by
  induction items with
  | nil => rfl
  | cons head rest ih =>
    change (chain rest tail fresh).2 + 1 = _
    rw [ih, List.length_cons, Nat.add_assoc]

theorem obeys_chain {items : List Form} {tail : Form} {fresh : Nat}
    (numbers : ∀ i : Nat, fresh ≤ i → i < fresh + items.length → D.object i)
    (each : ∀ x ∈ items, x.Obeys D) (last : tail.Obeys D) :
    (chain items tail fresh).1.Obeys D := by
  induction items with
  | nil => exact last
  | cons head rest ih =>
    rw [List.length_cons] at numbers
    have last : D.object (chain rest tail fresh).2 := by
      rw [fresh_chain]
      exact numbers _ (by omega) (by omega)
    refine ⟨last, each head (by simp), ?_⟩
    exact ih (fun i low high => numbers i low (by omega))
      fun x member => each x (List.mem_cons_of_mem _ member)

def pairs : Datum → Nat
  | .pair car cdr => pairs car + pairs cdr + 1
  | _ => 0

theorem fresh_ofDatum (d : Datum) (fresh : Nat) : (ofDatum d fresh).2 = fresh + pairs d := by
  induction d generalizing fresh with
  | pair car cdr carIH cdrIH =>
    change (ofDatum cdr (ofDatum car fresh).2).2 + 1 = fresh + (pairs car + pairs cdr + 1)
    rw [carIH, cdrIH]
    simp only [Nat.add_assoc]
  | _ => rfl

theorem obeys_ofDatum (d : Datum) {fresh : Nat}
    (numbers : ∀ i : Nat, fresh ≤ i → i < fresh + pairs d → D.object i) :
    (ofDatum d fresh).1.Obeys D := by
  induction d generalizing fresh with
  | pair car cdr carIH cdrIH =>
    simp only [pairs] at numbers
    have last : D.object (ofDatum cdr (ofDatum car fresh).2).2 := by
      rw [fresh_ofDatum, fresh_ofDatum]
      exact numbers _ (by omega) (by omega)
    refine ⟨last, carIH fun i low high => numbers i low (by omega), ?_⟩
    rw [fresh_ofDatum]
    exact cdrIH fun i low high => numbers i (by omega) (by omega)
  | _ => trivial

theorem items_of_list? {f : Form} {items : List Form} (proper : f.list? = some items) :
    f.items = items := by
  unfold list? at proper
  split at proper
  · exact Option.some.inj proper
  · cases proper

theorem eq_nil_of_list? {f : Form} (proper : f.list? = some []) : f = .nil := by
  unfold list? at proper
  cases f with
  | nil => rfl
  | pair id car cdr => split at proper <;> cases proper
  | _ => cases proper

theorem eq_pair_of_list? {f item : Form} {items : List Form}
    (proper : f.list? = some (item :: items)) :
    ∃ id rest, f = .pair id item rest ∧ rest.list? = some items := by
  unfold list? at proper
  cases f with
  | pair id car cdr =>
    split at proper
    · rename_i ends
      cases proper
      exact ⟨id, cdr, rfl, if_pos ends⟩
    · cases proper
  | nil | _ => cases proper

theorem list?_pair {id : Identity} {car cdr : Form} {items : List Form}
    (proper : cdr.list? = some items) : (pair id car cdr).list? = some (car :: items) := by
  unfold list? at *
  split at proper
  · rename_i ended
    cases proper
    exact if_pos ended
  · cases proper

theorem Obeys.operands {f : Form} (obeys : f.Obeys D) {text : Form → String} {args : List Form}
    (proper : f.operands text = .ok args) : ∀ x ∈ args, x.Obeys D := by
  unfold Form.operands at proper
  split at proper
  · rename_i items found
    cases proper
    exact items_of_list? found ▸ obeys.items
  · cases proper

end Form

/-! Reading and writing code. -/

namespace Expr

def Obeys (D : Discipline) : Expr → Prop
  | refer _ => True
  | constant value => value.Obeys D
  | conditional test consequent alternative =>
    test.Obeys D ∧ consequent.Obeys D ∧ alternative.Obeys D
  | define parameters value => parameters.Obeys D ∧ value.Obeys D
  | assign _ value => value.Obeys D
  | close parameters formal source body wraps =>
    Template.Compiled ⟨parameters, formal, source, body.code .ret, wraps⟩ ∧
      parameters.Obeys D ∧ formal.Obeys D ∧ source.Obeys D ∧ body.Obeys D
  | sequence first rest => first.Obeys D ∧ rest.Obeys D
  | capture receiver => receiver.Obeys D
  | combine operator operands => operator.Obeys D ∧ operands.Obeys D

theorem obeys_framed {code next : Code} (here : code.Obeys D) (later : next.Obeys D) :
    (code.framed next).Obeys D := by
  unfold Code.framed
  split
  · exact here
  · exact ⟨later, here⟩

theorem Obeys.code {x : Expr} (obeys : x.Obeys D) {next : Code} (later : next.Obeys D) :
    (x.code next).Obeys D := by
  induction x generalizing next with
  | refer name => exact later
  | constant value => exact ⟨obeys, later⟩
  | conditional test consequent alternative testIH consequentIH alternativeIH =>
    exact testIH obeys.1 ⟨consequentIH obeys.2.1 later, alternativeIH obeys.2.2 later⟩
  | define parameters value ih => exact ih obeys.2 ⟨obeys.1, later⟩
  | assign target value ih => exact ih obeys later
  | close parameters formal source body wraps ih =>
    obtain ⟨compiled, parameters, formal, source, body⟩ := obeys
    exact ⟨⟨D.compiled _ compiled, parameters, formal, source, ih body trivial⟩, later⟩
  | sequence first rest firstIH restIH => exact firstIH obeys.1 (restIH obeys.2 later)
  | capture receiver ih => exact obeys_framed (ih obeys trivial) later
  | combine operator operands ih => exact obeys_framed (ih obeys.1 obeys.2) later

theorem obeys_operandsCode {xs : List Expr} (each : ∀ x ∈ xs, x.Obeys D) {next : Code}
    (later : next.Obeys D) : (operandsCode xs next).Obeys D := by
  induction xs with
  | nil => exact later
  | cons x xs ih =>
    have rest := ih fun y member => each y (List.mem_cons_of_mem _ member)
    exact (each x (by simp)).code rest

end Expr

mutual

theorem Form.Reads.obeys : ∀ {f : Form} {x : Expr}, f.Reads x → f.Obeys D → x.Obeys D
  | _, _, .refer, _ => trivial
  | _, _, .constant _ _, obeys => obeys
  | _, _, .quote _, obeys => obeys.cdr.car
  | _, _, .consequent _ t c, obeys => ⟨t.obeys obeys.cdr.car, c.obeys obeys.cdr.cdr.car, trivial⟩
  | _, _, .conditional _ t c a, obeys =>
    ⟨t.obeys obeys.cdr.car, c.obeys obeys.cdr.cdr.car, a.obeys obeys.cdr.cdr.cdr.car⟩
  | _, _, .define _ _ v, obeys => ⟨obeys.cdr.car, v.obeys obeys.cdr.cdr.car⟩
  | _, _, .assign _ v, obeys => v.obeys obeys.cdr.cdr.car
  | _, _, .vau _ _ _ checked b, obeys =>
    have compiled := ⟨checked, Form.compileAll_eq_ok.mpr ⟨_, b, rfl⟩⟩
    ⟨compiled, obeys.cdr.car, obeys.cdr.cdr.car, obeys.cdr.cdr.cdr, b.obeys obeys.cdr.cdr.cdr⟩
  | _, _, .lambda _ _ _ checked b, obeys =>
    have compiled := ⟨checked, Form.compileAll_eq_ok.mpr ⟨_, b, rfl⟩⟩
    ⟨compiled, obeys.cdr.car, trivial, obeys.cdr.cdr, b.obeys obeys.cdr.cdr⟩
  | _, _, .sequence _ _ b, obeys => b.obeys obeys.cdr
  | _, _, .callCC _ r, obeys => r.obeys obeys.cdr.car
  | _, _, .combination _ h, obeys => ⟨h.obeys obeys.car, obeys.cdr⟩

theorem Form.ReadsAll.obeys : ∀ {f : Form} {x : Expr}, f.ReadsAll x → f.Obeys D → x.Obeys D
  | _, _, .none _, _ => trivial
  | _, _, .last _ x, obeys => x.obeys obeys.car
  | _, _, .more x y, obeys => ⟨x.obeys obeys.car, y.obeys obeys.cdr⟩

end

theorem Form.Obeys.compile {f : Form} (obeys : f.Obeys D) {next code : Code}
    (later : next.Obeys D) (compiled : f.compile next = .ok code) : code.Obeys D := by
  obtain ⟨x, read, rfl⟩ := Form.compile_eq_ok.mp compiled
  exact (read.obeys obeys).code later

theorem Form.Obeys.exprs {f : Form} (obeys : f.Obeys D) {xs : List Expr}
    (read : f.exprs = .ok xs) : ∀ x ∈ xs, x.Obeys D := by
  induction f using Form.exprs.induct generalizing xs with
  | case1 id operand rest ih =>
    obtain ⟨ys, later, read⟩ := Except.bind_eq_ok.mp read
    obtain ⟨y, here, read⟩ := Except.bind_eq_ok.mp read
    cases read
    intro x member
    rcases List.mem_cons.mp member with same | member
    · exact same ▸ (Form.reads_of_expr here).obeys obeys.car
    · exact ih obeys.cdr later x member
  | case2 f atom =>
    cases f with
    | pair id operand rest => exact (atom id operand rest rfl).elim
    | _ =>
      cases read
      simp

theorem Form.Obeys.compileArguments {operands : Form} (obeys : operands.Obeys D) {c : Combiner}
    (combiner : c.Obeys D) {code : Code} (compiled : operands.compileArguments c = .ok code) :
    code.Obeys D := by
  obtain ⟨args, xs, _, read, rfl⟩ := Form.compileArguments_eq_ok compiled
  exact Expr.obeys_operandsCode (obeys.exprs read) ⟨combiner, trivial⟩

end Vau
