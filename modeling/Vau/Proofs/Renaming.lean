import Mathlib.Logic.Function.Defs
import Vau.Proofs.Discipline
import Vau.Proofs.Likeness

/-! Renaming objects and frames.

Numbers stand for identity and nothing else. So all that is computed from a form, short of
comparing identities, does not depend on them, and comparing does not when different numbers stay
different. -/

set_option autoImplicit false

namespace Vau

structure Renaming where
  object : Identity → Identity
  frame : Identity → Identity
  object_injective : Function.Injective object
  frame_injective : Function.Injective frame

variable (ρ : Renaming)

mutual

def Form.rename : Form → Form
  | .pair id car cdr => .pair (ρ.object id) car.rename cdr.rename
  | .combiner c => .combiner c.rename
  | .environment e => .environment e
  | .nil => .nil
  | .symbol name => .symbol name
  | .int value => .int value
  | .real value => .real value
  | .bool value => .bool value
  | .ignore => .ignore
  | .inert => .inert

def Combiner.rename : Combiner → Combiner
  | .operative id scope t => .operative (ρ.object id) scope t.rename
  | .applicative id inner => .applicative (ρ.object id) inner.rename
  | .native n => .native n
  | .continuation stack => .continuation stack.rename
  | .eval => .eval

def Template.rename : Template → Template
  | ⟨parameters, formal, source, body, wraps⟩ =>
    ⟨parameters.rename, formal.rename, source.rename, body.rename, wraps⟩

def Code.rename : Code → Code
  | .halt => .halt
  | .refer name next => .refer name next.rename
  | .constant value next => .constant value.rename next.rename
  | .close template next => .close template.rename next.rename
  | .define parameters next => .define parameters.rename next.rename
  | .assign name next => .assign name next.rename
  | .test consequent alternative => .test consequent.rename alternative.rename
  | .frame resume next => .frame resume.rename next.rename
  | .apply operands => .apply operands.rename
  | .argument next => .argument next.rename
  | .capture next => .capture next.rename
  | .call => .call
  | .ret => .ret

def Stack.rename : Stack → Stack
  | .empty => .empty
  | .push top rest => .push top.rename rest.rename

def Frame.rename : Frame → Frame
  | ⟨id, depth, resume, scope, pending⟩ =>
    ⟨ρ.frame id, depth, resume.rename, scope, pending.rename⟩

end

def Expr.rename : Expr → Expr
  | refer name => refer name
  | constant value => constant (value.rename ρ)
  | conditional test consequent alternative =>
    conditional test.rename consequent.rename alternative.rename
  | define parameters value => define (parameters.rename ρ) value.rename
  | assign target value => assign target value.rename
  | close parameters formal source body wraps =>
    close (parameters.rename ρ) (formal.rename ρ) (source.rename ρ) body.rename wraps
  | sequence first rest => sequence first.rename rest.rename
  | capture receiver => capture receiver.rename
  | combine operator operands => combine operator.rename (operands.rename ρ)

variable {ρ}

@[simp] theorem Stack.depth_rename (stack : Stack) : (stack.rename ρ).depth = stack.depth := by
  cases stack with
  | empty => rfl
  | push top rest =>
    cases top
    rfl

theorem Stack.rename_extend (stack : Stack) (id : Identity) (resume : Code) (scope : ScopeId)
    (pending : Form) :
    (stack.extend id resume scope pending).rename ρ =
      (stack.rename ρ).extend (ρ.frame id) (resume.rename ρ) scope (pending.rename ρ) := by
  rw [extend, extend, depth_rename]
  rfl

@[simp] theorem Code.isReturn_rename (code : Code) : (code.rename ρ).isReturn = code.isReturn := by
  cases code <;> rfl

theorem Code.rename_framed (code next : Code) :
    (code.framed next).rename ρ = (code.rename ρ).framed (next.rename ρ) := by
  unfold framed
  rw [isReturn_rename]
  split <;> rfl

namespace Form

@[simp] theorem isFalse_rename (f : Form) : (f.rename ρ).isFalse = f.isFalse := by
  cases f with
  | bool value => cases value <;> rfl
  | _ => rfl

@[simp] theorem combiner?_rename (f : Form) :
    (f.rename ρ).combiner? = f.combiner?.map (Combiner.rename ρ) := by
  cases f <;> rfl

end Form

@[simp] theorem Combiner.underlying?_rename (c : Combiner) :
    (c.rename ρ).underlying? = c.underlying?.map (Combiner.rename ρ) := by
  cases c <;> rfl

@[simp] theorem Combiner.isOperative_rename (c : Combiner) :
    (c.rename ρ).isOperative = c.isOperative := by
  cases c <;> rfl

@[simp] theorem Combiner.name?_rename : ∀ c : Combiner, (c.rename ρ).name? = c.name?
  | .applicative _ inner => inner.name?_rename
  | .operative .. | .native _ | .continuation _ | .eval => rfl

mutual

@[simp] theorem Form.write_rename (running : Option Native) :
    ∀ (place : Place) (f : Form), (f.rename ρ).write running place = f.write running place
  | place, .pair _ car cdr => by
    simp only [Form.rename, Form.write, car.write_rename, cdr.write_rename]
  | place, .combiner c => by simp only [Form.rename, Form.write, c.write_rename]
  | _, .nil | _, .symbol _ | _, .int _ | _, .real _ | _, .bool true | _, .bool false | _, .ignore
  | _, .inert | _, .environment _ => rfl

@[simp] theorem Combiner.write_rename (running : Option Native) :
    ∀ c : Combiner, (c.rename ρ).write running = c.write running
  | .operative _ _ t => t.write_rename running
  | .applicative _ inner =>
    congrArg ("#[applicative " ++ · ++ "]") (inner.write_rename running)
  | .continuation stack =>
    congrArg ("#[continuation " ++ Nat.repr · ++ "]") stack.depth_rename
  | .native _ | .eval => rfl

@[simp] theorem Template.write_rename (running : Option Native) :
    ∀ t : Template, (t.rename ρ).write running = t.write running
  | ⟨parameters, _, _, _, _⟩ =>
    congrArg ("#[operative " ++ · ++ "]") (parameters.write_rename running .alone)

end

@[simp] theorem Form.text_rename (f : Form) : (f.rename ρ).text = f.text :=
  f.write_rename none .alone

@[simp] theorem Form.textDuring_rename (f : Form) (n : Native) :
    (f.rename ρ).textDuring n = f.textDuring n := by
  rw [textDuring_eq, textDuring_eq, f.write_rename]

/-! Identity. -/

theorem Stack.same_rename (stack other : Stack) :
    (stack.rename ρ).same (other.rename ρ) = stack.same other := by
  cases stack with
  | empty => cases other <;> rfl
  | push top rest =>
    cases other with
    | empty => rfl
    | push top' rest' =>
      cases top
      cases top'
      exact ρ.frame_injective.beq_eq

theorem Combiner.same_rename (c d : Combiner) : (c.rename ρ).same (d.rename ρ) = c.same d := by
  cases c <;> cases d
  case operative.operative => exact ρ.object_injective.beq_eq
  case applicative.applicative => exact ρ.object_injective.beq_eq
  case continuation.continuation k l => exact k.same_rename l
  all_goals rfl

theorem Form.isSame_rename (f g : Form) : (f.rename ρ).isSame (g.rename ρ) = f.isSame g := by
  cases f <;> cases g
  case pair.pair => exact ρ.object_injective.beq_eq
  case combiner.combiner c d => exact c.same_rename d
  all_goals rfl

theorem Form.isEqual_rename (f g : Form) : (f.rename ρ).isEqual (g.rename ρ) = f.isEqual g :=
  isEqual_image (fun _ _ _ => rfl) (fun f atom => by cases f <;> first | rfl | cases atom)
    isSame_rename f g

/-- Natives cannot tell forms under other numbers from the forms. -/
def Renaming.likeness (ρ : Renaming) : Likeness where
  form := Form.rename ρ
  combiner := Combiner.rename ρ
  object := ρ.object
  scope := id
  pair _ _ _ := rfl
  combined _ := rfl
  environment _ := rfl
  atom f pair combiner _ := by
    cases f with
    | pair => cases pair
    | combiner => cases combiner
    | _ => rfl
  applicative _ _ := rfl
  underlying? := Combiner.underlying?_rename
  isOperative := Combiner.isOperative_rename
  textDuring := Form.textDuring_rename
  isSame := Form.isSame_rename
  isEqual := Form.isEqual_rename

theorem Renaming.legible (ρ : Renaming) : ρ.likeness.Legible := Form.text_rename

theorem Form.items_rename (f : Form) : (f.rename ρ).items = f.items.map (rename ρ) :=
  ρ.likeness.items f

theorem Form.operands_rename (f : Form) {text : Form → String}
    (written : ∀ f : Form, text (f.rename ρ) = text f) :
    (f.rename ρ).operands text = (f.operands text).map (List.map (rename ρ)) :=
  ρ.likeness.operands f written

/-! Compiling. -/

theorem Renaming.expr_likeness (x : Expr) : ρ.likeness.expr x = x.rename ρ := by
  induction x with
  | refer | constant => rfl
  | conditional test consequent alternative testIH consequentIH alternativeIH =>
    simp only [Likeness.expr, Expr.rename, testIH, consequentIH, alternativeIH]
  | define parameters value ih => exact congrArg (Expr.define _) ih
  | assign target value ih => exact congrArg (Expr.assign _) ih
  | close parameters formal source body wraps ih => exact congrArg (Expr.close _ _ _ · wraps) ih
  | sequence first rest firstIH restIH => simp only [Likeness.expr, Expr.rename, firstIH, restIH]
  | capture receiver ih => exact congrArg Expr.capture ih
  | combine operator operands ih => exact congrArg (Expr.combine · _) ih

theorem Form.expr_rename (f : Form) : (f.rename ρ).expr = f.expr.map (Expr.rename ρ) :=
  funext ρ.expr_likeness ▸ ρ.legible.expr f

theorem Form.exprs_rename (f : Form) :
    (f.rename ρ).exprs = f.exprs.map (List.map (Expr.rename ρ)) :=
  funext ρ.expr_likeness ▸ ρ.legible.exprs f

theorem Expr.code_rename (x : Expr) (next : Code) :
    (x.rename ρ).code (next.rename ρ) = (x.code next).rename ρ := by
  induction x generalizing next with
  | refer | constant => rfl
  | conditional test consequent alternative testIH consequentIH alternativeIH =>
    simp only [rename, code, consequentIH, alternativeIH]
    exact testIH (.test (consequent.code next) (alternative.code next))
  | define parameters value ih => exact ih (.define parameters next)
  | assign target value ih => exact ih (.assign target next)
  | close parameters formal source body wraps ih =>
    have body := ih .ret
    simp only [Code.rename] at body
    simp only [rename, code, body, Code.rename, Template.rename]
  | sequence first rest firstIH restIH =>
    simp only [rename, code, restIH]
    exact firstIH (rest.code next)
  | capture receiver ih =>
    have receiver := ih .call
    simp only [Code.rename] at receiver
    simp only [rename, code, receiver, Code.rename_framed, Code.rename]
  | combine operator operands ih =>
    have operator := ih (.apply operands)
    simp only [Code.rename] at operator
    simp only [rename, code, operator, Code.rename_framed]

theorem Expr.operandsCode_rename (xs : List Expr) (next : Code) :
    operandsCode (xs.map (rename ρ)) (next.rename ρ) = (operandsCode xs next).rename ρ := by
  induction xs with
  | nil => rfl
  | cons x xs ih =>
    simp only [List.map_cons, operandsCode, ih]
    exact x.code_rename (.argument (operandsCode xs next))

theorem Form.compile_rename (f : Form) (next : Code) :
    (f.rename ρ).compile (next.rename ρ) = (f.compile next).map (Code.rename ρ) := by
  rw [compile_eq, compile_eq, expr_rename]
  cases f.expr with
  | error error => rfl
  | ok x => exact congrArg Except.ok (x.code_rename next)

theorem Form.compileArguments_rename (operands : Form) (c : Combiner) :
    (operands.rename ρ).compileArguments (c.rename ρ) =
      (operands.compileArguments c).map (Code.rename ρ) := by
  unfold compileArguments
  rw [operands_rename _ text_rename, compileOperands_eq, compileOperands_eq, exprs_rename]
  cases operands.operands text with
  | error error => rfl
  | ok args =>
    cases operands.exprs with
    | error error => rfl
    | ok xs =>
      exact congrArg Except.ok (Expr.operandsCode_rename xs (.constant (.combiner c) .call))

/-! What a renaming leaves alone. -/

/-- The renaming leaves alone what the discipline allows. -/
structure Renaming.Fixes (ρ : Renaming) (D : Discipline) : Prop where
  object : ∀ i, D.object i → ρ.object i = i
  frame : ∀ i, D.frame i → ρ.frame i = i

variable {D : Discipline}

mutual

theorem Form.Obeys.rename_eq (fixes : ρ.Fixes D) : ∀ {f : Form}, f.Obeys D → f.rename ρ = f
  | .pair id car cdr, ⟨allowed, first, rest⟩ => by
    rw [Form.rename, fixes.object id allowed, first.rename_eq fixes, rest.rename_eq fixes]
  | .combiner c, obeys => by rw [Form.rename, Combiner.Obeys.rename_eq fixes obeys]
  | .environment _, _ | .nil, _ | .symbol _, _ | .int _, _ | .real _, _ | .bool _, _ | .ignore, _
  | .inert, _ => rfl

theorem Combiner.Obeys.rename_eq (fixes : ρ.Fixes D) :
    ∀ {c : Combiner}, c.Obeys D → c.rename ρ = c
  | .operative id scope t, ⟨object, _, template⟩ => by
    rw [Combiner.rename, fixes.object id object, template.rename_eq fixes]
  | .applicative id inner, ⟨allowed, obeys⟩ => by
    rw [Combiner.rename, fixes.object id allowed, obeys.rename_eq fixes]
  | .continuation stack, ⟨_, obeys⟩ => by rw [Combiner.rename, obeys.rename_eq fixes]
  | .native _, _ | .eval, _ => rfl

theorem Template.Obeys.rename_eq (fixes : ρ.Fixes D) :
    ∀ {t : Template}, t.Obeys D → t.rename ρ = t
  | ⟨parameters, formal, source, body, wraps⟩, ⟨_, p, f, s, b⟩ => by
    rw [Template.rename, p.rename_eq fixes, f.rename_eq fixes, s.rename_eq fixes, b.rename_eq fixes]

theorem Code.Obeys.rename_eq (fixes : ρ.Fixes D) :
    ∀ {code : Code}, code.Obeys D → code.rename ρ = code
  | .constant value next, ⟨v, n⟩ => by rw [Code.rename, v.rename_eq fixes, n.rename_eq fixes]
  | .close template next, ⟨t, n⟩ => by rw [Code.rename, t.rename_eq fixes, n.rename_eq fixes]
  | .define parameters next, ⟨p, n⟩ => by rw [Code.rename, p.rename_eq fixes, n.rename_eq fixes]
  | .test consequent alternative, ⟨c, a⟩ => by
    rw [Code.rename, c.rename_eq fixes, a.rename_eq fixes]
  | .frame resume next, ⟨r, n⟩ => by rw [Code.rename, r.rename_eq fixes, n.rename_eq fixes]
  | .apply operands, obeys => by rw [Code.rename, Form.Obeys.rename_eq fixes obeys]
  | .refer name next, obeys => by
    have same : next.rename ρ = next := Code.Obeys.rename_eq fixes obeys
    rw [Code.rename, same]
  | .assign name next, obeys => by
    have same : next.rename ρ = next := Code.Obeys.rename_eq fixes obeys
    rw [Code.rename, same]
  | .argument next, obeys => by
    have same : next.rename ρ = next := Code.Obeys.rename_eq fixes obeys
    rw [Code.rename, same]
  | .capture next, obeys => by
    have same : next.rename ρ = next := Code.Obeys.rename_eq fixes obeys
    rw [Code.rename, same]
  | .halt, _ | .call, _ | .ret, _ => rfl

theorem Stack.Obeys.rename_eq (fixes : ρ.Fixes D) :
    ∀ {stack : Stack}, stack.Obeys D → stack.rename ρ = stack
  | .empty, _ => rfl
  | .push top rest, ⟨t, r⟩ => by rw [Stack.rename, t.rename_eq fixes, r.rename_eq fixes]

theorem Frame.Obeys.rename_eq (fixes : ρ.Fixes D) :
    ∀ {frame : Frame}, frame.Obeys D → frame.rename ρ = frame
  | ⟨id, depth, resume, scope, pending⟩, ⟨number, _, r, p⟩ => by
    rw [Frame.rename, fixes.frame id number, r.rename_eq fixes, p.rename_eq fixes]

end

end Vau
