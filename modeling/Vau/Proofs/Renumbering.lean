import Mathlib.Order.WellFounded
import Vau.Proofs.Discipline
import Vau.Proofs.Likeness

/-! Other numbers for objects and scopes.

Evaluation gives out numbers in order, so what is made on the way has other numbers where more was
made before. Nothing that is computed from a form depends on them. Continuations stay as they are,
as what they hold was there before anything was made. -/

set_option autoImplicit false

namespace Vau

structure Renumbering where
  object : Identity → Identity
  scope : ScopeId → ScopeId
  object_mono : StrictMono object
  scope_mono : StrictMono scope

variable (ρ : Renumbering)

mutual

def Form.renumber : Form → Form
  | .pair id car cdr => .pair (ρ.object id) car.renumber cdr.renumber
  | .combiner c => .combiner c.renumber
  | .environment e => .environment (ρ.scope e)
  | .nil => .nil
  | .symbol name => .symbol name
  | .int value => .int value
  | .real value => .real value
  | .bool value => .bool value
  | .ignore => .ignore
  | .inert => .inert

def Combiner.renumber : Combiner → Combiner
  | .operative id scope t => .operative (ρ.object id) (ρ.scope scope) t.renumber
  | .applicative id inner => .applicative (ρ.object id) inner.renumber
  | .native n => .native n
  | .continuation stack => .continuation stack
  | .eval => .eval

def Template.renumber : Template → Template
  | ⟨parameters, formal, source, _, wraps⟩ =>
    ⟨parameters.renumber, formal.renumber, source.renumber,
      (source.renumber.compileAll .ret).toOption.getD .ret, wraps⟩

end

variable {ρ}

namespace Form

@[simp] theorem isFalse_renumber (f : Form) : (f.renumber ρ).isFalse = f.isFalse := by
  cases f with
  | bool value => cases value <;> rfl
  | _ => rfl

@[simp] theorem symbol?_renumber (f : Form) : (f.renumber ρ).symbol? = f.symbol? := by
  cases f <;> rfl

@[simp] theorem car?_renumber (f : Form) : (f.renumber ρ).car? = f.car?.map (renumber ρ) := by
  cases f <;> rfl

end Form

@[simp] theorem Combiner.underlying?_renumber (c : Combiner) :
    (c.renumber ρ).underlying? = c.underlying?.map (Combiner.renumber ρ) := by
  cases c <;> rfl

@[simp] theorem Combiner.name?_renumber : ∀ c : Combiner, (c.renumber ρ).name? = c.name?
  | .applicative _ inner => inner.name?_renumber
  | .operative .. | .native _ | .continuation _ | .eval => rfl

mutual

@[simp] theorem Form.write_renumber (running : Option Native) :
    ∀ (place : Place) (f : Form), (f.renumber ρ).write running place = f.write running place
  | place, .pair _ car cdr => by
    simp only [Form.renumber, Form.write, car.write_renumber, cdr.write_renumber]
  | place, .combiner c => by simp only [Form.renumber, Form.write, c.write_renumber]
  | _, .nil | _, .symbol _ | _, .int _ | _, .real _ | _, .bool true | _, .bool false | _, .ignore
  | _, .inert | _, .environment _ => rfl

@[simp] theorem Combiner.write_renumber (running : Option Native) :
    ∀ c : Combiner, (c.renumber ρ).write running = c.write running
  | .operative _ _ t => t.write_renumber running
  | .applicative _ inner =>
    congrArg ("#[applicative " ++ · ++ "]") (inner.write_renumber running)
  | .continuation _ | .native _ | .eval => rfl

@[simp] theorem Template.write_renumber (running : Option Native) :
    ∀ t : Template, (t.renumber ρ).write running = t.write running
  | ⟨parameters, _, _, _, _⟩ =>
    congrArg ("#[operative " ++ · ++ "]") (parameters.write_renumber running .alone)

end

@[simp] theorem Form.text_renumber (f : Form) : (f.renumber ρ).text = f.text :=
  f.write_renumber none .alone

@[simp] theorem Form.textDuring_renumber (f : Form) (n : Native) :
    (f.renumber ρ).textDuring n = f.textDuring n := by
  rw [textDuring_eq, textDuring_eq, f.write_renumber]

/-! Identity. -/

theorem Combiner.same_renumber (c d : Combiner) :
    (c.renumber ρ).same (d.renumber ρ) = c.same d := by
  cases c <;> cases d
  case operative.operative => exact ρ.object_mono.injective.beq_eq
  case applicative.applicative => exact ρ.object_mono.injective.beq_eq
  all_goals rfl

theorem Form.isSame_renumber (f g : Form) :
    (f.renumber ρ).isSame (g.renumber ρ) = f.isSame g := by
  cases f <;> cases g
  case pair.pair => exact ρ.object_mono.injective.beq_eq
  case combiner.combiner c d => exact c.same_renumber d
  case environment.environment => exact ρ.scope_mono.injective.beq_eq
  all_goals rfl

theorem Form.isEqual_renumber (f g : Form) :
    (f.renumber ρ).isEqual (g.renumber ρ) = f.isEqual g :=
  isEqual_image (fun _ _ _ => rfl) (fun f atom => by rw [car?_renumber, atom]; rfl)
    isSame_renumber f g

def Renumbering.likeness (ρ : Renumbering) : Likeness where
  form := Form.renumber ρ
  combiner := Combiner.renumber ρ
  object := ρ.object
  scope := ρ.scope
  pair _ _ _ := rfl
  combined _ := rfl
  environment _ := rfl
  atom f pair combiner environment := by
    cases f with
    | pair => cases pair
    | combiner => cases combiner
    | environment => cases environment
    | _ => rfl
  applicative _ _ := rfl
  underlying? := Combiner.underlying?_renumber
  isOperative c := by cases c <;> rfl
  textDuring := Form.textDuring_renumber
  isSame := Form.isSame_renumber
  isEqual := Form.isEqual_renumber

theorem Renumbering.legible (ρ : Renumbering) : ρ.likeness.Legible := Form.text_renumber

@[simp] theorem SpecialForm.ofHead?_renumber (f : Form) : ofHead? (f.renumber ρ) = ofHead? f :=
  ρ.likeness.ofHead? f

theorem Form.operands_renumber (f : Form) {text : Form → String}
    (written : ∀ f : Form, text (f.renumber ρ) = text f) :
    (f.renumber ρ).operands text = (f.operands text).map (List.map (renumber ρ)) :=
  ρ.likeness.operands f written

/-! Compiling. -/

/-- Both succeed, or both fail with the same error. -/
inductive Concur {α β : Type} : Except Error α → Except Error β → Prop
  | ok (a : α) (b : β) : Concur (.ok a) (.ok b)
  | error (error : Error) : Concur (.error error) (.error error)

theorem Concur.bind {α β γ δ : Type} {m : Except Error α} {m' : Except Error β}
    (first : Concur m m') {k : α → Except Error γ} {k' : β → Except Error δ}
    (rest : ∀ a b, Concur (k a) (k' b)) : Concur (m >>= k) (m' >>= k') := by
  cases first with
  | ok a b => exact rest a b
  | error error => exact .error error

theorem Concur.refl {α : Type} (m : Except Error α) : Concur m m := by
  cases m with
  | ok a => exact .ok a a
  | error error => exact .error error

theorem Concur.of_map {α β : Type} {m : Except Error α} {m' : Except Error β} {f : α → β}
    (same : m' = m.map f) : Concur m m' := by
  cases same
  cases m with
  | ok a => exact .ok _ _
  | error error => exact .error _

theorem Concur.map {α β γ δ : Type} {m : Except Error α} {m' : Except Error β} (same : Concur m m')
    (g : α → γ) (g' : β → δ) : Concur (m.map g) (m'.map g') := by
  cases same with
  | ok a b => exact .ok _ _
  | error error => exact .error _

theorem Form.concur_compile (f : Form) (next next' : Code) :
    Concur (f.compile next) ((f.renumber ρ).compile next') := by
  rw [compile_eq, compile_eq]
  exact (Concur.of_map (ρ.legible.expr f)).map _ _

theorem Form.concur_compileAll (f : Form) (next next' : Code) :
    Concur (f.compileAll next) ((f.renumber ρ).compileAll next') := by
  rw [compileAll_eq, compileAll_eq]
  exact (Concur.of_map (ρ.legible.body f)).map _ _

theorem Form.concur_arguments (operands : Form) (c c' : Combiner) :
    Concur (operands.compileArguments c) ((operands.renumber ρ).compileArguments c') := by
  unfold compileArguments
  rw [operands_renumber _ text_renumber, compileOperands_eq, compileOperands_eq]
  cases operands.operands text with
  | error error => exact .error _
  | ok args => exact (Concur.of_map (ρ.legible.exprs operands)).map _ _

/-! What is renumbered alike. -/

/-- What the discipline allows gets the same numbers. -/
structure Renumbering.Agrees (D : Discipline) (ρ σ : Renumbering) : Prop where
  object : ∀ i, D.object i → ρ.object i = σ.object i
  scope : ∀ d, D.scope d → ρ.scope d = σ.scope d

variable {D : Discipline} {σ : Renumbering}

mutual

theorem Form.Obeys.renumber_eq (agrees : ρ.Agrees D σ) :
    ∀ {f : Form}, f.Obeys D → f.renumber ρ = f.renumber σ
  | .pair id car cdr, ⟨allowed, first, rest⟩ => by
    rw [Form.renumber, Form.renumber, agrees.object id allowed, first.renumber_eq agrees,
      rest.renumber_eq agrees]
  | .combiner c, obeys => by
    rw [Form.renumber, Form.renumber, Combiner.Obeys.renumber_eq agrees obeys]
  | .environment e, allowed => congrArg Form.environment (agrees.scope e allowed)
  | .nil, _ | .symbol _, _ | .int _, _ | .real _, _ | .bool _, _ | .ignore, _ | .inert, _ => rfl

theorem Combiner.Obeys.renumber_eq (agrees : ρ.Agrees D σ) :
    ∀ {c : Combiner}, c.Obeys D → c.renumber ρ = c.renumber σ
  | .operative id scope t, ⟨object, allowed, template⟩ => by
    rw [Combiner.renumber, Combiner.renumber, agrees.object id object, agrees.scope scope allowed,
      template.renumber_eq agrees]
  | .applicative id inner, ⟨allowed, obeys⟩ => by
    rw [Combiner.renumber, Combiner.renumber, agrees.object id allowed, obeys.renumber_eq agrees]
  | .continuation _, _ | .native _, _ | .eval, _ => rfl

theorem Template.Obeys.renumber_eq (agrees : ρ.Agrees D σ) :
    ∀ {t : Template}, t.Obeys D → t.renumber ρ = t.renumber σ
  | ⟨parameters, formal, source, _, wraps⟩, ⟨_, p, f, s, _⟩ => by
    rw [Template.renumber, Template.renumber, p.renumber_eq agrees, f.renumber_eq agrees,
      s.renumber_eq agrees]

end

def Renumbering.same : Renumbering := ⟨id, id, strictMono_id, strictMono_id⟩

mutual

theorem Form.Obeys.renumber_same (compiled : ∀ t, D.template t → t.Compiled) :
    ∀ {f : Form}, f.Obeys D → f.renumber .same = f
  | .pair id car cdr, ⟨_, first, rest⟩ => by
    rw [Form.renumber, first.renumber_same compiled, rest.renumber_same compiled]
    rfl
  | .combiner c, obeys => by rw [Form.renumber, Combiner.Obeys.renumber_same compiled obeys]
  | .environment e, _ => rfl
  | .nil, _ | .symbol _, _ | .int _, _ | .real _, _ | .bool _, _ | .ignore, _ | .inert, _ => rfl

theorem Combiner.Obeys.renumber_same (compiled : ∀ t, D.template t → t.Compiled) :
    ∀ {c : Combiner}, c.Obeys D → c.renumber .same = c
  | .operative id scope t, ⟨_, _, template⟩ => by
    rw [Combiner.renumber, template.renumber_same compiled]
    rfl
  | .applicative id inner, ⟨_, obeys⟩ => by
    rw [Combiner.renumber, obeys.renumber_same compiled]
    rfl
  | .continuation _, _ | .native _, _ | .eval, _ => rfl

theorem Template.Obeys.renumber_same (compiled : ∀ t, D.template t → t.Compiled) :
    ∀ {t : Template}, t.Obeys D → t.renumber .same = t
  | ⟨parameters, formal, source, body, wraps⟩, ⟨holds, p, f, s, _⟩ => by
    rw [Template.renumber, p.renumber_same compiled, f.renumber_same compiled,
      s.renumber_same compiled, (compiled _ holds).2]
    rfl

end

end Vau
