import Vau.Proofs.Evaluator.Simulation

/-! More fuel changes no outcome. -/

set_option autoImplicit false

namespace Vau

/-- Whatever the one comes to, the other comes to. -/
def Meaning.Below {α : Type} (meaning other : Meaning α) : Prop :=
  ∀ w outcome, meaning.result w = some outcome → other.result w = some outcome

namespace Meaning.Below

variable {α β : Type} {meaning other : Meaning α}

theorem refl (meaning : Meaning α) : meaning.Below meaning := fun _ _ result => result

theorem nothing : (Meaning.nothing : Meaning α).Below other := by
  intro w outcome result
  cases result

theorem bind (first : meaning.Below other) {k k' : α → Meaning β}
    (later : ∀ a, (k a).Below (k' a)) : (meaning >>= k).Below (other >>= k') := by
  intro w outcome result
  rw [Meaning.result_bind] at result ⊢
  rcases here : meaning.result w with _ | ⟨_ | a, middle⟩
  · rw [here] at result
    cases result
  · rw [first w _ here]
    rwa [here] at result
  · rw [first w _ here]
    rw [here] at result
    exact later a middle outcome result

end Meaning.Below

def Combiner.Below (combine combine' : Combiner → Form → ScopeId → Meaning Form) : Prop :=
  ∀ c operands e, (combine c operands e).Below (combine' c operands e)

variable {combine combine' : Combiner → Form → ScopeId → Meaning Form}

mutual

theorem Form.below_evaluate (below : Combiner.Below combine combine') :
    ∀ (f : Form) (e : ScopeId), (f.evaluate combine e).Below (f.evaluate combine' e)
  | .pair _ head operands, e => by
    unfold Form.evaluate
    split
    · exact (head.below_evaluate below e).bind fun v => .bind (.refl _) fun c => below c operands e
    · split
      · exact .refl _
      · rename_i test _ consequent found
        refine (test.below_evaluate below e).bind fun v => ?_
        split
        · exact .refl _
        · exact consequent.below_evaluate below e
      · rename_i test _ consequent _ alternative found
        refine (test.below_evaluate below e).bind fun v => ?_
        split
        · exact alternative.below_evaluate below e
        · exact consequent.below_evaluate below e
      · rename_i value found
        exact (value.below_evaluate below e).bind fun v => .refl _
      · rename_i value found
        exact (value.below_evaluate below e).bind fun v => .refl _
      · exact .refl _
      · exact .refl _
      · exact operands.below_evaluateAll below e
      · exact .refl _
      · exact .refl _
  | .symbol _, _ | .nil, _ | .int _, _ | .real _, _ | .bool _, _ | .ignore, _ | .inert, _
  | .combiner _, _ | .environment _, _ => .refl _

theorem Form.below_evaluateAll (below : Combiner.Below combine combine') :
    ∀ (f : Form) (e : ScopeId), (f.evaluateAll combine e).Below (f.evaluateAll combine' e)
  | .pair _ form rest, e => by
    have first := form.below_evaluate below e
    have later := rest.below_evaluateAll below e
    unfold Form.evaluateAll
    split
    · exact first.bind fun _ => later
    · exact first
  | .symbol _, _ | .nil, _ | .int _, _ | .real _, _ | .bool _, _ | .ignore, _ | .inert, _
  | .combiner _, _ | .environment _, _ => .refl _

end

theorem Form.below_evaluateOperands (below : Combiner.Below combine combine') (f : Form)
    (e : ScopeId) : (f.evaluateOperands combine e).Below (f.evaluateOperands combine' e) := by
  induction f using Form.items.induct with
  | case1 id operand rest ih =>
    exact (operand.below_evaluate below e).bind fun v => .bind (.refl _) fun _ =>
      ih.bind fun vs => .refl _
  | case2 f atom =>
    cases f with
    | pair id operand rest => exact (atom id operand rest rfl).elim
    | _ => exact .refl _

theorem Combiner.below_receive (below : Combiner.Below combine combine') (c : Combiner)
    (e : ScopeId) (values : List Form) :
    (c.receive combine e values).Below (c.receive combine' e values) := by
  cases c with
  | continuation k => exact .refl _
  | operative | applicative | native | eval => exact .bind (.refl _) fun args => below _ args e

theorem Combiner.below_combine {fuel more : Nat} (le : fuel ≤ more) :
    Combiner.Below (Combiner.combine fuel) (Combiner.combine more) := by
  induction fuel generalizing more with
  | zero => exact fun _ _ _ => .nothing
  | succ fuel ih =>
    intro c operands e
    obtain ⟨more, rfl⟩ : ∃ n, more = n + 1 := Nat.exists_eq_add_one.mpr (Nat.zero_lt_of_lt le)
    have below := ih (Nat.le_of_succ_le_succ le)
    unfold Combiner.combine
    cases c with
    | operative id static t => exact .bind (.refl _) fun d => t.source.below_evaluateAll below d
    | applicative id inner =>
      exact .bind (.refl _) fun _ => (operands.below_evaluateOperands below e).bind fun values =>
        inner.below_receive below e values
    | native n => exact .refl _
    | eval => exact .bind (.refl _) fun (form, scope) => form.below_evaluate below scope
    | continuation k =>
      exact .bind (.refl _) fun _ => (operands.below_evaluateOperands below e).bind fun values =>
        Combiner.below_receive below (.continuation k) e values

end Vau
