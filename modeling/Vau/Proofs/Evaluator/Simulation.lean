import Vau.Proofs.Control.Ahead
import Vau.Proofs.Evaluator

/-! What it takes for the machine to agree with a meaning: the rules by which agreement is shown. -/

set_option autoImplicit false

namespace Vau

def Evaluation.world (e : Evaluation) : World := e.toMachine.world

/-- The goal is met after some instructions in states as described, unless the step limit is met
before. -/
inductive Progress.Leads (on : Evaluation → Prop) (goal : Progress → Prop) : Progress → Prop
  | here {p : Progress} : goal p → Leads on goal p
  | limited {e : Evaluation} : on e → e.Exhausted → Leads on goal (.running e)
  | step {e : Evaluation} : on e → ¬ e.Exhausted → Leads on goal e.step →
    Leads on goal (.running e)

/-- There are so many instructions more in states as described, unless the step limit is met. -/
inductive Progress.Outlasts (on : Evaluation → Prop) : Nat → Progress → Prop
  | zero {p : Progress} : Outlasts on 0 p
  | limited {n : Nat} {e : Evaluation} : on e → e.Exhausted → Outlasts on n (.running e)
  | step {n : Nat} {e : Evaluation} : on e → ¬ e.Exhausted → Outlasts on n e.step →
    Outlasts on (n + 1) (.running e)

def Progress.Failed (error : Error) (w : World) (p : Progress) : Prop :=
  ∃ m : Machine, p = .failed error m ∧ m.world = w

/-- The machine agrees with a meaning. Where the meaning has a value, the machine gets to what is
described for it; where it has an error, the machine fails with the same; and where the fuel of the
meaning does not last, the machine goes on for as many instructions. The states on the way are as
described. -/
def Progress.Agrees {α : Type} (on : Evaluation → Prop) (goal : α → World → Progress → Prop)
    (fuel : Nat) (p : Progress) (meaning : Meaning α) (w : World) : Prop :=
  match meaning.result w with
  | some (.ok a, w) => p.Leads on (goal a w)
  | some (.error (.error error), w) => p.Leads on (Failed error w)
  | some (.error .control, _) => True
  | none => p.Outlasts on fuel

namespace Progress

variable {p : Progress} {on on' : Evaluation → Prop} {goal goal' : Progress → Prop}

theorem Leads.trans (leads : p.Leads on goal) (later : ∀ p, goal p → p.Leads on goal') :
    p.Leads on goal' := by
  induction leads with
  | here met => exact later _ met
  | limited here exhausted => exact .limited here exhausted
  | step here within _ ih => exact .step here within ih

theorem Leads.weaken (leads : p.Leads on goal) (implied : ∀ e, on e → on' e) :
    p.Leads on' goal := by
  induction leads with
  | here met => exact .here met
  | limited here exhausted => exact .limited (implied _ here) exhausted
  | step here within _ ih => exact .step (implied _ here) within ih

theorem Outlasts.weaken {n : Nat} (outlasts : p.Outlasts on n) (implied : ∀ e, on e → on' e) :
    p.Outlasts on' n := by
  induction outlasts with
  | zero => exact .zero
  | limited here exhausted => exact .limited (implied _ here) exhausted
  | step here within _ ih => exact .step (implied _ here) within ih

theorem Outlasts.pred {n : Nat} (outlasts : p.Outlasts on (n + 1)) : p.Outlasts on n := by
  induction n generalizing p with
  | zero => exact .zero
  | succ n ih =>
    cases outlasts with
    | limited here exhausted => exact .limited here exhausted
    | step here within outlasts => exact .step here within (ih outlasts)

theorem Leads.outlasts {n : Nat} (leads : p.Leads on (Outlasts on n)) : p.Outlasts on n := by
  induction leads with
  | here outlasts => exact outlasts
  | limited here exhausted => exact .limited here exhausted
  | step here within _ ih => exact Outlasts.pred (.step here within ih)

end Progress

namespace Meaning

variable {α β : Type}

theorem result_bind (meaning : Meaning α) (k : α → Meaning β) (w : World) :
    (meaning >>= k).result w = match meaning.result w with
      | some (.ok a, w) => (k a).result w
      | some (.error exit, w) => some (.error exit, w)
      | none => none := by
  change Option.bind (meaning.result w) _ = _
  rcases meaning.result w with _ | ⟨_ | _, _⟩ <;> rfl

theorem result_onScopes (change : Scopes → Except Error α × Scopes) (w : World) :
    (onScopes change).result w = some ((change w.store.scopes).1.mapError .error,
      { w with store.scopes := (change w.store.scopes).2 }) :=
  rfl

end Meaning

namespace Progress.Agrees

variable {α β : Type} {on : Evaluation → Prop} {goal : α → World → Progress → Prop} {fuel : Nat}
  {p : Progress} {meaning : Meaning α} {w : World}

theorem of_ok {a : α} {w' : World} (result : meaning.result w = some (.ok a, w'))
    (met : goal a w' p) : p.Agrees on goal fuel meaning w := by
  rw [Agrees, result]
  exact .here met

theorem leads {a : α} {w' : World} (agrees : p.Agrees on goal fuel meaning w)
    (result : meaning.result w = some (.ok a, w')) : p.Leads on (goal a w') := by
  rwa [Agrees, result] at agrees

theorem of_error {error : Error} {w' : World}
    (result : meaning.result w = some (.error (.error error), w')) (failed : p.Failed error w') :
    p.Agrees on goal fuel meaning w := by
  rw [Agrees, result]
  exact .here failed

theorem pure {a : α} (met : goal a w p) : p.Agrees on goal fuel (Pure.pure a : Meaning α) w :=
  of_ok rfl met

theorem fail {error : Error} (failed : p.Failed error w) :
    p.Agrees on goal fuel (Meaning.fail error) w :=
  of_error rfl failed

theorem control : p.Agrees on goal fuel (throw .control : Meaning α) w := trivial

theorem extend (agrees : p.Agrees on goal fuel meaning w) {goal' : α → World → Progress → Prop}
    (later : ∀ a w p, goal a w p → p.Leads on (goal' a w)) : p.Agrees on goal' fuel meaning w := by
  unfold Agrees at agrees ⊢
  split at agrees
  · exact agrees.trans (later _ _)
  · exact agrees
  · exact agrees
  · exact agrees

theorem mono (agrees : p.Agrees on goal fuel meaning w) {goal' : α → World → Progress → Prop}
    (implied : ∀ a w p, goal a w p → goal' a w p) : p.Agrees on goal' fuel meaning w :=
  agrees.extend fun a w p met => .here (implied a w p met)

theorem bind (goal : α → World → Progress → Prop) (agrees : p.Agrees on goal fuel meaning w)
    {k : α → Meaning β} {goal' : β → World → Progress → Prop}
    (later : ∀ a w p, goal a w p → p.Agrees on goal' fuel (k a) w) :
    p.Agrees on goal' fuel (meaning >>= k) w := by
  unfold Agrees at agrees ⊢
  rw [Meaning.result_bind]
  split at agrees <;> rename_i result <;> simp only [result]
  · rename_i a w'
    have whole (p : Progress) (met : goal a w' p) := later a w' p met
    unfold Agrees at whole
    split <;> rename_i result' <;> simp only [result'] at whole
    · exact agrees.trans whole
    · exact agrees.trans whole
    · trivial
    · exact (agrees.trans fun p met => .here (whole p met)).outlasts
  · exact agrees
  · exact agrees

theorem bind_ok {a : α} {w' : World} (result : meaning.result w = some (.ok a, w'))
    {k : α → Meaning β} {goal : β → World → Progress → Prop}
    (later : p.Agrees on goal fuel (k a) w') : p.Agrees on goal fuel (meaning >>= k) w := by
  unfold Agrees at later ⊢
  rw [Meaning.result_bind, result]
  exact later

theorem bind_error {error : Error} {w' : World}
    (result : meaning.result w = some (.error (.error error), w')) (failed : p.Failed error w')
    {k : α → Meaning β} {goal : β → World → Progress → Prop} :
    p.Agrees on goal fuel (meaning >>= k) w := by
  refine of_error ?_ failed
  rw [Meaning.result_bind, result]

theorem bind_fail {error : Error} (failed : p.Failed error w) {k : α → Meaning β}
    {goal : β → World → Progress → Prop} :
    p.Agrees on goal fuel (Meaning.fail error >>= k) w :=
  bind_error rfl failed

/-- A first instruction, which makes up for one unit of fuel. -/
theorem spend {e : Evaluation} (here : on e)
    (agrees : ¬ e.Exhausted → e.tick.execute.Agrees on goal fuel meaning w) :
    (Progress.running e).Agrees on goal (fuel + 1) meaning w := by
  by_cases exhausted : e.Exhausted
  · unfold Agrees
    split
    · exact .limited here exhausted
    · exact .limited here exhausted
    · trivial
    · exact .limited here exhausted
  · have agrees := agrees exhausted
    rw [← Evaluation.step_of_not_exhausted exhausted] at agrees
    unfold Agrees at agrees ⊢
    split at agrees
    · exact .step here exhausted agrees
    · exact .step here exhausted agrees
    · trivial
    · exact .step here exhausted agrees

theorem step {e : Evaluation} (here : on e)
    (agrees : ¬ e.Exhausted → e.tick.execute.Agrees on goal fuel meaning w) :
    (Progress.running e).Agrees on goal fuel meaning w := by
  -- The unit of fuel need not be spent.
  have agrees := spend here agrees
  unfold Agrees at agrees ⊢
  split at agrees
  · exact agrees
  · exact agrees
  · exact agrees
  · exact agrees.pred

theorem weaken (agrees : p.Agrees on goal fuel meaning w) {on' : Evaluation → Prop}
    (implied : ∀ e, on e → on' e) : p.Agrees on' goal fuel meaning w := by
  unfold Agrees at agrees ⊢
  split at agrees
  · exact agrees.weaken implied
  · exact agrees.weaken implied
  · exact agrees
  · exact agrees.weaken implied

theorem onScopes {change : Scopes → Except Error α × Scopes}
    (ok : ∀ a scopes, change w.store.scopes = (.ok a, scopes) →
      goal a { w with store.scopes := scopes } p)
    (error : ∀ error scopes, change w.store.scopes = (.error error, scopes) →
      p.Failed error { w with store.scopes := scopes }) :
    p.Agrees on goal fuel (Meaning.onScopes change) w := by
  rcases changed : change w.store.scopes with ⟨outcome, scopes⟩
  have result : (Meaning.onScopes change).result w =
      some (outcome.mapError .error, { w with store.scopes := scopes }) := by
    rw [Meaning.result_onScopes, changed]
  cases outcome with
  | ok a => exact of_ok result (ok a scopes changed)
  | error error' => exact of_error result (error error' scopes changed)

end Progress.Agrees

end Vau
