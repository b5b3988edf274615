import Vau.Proofs.Evaluator.Outcome
import Vau.Proofs.Limit

/-! What a run comes to is what the evaluator comes to. -/

set_option autoImplicit false

namespace Vau

def Progress.Ends (result : Except Error Form) (w : World) : Progress → Prop
  | .running e => ∃ fuel m, e.run fuel = some (result, m) ∧ m.world = w
  | .finished value m => result = .ok value ∧ m.world = w
  | .failed error m => result = .error error ∧ m.world = w

variable {result : Except Error Form} {w : World}

theorem Evaluation.ends_of_step {e : Evaluation} (ends : e.step.Ends result w) :
    (Progress.running e).Ends result w := by
  cases stepped : e.step with
  | running next =>
    rw [stepped] at ends
    obtain ⟨fuel, m, ran, same⟩ := ends
    exact ⟨fuel + 1, m, (run_of_running stepped fuel).trans ran, same⟩
  | finished value m =>
    rw [stepped] at ends
    obtain ⟨rfl, same⟩ := ends
    exact ⟨1, m, run_of_outcome (congrArg Progress.outcome? stepped) 0, same⟩
  | failed error m =>
    rw [stepped] at ends
    obtain ⟨rfl, same⟩ := ends
    exact ⟨1, m, run_of_outcome (congrArg Progress.outcome? stepped) 0, same⟩

namespace Progress

variable {p : Progress} {on : Evaluation → Prop} {goal : Progress → Prop}

theorem Leads.ends (leads : p.Leads on goal) (unlimited : p.machine.limit = none)
    (met : ∀ q, goal q → q.machine.limit = none → q.Ends result w) : p.Ends result w := by
  induction leads with
  | here here => exact met _ here unlimited
  | limited _ exhausted => exact (not_exhausted unlimited exhausted).elim
  | step _ _ _ ih =>
    exact Evaluation.ends_of_step
      (ih ((congrArg Prod.fst Evaluation.settings_step).trans unlimited))

theorem Failed.ends {error : Error} (failed : p.Failed error w) : p.Ends (.error error) w := by
  obtain ⟨m, rfl, same⟩ := failed
  exact ⟨rfl, same⟩

theorem Receives.ends {e : Evaluation} {value : Form} (unlimited : p.machine.limit = none)
    (receives : p.Receives (e.resumption .halt) value w) : p.Ends (.ok value) w := by
  obtain ⟨there, rfl, received, rfl⟩ := receives
  refine Evaluation.ends_of_step ?_
  rw [Evaluation.step_of_not_exhausted (not_exhausted unlimited), Evaluation.execute]
  have halts : there.tick.code = .halt := received.code
  rw [halts]
  exact ⟨congrArg Except.ok received.acc.symm, rfl⟩

theorem Outlasts.run_eq_none {n : Nat} {e : Evaluation}
    (outlasts : (running e).Outlasts on (n + 1)) (unlimited : e.limit = none) :
    e.run n = none := by
  induction n generalizing e with
  | zero => rfl
  | succ n ih =>
    cases outlasts with
    | limited _ exhausted => exact (not_exhausted unlimited exhausted).elim
    | step _ _ later =>
      have kept := (congrArg Prod.fst (@Evaluation.settings_step e)).trans unlimited
      cases stepped : e.step with
      | running next =>
        rw [stepped] at later kept
        exact (Evaluation.run_of_running stepped n).trans (ih later kept)
      | finished | failed =>
        rw [stepped] at later
        cases later

end Progress

theorem Evaluation.run_mono {e : Evaluation} {fuel more : Nat}
    {outcome : Except Error Form × Machine} (le : fuel ≤ more) (ran : e.run fuel = some outcome) :
    e.run more = some outcome := by
  obtain ⟨count, fewer, ended⟩ := run_eq_some.mp ran
  exact run_eq_some.mpr ⟨count, Nat.lt_of_lt_of_le fewer le, ended⟩

section

variable {m : Machine} {kept : List Form} (reachable : Session.Reachable ⟨m, kept⟩)
  (unlimited : m.limit = none) {f : Form} {e : ScopeId} (known : Session.Knows ⟨m, kept⟩ f)
  (there : e < m.store.scopes.size) {code : Code} (compiled : f.compile .halt = .ok code)

include reachable unlimited known there compiled

theorem Session.Reachable.evalIn_of_outcome {fuel : Nat}
    (outcome : f.outcome fuel e m.world = some (result.mapError .error, w)) :
    ∃ fuel later, m.evalIn fuel f e = some (result, later) ∧ later.world = w := by
  have start : (m.start code e).Reachable := ⟨⟨m, kept⟩, reachable, .start known there compiled⟩
  have agrees := (start.agrees_with_evaluator (fun _ obeys => obeys.code) compiled).1 fuel
  rw [show f.outcome _ (m.start code e).scope (m.start code e).world = _ from outcome] at agrees
  unfold Machine.evalIn
  rw [compiled]
  cases result with
  | ok value =>
    exact Progress.Leads.ends agrees unlimited fun _ met unlimited => met.ends unlimited
  | error error => exact Progress.Leads.ends agrees unlimited fun _ met _ => met.ends

/-- Without a step limit the machine and the evaluator come to the same, where no continuation is
used. -/
theorem Session.Reachable.evalIn_iff
    (direct : ∀ fuel w, f.outcome fuel e m.world ≠ some (.error .control, w)) :
    (∃ fuel later, m.evalIn fuel f e = some (result, later) ∧ later.world = w) ↔
      ∃ fuel, f.outcome fuel e m.world = some (result.mapError .error, w) := by
  refine ⟨?_, fun ⟨fuel, outcome⟩ =>
    reachable.evalIn_of_outcome unlimited known there compiled outcome⟩
  rintro ⟨fuel, later, ran, rfl⟩
  have same {result' : Except Error Form} {w : World}
      (outcome : f.outcome (fuel + 1) e m.world = some (result'.mapError .error, w)) :
      result' = result ∧ w = later.world := by
    obtain ⟨fuel', later', ran', rfl⟩ :=
      reachable.evalIn_of_outcome unlimited known there compiled outcome
    unfold Machine.evalIn at ran ran'
    rw [compiled] at ran ran'
    cases (Evaluation.run_mono (Nat.le_add_right fuel fuel') ran).symm.trans
      (Evaluation.run_mono (Nat.le_add_left fuel' fuel) ran')
    exact ⟨rfl, rfl⟩
  -- The run ended within the fuel, so the evaluator cannot have run out of it.
  rcases outcome : f.outcome (fuel + 1) e m.world with _ | ⟨(error | _) | value, w⟩
  · have start : (m.start code e).Reachable := ⟨⟨m, kept⟩, reachable, .start known there compiled⟩
    have agrees := (start.agrees_with_evaluator (fun _ obeys => obeys.code) compiled).1 (fuel + 1)
    rw [show f.outcome _ (m.start code e).scope (m.start code e).world = _ from outcome] at agrees
    unfold Machine.evalIn at ran
    rw [compiled] at ran
    cases (Progress.Outlasts.run_eq_none agrees unlimited).symm.trans ran
  · obtain ⟨rfl, rfl⟩ := @same (.error error) w outcome
    exact ⟨fuel + 1, outcome⟩
  · exact (direct (fuel + 1) w outcome).elim
  · obtain ⟨rfl, rfl⟩ := @same (.ok value) w outcome
    exact ⟨fuel + 1, outcome⟩

end

end Vau
