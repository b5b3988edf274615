import Vau.Proofs.Renaming.Machine

/-! What comes of forms is the same under other numbers, up to what the machine counts.

An instruction is counted by its kind and by the depth of the stack, and neither depends on
numbers. -/

set_option autoImplicit false

namespace Vau

variable {ρ : Renaming}

namespace Evaluation

variable {e other : Evaluation}

def tally (e : Evaluation) : Stats :=
  match e.code, e.stack with
  | .frame .., stack => { e.stats with
      pushes := e.stats.pushes + 1
      peakDepth := max e.stats.peakDepth (stack.depth + 1) }
  | .ret, .push .. => { e.stats with pops := e.stats.pops + 1 }
  | _, _ => e.stats

theorem stats_execute (e : Evaluation) : e.execute.machine.stats = e.tally := by
  have steady : Machine.Steady Machine.stats := fun _ _ _ _ => rfl
  unfold tally
  cases here : e.code with
  | frame resume next =>
    rw [execute_frame here]
    rfl
  | ret =>
    unfold execute
    rw [here]
    dsimp only
    cases e.stack <;> rfl
  | _ => exact steady_execute steady (by rw [here]; nofun) (by rw [here]; nofun)

theorem Alike.tally (alike : e.Alike ρ other) (counted : other.stats = e.stats) :
    other.tally = e.tally := by
  unfold Evaluation.tally
  rw [alike.code, alike.stack, counted]
  cases e.code with
  | frame resume next =>
    simp only [Code.rename]
    rw [Stack.depth_rename]
  | ret => cases e.stack <;> rfl
  | _ => rfl

theorem Alike.stats_step (alike : e.Alike ρ other) (counted : other.stats = e.stats) :
    other.step.machine.stats = e.step.machine.stats := by
  have ticked : other.tick.stats = e.tick.stats :=
    congrArg (fun stats : Stats => { stats with steps := stats.steps + 1 }) counted
  by_cases exhausted : e.Exhausted
  · obtain ⟨limit, bounded, beyond⟩ := exhausted
    obtain ⟨bounded', beyond'⟩ := alike.exhausted bounded beyond
    rw [step_of_exhausted bounded beyond, step_of_exhausted bounded' beyond']
    exact ticked
  · rw [step_of_not_exhausted exhausted, step_of_not_exhausted (alike.within exhausted),
      stats_execute, stats_execute]
    exact alike.tick.tally ticked

end Evaluation

theorem Outcome.Alike.cases {outcome other : Outcome} (alike : outcome.Alike ρ other) :
    outcome = none ∧ other = none ∨ ∃ result m m', outcome = some (result, m) ∧
      other = some (result.map (Form.rename ρ), m') ∧ m.Alike ρ m' := by
  cases outcome with
  | none =>
    cases other with
    | none => exact .inl ⟨rfl, rfl⟩
    | some => cases alike
  | some reached =>
    cases other with
    | none => cases alike
    | some reached' =>
      obtain ⟨result', m'⟩ := reached'
      obtain ⟨same, machine⟩ := alike
      exact .inr ⟨reached.1, reached.2, m', rfl, congrArg (fun r => some (r, m')) same, machine⟩

def Outcome.stats (outcome : Outcome) : Option Stats := outcome.map fun (_, m) => m.stats

/-- Nothing but the numbers is different, not even in what was counted. -/
structure Outcome.Matches (ρ : Renaming) (outcome other : Outcome) : Prop where
  alike : outcome.Alike ρ other
  stats : other.stats = outcome.stats

theorem Evaluation.Alike.run_matches {e other : Evaluation} (alike : e.Alike ρ other)
    (counted : other.stats = e.stats) (fuel : Nat) :
    Outcome.Matches ρ (e.run fuel) (other.run fuel) := by
  refine ⟨alike.run fuel, ?_⟩
  induction fuel generalizing e other with
  | zero => rfl
  | succ fuel ih =>
    have step := alike.step
    have counted := alike.stats_step counted
    unfold Evaluation.run
    cases here : e.step <;> cases there : other.step <;> rw [here, there] at step counted <;>
      cases step
    case running alike => exact ih alike counted
    case finished => exact congrArg some counted
    case failed => exact congrArg some counted

namespace Machine.Alike

variable {m other : Machine}

theorem start (alike : m.Alike ρ other) (code : Code) (scope : ScopeId) :
    (m.start code scope).Alike ρ (other.start (code.rename ρ) scope) :=
  ⟨⟨alike.store, alike.hosts, alike.respects, alike.limit, alike.frames⟩, .inr rfl, rfl, rfl, rfl,
    rfl, rfl⟩

theorem evalIn (alike : m.Alike ρ other) (counted : other.stats = m.stats) (fuel : Nat)
    (form : Form) (scope : ScopeId) :
    Outcome.Matches ρ (m.evalIn fuel form scope) (other.evalIn fuel (form.rename ρ) scope) := by
  have compiled : (form.rename ρ).compile .halt = (form.compile .halt).map (Code.rename ρ) :=
    form.compile_rename .halt
  unfold Machine.evalIn
  rw [compiled]
  cases form.compile .halt with
  | ok code => exact (alike.start code scope).run_matches counted fuel
  | error error => exact ⟨⟨rfl, alike⟩, congrArg some counted⟩

theorem evalAll (alike : m.Alike ρ other) (counted : other.stats = m.stats) (fuel : Nat)
    (scope : ScopeId) (value : Form) (forms : List Form) :
    Outcome.Matches ρ (m.evalAll fuel scope value forms)
      (other.evalAll fuel scope (value.rename ρ) (forms.map (Form.rename ρ))) := by
  induction forms generalizing m other value with
  | nil => exact ⟨⟨rfl, alike⟩, congrArg some counted⟩
  | cons form rest ih =>
    have first := alike.evalIn counted fuel form scope
    rw [List.map_cons]
    unfold Machine.evalAll
    obtain ⟨same, stats⟩ := first
    rcases same.cases with ⟨ran, ran'⟩ | ⟨result, m₁, m₂, ran, ran', alike⟩ <;>
      rw [ran, ran'] at stats ⊢
    · exact ⟨trivial, rfl⟩
    · cases result with
      | ok value => exact ih alike (Option.some.inj stats) value
      | error error => exact ⟨⟨rfl, alike⟩, stats⟩

end Machine.Alike

/-! New forms. -/

namespace Form

/-- A datum and its pairs are numbered in the same order from anywhere. -/
theorem rename_ofDatum (d : Datum) {fresh fresh' : Nat}
    (shifts : ∀ n : Nat, n < pairs d → ρ.object (fresh + n) = fresh' + n) :
    (ofDatum d fresh).1.rename ρ = (ofDatum d fresh').1 := by
  induction d generalizing fresh fresh' with
  | pair car cdr carIH cdrIH =>
    have total : pairs (.pair car cdr) = pairs car + pairs cdr + 1 := rfl
    have number (fresh : Nat) :
        (ofDatum cdr (ofDatum car fresh).2).2 = fresh + (pairs car + pairs cdr) := by
      rw [fresh_ofDatum, fresh_ofDatum, Nat.add_assoc]
    change pair (ρ.object _) ((ofDatum car fresh).1.rename ρ)
      ((ofDatum cdr (ofDatum car fresh).2).1.rename ρ) =
        pair (ofDatum cdr (ofDatum car fresh').2).2 (ofDatum car fresh').1
          (ofDatum cdr (ofDatum car fresh').2).1
    rw [number, number, shifts _ (by omega), fresh_ofDatum car fresh, fresh_ofDatum car fresh',
      carIH fun n small => shifts n (by omega), cdrIH fun n small => ?_]
    rw [Nat.add_assoc, Nat.add_assoc]
    exact shifts _ (by omega)
  | _ => rfl

end Form

end Vau
