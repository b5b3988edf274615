import Vau.Proofs.Control

/-! The step limit cuts a run short and changes nothing else.

Instructions read neither the limit nor the counters of instructions, which can so be exchanged
under a run. An unlimited run and a limited one are in step up to the limit. -/

set_option autoImplicit false

namespace Vau

/-- The limit, and how many instructions were begun: in the evaluation, and on the machine. -/
structure Meter where
  limit : Option Nat
  steps : Nat
  total : Nat

def Machine.metered (meter : Meter) (m : Machine) : Machine :=
  { m with limit := meter.limit, stats.steps := meter.total }

def Machine.limited (limit : Option Nat) (m : Machine) : Machine := { m with limit }

def Evaluation.metered (meter : Meter) (e : Evaluation) : Evaluation :=
  { e with toMachine := e.toMachine.metered meter, steps := meter.steps }

def Evaluation.limited (limit : Option Nat) (e : Evaluation) : Evaluation :=
  { e with toMachine := e.toMachine.limited limit }

def Progress.metered (meter : Meter) : Progress → Progress
  | running e => .running (e.metered meter)
  | finished value m => .finished value (m.metered meter)
  | failed error m => .failed error (m.metered meter)

variable {meter : Meter}

theorem Machine.callNative_metered (m : Machine) (n : Native) (args : List Form) :
    (m.metered meter).callNative n args =
      ((m.callNative n args).1, (m.callNative n args).2.metered meter) := by
  cases n with
  | primitive p => rfl
  | host index name =>
    unfold callNative
    dsimp only [metered]
    cases m.hosts[index]? <;> rfl

namespace Evaluation

variable (e : Evaluation)

theorem settle_metered (code : Code) (outcome : Except Error Form × Machine) :
    (e.metered meter).settle code (outcome.1, outcome.2.metered meter) =
      (e.settle code outcome).metered meter := by
  obtain ⟨_ | _, m⟩ := outcome <;> rfl

theorem enter_metered (static : ScopeId) (t : Template) (operands : Form) :
    (e.metered meter).enter static t operands = (e.enter static t operands).metered meter := by
  unfold enter
  dsimp only [metered, Machine.metered]
  split <;> rfl

theorem evaluateOperands_metered (operands : Form) (c : Combiner) :
    (e.metered meter).evaluateOperands operands c =
      (e.evaluateOperands operands c).metered meter := by
  unfold evaluateOperands
  cases operands.compileArguments c <;> rfl

theorem callNative_metered (n : Native) (operands : Form) :
    (e.metered meter).callNative n operands = (e.callNative n operands).metered meter := by
  unfold callNative
  cases operands.operands (·.textDuring n) with
  | error error => rfl
  | ok args =>
    dsimp only
    rw [← settle_metered, ← Machine.callNative_metered]
    rfl

theorem callEval_metered (operands : Form) :
    (e.metered meter).callEval operands = (e.callEval operands).metered meter := by
  unfold callEval
  dsimp only
  split
  · rfl
  · split <;> rfl
  · rfl
  · rfl

theorem apply_metered (c : Combiner) (operands : Form) :
    (e.metered meter).apply c operands = (e.apply c operands).metered meter := by
  cases c with
  | operative id static t => exact e.enter_metered static t operands
  | applicative id inner => exact e.evaluateOperands_metered operands inner
  | native n => exact e.callNative_metered n operands
  | eval => exact e.callEval_metered operands
  | continuation stack => exact e.evaluateOperands_metered operands (.continuation stack)

theorem combine_metered (c : Combiner) (args : Form) :
    (e.metered meter).combine c args = (e.combine c args).metered meter := by
  cases c with
  | continuation stack =>
    change (e.metered meter).reinstate stack args = (e.reinstate stack args).metered meter
    unfold reinstate
    split <;> rfl
  | operative | applicative | native | eval =>
    rw [combine_eq_apply (fun k => by nofun), combine_eq_apply (fun k => by nofun)]
    exact e.apply_metered _ args

theorem execute_metered (meter : Meter) : (e.metered meter).execute = e.execute.metered meter := by
  -- What instructions read of a state is the same on both sides.
  have code {code : Code} (here : e.code = code) : (e.metered meter).code = code := here
  have store : (e.metered meter).store = e.store := rfl
  have scope : (e.metered meter).scope = e.scope := rfl
  have acc : (e.metered meter).acc = e.acc := rfl
  cases here : e.code with
  | halt =>
    rw [execute, execute, here, code here]
    rfl
  | refer name next =>
    rw [execute_refer here, execute_refer (code here), store, scope]
    cases e.store.scopes.lookup e.scope name <;> rfl
  | constant value next =>
    rw [execute_constant here, execute_constant (code here)]
    rfl
  | close t next =>
    rw [execute_close here, execute_close (code here), ← settle_metered]
    rfl
  | define parameters next =>
    rw [execute_define here, execute_define (code here), store, scope, acc]
    rcases e.store.scopes.bind e.scope parameters e.acc with ⟨_ | _, scopes⟩ <;> rfl
  | assign name next =>
    rw [execute_assign here, execute_assign (code here), store, scope, acc]
    cases e.store.scopes.set e.scope name e.acc <;> rfl
  | test consequent alternative =>
    rw [execute_test here, execute_test (code here)]
    rfl
  | frame resume next =>
    rw [execute_frame here, execute_frame (code here)]
    rfl
  | apply operands =>
    cases found : e.combiner with
    | error error =>
      rw [execute_not_combinable (.inl ⟨_, here⟩) found,
        execute_not_combinable (.inl ⟨_, code here⟩) found]
      rfl
    | ok c =>
      have acc := combiner_eq_ok found
      rw [execute_apply here acc, execute_apply (code here) acc]
      exact e.apply_metered c operands
  | argument next =>
    rw [execute_argument here, execute_argument (code here)]
    rfl
  | capture next =>
    rw [execute_capture here, execute_capture (code here)]
    rfl
  | call =>
    cases found : e.combiner with
    | error error =>
      rw [execute_not_combinable (.inr here) found, execute_not_combinable (.inr (code here)) found]
      rfl
    | ok c =>
      have acc := combiner_eq_ok found
      rw [execute_call here acc, execute_call (code here) acc]
      exact e.handed.combine_metered c e.arguments
  | ret =>
    cases top : e.stack with
    | empty =>
      have top' : (e.metered meter).stack = .empty := top
      rw [execute, execute, here, code here, top, top']
      rfl
    | push frame rest =>
      have top' : (e.metered meter).stack = .push frame rest := top
      rw [execute_ret here top, execute_ret (code here) top']
      rfl

def ticked (e : Evaluation) : Meter := ⟨e.limit, e.steps + 1, e.stats.steps + 1⟩

variable {e} {n : Nat}

theorem step_unlimited (unlimited : e.limit = none) : e.step = e.tick.execute :=
  step_of_not_exhausted fun ⟨limit, bounded, _⟩ => by cases unlimited.symm.trans bounded

/-- Only the count at its beginning shows that there was an instruction. -/
theorem step_eq_metered (unlimited : e.limit = none) : e.step = e.step.metered e.ticked := by
  rw [step_unlimited unlimited]
  exact e.tick.execute_metered e.ticked

theorem step_limited (unlimited : e.limit = none) (within : e.steps < n) :
    (e.limited (some n)).step = e.step.metered { e.ticked with limit := some n } := by
  have spare : ¬ (e.limited (some n)).Exhausted := by
    rintro ⟨limit, bounded, beyond⟩
    cases bounded
    exact absurd beyond (Nat.not_lt.mpr within)
  rw [step_of_not_exhausted spare, step_unlimited unlimited]
  exact e.tick.execute_metered { e.ticked with limit := some n }

inductive Executes : Nat → Evaluation → Evaluation → Prop
  | refl (e : Evaluation) : Executes 0 e e
  | head {count : Nat} {e next last : Evaluation} : e.step = .running next →
    Executes count next last → Executes (count + 1) e last

end Evaluation

def Progress.outcome? : Progress → Outcome
  | running _ => none
  | finished value m => some (.ok value, m)
  | failed error m => some (.error error, m)

/-- The evaluation ends like this after so many instructions, none if the form does not compile. -/
inductive Machine.Takes (m : Machine) (form : Form) (scope : ScopeId) :
    Nat → Except Error Form × Machine → Prop
  | refused {error : Error} : form.compile .halt = .error error →
    Takes m form scope 0 (.error error, m)
  | ended {code : Code} {count : Nat} {last : Evaluation} {outcome : Except Error Form × Machine} :
    form.compile .halt = .ok code → (m.start code scope).Executes count last →
    last.step.outcome? = some outcome → Takes m form scope (count + 1) outcome

namespace Evaluation

variable {e next last : Evaluation} {count n : Nat} {outcome : Except Error Form × Machine}

theorem run_of_running (stepped : e.step = .running next) (fuel : Nat) :
    e.run (fuel + 1) = next.run fuel := by
  rw [run, stepped]

theorem run_of_outcome (ended : e.step.outcome? = some outcome) (fuel : Nat) :
    e.run (fuel + 1) = some outcome := by
  rw [run]
  cases stepped : e.step <;> rw [stepped] at ended <;> cases ended <;> rfl

theorem Executes.run (executes : e.Executes count last) (fuel : Nat) :
    e.run (count + fuel) = last.run fuel := by
  induction executes with
  | refl e => rw [Nat.zero_add]
  | @head count e next last stepped _ ih =>
    rw [Nat.add_right_comm, run_of_running stepped, ih]

theorem run_eq_some {fuel : Nat} : e.run fuel = some outcome ↔
    ∃ count < fuel, ∃ last, e.Executes count last ∧ last.step.outcome? = some outcome := by
  constructor
  · intro ran
    induction fuel generalizing e with
    | zero => cases ran
    | succ fuel ih =>
      cases stepped : e.step with
      | running next =>
        rw [run_of_running stepped] at ran
        obtain ⟨count, fewer, last, executes, ended⟩ := ih ran
        exact ⟨count + 1, Nat.succ_lt_succ fewer, last, .head stepped executes, ended⟩
      | finished | failed =>
        refine ⟨0, Nat.succ_pos _, e, .refl e, ?_⟩
        rw [Evaluation.run, stepped] at ran
        rw [stepped]
        exact ran
  · rintro ⟨count, fewer, last, executes, ended⟩
    obtain ⟨rest, rfl⟩ := Nat.exists_eq_add_of_lt fewer
    rw [Nat.add_assoc, executes.run, run_of_outcome ended]

theorem executes_or_ends (e : Evaluation) (n : Nat) : (∃ last, e.Executes n last) ∨
    ∃ count < n, ∃ last outcome, e.Executes count last ∧
      last.step.outcome? = some outcome := by
  induction n generalizing e with
  | zero => exact .inl ⟨e, .refl e⟩
  | succ n ih =>
    cases stepped : e.step with
    | running next =>
      rcases ih next with ⟨last, executes⟩ | ⟨count, fewer, last, outcome, executes, ended⟩
      · exact .inl ⟨last, .head stepped executes⟩
      · exact .inr ⟨count + 1, Nat.succ_lt_succ fewer, last, outcome, .head stepped executes,
          ended⟩
    | finished | failed =>
      exact .inr ⟨0, Nat.succ_pos _, e, _, .refl e, congrArg Progress.outcome? stepped⟩

theorem next_of_step (unlimited : e.limit = none) (stepped : e.step = .running next) :
    next.limit = none ∧ next.steps = e.steps + 1 ∧ next.stats.steps = e.stats.steps + 1 := by
  have same := step_eq_metered unlimited
  rw [stepped] at same
  have same : next = next.metered e.ticked := Progress.running.inj same
  rw [same]
  exact ⟨unlimited, rfl, rfl⟩

theorem outcome_of_step (unlimited : e.limit = none) (ended : e.step.outcome? = some outcome) :
    outcome.2.limit = none ∧ outcome.2.stats.steps = e.stats.steps + 1 := by
  have same := step_eq_metered unlimited
  cases stepped : e.step <;> rw [stepped] at ended same <;> cases ended
  · rw [(Progress.finished.inj same).2]
    exact ⟨unlimited, rfl⟩
  · rw [(Progress.failed.inj same).2]
    exact ⟨unlimited, rfl⟩

theorem Executes.counts (executes : e.Executes count last) (unlimited : e.limit = none) :
    last.limit = none ∧ last.steps = e.steps + count ∧
      last.stats.steps = e.stats.steps + count := by
  induction executes with
  | refl e => exact ⟨unlimited, rfl, rfl⟩
  | head stepped _ ih =>
    obtain ⟨unlimited, steps, total⟩ := next_of_step unlimited stepped
    obtain ⟨unlimited, steps', total'⟩ := ih unlimited
    exact ⟨unlimited, by omega, by omega⟩

theorem running_limited (unlimited : e.limit = none) (within : e.steps < n)
    (stepped : e.step = .running next) :
    (e.limited (some n)).step = .running (next.limited (some n)) := by
  obtain ⟨_, steps, total⟩ := next_of_step unlimited stepped
  rw [step_limited unlimited within, stepped]
  unfold ticked
  rw [← steps, ← total]
  rfl

theorem outcome_limited (unlimited : e.limit = none) (within : e.steps < n)
    (ended : e.step.outcome? = some outcome) :
    (e.limited (some n)).step.outcome? = some (outcome.1, outcome.2.limited (some n)) := by
  obtain ⟨_, total⟩ := outcome_of_step unlimited ended
  rw [step_limited unlimited within]
  unfold ticked
  cases stepped : e.step <;> rw [stepped] at ended <;> cases ended <;> rw [← total] <;> rfl

theorem Executes.limited (executes : e.Executes count last) (unlimited : e.limit = none)
    (within : e.steps + count ≤ n) :
    (e.limited (some n)).Executes count (last.limited (some n)) := by
  induction executes with
  | refl e => exact .refl _
  | @head count e next last stepped _ ih =>
    obtain ⟨unlimited', steps, _⟩ := next_of_step unlimited stepped
    exact .head (running_limited unlimited (by omega) stepped) (ih unlimited' (by omega))

/-- The instruction beyond the limit is counted, but does nothing. -/
theorem outcome_of_spent (spent : e.steps = n) :
    (e.limited (some n)).step.outcome? = some (.error (.of (.stepLimit n)),
      { e.toMachine with limit := some n, stats.steps := e.stats.steps + 1 }) := by
  rw [step_of_exhausted (e := e.limited (some n)) rfl (Nat.lt_succ_of_le (Nat.le_of_eq spent.symm))]
  rfl

end Evaluation

namespace Machine

variable {m : Machine} {form : Form} {scope : ScopeId} {count n : Nat}
  {outcome : Except Error Form × Machine}

theorem evalIn_eq_some {fuel : Nat} : m.evalIn fuel form scope = some outcome ↔
    ∃ count ≤ fuel, m.Takes form scope count outcome := by
  unfold evalIn
  cases compiled : form.compile .halt with
  | error error =>
    constructor
    · intro ran
      cases ran
      exact ⟨0, Nat.zero_le _, .refused compiled⟩
    · rintro ⟨count, _, takes⟩
      cases takes with
      | refused same =>
        cases compiled.symm.trans same
        rfl
      | ended same _ _ => cases compiled.symm.trans same
  | ok code =>
    rw [Evaluation.run_eq_some]
    constructor
    · rintro ⟨count, fewer, last, executes, ended⟩
      exact ⟨count + 1, fewer, .ended compiled executes ended⟩
    · rintro ⟨count, fewer, takes⟩
      cases takes with
      | refused same => cases compiled.symm.trans same
      | ended same executes ended =>
        cases compiled.symm.trans same
        exact ⟨_, fewer, _, executes, ended⟩

theorem Takes.counts (takes : m.Takes form scope count outcome) (unlimited : m.limit = none) :
    outcome.2.stats.steps = m.stats.steps + count := by
  cases takes with
  | refused => rfl
  | ended _ executes ended =>
    obtain ⟨unlimited, _, total⟩ := executes.counts unlimited
    rw [(Evaluation.outcome_of_step unlimited ended).2, total]
    rfl

theorem Takes.limited (takes : (m.limited none).Takes form scope count outcome)
    (within : count ≤ n) :
    (m.limited (some n)).Takes form scope count (outcome.1, outcome.2.limited (some n)) := by
  cases takes with
  | refused refused => exact .refused refused
  | @ended code before last _ compiled executes ended =>
    obtain ⟨unlimited, steps, _⟩ := executes.counts rfl
    have fresh : ((m.limited none).start code scope).steps = 0 := rfl
    exact .ended compiled (executes.limited rfl (by omega))
      (Evaluation.outcome_limited unlimited (by omega) ended)

theorem takes_of_beyond
    (beyond : ∀ count outcome, (m.limited none).Takes form scope count outcome → n < count) :
    ∃ code last, form.compile .halt = .ok code ∧
      ((m.limited none).start code scope).Executes n last ∧
      (m.limited (some n)).Takes form scope (n + 1) (.error (.of (.stepLimit n)),
        { last.toMachine with limit := some n, stats.steps := m.stats.steps + (n + 1) }) := by
  cases compiled : form.compile .halt with
  | error error => exact absurd (beyond _ _ (.refused compiled)) (Nat.not_lt_zero _)
  | ok code =>
    -- It cannot end within the limit, so it comes to a state that has used the limit up.
    rcases ((m.limited none).start code scope).executes_or_ends n with
      ⟨last, executes⟩ | ⟨count, fewer, last, outcome, executes, ended⟩
    · obtain ⟨_, steps, total⟩ := executes.counts rfl
      have spent := Evaluation.outcome_of_spent (steps.trans (Nat.zero_add n))
      rw [total] at spent
      exact ⟨code, last, rfl, executes,
        .ended compiled (executes.limited rfl (Nat.le_of_eq (Nat.zero_add n))) spent⟩
    · exact absurd (beyond _ _ (.ended compiled executes ended)) (Nat.not_lt.mpr fewer)

/-- Let an evaluation without limit take so many instructions. Under a limit that allows them, it
ends the same way. Otherwise it stops after as many as the limit allows, and has counted one more.
Whatever was evaluated before, it ends. -/
theorem limit_transparent (m : Machine) (form : Form) (scope : ScopeId) (n : Nat) :
    (∀ count result later, (m.limited none).Takes form scope count (result, later) →
      later.stats.steps = m.stats.steps + count ∧
        (count ≤ n → ∀ fuel ≥ count, (m.limited (some n)).evalIn fuel form scope =
          some (result, { later with limit := some n }))) ∧
    ((∀ count outcome, (m.limited none).Takes form scope count outcome → n < count) →
      ∃ code last, form.compile .halt = .ok code ∧
        ((m.limited none).start code scope).Executes n last ∧
        ∀ fuel > n, (m.limited (some n)).evalIn fuel form scope =
          some (.error (.of (.stepLimit n)),
            { last.toMachine with limit := some n, stats.steps := m.stats.steps + (n + 1) })) ∧
    ∃ outcome, ∀ fuel > n, (m.limited (some n)).evalIn fuel form scope = some outcome := by
  have allowed {count fuel : Nat} {outcome : Except Error Form × Machine}
      (takes : (m.limited none).Takes form scope count outcome) (within : count ≤ n)
      (enough : count ≤ fuel) : (m.limited (some n)).evalIn fuel form scope =
        some (outcome.1, outcome.2.limited (some n)) :=
    evalIn_eq_some.mpr ⟨count, enough, takes.limited within⟩
  refine ⟨fun count result later takes => ?_, fun beyond => ?_, ?_⟩
  · exact ⟨takes.counts rfl, fun within fuel enough => allowed takes within enough⟩
  · obtain ⟨code, last, compiled, executes, takes⟩ := takes_of_beyond beyond
    exact ⟨code, last, compiled, executes,
      fun fuel more => evalIn_eq_some.mpr ⟨n + 1, more, takes⟩⟩
  · -- Each of the two bounds the instructions that a run under the limit needs.
    by_cases ends : ∃ count ≤ n, ∃ outcome, (m.limited none).Takes form scope count outcome
    · obtain ⟨count, within, outcome, takes⟩ := ends
      exact ⟨_, fun fuel more => allowed takes within (Nat.le_trans within (Nat.le_of_lt more))⟩
    · obtain ⟨_, _, _, _, takes⟩ := takes_of_beyond fun count outcome takes =>
        Nat.lt_of_not_le fun within => ends ⟨count, within, outcome, takes⟩
      exact ⟨_, fun fuel more => evalIn_eq_some.mpr ⟨n + 1, more, takes⟩⟩

/-- A constant takes two instructions: to halt is one. -/
theorem limit_transparent_at_halt :
    (∀ fuel ≥ 2, (limited (some 2) {}).evalIn fuel .inert 0 =
      some (.ok .inert, { limit := some 2, stats := { steps := 2 } })) ∧
    ∀ fuel > 1, (limited (some 1) {}).evalIn fuel .inert 0 =
      some (.error (.of (.stepLimit 1)), { limit := some 1, stats := { steps := 2 } }) := by
  have takes : (limited none {}).Takes .inert 0 2 (.ok .inert, { stats := { steps := 2 } }) :=
    .ended rfl (.head rfl (.refl _)) rfl
  have beyond : ∀ count outcome, (limited none {}).Takes .inert 0 count outcome → 1 < count :=
    fun count outcome takes => Nat.lt_of_not_le fun within => by
      cases evalIn_eq_some.mpr ⟨count, within, takes⟩
  refine ⟨((limit_transparent {} .inert 0 2).1 _ _ _ takes).2 (Nat.le_refl _), ?_⟩
  obtain ⟨code, last, compiled, executes, stops⟩ := (limit_transparent {} .inert 0 1).2.1 beyond
  cases compiled
  cases executes with
  | head stepped rest =>
    cases stepped
    cases rest
    exact stops

end Machine

end Vau
