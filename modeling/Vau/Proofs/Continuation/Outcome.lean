import Vau.Proofs.Continuation
import Vau.Proofs.Renaming.Machine

/-! Invoking a continuation has the same outcome wherever it is done.

Two states that invoke it have made different numbers of objects and frames. They go on alike once
the numbers that each gives out from then on are raised to where both can begin. -/

set_option autoImplicit false

namespace Vau

def Machine.numbers (m : Machine) : Discipline where
  template _ := True
  stack _ := True
  object i := i < m.store.fresh
  frame i := i < m.frames
  compiled _ _ := trivial

theorem Evaluation.Reachable.numbered {e : Evaluation} (reachable : e.Reachable) {m : Machine}
    (grows : e.toMachine.Grows m) : e.Obeys m.numbers := by
  have carries : m.numbers.Carries fun _ => True :=
    ⟨fun _ _ _ => trivial, fun _ _ _ => trivial, fun _ _ _ => trivial⟩
  have room : m.numbers.Room m := ⟨fun _ bound => bound, fun _ bound => bound, fun _ _ => trivial⟩
  exact (reachable.obeys carries (room.earlier grows)).1

namespace Renaming

/-- Numbers from a bound on go as far up as it does. -/
def raise (low high i : Nat) : Nat := if i < low then i else i + (high - low)

theorem raise_injective (low high : Nat) : Function.Injective (raise low high) := by
  intro i j same
  unfold raise at same
  split at same <;> split at same <;> omega

theorem raise_of_lt {low high i : Nat} (bound : i < low) : raise low high i = i :=
  if_pos bound

theorem raise_add {low high : Nat} (le : low ≤ high) (n : Nat) :
    raise low high (low + n) = high + n := by
  unfold raise
  split <;> omega

/-- What the machine makes from now on is numbered from other bounds. -/
def above (m : Machine) (fresh frames : Nat) : Renaming where
  object := raise m.store.fresh fresh
  frame := raise m.frames frames
  object_injective := raise_injective _ _
  frame_injective := raise_injective _ _

theorem fixes_above (m : Machine) (fresh frames : Nat) : (above m fresh frames).Fixes m.numbers :=
  ⟨fun _ => raise_of_lt, fun _ => raise_of_lt⟩

end Renaming

def Machine.returning (m : Machine) (steps : Nat) (value : Form) (stack : Stack) : Evaluation :=
  { m with steps, acc := value, code := .ret, scope := 0, stack }

def Machine.counting (m : Machine) (fresh frames : Nat) : Machine :=
  { m with store.fresh := fresh, frames, stats := {} }

theorem Evaluation.run_ret {e : Evaluation} (here : e.code = .ret) (fuel : Nat) :
    e.run fuel = (e.toMachine.returning e.steps e.acc e.stack).run fuel := by
  let alone := e.toMachine.returning e.steps e.acc e.stack
  have executed : e.tick.execute = alone.tick.execute := by
    cases top : e.tick.stack with
    | empty =>
      have bottom : alone.tick.stack = .empty := top
      rw [Evaluation.execute, Evaluation.execute, top, bottom, tick, here]
      rfl
    | push frame rest =>
      rw [execute_ret (e := e.tick) here top, execute_ret (e := alone.tick) rfl top]
      rfl
  have step : e.step = alone.step := by
    by_cases exhausted : e.Exhausted
    · obtain ⟨limit, bounded, beyond⟩ := exhausted
      rw [step_of_exhausted bounded beyond, step_of_exhausted (e := alone) bounded beyond]
      rfl
    · rw [step_of_not_exhausted exhausted, step_of_not_exhausted (e := alone) exhausted, executed]
  cases fuel with
  | zero => rfl
  | succ fuel => rw [Evaluation.run, Evaluation.run, step]

theorem Evaluation.Obeys.alike_returning {e : Evaluation} (obeys : e.Obeys e.toMachine.numbers)
    (respects : ∀ ρ, ∀ host ∈ e.hosts, host.Respects ρ) {fresh frames : Nat}
    (objects : e.store.fresh ≤ fresh) (above : e.frames ≤ frames) {steps : Nat}
    (counted : e.limit = none ∨ steps = e.steps) :
    (e.toMachine.returning e.steps e.acc e.stack).Alike (.above e.toMachine fresh frames)
      ((e.toMachine.counting fresh frames).returning steps e.acc e.stack) := by
  have fixes := Renaming.fixes_above e.toMachine fresh frames
  refine ⟨⟨⟨?_, Renaming.raise_add objects, rfl⟩, ?_, respects _, rfl, Renaming.raise_add above⟩,
    counted, (obeys.acc.rename_eq fixes).symm, rfl, rfl, rfl, (obeys.stack.rename_eq fixes).symm⟩
  · exact (obeys.machine.scopes.rename_eq fixes fun _ => trivial).symm
  · exact (obeys.machine.rename_hosts_eq fixes).symm

/-- What there is to see of an outcome: the result, the scopes, the output and what natives
remember. -/
def Outcome.seen (ρ : Renaming) (outcome : Outcome) :
    Option (Except Error Form × Scopes × Output × Array HostNative) :=
  outcome.map fun (result, m) => (result.map (Form.rename ρ), m.store.scopes.rename ρ,
    m.store.output, m.hosts.map (HostNative.rename ρ))

theorem Outcome.Alike.seen_eq {ρ : Renaming} {outcome other : Outcome}
    (alike : Outcome.Alike ρ outcome other) : outcome.seen ρ = other.map fun (result, m) =>
      (result, m.store.scopes, m.store.output, m.hosts) := by
  cases outcome with
  | none =>
    cases other with
    | none => rfl
    | some _ => cases alike
  | some reached =>
    cases other with
    | none => cases alike
    | some reached' =>
      obtain ⟨result, m⟩ := reached
      obtain ⟨result', m'⟩ := reached'
      obtain ⟨same, machine⟩ := alike
      dsimp only at same machine
      dsimp only [seen, Option.map_some]
      rw [same, machine.store.scopes, machine.store.output, machine.hosts]

/-- The same scopes and output, the same memory of natives, and the same limits. -/
structure Evaluation.SameWorld (e other : Evaluation) : Prop where
  untouched : e.toMachine.Untouched other.toMachine
  limit : other.limit = e.limit
  steps : e.limit = none ∨ other.steps = e.steps

theorem Machine.Obeys.seen_eq {ρ : Renaming} {D : Discipline} (fixes : ρ.Fixes D) {m : Machine}
    (obeys : m.Obeys D) (allowed : ∀ e, D.scope e) (error : Error) :
    Outcome.seen ρ (some (.error error, m)) =
      some (.error error, m.store.scopes, m.store.output, m.hosts) := by
  change some (_, _, _, _) = _
  rw [obeys.scopes.rename_eq fixes allowed, obeys.rename_hosts_eq fixes]
  rfl

theorem Machine.Untouched.counting_eq {m later : Machine} (untouched : m.Untouched later)
    (limit : later.limit = m.limit) (fresh frames : Nat) :
    later.counting fresh frames = m.counting fresh frames := by
  obtain ⟨⟨scopes, _, output⟩, hosts, _, _, _⟩ := m
  obtain ⟨⟨scopes', _, output'⟩, hosts', _, _, _⟩ := later
  obtain ⟨rfl, rfl, rfl⟩ := untouched
  cases limit
  rfl

namespace Evaluation

theorem SameWorld.symm {e other : Evaluation} (same : e.SameWorld other) : other.SameWorld e :=
  ⟨⟨same.untouched.scopes.symm, same.untouched.output.symm, same.untouched.hosts.symm⟩,
    same.limit.symm, same.steps.imp same.limit.trans Eq.symm⟩

theorem SameWorld.exhausted {e other : Evaluation} (same : e.SameWorld other) {limit : Nat}
    (bounded : e.limit = some limit) (beyond : limit < e.steps + 1) :
    other.limit = some limit ∧ limit < other.steps + 1 := by
  refine ⟨same.limit.trans bounded, ?_⟩
  rcases same.steps with unbounded | steps
  · cases bounded.symm.trans unbounded
  · rwa [steps]

variable {e other : Evaluation} {k : Stack} {values values' : List Form} {value : Form}

/-- Beyond the return nothing of the invoking state is left but what its machine counted. -/
theorem Resumes.run_alike (resumes : e.Resumes k values) (passed : Form.passed? values = some value)
    (reachable : e.Reachable) (respects : ∀ ρ, ∀ host ∈ e.hosts, host.Respects ρ)
    (within : ¬ e.Exhausted) {fresh frames : Nat} (objects : e.handed.store.fresh ≤ fresh)
    (above : e.frames ≤ frames) {steps : Nat} (counted : e.limit = none ∨ steps = e.steps)
    (fuel : Nat) :
    Outcome.Alike (.above e.handed.toMachine fresh frames) (e.run (fuel + 1))
      (((e.handed.toMachine.counting fresh frames).returning (steps + 1) value k).run fuel) := by
  have stepped := (step_of_not_exhausted within).trans (resumes.tick.execute_passed passed)
  have obeys := (reachable.step stepped).numbered (.refl _)
  rw [Evaluation.run, stepped]
  dsimp only
  rw [run_ret rfl]
  have alike := obeys.alike_returning respects objects above
    (counted.imp_right (congrArg (· + 1)))
  exact alike.run fuel

theorem run_of_exhausted {limit : Nat} (bounded : e.limit = some limit)
    (beyond : limit < e.steps + 1) (fuel : Nat) :
    e.run (fuel + 1) = some (.error (.of (.stepLimit limit)), e.tick.toMachine) := by
  rw [Evaluation.run, step_of_exhausted bounded beyond]

/-- Objects and frames may differ in number where they are new. Nothing else of the outcome does. -/
theorem Resumes.same_outcome (resumes : e.Resumes k values) (resumes' : other.Resumes k values')
    (passed : Form.passed? values = some value) (passed' : Form.passed? values' = some value)
    (reachable : e.Reachable) (reachable' : other.Reachable)
    (respects : ∀ ρ, ∀ host ∈ e.hosts, host.Respects ρ) (same : e.SameWorld other) :
    ∃ ρ ρ' : Renaming, ρ.Fixes e.toMachine.numbers ∧ ρ'.Fixes other.toMachine.numbers ∧
      ∀ fuel, (e.run fuel).seen ρ = (other.run fuel).seen ρ' := by
  let fresh := max e.handed.store.fresh other.handed.store.fresh
  let frames := max e.frames other.frames
  have fixes (e : Evaluation) : (Renaming.above e.handed.toMachine fresh frames).Fixes
      e.toMachine.numbers :=
    ⟨fun _ bound => Renaming.raise_of_lt (Nat.lt_of_lt_of_le bound e.grows_handed.store.fresh),
      fun _ bound => Renaming.raise_of_lt bound⟩
  refine ⟨_, _, fixes e, fixes other, fun fuel => ?_⟩
  cases fuel with
  | zero => rfl
  | succ fuel =>
    by_cases exhausted : e.Exhausted
    · obtain ⟨limit, bounded, beyond⟩ := exhausted
      obtain ⟨bounded', beyond'⟩ := same.exhausted bounded beyond
      have obeys := (reachable.numbered (.refl _)).tick.machine
      have obeys' := (reachable'.numbered (.refl _)).tick.machine
      rw [run_of_exhausted bounded beyond, run_of_exhausted bounded' beyond',
        obeys.seen_eq (fixes e) fun _ => trivial, obeys'.seen_eq (fixes other) fun _ => trivial]
      change some (_, e.store.scopes, e.store.output, e.hosts) =
        some (_, other.store.scopes, other.store.output, other.hosts)
      rw [same.untouched.scopes, same.untouched.output, same.untouched.hosts]
    · have within : ¬ other.Exhausted := fun ⟨_, bounded, beyond⟩ =>
        exhausted ⟨_, same.symm.exhausted bounded beyond⟩
      -- Both runs are compared with a third one, whose new numbers are above those of both.
      have alike := resumes.run_alike passed reachable respects exhausted
        (Nat.le_max_left _ _ : _ ≤ fresh) (Nat.le_max_left _ _ : _ ≤ frames) (.inr rfl) fuel
      have alike' := resumes'.run_alike passed' reachable' (same.untouched.hosts ▸ respects) within
        (Nat.le_max_right _ _ : _ ≤ fresh) (Nat.le_max_right _ _ : _ ≤ frames)
        (same.steps.imp same.limit.trans Eq.symm) fuel
      have untouched : e.handed.toMachine.Untouched other.handed.toMachine :=
        ⟨same.untouched.scopes, same.untouched.output, same.untouched.hosts⟩
      rw [alike.seen_eq, alike'.seen_eq, untouched.counting_eq same.limit fresh frames]

end Evaluation

/-- What it takes to go on there with a value, by this stack. A step limit may be met before. -/
structure Stack.Reenters (k : Stack) (there : Resumption) : Prop where
  returns : ∀ e : Evaluation, e.code = .ret → e.stack = k →
    e.Reaches (Progress.Continues there e.acc e.toMachine)
  passes : ∀ (e : Evaluation) (values : List Form) (value : Form), e.Resumes k values →
    Form.passed? values = some value → e.Reaches (Progress.Continues there value e.toMachine)
  rejects : ∀ (e : Evaluation) (values : List Form), e.Resumes k values →
    Form.passed? values = none →
    e.Reaches (Progress.Rejects (.of (.mismatch "at most one value" e.arguments.text)) e.toMachine)
  /-- A continuation that is applied to operands gets to be invoked, be it wrapped or not. -/
  applies : ∀ (e : Evaluation) (operands : Form) (code : Code), e.Reachable →
    e.Applies k operands → operands.compileArguments (.continuation k) = .ok code →
    ∀ fuel values w, (operands.evaluateOperands (Combiner.combine fuel) e.scope).result e.world =
      some (.ok values, w) →
    e.Reaches fun p => ∃ there, p = .running there ∧ there.Resumes k values ∧ there.world = w
  agrees : ∀ (e other : Evaluation) (values values' : List Form) (value : Form), e.Reachable →
    other.Reachable → (∀ ρ, ∀ host ∈ e.hosts, host.Respects ρ) → e.SameWorld other →
    e.Resumes k values → Form.passed? values = some value →
    other.Resumes k values' → Form.passed? values' = some value →
    ∃ ρ ρ' : Renaming, ρ.Fixes e.toMachine.numbers ∧ ρ'.Fixes other.toMachine.numbers ∧
      ∀ fuel, (e.run fuel).seen ρ = (other.run fuel).seen ρ'

/-- The receiver gets a continuation that can be invoked from any state, any number of times. -/
theorem Evaluation.continuation_multi_shot {e : Evaluation} {next : Code} {head receiver : Form}
    {i j : Identity} {name : String} (special : SpecialForm.ofHead? head = some (.callCC, name))
    (compiled : (Form.pair i head (.pair j receiver .nil)).compile next = .ok e.code) :
    (∃ body, receiver.compile .call = .ok body ∧ e.Reaches fun p => ∃ there, p = .running there ∧
      there.Captures (e.continuation next) body ∧ there.scope = e.scope ∧
      e.toMachine.Untouched there.toMachine) ∧
    (e.continuation next).Reenters (e.resumption next) where
  left := reaches_capture special compiled
  right :=
    { returns := fun _ here stack => reaches_return here stack ⟨rfl, rfl, rfl⟩
      passes := fun _ _ _ resumes passed => resumes.reaches_passed passed
      rejects := fun _ _ resumes rejected => resumes.reaches_rejected rejected
      applies := fun _ _ _ reachable applies compiled _ _ _ evaluated =>
        applies.reaches reachable.sourced compiled evaluated
      agrees := fun _ _ _ _ _ reachable reachable' respects same resumes passed resumes' passed' =>
        resumes.same_outcome resumes' passed passed' reachable reachable' respects same }

theorem HostNative.respects_counting (ρ : Renaming) : counting.Respects ρ := by
  intro text memory args store other _ alike result memory' store' ran
  unfold counting at ran ⊢
  cases memory <;> cases args <;> cases ran <;> exact ⟨other, rfl, alike⟩

/-- The operator of a combination is captured and wrapped, and then invoked by that combination. So
it is on two machines that differ in the number of objects made before. -/
theorem Evaluation.continuation_multi_shot_of_operator : ∃ (σ e other : Evaluation) (next : Code),
    σ.Reachable ∧ e.Reachable ∧ other.Reachable ∧ e.store.fresh ≠ other.store.fresh ∧
      e.Resumes (σ.continuation next) [.int 5] ∧ other.Resumes (σ.continuation next) [.int 5] ∧
      e.Reaches (Progress.Continues (σ.resumption next) (.int 5) e.toMachine) ∧
      ∃ ρ ρ' : Renaming, ∀ fuel, (e.run fuel).seen ρ = (other.run fuel).seen ρ' := by
  let operands : Form := .pair 0 (.int 5) .nil
  let wrap : Form := .combiner (.native (.primitive .wrap))
  let operator : Form := .pair 0 (.symbol "call/cc") (.pair 0 wrap .nil)
  let next : Code := .apply operands
  let code : Code := .frame next (.capture (.constant wrap .call))
  have special : SpecialForm.ofHead? (.symbol "call/cc") = some (.callCC, "call/cc") := rfl
  have compiled : (Form.pair 0 operator operands).compile .halt = .ok (.frame .halt code) := rfl
  have invoked {m : Machine} {kept : List Form} (session : Session.Reachable ⟨m, kept⟩)
      (unlimited : m.limit = none) (numbered : 0 < m.store.fresh)
      (bound : 0 < m.store.scopes.size) :
      ∃ σ e : Evaluation, σ.Reachable ∧ e.Reachable ∧ σ.code = code ∧
        σ.continuation next = .push ⟨m.frames + 1, 2, next, 0, .nil⟩
          (.push ⟨m.frames, 1, .halt, 0, .nil⟩ .empty) ∧
        e.Resumes (σ.continuation next) [.int 5] ∧ m.Untouched e.toMachine ∧ e.limit = none ∧
        e.store.fresh = m.store.fresh + 4 := by
    have plain : (Form.pair 0 operator operands).Plain m := by
      intro D room
      have zero := room.object 0 numbered
      simp [operator, operands, wrap, Form.Obeys, Combiner.Obeys, zero]
    have start : (m.start (.frame .halt code) 0).Reachable := session.start plain compiled bound
    -- From here on every step computes, however the machine came about.
    clear plain session numbered bound
    obtain ⟨store, hosts, limit, stats, frames⟩ := m
    dsimp only at unlimited
    subst unlimited
    have before := start.step rfl
    have wrapped := ((((before.step rfl).step rfl).step rfl).step rfl).step rfl
    have supplied := (((wrapped.step rfl).step rfl).step rfl).step rfl
    exact ⟨_, _, before, supplied, rfl, rfl, ⟨rfl, rfl, rfl⟩, ⟨rfl, rfl, rfl⟩, rfl, rfl⟩
  obtain ⟨m, kept, session, unlimited, hosts, numbered, bound⟩ := Session.Reachable.exists_machine
  obtain ⟨σ, e, captures, reachable, here, stack, resumes, untouched, limit, fresh⟩ :=
    invoked session unlimited numbered bound
  -- On the other machine, three pairs were made before.
  obtain ⟨_, other, _, reachable', _, stack', resumes', untouched', limit', fresh'⟩ :=
    invoked (session.tail (.number 3)) unlimited (Nat.lt_add_right 3 numbered) bound
  have resumes' : other.Resumes (σ.continuation next) [.int 5] := by
    rw [stack]
    exact stack' ▸ resumes'
  have same : e.SameWorld other :=
    ⟨⟨untouched'.scopes.trans untouched.scopes.symm, untouched'.output.trans untouched.output.symm,
      untouched'.hosts.trans untouched.hosts.symm⟩, limit'.trans limit.symm, .inl limit⟩
  have respects : ∀ ρ, ∀ host ∈ e.hosts, host.Respects ρ := by
    intro ρ host member
    rw [untouched.hosts, hosts] at member
    exact Array.mem_singleton.mp member ▸ HostNative.respects_counting ρ
  have compiled : operator.compile next = .ok σ.code := by
    rw [here]
    rfl
  have multi_shot := (continuation_multi_shot special compiled).2
  obtain ⟨ρ, ρ', _, _, agrees⟩ := multi_shot.agrees e other _ _ _ reachable reachable' respects same
    resumes rfl resumes' rfl
  refine ⟨σ, e, other, next, captures, reachable, reachable', ?_, resumes, resumes',
    multi_shot.passes e _ _ resumes rfl, ρ, ρ', agrees⟩
  rw [fresh, fresh']
  exact Nat.ne_of_lt (Nat.add_lt_add_right (Nat.lt_add_of_pos_right (Nat.succ_pos 2)) 4)

end Vau
