import Vau.Proofs.Control.Peak
import Vau.Proofs.Control.Tail
import Vau.Proofs.Limit

/-! Frames balance: until a continuation is invoked, the control stack holds just what was pushed
and not yet popped. There is a value once all of it was popped.

The program may put stacks together frame by frame, as the machine does. It has its closures from
the machine. -/

set_option autoImplicit false

namespace Vau

structure Discipline.Numberless (D : Discipline) : Prop where
  object : ∀ i, D.object i
  frame : ∀ i, D.frame i
  scope : ∀ e, D.scope e

theorem Discipline.Numberless.room {D : Discipline} (numberless : D.Numberless) (m : Machine) :
    D.Room m :=
  ⟨fun i _ => numberless.object i, fun i _ => numberless.frame i, fun e _ => numberless.scope e⟩

/-- Sessions where the discipline is kept by what the program makes itself, and by its natives. -/
inductive Session.ArisesUnder (D : Discipline) : Session → Prop
  | new : ArisesUnder D ⟨Machine.bare, []⟩
  | next {s s' : Session} : ArisesUnder D s → s.Next s' → ArisesUnder D s'
  | register {s : Session} (e : ScopeId) {host : HostNative} : ArisesUnder D s → host.Keeps D →
    host.memory.Obeys D → ArisesUnder D { s with machine := s.machine.register e host }
  | keep {s : Session} {f : Form} : ArisesUnder D s → f.Obeys D →
    ArisesUnder D { s with kept := f :: s.kept }

theorem Session.Reachable.arisesUnder {s : Session} (reachable : s.Reachable) (D : Discipline) :
    s.ArisesUnder D := by
  induction reachable with
  | refl => exact .new
  | tail _ next ih => exact .next ih next

section

variable {D : Discipline} {holds : Evaluation → Prop} {m : Machine} {e last : Evaluation}

namespace Discipline.Carries

theorem progress (carries : D.Carries holds) (numberless : D.Numberless) (obeys : e.Obeys D)
    (here : holds e) : e.step.Obeys D :=
  (obeys.step fun _ captures => carries.capture obeys here captures).2 trivial
    ((numberless.room _).covers _)

theorem executes (carries : D.Carries holds) (numberless : D.Numberless) {count : Nat}
    (obeys : e.Obeys D) (here : holds e) (executes : e.Executes count last) :
    last.Obeys D ∧ holds last := by
  induction executes with
  | refl e => exact ⟨obeys, here⟩
  | head stepped _ ih =>
    have left := carries.progress numberless obeys here
    rw [stepped] at left
    exact ih left (carries.step obeys here stepped)

theorem takes (carries : D.Carries holds) (numberless : D.Numberless) (obeys : m.Obeys D)
    {form : Form} (known : form.Obeys D) {scope : ScopeId} {count : Nat}
    {outcome : Except Error Form × Machine} (takes : m.Takes form scope count outcome) :
    (∀ v, outcome.1 = .ok v → v.Obeys D) ∧ outcome.2.Obeys D := by
  cases takes with
  | refused => exact ⟨nofun, obeys⟩
  | @ended code count last _ compiled ran ended =>
    have start := start_obeys obeys known compiled (numberless.scope scope)
    obtain ⟨obeys, here⟩ :=
      carries.executes numberless start (carries.start_holds m compiled scope) ran
    have left := carries.progress numberless obeys here
    cases stepped : last.step <;> rw [stepped] at left ended <;> cases ended
    · refine ⟨fun v same => ?_, left.2⟩
      cases same
      exact left.1
    · exact ⟨nofun, left⟩

end Discipline.Carries

theorem Session.ArisesUnder.obeys {s : Session} (arises : s.ArisesUnder D)
    (carries : D.Carries holds) (numberless : D.Numberless) : s.Obeys D := by
  have room := numberless.room
  induction arises with
  | new => exact .new (Machine.obeys_bare (room _)) (room _)
  | next _ next ih =>
    refine ih.next_of next (room _) fun known _ ran same => ?_
    obtain ⟨count, _, takes⟩ := Machine.evalIn_eq_some.mp ran
    exact carries.takes numberless ih.machine (known _ ih) takes
  | register e _ keeps known ih => exact ih.register e keeps known (room _)
  | keep _ known ih => exact ih.keep known

end

theorem Discipline.Numberless.measured : Discipline.measured.Numberless :=
  ⟨fun _ => trivial, fun _ => trivial, fun _ => trivial⟩

namespace Stack

theorem Measured.frame_depth {stack : Stack} (measured : stack.Measured) {above below : List Frame}
    {frame : Frame} (frames : stack.frames = above ++ frame :: below) :
    frame.depth = below.length + 1 := by
  induction above generalizing stack with
  | nil =>
    cases stack with
    | empty => cases frames
    | push top rest =>
      cases frames
      exact measured.1
  | cons first above ih =>
    cases stack with
    | empty => cases frames
    | push top rest => exact ih measured.2 (List.tail_eq_of_cons_eq frames)

end Stack

/-- Since the earlier counters, the pushes are the pops and the depth together. -/
def Stats.Balances (earlier later : Stats) (depth : Nat) : Prop :=
  ∃ pushed popped, later.pushes = earlier.pushes + pushed ∧ later.pops = earlier.pops + popped ∧
    pushed = popped + depth

namespace Evaluation

def invokes (e : Evaluation) : Bool :=
  match e.code, e.acc with
  | .call, .combiner (.continuation _) => true
  | _, _ => false

theorem invokes_iff {e : Evaluation} : e.invokes = true ↔ e.Invokes := by
  unfold invokes
  constructor
  · intro invokes
    split at invokes
    · rename_i stack here acc
      exact ⟨here, stack, acc⟩
    · cases invokes
  · rintro ⟨here, stack, acc⟩
    rw [here, acc]

instance (e : Evaluation) : Decidable e.Invokes := decidable_of_iff _ invokes_iff

/-- States on the way from the first as long as no continuation is invoked. -/
inductive Calmly (first : Evaluation) : Evaluation → Prop
  | here : Calmly first first
  | step {e next : Evaluation} : Calmly first e → ¬ e.Invokes → e.step = .running next →
    Calmly first next

variable {e next : Evaluation} {stats : Stats}

theorem stats_of_step (stepped : e.step = .running next) : next.stats = e.tick.tally := by
  have counted := stats_execute e.tick
  rwa [executed_of_step stepped] at counted

theorem stats_of_finished {value : Form} {m : Machine} (finished : e.step = .finished value m) :
    m.stats = e.tick.tally := by
  have counted := stats_execute e.tick
  by_cases exhausted : e.Exhausted
  · obtain ⟨limit, bounded, beyond⟩ := exhausted
    rw [step_of_exhausted bounded beyond] at finished
    cases finished
  · rw [step_of_not_exhausted exhausted] at finished
    rwa [finished] at counted

theorem top_of_ret (here : e.code = .ret) (stepped : e.step = .running next) :
    ∃ frame rest, e.stack = .push frame rest := by
  cases top : e.stack with
  | empty =>
    have executed := executed_of_step stepped
    have code : e.tick.code = .ret := here
    have stack : e.tick.stack = .empty := top
    rw [execute, code, stack] at executed
    cases executed
  | push frame rest => exact ⟨frame, rest, rfl⟩

theorem balances_step (balances : stats.Balances e.stats e.stack.depth)
    (measured : e.stack.Measured) (calm : ¬ e.Invokes) (stepped : e.step = .running next) :
    stats.Balances next.stats next.stack.depth := by
  obtain ⟨pushed, popped, pushes, pops, balance⟩ := balances
  have executed := executed_of_step stepped
  cases here : e.code with
  | frame resume code =>
    rw [execute_frame (e := e.tick) here] at executed
    cases executed
    exact ⟨pushed + 1, popped, congrArg (· + 1) pushes, pops, congrArg (· + 1) balance⟩
  | ret =>
    obtain ⟨frame, rest, top⟩ := top_of_ret here stepped
    rw [execute_ret (e := e.tick) here top] at executed
    cases executed
    rw [top] at measured balance
    have depth : (Stack.push frame rest).depth = rest.depth + 1 :=
      measured.1.trans (congrArg (· + 1) measured.2.depth.symm)
    refine ⟨pushed, popped + 1, pushes, congrArg (· + 1) pops, ?_⟩
    change pushed = popped + 1 + rest.depth
    omega
  | _ =>
    -- Any other instruction leaves both the counters and the stack alone.
    have code : e.tick.code = _ := here
    have counted := stats_of_step stepped
    have same := (moves_of_step stepped).stack_eq calm (by simp [here]) (by simp [here])
    unfold tally at counted
    rw [code] at counted
    rw [same, counted]
    exact ⟨pushed, popped, pushes, pops, balance⟩

structure Level (stats : Stats) (e : Evaluation) : Prop where
  obeys : e.Obeys .measured
  measured : e.stack.Measured
  orderly : e.Orderly
  balances : stats.Balances e.stats e.stack.depth

theorem Level.step (level : e.Level stats) (calm : ¬ e.Invokes) (stepped : e.step = .running next) :
    next.Level stats := by
  obtain ⟨obeys, measured, orderly, balances⟩ := level
  have moves := moves_of_step stepped
  have left := Discipline.carries_measured.progress .measured obeys measured
  rw [stepped] at left
  refine ⟨left, moves.measured obeys measured, ?_, balances_step balances measured calm stepped⟩
  -- No captured stack comes back, so nothing need be known of the order in those.
  refine orderly.moves moves (fun id static t acc => ?_)
    fun stack here acc => (calm ⟨here, stack, acc⟩).elim
  have held := obeys.acc
  rw [acc] at held
  exact held.2.2.holds

theorem Calmly.level {first : Evaluation} (calmly : first.Calmly e) (level : first.Level stats) :
    e.Level stats := by
  induction calmly with
  | here => exact level
  | step _ calm stepped ih => exact ih.step calm stepped

theorem Level.balances_of_finished (level : e.Level stats) {value : Form} {m : Machine}
    (finished : e.step = .finished value m) : stats.Balances m.stats 0 := by
  have counted := stats_of_finished finished
  rcases code_of_finished finished with here | ⟨here, empty⟩
  · have code : e.tick.code = .halt := here
    unfold tally at counted
    rw [code] at counted
    have balances := level.balances
    rw [level.orderly.stack_empty_of_halt here] at balances
    rw [counted]
    exact balances
  · exact (level.orderly.stack_nonempty_of_ret here empty).elim

end Evaluation

theorem Machine.Obeys.level {m : Machine} (obeys : m.Obeys .measured) {form : Form}
    (known : form.Obeys .measured) {code : Code} (compiled : form.compile .halt = .ok code)
    (scope : ScopeId) : (m.start code scope).Level m.stats := by
  obtain ⟨x, _, rfl⟩ := Form.compile_eq_ok.mp compiled
  exact ⟨Discipline.Carries.start_obeys obeys known compiled trivial, trivial,
    ⟨x.fits_code rfl, trivial⟩, 0, 0, rfl, rfl, rfl⟩

/-- Until a continuation is invoked, the depth of the stack is the number of pushes without a pop,
and each frame remembers how many there are from it down, also in captured stacks. An evaluation
that has a value has popped all that it pushed. -/
theorem Session.ArisesUnder.frames_balance {s : Session} (arises : s.ArisesUnder .measured)
    {form : Form} (known : form.Obeys .measured) {code : Code}
    (compiled : form.compile .halt = .ok code) {scope : ScopeId} {e : Evaluation}
    (calmly : (s.machine.start code scope).Calmly e) :
    s.machine.stats.Balances e.stats e.stack.depth ∧
      (∀ stack, stack = e.stack ∨ e.Captured stack → ∀ above frame below,
        stack.frames = above ++ frame :: below → frame.depth = below.length + 1) ∧
      ∀ value m, e.step = .finished value m → s.machine.stats.Balances m.stats 0 := by
  have obeys := arises.obeys Discipline.carries_measured .measured
  have level := calmly.level (obeys.machine.level known compiled scope)
  refine ⟨level.balances, fun stack has above frame below frames => ?_,
    fun value m finished => level.balances_of_finished finished⟩
  rcases has with rfl | captured
  · exact level.measured.frame_depth frames
  · exact (captured _ level.obeys : stack.Measured).frame_depth frames

/-- The evaluation of `(unwrap (call/cc wrap))` captures a continuation two frames deep. -/
theorem Session.ArisesUnder.frames_balance_of_capturing : ∃ (s : Session) (code : Code)
    (e : Evaluation), Situation.capturing.compile .halt = .ok code ∧
      (s.machine.start code 0).Calmly e ∧ e.stats.pushes = s.machine.stats.pushes + 2 ∧
      (∃ stack m, e.step = .finished (.combiner (.continuation stack)) m) ∧
      s.machine.stats.Balances e.stats e.stack.depth ∧
      (∀ stack, stack = e.stack ∨ e.Captured stack → ∀ above frame below,
        stack.frames = above ++ frame :: below → frame.depth = below.length + 1) ∧
      ∀ value m, e.step = .finished value m → s.machine.stats.Balances m.stats 0 := by
  obtain ⟨⟨store, hosts, limit, stats, frames⟩, kept, reachable, unlimited, _⟩ :=
    Session.Reachable.exists_machine
  cases unlimited
  have arises := reachable.arisesUnder .measured
  have known : Situation.capturing.Obeys .measured :=
    ⟨trivial, ⟨trivial, trivial⟩, trivial, ⟨trivial, trivial, trivial, trivial, trivial⟩, trivial⟩
  obtain ⟨code, compiled⟩ : ∃ code, Situation.capturing.compile .halt = .ok code := ⟨_, rfl⟩
  have calmly := @Evaluation.Calmly.here (Machine.start ⟨store, hosts, none, stats, frames⟩ code 0)
  cases compiled
  iterate 12 replace calmly := calmly.step (of_decide_eq_false rfl) rfl
  exact ⟨_, _, _, rfl, calmly, rfl, ⟨_, _, rfl⟩, arises.frames_balance known rfl calmly⟩

end Vau
