import Vau.Proofs.Renaming.Outcome
import Vau.Proofs.Session.History

/-! The peak depth: the largest depth of the control stack since the counters were reset.

Only a push updates the counter. The stack is also replaced when a continuation is invoked, which
tells the counter nothing new if the continuation was captured since the reset: the capture found
the stack that deep. An older continuation can go deeper than the counter says. -/

set_option autoImplicit false

namespace Vau

/-! Stacks remember how deep they are. -/

def Stack.Measured : Stack → Prop
  | .empty => True
  | .push top rest => top.depth = rest.frames.length + 1 ∧ rest.Measured

theorem Stack.Measured.depth {stack : Stack} (measured : stack.Measured) :
    stack.depth = stack.frames.length := by
  cases stack with
  | empty => rfl
  | push top rest => exact measured.1

theorem Stack.Measured.extend {stack : Stack} (measured : stack.Measured) (id : Identity)
    (resume : Code) (scope : ScopeId) (pending : Form) :
    (stack.extend id resume scope pending).Measured :=
  ⟨congrArg (· + 1) measured.depth, measured⟩

def Discipline.measured : Discipline where
  template := Template.Compiled
  stack := Stack.Measured
  compiled _ compiled := compiled

theorem Evaluation.Moves.measured {e next : Evaluation} (moves : e.Moves next)
    (obeys : e.Obeys .measured) (measured : e.stack.Measured) : next.stack.Measured := by
  cases moves with
  | along _ _ _ same | pend _ _ _ same | capture _ _ _ _ same | enter _ _ _ same
  | unwrap _ _ _ _ _ same | supply _ _ _ _ _ same | native _ _ _ same | eval _ _ _ _ same =>
    exact same ▸ measured
  | push _ _ _ pushed => exact pushed ▸ measured.extend _ _ _ _
  | pop _ top =>
    rw [top] at measured
    exact measured.2
  | reinstate _ acc _ same =>
    have captured := obeys.acc
    rw [acc] at captured
    exact same ▸ captured.1

theorem Discipline.carries_measured : Discipline.measured.Carries (·.stack.Measured) where
  start _ _ _ := trivial
  step obeys measured stepped := (Evaluation.moves_of_step stepped).measured obeys measured
  capture _ measured _ := measured

theorem Evaluation.Reachable.measured {e : Evaluation} (reachable : e.Reachable) :
    e.stack.Measured :=
  (reachable.obeys Discipline.carries_measured
    ⟨fun _ _ => trivial, fun _ _ => trivial, fun _ _ => trivial⟩).2

/-! Histories since the counters were reset. -/

namespace Evaluation

def deepest (states : List Evaluation) : Nat :=
  states.foldr (fun e depth => max e.stack.frames.length depth) 0

def Saves (e : Evaluation) (stack : Stack) : Prop :=
  (∃ next, e.code = .capture next) ∧ e.stack = stack

def Restores (e : Evaluation) (stack : Stack) : Prop :=
  e.code = .call ∧ e.acc = .combiner (.continuation stack)

/-- Among the states, the newest first, is one that invokes a continuation which none before it
captured. -/
inductive Reenters (stack : Stack) : List Evaluation → Prop
  | here {e : Evaluation} {before : List Evaluation} : e.Restores stack →
    (∀ earlier ∈ before, ¬ earlier.Saves stack) → Reenters stack (e :: before)
  | before {e : Evaluation} {before : List Evaluation} : Reenters stack before →
    Reenters stack (e :: before)

variable {e next : Evaluation} {states : List Evaluation}

theorem le_deepest (member : e ∈ states) : e.stack.frames.length ≤ deepest states := by
  induction states with
  | nil => cases member
  | cons head rest ih =>
    rcases List.mem_cons.mp member with rfl | member
    · exact Nat.le_max_left _ _
    · exact Nat.le_trans (ih member) (Nat.le_max_right _ _)

theorem peakDepth_of_push (stepped : e.step = .running next) {resume code : Code}
    (here : e.code = .frame resume code) (measured : e.stack.Measured) :
    next.stats.peakDepth = max e.stats.peakDepth next.stack.frames.length := by
  have executed := executed_of_step stepped
  rw [execute_frame (e := e.tick) here] at executed
  cases executed
  change max e.stats.peakDepth (e.stack.depth + 1) = max _ (e.stack.frames.length + 1)
  rw [measured.depth]

theorem peakDepth_of_other (other : ∀ resume code, e.code ≠ .frame resume code) :
    e.step.machine.stats.peakDepth = e.stats.peakDepth := by
  by_cases exhausted : e.Exhausted
  · obtain ⟨limit, bounded, beyond⟩ := exhausted
    rw [step_of_exhausted bounded beyond]
    rfl
  · rw [step_of_not_exhausted exhausted, stats_execute]
    unfold tally
    split
    · rename_i resume code here
      exact (other resume code here).elim
    · rfl
    · rfl

theorem peakDepth_of_end (ends : ∀ next, e.step ≠ .running next) :
    e.step.machine.stats.peakDepth = e.stats.peakDepth := by
  by_cases exhausted : e.Exhausted
  · obtain ⟨limit, bounded, beyond⟩ := exhausted
    rw [step_of_exhausted bounded beyond]
    rfl
  · refine peakDepth_of_other fun resume code here => ?_
    have pushed := (step_of_not_exhausted exhausted).trans (execute_frame (e := e.tick) here)
    exact ends _ pushed

end Evaluation

namespace Situation

open Evaluation (deepest Reenters)

/-- What happened since the counters were reset, with the states of evaluations, the newest first.
The program leaves the counters alone meanwhile. -/
inductive Since : List Evaluation → Situation → Prop
  | reset {s : Session} : s.Reachable →
    Since [] (idle { s with machine := s.machine.resetStats })
  | act {visited : List Evaluation} {s s' : Session} : Since visited (idle s) →
    (idle s).Next (idle s') → s'.machine.stats = s.machine.stats → Since visited (idle s')
  | enter {visited : List Evaluation} {σ : Situation} {kept : List Form} {e : Evaluation} :
    Since visited σ → σ.Next (busy kept e) → Since (e :: visited) (busy kept e)
  | leave {visited : List Evaluation} {kept : List Form} {e : Evaluation} {s : Session} :
    Since visited (busy kept e) → (busy kept e).Next (idle s) → Since visited (idle s)

variable {visited : List Evaluation} {σ : Situation}

theorem Since.leads (since : Since visited σ) : Leads new σ := by
  induction since with
  | reset reachable =>
    exact leads_of_reachable (Relation.ReflTransGen.tail reachable .resetStats)
  | act _ next _ ih | enter _ next ih | leave _ next ih => exact ih.tail next

theorem Since.eq_cons {kept : List Form} {e : Evaluation} (since : Since visited (busy kept e)) :
    ∃ before, visited = e :: before := by
  cases since with
  | enter _ _ => exact ⟨_, rfl⟩

/-- The counter is right about these states, except for what was reentered. -/
structure Peaks (peak : Nat) (visited : List Evaluation) : Prop where
  reached : peak ≤ deepest visited
  counted : deepest visited ≤ peak ∨
    ∃ stack, Reenters stack visited ∧ stack.frames.length = deepest visited

namespace Peaks

variable {peak : Nat} {e : Evaluation}

theorem within (peaks : Peaks peak visited) (within : e.stack.frames.length ≤ deepest visited) :
    Peaks peak (e :: visited) := by
  have same : deepest (e :: visited) = deepest visited := Nat.max_eq_right within
  refine ⟨same ▸ peaks.reached, ?_⟩
  rw [same]
  rcases peaks.counted with counted | ⟨stack, reenters, depth⟩
  · exact .inl counted
  · exact .inr ⟨stack, .before reenters, depth⟩

theorem noted (peaks : Peaks peak visited) :
    Peaks (max peak e.stack.frames.length) (e :: visited) := by
  have rises {low high : Nat} (le : low ≤ high) :
      max e.stack.frames.length low ≤ max e.stack.frames.length high :=
    Nat.max_le.mpr ⟨Nat.le_max_left _ _, Nat.le_trans le (Nat.le_max_right _ _)⟩
  rw [Nat.max_comm]
  refine ⟨rises peaks.reached, ?_⟩
  rcases peaks.counted with counted | ⟨stack, reenters, depth⟩
  · exact .inl (rises counted)
  · by_cases higher : deepest visited ≤ e.stack.frames.length
    · have deepest : deepest (e :: visited) = e.stack.frames.length := Nat.max_eq_left higher
      exact .inl (deepest ▸ Nat.le_max_left _ _)
    · have same : deepest (e :: visited) = deepest visited :=
        Nat.max_eq_right (Nat.le_of_not_le higher)
      exact .inr ⟨stack, .before reenters, same ▸ depth⟩

theorem restored (peaks : Peaks peak (e :: visited)) {stack : Stack} (restores : e.Restores stack)
    {next : Evaluation} (same : next.stack = stack) : Peaks peak (next :: e :: visited) := by
  by_cases higher : next.stack.frames.length ≤ deepest (e :: visited)
  · exact peaks.within higher
  · have deepest : deepest (next :: e :: visited) = next.stack.frames.length :=
      Nat.max_eq_left (Nat.le_of_not_le higher)
    refine ⟨deepest ▸ Nat.le_trans peaks.reached (Nat.le_of_not_le higher), .inr ⟨stack, ?_, ?_⟩⟩
    · -- A capture among these states would have had the stack as its own.
      refine .before (.here restores fun earlier member saves => higher ?_)
      rw [same, ← saves.2]
      exact Evaluation.le_deepest (List.mem_cons_of_mem _ member)
    · rw [deepest, same]

end Peaks

theorem Peaks.step {e next : Evaluation} {before : List Evaluation}
    (peaks : Peaks e.stats.peakDepth (e :: before)) (reachable : e.Reachable)
    (stepped : e.step = .running next) : Peaks next.stats.peakDepth (next :: e :: before) := by
  have other (elsewhere : ∀ resume code, e.code ≠ .frame resume code) :
      next.stats.peakDepth = e.stats.peakDepth := by
    have counted := Evaluation.peakDepth_of_other elsewhere
    rwa [stepped] at counted
  have combines (combines : e.Combines) : ∀ resume code, e.code ≠ .frame resume code := by
    rcases combines with ⟨operands, here⟩ | here <;> rw [here] <;> nofun
  have here : e.stack.frames.length ≤ deepest (e :: before) := Nat.le_max_left _ _
  cases Evaluation.moves_of_step stepped with
  | along link _ _ same =>
    have elsewhere : ∀ resume code, e.code ≠ .frame resume code := by
      intro resume code here
      rw [here] at link
      cases link
    rw [other elsewhere]
    exact peaks.within (same ▸ here)
  | pend code _ _ same =>
    rw [other (by rw [code]; nofun)]
    exact peaks.within (same ▸ here)
  | capture code _ _ _ same =>
    rw [other (by rw [code]; nofun)]
    exact peaks.within (same ▸ here)
  | push code _ _ _ =>
    -- This is where the counter is written.
    rw [Evaluation.peakDepth_of_push stepped code reachable.measured]
    exact peaks.noted
  | pop code top =>
    rw [other (by rw [code]; nofun)]
    rw [top] at here
    exact peaks.within (Nat.le_trans (Nat.le_succ _) here)
  | enter combination _ _ same | unwrap combination _ _ _ _ same
  | native combination _ _ same | eval combination _ _ _ same =>
    rw [other (combines combination)]
    exact peaks.within (same ▸ here)
  | supply code _ _ _ _ same =>
    rw [other (by rw [code]; nofun)]
    exact peaks.within (same ▸ here)
  | reinstate code acc _ same =>
    -- The stack gets as high as it was when it was captured, and that goes uncounted.
    rw [other (by rw [code]; nofun)]
    exact peaks.restored ⟨code, acc⟩ same

theorem Since.peaks (since : Since visited σ) : Peaks σ.machine.stats.peakDepth visited := by
  induction since with
  | reset _ => exact ⟨Nat.le_refl _, .inl (Nat.le_refl _)⟩
  | act _ _ same ih => exact (congrArg Stats.peakDepth same).symm ▸ ih
  | @enter visited σ kept e since next ih =>
    cases next with
    | start known bound compiled => exact ih.within (Nat.zero_le _)
    | step stepped =>
      obtain ⟨before, rfl⟩ := since.eq_cons
      exact ih.step (Evaluation.reachable_iff.mpr ⟨kept, since.leads⟩) stepped
  | @leave visited kept e s since next ih =>
    have ended (ends : ∀ next, e.step ≠ .running next) := Evaluation.peakDepth_of_end ends
    cases next with
    | finish stepped | fail stepped =>
      rw [stepped] at ended
      exact (ended fun _ same => by cases same).symm ▸ ih

/-- The counter is the true peak, unless that is the depth of an invoked continuation which was
captured before the counters were reset. -/
theorem Since.peak_depth (since : Since visited σ) :
    σ.machine.stats.peakDepth ≤ deepest visited ∧
      (σ.machine.stats.peakDepth = deepest visited ∨
        ∃ stack, Reenters stack visited ∧ stack.frames.length = deepest visited) := by
  obtain ⟨reached, counted⟩ := since.peaks
  exact ⟨reached, counted.imp_left (Nat.le_antisymm reached)⟩

/-- The form `(unwrap (call/cc wrap))`, with the combiners themselves in it. -/
def capturing : Form :=
  .pair 0 (.combiner (.applicative 0 (.native (.primitive .unwrap))))
    (.pair 0 (.pair 0 (.symbol "call/cc")
      (.pair 0 (.combiner (.native (.primitive .wrap))) .nil)) .nil)

/-- Its value is the continuation that it captures two frames deep. -/
theorem Since.capture {s : Session} (since : Since [] (idle s)) (unlimited : s.machine.limit = none)
    (numbered : 0 < s.machine.store.fresh) (bound : 0 < s.machine.store.scopes.size)
    (uncounted : s.machine.stats = {}) : ∃ visited stack m,
      Since visited (idle ⟨m, .combiner (.continuation stack) :: s.kept⟩) ∧ deepest visited = 2 ∧
        stack.frames.length = 2 ∧ m.limit = none ∧ 0 < m.store.fresh ∧ 0 < m.store.scopes.size := by
  obtain ⟨⟨store, hosts, limit, stats, frames⟩, kept⟩ := s
  cases unlimited
  cases uncounted
  have known : (Session.mk ⟨store, hosts, none, {}, frames⟩ kept).Knows capturing := by
    intro D obeys
    have zero : D.object 0 := obeys.room.object 0 numbered
    exact ⟨zero, ⟨zero, trivial⟩, zero, ⟨zero, trivial, zero, trivial, trivial⟩, trivial⟩
  replace since := since.enter (.start known bound rfl)
  iterate 12 replace since := since.enter (.step rfl)
  exact ⟨_, _, _, since.leave (.finish rfl), rfl, rfl, rfl, Nat.succ_pos _, bound⟩

theorem Since.peak_depth_of_capture : ∃ visited σ, Since visited σ ∧ deepest visited = 2 ∧
    σ.machine.stats.peakDepth ≤ deepest visited ∧
      (σ.machine.stats.peakDepth = deepest visited ∨
        ∃ stack, Reenters stack visited ∧ stack.frames.length = deepest visited) := by
  obtain ⟨m, kept, reachable, unlimited, _, numbered, bound⟩ := Session.Reachable.exists_machine
  obtain ⟨visited, _, _, since, deepest, _⟩ :=
    (Since.reset reachable).capture unlimited numbered bound rfl
  exact ⟨visited, _, since, deepest, since.peak_depth⟩

/-- After a reset, the continuation of before is invoked one frame deep. -/
theorem Since.peak_depth_exceeded : ∃ visited σ, Since visited σ ∧
    σ.machine.stats.peakDepth = 1 ∧ deepest visited = 2 := by
  obtain ⟨m, kept, reachable, unlimited, _, numbered, bound⟩ := Session.Reachable.exists_machine
  obtain ⟨_, stack, m', captured, _, depth, unlimited, numbered, bound⟩ :=
    (Since.reset reachable).capture unlimited numbered bound rfl
  have since := Since.reset (arises_of_leads captured.leads)
  obtain ⟨store, hosts, limit, stats, frames⟩ := m'
  cases unlimited
  let invoking : Form := .pair 0 (.combiner (.continuation stack)) .nil
  replace since := since.enter (@Next.start _ invoking _ _
    (fun D obeys => ⟨obeys.room.object 0 numbered, obeys.kept _ List.mem_cons_self, trivial⟩)
    bound rfl)
  iterate 5 replace since := since.enter (.step rfl)
  refine ⟨_, _, since, rfl, ?_⟩
  change max stack.frames.length 1 = 2
  rw [depth]
  rfl

end Situation

end Vau
