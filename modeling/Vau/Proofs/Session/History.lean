import Vau.Proofs.Continuation.Outcome

/-! What came before a state, in the same evaluation or in earlier ones on the same machine.

A history takes one instruction at a time, through all evaluations. Every frame that a state has,
live or captured, was pushed by a state before it. -/

set_option autoImplicit false

namespace Vau

/-- A machine between evaluations, or in one, with the forms that the program keeps meanwhile. -/
inductive Situation where
  | idle (s : Session)
  | busy (kept : List Form) (e : Evaluation)

/-- The session comes from another one by an evaluation, taken as a whole. -/
def Session.Evaluates (s s' : Session) : Prop :=
  ∃ (fuel : Nat) (form : Form) (scope : ScopeId) (result : Except Error Form) (m : Machine),
    s.Knows form ∧ scope < s.machine.store.scopes.size ∧
      s.machine.evalIn fuel form scope = some (result, m) ∧
      s' = ⟨m, result.toOption.toList ++ s.kept⟩

namespace Situation

def machine : Situation → Machine
  | idle s => s.machine
  | busy _ e => e.toMachine

inductive Next : Situation → Situation → Prop
  | act {s s' : Session} : s.Next s' → ¬ s.Evaluates s' → Next (idle s) (idle s')
  | start {s : Session} {form : Form} {code : Code} {scope : ScopeId} : s.Knows form →
    scope < s.machine.store.scopes.size → form.compile .halt = .ok code →
      Next (idle s) (busy s.kept (s.machine.start code scope))
  | step {kept : List Form} {e next : Evaluation} : e.step = .running next →
    Next (busy kept e) (busy kept next)
  | finish {kept : List Form} {e : Evaluation} {value : Form} {m : Machine} :
    e.step = .finished value m → Next (busy kept e) (idle ⟨m, value :: kept⟩)
  | fail {kept : List Form} {e : Evaluation} {error : Error} {m : Machine} :
    e.step = .failed error m → Next (busy kept e) (idle ⟨m, kept⟩)

abbrev Leads : Situation → Situation → Prop := Relation.ReflTransGen Next

def new : Situation := idle ⟨Machine.bare, []⟩

/-! Whole evaluations, one instruction at a time. -/

theorem leads_of_run {kept : List Form} {fuel : Nat} {e : Evaluation} {result : Except Error Form}
    {m : Machine} (ran : e.run fuel = some (result, m)) :
    Leads (busy kept e) (idle ⟨m, result.toOption.toList ++ kept⟩) := by
  induction fuel generalizing e with
  | zero => cases ran
  | succ fuel ih =>
    unfold Evaluation.run at ran
    split at ran
    · rename_i next stepped
      exact (ih ran).head (.step stepped)
    · rename_i value m' stepped
      cases ran
      exact .single (.finish stepped)
    · rename_i error m' stepped
      cases ran
      exact .single (.fail stepped)

theorem leads_of_evaluates {s s' : Session} (evaluates : s.Evaluates s') :
    Leads (idle s) (idle s') := by
  obtain ⟨fuel, form, scope, result, m, known, bound, ran, rfl⟩ := evaluates
  unfold Machine.evalIn at ran
  split at ran
  · rename_i code compiled
    exact (leads_of_run ran).head (.start known bound compiled)
  · -- What does not compile changes nothing.
    cases ran
    exact .refl

theorem leads_of_next {s s' : Session} (next : s.Next s') : Leads (idle s) (idle s') := by
  by_cases evaluates : s.Evaluates s'
  · exact leads_of_evaluates evaluates
  · exact .single (.act next evaluates)

theorem leads_of_reachable {s : Session} (reachable : s.Reachable) : Leads new (idle s) := by
  induction reachable with
  | refl => exact .refl
  | tail _ next ih => exact ih.trans (leads_of_next next)

theorem leads_of_running {s : Session} {e : Evaluation} (running : s.Running e) :
    Leads (idle s) (busy s.kept e) := by
  induction running with
  | start known bound compiled => exact .single (.start known bound compiled)
  | step _ stepped ih => exact ih.tail (.step stepped)

/-- The session runs an evaluation that has come to this state. -/
structure Runs (s : Session) (e : Evaluation) : Prop where
  running : s.Running e
  whole : ∀ (fuel : Nat) {result : Except Error Form} {m : Machine},
    e.run fuel = some (result, m) → s.Next ⟨m, result.toOption.toList ++ s.kept⟩

/-- The situation is one of a reachable session. -/
def Arises : Situation → Prop
  | idle s => s.Reachable
  | busy kept e => ∃ s : Session, s.Reachable ∧ s.kept = kept ∧ Runs s e

variable {σ τ : Situation}

theorem Runs.step {s : Session} {e next : Evaluation} (runs : Runs s e)
    (stepped : e.step = .running next) : Runs s next := by
  refine ⟨runs.running.step stepped, fun fuel {_ _} ran => runs.whole (fuel + 1) ?_⟩
  rw [Evaluation.run, stepped]
  exact ran

theorem Arises.next (arises : σ.Arises) (next : σ.Next τ) : τ.Arises := by
  cases next with
  | act next _ => exact Relation.ReflTransGen.tail arises next
  | @start s form code scope known bound compiled =>
    refine ⟨s, arises, rfl, .start known bound compiled, fun fuel {_ _} ran => ?_⟩
    refine @Session.Next.evaluate s fuel form scope _ _ known bound ?_
    rw [Machine.evalIn, compiled]
    exact ran
  | step stepped =>
    obtain ⟨s, reachable, rfl, runs⟩ := arises
    exact ⟨s, reachable, rfl, runs.step stepped⟩
  | @finish kept e value m stepped =>
    obtain ⟨s, reachable, rfl, runs⟩ := arises
    have ran : e.run 1 = some (.ok value, m) := by rw [Evaluation.run, stepped]
    exact Relation.ReflTransGen.tail reachable (runs.whole 1 ran)
  | @fail kept e error m stepped =>
    obtain ⟨s, reachable, rfl, runs⟩ := arises
    have ran : e.run 1 = some (.error error, m) := by rw [Evaluation.run, stepped]
    exact Relation.ReflTransGen.tail reachable (runs.whole 1 ran)

theorem arises_of_leads (leads : Leads new σ) : σ.Arises := by
  induction leads with
  | refl => exact Relation.ReflTransGen.refl
  | tail _ next ih => exact ih.next next

end Situation

namespace Evaluation

open Situation (Leads)

theorem reachable_iff {e : Evaluation} :
    e.Reachable ↔ ∃ kept, Leads .new (.busy kept e) := by
  constructor
  · rintro ⟨s, reachable, running⟩
    exact ⟨s.kept, (Situation.leads_of_reachable reachable).trans
      (Situation.leads_of_running running)⟩
  · rintro ⟨kept, leads⟩
    obtain ⟨s, reachable, _, runs⟩ := Situation.arises_of_leads leads
    exact ⟨s, reachable, runs.running⟩

/-- There is a history in which the state comes before the other one, or is the same. -/
def Before (e later : Evaluation) : Prop :=
  ∃ kept kept', Leads .new (.busy kept e) ∧ Leads (.busy kept e) (.busy kept' later)

def Pushes (e : Evaluation) (frame : Frame) : Prop :=
  (∃ next, e.code = .frame frame.resume next) ∧
    frame = ⟨e.frames, e.stack.depth + 1, frame.resume, e.scope, e.pending⟩

variable {e later next : Evaluation}

theorem Before.reachable (before : e.Before later) : e.Reachable := by
  obtain ⟨kept, _, leads, _⟩ := before
  exact reachable_iff.mpr ⟨kept, leads⟩

theorem Before.reachable_later (before : e.Before later) : later.Reachable := by
  obtain ⟨_, kept, leads, rest⟩ := before
  exact reachable_iff.mpr ⟨kept, leads.trans rest⟩

end Evaluation

/-! Where frames come from. -/

namespace Situation

/-- A state pushed the frame on the way to this situation. -/
def Pushed (z : Situation) (frame : Frame) : Prop :=
  ∃ kept e, Leads new (busy kept e) ∧ Leads (busy kept e) z ∧ Evaluation.Pushes e frame

/-- All frames were pushed on the way to this situation. -/
def origin (z : Situation) : Discipline where
  template := Template.Compiled
  stack stack := ∀ frame ∈ stack.frames, z.Pushed frame
  compiled _ compiled := compiled

theorem room_origin (z : Situation) (m : Machine) : z.origin.Room m :=
  ⟨fun _ _ => trivial, fun _ _ => trivial, fun _ _ => trivial⟩

/-- The forms obey, and so does what there is of an evaluation, down to the live stack. -/
def Obeys (D : Discipline) : Situation → Prop
  | idle s => s.Obeys D
  | busy kept e => (∀ f ∈ kept, f.Obeys D) ∧ e.Obeys D ∧ D.stack e.stack

variable {σ τ z : Situation}

/-- The live stack after an instruction is the one before, a captured one, or has one frame more or
less. -/
theorem stack_origin {kept : List Form} {e next : Evaluation} (reached : Leads new (busy kept e))
    (leads : Leads (busy kept e) z) (obeys : e.Obeys z.origin) (live : z.origin.stack e.stack)
    (stepped : e.step = .running next) : z.origin.stack next.stack := by
  cases Evaluation.moves_of_step stepped with
  | along _ _ _ same | pend _ _ _ same | capture _ _ _ _ same | enter _ _ _ same
  | unwrap _ _ _ _ _ same | supply _ _ _ _ _ same | native _ _ _ same | eval _ _ _ _ same =>
    exact same ▸ live
  | @push resume here _ _ pushed =>
    intro frame member
    rw [pushed] at member
    rcases List.mem_cons.mp member with rfl | below
    · exact ⟨kept, e, reached, leads, ⟨next.code, here⟩, rfl⟩
    · exact live frame below
  | pop _ top =>
    intro frame member
    refine live frame ?_
    rw [top]
    exact List.mem_cons_of_mem _ member
  | reinstate _ acc _ same =>
    -- Here the discipline pays: it says of captured stacks what is asked of the live one.
    have captured := obeys.acc
    rw [acc] at captured
    exact same ▸ captured.1

/-- What is captured is the live stack. -/
theorem follows_origin {e : Evaluation} (obeys : e.Obeys z.origin)
    (live : z.origin.stack e.stack) : e.step.Obeys z.origin :=
  (obeys.step fun _ _ => live).2 trivial ((room_origin z _).covers _)

theorem Obeys.next (reached : Leads new σ) (next : σ.Next τ) (leads : Leads τ z)
    (obeys : σ.Obeys z.origin) : τ.Obeys z.origin := by
  cases next with
  | act next other =>
    -- It is no evaluation: those are taken one instruction after another.
    refine Session.Obeys.next_of obeys next (room_origin z _) ?_
    intro fuel form scope result m known bound ran same
    exact (other ⟨fuel, form, scope, result, m, known, bound, ran, same⟩).elim
  | start known bound compiled =>
    have machine := Session.Obeys.machine obeys
    refine ⟨Session.Obeys.kept obeys, ?_, nofun⟩
    exact Discipline.Carries.start_obeys machine (known _ obeys) compiled trivial
  | step stepped =>
    obtain ⟨kept, obeys, live⟩ := obeys
    have after := follows_origin obeys live
    rw [stepped] at after
    exact ⟨kept, after, stack_origin reached (leads.head (.step stepped)) obeys live stepped⟩
  | finish stepped =>
    obtain ⟨kept, obeys, live⟩ := obeys
    have after := follows_origin obeys live
    rw [stepped] at after
    refine ⟨after.2, ?_, room_origin z _⟩
    intro f member
    rcases List.mem_cons.mp member with rfl | old
    · exact after.1
    · exact kept f old
  | fail stepped =>
    obtain ⟨kept, obeys, live⟩ := obeys
    have after := follows_origin obeys live
    rw [stepped] at after
    exact ⟨after, kept, room_origin z _⟩

theorem obeys_origin (reached : Leads new σ) (leads : Leads σ z) : σ.Obeys z.origin := by
  induction reached with
  | refl => exact .new (Machine.obeys_bare (room_origin z _)) (room_origin z _)
  | tail before next ih => exact (ih (leads.head next)).next before next leads

end Situation

namespace Evaluation.Reachable

variable {e : Evaluation}

theorem origin (reachable : e.Reachable) {stack : Stack} (has : stack = e.stack ∨ e.Captured stack)
    {frame : Frame} (member : frame ∈ stack.frames) : ∃ earlier : Evaluation,
      earlier.Before e ∧ earlier.Pushes frame := by
  obtain ⟨kept, leads⟩ := reachable_iff.mp reachable
  obtain ⟨_, obeys, live⟩ := Situation.obeys_origin leads .refl
  have pushed : (Situation.busy kept e).Pushed frame := by
    rcases has with rfl | captured
    · exact live frame member
    · exact captured _ obeys frame member
  obtain ⟨kept', earlier, reached, rest, pushes⟩ := pushed
  exact ⟨earlier, ⟨kept', kept, reached, rest⟩, pushes⟩

/-- The top frame was pushed when there were fewer frames. -/
theorem frames_lt_of_pushes (reachable : e.Reachable) {frame : Frame} {rest : Stack}
    (top : e.stack = .push frame rest) {earlier : Evaluation} (pushes : earlier.Pushes frame) :
    earlier.frames < e.frames := by
  have stack := (reachable.numbered (.refl _)).stack
  rw [top] at stack
  have numbered := stack.1
  rw [pushes.2] at numbered
  exact numbered.1

/-- Induction over all reachable states. A state that returns to a frame is preceded by the state
that pushed it, which may belong to an earlier evaluation. -/
theorem induct {holds : Evaluation → Prop}
    (start : ∀ (m : Machine) (x : Expr) (scope : ScopeId), holds (m.start (x.code .halt) scope))
    (step : ∀ {e next : Evaluation}, e.Reachable → holds e → e.step = .running next →
      (∀ {frame : Frame}, e.stack = .push frame next.stack → ∃ earlier : Evaluation,
        earlier.Before e ∧ earlier.Pushes frame ∧ holds earlier) → holds next)
    {e : Evaluation} (reachable : e.Reachable) : holds e := by
  -- The state that pushed a frame had fewer frames behind it, so their number decreases.
  suffices bounded : ∀ n, ∀ e : Evaluation, e.Reachable → e.frames < n → holds e from
    bounded (e.frames + 1) e reachable (Nat.lt_succ_self _)
  intro n
  induction n with
  | zero =>
    intro e _ none
    exact (Nat.not_lt_zero _ none).elim
  | succ n ih =>
    rintro e ⟨s, before, running⟩ small
    induction running with
    | start known bound compiled =>
      obtain ⟨x, _, rfl⟩ := Form.compile_eq_ok.mp compiled
      exact start s.machine x _
    | @step e next running stepped here =>
      have reachable : e.Reachable := ⟨s, before, running⟩
      have grows := (reachable.sourced.grows_next stepped).frames
      have small := Nat.lt_of_le_of_lt grows small
      refine step reachable (here small) stepped fun {frame} top => ?_
      have member : frame ∈ e.stack.frames := by
        rw [top]
        exact List.mem_cons_self
      obtain ⟨earlier, comes, pushes⟩ := reachable.origin (.inl rfl) member
      have fewer := reachable.frames_lt_of_pushes top pushes
      exact ⟨earlier, comes, pushes, ih earlier comes.reachable
        (Nat.lt_of_lt_of_le fewer (Nat.le_of_lt_succ small))⟩

end Evaluation.Reachable

end Vau
