import Vau.Proofs.Control
import Vau.Proofs.Session

/-! The order of the control stack: only its bottom leads to a halt, and all code above returns. -/

set_option autoImplicit false

namespace Vau

/-- Code can reach a halt along its links, and by resuming what it pushes itself. -/
def Code.canHalt : Code → Bool
  | .halt => true
  | .apply _ | .call | .ret => false
  | .test consequent alternative => consequent.canHalt || alternative.canHalt
  | .frame resume next => resume.canHalt || next.canHalt
  | .refer _ next | .constant _ next | .close _ next | .define _ next | .assign _ next
  | .argument next | .capture next => next.canHalt

/-- Code for an empty control stack ends in halts, other code in returns, calls and combinations.
What is pushed resumes with the stack as it was, and never just to return. -/
def Code.Fits (bottom : Bool) : Code → Prop
  | .halt => bottom = true
  | .apply _ | .call | .ret => bottom = false
  | .test consequent alternative => consequent.Fits bottom ∧ alternative.Fits bottom
  | .frame resume next => resume.isReturn = false ∧ resume.Fits bottom ∧ next.Fits false
  | .capture next => bottom = false ∧ next.Fits bottom
  | .refer _ next | .constant _ next | .close _ next | .define _ next | .assign _ next
  | .argument next => next.Fits bottom

def Stack.Fits : Stack → Prop
  | .empty => True
  | .push top rest => top.resume.isReturn = false ∧ top.resume.Fits rest.isEmpty ∧ rest.Fits

/-- Exactly the bottom frame resumes into code that can halt. -/
def Stack.HaltsAtBottom : Stack → Prop
  | .empty => True
  | .push top rest => top.resume.canHalt = rest.isEmpty ∧ rest.HaltsAtBottom

def Stack.NeverJustReturns (stack : Stack) : Prop :=
  ∀ frame ∈ stack.frames, frame.resume.isReturn = false

namespace Code

theorem canHalt_of_fits {bottom : Bool} : ∀ {code : Code}, code.Fits bottom → code.canHalt = bottom
  | .halt, fits | .apply _, fits | .call, fits | .ret, fits => fits.symm
  | .test _ _, ⟨consequent, alternative⟩ => by
    rw [canHalt, canHalt_of_fits consequent, canHalt_of_fits alternative, Bool.or_self]
  | .frame _ _, ⟨_, resume, next⟩ => by
    rw [canHalt, canHalt_of_fits resume, canHalt_of_fits next, Bool.or_false]
  | .capture next, ⟨_, fits⟩ => @canHalt_of_fits bottom next fits
  | .refer _ next, fits | .constant _ next, fits | .close _ next, fits | .define _ next, fits
  | .assign _ next, fits | .argument next, fits => @canHalt_of_fits bottom next fits

theorem Fits.link {bottom : Bool} {code next : Code} (fits : code.Fits bottom)
    (link : next ∈ code.links) : next.Fits bottom := by
  cases code with
  | test consequent alternative =>
    rcases List.mem_cons.mp link with rfl | link
    · exact fits.1
    · exact List.mem_singleton.mp link ▸ fits.2
  | frame | apply | argument | capture | halt | call | ret => cases link
  | _ => exact List.mem_singleton.mp link ▸ fits

theorem Fits.framed {bottom : Bool} {code next : Code} (here : code.Fits false)
    (later : next.Fits bottom) : (code.framed next).Fits bottom := by
  unfold Code.framed
  cases returns : next.isReturn with
  | true =>
    cases next <;> cases returns
    cases later
    exact here
  | false => exact ⟨returns, later, here⟩

end Code

theorem Expr.fits_code (x : Expr) {bottom : Bool} {next : Code} (later : next.Fits bottom) :
    (x.code next).Fits bottom := by
  induction x generalizing bottom next with
  | refer | constant | close => exact later
  | conditional test consequent alternative testIH consequentIH alternativeIH =>
    exact testIH ⟨consequentIH later, alternativeIH later⟩
  | define parameters value ih => exact ih later
  | assign target value ih => exact ih later
  | sequence first rest firstIH restIH => exact firstIH (restIH later)
  | capture receiver ih => exact .framed ⟨rfl, ih rfl⟩ later
  | combine operator operands ih => exact .framed (ih rfl) later

theorem Expr.fits_operandsCode (xs : List Expr) {bottom : Bool} {next : Code}
    (later : next.Fits bottom) : (Expr.operandsCode xs next).Fits bottom := by
  induction xs with
  | nil => exact later
  | cons x xs ih => exact x.fits_code ih

theorem Template.Compiled.fits {t : Template} (compiled : t.Compiled) : t.body.Fits false := by
  obtain ⟨x, _, body⟩ := Form.compileAll_eq_ok.mp compiled.2
  rw [body]
  exact x.fits_code rfl

namespace Stack

theorem Fits.haltsAtBottom : ∀ {stack : Stack}, stack.Fits → stack.HaltsAtBottom
  | .empty, _ => trivial
  | .push _ _, ⟨_, resume, rest⟩ => ⟨Code.canHalt_of_fits resume, rest.haltsAtBottom⟩

theorem Fits.neverJustReturns : ∀ {stack : Stack}, stack.Fits → stack.NeverJustReturns
  | .empty, _ => nofun
  | .push _ _, ⟨returns, _, rest⟩ => fun frame member => by
    rcases List.mem_cons.mp member with rfl | below
    · exact returns
    · exact rest.neverJustReturns frame below

end Stack

/-- Bodies come from their sources, and stacks are captured above a frame to return to. -/
def Discipline.order : Discipline where
  template := Template.Compiled
  stack stack := stack.isEmpty = false ∧ stack.Fits
  compiled _ compiled := compiled

namespace Evaluation

/-- The code fits the stack that it runs on, and the frames fit each other. -/
structure Orderly (e : Evaluation) : Prop where
  code : e.code.Fits e.stack.isEmpty
  stack : e.stack.Fits

theorem Combines.nonempty {e : Evaluation} (combines : e.Combines) (orderly : e.Orderly) :
    e.stack.isEmpty = false := by
  have code := orderly.code
  rcases combines with ⟨operands, here⟩ | here <;> rw [here] at code <;> exact code

theorem Orderly.moves {e next : Evaluation} (orderly : e.Orderly) (moves : e.Moves next)
    (entered : ∀ id static t, e.acc = .combiner (.operative id static t) → t.Compiled)
    (reinstated : ∀ stack, e.code = .call → e.acc = .combiner (.continuation stack) →
      stack.isEmpty = false ∧ stack.Fits) : next.Orderly := by
  obtain ⟨code, stack⟩ := orderly
  cases moves with
  | along link _ _ same => exact ⟨same ▸ code.link link, same ▸ stack⟩
  | pend here _ _ same =>
    rw [here] at code
    exact ⟨same ▸ code, same ▸ stack⟩
  | capture here _ _ _ same =>
    rw [here] at code
    exact ⟨same ▸ code.2, same ▸ stack⟩
  | push here _ _ pushed =>
    rw [here] at code
    exact ⟨pushed ▸ code.2.2, pushed ▸ ⟨code.1, code.2.1, stack⟩⟩
  | pop here top resumed =>
    rw [top] at stack
    exact ⟨resumed ▸ stack.2.1, stack.2.2⟩
  | enter combines acc body same =>
    refine ⟨?_, same ▸ stack⟩
    rw [body, same, combines.nonempty ⟨code, stack⟩]
    -- A combination has a frame behind it, and so has the body that takes its place.
    exact (entered _ _ _ acc).fits
  | unwrap combines acc operands _ _ same =>
    refine ⟨?_, same ▸ stack⟩
    rw [operands, same, combines.nonempty ⟨code, stack⟩]
    exact Expr.fits_operandsCode _ rfl
  | supply here acc operands _ _ same =>
    refine ⟨?_, same ▸ stack⟩
    rw [operands, same, Combines.nonempty (.inl ⟨_, here⟩) ⟨code, stack⟩]
    exact Expr.fits_operandsCode _ rfl
  | native combines acc returns same =>
    exact ⟨by rw [returns, same]; exact combines.nonempty ⟨code, stack⟩, same ▸ stack⟩
  | eval combines acc read body same =>
    refine ⟨?_, same ▸ stack⟩
    rw [body, same, combines.nonempty ⟨code, stack⟩]
    exact Expr.fits_code _ rfl
  | reinstate here acc returns same =>
    obtain ⟨nonempty, captured⟩ := reinstated _ here acc
    exact ⟨by rw [returns, same]; exact nonempty, same ▸ captured⟩

theorem Orderly.step {e next : Evaluation} (obeys : e.Obeys .order) (orderly : e.Orderly)
    (moves : e.Moves next) : next.Orderly := by
  have held := obeys.acc
  refine orderly.moves moves (fun id static t acc => ?_) fun stack _ acc => ?_
  · rw [acc] at held
    exact held.2.2.holds
  · rw [acc] at held
    exact held.1

theorem Orderly.stack_empty_of_halt {e : Evaluation} (orderly : e.Orderly)
    (here : e.code = .halt) : e.stack = .empty := by
  have code := orderly.code
  rw [here] at code
  cases stack : e.stack with
  | empty => rfl
  | push top rest =>
    rw [stack] at code
    cases code

theorem Orderly.stack_nonempty_of_ret {e : Evaluation} (orderly : e.Orderly)
    (here : e.code = .ret) : e.stack ≠ .empty := by
  intro empty
  have code := orderly.code
  rw [here, empty] at code
  cases code

end Evaluation

theorem Discipline.carries_order : Discipline.order.Carries Evaluation.Orderly where
  start _ x _ := ⟨x.fits_code rfl, trivial⟩
  step obeys orderly stepped := orderly.step obeys (Evaluation.moves_of_step stepped)
  capture _ orderly here := by
    have code := orderly.code
    rw [here] at code
    exact ⟨code.1, orderly.stack⟩

namespace Evaluation.Reachable

variable {e : Evaluation}

theorem obeys_order (reachable : e.Reachable) : e.Obeys .order ∧ e.Orderly :=
  reachable.obeys Discipline.carries_order
    ⟨fun _ _ => trivial, fun _ _ => trivial, fun _ _ => trivial⟩

theorem orderly (reachable : e.Reachable) : e.Orderly :=
  reachable.obeys_order.2

theorem stack_fits (reachable : e.Reachable) {stack : Stack}
    (has : stack = e.stack ∨ e.Captured stack) : stack.Fits := by
  obtain ⟨obeys, orderly⟩ := reachable.obeys_order
  rcases has with rfl | captured
  · exact orderly.stack
  · exact (captured _ obeys).2

theorem stack_empty_of_halt (reachable : e.Reachable) (here : e.code = .halt) :
    e.stack = .empty :=
  reachable.orderly.stack_empty_of_halt here

theorem stack_nonempty_of_ret (reachable : e.Reachable) (here : e.code = .ret) :
    e.stack ≠ .empty :=
  reachable.orderly.stack_nonempty_of_ret here

theorem control_discipline (reachable : e.Reachable) :
    (e.code = .halt → e.stack = .empty) ∧ (e.code = .ret → e.stack ≠ .empty) ∧
      (∀ value m, e.step = .finished value m → e.code = .halt ∧ e.stack = .empty) ∧
      ∀ stack, stack = e.stack ∨ e.Captured stack → stack.HaltsAtBottom := by
  refine ⟨reachable.stack_empty_of_halt, reachable.stack_nonempty_of_ret,
    fun value m finished => ?_, fun stack has => (reachable.stack_fits has).haltsAtBottom⟩
  rcases code_of_finished finished with halts | ⟨returns, empty⟩
  · exact ⟨halts, reachable.stack_empty_of_halt halts⟩
  · exact (reachable.stack_nonempty_of_ret returns empty).elim

/-- In `((call/cc wrap) wrap)` the continuation of the operator waits under one more frame than there
are where it is called. -/
theorem control_discipline_of_reentry : ∃ (calling returning halting : Evaluation) (k : Stack),
    calling.Reachable ∧ calling.code = .call ∧ calling.Captured k ∧ k.depth = 2 ∧
      k.HaltsAtBottom ∧ calling.stack.depth = 1 ∧ calling.stack.HaltsAtBottom ∧
      returning.Reachable ∧ returning.code = .ret ∧ returning.stack ≠ .empty ∧
      halting.Reachable ∧ (∃ value m, halting.step = .finished value m) ∧
      halting.stack = .empty := by
  let wrap : Form := .combiner (.native (.primitive .wrap))
  let operands : Form := .pair 0 wrap .nil
  let operator : Form := .pair 0 (.symbol "call/cc") operands
  let code : Code := .frame .halt (.frame (.apply operands) (.capture (.constant wrap .call)))
  have compiled : (Form.pair 0 operator operands).compile .halt = .ok code := rfl
  obtain ⟨m, kept, session, unlimited, _, numbered, bound⟩ := Session.Reachable.exists_machine
  have plain : (Form.pair 0 operator operands).Plain m := by
    intro D room
    have zero := room.object 0 numbered
    simp [operator, operands, wrap, Form.Obeys, Combiner.Obeys, zero]
  have start : (m.start code 0).Reachable := session.start plain compiled bound
  -- From here on every step computes, however the machine came about.
  clear plain session numbered bound
  obtain ⟨store, hosts, limit, stats, frames⟩ := m
  dsimp only at unlimited
  subst unlimited
  have wrapped := (((((start.step rfl).step rfl).step rfl).step rfl).step rfl).step rfl
  have calling := (((wrapped.step rfl).step rfl).step rfl).step rfl
  have returning := calling.step rfl
  have halting := ((returning.step rfl).step rfl).step rfl
  refine ⟨_, _, _, _, calling, rfl, captured_of_acc rfl, rfl, ?_, rfl, ?_, returning, rfl, ?_,
    halting, ⟨_, _, rfl⟩, ?_⟩
  · exact (control_discipline calling).2.2.2 _ (.inr (captured_of_acc rfl))
  · exact (control_discipline calling).2.2.2 _ (.inl rfl)
  · exact (control_discipline returning).2.1 rfl
  · exact ((control_discipline halting).2.2.1 _ _ rfl).2

end Evaluation.Reachable

end Vau
