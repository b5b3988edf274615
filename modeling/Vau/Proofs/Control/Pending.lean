import Vau.Proofs.Control.Tail
import Vau.Proofs.Session.History

/-! Pending arguments are those of the operand list that is being evaluated.

Evaluating an operand list takes one value after another, with any number of other evaluations in
between, and may be taken up again wherever a frame of it is returned to. What is pending at each
of its instructions are the values so far. -/

set_option autoImplicit false

namespace Vau

/-! Code that takes values. -/

/-- Code leads, along its links and past so many arguments, to an instruction that takes a value or
calls. Capturing a continuation drops what is pending, so no way leads past it. -/
inductive Code.Leads : Code → Nat → Code → Prop
  | call : Leads .call 0 .call
  | argument {next : Code} : Leads (.argument next) 0 (.argument next)
  | along {code next target : Code} {n : Nat} : next ∈ code.links → Leads next n target →
    Leads code n target
  | resume {resume next target : Code} {n : Nat} : Leads resume n target →
    Leads (.frame resume next) n target
  | pushed {resume next target : Code} {n : Nat} : Leads next n target →
    Leads (.frame resume next) n target
  | behind {next target : Code} {n : Nat} : Leads next n target →
    Leads (.argument next) (n + 1) target

/-- Code whose value is taken at this point. Where there is none, nothing pending is looked at. -/
def Code.Within (point : Option Code) : Code → Prop
  | .halt | .apply _ | .ret => point = none
  | .call => point = some .call
  | .argument next => point = some (.argument next)
  | .capture next => point = none ∧ next.Within (some .call)
  | .test consequent alternative => consequent.Within point ∧ alternative.Within point
  | .frame resume next => resume.Within point ∧ next.Within none
  | .refer _ next | .constant _ next | .close _ next | .define _ next | .assign _ next =>
    next.Within point

namespace Code

variable {point : Option Code} {code next target : Code} {n : Nat}

theorem Within.link (within : code.Within point) (link : next ∈ code.links) :
    next.Within point := by
  cases code with
  | test consequent alternative =>
    rcases List.mem_cons.mp link with rfl | link
    · exact within.1
    · exact List.mem_singleton.mp link ▸ within.2
  | frame | apply | argument | capture | halt | call | ret => cases link
  | _ => exact List.mem_singleton.mp link ▸ within

theorem Within.framed (here : code.Within none) (later : next.Within point) :
    (code.framed next).Within point := by
  unfold Code.framed
  split
  · -- In front of a return no frame is pushed, and a return takes nothing.
    rename_i returns
    cases next <;> cases returns
    have none : point = none := later
    rwa [none]
  · exact ⟨later, here⟩

theorem Within.not_leads (within : code.Within none) : ¬ code.Leads n target := by
  intro leads
  induction leads with
  | call | argument | behind => cases within
  | along link _ ih => exact ih (within.link link)
  | resume _ ih => exact ih within.1
  | pushed _ ih => exact ih within.2

end Code

theorem Expr.within_code (x : Expr) {point : Option Code} {next : Code}
    (later : next.Within point) : (x.code next).Within point := by
  induction x generalizing point next with
  | refer | constant | close => exact later
  | conditional test consequent alternative testIH consequentIH alternativeIH =>
    exact testIH ⟨consequentIH later, alternativeIH later⟩
  | define parameters value ih => exact ih later
  | assign target value ih => exact ih later
  | sequence first rest firstIH restIH => exact firstIH (restIH later)
  | capture receiver ih => exact Code.Within.framed ⟨rfl, ih rfl⟩ later
  | combine operator operands ih =>
    have apply : (Code.apply operands).Within none := rfl
    exact Code.Within.framed (ih apply) later

theorem Template.Compiled.within {t : Template} (compiled : t.Compiled) : t.body.Within none := by
  obtain ⟨x, _, body⟩ := Form.compileAll_eq_ok.mp compiled.2
  have ret : Code.ret.Within none := rfl
  rw [body]
  exact x.within_code ret

/-! Operand lists under way. -/

namespace Form

def rest : Form → Form
  | pair _ _ cdr => cdr
  | f => f

def skip (f : Form) : Nat → Form
  | 0 => f
  | n + 1 => (f.skip n).rest

theorem items_skip (n : Nat) (f : Form) : (f.skip n).items = f.items.drop n := by
  induction n with
  | zero => rfl
  | succ n ih =>
    have dropped : f.items.drop (n + 1) = (f.items.drop n).drop 1 := by simp
    rw [skip, dropped, ← ih]
    cases f.skip n <;> rfl

theorem list?_chain (items : List Form) (fresh : Identity) :
    (chain items .nil fresh).1.list? = some items := by
  induction items with
  | nil => rfl
  | cons head rest ih => exact list?_pair ih

end Form

/-- What arguments are pending for. -/
inductive Gathering where
  | operands (list : Form)
  /-- The receiver of a continuation. -/
  | receiver (stack : Stack)

namespace Gathering

/-- The instruction that takes a value, or calls, once so many values are pending. The code behind
it was compiled from the operands that are left. -/
inductive Awaits : Gathering → Nat → Code → Prop
  | operand {list : Form} {n : Nat} {c : Combiner} {next : Code} : n < list.items.length →
    (list.skip (n + 1)).compileOperands (.constant (.combiner c) .call) = .ok next →
    Awaits (operands list) n (.argument next)
  | operands {list : Form} : Awaits (operands list) list.items.length .call
  | receiver {stack : Stack} : Awaits (receiver stack) 1 .call

/-- The values to call with: one for each operand, or the continuation. -/
def Complete (values : List Form) : Gathering → Prop
  | operands list => values.length = list.items.length
  | receiver stack => values = [.combiner (.continuation stack)]

variable {g : Gathering} {list : Form} {c : Combiner} {code next : Code} {n : Nat}

theorem awaits_compiled (small : n ≤ list.items.length)
    (compiled : (list.skip n).compileOperands (.constant (.combiner c) .call) = .ok code) :
    ∃ point, (operands list).Awaits n point ∧ code.Within (some point) := by
  have left := Form.items_skip n list
  cases first : list.skip n with
  | pair id operand rest =>
    rw [first] at compiled left
    have below : n < list.items.length := by
      apply Nat.lt_of_not_le
      intro beyond
      rw [List.drop_eq_nil_of_le beyond] at left
      cases left
    obtain ⟨next, later, compiled⟩ := Except.bind_eq_ok.mp compiled
    obtain ⟨x, _, rfl⟩ := Form.compile_eq_ok.mp compiled
    have remaining : list.skip (n + 1) = rest := by rw [Form.skip, first, Form.rest]
    have point : (Code.argument next).Within (some (.argument next)) := rfl
    exact ⟨_, .operand below (remaining ▸ later), x.within_code point⟩
  | _ =>
    -- No operand is left, and the combiner is called.
    rw [first] at compiled left
    have none := List.drop_eq_nil_iff.mp left.symm
    have all : n = list.items.length := by omega
    cases compiled
    rw [all]
    exact ⟨_, .operands, rfl⟩

theorem Awaits.behind (awaits : g.Awaits n (.argument next)) :
    ∃ point, g.Awaits (n + 1) point ∧ next.Within (some point) := by
  cases awaits with
  | operand below compiled => exact awaits_compiled below compiled

theorem Awaits.leads {point target : Code} {k : Nat} (awaits : g.Awaits n point)
    (within : code.Within (some point)) (leads : code.Leads k target) :
    g.Awaits (n + k) target := by
  induction leads generalizing n point with
  | call =>
    have same : some point = some .call := within
    cases same
    exact awaits
  | argument =>
    have same : some point = some (.argument _) := within
    cases same
    exact awaits
  | along link _ ih => exact ih awaits (within.link link)
  | resume _ ih => exact ih awaits within.1
  | pushed leads _ =>
    -- What runs on top of the frame returns before it takes anything.
    exact (Code.Within.not_leads within.2 leads).elim
  | @behind next target k _ ih =>
    have same : some point = some (.argument next) := within
    cases same
    obtain ⟨point, awaits, within⟩ := awaits.behind
    have later := ih awaits within
    have moved : n + 1 + k = n + (k + 1) := by omega
    rwa [moved] at later

end Gathering

namespace Evaluation

variable {e next : Evaluation}

def Supplies (e : Evaluation) (operands : Form) : Prop :=
  (e.code = .apply operands ∧ ((∃ id inner, e.acc = .combiner (.applicative id inner)) ∨
    ∃ stack, e.acc = .combiner (.continuation stack))) ∨
  (e.code = .call ∧ operands = e.arguments ∧ ∃ id inner, e.acc = .combiner (.applicative id inner))

/-- The state belongs to a gathering, which has these values so far. A frame that was pushed in it
belongs to it too, whoever returns there, and however often. -/
inductive Gathers : Gathering → List Form → Evaluation → Prop
  | operands {e next : Evaluation} {list : Form} : e.Reachable → e.Supplies list →
    e.step = .running next → Gathers (.operands list) [] next
  | receiver {e next : Evaluation} {code : Code} : e.Reachable → e.code = .capture code →
    e.step = .running next → Gathers (.receiver e.stack) [.combiner (.continuation e.stack)] next
  | along {g : Gathering} {values : List Form} {e next : Evaluation} : Gathers g values e →
    next.code ∈ e.code.links → e.step = .running next → Gathers g values next
  | argument {g : Gathering} {values : List Form} {e next : Evaluation} {code : Code} :
    Gathers g values e → e.code = .argument code → e.step = .running next →
    Gathers g (values ++ [e.acc]) next
  | resume {g : Gathering} {values : List Form} {e later next : Evaluation} {frame : Frame} :
    Gathers g values e → e.Pushes frame → e.Before later → later.code = .ret →
    later.stack = .push frame next.stack → later.step = .running next → Gathers g values next

/-! What the instructions of a gathering do. -/

theorem Supplies.compiled {operands : Form} (supplies : e.Supplies operands)
    (stepped : e.step = .running next) :
    (∃ c, operands.compileOperands (.constant (.combiner c) .call) = .ok next.code) ∧
      next.pending = .nil := by
  have executed := executed_of_step stepped
  have evaluated : ∃ (at' : Evaluation) (c : Combiner),
      at'.evaluateOperands operands c = .running next := by
    rcases supplies with ⟨here, ⟨id, inner, acc⟩ | ⟨stack, acc⟩⟩ | ⟨here, rfl, id, inner, acc⟩
    · rw [execute_apply (e := e.tick) here acc] at executed
      exact ⟨_, _, executed⟩
    · rw [execute_apply (e := e.tick) here acc] at executed
      exact ⟨_, _, executed⟩
    · rw [execute_call (e := e.tick) here acc] at executed
      exact ⟨_, _, executed⟩
  obtain ⟨_, c, evaluating⟩ := evaluated
  obtain ⟨compiled, pending⟩ := compiled_of_evaluateOperands evaluating
  obtain ⟨_, _, compiled⟩ := Except.bind_eq_ok.mp compiled
  exact ⟨⟨c, compiled⟩, pending⟩

theorem pending_of_link (link : next.code ∈ e.code.links) (stepped : e.step = .running next) :
    next.pending = e.pending := by
  have linked {code : Code} (here : e.code = code) : next.code ∈ code.links := here ▸ link
  cases moves_of_step stepped with
  | along _ _ same | push _ _ same => exact same
  | pend here | capture here | pop here | supply here | reinstate here => cases linked here
  | enter combines | unwrap combines | native combines | eval combines =>
    rcases combines with ⟨_, here⟩ | here <;> cases linked here

theorem pending_of_argument {code : Code} (here : e.code = .argument code)
    (stepped : e.step = .running next) :
    next.code = code ∧ next.pending = .pair e.store.fresh e.acc e.pending := by
  have executed := executed_of_step stepped
  rw [execute_argument (e := e.tick) here] at executed
  cases executed
  exact ⟨rfl, rfl⟩

theorem pending_of_capture {code : Code} (here : e.code = .capture code)
    (stepped : e.step = .running next) : next.code = code ∧
      next.pending = .pair e.store.fresh (.combiner (.continuation e.stack)) .nil := by
  have executed := executed_of_step stepped
  rw [execute_capture (e := e.tick) here] at executed
  cases executed
  exact ⟨rfl, rfl⟩

theorem pending_of_ret {frame : Frame} (here : e.code = .ret)
    (top : e.stack = .push frame next.stack) (stepped : e.step = .running next) :
    next.code = frame.resume ∧ next.pending = frame.pending := by
  have executed := executed_of_step stepped
  rw [execute_ret (e := e.tick) here top] at executed
  have same := Progress.running.inj executed
  rw [← same]
  exact ⟨rfl, rfl⟩

structure Holds (g : Gathering) (values : List Form) (e : Evaluation) : Prop where
  reachable : e.Reachable
  pending : e.pending.list? = some values.reverse
  position : ∃ point, g.Awaits values.length point ∧ e.code.Within (some point)
  receiver : ∀ stack, g = .receiver stack → ∃ more, values = .combiner (.continuation stack) :: more

namespace Holds

variable {g : Gathering} {values : List Form}

theorem operands {list : Form} (reachable : e.Reachable) (supplies : e.Supplies list)
    (stepped : e.step = .running next) : Holds (.operands list) [] next := by
  obtain ⟨⟨c, compiled⟩, pending⟩ := supplies.compiled stepped
  have position := Gathering.awaits_compiled (Nat.zero_le _) compiled
  refine ⟨reachable.step stepped, ?_, position, nofun⟩
  rw [pending]
  rfl

theorem receiver_of_capture {code : Code} {point : Option Code} (reachable : e.Reachable)
    (within : e.code.Within point) (here : e.code = .capture code)
    (stepped : e.step = .running next) :
    Holds (.receiver e.stack) [.combiner (.continuation e.stack)] next := by
  obtain ⟨same, pending⟩ := pending_of_capture here stepped
  rw [here] at within
  refine ⟨reachable.step stepped, ?_, ⟨.call, .receiver, same ▸ within.2⟩, ?_⟩
  · rw [pending]
    rfl
  · rintro stack ⟨⟩
    exact ⟨[], rfl⟩

theorem along (holds : Holds g values e) (link : next.code ∈ e.code.links)
    (stepped : e.step = .running next) : Holds g values next := by
  obtain ⟨point, awaits, within⟩ := holds.position
  refine ⟨holds.reachable.step stepped, ?_, ⟨point, awaits, within.link link⟩, holds.receiver⟩
  rw [pending_of_link link stepped]
  exact holds.pending

theorem argument {code : Code} (holds : Holds g values e) (here : e.code = .argument code)
    (stepped : e.step = .running next) : Holds g (values ++ [e.acc]) next := by
  obtain ⟨point, awaits, within⟩ := holds.position
  obtain ⟨same, pended⟩ := pending_of_argument here stepped
  rw [here, ← same] at within
  cases (show some point = some (.argument next.code) from within)
  refine ⟨holds.reachable.step stepped, ?_, ?_, ?_⟩
  · rw [pended, List.reverse_append]
    exact Form.list?_pair holds.pending
  · rw [List.length_append]
    exact awaits.behind
  · intro stack receives
    obtain ⟨more, rfl⟩ := holds.receiver stack receives
    exact ⟨more ++ [e.acc], rfl⟩

/-- A frame keeps what was pending, and hands it back. -/
theorem resume {later : Evaluation} {frame : Frame} (holds : Holds g values e)
    (pushes : e.Pushes frame) (reachable : later.Reachable) (here : later.code = .ret)
    (top : later.stack = .push frame next.stack) (stepped : later.step = .running next) :
    Holds g values next := by
  obtain ⟨point, awaits, within⟩ := holds.position
  obtain ⟨code, restored⟩ := pending_of_ret here top stepped
  obtain ⟨⟨pushed, frame⟩, saved⟩ := pushes
  rw [frame] at within
  refine ⟨reachable.step stepped, ?_, ⟨point, awaits, code ▸ within.1⟩, holds.receiver⟩
  rw [restored, saved]
  exact holds.pending

end Holds

def Accounted (e : Evaluation) : Prop :=
  e.code.Within none ∨ ∃ g values, Gathers g values e ∧ Holds g values e

theorem Accounted.within (accounted : e.Accounted) : ∃ point, e.code.Within point := by
  rcases accounted with within | ⟨g, values, _, holds⟩
  · exact ⟨none, within⟩
  · obtain ⟨point, _, within⟩ := holds.position
    exact ⟨some point, within⟩

theorem Accounted.step (reachable : e.Reachable) (accounted : e.Accounted)
    (stepped : e.step = .running next) (origin : ∀ {frame : Frame},
      e.stack = .push frame next.stack → ∃ earlier : Evaluation,
        earlier.Before e ∧ earlier.Pushes frame ∧ earlier.Accounted) : next.Accounted := by
  cases moves_of_step stepped with
  | along link =>
    rcases accounted with within | ⟨g, values, gathers, holds⟩
    · exact .inl (within.link link)
    · exact .inr ⟨g, values, gathers.along link stepped, holds.along link stepped⟩
  | pend here =>
    rcases accounted with within | ⟨g, values, gathers, holds⟩
    · -- Code that takes a value has a point where it does.
      rw [here] at within
      cases within
    · exact .inr ⟨g, _, gathers.argument here stepped, holds.argument here stepped⟩
  | capture here =>
    obtain ⟨point, within⟩ := accounted.within
    exact .inr ⟨_, _, .receiver reachable here stepped,
      .receiver_of_capture reachable within here stepped⟩
  | push here =>
    obtain ⟨point, within⟩ := accounted.within
    rw [here] at within
    exact .inl within.2
  | pop here top resumed =>
    -- What the state that pushed the frame was gathering goes on, if it was gathering at all.
    obtain ⟨earlier, before, pushes, accounted⟩ := origin top
    rcases accounted with within | ⟨g, values, gathers, holds⟩
    · obtain ⟨⟨pushed, frame⟩, _⟩ := pushes
      rw [frame] at within
      exact .inl (resumed ▸ within.1)
    · exact .inr ⟨g, values, gathers.resume pushes before here top stepped,
        holds.resume pushes before.reachable_later here top stepped⟩
  | enter _ acc body =>
    have closure := reachable.sourced.acc
    rw [acc] at closure
    exact .inl (body ▸ (Template.Obeys.holds closure.2.2).within)
  | unwrap combines acc =>
    -- The operands are in the code, or were evaluated once already.
    have supplies : ∃ list, e.Supplies list := by
      rcases combines with ⟨operands, here⟩ | here
      · exact ⟨operands, .inl ⟨here, .inl ⟨_, _, acc⟩⟩⟩
      · exact ⟨e.arguments, .inr ⟨here, rfl, _, _, acc⟩⟩
    obtain ⟨list, supplies⟩ := supplies
    exact .inr ⟨_, _, .operands reachable supplies stepped, .operands reachable supplies stepped⟩
  | @supply operands stack _ here acc =>
    have supplies : e.Supplies operands := .inl ⟨here, .inr ⟨stack, acc⟩⟩
    exact .inr ⟨_, _, .operands reachable supplies stepped, .operands reachable supplies stepped⟩
  | native _ _ returns | reinstate _ _ returns => exact .inl (returns ▸ rfl)
  | @eval form x _ _ _ body =>
    have ret : Code.ret.Within none := rfl
    exact .inl (body ▸ x.within_code ret)

theorem Reachable.accounted (reachable : e.Reachable) : e.Accounted := by
  -- A frame may come from an earlier evaluation, so no single evaluation is enough here.
  refine Reachable.induct ?_ (fun reachable here stepped => here.step reachable stepped) reachable
  intro m x scope
  have halt : Code.halt.Within none := rfl
  exact .inl (x.within_code halt)

theorem Gathers.holds {g : Gathering} {values : List Form} (gathers : Gathers g values e) :
    Holds g values e := by
  induction gathers with
  | operands reachable supplies stepped => exact .operands reachable supplies stepped
  | receiver reachable here stepped =>
    obtain ⟨point, within⟩ := reachable.accounted.within
    exact .receiver_of_capture reachable within here stepped
  | along _ link stepped holds => exact holds.along link stepped
  | argument _ here stepped holds => exact holds.argument here stepped
  | resume _ pushes before here top stepped holds =>
    exact holds.resume pushes before.reachable_later here top stepped

theorem Holds.complete {g : Gathering} {values : List Form} (holds : Holds g values e)
    (here : e.code = .call) : g.Complete values := by
  obtain ⟨point, awaits, within⟩ := holds.position
  rw [here] at within
  have same : some point = some .call := within
  cases same
  cases g with
  | operands list =>
    have counted : ∀ n, (Gathering.operands list).Awaits n .call → n = list.items.length := by
      rintro _ ⟨⟩
      rfl
    exact counted _ awaits
  | receiver stack =>
    have counted : ∀ n, (Gathering.receiver stack).Awaits n .call → n = 1 := by
      rintro _ ⟨⟩
      rfl
    have single := counted _ awaits
    obtain ⟨more, rfl⟩ := holds.receiver stack rfl
    cases more with
    | nil => rfl
    | cons second rest =>
      rw [List.length_cons, List.length_cons] at single
      omega

theorem Holds.arguments {g : Gathering} {values : List Form} (holds : Holds g values e) :
    e.arguments.list? = some values := by
  unfold Evaluation.arguments
  rw [Form.list?_chain, Form.items_of_list? holds.pending, List.reverse_reverse]

/-- Whenever values are called with, they are those of the operand list that was evaluated, one for
each operand and in their order, or the captured continuation. A frame that is returned to in the
middle of an operand list holds the values that were there when it was pushed, as many as the code
counts on. -/
theorem Reachable.pending_arguments (reachable : e.Reachable) :
    (e.code = .call → ∃ g values, Gathers g values e) ∧
    (∀ g values, Gathers g values e → e.pending.list? = some values.reverse ∧
      (e.code = .call → g.Complete values ∧ e.arguments.list? = some values) ∧
      ∀ n target, e.code.Leads n target → g.Awaits (values.length + n) target) ∧
    ∀ stack, (stack = e.stack ∨ e.Captured stack) → ∀ frame ∈ stack.frames,
      (∃ n target, frame.resume.Leads n target) → ∃ earlier : Evaluation, earlier.Before e ∧
        earlier.Pushes frame ∧ (∃ g values, Gathers g values earlier) ∧
        ∀ g values, Gathers g values earlier → frame.pending.list? = some values.reverse ∧
          ∀ n target, frame.resume.Leads n target → g.Awaits (values.length + n) target := by
  refine ⟨?_, ?_, ?_⟩
  · intro here
    rcases reachable.accounted with within | ⟨g, values, gathers, _⟩
    · rw [here] at within
      cases within
    · exact ⟨g, values, gathers⟩
  · intro g values gathers
    have holds := gathers.holds
    obtain ⟨point, awaits, within⟩ := holds.position
    exact ⟨holds.pending, fun here => ⟨holds.complete here, holds.arguments⟩,
      fun n target leads => awaits.leads within leads⟩
  · rintro stack has frame member ⟨n, target, leads⟩
    obtain ⟨earlier, before, pushes⟩ := reachable.origin has member
    obtain ⟨⟨pushed, here⟩, saved⟩ := id pushes
    refine ⟨earlier, before, pushes, ?_, ?_⟩
    · -- Outside of any gathering a frame resumes code that leads nowhere.
      rcases before.reachable.accounted with within | ⟨g, values, gathers, _⟩
      · rw [here] at within
        exact (within.1.not_leads leads).elim
      · exact ⟨g, values, gathers⟩
    · intro g values gathers
      have holds := gathers.holds
      obtain ⟨point, awaits, within⟩ := holds.position
      rw [here] at within
      constructor
      · rw [saved]
        exact holds.pending
      · intro n target leads
        exact awaits.leads within.1 leads

/-! A closure that is applied to two operands. -/

theorem step_constant (unlimited : e.limit = none) {value : Form} {code : Code}
    (here : e.code = .constant value code) : ∃ next, e.step = .running next ∧ next.limit = none ∧
      next.code = code ∧ next.acc = value := by
  rw [step_of_unlimited unlimited, execute_constant (e := e.tick) here]
  exact ⟨_, rfl, unlimited, rfl, rfl⟩

theorem step_argument (unlimited : e.limit = none) {code : Code} (here : e.code = .argument code) :
    ∃ next, e.step = .running next ∧ next.limit = none ∧ next.code = code := by
  rw [step_of_unlimited unlimited, execute_argument (e := e.tick) here]
  exact ⟨_, rfl, unlimited, rfl⟩

theorem step_supplies (unlimited : e.limit = none) {operands : Form} {id : Identity}
    {inner : Combiner} {code : Code} (here : e.code = .apply operands)
    (acc : e.acc = .combiner (.applicative id inner))
    (compiled : operands.compileArguments inner = .ok code) :
    ∃ next, e.step = .running next ∧ next.limit = none ∧ next.code = code := by
  rw [step_of_unlimited unlimited, execute_apply (e := e.tick) here acc]
  change ∃ next, e.tick.evaluateOperands operands inner = _ ∧ _
  unfold evaluateOperands
  rw [compiled]
  exact ⟨_, rfl, unlimited, rfl⟩

/-- The pending arguments of `(($lambda () #t) 7 8)` in front of its call. -/
theorem Reachable.pending_arguments_of_two : ∃ (e : Evaluation) (list : Form),
    e.code = .call ∧ list.items = [.int 7, .int 8] ∧
      Gathers (.operands list) [.int 7, .int 8] e ∧
      e.arguments.list? = some [.int 7, .int 8] := by
  let operands : Form := .pair 0 (.int 7) (.pair 0 (.int 8) .nil)
  let source : Form := .pair 0 (.bool true) .nil
  let body : Code := .constant (.bool true) .ret
  let form : Form := .pair 0 (.pair 0 (.symbol "$lambda") (.pair 0 .nil source)) operands
  let whole : Code := .frame .halt (.close ⟨.nil, .ignore, source, body, true⟩ (.apply operands))
  obtain ⟨m, kept, session, unlimited, _, numbered, bound⟩ := Session.Reachable.exists_machine
  have compiled : form.compile .halt = .ok whole := rfl
  have plain : form.Plain m := by
    intro D room
    have zero := room.object 0 numbered
    simp [form, source, operands, Form.Obeys, zero]
  have start : (m.start whole 0).Reachable := session.start plain compiled bound
  obtain ⟨e₁, pushed, limit₁, code₁, _⟩ := step_frame (e := m.start whole 0) unlimited rfl
  have code : e₁.tick.code = _ := code₁
  obtain ⟨e₂, closed, limit₂, code₂, acc₂⟩ : ∃ e₂, e₁.step = .running e₂ ∧ e₂.limit = none ∧
      e₂.code = .apply operands ∧ ∃ id inner, e₂.acc = .combiner (.applicative id inner) := by
    rw [step_of_unlimited limit₁, execute, code]
    exact ⟨_, rfl, limit₁, rfl, _, _, rfl⟩
  obtain ⟨id, inner, acc₂⟩ := acc₂
  have reachable₂ := (start.step pushed).step closed
  obtain ⟨e₃, supplied, limit₃, code₃⟩ := step_supplies limit₂ code₂ acc₂ rfl
  obtain ⟨e₄, seven, limit₄, code₄, acc₄⟩ := step_constant limit₃ code₃
  obtain ⟨e₅, first, limit₅, code₅⟩ := step_argument limit₄ code₄
  obtain ⟨e₆, eight, limit₆, code₆, acc₆⟩ := step_constant limit₅ code₅
  obtain ⟨e₇, second, limit₇, code₇⟩ := step_argument limit₆ code₆
  obtain ⟨e₈, called, limit₈, code₈, _⟩ := step_constant limit₇ code₇
  have reachable := (((((reachable₂.step supplied).step seven).step first).step eight).step
    second).step called
  have gathers₃ := Gathers.operands reachable₂ (.inl ⟨code₂, .inl ⟨id, inner, acc₂⟩⟩) supplied
  have gathers₅ := (gathers₃.along (by simp [code₃, code₄, Code.links]) seven).argument code₄ first
  have gathers₇ := (gathers₅.along (by simp [code₅, code₆, Code.links]) eight).argument code₆ second
  have gathers₈ := gathers₇.along (by simp [code₇, code₈, Code.links]) called
  rw [acc₄, acc₆] at gathers₈
  exact ⟨e₈, operands, code₈, rfl, gathers₈,
    ((reachable.pending_arguments.2.1 _ _ gathers₈).2.1 code₈).2⟩

end Evaluation

end Vau
