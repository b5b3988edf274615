import Vau.Proofs.Limit
import Vau.Proofs.Session

/-! Whatever code binds, it binds to a parameter tree.

The trees are checked when a definition or a closure is compiled, and nothing makes code in another
way. A native of the embedding program may make values of its own, even continuations. It has its
closures from the machine. -/

set_option autoImplicit false

namespace Vau

namespace Form

def IsParameters : Form → Prop
  | symbol _ | ignore | nil => True
  | pair _ car cdr => car.IsParameters ∧ cdr.IsParameters
  | _ => False

theorem isParameters_of_after : ∀ {f : Form} {seen names : List String},
    f.parametersAfter seen = .ok names → f.IsParameters
  | .symbol _, _, _, _ | .ignore, _, _, _ | .nil, _, _, _ => trivial
  | .pair _ _ _, _, _, walked =>
    have ⟨_, first, rest⟩ := Except.bind_eq_ok.mp walked
    ⟨isParameters_of_after first, isParameters_of_after rest⟩
  | .int _, _, _, walked | .real _, _, _, walked | .bool _, _, _, walked | .inert, _, _, walked
  | .combiner _, _, _, walked | .environment _, _, _, walked => by cases walked

theorem isParameters_of_check {f : Form} (checked : f.checkParameters = .ok ()) :
    f.IsParameters := by
  obtain ⟨_, walked, _⟩ := Except.bind_eq_ok.mp checked
  exact isParameters_of_after walked

theorem isParameters_of_closure {formal parameters : Form}
    (checked : formal.checkClosure parameters = .ok ()) : parameters.IsParameters := by
  unfold checkClosure at checked
  split at checked
  case h_3 => cases checked
  all_goals
    obtain ⟨_, _, checked⟩ := Except.bind_eq_ok.mp checked
    obtain ⟨_, walked, _⟩ := Except.bind_eq_ok.mp checked
    exact isParameters_of_after walked

end Form

/-- Definitions on the way of the code, be it now or on resuming what it pushes, bind parameter
trees. -/
def Code.Checked : Code → Prop
  | .define parameters next => parameters.IsParameters ∧ next.Checked
  | .test consequent alternative => consequent.Checked ∧ alternative.Checked
  | .frame resume next => resume.Checked ∧ next.Checked
  | .refer _ next | .constant _ next | .close _ next | .assign _ next | .argument next
  | .capture next => next.Checked
  | .halt | .apply _ | .call | .ret => True

namespace Code

theorem Checked.framed {code next : Code} (here : code.Checked) (later : next.Checked) :
    (code.framed next).Checked := by
  unfold Code.framed
  split
  · exact here
  · exact ⟨later, here⟩

theorem Checked.link {code next : Code} (checked : code.Checked) (link : next ∈ code.links) :
    next.Checked := by
  cases code with
  | test consequent alternative =>
    rcases List.mem_cons.mp link with rfl | link
    · exact checked.1
    · exact List.mem_singleton.mp link ▸ checked.2
  | define parameters next => exact List.mem_singleton.mp link ▸ checked.2
  | frame | apply | argument | capture | halt | call | ret => cases link
  | _ => exact List.mem_singleton.mp link ▸ checked

end Code

mutual

theorem Form.Reads.checked : ∀ {f : Form} {x : Expr} {next : Code}, f.Reads x → next.Checked →
    (x.code next).Checked
  | _, _, _, .refer, later | _, _, _, .constant _ _, later | _, _, _, .quote _, later
  | _, _, _, .vau _ _ _ _ _, later | _, _, _, .lambda _ _ _ _ _, later => later
  | _, _, _, .consequent _ t c, later => t.checked ⟨c.checked later, later⟩
  | _, _, _, .conditional _ t c a, later => t.checked ⟨c.checked later, a.checked later⟩
  | _, _, _, .define _ checked v, later => v.checked ⟨Form.isParameters_of_check checked, later⟩
  | _, _, _, .assign _ v, later => v.checked later
  | _, _, _, .sequence _ _ b, later => b.checked later
  | _, _, _, .callCC _ r, later =>
    have receiver := r.checked (show Code.call.Checked from trivial)
    .framed receiver later
  | _, _, _, .combination _ h, later => .framed (h.checked trivial) later

theorem Form.ReadsAll.checked : ∀ {f : Form} {x : Expr} {next : Code}, f.ReadsAll x →
    next.Checked → (x.code next).Checked
  | _, _, _, .none _, later => later
  | _, _, _, .last _ x, later => x.checked later
  | _, _, _, .more x y, later => x.checked (y.checked later)

end

theorem Form.checked_of_exprs {f : Form} {xs : List Expr} (read : f.exprs = .ok xs) {next : Code}
    (later : next.Checked) : (Expr.operandsCode xs next).Checked := by
  induction f using Form.exprs.induct generalizing xs with
  | case1 id operand rest ih =>
    obtain ⟨ys, more, read⟩ := Except.bind_eq_ok.mp read
    obtain ⟨y, here, read⟩ := Except.bind_eq_ok.mp read
    cases read
    have rest : (Code.argument (Expr.operandsCode ys next)).Checked := ih more
    exact (Form.reads_of_expr here).checked rest
  | case2 f atom =>
    cases f with
    | pair id operand rest => exact (atom id operand rest rfl).elim
    | _ =>
      cases read
      exact later

theorem Template.Compiled.checked {t : Template} (compiled : t.Compiled) : t.body.Checked := by
  obtain ⟨x, read, body⟩ := Form.compileAll_eq_ok.mp compiled.2
  rw [body]
  exact read.checked trivial

def Stack.Checked : Stack → Prop
  | .empty => True
  | .push top rest => top.resume.Checked ∧ rest.Checked

/-- Closures bind parameter trees, and their bodies do. Nothing is asked of numbers. -/
def Discipline.checked : Discipline where
  template t := t.parameters.IsParameters ∧ t.body.Checked
  stack := Stack.Checked
  compiled _ compiled := ⟨Form.isParameters_of_closure compiled.1, compiled.checked⟩

theorem Discipline.room_checked (m : Machine) : Discipline.checked.Room m :=
  ⟨fun _ _ => trivial, fun _ _ => trivial, fun _ _ => trivial⟩

namespace Evaluation

variable {e last : Evaluation}

structure Checked (e : Evaluation) : Prop where
  obeys : e.Obeys .checked
  code : e.code.Checked
  stack : e.stack.Checked

theorem checked_of_evaluateOperands {operands : Form} {c : Combiner}
    (evaluating : e.evaluateOperands operands c = .running last) : last.code.Checked := by
  obtain ⟨compiled, _⟩ := compiled_of_evaluateOperands evaluating
  obtain ⟨_, xs, _, read, code⟩ := Form.compileArguments_eq_ok compiled
  rw [code]
  exact Form.checked_of_exprs read (show Code.call.Checked from trivial)

namespace Checked

theorem progress (checked : e.Checked) : e.step.Obeys .checked :=
  (checked.obeys.step fun _ _ => checked.stack).2 trivial ((Discipline.room_checked _).covers _)

theorem next {next : Evaluation} (checked : e.Checked) (stepped : e.step = .running next) :
    next.Checked := by
  have obeys := checked.progress
  rw [stepped] at obeys
  have acc := checked.obeys.acc
  obtain ⟨_, code, stack⟩ := checked
  have executed := executed_of_step stepped
  suffices next.code.Checked ∧ next.stack.Checked from ⟨obeys, this.1, this.2⟩
  cases moves_of_step stepped with
  | along link _ _ same => exact ⟨code.link link, same ▸ stack⟩
  | pend here _ _ same | capture here _ _ _ same =>
    rw [here] at code
    exact ⟨code, same ▸ stack⟩
  | push here _ _ same =>
    rw [here] at code
    exact ⟨code.2, same ▸ ⟨code.1, stack⟩⟩
  | pop _ top resume =>
    rw [top] at stack
    exact ⟨resume ▸ stack.1, stack.2⟩
  | enter _ held body same =>
    rw [held] at acc
    exact ⟨body ▸ acc.2.2.holds.2, same ▸ stack⟩
  | unwrap combines held _ _ _ same =>
    -- That the code was compiled from forms is known of the instruction, not of the move.
    refine ⟨?_, same ▸ stack⟩
    rcases combines with ⟨operands, here⟩ | here
    · rw [execute_apply (e := e.tick) here held] at executed
      exact checked_of_evaluateOperands executed
    · rw [execute_call (e := e.tick) here held] at executed
      exact checked_of_evaluateOperands executed
  | supply here held _ _ _ same =>
    rw [execute_apply (e := e.tick) here held] at executed
    exact ⟨checked_of_evaluateOperands executed, same ▸ stack⟩
  | native _ _ ret same => exact ⟨ret ▸ trivial, same ▸ stack⟩
  | eval _ _ read body same => exact ⟨body ▸ read.checked trivial, same ▸ stack⟩
  | reinstate _ held ret same =>
    rw [held] at acc
    exact ⟨ret ▸ trivial, same ▸ acc.1⟩

theorem executes {count : Nat} (checked : e.Checked) (executes : e.Executes count last) :
    last.Checked := by
  induction executes with
  | refl e => exact checked
  | head stepped _ ih => exact ih (checked.next stepped)

end Checked

end Evaluation

namespace Machine

variable {m : Machine} {form : Form} {scope : ScopeId} {outcome : Except Error Form × Machine}

theorem Obeys.start (obeys : m.Obeys .checked) (known : form.Obeys .checked) {code : Code}
    (compiled : form.compile .halt = .ok code) : (m.start code scope).Checked := by
  obtain ⟨x, read, rfl⟩ := Form.compile_eq_ok.mp compiled
  exact ⟨Discipline.Carries.start_obeys obeys known compiled trivial, read.checked trivial, trivial⟩

theorem Obeys.takes {count : Nat} (obeys : m.Obeys .checked) (known : form.Obeys .checked)
    (takes : m.Takes form scope count outcome) :
    (∀ v, outcome.1 = .ok v → v.Obeys .checked) ∧ outcome.2.Obeys .checked := by
  cases takes with
  | refused => exact ⟨nofun, obeys⟩
  | @ended code count last _ compiled executes ended =>
    have left := ((obeys.start known compiled).executes executes).progress
    cases stepped : last.step <;> rw [stepped] at left ended <;> cases ended
    · refine ⟨fun v same => ?_, left.2⟩
      cases same
      exact left.1
    · exact ⟨nofun, left⟩

end Machine

/-- Sessions with natives of any kind that has its closures from the machine, and with forms of the
program's own. Other than in `Reachable`, there can be continuations that were never captured. -/
inductive Session.Arises : Session → Prop
  | new : Arises ⟨Machine.bare, []⟩
  | next {s s' : Session} : Arises s → s.Next s' → Arises s'
  | register {s : Session} (e : ScopeId) {host : HostNative} : Arises s → host.Keeps .checked →
    host.memory.Obeys .checked → Arises { s with machine := s.machine.register e host }
  | keep {s : Session} {f : Form} : Arises s → f.Obeys .checked →
    Arises { s with kept := f :: s.kept }

theorem Session.Arises.checked {s : Session} (arises : s.Arises) : s.Obeys .checked := by
  have room := Discipline.room_checked
  induction arises with
  | new => exact .new (Machine.obeys_bare (room _)) (room _)
  | next _ next ih =>
    refine ih.next_of next (room _) fun known _ ran same => ?_
    obtain ⟨count, _, takes⟩ := Machine.evalIn_eq_some.mp ran
    exact ih.machine.takes (known _ ih) takes
  | register e _ keeps known ih => exact ih.register e keeps known (room _)
  | keep _ known ih => exact ih.keep known

end Vau
