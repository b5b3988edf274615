import Vau.Proofs.Evaluator.Agreement

/-! What a continuation is, and what it does to invoke one.

It goes on where the capture was in front of the code that is next, with what the frame saved. Of
the state that invokes it nothing gets through but the value. -/

set_option autoImplicit false

namespace Vau

structure Machine.Untouched (m later : Machine) : Prop where
  scopes : later.store.scopes = m.store.scopes
  output : later.store.output = m.store.output
  hosts : later.hosts = m.hosts

/-- The machine gets there, unless the step limit is met before. -/
def Evaluation.Reaches (e : Evaluation) (goal : Progress → Prop) : Prop :=
  (Progress.running e).Leads (fun _ => True) goal

def Progress.Continues (there : Resumption) (value : Form) (m : Machine) (p : Progress) : Prop :=
  ∃ e : Evaluation, p = .running e ∧ there.Receives value e ∧ m.Untouched e.toMachine

def Progress.Rejects (error : Error) (m : Machine) (p : Progress) : Prop :=
  ∃ later : Machine, p = .failed error later ∧ m.Untouched later

def Form.passed? : List Form → Option Form
  | [] => some .inert
  | [value] => some value
  | _ => none

namespace Evaluation

def continuation (e : Evaluation) (next : Code) : Stack :=
  if next.isReturn then e.stack else e.stack.extend e.frames next e.scope e.pending

structure Captures (e : Evaluation) (k : Stack) (receiver : Code) : Prop where
  code : e.code = receiver
  acc : e.acc = .combiner (.continuation k)
  pending : e.pending.items = [e.acc]
  stack : e.stack = k

/-- About to combine a continuation with operands, be it wrapped or not. -/
structure Applies (e : Evaluation) (k : Stack) (operands : Form) : Prop where
  code : e.code = .apply operands
  acc : e.acc = .combiner (.continuation k) ∨
    ∃ id, e.acc = .combiner (.applicative id (.continuation k))

structure Resumes (e : Evaluation) (k : Stack) (values : List Form) : Prop where
  code : e.code = .call
  acc : e.acc = .combiner (.continuation k)
  values : e.pending.items.reverse = values

/-- The values of all operands are there, and nothing else has been done but what that took. -/
structure Calls (e : Evaluation) (c : Combiner) (values : List Form) (w : World)
    (there : Evaluation) : Prop where
  code : there.code = .call
  acc : there.acc = .combiner c
  values : there.pending.items.reverse = values
  scope : there.scope = e.scope
  stack : there.stack = e.stack
  world : there.world = w
  obeys : there.Obeys .sourced

variable {e : Evaluation} {k : Stack} {next : Code} {values : List Form}

theorem Reaches.one {goal : Progress → Prop} (met : ¬ e.Exhausted → goal e.tick.execute) :
    e.Reaches goal := by
  by_cases exhausted : e.Exhausted
  · exact .limited trivial exhausted
  · refine .step trivial exhausted (.here ?_)
    rw [step_of_not_exhausted exhausted]
    exact met exhausted

theorem Reaches.after {goal : Progress → Prop} {later : Evaluation}
    (executed : e.tick.execute = .running later) (reaches : later.Reaches goal) :
    e.Reaches goal := by
  by_cases exhausted : e.Exhausted
  · exact .limited trivial exhausted
  · refine .step trivial exhausted ?_
    rwa [step_of_not_exhausted exhausted, executed]

theorem reaches_capture {head receiver : Form} {i j : Identity} {name : String}
    (special : SpecialForm.ofHead? head = some (.callCC, name))
    (compiled : (Form.pair i head (.pair j receiver .nil)).compile next = .ok e.code) :
    ∃ body, receiver.compile .call = .ok body ∧ e.Reaches fun p => ∃ there, p = .running there ∧
      there.Captures (e.continuation next) body ∧ there.scope = e.scope ∧
      e.toMachine.Untouched there.toMachine := by
  rw [Form.compile, special] at compiled
  obtain ⟨body, receives, framed⟩ := Except.bind_eq_ok.mp compiled
  refine ⟨body, receives, ?_⟩
  have here : (Code.capture body).framed next = e.code := Except.ok.inj framed
  have capturing {e : Evaluation} (here : e.code = .capture body) : e.Reaches fun p => ∃ there,
      p = .running there ∧ there.Captures e.stack body ∧ there.scope = e.scope ∧
        e.toMachine.Untouched there.toMachine :=
    .one fun _ => ⟨_, execute_capture (e := e.tick) here, ⟨rfl, rfl, rfl, rfl⟩, rfl, rfl, rfl, rfl⟩
  unfold continuation
  unfold Code.framed at here
  split at here <;> rename_i returns
  · rw [if_pos returns]
    exact capturing here.symm
  · rw [if_neg returns]
    refine .after (execute_frame (e := e.tick) here.symm) ?_
    refine (capturing rfl).trans ?_
    rintro _ ⟨there, rfl, captures, scope, untouched⟩
    exact .here ⟨there, rfl, captures, scope, untouched.scopes, untouched.output, untouched.hosts⟩

theorem reaches_return {σ : Evaluation} (here : e.code = .ret)
    (stack : e.stack = σ.continuation next) {m : Machine} (untouched : m.Untouched e.toMachine) :
    e.Reaches (Progress.Continues (σ.resumption next) e.acc m) := by
  unfold continuation at stack
  split at stack
  · rename_i returns
    cases next <;> cases returns
    exact .here ⟨e, rfl, ⟨rfl, here, stack, fun proper => (proper rfl).elim⟩, untouched⟩
  · refine .one fun _ => ?_
    rw [execute_ret (e := e.tick) here stack]
    exact ⟨_, rfl, ⟨rfl, rfl, rfl, fun _ => ⟨rfl, rfl⟩⟩, untouched.scopes, untouched.output,
      untouched.hosts⟩

theorem Resumes.execute (resumes : e.Resumes k values) :
    e.execute = e.handed.reinstate k e.arguments :=
  execute_call resumes.code resumes.acc

theorem Resumes.tick (resumes : e.Resumes k values) : e.tick.Resumes k values :=
  ⟨resumes.code, resumes.acc, resumes.values⟩

theorem Resumes.arguments (resumes : e.Resumes k values) :
    e.arguments = (Form.chain values .nil e.store.fresh).1 := by
  unfold Evaluation.arguments
  rw [resumes.values]

theorem Resumes.execute_passed (resumes : e.Resumes k values) {value : Form}
    (passed : Form.passed? values = some value) :
    e.execute = .running { e.handed with stack := k, acc := value, code := .ret } := by
  rw [resumes.execute, resumes.arguments]
  match values with
  | [] =>
    cases passed
    rfl
  | [_] =>
    cases passed
    rfl
  | _ :: _ :: _ => cases passed

theorem Resumes.execute_rejected (resumes : e.Resumes k values)
    (rejected : Form.passed? values = none) :
    e.execute = e.handed.fail (.of (.mismatch "at most one value" e.arguments.text)) := by
  rw [resumes.execute, resumes.arguments]
  match values with
  | [] | [_] => cases rejected
  | _ :: _ :: _ => rfl

theorem Resumes.reaches_passed {σ : Evaluation} (resumes : e.Resumes (σ.continuation next) values)
    {value : Form} (passed : Form.passed? values = some value) :
    e.Reaches (Progress.Continues (σ.resumption next) value e.toMachine) := by
  refine .after (resumes.tick.execute_passed passed) ?_
  exact reaches_return (σ := σ) rfl rfl ⟨rfl, rfl, rfl⟩

theorem Resumes.reaches_rejected (resumes : e.Resumes k values)
    (rejected : Form.passed? values = none) :
    e.Reaches (Progress.Rejects (.of (.mismatch "at most one value" e.arguments.text))
      e.toMachine) := by
  refine .one fun _ => ?_
  rw [resumes.tick.execute_rejected rejected]
  exact ⟨_, rfl, rfl, rfl, rfl⟩

theorem Applies.execute {operands : Form} (applies : e.Applies k operands) :
    e.execute = e.evaluateOperands operands (.continuation k) := by
  obtain ⟨here, acc | ⟨id, acc⟩⟩ := applies
  · exact execute_apply here acc
  · exact execute_apply here acc

theorem reaches_call (obeys : e.Obeys .sourced) {c : Combiner} {operands : Form} {code : Code}
    (executed : e.tick.execute = .running { e.tick with pending := .nil, code })
    (compiled : operands.compileArguments c = .ok code) {fuel : Nat} {w : World}
    (evaluated : (operands.evaluateOperands (Combiner.combine fuel) e.scope).result e.world =
      some (.ok values, w)) :
    e.Reaches fun p => ∃ there, p = .running there ∧ e.Calls c values w there := by
  have kept := obeys.executed
  rw [executed] at kept
  refine .after executed ?_
  obtain ⟨_, xs, _, read, rfl⟩ := Form.compileArguments_eq_ok compiled
  have supplied := (Form.agrees_operands (Combiner.agrees fuel) read kept rfl).leads evaluated
  refine (supplied.weaken fun _ _ => trivial).trans ?_
  rintro _ ⟨there, rfl, here, scope, items, stack, world, obeys⟩
  have called := execute_constant (e := there.tick) here
  have kept := obeys.executed
  rw [called] at kept
  refine Reaches.after called (.here ⟨_, rfl, rfl, rfl, ?_, scope, stack, world, kept⟩)
  exact (congrArg List.reverse (items.trans (List.append_nil _))).trans values.reverse_reverse

theorem Applies.reaches {operands : Form} (applies : e.Applies k operands)
    (obeys : e.Obeys .sourced) {code : Code}
    (compiled : operands.compileArguments (.continuation k) = .ok code) {fuel : Nat} {w : World}
    (evaluated : (operands.evaluateOperands (Combiner.combine fuel) e.scope).result e.world =
      some (.ok values, w)) :
    e.Reaches fun p => ∃ there, p = .running there ∧ there.Resumes k values ∧ there.world = w := by
  have executed : e.tick.execute = .running { e.tick with pending := .nil, code } := by
    have evaluating := Applies.execute (e := e.tick) ⟨applies.code, applies.acc⟩
    unfold evaluateOperands at evaluating
    rwa [compiled] at evaluating
  refine (reaches_call obeys executed compiled evaluated).trans ?_
  rintro _ ⟨there, rfl, calls⟩
  exact .here ⟨there, rfl, ⟨calls.code, calls.acc, calls.values⟩, calls.world⟩

end Evaluation

end Vau
