import Vau.Code.Compile
import Vau.Primitive.Call

/-! The machine between and during evaluations.

A machine keeps the store, the natives of the embedding program, the step limit and the counters.
An evaluation adds the registers: the accumulator, the code to run, the current scope, the pending
arguments (newest first) and the control stack. -/

set_option autoImplicit false

namespace Vau

/-- A native of the embedding program. It remembers a form between calls, and writes values the
way they look while it runs. -/
structure HostNative where
  name : String
  memory : Form
  call : (text : Form → String) → (memory : Form) → List Form → StateM Store (Except Error Form × Form)

/-- Counters of 64 bits, taken as unbounded: runs of 2 ^ 64 instructions are left out. -/
structure Stats where
  steps : Nat := 0
  peakDepth : Nat := 0
  pushes : Nat := 0
  pops : Nat := 0
  deriving DecidableEq, Repr

structure Machine where
  store : Store := {}
  hosts : Array HostNative := #[]
  /-- How many instructions one evaluation may execute. No run exceeds the greatest number of 64
  bits. -/
  limit : Option Nat := none
  stats : Stats := {}
  /-- No frame has this number or a higher one yet. -/
  frames : Identity := 0

structure Evaluation extends Machine where
  /-- Instructions begun, fewer than 2 ^ 64 of them as in `Stats`. -/
  steps : Nat := 0
  acc : Form := .inert
  code : Code
  scope : ScopeId
  pending : Form := .nil
  stack : Stack := .empty

inductive Progress where
  | running (e : Evaluation)
  | finished (value : Form) (m : Machine)
  | failed (error : Error) (m : Machine)

def Machine.act {α : Type} (m : Machine) (action : Action α) : Except Error α × Machine :=
  let (result, store) := action.run m.store
  (result, { m with store })

/-- Call a native with a list of arguments. Its errors are marked as its own. -/
def Machine.callNative (m : Machine) (n : Native) (args : List Form) :
    Except Error Form × Machine :=
  let own (result : Except Error Form) : Except Error Form :=
    result.mapError fun e => (e.orOperator n.name).fromNative
  match n with
  | .primitive p =>
    let (result, m) := m.act (p.call args)
    (own result, m)
  | .host index _ =>
    match m.hosts[index]? with
    | some host =>
      let ((result, memory), store) := host.call (·.textDuring n) host.memory args m.store
      (own result, { m with store, hosts := m.hosts.modify index ({ · with memory }) })
    | none => (own (.error (.of (.custom "no such native"))), m)

namespace Evaluation

def fail (e : Evaluation) (error : Error) : Progress := .failed error e.toMachine

def settle (e : Evaluation) (code : Code) : Except Error Form × Machine → Progress
  | (.ok value, m) => .running { e with toMachine := m, acc := value, code }
  | (.error error, m) => .failed error m

def combiner (e : Evaluation) : Except Error Combiner :=
  match e.acc with
  | .combiner c => .ok c
  | value => .error (.of (.notCombinable value.text))

/-- Enter the body of an operative in a new child of its scope. This jump pushes nothing. -/
def enter (e : Evaluation) (static : ScopeId) (t : Template) (operands : Form) : Progress :=
  let (scope, scopes) := e.store.scopes.extend (some static)
  match scopes.bind scope t.parameters operands with
  | (.error error, scopes) => .failed error { e.toMachine with store.scopes := scopes }
  | (.ok (), scopes) =>
    let scopes := match t.formal with
      | .symbol name => scopes.define scope name (.environment e.scope)
      | _ => scopes
    .running { e with store.scopes := scopes, scope, code := t.body }

def evaluateOperands (e : Evaluation) (operands : Form) (c : Combiner) : Progress :=
  match operands.compileArguments c with
  | .ok code => .running { e with pending := .nil, code }
  | .error error =>
    e.fail <| match e.acc.combiner?.bind Combiner.name? with
      | some name => error.orOperator name
      | none => error

def callNative (e : Evaluation) (n : Native) (operands : Form) : Progress :=
  match operands.operands (·.textDuring n) with
  | .ok args => e.settle .ret (e.toMachine.callNative n args)
  | .error error => e.fail (error.orOperator n.name)

/-- Evaluate a form in an environment, as a tail call. -/
def callEval (e : Evaluation) (operands : Form) : Progress :=
  let name := Keyword.eval.spelling
  match operands.operands Form.text with
  | .error error => e.fail (error.withOperator name)
  | .ok [form, .environment scope] =>
    match form.compile .ret with
    | .ok code => .running { e with code, scope }
    | .error error => e.fail error
  | .ok [_, other] =>
    e.fail (((Error.of (.wrongType "environment" other.text)).withOperator name).withArgument 2)
  | .ok args =>
    let count := Count.wrapped args.length
    e.fail ((Error.of (.arity (.exactly 2) count)).withOperator name).fromNative

def apply (e : Evaluation) (c : Combiner) (operands : Form) : Progress :=
  match c with
  | .operative _ scope template => e.enter scope template operands
  | .applicative _ inner => e.evaluateOperands operands inner
  | .native n => e.callNative n operands
  | .eval => e.callEval operands
  | .continuation _ => e.evaluateOperands operands c

def reinstate (e : Evaluation) (stack : Stack) (args : Form) : Progress :=
  match args with
  | .nil => .running { e with stack, acc := .inert, code := .ret }
  | .pair _ value .nil => .running { e with stack, acc := value, code := .ret }
  | _ => e.fail (.of (.mismatch "at most one value" args.text))

/-- Combine with operands that were just evaluated. Only continuations tell the two apart. -/
def combine (e : Evaluation) (c : Combiner) (args : Form) : Progress :=
  match c with
  | .continuation stack => e.reinstate stack args
  | c => e.apply c args

def push (e : Evaluation) (resume : Code) : Evaluation :=
  let stack := e.stack.extend e.frames resume e.scope e.pending
  { e with
    stack
    frames := e.frames + 1
    stats.pushes := e.stats.pushes + 1
    stats.peakDepth := max e.stats.peakDepth stack.depth }

def pop (e : Evaluation) (frame : Frame) (rest : Stack) : Evaluation :=
  { e with
    code := frame.resume
    scope := frame.scope
    pending := frame.pending
    stack := rest
    stats.pops := e.stats.pops + 1 }

def pend (e : Evaluation) (pending : Form) : Evaluation :=
  { e with pending := .pair e.store.fresh e.acc pending, store.fresh := e.store.fresh + 1 }

def close (e : Evaluation) (t : Template) : Action Form := do
  let operative := .operative (← Action.fresh) e.scope t
  if t.wraps then Action.wrap operative else return .combiner operative

def execute (e : Evaluation) : Progress :=
  match e.code with
  | .halt => .finished e.acc e.toMachine
  | .refer name next =>
    match e.store.scopes.lookup e.scope name with
    | .ok value => .running { e with acc := value, code := next }
    | .error error => e.fail error
  | .constant value next => .running { e with acc := value, code := next }
  | .close template next => e.settle next (e.act (e.close template))
  | .define parameters next =>
    match e.store.scopes.bind e.scope parameters e.acc with
    | (.ok (), scopes) => .running { e with store.scopes := scopes, acc := .inert, code := next }
    | (.error error, scopes) => .failed error { e.toMachine with store.scopes := scopes }
  | .assign name next =>
    match e.store.scopes.set e.scope name e.acc with
    | .ok scopes => .running { e with store.scopes := scopes, acc := .inert, code := next }
    | .error error => e.fail error
  | .test consequent alternative =>
    .running { e with code := if e.acc.isFalse then alternative else consequent }
  | .frame resume next => .running { e.push resume with code := next }
  | .apply operands =>
    match e.combiner with
    | .ok c => e.apply c operands
    | .error error => e.fail error
  | .argument next => .running { e.pend e.pending with code := next }
  | .capture next =>
    .running { { e with acc := .combiner (.continuation e.stack) }.pend .nil with code := next }
  | .call =>
    match e.combiner with
    | .ok c =>
      let (args, fresh) := Form.chain e.pending.items.reverse .nil e.store.fresh
      { e with store.fresh := fresh, pending := .nil }.combine c args
    | .error error => e.fail error
  | .ret =>
    match e.stack with
    | .empty => .finished e.acc e.toMachine
    | .push frame rest => .running (e.pop frame rest)

/-- Count an instruction, and refuse to begin one beyond the limit. -/
def step (e : Evaluation) : Progress :=
  let e := { e with steps := e.steps + 1, stats.steps := e.stats.steps + 1 }
  match e.limit with
  | some limit => if limit < e.steps then e.fail (.of (.stepLimit limit)) else e.execute
  | none => e.execute

end Evaluation

end Vau
