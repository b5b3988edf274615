import Vau.Proofs.Syntax
import Vau.Machine

/-! An evaluator that follows the forms themselves, with neither code nor control stack.

It states what a form means. A form is known to compile before it is evaluated, so forms of other
shapes have no meaning here; nor have captured continuations, as there is no stack to capture. -/

set_option autoImplicit false

namespace Vau

/-- What evaluation acts on, the natives of the embedding program with their memory included. -/
structure World where
  store : Store
  hosts : Array HostNative

def Machine.world (m : Machine) : World := ⟨m.store, m.hosts⟩

inductive Exit where
  | error (error : Error)
  | control

/-- No result at all means that the fuel did not last. -/
abbrev Meaning (α : Type) := ExceptT Exit (StateT World Option) α

namespace Meaning

variable {α : Type}

def result (meaning : Meaning α) (w : World) : Option (Except Exit α × World) := meaning.run.run w

def nothing : Meaning α := fun _ => none

def fail (error : Error) : Meaning α := throw (.error error)

def ofExcept : Except Error α → Meaning α
  | .ok a => pure a
  | .error error => fail error

def act (action : Action α) : Meaning α := fun w =>
  let (result, store) := action.run w.store
  some (result.mapError .error, { w with store })

/-- Compute on the scopes. What was done to them before an error stays done. -/
def onScopes (change : Scopes → Except Error α × Scopes) : Meaning α := fun w =>
  let (result, scopes) := change w.store.scopes
  some (result.mapError .error, { w with store.scopes := scopes })

def lookup (e : ScopeId) (name : String) : Meaning Form :=
  onScopes fun scopes => (scopes.lookup e name, scopes)

def define (e : ScopeId) (parameters value : Form) : Meaning Form := do
  onScopes fun scopes => scopes.bind e parameters value
  return .inert

def assign (e : ScopeId) (name : String) (value : Form) : Meaning Form := do
  onScopes fun scopes => match scopes.set e name value with
    | .ok scopes => (.ok (), scopes)
    | .error error => (.error error, scopes)
  return .inert

def combiner : Form → Meaning Combiner
  | .combiner c => return c
  | value => fail (.of (.notCombinable value.text))

def close (e : ScopeId) (parameters formal source : Form) (wraps : Bool) : Meaning Form := do
  let body ← ofExcept (source.compileAll .ret)
  let operative := .operative (← act Action.fresh) e ⟨parameters, formal, source, body, wraps⟩
  if wraps then act (Action.wrap operative) else return .combiner operative

def enter (e static : ScopeId) (t : Template) (operands : Form) : Meaning ScopeId :=
  onScopes fun scopes =>
    let (scope, scopes) := scopes.extend (some static)
    match scopes.bind scope t.parameters operands with
    | (.error error, scopes) => (.error error, scopes)
    | (.ok (), scopes) =>
      (.ok scope, match t.formal with
        | .symbol name => scopes.define scope name (.environment e)
        | _ => scopes)

def native (n : Native) (operands : Form) : Meaning Form :=
  match operands.operands (·.textDuring n) with
  | .error error => fail (error.orOperator n.name)
  | .ok args => fun w =>
    let (result, m) := Machine.callNative { store := w.store, hosts := w.hosts } n args
    some (result.mapError .error, m.world)

/-- All operands compile, before any of them is evaluated. -/
def accept (c inner : Combiner) (operands : Form) : Meaning Unit :=
  match operands.compileArguments inner with
  | .ok _ => return ()
  | .error error => fail (match c.name? with
    | some name => error.orOperator name
    | none => error)

/-- The form and the environment that `eval` is given. The form compiles. -/
def acceptEval (operands : Form) : Meaning (Form × ScopeId) :=
  let name := Keyword.eval.spelling
  match operands.operands Form.text with
  | .error error => fail (error.withOperator name)
  | .ok [form, .environment scope] =>
    match form.compile .ret with
    | .ok _ => return (form, scope)
    | .error error => fail error
  | .ok [_, other] =>
    fail (((Error.of (.wrongType "environment" other.text)).withOperator name).withArgument 2)
  | .ok args =>
    let count := Count.wrapped args.length
    fail ((Error.of (.arity (.exactly 2) count)).withOperator name).fromNative

end Meaning

section

variable (combine : Combiner → Form → ScopeId → Meaning Form) (e : ScopeId)

mutual

def Form.evaluate : Form → Meaning Form
  | .symbol name => Meaning.lookup e name
  | .pair _ head operands =>
    match SpecialForm.ofHead? head with
    | none => do
      let c ← Meaning.combiner (← head.evaluate)
      combine c operands e
    | some (special, _) =>
      match special, operands with
      | .quote, .pair _ value .nil => return value
      | .conditional, .pair _ test (.pair _ consequent .nil) => do
        if (← test.evaluate).isFalse then return .inert else consequent.evaluate
      | .conditional, .pair _ test (.pair _ consequent (.pair _ alternative .nil)) => do
        if (← test.evaluate).isFalse then alternative.evaluate else consequent.evaluate
      | .define, .pair _ parameters (.pair _ value .nil) => do
        Meaning.define e parameters (← value.evaluate)
      | .assign, .pair _ (.symbol target) (.pair _ value .nil) => do
        Meaning.assign e target (← value.evaluate)
      | .vau, .pair _ parameters (.pair _ formal source) =>
        Meaning.close e parameters formal source false
      | .lambda, .pair _ parameters source => Meaning.close e parameters .ignore source true
      | .sequence, forms => forms.evaluateAll
      | .callCC, _ => throw .control
      | _, _ => Meaning.nothing
  | value => return value

def Form.evaluateAll : Form → Meaning Form
  | .pair _ form rest =>
    match rest with
    | .pair .. => do
      let _ ← form.evaluate
      rest.evaluateAll
    | _ => form.evaluate
  | _ => return .inert

end

/-- Operands from left to right, each once. A value takes up an identity when it is put away. -/
def Form.evaluateOperands : Form → Meaning (List Form)
  | .pair _ operand rest => do
    let value ← operand.evaluate combine e
    let _ ← Meaning.act Action.fresh
    return value :: (← rest.evaluateOperands)
  | _ => return []

end

namespace Combiner

/-- Combine with values, where continuations differ from all other combiners. -/
def receive (combine : Combiner → Form → ScopeId → Meaning Form) (e : ScopeId)
    (values : List Form) : Combiner → Meaning Form
  | .continuation _ => throw .control
  | c => do combine c (← Meaning.act (Action.list values)) e

/-- Combine with an operand tree, in the scope of the caller. Fuel bounds how deep combinations
lead to one another. -/
def combine : Nat → Combiner → Form → ScopeId → Meaning Form
  | 0, _, _, _ => Meaning.nothing
  | fuel + 1, c, operands, e =>
    match c with
    | .operative _ static t => do
      t.source.evaluateAll (combine fuel) (← Meaning.enter e static t operands)
    | .applicative _ inner => do
      Meaning.accept c inner operands
      inner.receive (combine fuel) e (← operands.evaluateOperands (combine fuel) e)
    | .native n => Meaning.native n operands
    | .eval => do
      let (form, scope) ← Meaning.acceptEval operands
      form.evaluate (combine fuel) scope
    | .continuation _ => do
      Meaning.accept c c operands
      c.receive (combine fuel) e (← operands.evaluateOperands (combine fuel) e)

end Combiner

def Form.outcome (fuel : Nat) (f : Form) (e : ScopeId) (w : World) :
    Option (Except Exit Form × World) :=
  (f.evaluate (Combiner.combine fuel) e).result w

end Vau
