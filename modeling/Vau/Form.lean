import Vau.Datum
import Vau.Primitive

/-! Forms, the values of the language, with the code and the control stacks that they may hold.

Pairs, closures, wrappers and frames are numbered when they are made: two of them are the same
object if and only if their numbers agree. A scope is named by its number in order of creation. -/

set_option autoImplicit false

namespace Vau

abbrev Identity := Nat

abbrev ScopeId := Nat

mutual

inductive Form where
  | nil
  | symbol (name : String)
  | int (value : Int64)
  | real (value : Float)
  | bool (value : Bool)
  | ignore
  | inert
  | pair (id : Identity) (car cdr : Form)
  | combiner (value : Combiner)
  | environment (scope : ScopeId)

inductive Combiner where
  | operative (id : Identity) (scope : ScopeId) (template : Template)
  | applicative (id : Identity) (underlying : Combiner)
  | native (value : Native)
  | continuation (stack : Stack)
  | eval

/-- A compiled closure that waits for its scope. The body is compiled from the source and ends in
a return; `formal` is a symbol that names the environment of the caller, or `#ignore`. -/
structure Template where
  parameters : Form
  formal : Form
  source : Form
  body : Code
  wraps : Bool

inductive Code where
  | halt
  | refer (name : String) (next : Code)
  | constant (value : Form) (next : Code)
  | close (template : Template) (next : Code)
  | define (parameters : Form) (next : Code)
  | assign (name : String) (next : Code)
  | test (consequent alternative : Code)
  | frame (resume next : Code)
  | apply (operands : Form)
  | argument (next : Code)
  | capture (next : Code)
  | call
  | ret

/-- A control stack. It is never changed, so continuations share their lower frames. -/
inductive Stack where
  | empty
  | push (top : Frame) (rest : Stack)

/-- Where to resume, with the scope and the pending arguments of the push, newest first. -/
structure Frame where
  id : Identity
  depth : Nat
  resume : Code
  scope : ScopeId
  pending : Form

end

instance : Inhabited Form := ⟨.inert⟩

namespace Form

def items : Form → List Form
  | pair _ car cdr => car :: cdr.items
  | _ => []

def ending : Form → Form
  | pair _ _ cdr => cdr.ending
  | f => f

def isNil : Form → Bool
  | nil => true
  | _ => false

def list? (f : Form) : Option (List Form) := if f.ending.isNil then some f.items else none

def isCompound : Form → Bool
  | nil | pair .. => true
  | _ => false

def isFalse : Form → Bool
  | bool false => true
  | _ => false

def car? : Form → Option Form
  | pair _ car _ => some car
  | _ => none

def cdr? : Form → Option Form
  | pair _ _ cdr => some cdr
  | _ => none

def symbol? : Form → Option String
  | symbol name => some name
  | _ => none

def combiner? : Form → Option Combiner
  | combiner c => some c
  | _ => none

def environment? : Form → Option ScopeId
  | environment e => some e
  | _ => none

def chain (items : List Form) (tail : Form) (fresh : Identity) : Form × Identity :=
  items.foldr (fun item (rest, fresh) => (pair fresh item rest, fresh + 1)) (tail, fresh)

def ofDatum : Datum → Identity → Form × Identity
  | .nil, fresh => (nil, fresh)
  | .symbol name, fresh => (symbol name, fresh)
  | .int value, fresh => (int value, fresh)
  | .real value, fresh => (real value, fresh)
  | .bool value, fresh => (bool value, fresh)
  | .ignore, fresh => (ignore, fresh)
  | .inert, fresh => (inert, fresh)
  | .pair a d, fresh =>
    let (car, fresh) := ofDatum a fresh
    let (cdr, fresh) := ofDatum d fresh
    (pair fresh car cdr, fresh + 1)

end Form

namespace Combiner

def underlying? : Combiner → Option Combiner
  | applicative _ inner => some inner
  | _ => none

/-- Takes its operands unevaluated. Natives and `eval` do; they are bound wrapped. -/
def isOperative : Combiner → Bool
  | operative .. | native _ | eval => true
  | applicative .. | continuation _ => false

/-- Continuations evaluate their operands without having an underlying combiner. -/
def isApplicative : Combiner → Bool
  | applicative .. => true
  | _ => false

def name? : Combiner → Option String
  | native n => some n.name
  | applicative _ inner => inner.name?
  | eval => some "eval"
  | operative .. | continuation _ => none

end Combiner

namespace Stack

def depth : Stack → Nat
  | empty => 0
  | push top _ => top.depth

/-- Push a frame; it remembers how deep it lies. -/
def extend (stack : Stack) (id : Identity) (resume : Code) (scope : ScopeId) (pending : Form) :
    Stack :=
  push ⟨id, stack.depth + 1, resume, scope, pending⟩ stack

def isEmpty : Stack → Bool
  | empty => true
  | push .. => false

def top? : Stack → Option (Frame × Stack)
  | empty => none
  | push top rest => some (top, rest)

def frames : Stack → List Frame
  | empty => []
  | push top rest => top :: rest.frames

def same : Stack → Stack → Bool
  | empty, empty => true
  | push top _, push other _ => top.id == other.id
  | _, _ => false

end Stack

end Vau
