/-! The natives of the ground environment, and natives in general. -/

set_option autoImplicit false

namespace Vau

inductive Primitive where
  | add
  | multiply
  | subtract
  | divide
  | numberEqual
  | less
  | greater
  | atMost
  | atLeast
  | same
  | equal
  | cons
  | car
  | cdr
  | not
  | wrap
  | unwrap
  | makeEnvironment
  | isNull
  | isPair
  | isSymbol
  | isNumber
  | isInteger
  | isReal
  | isBoolean
  | isInert
  | isIgnore
  | isCombiner
  | isOperative
  | isApplicative
  | isEnvironment
  | display
  | newline
  deriving DecidableEq, Repr

namespace Primitive

def name : Primitive → String
  | add => "+"
  | multiply => "*"
  | subtract => "-"
  | divide => "/"
  | numberEqual => "=?"
  | less => "<?"
  | greater => ">?"
  | atMost => "<=?"
  | atLeast => ">=?"
  | same => "eq?"
  | equal => "equal?"
  | cons => "cons"
  | car => "car"
  | cdr => "cdr"
  | not => "not"
  | wrap => "wrap"
  | unwrap => "unwrap"
  | makeEnvironment => "make-environment"
  | isNull => "null?"
  | isPair => "pair?"
  | isSymbol => "symbol?"
  | isNumber => "number?"
  | isInteger => "integer?"
  | isReal => "real?"
  | isBoolean => "boolean?"
  | isInert => "inert?"
  | isIgnore => "ignore?"
  | isCombiner => "combiner?"
  | isOperative => "operative?"
  | isApplicative => "applicative?"
  | isEnvironment => "environment?"
  | display => "display"
  | newline => "newline"

def all : List Primitive :=
  [add, multiply, subtract, divide, numberEqual, less, greater, atMost, atLeast, same, equal, cons,
    car, cdr, not, wrap, unwrap, makeEnvironment, isNull, isPair, isSymbol, isNumber, isInteger,
    isReal, isBoolean, isInert, isIgnore, isCombiner, isOperative, isApplicative, isEnvironment,
    display, newline]

theorem mem_all (p : Primitive) : p ∈ all := by cases p <;> decide

end Primitive

/-- A native is known by its primitive, or by its place among those of the embedding program. -/
inductive Native where
  | primitive (value : Primitive)
  | host (index : Nat) (name : String)
  deriving DecidableEq, Repr

namespace Native

def name : Native → String
  | primitive p => p.name
  | host _ name => name

def same : Native → Native → Bool
  | primitive p, primitive q => p == q
  | host i _, host j _ => i == j
  | _, _ => false

end Native

end Vau
