import Vau.Primitive.Number
import Vau.Store

/-! What the natives of the ground environment do with their arguments. -/

set_option autoImplicit false

namespace Vau

namespace Form

def isNumber (f : Form) : Bool := (Number.ofForm? f).isSome

def isInteger : Form → Bool
  | int _ => true
  | _ => false

def isReal : Form → Bool
  | real _ => true
  | _ => false

def isBoolean : Form → Bool
  | bool _ => true
  | _ => false

def isIgnore : Form → Bool
  | ignore => true
  | _ => false

def isInert : Form → Bool
  | inert => true
  | _ => false

end Form

namespace Primitive

def one (args : List Form) : Action Form :=
  match args with
  | [x] => return x
  | _ => Action.fail (.arity (.exactly 1) (Count.wrapped args.length))

def two (args : List Form) : Action (Form × Form) :=
  match args with
  | [x, y] => return (x, y)
  | _ => Action.fail (.arity (.exactly 2) (Count.wrapped args.length))

def test (args : List Form) (holds : Form → Bool) : Action Form :=
  return .bool (holds (← one args))

def part {α : Type} (p : Primitive) (expected : String) (f : Form) : Option α → Action α
  | some x => return x
  | none => throw ((Error.of (.wrongType expected (f.textDuring (.primitive p)))).withArgument 1)

def numbers (p : Primitive) (args : List Form) : Action (List Number) :=
  ofExcept (Number.ofForms (·.textDuring (.primitive p)) 1 args)

def compare (p : Primitive) (args : List Form) (holds : Ordering → Bool) : Action Form :=
  return .bool (Number.ordered holds (← p.numbers args))

/-- Text is written without a flush, the end of a line with one. -/
def call (p : Primitive) (args : List Form) : Action Form :=
  match p with
  | add => return (Number.sum (← p.numbers args)).form
  | multiply => return (Number.product (← p.numbers args)).form
  | subtract => do
    ofExcept (Arity.check (.atLeast 1) args.length)
    return (Number.difference (← p.numbers args)).form
  | divide => do
    ofExcept (Arity.check (.atLeast 1) args.length)
    return (← ofExcept (Number.quotient (← p.numbers args))).form
  | numberEqual => p.compare args Ordering.isEq
  | less => p.compare args Ordering.isLT
  | greater => p.compare args Ordering.isGT
  | atMost => p.compare args Ordering.isLE
  | atLeast => p.compare args Ordering.isGE
  | same => do
    let (x, y) ← two args
    return .bool (x.isSame y)
  | equal => do
    let (x, y) ← two args
    return .bool (x.isEqual y)
  | cons => do
    let (x, y) ← two args
    Action.cons x y
  | car => do
    let x ← one args
    p.part "pair" x x.car?
  | cdr => do
    let x ← one args
    p.part "pair" x x.cdr?
  | not => test args Form.isFalse
  | wrap => do
    let x ← one args
    Action.wrap (← p.part "combiner" x x.combiner?)
  | unwrap => do
    let x ← one args
    let c ← p.part "combiner" x x.combiner?
    return .combiner (← p.part "applicative" x c.underlying?)
  | makeEnvironment =>
    match args with
    | [] => return .environment (← Action.newScope none)
    | [x] => do
      let parent ← p.part "environment" x x.environment?
      return .environment (← Action.newScope (some parent))
    | _ => Action.fail (.arity (.upTo 0 1) (Count.wrapped args.length))
  | isNull => test args Form.isNil
  | isPair => test args fun f => f.car?.isSome
  | isSymbol => test args fun f => f.symbol?.isSome
  | isNumber => test args Form.isNumber
  | isInteger => test args Form.isInteger
  | isReal => test args Form.isReal
  | isBoolean => test args Form.isBoolean
  | isInert => test args Form.isInert
  | isIgnore => test args Form.isIgnore
  | isCombiner => test args fun f => f.combiner?.isSome
  | isOperative => test args fun f => f.combiner?.any Combiner.isOperative
  | isApplicative => test args fun f => f.combiner?.any Combiner.isApplicative
  | isEnvironment => test args fun f => f.environment?.isSome
  | display => do
    let x ← one args
    Action.write (x.textDuring (.primitive p))
    return .inert
  | newline => do
    ofExcept (Arity.check (.exactly 0) args.length)
    Action.write "\n"
    Action.flush
    return .inert

end Primitive

end Vau
