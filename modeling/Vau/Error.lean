import Vau.Arity

/-! Errors: what went wrong, and what is known about where.

A cause carries what its message names. The attribution of an error grows on its way out: the
operator at fault, the argument, the file, the position and a hint. -/

set_option autoImplicit false

namespace Vau

instance Position.coe : Coe UInt32 Nat := ⟨UInt32.toNat⟩

/-- A place in a text; lines and columns count from one, in 32 bits. -/
structure Position where
  line : UInt32
  column : UInt32
  deriving DecidableEq, Repr

/-- Line zero stands for no place at all. -/
def Position.known? (p : Position) : Option Position := if p.line = 0 then none else some p

inductive DotFault where
  | atEnd
  | atStart
  | afterDot
  | outsideList
  | afterQuote
  | secondTail
  deriving DecidableEq, Repr

inductive OutputFault where
  | notFound
  | permissionDenied
  | brokenPipe
  | writeZero
  | timedOut
  | unexpectedEnd
  | other
  deriving DecidableEq, Repr

inductive Cause where
  | trailingDelimiter
  | unclosedDelimiter
  | trailingQuotes (marks : String)
  | unknownLiteral (text : String)
  | dot (fault : DotFault)
  | arity (expected : Arity) (count : Nat)
  | illegalParameter (text : String)
  | duplicateParameter (name : String)
  | dottedOperands
  | unbound (name : String)
  | mismatch (expected got : String)
  | notCombinable (text : String)
  | wrongType (expected got : String)
  | divisionByZero
  | custom (message : String)
  | stepLimit (limit : Nat)
  | output (fault : OutputFault)
  deriving DecidableEq, Repr

inductive ErrorClass where
  | read
  | compile
  | unbound
  | binding
  | notCombinable
  | native
  | limit
  | host
  deriving DecidableEq, Repr

def Cause.errorClass : Cause → ErrorClass
  | trailingDelimiter | unclosedDelimiter | trailingQuotes _ | unknownLiteral _ | dot _ => .read
  | arity .. | illegalParameter _ | duplicateParameter _ | dottedOperands => .compile
  | unbound _ => .unbound
  | mismatch .. => .binding
  | notCombinable _ => .notCombinable
  | wrongType .. | divisionByZero | custom _ => .native
  | stepLimit _ => .limit
  | output _ => .host

structure Error where
  cause : Cause
  operator : Option String := none
  argument : Option Nat := none
  file : Option String := none
  position : Option Position := none
  hint : Option String := none
  /-- Raised inside the call of a native. -/
  native : Bool := false
  deriving DecidableEq, Repr

namespace Error

def of (cause : Cause) : Error := { cause }

def errorClass (e : Error) : ErrorClass := if e.native then .native else e.cause.errorClass

def withOperator (e : Error) (name : String) : Error := { e with operator := some name }

def orOperator (e : Error) (name : String) : Error :=
  { e with operator := e.operator <|> some name }

def withArgument (e : Error) (n : Nat) : Error := { e with argument := some n }

def withHint (e : Error) (hint : String) : Error := { e with hint := some hint }

/-- Name the file, where it is known what part of it is meant. -/
def withFile (e : Error) (file : Option String) : Error :=
  { e with file := e.position.bind (fun _ => file) <|> e.file }

def orFile (e : Error) (file : String) : Error := { e with file := e.file <|> some file }

def fromNative (e : Error) : Error := { e with native := true }

end Error

def Cause.at (cause : Cause) (position : Position) : Error :=
  { cause, position := position.known? }

def DotFault.message : DotFault → String
  | atEnd => "Nothing follows the dot [.] in a dotted list"
  | atStart => "Dot [.] at the start of a list, as in (. a)"
  | afterDot => "Two dots [.] in the same list"
  | outsideList => "Dot [.] outside of a list"
  | afterQuote => "Quote ['] before a dot [.], write (a . 'b) not (a ' . b)"
  | secondTail => "More than one datum after a dot [.], as in (a . b c)"

def OutputFault.message : OutputFault → String
  | notFound => "entity not found"
  | permissionDenied => "permission denied"
  | brokenPipe => "broken pipe"
  | writeZero => "write zero"
  | timedOut => "timed out"
  | unexpectedEnd => "unexpected end of file"
  | other => "other error"

def mention (before : String) (operator : Option String) (after : String) : String :=
  match operator with
  | some name => before ++ name ++ after
  | none => ""

def Cause.message (operator : Option String) (argument : Option Nat) : Cause → String
  | trailingDelimiter => "Trailing Delimiter: Found trailing `)' in input"
  | unclosedDelimiter => "Unclosed Delimiter: Found `(' which was not closed in input"
  | trailingQuotes marks => "Trailing Modifiers: Unexpected end of input at: " ++ marks
  | unknownLiteral text => "Syntax Error: Unknown literal " ++ text
  | dot fault => "Syntax Error: " ++ fault.message
  | arity expected count =>
    "Argument Error: " ++ mention "" operator " " ++ "expected " ++ expected.demand ++
      ", but got " ++ Nat.repr count
  | illegalParameter text =>
    "Compile Error: " ++ mention "" operator " " ++ "illegal parameter tree element " ++ text
  | duplicateParameter name => "Compile Error: Parameter " ++ name ++ " bound more than once"
  | dottedOperands =>
    "Compile Error: " ++ mention "" operator " " ++ "expected a proper list of operands"
  | unbound name => "Unbound Variable: " ++ name
  | mismatch expected got =>
    "Binding Error: " ++ mention "in " operator " " ++ "expected " ++ expected ++ " but got " ++ got
  | notCombinable text => "Not Combinable: " ++ text ++ " cannot be applied"
  | wrongType expected got =>
    let culprit := match argument with
      | some n => mention ("for argument " ++ Nat.repr n ++ " of (") operator " ...), "
      | none => mention "in " operator ", "
    "Type Error: Expected " ++ expected ++ " " ++ culprit ++ "but got " ++ got
  | divisionByZero => "Arithmetic Error: Division by zero" ++ mention " in " operator ""
  | custom message => "Error: " ++ message
  | stepLimit limit => "Step Limit: Evaluation exceeded " ++ Nat.repr limit ++ " instructions"
  | output fault => "IOError: " ++ fault.message

def Error.location (e : Error) : String :=
  match e.position, e.file with
  | some p, some file =>
    " [" ++ file ++ " " ++ Nat.repr p.line ++ ":" ++ Nat.repr p.column ++ "]"
  | some p, none => " [" ++ Nat.repr p.line ++ ":" ++ Nat.repr p.column ++ "]"
  | none, some file => " [" ++ file ++ "]"
  | none, none => ""

def Error.message (e : Error) : String :=
  e.cause.message e.operator e.argument ++ e.location ++ mention " (hint: " e.hint ")"

def Arity.check (a : Arity) (count : Nat) : Except Error Unit :=
  if a.admits count then .ok () else .error (.of (.arity a (Count.saturated count)))

end Vau
