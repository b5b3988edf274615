import Vau.Datum
import Vau.Datum.Delimiter
import Vau.Decimal.Numeral
import Vau.Keyword
import Vau.Text.Alphanumeric

/-! Reading data from text.

The parentheses are matched first. Then the tokens are taken one by one: an opening parenthesis
starts a level, the closing one ends it and hands its list to the level around it. -/

set_option autoImplicit false

namespace Vau

namespace Datum

/-- An integer that does not fit into 64 bits is read as a real. -/
def ofNumeral (n : Decimal.Numeral) : Datum :=
  match n.toInt? with
  | some value =>
    if Int64.minValue.toInt ≤ value ∧ value ≤ Int64.maxValue.toInt then int (.ofInt value)
    else real n.toFloat
  | none => real n.toFloat

def constant? (text : String) : Option Datum :=
  match Keyword.ofSpelling? text with
  | some .yes => some (bool true)
  | some .no => some (bool false)
  | some .ignore => some ignore
  | some .inert => some inert
  | _ => none

def symbolPunctuation : List Char :=
  ['!', '$', '%', '&', '*', '+', '-', '.', '/', ':', '<', '=', '>', '?', '^', '_', '~', '@']

def isSymbolCharacter (c : Char) : Bool :=
  Text.isAlphanumeric c || symbolPunctuation.contains c

def ofWord? (text : String) : Option Datum :=
  let cs := text.toList
  match Decimal.Numeral.ofChars? cs with
  | some n => some (ofNumeral n)
  | none =>
    if cs.head? == some '#' then constant? text
    else if cs.all isSymbolCharacter then some (symbol text)
    else none

def quoted (d : Datum) : Datum := list [symbol Keyword.quote.spelling, d]

def quotedTimes : Nat → Datum → Datum
  | 0, d => d
  | n + 1, d => quoted (quotedTimes n d)

end Datum

inductive Tail where
  | none
  | dot (position : Position)
  | read (value : Datum)
  deriving DecidableEq

/-- A list under way, or the whole text. Items and waiting quote marks are kept newest first. -/
structure Level where
  start : Position
  items : List Datum := []
  tail : Tail := .none
  quotes : List Position := []
  deriving DecidableEq

namespace Level

def add (l : Level) (position : Position) (d : Datum) : Except Error Level :=
  let d := d.quotedTimes l.quotes.length
  match l.tail with
  | .none => .ok { l with items := d :: l.items, quotes := [] }
  | .dot _ => .ok { l with tail := .read d, quotes := [] }
  | .read _ => .error ((Cause.dot .secondTail).at position)

def dot (l : Level) (position : Position) : Except Error Level :=
  if !l.quotes.isEmpty then .error ((Cause.dot .afterQuote).at position)
  else match l.tail, l.items with
    | .none, [] => .error ((Cause.dot .atStart).at position)
    | .none, _ => .ok { l with tail := .dot position }
    | .dot _, _ | .read _, _ => .error ((Cause.dot .afterDot).at position)

def close (l : Level) : Except Error (List Datum × Datum) :=
  match l.quotes.getLast? with
  | some first =>
    .error ((Cause.trailingQuotes (String.ofList (l.quotes.map fun _ => '\''))).at first)
  | none =>
    match l.tail with
    | .none => .ok (l.items.reverse, .nil)
    | .dot position => .error ((Cause.dot .atEnd).at position)
    | .read value => .ok (l.items.reverse, value)

end Level

/-- The innermost level and those around it. The outermost is the text itself. -/
structure Reader where
  inner : Level := { start := .start }
  outer : List Level := []
  deriving DecidableEq

namespace Reader

def feed (r : Reader) (t : Token) : Except Error Reader :=
  match t.lexeme with
  | .opening => .ok ⟨{ start := t.position }, r.inner :: r.outer⟩
  | .closing =>
    match r.outer with
    | around :: outer => do
      let (items, tail) ← r.inner.close
      let inner ← around.add r.inner.start (.chain items tail)
      .ok ⟨inner, outer⟩
    | [] => .error (Cause.trailingDelimiter.at t.position)
  | .quote => .ok { r with inner := { r.inner with quotes := t.position :: r.inner.quotes } }
  | .word text =>
    if text = Keyword.dot.spelling then
      match r.outer with
      | [] => .error ((Cause.dot .outsideList).at t.position)
      | _ :: _ => do .ok { r with inner := ← r.inner.dot t.position }
    else
      match Datum.ofWord? text with
      | some d => do .ok { r with inner := ← r.inner.add t.position d }
      | none => .error ((Cause.unknownLiteral text).at t.position)

def finish (r : Reader) : Except Error (List Datum) :=
  match r.outer with
  | [] => do .ok (← r.inner.close).1
  | _ :: _ => .error (Cause.unclosedDelimiter.at r.inner.start)

end Reader

def readTokens (tokens : List Token) : Except Error (List Datum) := do
  let _ ← matchDelimiters tokens
  (← tokens.foldlM Reader.feed {}).finish

def read (text : String) (file : Option String) : Except Error (List Datum) :=
  (readTokens (tokenize text)).mapError (·.withFile file)

end Vau
