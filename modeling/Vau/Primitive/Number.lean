import Vau.Error
import Vau.Form.Equality
import Vau.Form.Text

/-! Arithmetic on integers of 64 bits and reals.

An exact result that leaves the integers turns real, and stays real from then on. -/

set_option autoImplicit false

namespace Vau

inductive Number where
  | int (value : Int64)
  | real (value : Float)

namespace Number

def ofForm? : Form → Option Number
  | .int value => some (int value)
  | .real value => some (real value)
  | _ => none

def form : Number → Form
  | int value => .int value
  | real value => .real value

def toReal : Number → Float
  | int value => Form.nearest value
  | real value => value

def inRange (n : Int) : Bool := Int64.minValue.toInt ≤ n && n ≤ Int64.maxValue.toInt

def combine (exact : Int → Int → Int) (real : Float → Float → Float) : Number → Number → Number
  | .int x, .int y =>
    let z := exact x.toInt y.toInt
    if inRange z then .int (.ofInt z) else .real (real (Form.nearest x) (Form.nearest y))
  | x, y => .real (real x.toReal y.toReal)

def add : Number → Number → Number := combine (· + ·) (· + ·)

def multiply : Number → Number → Number := combine (· * ·) (· * ·)

def subtract : Number → Number → Number := combine (· - ·) (· - ·)

def isZero : Number → Bool
  | int value => value == 0
  | real value => value == 0.0

def divide (x y : Number) : Except Error Number :=
  if y.isZero then .error (.of .divisionByZero)
  else match x, y with
    | .int m, .int n =>
      if m.toInt % n.toInt = 0 ∧ inRange (m.toInt / n.toInt) then
        .ok (.int (.ofInt (m.toInt / n.toInt)))
      else .ok (.real (Form.nearest m / Form.nearest n))
    | x, y => .ok (.real (x.toReal / y.toReal))

/-- Integers compare exactly, other pairs as reals; a real that is no number compares to none. -/
def compare? : Number → Number → Option Ordering
  | int x, int y => some (compare x.toInt y.toInt)
  | x, y =>
    let x := x.toReal
    let y := y.toReal
    if x < y then some .lt
    else if x == y then some .eq
    else if y < x then some .gt
    else none

def sum (xs : List Number) : Number := xs.foldl add (int 0)

def product (xs : List Number) : Number := xs.foldl multiply (int 1)

def difference : List Number → Number
  | [] => int 0
  | [x] => subtract (int 0) x
  | x :: y :: rest => (y :: rest).foldl subtract x

def quotient : List Number → Except Error Number
  | [] => .ok (int 1)
  | [x] => divide (int 1) x
  | x :: y :: rest => (y :: rest).foldlM divide x

def ordered (holds : Ordering → Bool) : List Number → Bool
  | x :: y :: rest => (compare? x y).any holds && ordered holds (y :: rest)
  | [_] | [] => true

/-- Read forms as numbers; the first that is none is at fault, by its place from one. -/
def ofForms (text : Form → String) (place : Nat) : List Form → Except Error (List Number)
  | [] => .ok []
  | f :: rest =>
    match ofForm? f with
    | some n => do .ok (n :: (← ofForms text (place + 1) rest))
    | none => .error ((Error.of (.wrongType "number" (text f))).withArgument (Count.wrapped place))

end Number

end Vau
