/-! Numerals: an optional sign, digits, and an optional point with digits behind it. -/

set_option autoImplicit false

namespace Vau.Decimal

structure Numeral where
  negative : Bool
  whole : List Char
  fraction : Option (List Char)
  deriving DecidableEq, Repr

def isDigits (cs : List Char) : Bool := !cs.isEmpty && cs.all Char.isDigit

def Numeral.ofUnsigned? (negative : Bool) (cs : List Char) : Option Numeral :=
  match cs.span (· != '.') with
  | (whole, []) => if isDigits whole then some ⟨negative, whole, none⟩ else none
  | (whole, _ :: fraction) =>
    if isDigits whole && isDigits fraction then some ⟨negative, whole, some fraction⟩ else none

def Numeral.ofChars? : List Char → Option Numeral
  | '-' :: rest => ofUnsigned? true rest
  | '+' :: rest => ofUnsigned? false rest
  | cs => ofUnsigned? false cs

def digitsValue (digits : List Char) : Nat :=
  digits.foldl (fun n c => 10 * n + (c.toNat - '0'.toNat)) 0

/-- The double nearest to the numeral, infinite when it lies beyond them all. -/
def Numeral.toFloat (n : Numeral) : Float :=
  let fraction := n.fraction.getD []
  let size := Float.ofScientific (digitsValue (n.whole ++ fraction)) true fraction.length
  if n.negative then -size else size

def Numeral.toInt? (n : Numeral) : Option Int :=
  match n.fraction with
  | some _ => none
  | none => some (if n.negative then -(digitsValue n.whole : Int) else digitsValue n.whole)

end Vau.Decimal
