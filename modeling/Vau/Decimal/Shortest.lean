/-! The shortest decimal that reads back to a given binary magnitude.

A magnitude is a positive number `significand · 2 ^ exponent` with the interval of reals that
round to it. Coarse decimal grids are tried before fine ones; on a grid only the two neighbours
of the magnitude matter, since any other point of the interval lies beyond one of them. -/

set_option autoImplicit false

namespace Vau

structure Decimal where
  coefficient : Nat
  exponent : Int
  deriving DecidableEq, Repr

namespace Decimal

/-- The power `base ^ exponent`, one for a negative exponent. -/
def power (base : Nat) (exponent : Int) : Nat := Nat.pow base exponent.toNat

/-- The number `value / unit` and the reals that round to it: from `(value - below) / unit` to
`(value + above) / unit`, ends included when `closed`. -/
structure Magnitude where
  value : Nat
  unit : Nat
  below : Nat
  above : Nat
  closed : Bool
  deriving DecidableEq, Repr

/-- The magnitude `significand · 2 ^ exponent`. Quarters of the last place are counted, because
below a power of two the neighbours lie half as far apart. -/
def Magnitude.ofBinary (significand : Nat) (exponent : Int) (narrowBelow : Bool) : Magnitude :=
  let scale := power 2 exponent
  { value := 4 * significand * scale
    unit := 4 * power 2 (-exponent)
    below := (if narrowBelow then 1 else 2) * scale
    above := 2 * scale
    closed := significand % 2 = 0 }

def digitCount (n : Nat) : Nat := (Nat.toDigits 10 n).length

def Magnitude.order (m : Magnitude) : Int :=
  let e : Int := digitCount m.value - digitCount m.unit
  if m.unit * power 10 e ≤ m.value * power 10 (-e) then e + 1 else e

def Magnitude.covers (m : Magnitude) (point : Nat) : Bool :=
  if m.closed then m.value ≤ point + m.below && point ≤ m.value + m.above
  else m.value < point + m.below && point < m.value + m.above

/-- The best point of the grid of multiples of `10 ^ exponent`, if one rounds to the magnitude.
Of two the nearer is taken, and the upper one when they are equally near. -/
def Magnitude.onGrid? (m : Magnitude) (exponent : Int) : Option Decimal :=
  let fine := power 10 (-exponent)
  let m : Magnitude :=
    { m with value := m.value * fine, below := m.below * fine, above := m.above * fine }
  let cell := m.unit * power 10 exponent
  let low := m.value / cell
  let high := low + 1
  let lowFits := m.covers (low * cell)
  let highFits := m.covers (high * cell)
  if lowFits && (!highFits || 2 * (m.value % cell) < cell) then some ⟨low, exponent⟩
  else if highFits then some ⟨high, exponent⟩
  else none

/-- Seventeen digits tell all binary magnitudes of 53 bits apart, so the search never fails. -/
def Magnitude.shortest (m : Magnitude) : Decimal :=
  let order := m.order
  let grids := (List.range 17).map fun (n : Nat) => order - 1 - (n : Int)
  (grids.findSome? m.onGrid?).getD ⟨0, 0⟩

end Decimal

end Vau
