import Vau.Decimal.Shortest

/-! The written form of a real number. -/

set_option autoImplicit false

namespace Vau.Decimal

/-- How a real is laid out. Numbers whose leading digit stands for `10 ^ k` with
`leastPositional ≤ k ≤ mostPositional` are written in positional notation. -/
structure Layout where
  leastPositional : Int
  mostPositional : Int
  point : Char
  exponentMark : Char
  infinite : String
  undefined : String

/-- Positional from 0.0001 up to 10 ^ 16, always with a fraction; outside of that a power of ten
without padding. Values that are no number carry no digits. -/
def Layout.real : Layout :=
  { leastPositional := -4
    mostPositional := 15
    point := '.'
    exponentMark := 'e'
    infinite := "inf"
    undefined := "NaN" }

def integerText (n : Int) : String :=
  if n < 0 then "-" ++ Nat.repr n.natAbs else Nat.repr n.natAbs

def digits (d : Decimal) : List Char × Int :=
  let all := Nat.toDigits 10 d.coefficient
  ((all.reverse.dropWhile (· == '0')).reverse, d.exponent + all.length - 1)

def Layout.positional (layout : Layout) (digits : List Char) (lead : Int) : List Char :=
  if lead < 0 then
    '0' :: layout.point :: List.replicate ((-lead).toNat - 1) '0' ++ digits
  else
    let whole := lead.toNat + 1
    if digits.length ≤ whole then
      digits ++ List.replicate (whole - digits.length) '0' ++ [layout.point, '0']
    else
      digits.take whole ++ layout.point :: digits.drop whole

def Layout.scientific (layout : Layout) (digits : List Char) (lead : Int) : List Char :=
  let significand := match digits with
    | first :: [] => [first]
    | first :: rest => first :: layout.point :: rest
    | [] => []
  significand ++ layout.exponentMark :: (integerText lead).toList

def Layout.decimal (layout : Layout) (d : Decimal) : List Char :=
  match d.digits with
  | ([], _) => ['0', layout.point, '0']
  | (digits, lead) =>
    if layout.leastPositional ≤ lead && lead ≤ layout.mostPositional then
      layout.positional digits lead
    else
      layout.scientific digits lead

def magnitude (biased fraction : Nat) : Magnitude :=
  if biased = 0 then .ofBinary fraction (-1074) false
  else .ofBinary (fraction + power 2 52) (biased - 1075) (fraction = 0 && 1 < biased)

def Layout.text (layout : Layout) (x : Float) : String :=
  let bits := x.toBits.toNat
  let biased := bits / power 2 52 % 2048
  let fraction := bits % power 2 52
  let sign := if bits / power 2 63 = 1 then "-" else ""
  if biased = 2047 then
    if fraction = 0 then sign ++ layout.infinite else layout.undefined
  else if biased = 0 && fraction = 0 then
    sign ++ String.ofList (layout.decimal ⟨0, 0⟩)
  else
    sign ++ String.ofList (layout.decimal (magnitude biased fraction).shortest)

def realText (x : Float) : String := Layout.real.text x

end Vau.Decimal
