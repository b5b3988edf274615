/-! Sets of characters, given by runs of code points. -/

set_option autoImplicit false

namespace Vau.Text

/-- First and last code point of a run of characters. -/
abbrev Range := Nat × Nat

def Range.covers (r : Range) (n : Nat) : Bool := r.1 ≤ n && n ≤ r.2

def covered (ranges : List Range) (c : Char) : Bool := ranges.any (·.covers c.toNat)

end Vau.Text
