import Vau.Datum.Token

/-! Matching parentheses. -/

set_option autoImplicit false

namespace Vau

/-- Parentheses met so far: those still open, innermost first, and the matched pairs of indexes. -/
structure Matching where
  index : Nat := 0
  opened : List (Nat × Position) := []
  pairs : List (Nat × Nat) := []
  deriving DecidableEq, Repr

namespace Matching

def feed (m : Matching) (t : Token) : Except Error Matching :=
  match t.lexeme with
  | .opening => .ok { m with index := m.index + 1, opened := (m.index, t.position) :: m.opened }
  | .closing =>
    match m.opened with
    | (start, _) :: opened => .ok ⟨m.index + 1, opened, (start, m.index) :: m.pairs⟩
    | [] => .error (Cause.trailingDelimiter.at t.position)
  | .quote | .word _ => .ok { m with index := m.index + 1 }

end Matching

/-- For each opening parenthesis its index among the tokens and that of the one that closes it.
The first closing parenthesis without a partner is reported, or else the last opening one. -/
def matchDelimiters (tokens : List Token) : Except Error (List (Nat × Nat)) := do
  let m ← tokens.foldlM Matching.feed {}
  match m.opened with
  | (_, position) :: _ => .error (Cause.unclosedDelimiter.at position)
  | [] => .ok m.pairs

end Vau
