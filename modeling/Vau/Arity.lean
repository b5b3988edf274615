/-! How many operands a combiner takes. -/

set_option autoImplicit false

namespace Vau

/-- From `required` to `required + optional` operands, or any number from `required` on when
`rest` is set. Bounds are 16 bits wide. -/
structure Arity where
  required : UInt16
  optional : UInt16
  rest : Bool
  deriving DecidableEq, Repr

namespace Arity

def exactly (n : UInt16) : Arity := ⟨n, 0, false⟩

def upTo (required optional : UInt16) : Arity := ⟨required, optional, false⟩

def atLeast (n : UInt16) : Arity := ⟨n, 0, true⟩

def any : Arity := atLeast 0

def most (a : Arity) : UInt16 := a.required + a.optional

def accepts (a : Arity) (n : UInt16) : Bool :=
  n == a.required || (a.rest && a.required ≤ n) ||
    (!a.rest && 0 < a.optional && a.required ≤ n && n ≤ a.most)

/-- Counts beyond 16 bits are taken as the largest one. -/
def narrow (count : Nat) : UInt16 := UInt16.ofNat (min count 65535)

def admits (a : Arity) (count : Nat) : Bool := a.accepts (narrow count)

def text (a : Arity) : String :=
  if a.rest then Nat.repr a.required.toNat ++ ".."
  else if 0 < a.optional then Nat.repr a.required.toNat ++ ".." ++ Nat.repr a.most.toNat
  else Nat.repr a.required.toNat

def demand (a : Arity) : String :=
  let arguments := if a.required = 1 then " argument" else " arguments"
  if a.rest then "at least " ++ Nat.repr a.required.toNat ++ arguments
  else if a.optional = 0 then Nat.repr a.required.toNat ++ arguments
  else "from " ++ Nat.repr a.required.toNat ++ " to " ++ Nat.repr a.most.toNat ++ " arguments"

end Arity

namespace Count

/-- A count as a check reports it, with 32 bits: a larger one as the largest. -/
def saturated (count : Nat) : Nat := min count 4294967295

/-- A count as natives report it: its last 32 bits. -/
def wrapped (count : Nat) : Nat := count % 4294967296

end Count

end Vau
