/-! Data: the trees that a text can denote. -/

set_option autoImplicit false

namespace Vau

inductive Datum where
  | nil
  | symbol (name : String)
  | int (value : Int64)
  | real (value : Float)
  | bool (value : Bool)
  | ignore
  | inert
  | pair (car cdr : Datum)
  deriving DecidableEq

namespace Datum

def chain (items : List Datum) (tail : Datum) : Datum := items.foldr pair tail

def list (items : List Datum) : Datum := chain items nil

end Datum

end Vau
