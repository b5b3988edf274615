import Vau.Form

/-! Identity and structural equality of forms. -/

set_option autoImplicit false

namespace Vau

def Combiner.same : Combiner → Combiner → Bool
  | operative i .., operative j .. => i == j
  | applicative i _, applicative j _ => i == j
  | native n, native m => n.same m
  | continuation k, continuation l => k.same l
  | eval, eval => true
  | _, _ => false

namespace Form

def nearest (n : Int64) : Float := Float.ofInt n.toInt

/-- Identity. Numbers and symbols compare by value; an integer meets a real as a real. -/
def isSame : Form → Form → Bool
  | nil, nil => true
  | symbol x, symbol y => x == y
  | pair i .., pair j .. => i == j
  | int x, int y => x == y
  | real x, real y => x == y
  | int x, real y | real y, int x => nearest x == y
  | bool x, bool y => x == y
  | ignore, ignore => true
  | inert, inert => true
  | combiner x, combiner y => x.same y
  | environment x, environment y => x == y
  | _, _ => false

/-- Structure of pairs, identity of all else. The same pair is equal to itself unseen. -/
def isEqual : Form → Form → Bool
  | pair i a d, pair j a' d' => i == j || (a.isEqual a' && d.isEqual d')
  | f, g => f.isSame g

end Form

end Vau
