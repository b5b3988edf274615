/-! White space: the 25 characters with the Unicode property White_Space. -/

set_option autoImplicit false

namespace Vau.Text

def isBlank (c : Char) : Bool :=
  let n := c.toNat
  n == 0x20 || (0x09 ≤ n && n ≤ 0x0D) || n == 0x85 || n == 0xA0 || n == 0x1680 ||
    (0x2000 ≤ n && n ≤ 0x200A) || n == 0x2028 || n == 0x2029 || n == 0x202F ||
    n == 0x205F || n == 0x3000

def trim (text : String) : String :=
  let front := text.toList.dropWhile isBlank
  String.ofList (front.reverse.dropWhile isBlank).reverse

/-- Cut at the first white space character, which belongs to neither part. -/
def cutAtBlank (text : String) : String × String :=
  match text.toList.span (fun c => !isBlank c) with
  | (front, _ :: rest) => (String.ofList front, String.ofList rest)
  | (front, []) => (String.ofList front, "")

end Vau.Text
