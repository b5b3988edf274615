import Vau.Text.ZeroWidth

/-! Letters that are drawn as one with a letter before them, and so take one column together. -/

set_option autoImplicit false

namespace Vau.Text

def zeroWidthJoiner : Char := '\u200d'

/-- The Arabic letters with the Joining_Group Lam. -/
def isLam (c : Char) : Bool :=
  covered [(0x644, 0x644), (0x6B5, 0x6B8), (0x76A, 0x76A), (0x8A6, 0x8A6), (0x8C7, 0x8C7)] c

/-- The Arabic letters with the Joining_Group Alef. -/
def isAlef (c : Char) : Bool :=
  covered [(0x622, 0x623), (0x625, 0x625), (0x627, 0x627), (0x671, 0x673), (0x675, 0x675),
    (0x773, 0x774), (0x870, 0x882)] c

/-- Characters of no width that part the letters around them. -/
def opaqueRanges : List Range := [
  (0x605, 0x605), (0x890, 0x891), (0x8E2, 0x8E2), (0x9BE, 0x9BE), (0x9D7, 0x9D7), (0xB3E, 0xB3E),
  (0xB57, 0xB57), (0xBBE, 0xBBE), (0xBD7, 0xBD7), (0xCC0, 0xCC0), (0xCC2, 0xCC2), (0xCC7, 0xCC8),
  (0xCCA, 0xCCB), (0xCD5, 0xCD6), (0xD3E, 0xD3E), (0xD4E, 0xD4E), (0xD57, 0xD57), (0xDCF, 0xDCF),
  (0xDDF, 0xDDF), (0x1160, 0x11FF), (0x180E, 0x180E), (0x1B35, 0x1B35), (0x1B3B, 0x1B3B),
  (0x1B3D, 0x1B3D), (0x1B43, 0x1B43), (0x200C, 0x200D), (0x2065, 0x2069), (0x302E, 0x302F),
  (0x3164, 0x3164), (0xA8FA, 0xA8FA), (0xD7B0, 0xD7C6), (0xD7CB, 0xD7FB), (0xFF9E, 0xFFA0),
  (0xFFF0, 0xFFF8), (0x111C2, 0x111C3), (0x1133E, 0x1133E), (0x11357, 0x11357), (0x114B0, 0x114B0),
  (0x114BD, 0x114BD), (0x115AF, 0x115AF), (0x11930, 0x11930), (0x1193F, 0x1193F),
  (0x11941, 0x11941), (0x11A3A, 0x11A3A), (0x11A84, 0x11A89), (0x11D46, 0x11D46),
  (0x11F02, 0x11F02), (0x1D165, 0x1D165), (0x1D16E, 0x1D172), (0xE0000, 0xE0000),
  (0xE0002, 0xE001F), (0xE0080, 0xE00FF), (0xE01F0, 0xE0FFF)]

/-- Marks that may stand between a lam and its alef: those of no width with the Joining_Type
Transparent. -/
def isTransparent (c : Char) : Bool := isZeroWidth c && !covered opaqueRanges c

def isIgnorableMark (c : Char) : Bool :=
  covered [(0x34F, 0x34F), (0x17B4, 0x17B5), (0x180B, 0x180D), (0x180F, 0x180F),
    (0xFE00, 0xFE0F), (0xE0100, 0xE01EF)] c

def khmerCoeng : Char := '\u17d2'

/-- Khmer letters that a coeng puts below the letter before it. -/
def isSubscriptable (c : Char) : Bool :=
  covered [(0x1780, 0x1782), (0x1784, 0x1787), (0x1789, 0x178C), (0x178E, 0x1793),
    (0x1795, 0x1798), (0x179B, 0x179D), (0x17A0, 0x17A0), (0x17A2, 0x17A2), (0x17A7, 0x17A7),
    (0x17AB, 0x17AC), (0x17AF, 0x17AF)] c

def isTifinagh (c : Char) : Bool := covered [(0x2D31, 0x2D65), (0x2D6F, 0x2D6F)] c

def tifinaghJoiner : Char := '\u2d7f'

/-- What a ligature ends in, as far as it has been read from its end. -/
inductive Ending where
  | alef
  | lamed
  | ya
  | vowelYa
  | consonant
  | boundConsonant
  | tone
  | orkhonI
  | subscript
  deriving DecidableEq, Repr

namespace Ending

def of? (c : Char) : Option Ending :=
  if isAlef c then some alef
  else if c = '\u05dc' then some lamed
  else if c = '\u1a10' then some ya
  else if isTifinagh c then some consonant
  else if Range.covers (0xA4FC, 0xA4FD) c.toNat then some tone
  else if c.toNat = 0x10C03 then some orkhonI
  else if isSubscriptable c then some subscript
  else none

def skips (c : Char) (ending : Ending) : Bool :=
  if ending = alef then isTransparent c else isIgnorableMark c || c = zeroWidthJoiner

inductive Growth where
  /-- The character takes no column, and so many columns of the ending go with it. -/
  | complete (saved : Nat)
  | longer (width : Nat) (ending : Ending)
  deriving DecidableEq, Repr

/-- The flag tells that a zero-width joiner stands before the ending. A joiner of Tifinagh takes a
column where it joins nothing, and a coeng takes its letter out of the line. -/
def grow? (c : Char) (joined : Bool) : Ending → Option Growth
  | alef => if isLam c then some (.complete 0) else none
  | lamed => if joined && c = '\u05d0' then some (.complete 0) else none
  | ya => if joined && c = '\u1a17' then some (.longer 0 vowelYa) else none
  | vowelYa => if c = '\u1a15' then some (.complete 0) else none
  | consonant =>
    if c = tifinaghJoiner then some (.longer 1 boundConsonant)
    else if joined && isTifinagh c then some (.complete 0)
    else none
  | boundConsonant => if isTifinagh c then some (.complete 1) else none
  | tone => if Range.covers (0xA4F8, 0xA4FB) c.toNat then some (.complete 0) else none
  | orkhonI => if joined && c.toNat = 0x10C32 then some (.complete 0) else none
  | subscript => if c = khmerCoeng then some (.complete 1) else none

end Ending

end Vau.Text
