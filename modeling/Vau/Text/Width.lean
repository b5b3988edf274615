import Vau.Text.Emoji
import Vau.Text.Ligature
import Vau.Text.Wide

/-! The number of columns that a text takes on a terminal. What a character takes depends on what
follows it, so a text is measured from its end. -/

set_option autoImplicit false

namespace Vau.Text

def textSelector : Char := '\ufe0e'

def pictureSelector : Char := '\ufe0f'

/-- The columns of a character that stands alone. Control characters take one. -/
def columns (c : Char) : Nat :=
  if c.toNat ≤ 0xA0 then 1
  else if isZeroWidth c then 0
  else if c.toNat = 0x17D8 then 3
  else if isWide c then 2
  else 1

inductive Selector where
  | text
  | picture
  deriving DecidableEq, Repr

/-- What a text begins with, as far as it decides what a character before it takes. -/
inductive Front where
  | other
  | selector (s : Selector)
  /-- An ending that a ligature may have, after a joiner and a selector if there are any. -/
  | letter (ending : Ending) (joined : Bool) (selected : Option Selector)
  | picture
  | modifier
  | flagHalf
  | flagHalves
  /-- A joiner before a picture, after the mark of a keycap and a selector if there are any. -/
  | joiner (keycap selected : Bool)
  | joinedHalf
  | joinedHalves (odd : Bool)
  /-- The end of a flag of a region, joined to a picture: the letters and digits read so far. -/
  | region (letters digits : Nat)
  deriving DecidableEq, Repr

namespace Front

def of (c : Char) : Front :=
  if c.toNat ≤ 0xA0 then other
  else if c = textSelector then selector .text
  else if c = pictureSelector then selector .picture
  else if isModifier c then modifier
  else if isFlagHalf c then flagHalf
  else if isPictograph c then picture
  else match Ending.of? c with
    | some ending => letter ending false none
    | none => other

def selected? : Front → Option Selector
  | selector s => some s
  | letter _ _ s => s
  | joiner _ true => some .picture
  | _ => none

def withoutSelector : Front → Front
  | selector _ => other
  | letter ending joined _ => letter ending joined none
  | joiner _ true => other
  | front => front

end Front

structure Extent where
  width : Nat
  front : Front
  deriving DecidableEq, Repr

namespace Extent

def empty : Extent := { width := 0, front := .other }

/-- A character that its selector applies to. Before a joiner it belongs to the next picture. -/
def select? (c : Char) (e : Extent) : Option Extent :=
  match e.front.selected? with
  | some .picture =>
    if canBePicture c then
      match e.front with
      | .joiner _ _ => some { e with front := .picture }
      | _ => some { width := e.width + 2, front := .picture }
    else none
  | some .text => if canBeText c then some { width := e.width + 1, front := .other } else none
  | none => none

def join? (c : Char) (e : Extent) : Option Extent :=
  match e.front with
  | .letter ending joined _ =>
    if c = pictureSelector then some { e with front := .letter ending joined (some .picture) }
    else if c = textSelector then some { e with front := .letter ending joined (some .text) }
    else if ending.skips c then
      some { e with front := .letter ending (joined || c = zeroWidthJoiner) none }
    else match ending.grow? c joined with
      | some (.complete saved) => some { width := e.width - saved, front := .other }
      | some (.longer width ending) =>
        some { width := e.width + width, front := .letter ending true none }
      | none => none
  | _ => none

def joinPicture? (c : Char) (e : Extent) : Option Extent :=
  if c = zeroWidthJoiner then some { e with front := .joiner false false } else none

/-- The halves of flags pair up from the left, so those before a joiner belong to the picture after
it only if there is no odd one; the columns change with every half that is read. -/
def pairHalves? (c : Char) (e : Extent) : Option Extent :=
  if !isFlagHalf c then none
  else match e.front with
    | .flagHalf | .flagHalves => some { width := e.width + 1, front := .flagHalves }
    | .joiner false _ => some { width := e.width + 1, front := .joinedHalf }
    | .joinedHalf | .joinedHalves true =>
      some { width := e.width - 1, front := .joinedHalves false }
    | .joinedHalves false => some { width := e.width + 3, front := .joinedHalves true }
    | _ => none

/-- A region is spelled by three to six letters, or by three digits and at most four letters. -/
def spellRegion? (c : Char) (e : Extent) : Option Extent :=
  match e.front with
  | .region letters digits =>
    if digits = 0 && letters < 6 && isTagLetter c then
      some { e with front := .region (letters + 1) 0 }
    else if letters ≤ 4 && digits < 3 && isTagDigit c then
      some { e with front := .region letters (digits + 1) }
    else if c = blackFlag && (digits = 3 || (digits = 0 && 3 ≤ letters)) then
      some { e with front := .picture }
    else none
  | _ => none

def extendPicture? (c : Char) (e : Extent) : Option Extent :=
  match e.front with
  | .picture | .flagHalves | .joinedHalves _ => e.joinPicture? c
  | .modifier => if isModifierBase c then some { e with front := .picture } else e.joinPicture? c
  | .joiner keycap _ =>
    if c = pictureSelector then some { e with front := .joiner keycap true }
    else if keycap then none
    else if c = Text.keycap then some { e with front := .joiner true false }
    else if isModifier c then some { e with front := .modifier }
    else if c = tagEnd then some { e with front := .region 0 0 }
    else if isPictograph c then some { e with front := .picture }
    else none
  | _ => none

def cons (c : Char) (e : Extent) : Extent :=
  let rest := { e with front := e.front.withoutSelector }
  (e.select? c <|> rest.join? c <|> rest.pairHalves? c <|> rest.spellRegion? c <|>
    rest.extendPicture? c).getD { width := e.width + columns c, front := .of c }

end Extent

def extent (text : List Char) : Extent := text.foldr Extent.cons .empty

def width (text : String) : Nat := (extent text.toList).width

end Vau.Text
