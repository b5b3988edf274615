import Vau.Decimal.Layout
import Vau.Form

/-! The written form of values, and the names of their types. -/

set_option autoImplicit false

namespace Vau

inductive Place where
  | alone
  | tail
  deriving DecidableEq, Repr

/-- An atom behind the items of a list stands after a dot and ends the list. -/
def Place.atom (place : Place) (text : String) : String :=
  match place with
  | alone => text
  | tail => " . " ++ text ++ ")"

/-- A native does not give its name away while it runs. -/
def Native.text (running : Option Native) (n : Native) : String :=
  if running.any n.same then "#[native]" else "#[native " ++ n.name ++ "]"

mutual

def Form.write (running : Option Native) (place : Place) : Form → String
  | .nil => match place with
    | .alone => "()"
    | .tail => ")"
  | .pair _ car cdr =>
    (match place with
      | .alone => "("
      | .tail => " ") ++ car.write running .alone ++ cdr.write running .tail
  | .symbol name => place.atom name
  | .int value => place.atom (Decimal.integerText value.toInt)
  | .real value => place.atom (Decimal.realText value)
  | .bool true => place.atom "#t"
  | .bool false => place.atom "#f"
  | .ignore => place.atom "#ignore"
  | .inert => place.atom "#inert"
  | .combiner c => place.atom (c.write running)
  | .environment _ => place.atom "#[environment]"

def Combiner.write (running : Option Native) : Combiner → String
  | .operative _ _ template => template.write running
  | .applicative _ inner => "#[applicative " ++ inner.write running ++ "]"
  | .native n => n.text running
  | .continuation stack => "#[continuation " ++ Nat.repr stack.depth ++ "]"
  | .eval => "#[eval]"

def Template.write (running : Option Native) : Template → String
  | ⟨parameters, _, _, _, _⟩ => "#[operative " ++ parameters.write running .alone ++ "]"

end

def Form.text (f : Form) : String := f.write none .alone

/-- Write behind a text. No list is copied on the way, however long it is. -/
def Form.writeBehind (running : Option Native) (place : Place) (front : String) : Form → String
  | .pair _ car cdr =>
    let start := match place with
      | .alone => "("
      | .tail => " "
    cdr.writeBehind running .tail (car.writeBehind running .alone (front ++ start))
  | f => front ++ f.write running place

theorem Form.writeBehind_eq (running : Option Native) : ∀ (f : Form) (place : Place)
    (front : String), f.writeBehind running place front = front ++ f.write running place
  | .pair _ car cdr, place, front => by
    unfold writeBehind write
    dsimp only
    rw [car.writeBehind_eq, cdr.writeBehind_eq]
    simp only [String.append_assoc]
  | .nil, _, _ | .symbol _, _, _ | .int _, _, _ | .real _, _, _ | .bool _, _, _ | .ignore, _, _
  | .inert, _, _ | .combiner _, _, _ | .environment _, _, _ => rfl

def Form.textDuring (f : Form) (running : Native) : String :=
  f.writeBehind (some running) .alone ""

theorem Form.textDuring_eq (f : Form) (running : Native) :
    f.textDuring running = f.write (some running) .alone :=
  (f.writeBehind_eq _ _ _).trans String.empty_append

def Combiner.text (c : Combiner) : String := c.write none

def Combiner.typeName : Combiner → String
  | operative .. | eval => "operative"
  | applicative .. => "applicative"
  | native _ => "native"
  | continuation _ => "continuation"

def Form.typeName : Form → String
  | nil => "nil"
  | symbol _ => "symbol"
  | int _ => "integer"
  | real _ => "real"
  | bool _ => "boolean"
  | ignore => "ignore"
  | inert => "inert"
  | pair .. => "pair"
  | combiner c => c.typeName
  | environment _ => "environment"

end Vau
