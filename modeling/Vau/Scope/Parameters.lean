import Vau.Form.Text
import Vau.Scope

/-! Parameter trees: trees of symbols, `#ignore`, nil and pairs, matched against operand trees. -/

set_option autoImplicit false

namespace Vau

namespace Form

def parametersAfter (seen : List String) : Form → Except Error (List String)
  | symbol name =>
    if seen.contains name then .error (.of (.duplicateParameter name)) else .ok (name :: seen)
  | nil | ignore => .ok seen
  | pair _ car cdr => do cdr.parametersAfter (← car.parametersAfter seen)
  | f => .error (.of (.illegalParameter f.text))

def checkParameters (f : Form) : Except Error Unit := do
  let _ ← f.parametersAfter []

def operands (f : Form) (text : Form → String) : Except Error (List Form) :=
  match f.list? with
  | some items => .ok items
  | none => .error (.of (.mismatch "a proper list of operands" (text f)))

end Form

/-- Match a parameter tree against an operand tree, defining its symbols in the scope. What comes
before a mismatch stays defined. -/
def Scopes.bind (scopes : Scopes) (e : ScopeId) : Form → Form → Except Error Unit × Scopes
  | .symbol name, operand => (.ok (), scopes.define e name operand)
  | .ignore, _ => (.ok (), scopes)
  | .nil, .nil => (.ok (), scopes)
  | .pair _ car cdr, .pair _ first rest =>
    match scopes.bind e car first with
    | (.ok (), scopes) => scopes.bind e cdr rest
    | failed => failed
  | parameters@(.nil), operand | parameters@(.pair ..), operand =>
    (.error (.of (.mismatch parameters.text operand.text)), scopes)
  | parameters, _ => (.error (.of (.illegalParameter parameters.text)), scopes)

end Vau
