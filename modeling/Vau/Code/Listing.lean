import Vau.Form.Text

/-! Listings of code: one instruction a line, branches, bodies and resumed code indented. -/

set_option autoImplicit false

namespace Vau

namespace Code

def name : Code → String
  | halt => "halt"
  | refer .. => "refer"
  | constant .. => "constant"
  | close .. => "close"
  | define .. => "define"
  | assign .. => "assign"
  | test .. => "test"
  | frame .. => "frame"
  | apply .. => "apply"
  | argument .. => "argument"
  | capture .. => "conti"
  | call => "call"
  | ret => "return"

end Code

mutual

def Code.lines (indent : String) : Code → List String
  | .refer name next => (indent ++ "refer " ++ name) :: next.lines indent
  | .constant value next => (indent ++ "constant " ++ value.text) :: next.lines indent
  | .close template next => template.lines indent ++ next.lines indent
  | .define parameters next => (indent ++ "define " ++ parameters.text) :: next.lines indent
  | .assign name next => (indent ++ "assign " ++ name) :: next.lines indent
  | .test consequent alternative =>
    (indent ++ "test") :: consequent.lines (indent ++ "    ") ++
      (indent ++ "else") :: alternative.lines (indent ++ "    ")
  | .frame resume next =>
    (indent ++ "frame") :: resume.lines (indent ++ "    ") ++ next.lines indent
  | .apply operands => [indent ++ "apply " ++ operands.text]
  | .argument next => (indent ++ "argument") :: next.lines indent
  | .capture next => (indent ++ "conti") :: next.lines indent
  | .halt => [indent ++ "halt"]
  | .call => [indent ++ "call"]
  | .ret => [indent ++ "return"]

def Template.lines (indent : String) : Template → List String
  | ⟨parameters, formal, _, body, wraps⟩ =>
    (indent ++ "close " ++ (if wraps then "lambda " else "vau ") ++ parameters.text ++ " " ++
      formal.text) :: body.lines (indent ++ "    ")

end

def Code.listing (code : Code) : String := String.intercalate "\n" (code.lines "")

end Vau
