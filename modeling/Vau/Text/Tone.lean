/-! Coloured text for terminals. -/

set_option autoImplicit false

namespace Vau.Text

inductive Tone where
  | result
  | intro
  | code
  | warning
  | error
  | info
  deriving DecidableEq, Repr

/-- Selected graphic rendition parameters: a colour, then bold and underlined where they apply. -/
def Tone.rendition : Tone → String
  | result => "34;1"
  | intro => "34;1;4"
  | code => "36"
  | warning => "33;1"
  | error => "31;1"
  | info => "37;1"

def Tone.paint (tone : Tone) (text : String) : String :=
  "\x1b[" ++ tone.rendition ++ "m" ++ text ++ "\x1b[0m"

end Vau.Text
