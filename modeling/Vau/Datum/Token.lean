import Vau.Error
import Vau.Text.Blank

/-! Tokens: the parentheses, the quote mark, and words, the longest runs of other characters.

White space separates tokens and a semicolon hides the rest of its line. The scanner takes one
character at a time, so scanning a joined text is scanning the second part from the state in
which the first one ended. -/

set_option autoImplicit false

namespace Vau

inductive Lexeme where
  | opening
  | closing
  | quote
  | word (text : String)
  deriving DecidableEq, Repr

def Lexeme.text : Lexeme → String
  | opening => "("
  | closing => ")"
  | quote => "'"
  | word text => text

structure Token where
  lexeme : Lexeme
  position : Position
  deriving DecidableEq, Repr

def Position.start : Position := ⟨1, 1⟩

/-- Lines and columns wrap around behind the last number that they have; a build that checks its
arithmetic stops there instead. -/
def Position.after (p : Position) (c : Char) : Position :=
  if c = '\n' then ⟨p.line + 1, 1⟩ else ⟨p.line, p.column + 1⟩

/-- What the next character continues. The characters of a word are kept newest first. -/
inductive Scanning where
  | gap
  | comment
  | word (start : Position) (newest : List Char)
  deriving DecidableEq, Repr

structure Scanner where
  position : Position := .start
  inside : Scanning := .gap
  done : List Token := []
  deriving DecidableEq, Repr

namespace Scanner

def flush (s : Scanner) : List Token :=
  match s.inside with
  | .word start newest => ⟨.word (String.ofList newest.reverse), start⟩ :: s.done
  | .gap | .comment => s.done

def delimiter? : Char → Option Lexeme
  | '(' => some .opening
  | ')' => some .closing
  | '\'' => some .quote
  | _ => none

def feed (s : Scanner) (c : Char) : Scanner :=
  let position := s.position.after c
  match s.inside with
  | .comment => { s with position, inside := if c = '\n' then .gap else .comment }
  | _ =>
    if c = ';' then ⟨position, .comment, s.flush⟩
    else if Text.isBlank c then ⟨position, .gap, s.flush⟩
    else match delimiter? c with
      | some lexeme => ⟨position, .gap, ⟨lexeme, s.position⟩ :: s.flush⟩
      | none =>
        match s.inside with
        | .word start newest => { s with position, inside := .word start (c :: newest) }
        | _ => { s with position, inside := .word s.position [c] }

def tokens (s : Scanner) : List Token := s.flush.reverse

end Scanner

def tokenize (text : String) : List Token := (text.toList.foldl Scanner.feed {}).tokens

end Vau
