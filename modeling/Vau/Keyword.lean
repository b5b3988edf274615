/-! Reserved spellings: the operators that the compiler knows, the constants, `eval` and the dot. -/

set_option autoImplicit false

namespace Vau

inductive Keyword where
  | vau
  | lambda
  | lambdaShort
  | define
  | assign
  | assignShort
  | conditional
  | conditionalShort
  | sequence
  | sequenceShort
  | quote
  | callCC
  | eval
  | ignore
  | inert
  | yes
  | no
  | dot
  deriving DecidableEq, Repr

inductive SpecialForm where
  | vau
  | lambda
  | define
  | assign
  | conditional
  | sequence
  | quote
  | callCC
  deriving DecidableEq, Repr

namespace Keyword

def spelling : Keyword → String
  | vau => "$vau"
  | lambda => "$lambda"
  | lambdaShort => "lambda"
  | define => "$define!"
  | assign => "$set!"
  | assignShort => "set!"
  | conditional => "$if"
  | conditionalShort => "if"
  | sequence => "$sequence"
  | sequenceShort => "$begin"
  | quote => "$quote"
  | callCC => "call/cc"
  | eval => "eval"
  | ignore => "#ignore"
  | inert => "#inert"
  | yes => "#t"
  | no => "#f"
  | dot => "."

def all : List Keyword :=
  [vau, lambda, lambdaShort, define, assign, assignShort, conditional, conditionalShort,
    sequence, sequenceShort, quote, callCC, eval, ignore, inert, yes, no, dot]

def ofSpelling? (text : String) : Option Keyword := all.find? (·.spelling == text)

theorem mem_all (k : Keyword) : k ∈ all := by cases k <;> decide

theorem ofSpelling?_spelling (k : Keyword) : ofSpelling? k.spelling = some k := by
  cases k <;> decide

/-- These operators cannot be shadowed. -/
def special? : Keyword → Option SpecialForm
  | vau => some .vau
  | lambda | lambdaShort => some .lambda
  | define => some .define
  | assign | assignShort => some .assign
  | conditional | conditionalShort => some .conditional
  | sequence | sequenceShort => some .sequence
  | quote => some .quote
  | callCC => some .callCC
  | eval | ignore | inert | yes | no | dot => none

end Keyword

def SpecialForm.ofName? (name : String) : Option SpecialForm :=
  (Keyword.ofSpelling? name).bind Keyword.special?

end Vau
