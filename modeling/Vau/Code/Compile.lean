import Vau.Keyword
import Vau.Scope.Parameters

/-! Compiling forms to code.

A form is compiled against the code that runs once its value is in the accumulator. A combination
in front of a return needs no frame, so calls in tail position leave the control stack alone. -/

set_option autoImplicit false

namespace Vau

namespace SpecialForm

def arity : SpecialForm → Arity
  | quote => .exactly 1
  | conditional => .upTo 2 1
  | define => .exactly 2
  | assign => .exactly 2
  | vau => .atLeast 3
  | lambda => .atLeast 2
  | sequence => .any
  | callCC => .exactly 1

def ofHead? : Form → Option (SpecialForm × String)
  | .symbol name => (ofName? name).map fun form => (form, name)
  | _ => none

end SpecialForm

namespace Code

def isReturn : Code → Bool
  | ret => true
  | _ => false

/-- Resume at `next` after `code`, unless all that is left is to return. -/
def framed (code next : Code) : Code := if next.isReturn then code else .frame next code

end Code

/-- The environment of the caller and the parameters of a closure share one scope. -/
def Form.checkClosure (formal parameters : Form) : Except Error Unit := do
  match formal with
  | .symbol _ | .ignore => pure ()
  | _ => throw (.of (.illegalParameter formal.text))
  let _ ← parameters.parametersAfter (← formal.parametersAfter [])

mutual

def Form.compile : Form → Code → Except Error Code
  | .symbol name, next => .ok (.refer name next)
  | .pair _ head operands, next =>
    match SpecialForm.ofHead? head with
    | none => do .ok (.framed (← head.compile (.apply operands)) next)
    | some (special, name) =>
      let attributed {α : Type} (r : Except Error α) : Except Error α :=
        r.mapError (·.withOperator name)
      let count := Count.saturated operands.items.length
      let miscounted := attributed (.error (.of (.arity special.arity count)))
      if !operands.ending.isNil then attributed (.error (.of .dottedOperands))
      else match special, operands with
        | .quote, .pair _ value .nil => .ok (.constant value next)
        | .conditional, .pair _ test (.pair _ consequent .nil) => do
          let consequent ← consequent.compile next
          test.compile (.test consequent (.constant .inert next))
        | .conditional, .pair _ test (.pair _ consequent (.pair _ alternative .nil)) => do
          let consequent ← consequent.compile next
          let alternative ← alternative.compile next
          test.compile (.test consequent alternative)
        | .define, .pair _ parameters (.pair _ value .nil) => do
          attributed parameters.checkParameters
          value.compile (.define parameters next)
        | .assign, .pair _ (.symbol target) (.pair _ value .nil) =>
          value.compile (.assign target next)
        | .assign, .pair _ target (.pair _ _ .nil) =>
          attributed (.error (.of (.illegalParameter target.text)))
        | .vau, .pair _ parameters (.pair _ formal source) =>
          if source.isNil then miscounted
          else do
            attributed (formal.checkClosure parameters)
            let body ← source.compileAll .ret
            .ok (.close ⟨parameters, formal, source, body, false⟩ next)
        | .lambda, .pair _ parameters source =>
          if source.isNil then miscounted
          else do
            attributed (Form.ignore.checkClosure parameters)
            let body ← source.compileAll .ret
            .ok (.close ⟨parameters, .ignore, source, body, true⟩ next)
        | .sequence, forms => forms.compileAll next
        | .callCC, .pair _ receiver .nil => do
          .ok (.framed (.capture (← receiver.compile .call)) next)
        | _, _ => miscounted
  | value, next => .ok (.constant value next)

/-- Forms in order; the value is that of the last, `#inert` if there is none. They are compiled
from the last to the first. -/
def Form.compileAll : Form → Code → Except Error Code
  | .pair _ form rest, next =>
    match rest with
    | .pair .. => do form.compile (← rest.compileAll next)
    | _ => form.compile next
  | _, next => .ok (.constant .inert next)

end

def Form.compileOperands : Form → Code → Except Error Code
  | .pair _ operand rest, next => do operand.compile (.argument (← rest.compileOperands next))
  | _, next => .ok next

def Form.compileArguments (operands : Form) (c : Combiner) : Except Error Code := do
  let _ ← operands.operands Form.text
  operands.compileOperands (.constant (.combiner c) .call)

end Vau
