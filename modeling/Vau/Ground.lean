import Vau.Machine.Run

/-! The ground environment, and a machine that has it.

The ground scope binds the primitives, `eval`, and the combiners derived from them. The top level
is a child of it. -/

set_option autoImplicit false

namespace Vau

namespace Machine

def ground : ScopeId := 0

def topLevel : ScopeId := 1

def derived : String := "
($define! list (wrap ($vau x #ignore x)))

($define! get-current-environment (wrap ($vau () e e)))

($define! cadr ($lambda (x) (car (cdr x))))

($define! map
  ($lambda (f xs)
    ($if (null? xs)
         ()
         (cons (f (car xs)) (map f (cdr xs))))))

;; (apply appv args [env])
($define! apply
  ($lambda (appv args . opt)
    (eval (cons (unwrap appv) args)
          ($if (null? opt) (make-environment) (car opt)))))

($define! $when
  ($vau (test . body) e
    ($if (eval test e)
         (eval (cons ($quote $sequence) body) e))))

($define! $unless
  ($vau (test . body) e
    ($if (eval test e)
         #inert
         (eval (cons ($quote $sequence) body) e))))

($define! $let
  ($vau (bindings . body) e
    (eval (cons (cons ($quote $lambda) (cons (map car bindings) body))
                (map cadr bindings))
          e)))
"

def bindWrapped (name : String) (c : Combiner) : Action Unit := do
  Action.define ground name (← Action.wrap c)

/-- An empty ground scope with the top level below it, and the primitives bound. -/
def bare : Machine :=
  let action : Action Unit := do
    let ground ← Action.newScope none
    let _ ← Action.newScope (some ground)
    for p in Primitive.all do
      bindWrapped p.name (.native (.primitive p))
    bindWrapped Keyword.eval.spelling .eval
  (Machine.act {} action).2

/-- What an outcome leaves of the machine, with nothing counted. -/
def left (m : Machine) : Outcome → Machine
  | some (_, m) => m.resetStats
  | none => m

def initial : Machine := bare.left (bare.load ampleFuel "ground" derived ground)

end Machine

end Vau
