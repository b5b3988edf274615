import Vau.Error
import Vau.Form

/-! Scopes. A scope has bindings of its own and may have a parent, which was created before it. -/

set_option autoImplicit false

namespace Vau

/-- Names with their values, each name once. -/
abbrev Bindings := List (String × Form)

namespace Bindings

def get? (bindings : Bindings) (name : String) : Option Form :=
  match bindings with
  | [] => none
  | (bound, value) :: rest => if bound = name then some value else get? rest name

def put (bindings : Bindings) (name : String) (value : Form) : Bindings :=
  match bindings with
  | [] => [(name, value)]
  | (bound, old) :: rest =>
    if bound = name then (bound, value) :: rest else (bound, old) :: put rest name value

theorem get?_put (bindings : Bindings) (name other : String) (value : Form) :
    (bindings.put name value).get? other =
      if name = other then some value else bindings.get? other := by
  induction bindings with
  | nil => simp [put, get?]
  | cons head rest ih =>
    obtain ⟨bound, old⟩ := head
    by_cases h : bound = name
    · subst h
      by_cases same : bound = other <;> simp [put, get?, same]
    · by_cases same : bound = other
      · subst same
        simp [put, get?, h, Ne.symm h]
      · simp [put, get?, h, same, ih]

end Bindings

structure Scope where
  bindings : Bindings := []
  parent : Option ScopeId := none

abbrev Scopes := Array Scope

namespace Scopes

def parent? (scopes : Scopes) (e : ScopeId) : Option ScopeId := (scopes[e]?).bind Scope.parent

def bindings (scopes : Scopes) (e : ScopeId) : Bindings :=
  match scopes[e]? with
  | some scope => scope.bindings
  | none => []

def chainOf (scopes : Scopes) : Nat → ScopeId → List ScopeId
  | 0, _ => []
  | n + 1, e => e :: match scopes.parent? e with
    | some parent => scopes.chainOf n parent
    | none => []

/-- A scope and its ancestors. As parents are older, no chain from `e` has more than `e + 1`
members. -/
def chain (scopes : Scopes) (e : ScopeId) : List ScopeId := scopes.chainOf (e + 1) e

def depth (scopes : Scopes) (e : ScopeId) : Nat := (scopes.chain e).length - 1

def binder? (scopes : Scopes) (e : ScopeId) (name : String) : Option ScopeId :=
  (scopes.chain e).find? fun d => ((scopes.bindings d).get? name).isSome

def get? (scopes : Scopes) (e : ScopeId) (name : String) : Option Form :=
  (scopes.chain e).findSome? fun d => (scopes.bindings d).get? name

def lookup (scopes : Scopes) (e : ScopeId) (name : String) : Except Error Form :=
  match scopes.get? e name with
  | some value => .ok value
  | none => .error (.of (.unbound name))

def define (scopes : Scopes) (e : ScopeId) (name : String) (value : Form) : Scopes :=
  scopes.modify e fun scope => { scope with bindings := scope.bindings.put name value }

def set (scopes : Scopes) (e : ScopeId) (name : String) (value : Form) : Except Error Scopes :=
  match scopes.binder? e name with
  | some d => .ok (scopes.define d name value)
  | none => .error (.of (.unbound name))

def clear (scopes : Scopes) (e : ScopeId) : Scopes :=
  scopes.modify e fun scope => { scope with bindings := [] }

/-- Names bound in the scope itself, in the order of their code points. -/
def names (scopes : Scopes) (e : ScopeId) : List String :=
  ((scopes.bindings e).map Prod.fst).mergeSort fun x y => decide (x ≤ y)

def extend (scopes : Scopes) (parent : Option ScopeId) : ScopeId × Scopes :=
  (scopes.size, scopes.push { parent })

end Scopes

end Vau
