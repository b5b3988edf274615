import Vau.Scope

/-! What evaluation acts on: the scopes, the supply of identities, and the output. -/

set_option autoImplicit false

namespace Vau

structure Output where
  written : String := ""
  /-- How many more bytes are accepted; without a bound when absent. -/
  room : Option Nat := none
  writeFault : Option OutputFault := none
  flushFault : Option OutputFault := none

namespace Output

/-- The characters that fit into `room` bytes. One that fits only in part leaves a replacement
character. -/
def fitting : Nat → List Char → List Char
  | _, [] => []
  | room, c :: cs =>
    if c.utf8Size ≤ room then c :: fitting (room - c.utf8Size) cs
    else if room = 0 then []
    else ['\uFFFD']

/-- Writing keeps what fits. Nothing is asked of the output for an empty text. -/
def write (o : Output) (text : String) : Except OutputFault Unit × Output :=
  if text.isEmpty then (.ok (), o)
  else match o.writeFault, o.room with
    | some fault, _ => (.error fault, o)
    | none, none => (.ok (), { o with written := o.written ++ text })
    | none, some room =>
      if text.utf8ByteSize ≤ room then
        (.ok (), { o with written := o.written ++ text, room := some (room - text.utf8ByteSize) })
      else
        let kept := String.ofList (fitting room text.toList)
        (.error .writeZero, { o with written := o.written ++ kept, room := some 0 })

def flush (o : Output) : Except OutputFault Unit :=
  match o.flushFault with
  | some fault => .error fault
  | none => .ok ()

end Output

structure Store where
  scopes : Scopes := #[]
  /-- No object has this number or a higher one yet. -/
  fresh : Identity := 0
  output : Output := {}

/-- A computation on the store. What it did before an error stays done. -/
abbrev Action (α : Type) := ExceptT Error (StateM Store) α

namespace Action

def fresh : Action Identity := do
  let store ← get
  set { store with fresh := store.fresh + 1 }
  return store.fresh

def cons (car cdr : Form) : Action Form := return .pair (← fresh) car cdr

def list (items : List Form) : Action Form := do
  let store ← get
  let (form, next) := Form.chain items .nil store.fresh
  set { store with fresh := next }
  return form

def wrap (c : Combiner) : Action Form := return .combiner (.applicative (← fresh) c)

def form (d : Datum) : Action Form := do
  let store ← get
  let (form, next) := Form.ofDatum d store.fresh
  set { store with fresh := next }
  return form

def fail {α : Type} (cause : Cause) : Action α := throw (.of cause)

def newScope (parent : Option ScopeId) : Action ScopeId := do
  let store ← get
  let (e, scopes) := store.scopes.extend parent
  set { store with scopes }
  return e

def define (e : ScopeId) (name : String) (value : Form) : Action Unit :=
  modify fun store => { store with scopes := store.scopes.define e name value }

def assign (e : ScopeId) (name : String) (value : Form) : Action Unit := do
  let store ← get
  set { store with scopes := ← store.scopes.set e name value }

def write (text : String) : Action Unit := do
  let store ← get
  let (result, output) := store.output.write text
  set { store with output }
  match result with
  | .ok () => return ()
  | .error fault => fail (.output fault)

def flush : Action Unit := do
  match (← get).output.flush with
  | .ok () => return ()
  | .error fault => fail (.output fault)

end Action

end Vau
