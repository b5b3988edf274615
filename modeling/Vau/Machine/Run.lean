import Vau.Code.Listing
import Vau.Datum.Reader
import Vau.Machine

/-! Running forms and texts on a machine.

A run is bounded by fuel, one unit for each instruction. An outcome is absent when the fuel was
spent first, and does not depend on the fuel otherwise. -/

set_option autoImplicit false

namespace Vau

abbrev Outcome := Option (Except Error Form × Machine)

def ampleFuel : Nat := 1000000000000000000

def Evaluation.run : Nat → Evaluation → Outcome
  | 0, _ => none
  | fuel + 1, e =>
    match e.step with
    | .running next => next.run fuel
    | .finished value m => some (.ok value, m)
    | .failed error m => some (.error error, m)

namespace Machine

def start (m : Machine) (code : Code) (scope : ScopeId) : Evaluation :=
  { m with code, scope }

/-- Evaluate a form in a scope. A form that does not compile changes nothing. -/
def evalIn (fuel : Nat) (m : Machine) (form : Form) (scope : ScopeId) : Outcome :=
  match form.compile .halt with
  | .ok code => (m.start code scope).run fuel
  | .error error => some (.error error, m)

/-- Evaluate forms in order up to the first that fails. The value is that of the last form, or the
given one if there is none. -/
def evalAll (fuel : Nat) (m : Machine) (scope : ScopeId) (value : Form) : List Form → Outcome
  | [] => some (.ok value, m)
  | form :: rest =>
    match m.evalIn fuel form scope with
    | some (.ok value, m) => m.evalAll fuel scope value rest
    | failed => failed

def forms (data : List Datum) : StateM Store (List Form) :=
  data.mapM fun d => modifyGet fun store =>
    let (form, fresh) := Form.ofDatum d store.fresh
    (form, { store with fresh })

def read (m : Machine) (text : String) (file : Option String) :
    Except Error (List Form) × Machine :=
  match Vau.read text file with
  | .ok data =>
    let (forms, store) := (forms data).run m.store
    (.ok forms, { m with store })
  | .error error => (.error error, m)

def evalText (fuel : Nat) (m : Machine) (text : String) (file : Option String)
    (scope : ScopeId) : Outcome :=
  match m.read text file with
  | (.ok forms, m) => m.evalAll fuel scope .inert forms
  | (.error error, m) => some (.error error, m)

def load (fuel : Nat) (m : Machine) (file text : String) (scope : ScopeId) : Outcome :=
  (m.evalText fuel text (some file) scope).map fun (result, m) =>
    (result.mapError (·.orFile file), m)

def disassemble (text : String) : Except Error String := do
  let data ← Vau.read text none
  let listings ← data.mapM fun d => do
    return (← (Form.ofDatum d 0).1.compile .halt).listing
  return String.intercalate "\n\n" listings

def define (m : Machine) (scope : ScopeId) (name : String) (value : Form) : Machine :=
  { m with store.scopes := m.store.scopes.define scope name value }

/-- Bind a native of the embedding program in a scope, wrapped so that it gets evaluated
arguments. -/
def register (m : Machine) (scope : ScopeId) (host : HostNative) : Machine :=
  let native := Combiner.native (.host m.hosts.size host.name)
  let wrapped := Form.combiner (.applicative m.store.fresh native)
  { m with
    store.fresh := m.store.fresh + 1
    hosts := m.hosts.push host }.define scope host.name wrapped

def resetStats (m : Machine) : Machine := { m with stats := {} }

end Machine

end Vau
