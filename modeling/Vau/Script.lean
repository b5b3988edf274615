import Vau.Ground
import Vau.Volume

/-! Running a file, or the standard input, as a script. -/

set_option autoImplicit false

namespace Vau

structure Report where
  output : String := ""
  errors : String := ""
  exit : Nat := 0
  deriving DecidableEq, Repr

namespace Script

inductive Source where
  | standardInput
  | file (name : String)
  | misused
  deriving DecidableEq, Repr

def source : List String → Source
  | [] => .standardInput
  | [name] => .file name
  | _ => .misused

def usage : Report := { errors := "Usage: main [FILE]\n", exit := 2 }

def unreadable (fault : FileFault) : Report :=
  { errors := "Error: " ++ fault.message ++ "\n", exit := 1 }

def run (fuel : Nat) (name text : String) : Option Report :=
  match Machine.initial.load fuel name text Machine.topLevel with
  | some (.ok _, m) => some { output := m.store.output.written }
  | some (.error error, m) =>
    some { output := m.store.output.written, errors := error.message ++ "\n", exit := 1 }
  | none => none

def program (fuel : Nat) (args : List String) (input : Except FileFault String)
    (contents : String → Except FileFault String) : Option Report :=
  let runText (name : String) : Except FileFault String → Option Report
    | .ok text => run fuel name text
    | .error fault => some (unreadable fault)
  match source args with
  | .standardInput => runText "<stdin>" input
  | .file name => runText name (contents name)
  | .misused => some usage

end Script

end Vau
