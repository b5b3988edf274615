import Vau.Repl
import Vau.Script

/-! The command line: a script runner, and the interactive loop when the program is named `repl`. -/

set_option autoImplicit false

namespace Vau

namespace Script

def faultOf : IO.Error → FileFault
  | .noFileOrDirectory .. => .missing
  | .permissionDenied .. => .denied
  | .inappropriateType _ code _ => if code = 21 then .directory else .notDirectory
  | .invalidArgument .. => .nameTooLong
  | _ => .notText

def readInput (stream : IO.FS.Stream) : IO (Except FileFault String) := do
  let rec lines (text : String) : Nat → IO String
    | 0 => return text
    | n + 1 => do
      let line ← stream.getLine
      if line.isEmpty then return text else lines (text ++ line) n
  try
    return .ok (← lines "" ampleFuel)
  catch error =>
    return .error (faultOf error)

def readSource (name : String) : IO (Except FileFault String) := do
  try
    return .ok (← IO.FS.readFile name)
  catch error =>
    return .error (faultOf error)

def main (args : List String) : IO UInt32 := do
  let input ← match source args with
    | .standardInput => readInput (← IO.getStdin)
    | _ => pure (.ok "")
  let file ← match source args with
    | .file name => readSource name
    | _ => pure (.error .missing)
  match program ampleFuel args input (fun _ => file) with
  | some report => do
    IO.print report.output
    IO.eprint report.errors
    return report.exit.toUInt32
  | none => return 1

end Script

namespace Repl

def loop (stream : IO.FS.Stream) (r : Repl) : Nat → IO Unit
  | 0 => return
  | n + 1 => do
    let (text, machine) := r.machine.takeOutput
    IO.print text
    (← IO.getStdout).flush
    let line ← stream.getLine
    unless line.isEmpty do
      match feed ampleFuel { r with machine } line with
      | some next => loop stream next n
      | none => return

end Repl

end Vau

def main (args : List String) : IO UInt32 := do
  if (← IO.appPath).fileName == some "repl" then
    Vau.Repl.loop (← IO.getStdin) Vau.Repl.start Vau.ampleFuel
    return 0
  else
    Vau.Script.main args
