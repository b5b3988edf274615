import Vau.Ground
import Vau.Text.Table
import Vau.Text.Tone

/-! The interactive loop. Everything it prints goes to the output of its machine. -/

set_option autoImplicit false

namespace Vau

namespace Machine

def bindingsTable (m : Machine) : Text.Table :=
  let rows (scope : ScopeId) (title : String) : List (List String) :=
    (m.store.scopes.names scope).map fun name =>
      [name, ((m.store.scopes.get? scope name).map Form.text).getD "", title]
  { header := ["Symbol", "Value", "Scope"]
    rows := rows topLevel "toplevel" ++ rows ground "ground" }

def printBindings (m : Machine) : Except Error Unit × Machine :=
  m.act (Action.write (m.bindingsTable.render ++ "\n"))

def takeOutput (m : Machine) : String × Machine :=
  (m.store.output.written, { m with store.output.written := "" })

end Machine

/-- Whether a text only lacks what may still come: closing parentheses, or a datum behind a quote
mark. -/
def isIncomplete (text : String) : Bool :=
  match read text none with
  | .error error => match error.cause with
    | .unclosedDelimiter | .trailingQuotes _ => true
    | _ => false
  | .ok _ => false

structure Repl where
  machine : Machine := .initial
  pending : String := ""

namespace Repl

def help : String := ",help          Show this message
,env           Show the top-level and ground bindings
,dis <expr>    Show the instruction graph of <expr>
,stats         Show machine counters since the last input"

def intro : String :=
  let arrow := " ➟ "
  let word := Text.Tone.intro.paint
  "\n" ++ word "read" ++ arrow ++ word "eval" ++ arrow ++ word "print" ++ arrow ++ word "loop" ++
    "\n ┗━━━━━━━━━━━━━━━━━━━━━━┛\nType ,help for commands, Ctrl-D to exit.\n"

def noHistory : String := Text.Tone.warning.paint "Warning: No data directory for the history log"

def statsText (s : Stats) : String :=
  "steps: " ++ Nat.repr s.steps ++ ", peak depth: " ++ Nat.repr s.peakDepth ++
    ", pushes: " ++ Nat.repr s.pushes ++ ", pops: " ++ Nat.repr s.pops

def print (m : Machine) (text : String) : Machine := (m.act (Action.write text)).2

def printLine (m : Machine) (text : String) : Machine := print m (text ++ "\n")

def printError (m : Machine) (error : Error) : Machine :=
  printLine m (Text.Tone.error.paint error.message)

def command (m : Machine) (name argument : String) : Machine :=
  match name with
  | ",help" => printLine m help
  | ",env" => match m.printBindings with
    | (.ok (), m) => m
    | (.error error, m) => printError m error
  | ",dis" => match Machine.disassemble argument with
    | .ok listing => printLine m (Text.Tone.code.paint listing)
    | .error error => printError m error
  | ",stats" => printLine m (statsText m.stats)
  | _ => printLine m (Text.Tone.warning.paint "Unknown command:" ++ " " ++ name ++ ", try ,help")

/-- Evaluate one complete input and print the result. Commands leave the counters alone. -/
def eval (fuel : Nat) (m : Machine) (input : String) : Option Machine :=
  let input := Text.trim input
  if input.startsWith "," then
    let (name, argument) := Text.cutAtBlank input
    some (command m name argument)
  else
    match m.resetStats.evalText fuel input none Machine.topLevel with
    | some (.ok .inert, m) => some m
    | some (.ok value, m) => some (printLine (print m (Text.Tone.result.paint "=> ")) value.text)
    | some (.error error, m) => some (printError m error)
    | none => none

def feed (fuel : Nat) (r : Repl) (line : String) : Option Repl :=
  let input := r.pending ++ line ++ "\n"
  if isIncomplete input then some { r with pending := input }
  else (eval fuel r.machine input).map fun machine => { machine }

def start : Repl :=
  let r : Repl := {}
  { r with machine := printLine (printLine r.machine intro) noHistory }

def lines (text : String) : List String :=
  let step (c : Char) (rest : List (List Char)) : List (List Char) :=
    if c = '\n' then [c] :: rest
    else match rest with
      | line :: others => (c :: line) :: others
      | [] => [[c]]
  (text.toList.foldr step []).map String.ofList

/-- What a session on a whole input prints. Input that is incomplete at the end is dropped. -/
def session (fuel : Nat) (text : String) : Option String :=
  ((lines text).foldlM (feed fuel) start).map fun r => r.machine.takeOutput.1

end Repl

end Vau
