import Vau.Main
import Vau.Proofs.Application
import Vau.Proofs.Closure
import Vau.Proofs.Confinement
import Vau.Proofs.Continuation.Outcome
import Vau.Proofs.Control.Balance
import Vau.Proofs.Control.Pending
import Vau.Proofs.Decimal
import Vau.Proofs.Equality
import Vau.Proofs.Evaluator.Outcome
import Vau.Proofs.Fault
import Vau.Proofs.Grammar.Range
import Vau.Proofs.Grammar.Token
import Vau.Proofs.Hygiene
import Vau.Proofs.Mapping.Native
import Vau.Proofs.Repl
import Vau.Proofs.Session.Ancestry
import Vau.Proofs.Session.Joined
