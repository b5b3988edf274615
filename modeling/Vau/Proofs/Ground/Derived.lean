import Vau.Proofs.Ground

/-! The closures that the ground scope binds: what they take, and their bodies by parts. -/

set_option autoImplicit false

namespace Vau

/-- A closure from data, with its pairs numbered from here on. -/
def Template.ofData (parameters formal source : Datum) (wraps : Bool) (fresh : Identity) :
    Template :=
  let source := (Form.ofDatum source (fresh + Form.pairs parameters)).1
  { parameters := (Form.ofDatum parameters fresh).1
    formal := (Form.ofDatum formal 0).1
    source
    body := (source.compileAll .ret).toOption.getD .ret
    wraps }

namespace Datum

/-! The body of `map`. -/

def mapTest : Datum := .list [.symbol "null?", .symbol "xs"]

def mapCall : Datum := .list [.symbol "f", .list [.symbol "car", .symbol "xs"]]

def mapRest : Datum := .list [.symbol "map", .symbol "f", .list [.symbol "cdr", .symbol "xs"]]

def mapPair : Datum := .list [.symbol "cons", .mapCall, .mapRest]

def mapBody : Datum := .list [.symbol "$if", .mapTest, .nil, .mapPair]

/-! The bodies of `$when` and `$unless`. -/

def evalTest : Datum := .list [.symbol "eval", .symbol "test", .symbol "e"]

def sequenceBody : Datum :=
  .list [.symbol "cons", .list [.symbol "$quote", .symbol "$sequence"], .symbol "body"]

def evalBody : Datum := .list [.symbol "eval", .sequenceBody, .symbol "e"]

/-! The body of `$let`. -/

def letNames : Datum := .list [.symbol "map", .symbol "car", .symbol "bindings"]

def letOperands : Datum := .list [.symbol "map", .symbol "cadr", .symbol "bindings"]

def letOperator : Datum :=
  .list [.symbol "cons", .list [.symbol "$quote", .symbol "$lambda"],
    .list [.symbol "cons", .letNames, .symbol "body"]]

def letCombination : Datum := .list [.symbol "cons", .letOperator, .letOperands]

end Datum

namespace Template

def currentEnvironment : Identity → Template :=
  .ofData .nil (.symbol "e") (.list [.symbol "e"]) false

def second : Identity → Template :=
  .ofData (.list [.symbol "x"]) .ignore
    (.list [.list [.symbol "car", .list [.symbol "cdr", .symbol "x"]]]) true

def mapping : Identity → Template :=
  .ofData (.list [.symbol "f", .symbol "xs"]) .ignore (.list [.mapBody]) true

def conditionally (body : Datum) : Identity → Template :=
  .ofData (.chain [.symbol "test"] (.symbol "body")) (.symbol "e") (.list [body]) false

def onTrue : Identity → Template :=
  conditionally (.list [.symbol "$if", .evalTest, .evalBody])

def onFalse : Identity → Template :=
  conditionally (.list [.symbol "$if", .evalTest, .inert, .evalBody])

def letting : Identity → Template :=
  .ofData (.chain [.symbol "bindings"] (.symbol "body")) (.symbol "e")
    (.list [.list [.symbol "eval", .letCombination, .symbol "e"]]) false

end Template

/-- The ground scope binds the closures. -/
structure Scopes.Derives (scopes : Scopes) : Prop where
  currentEnvironment : ∃ id inner fresh,
    (scopes.bindings Machine.ground).get? "get-current-environment" = some (.combiner
      (.applicative id (.operative inner Machine.ground (.currentEnvironment fresh))))
  second : ∃ id inner fresh, (scopes.bindings Machine.ground).get? "cadr" = some (.combiner
    (.applicative id (.operative inner Machine.ground (.second fresh))))
  map : ∃ id inner fresh, (scopes.bindings Machine.ground).get? "map" = some (.combiner
    (.applicative id (.operative inner Machine.ground (.mapping fresh))))
  onTrue : ∃ id fresh, (scopes.bindings Machine.ground).get? "$when" =
    some (.combiner (.operative id Machine.ground (.onTrue fresh)))
  onFalse : ∃ id fresh, (scopes.bindings Machine.ground).get? "$unless" =
    some (.combiner (.operative id Machine.ground (.onFalse fresh)))
  letting : ∃ id fresh, (scopes.bindings Machine.ground).get? "$let" =
    some (.combiner (.operative id Machine.ground (.letting fresh)))

theorem Scopes.Derives.same {scopes later : Scopes} (derives : scopes.Derives)
    (same : later[Machine.ground]? = scopes[Machine.ground]?) : later.Derives := by
  have bindings : later.bindings Machine.ground = scopes.bindings Machine.ground := by
    unfold Scopes.bindings
    rw [same]
  obtain ⟨environment, second, map, onTrue, onFalse, letting⟩ := derives
  rw [← bindings] at environment second map onTrue onFalse letting
  exact ⟨environment, second, map, onTrue, onFalse, letting⟩

structure Scopes.Equipped (scopes : Scopes) : Prop where
  grounded : scopes.Grounded
  derives : scopes.Derives

theorem Scopes.Equipped.same {scopes later : Scopes} (equipped : scopes.Equipped)
    (same : later[Machine.ground]? = scopes[Machine.ground]?) : later.Equipped :=
  ⟨equipped.grounded.same same, equipped.derives.same same⟩

theorem Machine.derives_initial : initial.store.scopes.Derives := by
  have facts :
      (initial.store.scopes.bindings ground).get? "get-current-environment" = some (.combiner
        (.applicative 194 (.operative 191 ground (.currentEnvironment 43)))) ∧
      (initial.store.scopes.bindings ground).get? "cadr" = some (.combiner
        (.applicative 196 (.operative 195 ground (.second 52)))) ∧
      (initial.store.scopes.bindings ground).get? "map" = some (.combiner
        (.applicative 198 (.operative 197 ground (.mapping 63)))) ∧
      (initial.store.scopes.bindings ground).get? "$when" =
        some (.combiner (.operative 201 ground (.onTrue 114))) ∧
      (initial.store.scopes.bindings ground).get? "$unless" =
        some (.combiner (.operative 202 ground (.onFalse 136))) ∧
      (initial.store.scopes.bindings ground).get? "$let" =
        some (.combiner (.operative 203 ground (.letting 159))) := by
    -- All at once, so that the definitions are evaluated only once.
    rw [initial_eq]
    cbv
  obtain ⟨environment, second, map, onTrue, onFalse, letting⟩ := facts
  exact ⟨⟨_, _, _, environment⟩, ⟨_, _, _, second⟩, ⟨_, _, _, map⟩, ⟨_, _, onTrue⟩,
    ⟨_, _, onFalse⟩, ⟨_, _, letting⟩⟩

theorem Machine.equipped_initial : initial.store.scopes.Equipped :=
  ⟨grounded_initial, derives_initial⟩

end Vau
