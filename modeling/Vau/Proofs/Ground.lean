import Mathlib
import Vau.Proofs.Resolution
import Vau.Proofs.Session.Text

/-! What the ground environment binds.

The text of the derived combiners is given here as the data that it denotes, so what the machine
is that evaluation starts from can be computed. -/

set_option autoImplicit false

namespace Vau

def Datum.applyParameters : Datum := .chain [.symbol "appv", .symbol "args"] (.symbol "opt")

def Datum.applyCombination : Datum :=
  .list [.symbol "cons", .list [.symbol "unwrap", .symbol "appv"], .symbol "args"]

def Datum.applyEnvironment : Datum :=
  .list [.symbol "$if", .list [.symbol "null?", .symbol "opt"],
    .list [.symbol "make-environment"], .list [.symbol "car", .symbol "opt"]]

def Datum.applyOperands : Datum := .list [.applyCombination, .applyEnvironment]

def Template.applying (fresh : Nat) : Template where
  parameters := (Form.ofDatum .applyParameters fresh).1
  formal := .ignore
  source := (Form.ofDatum (.list [.pair (.symbol "eval") .applyOperands]) (fresh + 2)).1
  body := .refer "eval" (.apply (Form.ofDatum .applyOperands (fresh + 2)).1)
  wraps := true

/-- The ground scope is a root, and it binds the primitives, `eval` and `apply`. -/
structure Scopes.Grounded (scopes : Scopes) : Prop where
  primitives : ∀ p : Primitive, ∃ id, (scopes.bindings Machine.ground).get? p.name =
    some (.combiner (.applicative id (.native (.primitive p))))
  eval : ∃ id, (scopes.bindings Machine.ground).get? Keyword.eval.spelling =
    some (.combiner (.applicative id .eval))
  apply : ∃ id inner fresh, (scopes.bindings Machine.ground).get? "apply" =
    some (.combiner (.applicative id (.operative inner Machine.ground (.applying fresh))))
  root : scopes.parent? Machine.ground = none

theorem Scopes.Grounded.same {scopes later : Scopes} (grounded : scopes.Grounded)
    (same : later[Machine.ground]? = scopes[Machine.ground]?) : later.Grounded := by
  have bindings : later.bindings Machine.ground = scopes.bindings Machine.ground := by
    unfold Scopes.bindings
    rw [same]
  have parent : later.parent? Machine.ground = scopes.parent? Machine.ground := by
    unfold Scopes.parent?
    rw [same]
  obtain ⟨primitives, eval, apply, root⟩ := grounded
  rw [← bindings] at eval apply
  exact ⟨fun p => bindings ▸ primitives p, eval, apply, parent.trans root⟩

theorem Scopes.Grounded.size_pos {scopes : Scopes} (grounded : scopes.Grounded) :
    Machine.ground < scopes.size := by
  obtain ⟨id, found⟩ := grounded.eval
  exact size_lt_of_binds ⟨_, found⟩

namespace Machine

def derivedData : List Datum :=
  [.list [.symbol "$define!", .symbol "list",
    .list [.symbol "wrap", .list [.symbol "$vau", .symbol "x", .ignore, .symbol "x"]]],
  .list [.symbol "$define!", .symbol "get-current-environment",
    .list [.symbol "wrap", .list [.symbol "$vau", .nil, .symbol "e", .symbol "e"]]],
  .list [.symbol "$define!", .symbol "cadr",
    .list [.symbol "$lambda", .list [.symbol "x"],
      .list [.symbol "car", .list [.symbol "cdr", .symbol "x"]]]],
  .list [.symbol "$define!", .symbol "map",
    .list [.symbol "$lambda", .list [.symbol "f", .symbol "xs"],
      .list [.symbol "$if", .list [.symbol "null?", .symbol "xs"], .nil,
        .list [.symbol "cons", .list [.symbol "f", .list [.symbol "car", .symbol "xs"]],
          .list [.symbol "map", .symbol "f", .list [.symbol "cdr", .symbol "xs"]]]]]],
  .list [.symbol "$define!", .symbol "apply",
    .list [.symbol "$lambda", .applyParameters, .pair (.symbol "eval") .applyOperands]],
  .list [.symbol "$define!", .symbol "$when",
    .list [.symbol "$vau", .chain [.symbol "test"] (.symbol "body"), .symbol "e",
      .list [.symbol "$if", .list [.symbol "eval", .symbol "test", .symbol "e"],
        .list [.symbol "eval",
          .list [.symbol "cons", .list [.symbol "$quote", .symbol "$sequence"], .symbol "body"],
          .symbol "e"]]]],
  .list [.symbol "$define!", .symbol "$unless",
    .list [.symbol "$vau", .chain [.symbol "test"] (.symbol "body"), .symbol "e",
      .list [.symbol "$if", .list [.symbol "eval", .symbol "test", .symbol "e"], .inert,
        .list [.symbol "eval",
          .list [.symbol "cons", .list [.symbol "$quote", .symbol "$sequence"], .symbol "body"],
          .symbol "e"]]]],
  .list [.symbol "$define!", .symbol "$let",
    .list [.symbol "$vau", .chain [.symbol "bindings"] (.symbol "body"), .symbol "e",
      .list [.symbol "eval",
        .list [.symbol "cons",
          .list [.symbol "cons", .list [.symbol "$quote", .symbol "$lambda"],
            .list [.symbol "cons", .list [.symbol "map", .symbol "car", .symbol "bindings"],
              .symbol "body"]],
          .list [.symbol "map", .symbol "cadr", .symbol "bindings"]],
        .symbol "e"]]]]

theorem read_derived : Vau.read derived (some "ground") = .ok derivedData := by
  unfold Vau.read tokenize derived
  -- The kernel is to have the characters, not the literal.
  rw [String.toList_ofList]
  decide +kernel

theorem load_of_read {m : Machine} {file text : String} {data : List Datum}
    (found : Vau.read text (some file) = .ok data) (fuel : Nat) (scope : ScopeId) :
    m.load fuel file text scope = ((m.reserve (Form.pairsOf data)).evalAll fuel scope .inert
      (Form.numbered m.store.fresh data)).map fun (result, m) =>
        (result.mapError (·.orFile file), m) := by
  unfold load
  rw [evalText_of_read found]

theorem initial_eq : initial = bare.left
    (((bare.reserve (Form.pairsOf derivedData)).evalAll ampleFuel ground .inert
      (Form.numbered bare.store.fresh derivedData)).map fun (result, m) =>
        (result.mapError fun (error : Error) => error.orFile "ground", m)) := by
  unfold initial
  rw [load_of_read read_derived]

def bindsPrimitive (m : Machine) (p : Primitive) : Bool :=
  match (m.store.scopes.bindings ground).get? p.name with
  | some (.combiner (.applicative _ (.native (.primitive bound)))) => bound = p
  | _ => false

theorem bindsPrimitive_iff {m : Machine} {p : Primitive} : m.bindsPrimitive p ↔
    ∃ id, (m.store.scopes.bindings ground).get? p.name =
      some (.combiner (.applicative id (.native (.primitive p)))) := by
  unfold bindsPrimitive
  constructor
  · intro bound
    split at bound
    · rename_i id q found
      cases of_decide_eq_true bound
      exact ⟨id, found⟩
    · cases bound
  · rintro ⟨id, found⟩
    rw [found]
    exact decide_eq_true rfl

/-- What evaluation starts from, so far as it is read off by computing. -/
theorem initial_facts : Primitive.all.all initial.bindsPrimitive = true ∧
    (initial.store.scopes.bindings ground).get? "eval" =
      some (.combiner (.applicative 33 .eval)) ∧
    (initial.store.scopes.bindings ground).get? "apply" =
      some (.combiner (.applicative 200 (.operative 199 ground (.applying 89)))) ∧
    initial.store.scopes.parent? ground = none ∧
    initial.store.scopes[topLevel]? = some { parent := some ground } ∧
    initial.store.fresh = 204 ∧ initial.limit = none := by
  -- All at once, so that the definitions are evaluated only once.
  rw [initial_eq]
  cbv

theorem grounded_initial : initial.store.scopes.Grounded := by
  obtain ⟨primitives, eval, apply, root, _⟩ := initial_facts
  refine ⟨fun p => bindsPrimitive_iff.mp ?_, ⟨_, eval⟩, ⟨_, _, _, apply⟩, root⟩
  exact List.all_eq_true.mp primitives p p.mem_all

theorem get?_topLevel (name : String) : initial.store.scopes.get? topLevel name =
    (initial.store.scopes.bindings ground).get? name := by
  obtain ⟨_, _, _, root, top, _⟩ := initial_facts
  refine Scopes.get?_of_root ?_ ?_ root Nat.zero_lt_one
  · rw [Scopes.bindings, top]
    rfl
  · rw [Scopes.parent?, top]
    rfl

end Machine

/-- The machine that evaluation starts from is one that a program can get to. -/
theorem Session.Reachable.initial : ∃ kept, Session.Reachable ⟨Machine.initial, kept⟩ := by
  have new : Session.Reachable ⟨Machine.bare, []⟩ := .refl
  have bound : Machine.ground < Machine.bare.store.scopes.size := by decide +kernel
  unfold Machine.initial
  cases loaded : Machine.bare.load ampleFuel "ground" Machine.derived Machine.ground with
  | none => exact ⟨_, new⟩
  | some outcome =>
    obtain ⟨kept, reachable⟩ := new.load bound loaded
    exact ⟨kept, reachable.tail .resetStats⟩

end Vau
