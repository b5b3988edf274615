import Vau.Proofs.Evaluator.Call
import Vau.Proofs.Ground.Derived

/-! What `map` does with a combiner and a list.

The combiner is called with each element in turn, before the rest of the list is gone through. Its
results are put together on the way back, when nothing is called any more. -/

set_option autoImplicit false

namespace Vau

/-- Calls for the values of a list, one after another, up to the first that fails. Between them
numbers are given out and scopes are made, and that is all. -/
inductive Threads (answers : World → Form → Except Error Form → World → Prop) :
    World → List Form → Except Error (List Form) → World → Prop
  | nil {w later : World} : w.Widens later → Threads answers w [] (.ok []) later
  | cons {w called after later : World} {v r : Form} {vs : List Form}
      {outcome : Except Error (List Form)} : w.Widens called → answers called v (.ok r) after →
    Threads answers after vs outcome later →
    Threads answers w (v :: vs) (outcome.map (r :: ·)) later
  | fail {w called after : World} {v : Form} {vs : List Form} {error : Error} : w.Widens called →
    answers called v (.error error) after → Threads answers w (v :: vs) (.error error) after

/-- What `map` relies on in a combiner. In a call for an element it has an answer, and it leaves the
ground scope alone and the scope of the call of `map`. -/
structure Combiner.Serves (c : Combiner)
    (answers : World → Form → Except Error Form → World → Prop)
    (ready : World → List Form → Prop) : Prop where
  other : ∀ k, c ≠ .continuation k
  reserve : ∀ {w : World} {vs : List Form} (count : Nat), ready w vs → ready (w.reserve count) vs
  call : ∀ {w called : World} {v : Form} {vs : List Form}, ready w (v :: vs) →
    w.Widens called → called.store.scopes.size = w.store.scopes.size + 1 →
    called.store.scopes.Equipped → ∀ e, ∃ given result after, called.Widens given ∧
      answers given v result after ∧
      (∀ fuel, (c.receive (combine (fuel + 4)) e [v]).result called =
        some (result.mapError .error, after)) ∧
      ∀ r, result = .ok r → ready after vs ∧
        after.store.scopes[Machine.ground]? = called.store.scopes[Machine.ground]? ∧
        after.store.scopes[w.store.scopes.size]? = called.store.scopes[w.store.scopes.size]?

variable {answers : World → Form → Except Error Form → World → Prop}
  {ready : World → List Form → Prop} {w later : World} {c : Combiner}

theorem Threads.widen {w middle later : World} {vs rs : List Form}
    {outcome : Except Error (List Form)} (threads : Threads answers w vs outcome middle)
    (succeeded : outcome = .ok rs) (widens : middle.Widens later) :
    Threads answers w vs outcome later := by
  induction threads generalizing rs with
  | nil first => exact .nil (first.trans widens)
  | @cons _ _ _ _ _ _ _ outcome first answered _ ih =>
    cases outcome with
    | error error => cases succeeded
    | ok rs => exact .cons first answered (ih rfl widens)
  | fail => cases succeeded

theorem Threads.lead {w middle later : World} {vs : List Form}
    {outcome : Except Error (List Form)} (widens : w.Widens middle)
    (threads : Threads answers middle vs outcome later) : Threads answers w vs outcome later := by
  cases threads with
  | nil rest => exact .nil (widens.trans rest)
  | cons rest answered threads => exact .cons (widens.trans rest) answered threads
  | fail rest answered => exact .fail (widens.trans rest) answered

/-! In the scope of a call of `map`. -/

structure Scopes.Mapping (scopes : Scopes) (e : ScopeId) (f xs : Form) : Prop where
  f : scopes.lookup e "f" = .ok f
  xs : scopes.lookup e "xs" = .ok xs
  primitives : ∀ p : Primitive, ∃ id,
    scopes.lookup e p.name = .ok (.combiner (.applicative id (.native (.primitive p))))
  map : ∃ id inner fresh, scopes.lookup e "map" = .ok (.combiner
    (.applicative id (.operative inner Machine.ground (.mapping fresh))))

theorem Scopes.Mapping.same {scopes later : Scopes} {e : ScopeId} {f xs : Form}
    (mapping : scopes.Mapping e f xs)
    (same : ∀ name, later.lookup e name = scopes.lookup e name) : later.Mapping e f xs where
  f := (same _).trans mapping.f
  xs := (same _).trans mapping.xs
  primitives p := (mapping.primitives p).imp fun _ => (same _).trans
  map := by
    obtain ⟨id, inner, fresh, found⟩ := mapping.map
    exact ⟨id, inner, fresh, (same _).trans found⟩

theorem Template.names_mapping {fresh : Identity} {name : String} :
    (mapping fresh).parameters.Names name ↔ name = "f" ∨ name = "xs" := by
  change (Form.pair _ (.symbol "f") (.pair _ (.symbol "xs") .nil)).Names name ↔ _
  simp only [Form.names_pair, Form.names_of_atom (f := .symbol _) rfl,
    Form.names_of_atom (f := .nil) rfl, Form.symbol.injEq, eq_comm (b := name), reduceCtorEq,
    or_false]

theorem Template.fits_mapping {fresh n : Identity} (first second : Form) :
    (mapping fresh).parameters.Fits (Form.chain [first, second] .nil n).1 := by
  have atom (name : String) (f : Form) : (Form.symbol name).Fits f :=
    (Form.fits_of_atom rfl).mpr nofun
  exact Form.fits_pair.mpr
    ⟨atom _ _, Form.fits_pair.mpr ⟨atom _ _, (Form.fits_of_atom rfl).mpr fun _ => rfl⟩⟩

namespace Scopes

theorem Entered.mapping {scopes later : Scopes} {caller : ScopeId} {fresh i j : Identity}
    {f xs : Form} (equipped : scopes.Equipped)
    (entered : scopes.Entered later Machine.ground caller (Template.mapping fresh).parameters
      .ignore (.pair i f (.pair j xs .nil))) : later.Mapping scopes.size f xs := by
  have outer {name : String} {value : Form} (unnamed : name ≠ "f" ∧ name ≠ "xs")
      (found : (scopes.bindings Machine.ground).get? name = some value) :
      later.lookup scopes.size name = .ok value :=
    entered.lookup_static equipped.grounded.size_pos equipped.grounded.root
      (fun named => (Template.names_mapping.mp named).elim unnamed.1 unnamed.2) nofun found
  refine ⟨entered.lookup_parameter [.car] rfl rfl, entered.lookup_parameter [.cdr, .car] rfl rfl,
    fun p => ?_, ?_⟩
  · obtain ⟨id, found⟩ := equipped.grounded.primitives p
    exact ⟨id, outer (by cases p <;> decide) found⟩
  · obtain ⟨id, inner, fresh, found⟩ := equipped.derives.map
    exact ⟨id, inner, fresh, outer (by decide) found⟩

section

variable {e : ScopeId} {id i inner fresh : Identity} {v xs rest f : Form} {fuel : Nat}

theorem Mapping.result_test (mapping : w.store.scopes.Mapping e f xs) (n : Identity) :
    ((Form.ofDatum .mapTest n).1.evaluate (Combiner.combine (fuel + 2)) e).result w =
      some (.ok (.bool xs.isNil), w.reserve 2) := by
  obtain ⟨_, isNull⟩ := mapping.primitives .isNull
  exact Form.result_call isNull rfl
    (Form.result_operands (Form.result_symbol mapping.xs) Form.result_nil) rfl

theorem Mapping.result_car (mapping : w.store.scopes.Mapping e f (.pair i v rest))
    (n : Identity) :
    ((Form.ofDatum (.list [.symbol "car", .symbol "xs"]) n).1.evaluate
      (Combiner.combine (fuel + 2)) e).result w = some (.ok v, w.reserve 2) := by
  obtain ⟨_, car⟩ := mapping.primitives .car
  exact Form.result_call car rfl
    (Form.result_operands (Form.result_symbol mapping.xs) Form.result_nil) rfl

theorem Mapping.result_cdr (mapping : w.store.scopes.Mapping e f (.pair i v rest))
    (n : Identity) :
    ((Form.ofDatum (.list [.symbol "cdr", .symbol "xs"]) n).1.evaluate
      (Combiner.combine (fuel + 2)) e).result w = some (.ok rest, w.reserve 2) := by
  obtain ⟨_, cdr⟩ := mapping.primitives .cdr
  exact Form.result_call cdr rfl
    (Form.result_operands (Form.result_symbol mapping.xs) Form.result_nil) rfl

theorem Mapping.result_first (mapping : w.store.scopes.Mapping e
    (.combiner (.applicative id c)) (.pair i v rest)) (n : Identity) :
    ((Form.ofDatum .mapCall n).1.evaluate (Combiner.combine (fuel + 3)) e).result w =
      (c.receive (Combiner.combine (fuel + 2)) e [v]).result (w.reserve 3) := by
  refine (Form.result_named rfl mapping.f).trans (Combiner.result_applicative rfl ?_)
  exact Form.result_operands (mapping.result_car n) Form.result_nil

theorem Mapping.result_others (mapping : w.store.scopes.Mapping e f (.pair i v rest))
    (n : Identity) : ∃ inner fresh, ∀ fuel,
    ((Form.ofDatum .mapRest n).1.evaluate (Combiner.combine (fuel + 3)) e).result w =
      ((Combiner.operative inner Machine.ground (.mapping fresh)).receive
        (Combiner.combine (fuel + 2)) e [f, rest]).result (w.reserve 4) := by
  obtain ⟨_, inner, fresh, map⟩ := mapping.map
  have later : (w.reserve 1).store.scopes.Mapping e f (.pair i v rest) := mapping
  refine ⟨inner, fresh, fun fuel => ?_⟩
  refine (Form.result_named rfl map).trans (Combiner.result_applicative rfl ?_)
  exact Form.result_operands (Form.result_symbol mapping.f)
    (Form.result_operands (later.result_cdr n) Form.result_nil)

end

end Scopes

theorem Combiner.result_mapping (equipped : w.store.scopes.Equipped) (id inner fresh : Identity)
    (c : Combiner) (xs : Form) (e : ScopeId) : ∃ called : World, ∃ n : Identity,
      w.Widens called ∧ called.store.scopes.size = w.store.scopes.size + 1 ∧
      called.store.scopes.parent? w.store.scopes.size = some Machine.ground ∧
      called.store.scopes.Mapping w.store.scopes.size (.combiner (.applicative id c)) xs ∧
      ∀ fuel, ((operative inner Machine.ground (.mapping fresh)).receive (combine (fuel + 3)) e
        [.combiner (.applicative id c), xs]).result w =
          ((if (Form.bool xs.isNil).isFalse then (Form.ofDatum .mapPair n).1 else .nil).evaluate
            (combine (fuel + 2)) w.store.scopes.size).result called := by
  obtain ⟨scopes, entered, body⟩ := @result_closure inner Machine.ground (.mapping fresh) rfl _ w
    (Template.fits_mapping (.combiner (.applicative id c)) xs) e
  have mapping := entered.mapping equipped
  refine ⟨(w.withScopes scopes).reserve 4, fresh + 4, entered.widens.reserve 4, entered.size,
    entered.parent, mapping, fun fuel => (body (fuel + 2)).trans ?_⟩
  have there : ((w.withScopes scopes).reserve 2).store.scopes.Mapping w.store.scopes.size
    (.combiner (.applicative id c)) xs := mapping
  exact Form.result_conditional rfl (there.result_test (fresh + 2))

theorem Combiner.Serves.map (serves : c.Serves answers ready) {vs : List Form} {xs : Form}
    (proper : xs.list? = some vs) (here : ready w vs) (equipped : w.store.scopes.Equipped)
    (id inner fresh : Identity) (e : ScopeId) :
    ∃ (outcome : Except Error Form) (later : World),
      Threads answers w vs (outcome.map Form.items) later ∧
      (∀ value, outcome = .ok value → value.ending = .nil) ∧
      ∀ fuel, ((Combiner.operative inner Machine.ground (.mapping fresh)).receive
        (combine (fuel + 3 * vs.length + 4)) e [.combiner (.applicative id c), xs]).result w =
          some (outcome.mapError .error, later) := by
  induction vs generalizing xs w id inner fresh e with
  | nil =>
    obtain rfl := Form.eq_nil_of_list? proper
    obtain ⟨called, n, widens, _, _, _, run⟩ := result_mapping equipped id inner fresh c .nil e
    exact ⟨.ok .nil, called, .nil widens, fun _ same => Except.ok.inj same ▸ rfl,
      fun fuel => run (fuel + 1)⟩
  | cons v vs ih =>
    obtain ⟨i, rest, rfl, remaining⟩ := Form.eq_pair_of_list? proper
    obtain ⟨called, n, widens, size, parent, mapping, run⟩ :=
      result_mapping equipped id inner fresh c (.pair i v rest) e
    have there : called.store.scopes.Equipped :=
      equipped.same (widens.older _ equipped.grounded.size_pos)
    obtain ⟨given, result, after, more, answered, received, kept⟩ :=
      serves.call here (widens.reserve 3) size there w.store.scopes.size
    have before : w.Widens given := (widens.reserve 3).trans more
    obtain ⟨_, cons⟩ := mapping.primitives .cons
    have first (fuel : Nat) := (mapping.result_first n).trans (received fuel)
    cases result with
    | error error =>
      refine ⟨.error error, after, .fail before answered, nofun, fun fuel => ?_⟩
      exact (run _).trans ((Form.result_named rfl cons).trans (result_applicative_exit rfl
        (Form.result_operands_exit (first (fuel + 3 * vs.length)))))
    | ok r =>
      obtain ⟨ready, ground, scope⟩ := kept r rfl
      -- The scope of the call is as it was, so the names of the body mean what they did.
      have mapping := mapping.same (Scopes.lookup_of_same parent there.grounded.root
        equipped.grounded.size_pos scope ground)
      obtain ⟨inner, fresh, others⟩ := Scopes.Mapping.result_others (w := after.reserve 1)
        mapping (n + 4)
      obtain ⟨outcome, later, threads, ends, rested⟩ := ih remaining (serves.reserve 5 ready)
        (there.same ground) id inner fresh w.store.scopes.size
      have rest (fuel : Nat) := (others (fuel + 3 * vs.length + 2)).trans (rested fuel)
      have threads : Threads answers w (v :: vs) ((outcome.map Form.items).map (r :: ·)) later :=
        .cons before answered (threads.lead (after.widens_reserve 5))
      cases outcome with
      | error error =>
        refine ⟨.error error, later, threads, nofun, fun fuel => ?_⟩
        exact (run _).trans ((Form.result_named rfl cons).trans (result_applicative_exit rfl
          (Form.result_operands_exit_later (first (fuel + 3 * vs.length))
            (Form.result_operands_exit (rest fuel)))))
      | ok rs =>
        refine ⟨.ok (.pair (later.store.fresh + 3) r rs), later.reserve 4,
          threads.widen rfl (later.widens_reserve 4), ?_, fun fuel => ?_⟩
        · intro value same
          cases same
          exact ends rs rfl
        exact (run _).trans (Form.result_call cons rfl (Form.result_operands
          (first (fuel + 3 * vs.length)) (Form.result_operands (rest fuel) Form.result_nil)) rfl)

end Vau
