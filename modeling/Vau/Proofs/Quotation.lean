import Vau.Proofs.Ground.Derived
import Vau.Proofs.Session.Joined
import Vau.Proofs.Session.Tree

/-! `eval` undoes `$quote`.

A form that is quoted and evaluated in the environment at hand is evaluated after a scope and some
pairs were made. They do not show in what comes of it. -/

set_option autoImplicit false

namespace Vau

def Form.evalQuoted (f : Form) (i j k l n o : Identity) : Form :=
  .pair i (.symbol "eval") (.pair j (.pair k (.symbol "$quote") (.pair l f .nil))
    (.pair n (.pair o (.symbol "get-current-environment") .nil) .nil))

section

variable {w : World} {e static : ScopeId} {id inner fresh : Identity}

theorem Form.result_currentEnvironment
    (bound : w.store.scopes.lookup e "get-current-environment" = .ok (.combiner
      (.applicative id (.operative inner static (.currentEnvironment fresh))))) (o : Identity) :
    ∃ later, w.Widens later ∧ ∀ fuel, ((pair o (.symbol "get-current-environment") .nil).evaluate
      (Combiner.combine (fuel + 2)) e).result w = some (.ok (.environment e), later) := by
  have fits : (Template.currentEnvironment fresh).parameters.Fits (chain [] .nil w.store.fresh).1 :=
    (fits_of_atom rfl).mpr fun _ => rfl
  obtain ⟨scopes, entered, body⟩ :=
    @Combiner.result_closure inner static (.currentEnvironment fresh) rfl _ w fits e
  refine ⟨w.withScopes scopes, entered.widens, fun fuel => ?_⟩
  rw [result_named rfl bound, Combiner.result_applicative rfl result_nil, body fuel]
  exact @result_symbol fuel _ _ _ "e" (entered.lookup_caller rfl)

theorem Form.result_evalQuoted {wrapper : Identity} (f : Form) (i j k l n o : Identity)
    (eval : w.store.scopes.lookup e "eval" = .ok (.combiner (.applicative wrapper .eval)))
    (current : w.store.scopes.lookup e "get-current-environment" = .ok (.combiner
      (.applicative id (.operative inner static (.currentEnvironment fresh))))) :
    ∃ later, w.Widens later ∧ ∀ fuel,
      (f.evalQuoted i j k l n o).outcome (fuel + 3) e w =
        match f.compile .ret with
        | .ok _ => f.outcome (fuel + 1) e later
        | .error error => some (.error (.error error), later) := by
  have reserved : (w.reserve 1).store.scopes.lookup e "get-current-environment" = _ := current
  obtain ⟨later, widens, asked⟩ := result_currentEnvironment reserved o
  refine ⟨(later.reserve 1).reserve 2, (((w.widens_reserve 1).trans widens).reserve 1).reserve 2,
    fun fuel => ?_⟩
  exact result_eval eval rfl (result_operands (result_quote rfl)
    (result_operands (asked fuel) result_nil))

end

/-- Evaluating a quoted form in the environment at hand comes to what the form itself comes to. -/
theorem Session.Reachable.eval_undoes_quote {m : Machine} {kept : List Form}
    (reachable : Session.Reachable ⟨m, kept⟩) (unlimited : m.limit = none)
    (uniform : ∀ host ∈ m.hosts, host.Uniform) {e : ScopeId} (there : e < m.store.scopes.size)
    (eval : m.store.scopes.get? e "eval" =
      (Machine.initial.store.scopes.bindings Machine.ground).get? "eval")
    (current : m.store.scopes.get? e "get-current-environment" =
      (Machine.initial.store.scopes.bindings Machine.ground).get? "get-current-environment")
    {f : Form} {i j k l n o : Identity}
    (known : Session.Knows ⟨m, kept⟩ (f.evalQuoted i j k l n o)) (direct : f.Direct e m.world) :
    m.Interchangeable e f (f.evalQuoted i j k l n o) ∧
      ∃ fuel later, m.evalIn fuel (.pair o (.symbol "get-current-environment") .nil) e =
        some (.ok (.environment e), later) ∧ m.world.Widens later.world := by
  have sound := Session.Reachable.sound reachable uniform
  obtain ⟨wrapper, evaluates⟩ := Machine.grounded_initial.eval
  obtain ⟨id, inner, fresh, asks⟩ := Machine.derives_initial.currentEnvironment
  have eval := Scopes.lookup_of_get? (eval.trans evaluates)
  have current := Scopes.lookup_of_get? (current.trans asks)
  have knownQuoted : Session.Knows ⟨m, kept⟩ f := fun D obeys =>
    (known D obeys).cdr.car.cdr.car
  constructor
  · obtain ⟨later, widens, outcome⟩ := Form.result_evalQuoted (w := m.world) f i j k l n o eval
      current
    cases compiled : f.compile .halt with
    -- The quoted form is compiled by `eval`, so the error is raised there.
    | error error =>
      have outcome := outcome 0
      rw [Form.compile_eq_error.mpr (Form.compile_eq_error.mp compiled)] at outcome
      exact reachable.interchangeable_of_error unlimited sound known there compiled rfl widens
        outcome
    | ok code =>
      obtain ⟨x, read, _⟩ := Form.compile_eq_ok.mp compiled
      have compiles : f.compile .ret = .ok (x.code .ret) := Form.compile_eq_ok.mpr ⟨x, read, rfl⟩
      refine reachable.interchangeable unlimited knownQuoted known there compiled rfl direct
        (a := 1) (b := 3) fun fuel => ?_
      have outcome := outcome fuel
      rw [compiles] at outcome
      rw [outcome]
      have knows : m.store.Knows (f.Obeys ·) :=
        fun D spans => knownQuoted D (reachable.obeys_spans spans)
      exact sound.concludes widens read knows there (fuel + 1)
  · obtain ⟨later, widens, outcome⟩ := Form.result_currentEnvironment (w := m.world) current o
    obtain ⟨fuel, last, ran, rfl⟩ := @Session.Reachable.evalIn_of_outcome (.ok (.environment e)) _ m
      kept reachable unlimited _ e (fun D obeys => (known D obeys).cdr.cdr.car) there _ rfl _
      (outcome 0)
    exact ⟨fuel, last, ran, widens⟩

theorem Machine.settings_left {m : Machine} {fuel : Nat} {file text : String} {scope : ScopeId}
    {data : List Datum} (found : Vau.read text (some file) = .ok data) :
    (m.left (m.load fuel file text scope)).settings = m.settings := by
  rw [load_of_read found]
  cases ran : (m.reserve (Form.pairsOf data)).evalAll fuel scope .inert
    (Form.numbered m.store.fresh data) with
  | none => rfl
  | some outcome =>
    have kept := fixed_evalAll fixed_settings ran
    exact kept

theorem Machine.uniform_initial : ∀ host ∈ initial.hosts, host.Uniform := by
  have settings : bare.settings = (none, 0) := by decide +kernel
  have kept : initial.settings = bare.settings := by
    unfold initial
    exact settings_left read_derived
  have empty {m : Machine} (none : m.settings = (none, 0)) : m.hosts = #[] :=
    Array.eq_empty_of_size_eq_zero (congrArg Prod.snd none)
  rw [empty (kept.trans settings)]
  exact fun host member => (Array.not_mem_empty host member).elim

/-- A definition, evaluated at once and as a quoted form. -/
theorem Session.Reachable.eval_undoes_quote_define :
    let f : Form := .pair 0 (.symbol "$define!") (.pair 0 (.symbol "x") (.pair 0 (.bool true) .nil))
    Machine.initial.Interchangeable Machine.topLevel f (f.evalQuoted 0 0 0 0 0 0) ∧
      ∃ fuel later, Machine.initial.evalIn fuel
          (.pair 0 (.symbol "get-current-environment") .nil) Machine.topLevel =
        some (.ok (.environment Machine.topLevel), later) ∧
          Machine.initial.world.Widens later.world := by
  obtain ⟨kept, session⟩ := Session.Reachable.initial
  obtain ⟨_, _, _, _, top, fresh, unlimited⟩ := Machine.initial_facts
  have here (name : String) := Machine.get?_topLevel name
  have uniform := Machine.uniform_initial
  -- No step below is to compute the machine.
  generalize start : Machine.initial = m at session top fresh unlimited uniform ⊢
  have bound : Machine.topLevel < m.store.scopes.size := (Array.getElem?_eq_some_iff.mp top).1
  intro f
  have known : Session.Knows ⟨m, kept⟩ (f.evalQuoted 0 0 0 0 0 0) := by
    intro D obeys
    have zero := obeys.room.object 0 (by rw [fresh]; decide)
    simp [f, Form.evalQuoted, Form.Obeys, zero]
  have direct : f.Direct Machine.topLevel m.world := by
    intro _ _ fuel later control
    cases control
  exact session.eval_undoes_quote unlimited uniform bound (start ▸ here _) (start ▸ here _) known
    direct

end Vau
