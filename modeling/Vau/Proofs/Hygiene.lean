import Vau.Proofs.Hygiene.Conditional
import Vau.Proofs.Hygiene.Letting
import Vau.Proofs.Quotation

/-! The derived operatives mean what they stand for, whatever the names mean where they are used. -/

set_option autoImplicit false

namespace Vau

/-- A combination in which the name of a ground operative means what it does at the start, and the
form that it stands for, which uses no continuation. -/
structure Session.Expansion (s : Session) (e : ScopeId) (name : String) (derived expanded : Form) :
    Prop where
  resolves : s.machine.store.scopes.get? e name =
    (Machine.initial.store.scopes.bindings Machine.ground).get? name
  known : s.Knows derived
  known' : s.Knows expanded
  direct : expanded.Direct e s.machine.world

def Machine.Grounded (m : Machine) : Prop :=
  m.store.scopes[ground]? = initial.store.scopes[ground]?

theorem Machine.Grounded.get?_child {m : Machine} (grounded : m.Grounded) {e : ScopeId}
    {bindings : Bindings} (here : m.store.scopes[e]? = some ⟨bindings, some ground⟩)
    {name : String} (own : bindings.get? name = none) (older : ground < e) :
    m.store.scopes.get? e name = (initial.store.scopes.bindings ground).get? name := by
  have unbound : (m.store.scopes.bindings e).get? name = none := by
    rw [Scopes.bindings, here]
    exact own
  have parent : m.store.scopes.parent? e = some ground := by
    rw [Scopes.parent?, here]
    rfl
  have root := (equipped_initial.same grounded).grounded.root
  rw [Scopes.get?_of_root unbound parent root older, Scopes.bindings, Scopes.bindings, grounded]

def Form.SparesGround (f : Form) (e : ScopeId) (m : Machine) : Prop :=
  ∀ fuel v later, m.evalIn fuel f e = some (.ok v, later) → later.Grounded

theorem Session.Reachable.sparesGround {m : Machine} {kept : List Form}
    (reachable : Session.Reachable ⟨m, kept⟩) (unlimited : m.limit = none) {f : Form} {e : ScopeId}
    (known : Session.Knows ⟨m, kept⟩ f) (there : e < m.store.scopes.size) {code : Code}
    (compiled : f.compile .halt = .ok code) (direct : f.Direct e m.world)
    (grounded : m.Grounded) (keeps : ∀ fuel v later, f.outcome fuel e m.world =
      some (.ok v, later) → later.store.scopes[Machine.ground]? = m.store.scopes[Machine.ground]?) :
    f.SparesGround e m := by
  intro fuel v later ran
  obtain ⟨fuel', outcome⟩ := (reachable.evalIn_iff unlimited known there compiled
    (direct code compiled)).mp ⟨fuel, later, ran, rfl⟩
  exact (keeps fuel' v later.world outcome).trans grounded

namespace Session.Reachable

section

variable {m : Machine} {kept : List Form} (reachable : Session.Reachable ⟨m, kept⟩)
  (unlimited : m.limit = none) (uniform : ∀ host ∈ m.hosts, host.Uniform) {e : ScopeId}
  (there : e < m.store.scopes.size) (grounded : m.Grounded)

include reachable unlimited uniform there grounded

theorem interchangeable_let {bindings names operands body : Form} {i j i' j' k' : Identity}
    (binds : bindings.Binds names operands)
    (expansion : Session.Expansion ⟨m, kept⟩ e "$let"
      (.pair i (.symbol "$let") (.pair j bindings body))
      (names.lambdaCall body operands i' j' k')) :
    m.Interchangeable e (names.lambdaCall body operands i' j' k')
      (.pair i (.symbol "$let") (.pair j bindings body)) := by
  have sound := Session.Reachable.sound reachable uniform
  obtain ⟨id, fresh, letting⟩ := Machine.derives_initial.letting
  have bound := Scopes.lookup_of_get? (expansion.resolves.trans letting)
  obtain ⟨names', operands', named, given, i'', j'', k'', later, enough, widens, outcome⟩ :=
    @Form.result_let m.world e bindings body names operands id i j fresh bound
      (Machine.equipped_initial.same grounded) binds
  have concur : Concur ((names.lambdaCall body operands i' j' k').compile .halt)
      ((names'.lambdaCall body operands' i'' j'' k'').compile .ret) :=
    named.concur_lambdaCall _ _
  generalize compiled : (names.lambdaCall body operands i' j' k').compile .halt = left at concur
  generalize compiled' : (names'.lambdaCall body operands' i'' j'' k'').compile .ret = right
    at concur outcome
  cases concur with
  | error error =>
    -- The combination that `$let` builds does not compile either, for the same reason.
    exact reachable.interchangeable_of_error unlimited sound expansion.known there compiled rfl
      widens (outcome enough (Nat.le_refl _))
  | ok code code' =>
    obtain ⟨x, read, _⟩ := Form.compile_eq_ok.mp compiled
    have known : m.store.Knows ((names.lambdaCall body operands i' j' k').Obeys ·) :=
      fun D spans => expansion.known' D (reachable.obeys_spans spans)
    refine reachable.interchangeable unlimited expansion.known' expansion.known there compiled rfl
      expansion.direct (a := enough) (b := enough + 3) fun fuel => ?_
    -- It is made of other pairs, which makes no difference to what it comes to.
    have same : (names'.lambdaCall body operands' i'' j'' k'').outcome (fuel + enough) e later =
        (names.lambdaCall body operands i' j' k').outcome (fuel + enough) e later :=
      congrArg (Meaning.result · later) (named.evaluate_lambdaCall given (fuel + enough) e).symm
    rw [← Nat.add_assoc, outcome _ (Nat.le_add_left enough fuel)]
    dsimp only
    rw [same]
    exact sound.concludes widens read known there (fuel + enough)

theorem interchangeable_guard {skips : Bool} {name : String} {id n i j : Identity} {t : Template}
    {test body expanded : Form}
    (plain : SpecialForm.ofName? name = none)
    (bound : (Machine.initial.store.scopes.bindings Machine.ground).get? name =
      some (.combiner (.operative id Machine.ground t)))
    (parameters : t.parameters = .pair n (.symbol "test") (.symbol "body"))
    (formal : t.formal = .symbol "e") (checked : t.formal.checkClosure t.parameters = .ok ())
    (stands : ∀ combine d, t.source.evaluateAll combine d =
      .guard skips ((Form.ofDatum .evalTest (n + 1)).1.evaluate combine d)
        ((Form.ofDatum .evalBody (n + 4)).1.evaluate combine d))
    (expands : ∀ combine d, expanded.evaluate combine d =
      .guard skips (test.evaluate combine d) (body.evaluateAll combine d))
    (compiles : ∃ code, expanded.compile .halt = .ok code)
    (accepted : test.Accepted body) (spares : test.SparesGround e m)
    (expansion : Session.Expansion ⟨m, kept⟩ e name
      (.pair i (.symbol name) (.pair j test body)) expanded) :
    m.Interchangeable e expanded (.pair i (.symbol name) (.pair j test body)) := by
  have sound := Session.Reachable.sound reachable uniform
  have equipped := Machine.equipped_initial.same grounded
  obtain ⟨called, widens, size, calls, run⟩ := @Form.result_derived m.world e "test" test body id i
    j n name t plain (Scopes.lookup_of_get? (expansion.resolves.trans bound)) parameters formal
    checked equipped
  obtain ⟨code, compiled⟩ := compiles
  obtain ⟨_, compiledTest⟩ := accepted.test
  obtain ⟨x, y, read, readBody⟩ := accepted.reads
  have special : SpecialForm.ofHead? (.symbol name) = none := by
    unfold SpecialForm.ofHead?
    dsimp only
    rw [plain]
    rfl
  have knownTest : Session.Knows ⟨m, kept⟩ test := fun D obeys => (expansion.known D obeys).cdr.car
  have knownBody : m.store.Knows (body.Obeys ·) :=
    fun D spans => (expansion.known D (reachable.obeys_spans spans)).cdr.cdr
  refine reachable.interchangeable unlimited expansion.known' expansion.known there compiled
    (Form.compile_eq_ok.mpr ⟨_, .combination special .refer, rfl⟩) expansion.direct (a := 1)
    (b := 4) fun fuel => ?_
  have left : expanded.outcome (fuel + 1) e m.world = _ :=
    congrArg (Meaning.result · m.world) (expands (Combiner.combine (fuel + 1)) e)
  rw [left, run (fuel + 3), stands]
  -- The body is evaluated after the test, so the test has to leave alone what `eval` is.
  refine sound.concludes_guard widens size calls compiledTest accepted.proper readBody
    (fun D spans => knownTest D (reachable.obeys_spans spans)) knownBody there fuel
    (fun v later outcome => ?_) skips (n + 1) (n + 4)
  obtain ⟨more, last, ran, rfl⟩ := @Session.Reachable.evalIn_of_outcome (.ok v) later m kept
    reachable unlimited test e knownTest there _ (Form.compile_eq_ok.mpr ⟨x, read, rfl⟩) _ outcome
  exact (spares more v last ran).trans grounded.symm

end

/-- Whatever the names mean where they are used, the derived operatives come to what they stand
for. -/
theorem derived_operatives_hygienic {m : Machine} {kept : List Form}
    (reachable : Session.Reachable ⟨m, kept⟩) (unlimited : m.limit = none)
    (uniform : ∀ host ∈ m.hosts, host.Uniform) {e : ScopeId} (there : e < m.store.scopes.size)
    (grounded : m.Grounded) :
    (∀ {bindings names operands body : Form} {i j i' j' k' : Identity},
      bindings.Binds names operands →
      Session.Expansion ⟨m, kept⟩ e "$let" (.pair i (.symbol "$let") (.pair j bindings body))
        (names.lambdaCall body operands i' j' k') →
      m.Interchangeable e (names.lambdaCall body operands i' j' k')
        (.pair i (.symbol "$let") (.pair j bindings body))) ∧
    (∀ {test body : Form} {i j i' j' k' l' : Identity}, test.Accepted body →
      test.SparesGround e m →
      Session.Expansion ⟨m, kept⟩ e "$when" (.pair i (.symbol "$when") (.pair j test body))
        (test.ifTrue body i' j' k' l') →
      m.Interchangeable e (test.ifTrue body i' j' k' l')
        (.pair i (.symbol "$when") (.pair j test body))) ∧
    ∀ {test body : Form} {i j i' j' k' l' n' : Identity}, test.Accepted body →
      test.SparesGround e m →
      Session.Expansion ⟨m, kept⟩ e "$unless" (.pair i (.symbol "$unless") (.pair j test body))
        (test.ifFalse body i' j' k' l' n') →
      m.Interchangeable e (test.ifFalse body i' j' k' l' n')
        (.pair i (.symbol "$unless") (.pair j test body)) := by
  obtain ⟨_, fresh, onTrue⟩ := Machine.derives_initial.onTrue
  obtain ⟨_, fresh', onFalse⟩ := Machine.derives_initial.onFalse
  refine ⟨interchangeable_let reachable unlimited uniform there grounded,
    fun accepted spares => ?_, fun accepted spares => ?_⟩
  · exact interchangeable_guard reachable unlimited uniform there grounded rfl onTrue rfl rfl rfl
      (fun _ _ => Template.evaluate_onTrue) (fun _ _ => Form.evaluate_ifTrue)
      (accepted.ifTrue _ _ _ _) accepted spares
  · exact interchangeable_guard reachable unlimited uniform there grounded rfl onFalse rfl rfl rfl
      (fun _ _ => Template.evaluate_onFalse) (fun _ _ => Form.evaluate_ifFalse)
      (accepted.ifFalse _ _ _ _ _) accepted spares

/-- At a top level that binds `cons` to something else. -/
theorem derived_operatives_hygienic_cons :
    let m := Machine.initial.define Machine.topLevel "cons" .inert
    let body : Form := .pair 0 (.bool false) .nil
    m.Interchangeable Machine.topLevel
        ((Form.pair 0 (.symbol "car") .nil).lambdaCall body (.pair 0 (.bool true) .nil) 0 0 0)
        (.pair 0 (.symbol "$let") (.pair 0
          (.pair 0 (.pair 0 (.symbol "car") (.pair 0 (.bool true) .nil)) .nil) body)) ∧
      m.Interchangeable Machine.topLevel ((Form.bool true).ifTrue body 0 0 0 0)
        (.pair 0 (.symbol "$when") (.pair 0 (.bool true) body)) ∧
      m.Interchangeable Machine.topLevel ((Form.bool true).ifFalse body 0 0 0 0 0)
        (.pair 0 (.symbol "$unless") (.pair 0 (.bool true) body)) := by
  obtain ⟨kept, start⟩ := Session.Reachable.initial
  obtain ⟨_, _, _, _, top, fresh, unlimited⟩ := Machine.initial_facts
  have uniform := Machine.uniform_initial
  -- No step below is to compute the machine.
  obtain ⟨first, same⟩ : ∃ m, m = Machine.initial := ⟨_, rfl⟩
  rw [← same] at start top fresh unlimited uniform ⊢
  intro m body
  have session : Session.Reachable ⟨m, kept⟩ :=
    start.tail (.define Machine.topLevel "cons" fun _ _ => trivial)
  have grounded : m.Grounded := by
    unfold Machine.Grounded
    rw [← same]
    change (Scopes.define _ _ _ _)[Machine.ground]? = _
    unfold Scopes.define
    rw [Array.getElem?_modify, if_neg (by decide)]
  have here : m.store.scopes[Machine.topLevel]? =
      some ⟨[("cons", .inert)], some Machine.ground⟩ := by
    change (Scopes.define _ _ _ _)[Machine.topLevel]? = _
    unfold Scopes.define
    rw [Array.getElem?_modify, if_pos rfl, top]
    rfl
  have fresh : m.store.fresh = 204 := fresh
  have unlimited : m.limit = none := unlimited
  have uniform : ∀ host ∈ m.hosts, host.Uniform := uniform
  clear_value m
  have there : Machine.topLevel < m.store.scopes.size := (Array.getElem?_eq_some_iff.mp here).1
  have resolves {name : String} (other : name ≠ "cons") :
      m.store.scopes.get? Machine.topLevel name =
        (Machine.initial.store.scopes.bindings Machine.ground).get? name :=
    grounded.get?_child here (by simp [Bindings.get?, other.symm]) Nat.zero_lt_one
  have known {f : Form} (plain : ∀ D : Discipline, D.object 0 → f.Obeys D) :
      Session.Knows ⟨m, kept⟩ f := fun D obeys =>
    plain D (obeys.room.object 0 (by rw [fresh]; decide))
  have accepted : (Form.bool true).Accepted body :=
    ⟨⟨_, rfl⟩, rfl, fun form member => ⟨.constant (.bool false) .ret, by
      rw [List.mem_singleton.mp member]
      rfl⟩⟩
  have direct {f value : Form} {later : World}
      (ended : f.outcome 2 Machine.topLevel m.world = some (.ok value, later)) :
      f.Direct Machine.topLevel m.world := Form.direct_of_outcome ended
  have spares : (Form.bool true).SparesGround Machine.topLevel m := by
    refine session.sparesGround unlimited (known fun _ _ => trivial) there rfl (direct rfl) grounded
      fun _ _ _ outcome => ?_
    cases outcome
    rfl
  obtain ⟨lets, whens, unlesses⟩ :=
    derived_operatives_hygienic session unlimited uniform there grounded
  refine ⟨lets ⟨[_], [(.symbol "car", .bool true)], rfl, rfl, rfl, rfl⟩
      ⟨resolves (by decide), known ?_, known ?_, direct rfl⟩,
    whens accepted spares ⟨resolves (by decide), known ?_, known ?_, direct rfl⟩,
    unlesses accepted spares ⟨resolves (by decide), known ?_, known ?_, direct rfl⟩⟩
  all_goals
    intro D zero
    simp [body, Form.lambdaCall, Form.ifTrue, Form.ifFalse, Form.Obeys, zero]

end Session.Reachable

end Vau
