import Vau.Proofs.Evaluator.Result
import Vau.Proofs.Parameters

/-! Calls of closures and of applicatives, and what they leave alone of the world. -/

set_option autoImplicit false

namespace Vau

/-- Numbers were given out and scopes were made. Nothing else has changed. -/
structure World.Widens (w later : World) : Prop where
  hosts : later.hosts = w.hosts
  output : later.store.output = w.store.output
  fresh : w.store.fresh ≤ later.store.fresh
  size : w.store.scopes.size ≤ later.store.scopes.size
  older : ∀ d : Nat, d < w.store.scopes.size → later.store.scopes[d]? = w.store.scopes[d]?

namespace World

variable {w middle later : World}

theorem Widens.refl (w : World) : w.Widens w :=
  ⟨rfl, rfl, Nat.le_refl _, Nat.le_refl _, fun _ _ => rfl⟩

theorem Widens.trans (first : w.Widens middle) (rest : middle.Widens later) : w.Widens later where
  hosts := rest.hosts.trans first.hosts
  output := rest.output.trans first.output
  fresh := Nat.le_trans first.fresh rest.fresh
  size := Nat.le_trans first.size rest.size
  older d there := (rest.older d (Nat.lt_of_lt_of_le there first.size)).trans (first.older d there)

theorem widens_reserve (w : World) (count : Nat) : w.Widens (w.reserve count) :=
  ⟨rfl, rfl, Nat.le_add_right _ _, Nat.le_refl _, fun _ _ => rfl⟩

theorem Widens.reserve (widens : w.Widens later) (count : Nat) : w.Widens (later.reserve count) :=
  widens.trans (later.widens_reserve count)

def withScopes (w : World) (scopes : Scopes) : World := { w with store.scopes := scopes }

end World

namespace Scopes

variable {scopes later : Scopes} {name : String} {value : Form} {static caller : ScopeId}
  {parameters formal operands : Form}

theorem lookup_of_get? {e : ScopeId} (found : scopes.get? e name = some value) :
    scopes.lookup e name = .ok value := by
  unfold lookup
  rw [found]

theorem Entered.widens {w : World}
    (entered : w.store.scopes.Entered later static caller parameters formal operands) :
    w.Widens (w.withScopes later) where
  hosts := rfl
  output := rfl
  fresh := Nat.le_refl _
  size := Nat.le_of_lt (Nat.lt_of_lt_of_eq (Nat.lt_succ_self _) entered.size.symm)
  older := entered.older

/-! What is found from the scope of a call. -/

/-- A child of a root sees the same while both scopes are the same. -/
theorem lookup_of_same {scopes later : Scopes} {d p : ScopeId} (parent : scopes.parent? d = some p)
    (root : scopes.parent? p = none) (older : p < d) (here : later[d]? = scopes[d]?)
    (above : later[p]? = scopes[p]?) (name : String) :
    later.lookup d name = scopes.lookup d name := by
  have parents {e : ScopeId} (same : later[e]? = scopes[e]?) :
      later.parent? e = scopes.parent? e := by rw [parent?, parent?, same]
  have bound {e : ScopeId} (same : later[e]? = scopes[e]?) :
      later.bindings e = scopes.bindings e := by rw [bindings, bindings, same]
  unfold lookup
  cases own : (scopes.bindings d).get? name with
  | some value =>
    rw [get?_of_own own, get?_of_own (by rw [bound here]; exact own)]
  | none =>
    rw [get?_of_root own parent root older, get?_of_root (by rw [bound here]; exact own)
      ((parents here).trans parent) ((parents above).trans root) older, bound above]

theorem Entered.lookup_parameter
    (entered : scopes.Entered later static caller parameters formal operands) (p : List Side)
    (named : parameters.at? p = some (.symbol name)) (given : operands.at? p = some value) :
    later.lookup scopes.size name = .ok value := by
  obtain ⟨bound, found, own⟩ := entered.symbols p name named
  cases given.symm.trans found
  exact lookup_of_get? (get?_of_own own)

theorem Entered.lookup_caller
    (entered : scopes.Entered later static caller parameters formal operands)
    (named : formal = .symbol name) : later.lookup scopes.size name = .ok (.environment caller) :=
  lookup_of_get? (get?_of_own (entered.caller name named))

theorem Entered.lookup_static
    (entered : scopes.Entered later static caller parameters formal operands)
    (there : static < scopes.size) (root : scopes.parent? static = none)
    (unnamed : ¬ parameters.Names name) (informal : formal ≠ .symbol name)
    (found : (scopes.bindings static).get? name = some value) :
    later.lookup scopes.size name = .ok value := by
  have same := entered.older static there
  have root : later.parent? static = none := by
    rw [parent?, same]
    exact root
  refine lookup_of_get? ((get?_of_root (entered.others name unnamed informal) entered.parent root
    there).trans ?_)
  rw [bindings, same]
  exact found

end Scopes

/-- The body is evaluated in a new scope. Which one that is does not depend on the fuel. -/
theorem Combiner.result_operative {id : Identity} {static : ScopeId} {t : Template}
    (checked : t.formal.checkClosure t.parameters = .ok ()) {operands : Form}
    (fits : t.parameters.Fits operands) (w : World) (e : ScopeId) : ∃ later,
      w.store.scopes.Entered later static e t.parameters t.formal operands ∧
      ∀ fuel, (combine (fuel + 1) (.operative id static t) operands e).result w =
        (t.source.evaluateAll (combine fuel) w.store.scopes.size).result (w.withScopes later) := by
  let caller : Evaluation := { store := w.store, code := .ret, scope := e }
  rcases caller.enter_outcome static checked operands with
    ⟨later, entered, _, bound⟩ | ⟨_, p, expected, got, _, differ, _⟩
  · refine ⟨later, bound, fun fuel => ?_⟩
    have enters : (Meaning.enter e static t operands).result w =
        some (.ok w.store.scopes.size, w.withScopes later) := by
      unfold Evaluation.enter at entered
      unfold Meaning.enter
      rw [Meaning.result_onScopes]
      rcases matched : (w.store.scopes.extend (some static)).2.bind w.store.scopes.size
        t.parameters operands with ⟨outcome, scopes⟩
      simp only [Scopes.extend, caller] at matched entered ⊢
      simp only [matched] at entered ⊢
      cases outcome with
      | error error => cases entered
      | ok done =>
        have same := congrArg (fun p => p.machine.store.scopes) entered
        dsimp only [Progress.machine] at same
        exact congrArg (fun scopes => some (Except.ok w.store.scopes.size, w.withScopes scopes))
          same
    rw [combine, Meaning.result_bind, enters]
  · exact (fits.not_unlike differ.asked differ.given differ.unlike).elim

/-- A closure that is given values, as a list. -/
theorem Combiner.result_closure {id : Identity} {static : ScopeId} {t : Template}
    (checked : t.formal.checkClosure t.parameters = .ok ()) {values : List Form}
    (w : World) (fits : t.parameters.Fits (Form.chain values .nil w.store.fresh).1)
    (e : ScopeId) : ∃ later,
      w.store.scopes.Entered later static e t.parameters t.formal
        (Form.chain values .nil w.store.fresh).1 ∧
      ∀ fuel, ((operative id static t).receive (combine (fuel + 1)) e values).result w =
        (t.source.evaluateAll (combine fuel) w.store.scopes.size).result
          ((w.withScopes later).reserve values.length) := by
  obtain ⟨later, entered, body⟩ := @result_operative id static t checked _ fits
    (w.reserve values.length) e
  exact ⟨later, entered, fun fuel => (result_receive (by nofun) values).trans (body fuel)⟩

theorem Form.result_eval {fuel : Nat} {id wrapper : Identity} {operands form : Form}
    {e d : ScopeId} {w middle : World} {code : Code}
    (bound : w.store.scopes.lookup e "eval" = .ok (.combiner (.applicative wrapper .eval)))
    (accepted : operands.compileArguments .eval = .ok code)
    (evaluated : (operands.evaluateOperands (Combiner.combine (fuel + 1)) e).result w =
      some (.ok [form, .environment d], middle)) :
    ((pair id (.symbol "eval") operands).evaluate (Combiner.combine (fuel + 2)) e).result w =
      match form.compile .ret with
      | .ok _ => form.outcome fuel d (middle.reserve 2)
      | .error error => some (.error (.error error), middle.reserve 2) := by
  rw [result_named rfl bound, Combiner.result_applicative accepted evaluated,
    Combiner.result_receive (by nofun), Combiner.combine, Meaning.result_bind, Meaning.acceptEval,
    Form.operands_chain]
  dsimp only
  cases form.compile .ret <;> rfl

end Vau
