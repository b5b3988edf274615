import Vau.Proofs.Confinement.Machine

/-! Environments confine evaluation.

Without natives of the embedding program, an evaluation gets at a scope only by way of its own scope
and its form. All others it neither changes nor reads. -/

set_option autoImplicit false

namespace Vau

/-- The scope is there, but neither the form nor the scope that it is evaluated in leads to it. -/
def Machine.Hides (m : Machine) (form : Form) (scope d : ScopeId) : Prop :=
  d < m.store.scopes.size ∧
    ¬ m.store.scopes.Reaches (fun root => root = scope ∨ form.Mentions root) d

/-- The same machine, but for what is bound in these scopes. -/
structure Machine.AgreesOutside (hidden : ScopeId → Prop) (m other : Machine) : Prop where
  rest : other = { m with store.scopes := other.store.scopes }
  size : other.store.scopes.size = m.store.scopes.size
  parent : ∀ d, other.store.scopes.parent? d = m.store.scopes.parent? d
  bindings : ∀ d, ¬ hidden d → other.store.scopes.bindings d = m.store.scopes.bindings d

def Outcome.AgreesOutside (hidden : ScopeId → Prop) : Outcome → Outcome → Prop
  | some (result, m), some (result', m') => result' = result ∧ m.AgreesOutside hidden m'
  | none, none => True
  | _, _ => False

/-- Evaluation leaves what is hidden from it as it is, and does the same whatever is bound there. -/
structure Machine.Confines (m : Machine) (form : Form) (scope : ScopeId) : Prop where
  unchanged : ∀ (fuel : Nat) (result : Except Error Form) (later : Machine),
    m.evalIn fuel form scope = some (result, later) → ∀ d, m.Hides form scope d →
      later.store.scopes.bindings d = m.store.scopes.bindings d
  unread : ∀ other : Machine, m.AgreesOutside (m.Hides form scope) other → ∀ fuel : Nat,
    Outcome.AgreesOutside (m.Hides form scope) (m.evalIn fuel form scope)
      (other.evalIn fuel form scope)

theorem Scopes.ext {scopes other : Scopes} (size : scopes.size = other.size)
    (parent : ∀ d, scopes.parent? d = other.parent? d)
    (bindings : ∀ d, scopes.bindings d = other.bindings d) : scopes = other := by
  refine Array.ext size fun d here there => ?_
  have above := parent d
  have bound := bindings d
  simp only [Scopes.parent?, Scopes.bindings, Array.getElem?_eq_getElem here,
    Array.getElem?_eq_getElem there, Option.bind_some] at above bound
  calc
    scopes[d] = ⟨scopes[d].bindings, scopes[d].parent⟩ := rfl
    _ = ⟨other[d].bindings, other[d].parent⟩ := by rw [above, bound]
    _ = other[d] := rfl

variable {m other : Machine} {hidden : ScopeId → Prop}

open Classical in
noncomputable def Machine.bound (other : Machine) (hidden : ScopeId → Prop) : Rebinding := fun d =>
  if hidden d then some (other.store.scopes.bindings d) else none

namespace Machine

theorem bound_of_hidden {d : ScopeId} (here : hidden d) :
    other.bound hidden d = some (other.store.scopes.bindings d) :=
  if_pos here

theorem bound_eq_none {d : ScopeId} : other.bound hidden d = none ↔ ¬ hidden d := by
  unfold bound
  split
  · rename_i here
    exact ⟨nofun, fun shown => (shown here).elim⟩
  · rename_i shown
    exact ⟨fun _ => shown, fun _ => rfl⟩

theorem agreesOutside_rebind (m other : Machine) (hidden : ScopeId → Prop) :
    m.AgreesOutside hidden (m.rebind (other.bound hidden)) where
  rest := rfl
  size := m.store.scopes.size_rebind
  parent := m.store.scopes.parent?_rebind
  bindings _ shown := m.store.scopes.bindings_rebind_of_none (bound_eq_none.mpr shown)

theorem AgreesOutside.rebind_eq (agrees : m.AgreesOutside hidden other)
    (there : ∀ d, hidden d → d < m.store.scopes.size) :
    m.rebind (other.bound hidden) = other := by
  have scopes : m.store.scopes.rebind (other.bound hidden) = other.store.scopes := by
    refine Scopes.ext ?_ (fun d => ?_) fun d => ?_
    · exact m.store.scopes.size_rebind.trans agrees.size.symm
    · exact (m.store.scopes.parent?_rebind d).trans (agrees.parent d).symm
    · by_cases here : hidden d
      · exact m.store.scopes.bindings_rebind_of_some (bound_of_hidden here) (there d here)
      · have kept : other.bound hidden d = none := bound_eq_none.mpr here
        exact (m.store.scopes.bindings_rebind_of_none kept).trans (agrees.bindings d here).symm
  rw [agrees.rest]
  exact congrArg (fun scopes => ({ m with store.scopes := scopes } : Machine)) scopes

theorem not_hides_iff {form : Form} {scope d : ScopeId} :
    ¬ m.Hides form scope d ↔ m.store.scopes.size ≤ d ∨
      m.store.scopes.Reaches (fun root => root = scope ∨ form.Mentions root) d := by
  unfold Hides
  rw [not_and_or, not_not, Nat.not_lt]

theorem ignores_bound (ground : m.hosts = #[]) (form : Form) (scope : ScopeId) (other : Machine) :
    m.Ignores (other.bound (m.Hides form scope)) form scope where
  hosts := ground
  scopes := Scopes.obeys_within fun _ => bound_eq_none.trans not_hides_iff
  before _ high := bound_eq_none.mpr (not_hides_iff.mpr (.inl high))
  known _ mentioned := bound_eq_none.mpr (not_hides_iff.mpr (.inr (.root (.inr mentioned))))
  kept := bound_eq_none.mpr (not_hides_iff.mpr (.inr (.root (.inl rfl))))

theorem confines (ground : m.hosts = #[]) (form : Form) (scope : ScopeId) :
    m.Confines form scope := by
  constructor
  · -- With its own bindings put in their place the machine is what it was.
    intro fuel result later ran d here
    have ignores := ignores_bound ground form scope m
    have own : m.rebind (m.bound (m.Hides form scope)) = m :=
      AgreesOutside.rebind_eq ⟨rfl, rfl, fun _ => rfl, fun _ _ => rfl⟩ fun _ => And.left
    have again := ignores.evalIn fuel
    rw [own, ran] at again
    have same : later = later.rebind (m.bound (m.Hides form scope)) :=
      (Prod.mk.inj (Option.some.inj again)).2
    have there : d < later.store.scopes.size :=
      Nat.lt_of_lt_of_le here.1 (ignores.size_evalIn ran)
    rw [same]
    exact later.store.scopes.bindings_rebind_of_some (bound_of_hidden here) there
  · -- The other machine is this one with the other bindings put in their place.
    intro other agrees fuel
    have ran := (ignores_bound ground form scope other).evalIn fuel
    rw [agrees.rebind_eq fun _ => And.left] at ran
    rw [ran]
    cases m.evalIn fuel form scope with
    | none => trivial
    | some outcome => exact ⟨rfl, outcome.2.agreesOutside_rebind other _⟩

end Machine

theorem Scopes.Reaches.of_extend {scopes : Scopes} {roots : ScopeId → Prop} {d : ScopeId}
    (reaches : (scopes.extend none).2.Reaches (fun root => root = scopes.size ∨ roots root) d) :
    d = scopes.size ∨ ∃ root, roots root ∧ scopes.Reaches (· = root) d := by
  induction reaches with
  | root given => exact given.imp_right fun held => ⟨_, held, .root rfl⟩
  | @parent e d _ found ih =>
    rw [Scopes.parent?_extend] at found
    split at found
    · cases found
    · rename_i old
      obtain ⟨root, held, leads⟩ := ih.resolve_left old
      exact .inr ⟨root, held, leads.parent found⟩
  | @bound e d binding _ member mentioned ih =>
    rw [Scopes.bindings_extend] at member
    rcases ih with last | ⟨root, held, leads⟩
    · simp [Scopes.bindings, last] at member
    · exact .inr ⟨root, held, leads.bound member mentioned⟩

namespace Machine

/-- Evaluation is confined to what its scope and its form lead to. In a new scope that has no parent
this is what the form alone leads to. -/
theorem environments_confine (m : Machine) (ground : m.hosts = #[]) (form : Form) :
    (∀ scope, m.Confines form scope) ∧
      ∀ (e : ScopeId) (later : Machine),
        m.callNative (.primitive .makeEnvironment) [] = (.ok (.environment e), later) →
          later.Confines form e ∧ ∀ d < m.store.scopes.size,
            (∀ root, form.Mentions root → ¬ m.store.scopes.Reaches (· = root) d) →
              later.Hides form e d := by
  refine ⟨fun scope => confines ground form scope, fun e later made => ?_⟩
  obtain ⟨rfl, scopes, hosts⟩ : e = m.store.scopes.size ∧
      later.store.scopes = (m.store.scopes.extend none).2 ∧ later.hosts = m.hosts := by
    cases made
    exact ⟨rfl, rfl, rfl⟩
  refine ⟨confines (hosts.trans ground) form _, fun d old shown => ?_⟩
  unfold Hides
  rw [scopes]
  constructor
  · exact Nat.lt_of_lt_of_eq (Nat.lt_succ_of_lt old) (Scopes.size_extend _ _).symm
  · intro reaches
    rcases reaches.of_extend with last | ⟨root, held, leads⟩
    · exact Nat.ne_of_lt old last
    · exact shown root held leads

theorem environments_confine_definition :
    let m : Machine := { store.scopes := #[{ bindings := [("x", .int 1)] }] }
    let form : Form :=
      .pair 0 (.symbol "$define!") (.pair 1 (.symbol "x") (.pair 2 (.int 2) .nil))
    ∃ later after : Machine,
      m.callNative (.primitive .makeEnvironment) [] = (.ok (.environment 1), later) ∧
        later.Hides form 1 0 ∧ later.evalIn 3 form 1 = some (.ok .inert, after) ∧
          after.store.scopes.bindings 0 = [("x", .int 1)] ∧
            after.store.scopes.bindings 1 = [("x", .int 2)] := by
  intro m form
  obtain ⟨confines, hides⟩ := (environments_confine m rfl form).2 1 _ rfl
  have hidden := hides 0 (Nat.zero_lt_one) fun root held => by
    simp [form, Form.Mentions] at held
  refine ⟨_, _, rfl, hidden, rfl, ?_, rfl⟩
  exact confines.unchanged 3 _ _ rfl 0 hidden

end Machine

end Vau
