import Vau.Proofs.Evaluator.Call
import Vau.Proofs.Ground.Derived

/-! The scope of a call of a derived operative.

What its body refers to besides the operands and the scope of the caller is found in the ground
scope, whatever the caller binds. -/

set_option autoImplicit false

namespace Vau

/-- The operands are a form and the rest of the list. -/
structure Scopes.Calls (scopes : Scopes) (d caller : ScopeId) (name : String)
    (first body : Form) : Prop where
  first : scopes.lookup d name = .ok first
  body : scopes.lookup d "body" = .ok body
  caller : scopes.lookup d "e" = .ok (.environment caller)
  outer : ∀ other value, other ∉ [name, "body", "e"] →
    (scopes.bindings Machine.ground).get? other = some value → scopes.lookup d other = .ok value
  parent : scopes.parent? d = some Machine.ground
  older : Machine.ground < d
  there : d < scopes.size
  equipped : scopes.Equipped

variable {w later : World} {d caller : ScopeId} {name : String} {first body : Form}

namespace Scopes.Calls

variable {scopes : Scopes}

theorem same {later : Scopes} (calls : scopes.Calls d caller name first body)
    (here : later[d]? = scopes[d]?) (above : later[Machine.ground]? = scopes[Machine.ground]?)
    (there : d < later.size) : later.Calls d caller name first body := by
  have lookups := lookup_of_same calls.parent calls.equipped.grounded.root calls.older here above
  refine ⟨(lookups _).trans calls.first, (lookups _).trans calls.body,
    (lookups _).trans calls.caller, fun other value unnamed found => ?_, ?_, calls.older, there,
    calls.equipped.same above⟩
  · rw [bindings, above] at found
    exact (lookups other).trans (calls.outer other value unnamed found)
  · rw [parent?, here]
    exact calls.parent

theorem widens (calls : w.store.scopes.Calls d caller name first body) (widens : w.Widens later) :
    later.store.scopes.Calls d caller name first body :=
  calls.same (widens.older d calls.there)
    (widens.older _ (Nat.lt_trans calls.older calls.there))
    (Nat.lt_of_lt_of_le calls.there widens.size)

theorem primitive (calls : scopes.Calls d caller name first body) (p : Primitive)
    (unnamed : p.name ∉ [name, "body", "e"]) : ∃ id, scopes.lookup d p.name =
      .ok (.combiner (.applicative id (.native (.primitive p)))) := by
  obtain ⟨id, found⟩ := calls.equipped.grounded.primitives p
  exact ⟨id, calls.outer _ _ unnamed found⟩

theorem eval (calls : scopes.Calls d caller name first body)
    (unnamed : "eval" ∉ [name, "body", "e"]) :
    ∃ id, scopes.lookup d "eval" = .ok (.combiner (.applicative id .eval)) := by
  obtain ⟨id, found⟩ := calls.equipped.grounded.eval
  exact ⟨id, calls.outer _ _ unnamed found⟩

end Scopes.Calls

theorem Form.result_derived {id i j n : Identity} {operator : String} {t : Template}
    (plain : SpecialForm.ofName? operator = none)
    (bound : w.store.scopes.lookup caller operator =
      .ok (.combiner (.operative id Machine.ground t)))
    (parameters : t.parameters = .pair n (.symbol name) (.symbol "body"))
    (formal : t.formal = .symbol "e") (checked : t.formal.checkClosure t.parameters = .ok ())
    (equipped : w.store.scopes.Equipped) : ∃ called : World, w.Widens called ∧
      called.store.scopes.size = w.store.scopes.size + 1 ∧
      called.store.scopes.Calls w.store.scopes.size caller name first body ∧
      ∀ fuel, (pair i (.symbol operator) (.pair j first body)).outcome (fuel + 1) caller w =
        (t.source.evaluateAll (Combiner.combine fuel) w.store.scopes.size).result called := by
  have atom (name : String) (f : Form) : (symbol name).Fits f := (fits_of_atom rfl).mpr nofun
  have fits : t.parameters.Fits (.pair j first body) := by
    rw [parameters]
    exact fits_pair.mpr ⟨atom _ _, atom _ _⟩
  obtain ⟨scopes, entered, run⟩ :=
    @Combiner.result_operative id Machine.ground t checked _ fits w caller
  have positive := equipped.grounded.size_pos
  refine ⟨w.withScopes scopes, entered.widens, entered.size, ?_, fun fuel => ?_⟩
  · refine ⟨entered.lookup_parameter [.car] (by rw [parameters]; rfl) rfl,
      entered.lookup_parameter [.cdr] (by rw [parameters]; rfl) rfl, entered.lookup_caller formal,
      fun other value unnamed found => ?_, entered.parent, positive, ?_, ?_⟩
    · simp only [List.mem_cons, List.not_mem_nil, or_false, not_or] at unnamed
      obtain ⟨notFirst, notBody, notCaller⟩ := unnamed
      refine entered.lookup_static positive equipped.grounded.root (fun named => ?_) ?_ ?_
      · rw [parameters, names_pair, names_of_atom rfl, names_of_atom rfl] at named
        simp only [symbol.injEq] at named
        exact named.elim (fun same => notFirst same.symm) fun same => notBody same.symm
      · rw [formal]
        intro same
        exact notCaller (symbol.inj same).symm
      · have same := entered.older _ positive
        rw [Scopes.bindings, World.withScopes, same] at found
        exact found
    · exact Nat.lt_of_lt_of_eq (Nat.lt_succ_self _) entered.size.symm
    · exact equipped.same (entered.older _ positive)
  · exact (result_named plain bound).trans (run fuel)

end Vau
