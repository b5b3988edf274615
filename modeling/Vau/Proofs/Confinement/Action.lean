import Mathlib.Data.List.Find
import Vau.Proofs.Primitive

/-! Scopes and natives where other things are bound in some scopes.

A name is looked up, and assigned, along a chain of scopes. Only what the chain binds matters. -/

set_option autoImplicit false

namespace Vau

abbrev Rebinding := ScopeId → Option Bindings

def Scopes.rebind (new : Rebinding) (scopes : Scopes) : Scopes :=
  scopes.mapIdx fun d scope => { scope with bindings := (new d).getD scope.bindings }

variable {new : Rebinding}

namespace Scopes

theorem getElem?_rebind (scopes : Scopes) (d : ScopeId) :
    (scopes.rebind new)[d]? =
      scopes[d]?.map fun scope => { scope with bindings := (new d).getD scope.bindings } :=
  Array.getElem?_mapIdx

theorem size_rebind (scopes : Scopes) : (scopes.rebind new).size = scopes.size :=
  Array.size_mapIdx

theorem parent?_rebind (scopes : Scopes) (d : ScopeId) :
    (scopes.rebind new).parent? d = scopes.parent? d := by
  unfold parent?
  rw [getElem?_rebind]
  cases scopes[d]? <;> rfl

theorem bindings_rebind_of_none (scopes : Scopes) {d : ScopeId} (kept : new d = none) :
    (scopes.rebind new).bindings d = scopes.bindings d := by
  unfold bindings
  rw [getElem?_rebind, kept]
  cases scopes[d]? <;> rfl

theorem bindings_rebind_of_some (scopes : Scopes) {d : ScopeId} {bindings : Bindings}
    (replaced : new d = some bindings) (bound : d < scopes.size) :
    (scopes.rebind new).bindings d = bindings := by
  unfold Scopes.bindings
  rw [getElem?_rebind, replaced, Array.getElem?_eq_getElem bound]
  rfl

theorem chain_rebind (scopes : Scopes) (e : ScopeId) :
    (scopes.rebind new).chain e = scopes.chain e := by
  unfold chain
  generalize e + 1 = n
  induction n generalizing e with
  | zero => rfl
  | succ n ih =>
    unfold chainOf
    rw [parent?_rebind]
    cases scopes.parent? e with
    | none => rfl
    | some p => exact congrArg (e :: ·) (ih p)

theorem rebind_define (scopes : Scopes) {e : ScopeId} (kept : new e = none) (name : String)
    (value : Form) :
    (scopes.rebind new).define e name value = (scopes.define e name value).rebind new := by
  refine Array.ext_getElem? fun d => ?_
  rw [getElem?_rebind]
  unfold define
  rw [Array.getElem?_modify, Array.getElem?_modify, getElem?_rebind]
  split
  · rename_i same
    subst same
    rw [kept]
    cases scopes[e]? <;> rfl
  · rfl

theorem rebind_extend (scopes : Scopes) (kept : new scopes.size = none)
    (parent : Option ScopeId) :
    (scopes.rebind new).extend parent =
      ((scopes.extend parent).1, (scopes.extend parent).2.rebind new) := by
  unfold extend
  rw [size_rebind, rebind, rebind, Array.mapIdx_push, kept]
  rfl

theorem rebind_bind {e : ScopeId} (kept : new e = none) (parameters operands : Form)
    (scopes : Scopes) :
    (scopes.rebind new).bind e parameters operands =
      ((scopes.bind e parameters operands).1,
        (scopes.bind e parameters operands).2.rebind new) := by
  fun_induction Scopes.bind scopes e parameters operands with
  | case1 scopes name operand => rw [Scopes.bind, rebind_define _ kept]
  | case2 | case3 => rw [Scopes.bind]
  | case4 scopes id car cdr id' first rest changed bound ih ih' =>
    rw [Scopes.bind, ih, bound]
    exact ih'
  | case5 scopes id car cdr id' first rest failed ih =>
    rw [Scopes.bind, ih]
    rcases ran : scopes.bind e car first with ⟨_ | _, changed⟩
    · rfl
    · exact (failed changed ran).elim
  | case6 | case7 | case8 => rw [Scopes.bind] <;> assumption

theorem get?_rebind (scopes : Scopes) {e : ScopeId} (kept : ∀ d ∈ scopes.chain e, new d = none)
    (name : String) : (scopes.rebind new).get? e name = scopes.get? e name := by
  unfold get?
  rw [chain_rebind]
  revert kept
  induction scopes.chain e with
  | nil => exact fun _ => rfl
  | cons d rest ih =>
    intro kept
    have here := scopes.bindings_rebind_of_none (kept d (by simp))
    have later := ih fun d' member => kept d' (List.mem_cons_of_mem _ member)
    rw [List.findSome?_cons, List.findSome?_cons, here, later]

theorem lookup_rebind (scopes : Scopes) {e : ScopeId}
    (kept : ∀ d ∈ scopes.chain e, new d = none) (name : String) :
    (scopes.rebind new).lookup e name = scopes.lookup e name := by
  unfold lookup
  rw [scopes.get?_rebind kept]

theorem binder?_rebind (scopes : Scopes) {e : ScopeId}
    (kept : ∀ d ∈ scopes.chain e, new d = none) (name : String) :
    (scopes.rebind new).binder? e name = scopes.binder? e name := by
  unfold binder?
  rw [chain_rebind]
  refine List.find?_congr fun d member => ?_
  rw [scopes.bindings_rebind_of_none (kept d member)]

theorem rebind_set (scopes : Scopes) {e : ScopeId} (kept : ∀ d ∈ scopes.chain e, new d = none)
    (name : String) (value : Form) :
    (scopes.rebind new).set e name value = (scopes.set e name value).map (rebind new) := by
  unfold set
  rw [scopes.binder?_rebind kept]
  cases found : scopes.binder? e name with
  | none => rfl
  | some d =>
    -- What is assigned is on the chain, and so are the scopes that were passed over.
    have member := List.mem_of_find?_eq_some found
    exact congrArg Except.ok (scopes.rebind_define (kept d member) name value)

end Scopes

def Store.rebind (new : Rebinding) (store : Store) : Store :=
  { store with scopes := store.scopes.rebind new }

@[simp] theorem Store.output_rebind (store : Store) :
    (store.rebind new).output = store.output := rfl

/-- Scopes with that number or a higher one keep their bindings. -/
def Rebinding.Before (new : Rebinding) (size : Nat) : Prop := ∀ d : Nat, size ≤ d → new d = none

theorem Rebinding.Before.trans {size more : Nat} (before : new.Before size)
    (grows : size ≤ more) : new.Before more :=
  fun d high => before d (Nat.le_trans grows high)

def Action.Ignores (new : Rebinding) {α : Type} (action : Action α) : Prop :=
  ∀ store : Store, new.Before store.scopes.size →
    action.run (store.rebind new) = ((action.run store).1, (action.run store).2.rebind new) ∧
      store.scopes.size ≤ (action.run store).2.scopes.size

namespace Action

variable {α β : Type}

theorem Ignores.pure (a : α) : Ignores new (pure a) :=
  fun _ _ => ⟨rfl, Nat.le_refl _⟩

theorem Ignores.bind {action : Action α} (first : Ignores new action) {k : α → Action β}
    (later : ∀ a, Ignores new (k a)) : Ignores new (action >>= k) := by
  intro store before
  obtain ⟨same, grows⟩ := first store before
  rw [run_bind, run_bind, same]
  rcases ran : action.run store with ⟨outcome, middle⟩
  rw [ran] at grows
  cases outcome with
  | error e => exact ⟨rfl, grows⟩
  | ok a =>
    obtain ⟨same, more⟩ := later a middle (before.trans grows)
    exact ⟨same, Nat.le_trans grows more⟩

theorem ignores_fresh : Ignores new Action.fresh :=
  fun _ _ => ⟨rfl, Nat.le_refl _⟩

theorem ignores_wrap (c : Combiner) : Ignores new (wrap c) :=
  ignores_fresh.bind fun _ => .pure _

theorem ignores_newScope (parent : Option ScopeId) : Ignores new (newScope parent) := by
  intro store before
  have extended := store.scopes.rebind_extend (before _ (Nat.le_refl _)) parent
  constructor
  · change (Except.ok ((store.scopes.rebind new).extend parent).1,
      ({ store with scopes := ((store.scopes.rebind new).extend parent).2 } : Store)) = _
    rw [extended]
    rfl
  · exact Nat.le.intro (store.scopes.size_extend parent).symm

theorem ignores_write (text : String) : Ignores new (write text) := by
  intro store _
  rw [run_write, run_write, Store.output_rebind]
  rcases store.output.write text with ⟨_ | _, output⟩
  · exact ⟨rfl, Nat.le_refl _⟩
  · exact ⟨rfl, Nat.le_refl _⟩

theorem ignores_flush : Ignores new flush := by
  intro store _
  rw [run_flush, run_flush, Store.output_rebind]
  cases store.output.flush with
  | error fault => exact ⟨rfl, Nat.le_refl _⟩
  | ok _ => exact ⟨rfl, Nat.le_refl _⟩

end Action

/-- The other store is this one with something else bound. Both have grown. -/
structure Store.Rebound (new : Rebinding) (size : Nat) (store other : Store) : Prop where
  same : other = store.rebind new
  before : new.Before store.scopes.size
  grows : size ≤ store.scopes.size

theorem Action.Ignores.relates {α : Type} {action : Action α} (ignores : action.Ignores new)
    (size : Nat) : action.Relates (Store.Rebound new size) id action := by
  rintro store _ ⟨rfl, before, grows⟩
  obtain ⟨same, more⟩ := ignores store before
  rw [same]
  exact ⟨(congrFun Except.map_id _).symm, rfl, before.trans more, Nat.le_trans grows more⟩

theorem Likeness.carries_rebound (size : Nat) : Likeness.same.Carries (Store.Rebound new size) where
  fresh := Action.ignores_fresh.relates size
  root := (Action.ignores_newScope none).relates size
  write text := (Action.ignores_write text).relates size
  flush := Action.ignores_flush.relates size

theorem Primitive.ignores_call (p : Primitive) (args : List Form) :
    Action.Ignores new (p.call args) := by
  intro store before
  have called := relates_call (Likeness.carries_rebound store.scopes.size) p args
    (fun _ _ e _ => (Action.ignores_newScope (some e)).relates _) store _
    ⟨rfl, before, Nat.le_refl _⟩
  rw [show args.map Likeness.same.form = args from List.map_id args] at called
  obtain ⟨same, after⟩ := called
  exact ⟨Prod.ext (same.trans (congrFun Except.map_id _)) after.same, after.grows⟩

end Vau
