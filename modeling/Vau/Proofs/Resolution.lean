import Mathlib.Logic.Relation
import Vau.Proofs.Discipline.Action

/-! Which binding a name has, seen from any scope of a tree.

A look-up walks from its scope towards the root and stops at the first scope that binds the name.
Definitions and assignments are seen from exactly those scopes whose walk stops where they were
made. -/

set_option autoImplicit false

namespace Vau

theorem Bindings.names_put {bindings : Bindings} {name : String} {old : Form}
    (found : bindings.get? name = some old) (value : Form) :
    (bindings.put name value).map Prod.fst = bindings.map Prod.fst := by
  induction bindings with
  | nil => cases found
  | cons head rest ih =>
    obtain ⟨bound, here⟩ := head
    unfold get? at found
    unfold put
    split at found
    · rename_i same
      rw [if_pos same]
      rfl
    · rename_i other
      rw [if_neg other, List.map_cons, ih found]
      rfl

namespace Scopes

def Tree (scopes : Scopes) : Prop := ∀ d p, scopes.parent? d = some p → p < d

/-- The scope is on the walk from `d` towards the root. -/
def Above (scopes : Scopes) (d : ScopeId) : ScopeId → Prop :=
  Relation.ReflTransGen (fun d p => scopes.parent? d = some p) d

def Binds (scopes : Scopes) (name : String) (d : ScopeId) : Prop :=
  ∃ value, (scopes.bindings d).get? name = some value

inductive Nearest (scopes : Scopes) (holds : ScopeId → Prop) : ScopeId → ScopeId → Prop
  | here {d : ScopeId} : holds d → Nearest scopes holds d d
  | up {d p e : ScopeId} : ¬ holds d → scopes.parent? d = some p → Nearest scopes holds p e →
    Nearest scopes holds d e

/-- The value is what the name stands for, in the scopes that see it. All else stands for what it
did. -/
def Shows (scopes later : Scopes) (sees : ScopeId → Prop) (name : String) (value : Form) : Prop :=
  ∀ d other, (other = name ∧ sees d → later.get? d other = some value) ∧
    (¬ (other = name ∧ sees d) → later.get? d other = scopes.get? d other)

variable {scopes later : Scopes} {d e p n : ScopeId} {name other : String} {value : Form}
  {holds : ScopeId → Prop}

/-! Walks. -/

theorem Nearest.above (nearest : scopes.Nearest holds d e) : scopes.Above d e := by
  induction nearest with
  | here => exact .refl
  | up _ parent _ ih => exact .head parent ih

theorem Nearest.met (nearest : scopes.Nearest holds d e) : holds e := by
  induction nearest with
  | here here => exact here
  | up _ _ _ ih => exact ih

theorem nearest_iff_of_holds (here : holds d) : scopes.Nearest holds d e ↔ d = e := by
  constructor
  · intro nearest
    cases nearest with
    | here => rfl
    | up other => exact (other here).elim
  · rintro rfl
    exact .here here

theorem nearest_iff_of_not_holds (other : ¬ holds d) :
    scopes.Nearest holds d e ↔ ∃ p, scopes.parent? d = some p ∧ scopes.Nearest holds p e := by
  constructor
  · intro nearest
    cases nearest with
    | here here => exact (other here).elim
    | up _ parent nearest => exact ⟨_, parent, nearest⟩
  · rintro ⟨p, parent, nearest⟩
    exact .up other parent nearest

theorem exists_nearest (above : scopes.Above d e) (here : holds e) :
    ∃ n, scopes.Nearest holds d n := by
  induction above using Relation.ReflTransGen.head_induction_on with
  | refl => exact ⟨e, .here here⟩
  | @head d p parent _ ih =>
    by_cases stops : holds d
    · exact ⟨d, .here stops⟩
    · obtain ⟨n, nearest⟩ := ih
      exact ⟨n, .up stops parent nearest⟩

/-! The chain of a scope is the walk from it. -/

theorem chainOf_eq (tree : scopes.Tree) {n k : Nat} (low : d < n) (high : d < k) :
    scopes.chainOf n d = scopes.chainOf k d := by
  induction n generalizing k d with
  | zero => exact (Nat.not_lt_zero _ low).elim
  | succ n ih =>
    cases k with
    | zero => exact (Nat.not_lt_zero _ high).elim
    | succ k =>
      unfold chainOf
      cases parent : scopes.parent? d with
      | none => rfl
      | some p =>
        have older := tree d p parent
        exact congrArg (d :: ·) (ih (Nat.lt_of_lt_of_le older (Nat.le_of_lt_succ low))
          (Nat.lt_of_lt_of_le older (Nat.le_of_lt_succ high)))

theorem chain_of_none (root : scopes.parent? d = none) : scopes.chain d = [d] := by
  unfold chain chainOf
  rw [root]

theorem chain_of_some (tree : scopes.Tree) (parent : scopes.parent? d = some p) :
    scopes.chain d = d :: scopes.chain p := by
  have older := tree d p parent
  unfold chain
  rw [chainOf, parent]
  exact congrArg (d :: ·) (chainOf_eq tree older (Nat.lt_succ_self _))

theorem get?_of_own (own : (scopes.bindings d).get? name = some value) :
    scopes.get? d name = some value := by
  unfold get? chain chainOf
  rw [List.findSome?_cons, own]

theorem get?_of_none (own : (scopes.bindings d).get? name = none)
    (root : scopes.parent? d = none) : scopes.get? d name = none := by
  unfold get?
  rw [chain_of_none root, List.findSome?_cons, own]
  rfl

theorem get?_of_parent (tree : scopes.Tree) (own : (scopes.bindings d).get? name = none)
    (parent : scopes.parent? d = some p) : scopes.get? d name = scopes.get? p name := by
  unfold get?
  rw [chain_of_some tree parent, List.findSome?_cons, own]

theorem get?_of_root (own : (scopes.bindings d).get? name = none)
    (parent : scopes.parent? d = some p) (root : scopes.parent? p = none) (older : p < d) :
    scopes.get? d name = (scopes.bindings p).get? name := by
  obtain ⟨k, rfl⟩ : ∃ k, d = k + 1 := Nat.exists_eq_add_one.mpr (Nat.zero_lt_of_lt older)
  unfold get? chain
  simp only [chainOf, parent, root, List.findSome?_cons, own]
  cases (scopes.bindings p).get? name <;> rfl

theorem binder?_eq_some (tree : scopes.Tree) :
    scopes.binder? d name = some n ↔ scopes.Nearest (scopes.Binds name) d n := by
  induction d using Nat.strongRecOn with
  | ind d ih =>
    cases own : (scopes.bindings d).get? name with
    | some old =>
      rw [nearest_iff_of_holds ⟨old, own⟩]
      unfold binder? chain chainOf
      rw [List.find?_cons, own]
      exact Option.some_inj
    | none =>
      have unbound : ¬ scopes.Binds name d := by
        rintro ⟨old, found⟩
        cases own.symm.trans found
      rw [nearest_iff_of_not_holds unbound]
      unfold binder?
      cases parent : scopes.parent? d with
      | none => simp [chain_of_none parent, own]
      | some p =>
        have above := ih p (tree d p parent)
        unfold binder? at above
        simp [chain_of_some tree parent, own, above]

theorem binder?_eq_none (tree : scopes.Tree) :
    scopes.binder? d name = none ↔ ∀ e, scopes.Above d e → ¬ scopes.Binds name e := by
  constructor
  · intro missing e above binds
    obtain ⟨n, nearest⟩ := exists_nearest above binds
    cases missing.symm.trans ((binder?_eq_some tree).mpr nearest)
  · intro unbound
    cases found : scopes.binder? d name with
    | none => rfl
    | some n =>
      have nearest := (binder?_eq_some tree).mp found
      exact (unbound n nearest.above nearest.met).elim

/-! Definitions. -/

theorem tree_define (tree : scopes.Tree) (e : ScopeId) (name : String) (value : Form) :
    (scopes.define e name value).Tree := by
  intro d p parent
  rw [parent?_define] at parent
  exact tree d p parent

theorem tree_extend (tree : scopes.Tree) {parent : Option ScopeId}
    (older : ∀ p, parent = some p → p < scopes.size) : (scopes.extend parent).2.Tree := by
  intro d p found
  rw [parent?_extend] at found
  split at found
  · rename_i last
    exact last ▸ older p found
  · exact tree d p found

theorem tree_bind (tree : scopes.Tree) (e : ScopeId) (parameters operands : Form) :
    (scopes.bind e parameters operands).2.Tree := by
  fun_induction Scopes.bind scopes e parameters operands with
  | case1 scopes name operand => exact tree_define tree e name operand
  | case4 scopes id car cdr id' first rest scopes' bound ih ih' =>
    have here := ih tree
    rw [bound] at here
    exact ih' here
  | case5 scopes id car cdr id' first rest failed ih => exact ih tree
  | case2 | case3 | case6 | case7 | case8 => exact tree

theorem tree_set (tree : scopes.Tree) {e : ScopeId} {name : String} {value : Form}
    {changed : Scopes} (assigned : scopes.set e name value = .ok changed) : changed.Tree := by
  unfold Scopes.set at assigned
  split at assigned
  · cases assigned
    exact tree_define tree _ name value
  · cases assigned

theorem get?_bindings_define (there : e < scopes.size) (d : ScopeId) (name other : String)
    (value : Form) : ((scopes.define e name value).bindings d).get? other =
      if d = e ∧ other = name then some value else (scopes.bindings d).get? other := by
  rw [bindings_define]
  by_cases same : d = e
  · subst same
    rw [if_pos ⟨rfl, there⟩, Bindings.get?_put]
    by_cases named : name = other
    · rw [if_pos named, if_pos ⟨rfl, named.symm⟩]
    · rw [if_neg named, if_neg fun both => named both.2.symm]
  · rw [if_neg fun both => same both.1, if_neg fun both => same both.1]

theorem lookup_define_extend (scopes : Scopes) (parent : Option ScopeId) (name : String)
    (value : Form) : ((scopes.extend parent).2.define scopes.size name value).lookup scopes.size
      name = .ok value := by
  have there : scopes.size < (scopes.extend parent).2.size := size_extend .. ▸ Nat.lt_succ_self _
  have own := get?_bindings_define there scopes.size name name value
  rw [if_pos ⟨rfl, rfl⟩] at own
  rw [lookup, get?_of_own own]

/-- Whoever meets `e` before another scope that binds the name sees the definition. -/
theorem shows_define (tree : scopes.Tree) (there : e < scopes.size) (name : String)
    (value : Form) : scopes.Shows (scopes.define e name value)
      (fun d => scopes.Nearest (fun s => s = e ∨ scopes.Binds name s) d e) name value := by
  intro d other
  have after := tree_define tree e name value
  -- By how far the scope is from the root; each look-up goes to the parent when its own bindings
  -- do not decide it.
  induction d using Nat.strongRecOn with
  | ind d ih =>
    have own := get?_bindings_define there d name other value
    have kept := parent?_define scopes e d name value
    by_cases made : d = e ∧ other = name
    · rw [if_pos made] at own
      obtain ⟨rfl, rfl⟩ := made
      exact ⟨fun _ => get?_of_own own, fun unseen => (unseen ⟨rfl, .here (.inl rfl)⟩).elim⟩
    · rw [if_neg made] at own
      cases old : (scopes.bindings d).get? other with
      | some bound =>
        rw [old] at own
        have same := (get?_of_own own).trans (get?_of_own old).symm
        refine ⟨fun ⟨named, nearest⟩ => ?_, fun _ => same⟩
        subst named
        exact (made ⟨(nearest_iff_of_holds (.inr ⟨bound, old⟩)).mp nearest, rfl⟩).elim
      | none =>
        rw [old] at own
        have passes (named : other = name) : ¬ (d = e ∨ scopes.Binds name d) := by
          subst named
          rintro (here | ⟨bound, found⟩)
          · exact made ⟨here, rfl⟩
          · cases old.symm.trans found
        cases parent : scopes.parent? d with
        | none =>
          rw [parent] at kept
          have same := (get?_of_none own kept).trans (get?_of_none old parent).symm
          refine ⟨fun ⟨named, nearest⟩ => ?_, fun _ => same⟩
          obtain ⟨p, found, _⟩ := (nearest_iff_of_not_holds (passes named)).mp nearest
          cases parent.symm.trans found
        | some p =>
          rw [parent] at kept
          rw [get?_of_parent after own kept, get?_of_parent tree old parent]
          obtain ⟨seen, unseen⟩ := ih p (tree d p parent)
          refine ⟨fun ⟨named, nearest⟩ => seen ⟨named, ?_⟩, fun hidden => unseen ?_⟩
          · obtain ⟨q, found, nearest⟩ := (nearest_iff_of_not_holds (passes named)).mp nearest
            cases parent.symm.trans found
            exact nearest
          · rintro ⟨named, nearest⟩
            exact hidden ⟨named, .up (passes named) parent nearest⟩

/-! Assignments. -/

theorem size_lt_of_binds (binds : scopes.Binds name d) : d < scopes.size := by
  obtain ⟨value, found⟩ := binds
  refine Nat.lt_of_not_le fun missing => ?_
  rw [bindings, Array.getElem?_eq_none missing] at found
  cases found

theorem set_eq_of_nearest (tree : scopes.Tree) (nearest : scopes.Nearest (scopes.Binds name) e n)
    (value : Form) : scopes.set e name value = .ok (scopes.define n name value) := by
  unfold set
  rw [(binder?_eq_some tree).mpr nearest]

theorem set_eq_of_unbound (tree : scopes.Tree)
    (unbound : ∀ d, scopes.Above e d → ¬ scopes.Binds name d) (value : Form) :
    scopes.set e name value = .error (.of (.unbound name)) := by
  unfold set
  rw [(binder?_eq_none tree).mpr unbound]

structure Replaces (scopes later : Scopes) (n : ScopeId) (name : String) (value : Form) : Prop where
  size : later.size = scopes.size
  parent : ∀ d, later.parent? d = scopes.parent? d
  names : ∀ d, (later.bindings d).map Prod.fst = (scopes.bindings d).map Prod.fst
  binding : ∀ d other, (later.bindings d).get? other =
    if d = n ∧ other = name then some value else (scopes.bindings d).get? other

theorem replaces_define (binds : scopes.Binds name n) (value : Form) :
    scopes.Replaces (scopes.define n name value) n name value where
  size := size_define scopes n name value
  parent d := parent?_define scopes n d name value
  names d := by
    obtain ⟨old, found⟩ := binds
    rw [bindings_define]
    split
    · rename_i here
      rw [here.1, Bindings.names_put found]
    · rfl
  binding d other := get?_bindings_define (size_lt_of_binds binds) d name other value

/-- Where the name is bound already, a definition is seen by whoever has that binding nearest. -/
theorem shows_define_of_binds (tree : scopes.Tree) (binds : scopes.Binds name n) (value : Form) :
    scopes.Shows (scopes.define n name value) (fun d => scopes.Nearest (scopes.Binds name) d n)
      name value := by
  have same : (fun s => s = n ∨ scopes.Binds name s) = scopes.Binds name := by
    funext s
    refine propext (or_iff_right_of_imp ?_)
    rintro rfl
    exact binds
  have shows := shows_define tree (size_lt_of_binds binds) name value
  rwa [same] at shows

end Scopes

theorem Action.run_assign (e : ScopeId) (name : String) (value : Form) (store : Store) :
    (assign e name value).run store = match store.scopes.set e name value with
      | .ok scopes => (.ok (), { store with scopes })
      | .error error => (.error error, store) := by
  unfold assign
  rw [run_bind, run_get]
  dsimp only
  rcases store.scopes.set e name value with _ | _ <;> rfl

/-- What is seen of a definition and of an assignment, from any scope. -/
theorem Store.scope_resolution {store : Store} (tree : store.scopes.Tree) {e : ScopeId}
    (there : e < store.scopes.size) (name : String) (value : Form) :
    (∃ later : Scopes,
      (Action.define e name value).run store = (.ok (), { store with scopes := later }) ∧
      store.scopes.Shows later
        (fun d => store.scopes.Nearest (fun s => s = e ∨ store.scopes.Binds name s) d e)
        name value) ∧
    ((∃ later, (Action.assign e name value).run store = (.ok (), later)) ↔
      ∃ d, store.scopes.Above e d ∧ store.scopes.Binds name d) ∧
    (∀ later, (Action.assign e name value).run store = (.ok (), later) →
      ∃ n, store.scopes.Nearest (store.scopes.Binds name) e n ∧
        store.scopes.Replaces later.scopes n name value ∧
        store.scopes.Shows later.scopes
          (fun d => store.scopes.Nearest (store.scopes.Binds name) d n) name value) ∧
    (∀ error later, (Action.assign e name value).run store = (.error error, later) →
      error = .of (.unbound name) ∧ later = store) := by
  refine ⟨⟨_, rfl, Scopes.shows_define tree there name value⟩, ?_⟩
  rw [Action.run_assign]
  by_cases bound : ∃ d, store.scopes.Above e d ∧ store.scopes.Binds name d
  · obtain ⟨d, above, binds⟩ := bound
    obtain ⟨n, nearest⟩ := Scopes.exists_nearest above binds
    -- The assignment is a definition in the nearest scope that binds the name.
    rw [Scopes.set_eq_of_nearest tree nearest value]
    refine ⟨⟨fun _ => ⟨d, above, binds⟩, fun _ => ⟨_, rfl⟩⟩, fun later assigned => ?_,
      fun error later failed => ?_⟩
    · cases assigned
      exact ⟨n, nearest, Scopes.replaces_define nearest.met value,
        Scopes.shows_define_of_binds tree nearest.met value⟩
    · cases congrArg Prod.fst failed
  · have unbound (d : ScopeId) (above : store.scopes.Above e d) :
        ¬ store.scopes.Binds name d := fun binds => bound ⟨d, above, binds⟩
    rw [Scopes.set_eq_of_unbound tree unbound value]
    refine ⟨⟨?_, fun found => (bound found).elim⟩, ?_, fun error later failed => ?_⟩
    · rintro ⟨later, assigned⟩
      cases congrArg Prod.fst assigned
    · intro later assigned
      cases congrArg Prod.fst assigned
    · cases failed
      exact ⟨rfl, rfl⟩

/-- Two children of a root, and a grandchild. The root and the second child bind one name. -/
def Scopes.family : Scopes :=
  #[{ bindings := [("x", .nil)] }, { parent := some 0 },
    { bindings := [("x", .inert)], parent := some 0 }, { parent := some 1 }]

/-- A definition in the first child is seen by the grandchild but not by the second child. An
assignment from the grandchild is one in the root. -/
theorem Store.scope_resolution_of_family : Scopes.family.Tree ∧ 1 < Scopes.family.size ∧
    (Scopes.family.define 1 "x" .ignore).get? 3 "x" = some .ignore ∧
    (Scopes.family.define 1 "x" .ignore).get? 2 "x" = some .inert ∧
    ∃ later, (Action.assign 3 "x" .ignore).run { scopes := Scopes.family } = (.ok (), later) := by
  have tree : Scopes.family.Tree := by
    intro d p parent
    match d, parent with
    | 1, rfl => decide
    | 2, rfl => decide
    | 3, rfl => decide
  have there : 1 < Scopes.family.size := by decide
  obtain ⟨⟨_, made, shows⟩, -⟩ :=
    @Store.scope_resolution { scopes := Scopes.family } tree 1 there "x" .ignore
  cases made
  obtain ⟨-, assigned, -⟩ :=
    @Store.scope_resolution { scopes := Scopes.family } tree 3 (by decide) "x" .ignore
  refine ⟨tree, there, (shows 3 "x").1 ⟨rfl, .up ?_ rfl (.here (.inl rfl))⟩,
    ((shows 2 "x").2 fun seen => ?_).trans rfl, assigned.mpr ⟨0, ?_, .nil, rfl⟩⟩
  · rintro (same | ⟨bound, found⟩)
    · cases same
    · cases found
  · cases seen.2 with
    | up passed => exact passed (.inr ⟨.inert, rfl⟩)
  · exact .head (b := 1) rfl (.single rfl)

end Vau
