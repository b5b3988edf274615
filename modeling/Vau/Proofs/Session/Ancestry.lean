import Vau.Proofs.Session.History
import Vau.Proofs.Session.Tree

/-! Chains of scopes are finite, and stay as they are.

Whatever is done to scopes, by instructions or by the embedding program, is a course of acts, none
of which moves a scope. What is bound in the scopes has no part in this, be it scopes that lie
below. -/

set_option autoImplicit false

namespace Vau

namespace Scopes

/-- The loop that looks for a scope from `d` towards the root: how often it goes up, and where it
ends. -/
inductive Walk (scopes : Scopes) (stops : ScopeId → Prop) : ScopeId → Nat → ScopeId → Prop
  | stop {d : ScopeId} : stops d → Walk scopes stops d 0 d
  | root {d : ScopeId} : ¬ stops d → scopes.parent? d = none → Walk scopes stops d 0 d
  | up {d p e : ScopeId} {n : Nat} : ¬ stops d → scopes.parent? d = some p →
    Walk scopes stops p n e → Walk scopes stops d (n + 1) e

variable {scopes middle later : Scopes} {d e p : ScopeId} {n : Nat} {name : String}
  {value : Form} {stops : ScopeId → Prop}

/-- No walk goes up more often than there are older scopes. -/
theorem exists_walk (tree : scopes.Tree) (stops : ScopeId → Prop) (d : ScopeId) :
    ∃ n e, scopes.Walk stops d n e ∧ n ≤ d := by
  induction d using Nat.strongRecOn with
  | ind d ih =>
    by_cases here : stops d
    · exact ⟨0, d, .stop here, Nat.zero_le d⟩
    · cases parent : scopes.parent? d with
      | none => exact ⟨0, d, .root here parent, Nat.zero_le d⟩
      | some p =>
        have older := tree d p parent
        obtain ⟨n, e, walk, few⟩ := ih p older
        exact ⟨n + 1, e, .up here parent walk, Nat.lt_of_le_of_lt few older⟩

theorem get?_bindings_of_not_binds (unbound : ¬ scopes.Binds name d) :
    (scopes.bindings d).get? name = none :=
  Option.eq_none_iff_forall_ne_some.mpr fun value found => unbound ⟨value, found⟩

/-- A look-up finds what the name is bound to where the walk ends. -/
theorem Walk.get?_eq (walk : scopes.Walk (scopes.Binds name) d n e) (tree : scopes.Tree) :
    scopes.get? d name = (scopes.bindings e).get? name := by
  induction walk with
  | stop binds =>
    obtain ⟨value, found⟩ := binds
    rw [get?_of_own found, found]
  | root unbound parent =>
    have own := get?_bindings_of_not_binds unbound
    rw [get?_of_none own parent, own]
  | up unbound parent _ ih =>
    rw [get?_of_parent tree (get?_bindings_of_not_binds unbound) parent, ih]

/-- An assignment is made where the walk ends, if the name is bound there. -/
theorem Walk.set_eq (walk : scopes.Walk (scopes.Binds name) d n e) (tree : scopes.Tree)
    (value : Form) : scopes.set d name value =
      if ((scopes.bindings e).get? name).isSome then .ok (scopes.define e name value)
      else .error (.of (.unbound name)) := by
  induction walk with
  | stop binds =>
    obtain ⟨old, found⟩ := binds
    rw [set_eq_of_nearest tree (.here ⟨old, found⟩), found]
    rfl
  | root unbound parent =>
    have own := get?_bindings_of_not_binds unbound
    unfold set binder?
    rw [chain_of_none parent, own]
    simp [own]
  | up unbound parent _ ih =>
    have own := get?_bindings_of_not_binds unbound
    rw [← ih]
    unfold set binder?
    rw [chain_of_some tree parent, List.find?_cons, own]
    rfl

theorem depth_of_none (root : scopes.parent? d = none) : scopes.depth d = 0 := by
  rw [depth, chain_of_none root]
  rfl

theorem depth_of_some (tree : scopes.Tree) (parent : scopes.parent? d = some p) :
    scopes.depth d = scopes.depth p + 1 := by
  have nonempty : (scopes.chain p).length ≠ 0 := by simp [chain, chainOf]
  unfold depth
  rw [chain_of_some tree parent, List.length_cons]
  omega

theorem Walk.depth_eq (walk : scopes.Walk (fun _ => False) d n e) (tree : scopes.Tree) :
    scopes.depth d = n := by
  induction walk with
  | stop never => exact never.elim
  | root _ parent => exact depth_of_none parent
  | up _ parent _ ih => rw [depth_of_some tree parent, ih]

end Scopes

/-! What acts on scopes. -/

/-- A native of the embedding program does nothing to scopes but what the program itself can do. -/
def HostNative.Acts (host : HostNative) : Prop :=
  ∀ (text : Form → String) (memory : Form) (args : List Form) (store : Store),
    store.Knows (fun D => memory.Obeys D ∧ (∀ x ∈ args, x.Obeys D) ∧ store.scopes.Obeys D) →
      store.scopes.Course (host.call text memory args store).2.scopes

/-- A store on a course from these scopes, as a relation of the store to itself. -/
def Store.Along (scopes : Scopes) (store other : Store) : Prop :=
  other = store ∧ scopes.Course store.scopes

namespace Action

variable {scopes : Scopes}

theorem along_of_same {α : Type} {action : Action α}
    (same : ∀ store, (action.run store).2.scopes = store.scopes) :
    Relates (Store.Along scopes) id action action := by
  rintro store _ ⟨rfl, course⟩
  exact ⟨(congrFun Except.map_id _).symm, rfl, (same _).symm ▸ course⟩

theorem along_newScope {parent : Option ScopeId}
    (there : ∀ p, parent = some p → p < scopes.size) :
    Relates (Store.Along scopes) id (newScope parent) (newScope parent) := by
  rintro store _ ⟨rfl, course⟩
  have grows := (Scopes.inherits_of_course course).size
  exact ⟨rfl, rfl, course.tail (.extend fun p same => Nat.lt_of_lt_of_le (there p same) grows)⟩

theorem scopes_write (text : String) (store : Store) :
    ((write text).run store).2.scopes = store.scopes := by
  rw [run_write]
  rcases store.output.write text with ⟨_ | _, output⟩ <;> rfl

theorem scopes_flush (store : Store) : (flush.run store).2.scopes = store.scopes := by
  rw [run_flush]
  cases store.output.flush <;> rfl

end Action

theorem Likeness.carries_along (scopes : Scopes) :
    Likeness.same.Carries (Store.Along scopes) where
  fresh := Action.along_of_same fun _ => rfl
  root := Action.along_newScope nofun
  write text := Action.along_of_same (Action.scopes_write text)
  flush := Action.along_of_same Action.scopes_flush

/-- Natives of the ground environment at most make a scope, below one that they were given. -/
theorem Primitive.course_call (p : Primitive) {args : List Form} {store : Store}
    (there : ∀ x ∈ args, ∀ e, x.environment? = some e → e < store.scopes.size) :
    store.scopes.Course ((p.call args).run store).2.scopes := by
  have called := relates_call (Likeness.carries_along store.scopes) p args fun x member e found =>
    Action.along_newScope fun p same => there x member p (same ▸ found)
  exact (called store store ⟨rfl, .refl⟩).2.2

theorem Machine.course_callNative {m : Machine} (closed : m.store.Knows (m.Obeys ·))
    (acting : ∀ host ∈ m.hosts, host.Acts) (n : Native) {args : List Form}
    (known : m.store.Knows fun D => ∀ x ∈ args, x.Obeys D) :
    m.store.scopes.Course (m.callNative n args).2.store.scopes := by
  cases n with
  | primitive p =>
    refine p.course_call fun x member e found => ?_
    have below := known _ m.store.spans_discipline x member
    cases x with
    | environment d => exact Option.some.inj found ▸ below
    | _ => cases found
  | host index name =>
    unfold callNative
    dsimp only
    split
    · rename_i host found
      have member := Array.mem_of_getElem? found
      exact acting host member _ _ _ _ fun D spans =>
        ⟨((closed D spans).hosts host member).2, known D spans, (closed D spans).scopes⟩
    · exact .refl

namespace Evaluation

variable {e : Evaluation}

/-- What an instruction does to scopes is a course of acts. -/
theorem course_step (closed : e.store.Knows (e.Obeys ·)) (acting : ∀ host ∈ e.hosts, host.Acts) :
    e.store.scopes.Course e.step.machine.store.scopes := by
  cases alters_step closed with
  | acts course => exact course
  | native m n args scopes hosts closed known same =>
    rw [same, ← scopes]
    exact Machine.course_callNative closed (hosts ▸ acting) n known

end Evaluation

/-! Histories. -/

namespace Situation

variable {σ τ : Situation}

abbrev scopes (σ : Situation) : Scopes := σ.machine.store.scopes

/-- Natives are added, and never taken away. -/
theorem natives_next (next : σ.Next τ) :
    ∀ call ∈ σ.machine.natives, call ∈ τ.machine.natives := by
  have stepped {e : Evaluation} {m : Machine} (left : e.step.machine = m) :
      ∀ call ∈ e.natives, call ∈ m.natives := by
    have same := Evaluation.fixed_step (e := e) Machine.fixed_natives
    rw [left] at same
    exact fun call member => same ▸ member
  cases next with
  | act next other =>
    cases next with
    -- A history has the steps of an evaluation instead of the whole.
    | evaluate known bound ran => exact (other ⟨_, _, _, _, _, known, bound, ran, rfl⟩).elim
    | register e _ _ =>
      intro call member
      obtain ⟨host, listed, same⟩ := Array.mem_map.mp member
      exact Array.mem_map.mpr ⟨host, Array.mem_push_of_mem _ listed, same⟩
    | keep | number | extend | define | assign | bind | clear | limit | output | resetStats =>
      exact fun _ member => member
  | start => exact fun _ member => member
  | step here => exact stepped (congrArg Progress.machine here)
  | finish here => exact stepped (congrArg Progress.machine here)
  | fail here => exact stepped (congrArg Progress.machine here)

def Acting (σ : Situation) : Prop := ∀ host ∈ σ.machine.hosts, host.Acts

theorem Acting.earlier (acting : τ.Acting) (next : σ.Next τ) : σ.Acting := by
  intro host member
  obtain ⟨later, listed, same⟩ := Array.mem_map.mp
    (natives_next next host.call (Array.mem_map.mpr ⟨host, member, rfl⟩))
  have acts := acting later listed
  unfold HostNative.Acts at acts ⊢
  rwa [same] at acts

theorem Acting.before (acting : τ.Acting) (leads : Leads σ τ) : σ.Acting := by
  induction leads with
  | refl => exact acting
  | tail _ next ih => exact ih (acting.earlier next)

theorem course_next (reached : Leads new σ) (next : σ.Next τ) (acting : σ.Acting) :
    σ.scopes.Course τ.scopes := by
  have stepped {kept : List Form} {e : Evaluation} {m : Machine} (reached : Leads new (busy kept e))
      (acting : (busy kept e).Acting) (left : e.step.machine = m) :
      e.store.scopes.Course m.store.scopes := by
    have reachable := Evaluation.reachable_iff.mpr ⟨kept, reached⟩
    exact left ▸ Evaluation.course_step reachable.closed acting
  cases next with
  | act next other =>
    cases next with
    | evaluate known bound ran => exact (other ⟨_, _, _, _, _, known, bound, ran, rfl⟩).elim
    | extend there => exact .single (.extend there)
    | define e name _ => exact .single (.define e name _)
    | assign _ assigned => exact .single (.assign assigned)
    | bind e parameters _ => exact .single (.bind e parameters _)
    | clear e => exact .single (.clear e)
    | register e _ _ => exact .single (.define e _ _)
    | keep | number | limit | output | resetStats => exact .refl
  | start => exact .refl
  | step here => exact stepped reached acting (congrArg Progress.machine here)
  | finish here => exact stepped reached acting (congrArg Progress.machine here)
  | fail here => exact stepped reached acting (congrArg Progress.machine here)

theorem course_of_leads (reached : Leads new σ) (leads : Leads σ τ) (acting : τ.Acting) :
    σ.scopes.Course τ.scopes := by
  induction leads with
  | refl => exact .refl
  | tail before next ih =>
    have acting := acting.earlier next
    exact (ih acting).trans (course_next (reached.trans before) next acting)

theorem scopes_idle (m : Machine) (kept : List Form) :
    (idle ⟨m, kept⟩).scopes = m.store.scopes := rfl

theorem tree_of_leads (reached : Leads new σ) (acting : σ.Acting) : σ.scopes.Tree := by
  refine (Scopes.inherits_of_course (course_of_leads .refl reached acting)).tree ?_
  unfold new
  rw [scopes_idle]
  exact Session.tree_bare

/-- In every state of every history the parent of a scope was there before it, and is its parent
from then on, whatever the scopes come to hold. So the loops that look a name up, assign it or
count the ancestors come to an end, and the count is one more than that of the parent. -/
theorem scope_chains (reached : Leads new σ) (leads : Leads σ τ) (acting : τ.Acting) :
    (∀ d p, σ.scopes.parent? d = some p → p < d ∧ d < σ.scopes.size) ∧
      (∀ d, d < σ.scopes.size →
        d < τ.scopes.size ∧ τ.scopes.parent? d = σ.scopes.parent? d) ∧
      (∀ d name value, ∃ n e, σ.scopes.Walk (σ.scopes.Binds name) d n e ∧ n ≤ d ∧
        σ.scopes.get? d name = (σ.scopes.bindings e).get? name ∧
        σ.scopes.set d name value =
          if ((σ.scopes.bindings e).get? name).isSome then .ok (σ.scopes.define e name value)
          else .error (.of (.unbound name))) ∧
      (∀ d, ∃ e, σ.scopes.Walk (fun _ => False) d (σ.scopes.depth d) e) ∧
      ∀ d p, σ.scopes.parent? d = some p → σ.scopes.depth d = σ.scopes.depth p + 1 := by
  have inherits := Scopes.inherits_of_course (course_of_leads reached leads acting)
  have tree := tree_of_leads reached (acting.before leads)
  refine ⟨fun d p parent => ⟨tree d p parent, Scopes.lt_size_of_parent? parent⟩,
    fun d below => ⟨Nat.lt_of_lt_of_le below inherits.size, inherits.kept d below⟩,
    fun d name value => ?_, fun d => ?_, fun d p => Scopes.depth_of_some tree⟩
  · obtain ⟨n, e, walk, few⟩ := Scopes.exists_walk tree (σ.scopes.Binds name) d
    exact ⟨n, e, walk, few, walk.get?_eq tree, walk.set_eq tree value⟩
  · obtain ⟨n, e, walk, _⟩ := Scopes.exists_walk tree (fun _ => False) d
    exact ⟨e, (walk.depth_eq tree).symm ▸ walk⟩

end Situation

/-- A native that makes a child of the scope that it is given. -/
def HostNative.spawn : HostNative where
  name := "spawn"
  memory := .nil
  call _ memory args store :=
    match args with
    | [.environment e] =>
      ((.ok (.environment store.scopes.size), memory),
        { store with scopes := (store.scopes.extend (some e)).2 })
    | _ => ((.ok .inert, memory), store)

theorem HostNative.acts_spawn : spawn.Acts := by
  intro text memory args store known
  unfold spawn
  dsimp only
  split
  · rename_i e
    have below : e < store.scopes.size :=
      (known _ store.spans_discipline).2.1 (.environment e) (by simp)
    exact .single (.extend fun p same => Option.some.inj same ▸ below)
  · exact .refl

theorem HostNative.keeps_spawn (D : Discipline) : spawn.Keeps D := by
  intro text memory args store result memory' store' ran
  unfold spawn at ran
  dsimp only at ran
  split at ran
  · rename_i e
    cases ran
    have size := Scopes.size_extend store.scopes (some e)
    refine ⟨⟨Nat.le_refl _, Nat.le.intro size.symm⟩, fun memory args scopes allows => ?_⟩
    have given : D.scope e := args (.environment e) (by simp)
    refine ⟨fun v same => ?_, memory, scopes.extend fun p same => Option.some.inj same ▸ given⟩
    cases same
    exact allows.scope _ (Nat.le_refl _) (Nat.lt_of_lt_of_eq (Nat.lt_succ_self _) size.symm)
  · cases ran
    exact ⟨.refl store, fun memory _ scopes _ => ⟨fun v same => by cases same; trivial, memory,
      scopes⟩⟩

namespace Situation

/-- The top level can hold a scope below it, and has the parent that it had. -/
theorem scope_chains_below : ∃ σ τ : Situation, Leads new σ ∧ Leads σ τ ∧ τ.Acting ∧
    τ.machine.hosts.size = 1 ∧ τ.scopes.get? 1 "below" = some (.environment 2) ∧
    τ.scopes.parent? 2 = some 1 ∧ σ.scopes.depth 2 = σ.scopes.depth 1 + 1 := by
  -- Sessions are named one by one, so that no step below computes the machine.
  obtain ⟨s, same⟩ : ∃ s : Session, s = ⟨Machine.bare, []⟩ := ⟨_, rfl⟩
  have two : s.machine.store.scopes.size = 2 := by
    rw [same]
    decide +kernel
  have hosts : s.machine.hosts = #[] := same ▸ Machine.settings_bare.2
  obtain ⟨r, registered⟩ : ∃ r : Session, r = { s with machine := s.machine.register 1 .spawn } :=
    ⟨_, rfl⟩
  have size : r.machine.store.scopes.size = 2 := by
    rw [registered]
    exact (Scopes.size_define ..).trans two
  have first : s.Next r := registered ▸ .register 1 HostNative.keeps_spawn fun _ _ => trivial
  obtain ⟨x, extended⟩ : ∃ x, x = r.withScopes (r.machine.store.scopes.extend (some 1)).2 :=
    ⟨_, rfl⟩
  have more : x.machine.store.scopes.size = 3 := by
    rw [extended]
    exact (Scopes.size_extend ..).trans (congrArg (· + 1) size)
  have second : r.Next x := extended ▸ .extend fun p same => by
    cases same
    rw [size]
    decide
  have third : x.Next (x.withScopes (x.machine.store.scopes.define 1 "below" (.environment 2))) :=
    .define 1 "below" fun D obeys => obeys.room.scope 2 (by rw [more]; decide)
  have reached : Leads new (idle x) := by
    have start : Leads (idle s) (idle x) := (leads_of_next first).trans (leads_of_next second)
    rwa [same] at start
  have listed : x.machine.hosts = #[.spawn] := by
    rw [extended, registered]
    exact congrArg (Array.push · HostNative.spawn) hosts
  have acting : Acting (idle (x.withScopes
      (x.machine.store.scopes.define 1 "below" (.environment 2)))) := by
    intro host member
    change host ∈ x.machine.hosts at member
    rw [listed] at member
    cases Array.mem_singleton.mp member
    exact HostNative.acts_spawn
  have parent : (idle x).scopes.parent? 2 = some 1 := by
    rw [extended]
    exact (Scopes.parent?_extend ..).trans (if_pos size.symm)
  obtain ⟨-, fixed, -, -, deeper⟩ := scope_chains reached (leads_of_next third) acting
  refine ⟨idle x, _, reached, leads_of_next third, acting, congrArg Array.size listed,
    Scopes.get?_of_own ?_, ?_, deeper 2 1 parent⟩
  · refine (Scopes.get?_bindings_define ?_ 1 "below" "below" _).trans (if_pos ⟨rfl, rfl⟩)
    rw [more]
    decide
  · have there : 2 < (idle x).scopes.size := more.symm ▸ Nat.lt_succ_self 2
    rw [(fixed 2 there).2, parent]

end Situation

end Vau
