import Vau.Proofs.Course
import Vau.Proofs.Renumbering.Outcome

/-! Scopes are a tree in every session: parents are older. -/

set_option autoImplicit false

namespace Vau

namespace Evaluation

variable {e : Evaluation}

/-- Registers that lead to nothing but what is there, in a sound world. -/
structure Sound (e : Evaluation) : Prop where
  closed : ∀ D : Discipline, D.Spans e.store → e.Obeys D
  tree : e.store.scopes.Tree
  uniform : ∀ host ∈ e.hosts, host.Uniform

theorem Sound.tree_step (sound : e.Sound) : e.step.machine.store.scopes.Tree := by
  cases alters_step sound.closed with
  | acts course => exact (Scopes.inherits_of_course course).tree sound.tree
  | native m n args scopes hosts closed known same =>
    have uniform : ∀ host ∈ m.hosts, host.Uniform := hosts ▸ sound.uniform
    have world : m.world.Sound :=
      { closed := fun D spans => ⟨(closed D spans).scopes, (closed D spans).hosts⟩
        tree := scopes ▸ sound.tree
        uniform }
    have after := (world.moved.call n fun x member D spans =>
      known D spans x member).2.2.1.store.scopes.tree
    have called := congrArg (fun outcome => outcome.2.store.scopes) (Machine.callNative_eq m n args)
    rw [same]
    exact called ▸ after

end Evaluation

/-- Reachable states lead to nothing but what is there. -/
theorem Evaluation.Reachable.closed {e : Evaluation} (reachable : e.Reachable) :
    e.store.Knows (e.Obeys ·) := by
  intro D spans
  have carries : D.Carries fun _ => True :=
    ⟨fun _ _ _ => trivial, fun _ _ _ => trivial, fun _ _ _ => spans.stack _⟩
  exact (reachable.obeys carries ⟨spans.object, fun i _ => spans.frame i, spans.scope⟩).1

/-- Whether natives are uniform depends on what they do alone. -/
theorem Machine.uniform_of_natives {m other : Machine} (same : other.natives = m.natives)
    (uniform : ∀ host ∈ m.hosts, host.Uniform) : ∀ host ∈ other.hosts, host.Uniform := by
  intro host member
  have called : host.call ∈ m.natives := same ▸ Array.mem_map.mpr ⟨host, member, rfl⟩
  obtain ⟨host', member', call⟩ := Array.mem_map.mp called
  have uniform := uniform host' member'
  unfold HostNative.Uniform at uniform ⊢
  rw [call] at uniform
  exact uniform

namespace Session

variable {s : Session}

theorem Running.sound (reachable : s.Reachable) (tree : s.machine.store.scopes.Tree)
    (uniform : ∀ host ∈ s.machine.hosts, host.Uniform) {e : Evaluation} (running : s.Running e) :
    e.Sound ∧ e.natives = s.machine.natives := by
  have closed {e : Evaluation} (running : s.Running e) : e.store.Knows (e.Obeys ·) :=
    Evaluation.Reachable.closed ⟨s, reachable, running⟩
  induction running with
  | start known bound compiled =>
    exact ⟨⟨closed (.start known bound compiled), tree, uniform⟩, rfl⟩
  | @step e next before stepped ih =>
    obtain ⟨sound, natives⟩ := ih
    have after := sound.tree_step
    have kept := Evaluation.fixed_step (e := e) Machine.fixed_natives
    rw [stepped] at after kept
    have natives : next.natives = s.machine.natives := kept.trans natives
    exact ⟨⟨closed (before.step stepped), after, Machine.uniform_of_natives natives uniform⟩,
      natives⟩

theorem Running.executes {e last : Evaluation} (running : s.Running e) {count : Nat}
    (executes : e.Executes count last) : s.Running last := by
  induction executes with
  | refl => exact running
  | head stepped _ ih => exact ih (running.step stepped)

theorem tree_bare : Machine.bare.store.scopes.Tree := by
  have size : Machine.bare.store.scopes.size = 2 := by decide +kernel
  have root : Machine.bare.store.scopes.parent? 0 = none := by decide +kernel
  have child : Machine.bare.store.scopes.parent? 1 = some 0 := by decide +kernel
  generalize Machine.bare = m at size root child ⊢
  intro d p parent
  match d with
  | 0 => cases root.symm.trans parent
  | 1 =>
    cases child.symm.trans parent
    exact Nat.zero_lt_one
  | d + 2 =>
    rw [Scopes.parent?, Array.getElem?_eq_none (by omega)] at parent
    cases parent

/-- No evaluation and no action of the embedding program makes an older scope a child. -/
theorem Reachable.tree (reachable : s.Reachable)
    (uniform : ∀ host ∈ s.machine.hosts, host.Uniform) : s.machine.store.scopes.Tree := by
  induction reachable with
  | refl =>
    dsimp only
    exact tree_bare
  | @tail s s' before next ih =>
    cases next with
    | @evaluate fuel form scope result m known bound ran =>
      unfold Machine.evalIn at ran
      split at ran
      · rename_i code compiled
        have natives := Evaluation.fixed_run Machine.fixed_natives ran
        have uniform := Machine.uniform_of_natives natives.symm uniform
        obtain ⟨count, _, last, executes, ended⟩ := Evaluation.run_eq_some.mp ran
        have running := (Running.start known bound compiled).executes executes
        have after := (running.sound before (ih uniform) uniform).1.tree_step
        cases stepped : last.step <;> rw [stepped] at ended after <;> cases ended <;> exact after
      · cases ran
        exact ih uniform
    | keep | number | limit | output | resetStats => exact ih uniform
    | extend bound => exact Scopes.tree_extend (ih uniform) bound
    | define e name _ => exact Scopes.tree_define (ih uniform) e name _
    | assign _ assigned => exact Scopes.tree_set (ih uniform) assigned
    | bind e parameters _ => exact Scopes.tree_bind (ih uniform) e parameters _
    | clear e =>
      intro d p parent
      have same := Scopes.parent?_clear s.machine.store.scopes e d
      exact ih uniform d p (same.symm.trans parent)
    | register e _ _ =>
      refine Scopes.tree_define (ih fun host member => ?_) e _ _
      exact uniform host (Array.mem_push_of_mem _ member)

theorem Reachable.sound (reachable : s.Reachable)
    (uniform : ∀ host ∈ s.machine.hosts, host.Uniform) : s.machine.world.Sound where
  closed _ spans :=
    have obeys := (reachable.obeys_spans spans).machine
    ⟨obeys.scopes, obeys.hosts⟩
  tree := reachable.tree uniform
  uniform := uniform

end Session

end Vau
