import Vau.Proofs.Evaluator.Call
import Vau.Proofs.Renumbering.Action

/-! Worlds under other numbers, and what is done to both alike. -/

set_option autoImplicit false

namespace Vau

/-- The discipline allows every stack, and every number that was given out. -/
structure Discipline.Spans (D : Discipline) (store : Store) : Prop where
  stack : ∀ s, D.stack s
  frame : ∀ i, D.frame i
  object : ∀ i : Nat, i < store.fresh → D.object i
  scope : ∀ d : Nat, d < store.scopes.size → D.scope d

/-- What obeys so leads to nothing but what is there. -/
def Store.Knows (store : Store) (obeys : Discipline → Prop) : Prop :=
  ∀ D : Discipline, D.Spans store → obeys D

/-- The least discipline that spans the store. -/
def Store.discipline (store : Store) : Discipline where
  template := Template.Compiled
  stack _ := True
  object := (· < store.fresh)
  scope := (· < store.scopes.size)
  compiled _ compiled := compiled

theorem Store.spans_discipline (store : Store) : store.discipline.Spans store :=
  ⟨fun _ => trivial, fun _ => trivial, fun _ below => below, fun _ below => below⟩

theorem Discipline.Spans.earlier {D : Discipline} {store later : Store} (spans : D.Spans later)
    (grows : store.Grows later) : D.Spans store where
  stack := spans.stack
  frame := spans.frame
  object i below := spans.object i (Nat.lt_of_lt_of_le below grows.fresh)
  scope d below := spans.scope d (Nat.lt_of_lt_of_le below grows.scopes)

theorem Store.Knows.later {store later : Store} {obeys : Discipline → Prop}
    (knows : store.Knows obeys) (grows : store.Grows later) : later.Knows obeys :=
  fun D spans => knows D (spans.earlier grows)

/-- A native of the embedding program can tell objects and scopes apart, but cannot read their
numbers, nor get at scopes that nothing leads to. -/
def HostNative.Uniform (host : HostNative) : Prop :=
  ∀ (ρ : Renumbering) (apart : ScopeId → Option Scope) (text : Form → String) (memory : Form)
    (args : List Form) (store other : Store),
    (∀ f : Form, text (f.renumber ρ) = text f) → store.Moved ρ apart other →
    store.Knows (fun D => memory.Obeys D ∧ (∀ x ∈ args, x.Obeys D) ∧ store.scopes.Obeys D) →
    ∀ result memory' store', host.call text memory args store = ((result, memory'), store') →
      ∃ other', host.call text (memory.renumber ρ) (args.map (Form.renumber ρ)) other =
        ((result.map (Form.renumber ρ), memory'.renumber ρ), other') ∧
          store'.Moved ρ apart other'

def HostNative.renumber (ρ : Renumbering) (host : HostNative) : HostNative :=
  { host with memory := host.memory.renumber ρ }

/-- The same world under other numbers. It leads to nothing but what is there. -/
structure World.Moved (ρ : Renumbering) (apart : ScopeId → Option Scope) (w other : World) :
    Prop where
  closed : w.store.Knows (w.machine.Obeys ·)
  store : w.store.Moved ρ apart other.store
  hosts : other.hosts = w.hosts.map (HostNative.renumber ρ)
  uniform : ∀ host ∈ w.hosts, host.Uniform

variable {ρ : Renumbering} {apart : ScopeId → Option Scope} {w other later : World}

namespace World.Moved

theorem withScopes (moved : w.Moved ρ apart other) {scopes scopes' : Scopes}
    (grows : w.store.Grows { w.store with scopes })
    (closed : ∀ D : Discipline, D.Spans { w.store with scopes } → w.store.scopes.Obeys D →
      scopes.Obeys D)
    (new : scopes.Moved ρ apart scopes') :
    (w.withScopes scopes).Moved ρ apart (other.withScopes scopes') where
  closed D spans :=
    have before := moved.closed D (spans.earlier grows)
    ⟨closed D spans before.scopes, before.hosts⟩
  store := moved.store.withScopes new
  hosts := moved.hosts
  uniform := moved.uniform

theorem reserve (moved : w.Moved ρ apart other) (count : Nat) :
    (w.reserve count).Moved ρ apart (other.reserve count) where
  closed D spans :=
    have before := moved.closed D (spans.earlier ⟨Nat.le_add_right _ _, Nat.le_refl _⟩)
    ⟨⟨before.scopes.value, before.scopes.parent⟩, before.hosts⟩
  store := moved.store.numbered count
  hosts := moved.hosts
  uniform := moved.uniform

theorem uniform_remember (moved : w.Moved ρ apart other) (index : Nat) (memory : Form) :
    ∀ host ∈ w.hosts.modify index ({ · with memory }), host.Uniform := by
  intro host member
  obtain ⟨i, bound, same⟩ := Array.mem_iff_getElem.mp member
  simp only [Array.size_modify] at bound
  rw [Array.getElem_modify] at same
  have old := moved.uniform _ (Array.getElem_mem bound)
  split at same
  · exact same ▸ old
  · exact same ▸ old

theorem hosts_remember (moved : w.Moved ρ apart other) (index : Nat) (memory : Form) :
    other.hosts.modify index ({ · with memory := memory.renumber ρ }) =
      (w.hosts.modify index ({ · with memory })).map (HostNative.renumber ρ) := by
  rw [moved.hosts]
  refine Array.ext_getElem? fun i => ?_
  rw [Array.getElem?_map, Array.getElem?_modify, Array.getElem?_modify, Array.getElem?_map]
  split
  · cases w.hosts[i]? <;> rfl
  · rfl

theorem call (moved : w.Moved ρ apart other) (n : Native) {args : List Form}
    (known : ∀ x ∈ args, w.store.Knows (x.Obeys ·)) :
    w.store.Grows (w.call n args).2.store ∧
      (other.call n (args.map (Form.renumber ρ))).1 = (w.call n args).1.map (Form.renumber ρ) ∧
      (w.call n args).2.Moved ρ apart (other.call n (args.map (Form.renumber ρ))).2 ∧
      ∀ v, (w.call n args).1 = .ok v → (w.call n args).2.store.Knows (v.Obeys ·) := by
  have settled {D : Discipline} (spans : D.Spans w.store) :
      Settled D True w.machine (w.machine.callNative n args) :=
    (moved.closed D spans).callNative n fun _ x member => known x member D spans
  have grows : w.store.Grows (w.call n args).2.store :=
    (settled w.store.spans_discipline).1.store
  have obeys {D : Discipline} (spans : D.Spans (w.call n args).2.store) :=
    (settled (spans.earlier grows)).2 trivial
      ⟨⟨fun i _ => spans.object i, fun d _ => spans.scope d⟩, fun i _ _ => spans.frame i⟩
  have closed : (w.call n args).2.store.Knows ((w.call n args).2.machine.Obeys ·) :=
    fun D spans => ⟨(obeys spans).2.scopes, (obeys spans).2.hosts⟩
  have own {result : Except Error Form} (mark : Error → Error) :
      (result.map (Form.renumber ρ)).mapError mark =
        (result.mapError mark).map (Form.renumber ρ) := by
    cases result <;> rfl
  -- Of what is left, only the outcome, the store and the natives depend on which native it is.
  suffices same : (other.call n (args.map (Form.renumber ρ))).1 =
      (w.call n args).1.map (Form.renumber ρ) ∧
      (w.call n args).2.store.Moved ρ apart (other.call n (args.map (Form.renumber ρ))).2.store ∧
      (other.call n (args.map (Form.renumber ρ))).2.hosts =
        (w.call n args).2.hosts.map (HostNative.renumber ρ) ∧
      ∀ host ∈ (w.call n args).2.hosts, host.Uniform from
    ⟨grows, same.1, ⟨closed, same.2.1, same.2.2.1, same.2.2.2⟩,
      fun v gave D spans => (obeys spans).1 v gave⟩
  unfold World.call Machine.callNative
  cases n with
  | primitive p =>
    -- A scope below which another is made was given in the arguments, so it is there.
    obtain ⟨same, after⟩ := p.moved_call moved.store fun x member e found => by
      have below := known x member _ w.store.spans_discipline
      cases x with
      | environment d => exact Option.some.inj found ▸ below
      | _ => cases found
    refine ⟨?_, after, moved.hosts, moved.uniform⟩
    change ((p.call (args.map (Form.renumber ρ))).run other.store).1.mapError _ = _
    rw [same, own]
    rfl
  | host index name =>
    dsimp only [World.machine]
    rw [moved.hosts, Array.getElem?_map]
    cases found : w.hosts[index]? with
    | none => exact ⟨rfl, moved.store, rfl, moved.uniform⟩
    | some host =>
      have member := Array.mem_of_getElem? found
      rcases ran : host.call (·.textDuring (.host index name)) host.memory args w.store with
        ⟨⟨result, memory⟩, store⟩
      obtain ⟨store', ran', new⟩ := moved.uniform host member ρ apart
        (·.textDuring (.host index name)) host.memory args w.store other.store
        (fun f => f.textDuring_renumber _) moved.store
        (fun D spans => ⟨((moved.closed D spans).hosts host member).2,
          fun x member => known x member D spans, (moved.closed D spans).scopes⟩) _ _ _ ran
      dsimp only [Option.map_some, HostNative.renumber]
      rw [ran, ran']
      have hosts := moved.hosts_remember index memory
      rw [moved.hosts] at hosts
      exact ⟨own _, new, hosts, moved.uniform_remember index memory⟩

end World.Moved

end Vau
