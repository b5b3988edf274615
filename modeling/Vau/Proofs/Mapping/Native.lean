import Vau.Proofs.Application
import Vau.Proofs.Confinement.Reach
import Vau.Proofs.Evaluator.Fuel
import Vau.Proofs.Mapping
import Vau.Proofs.Primitive

/-! `map` with a native.

A native gets at scopes only by what it is given and by what it remembers, so the scopes of the
calls of `map` are out of its reach. -/

set_option autoImplicit false

namespace Vau

/-- The store, twice, with the scopes of an earlier one as they were. -/
structure Store.Extends (earlier later other : Store) : Prop where
  same : other = later
  size : earlier.scopes.size ≤ later.scopes.size
  older : ∀ d : Nat, d < earlier.scopes.size → later.scopes[d]? = earlier.scopes[d]?

namespace Store

variable {earlier : Store}

theorem extends_of_same {α : Type} {action : Action α}
    (same : ∀ store, (action.run store).2.scopes = store.scopes) :
    Action.Relates earlier.Extends id action action := by
  rintro _ later ⟨rfl, size, older⟩
  refine ⟨by cases (action.run _).1 <;> rfl, rfl, ?_, fun d there => ?_⟩
  · rw [same]
    exact size
  · rw [same]
    exact older d there

theorem extends_newScope (parent : Option ScopeId) :
    Action.Relates earlier.Extends id (Action.newScope parent) (Action.newScope parent) := by
  rintro _ later ⟨rfl, size, older⟩
  have grows := later.scopes.size_extend parent
  refine ⟨rfl, rfl, Nat.le_trans size (Nat.le.intro grows.symm), fun d there => ?_⟩
  have below : d < later.scopes.size := Nat.lt_of_lt_of_le there size
  exact (Array.getElem?_push_lt below).trans
    ((Array.getElem?_eq_getElem below).symm.trans (older d there))

theorem carries_extends : Likeness.same.Carries earlier.Extends where
  fresh := extends_of_same fun _ => rfl
  root := extends_newScope none
  write text := extends_of_same fun store => by
    rw [Action.run_write]
    rcases store.output.write text with ⟨_ | _, output⟩ <;> rfl
  flush := extends_of_same fun store => by
    rw [Action.run_flush]
    cases store.output.flush <;> rfl

end Store

/-- Natives of the ground environment make scopes, if they do anything with them. -/
theorem Primitive.older_call (p : Primitive) (args : List Form) {store : Store} {d : Nat}
    (there : d < store.scopes.size) :
    ((p.call args).run store).2.scopes[d]? = store.scopes[d]? :=
  (relates_call Store.carries_extends p args (fun _ _ _ _ => Store.extends_newScope _) store store
    ⟨rfl, Nat.le_refl _, fun _ _ => rfl⟩).2.older d there

/-- Natives get at scopes by what they are given and by what they remember. -/
def HostNative.Confined (host : HostNative) : Prop :=
  ∀ (D : Discipline) (text : Form → String) (memory : Form) (args : List Form) (store : Store),
    memory.Obeys D → (∀ x ∈ args, x.Obeys D) → store.scopes.Obeys D →
      ∀ d : Nat, d < store.scopes.size → ¬ D.scope d →
        (host.call text memory args store).2.scopes[d]? = store.scopes[d]?

def Native.Answers (n : Native) (w : World) (v : Form) (result : Except Error Form)
    (later : World) : Prop :=
  w.call n [v] = (result, later)

def Native.Confined (n : Native) (w : World) : Prop :=
  ∀ (index : Nat) (name : String) (host : HostNative), n = .host index name →
    w.hosts[index]? = some host → host.Confined

/-- The native leaves the ground scope alone whenever it is called for one of these values. -/
def Native.Spares (n : Native) (w : World) (vs : List Form) : Prop :=
  ∀ (before : List Form) (v : Form) (rest rs : List Form) (called : World),
    vs = before ++ v :: rest → Threads n.Answers w before (.ok rs) called →
      (called.call n [v]).2.store.scopes[Machine.ground]? = called.store.scopes[Machine.ground]?

/-- All that is there, values that are yet to come included, leads to these scopes only. So it is
when more of the scopes are allowed that are yet to be made. -/
structure World.Within (allowed : ScopeId → Prop) (w : World) (vs : List Form) : Prop where
  there : ∀ d, allowed d → d < w.store.scopes.size
  obeys : ∀ more : ScopeId → Prop, (∀ d, allowed d → more d) →
    (∀ d, more d → allowed d ∨ w.store.scopes.size ≤ d) →
      w.machine.Obeys (.within more) ∧ ∀ v ∈ vs, v.Obeys (.within more)

/-- What is needed to go on calling a native. -/
structure Native.Ready (n : Native) (w : World) (vs : List Form) : Prop where
  confined : n.Confined w
  within : ∃ allowed, w.Within allowed vs
  spares : n.Spares w vs

section

variable {n : Native} {w called : World} {v : Form} {vs args : List Form} {D : Discipline}

theorem Native.confined_primitive (p : Primitive) (w : World) : (primitive p).Confined w := by
  intro index name host same
  cases same

theorem World.hosts_call {index : Nat} {host : HostNative}
    (found : (w.call n args).2.hosts[index]? = some host) :
    ∃ old, w.hosts[index]? = some old ∧ old.call = host.call := by
  unfold call Machine.callNative at found
  split at found
  · exact ⟨host, found, rfl⟩
  · rename_i at_index name
    split at found
    · rename_i called _
      generalize called.call _ called.memory args w.machine.store = answer at found
      obtain ⟨⟨result, memory⟩, store⟩ := answer
      simp only [Machine.world, Array.getElem?_modify] at found
      split at found
      · obtain ⟨old, there, rfl⟩ := Option.map_eq_some_iff.mp found
        exact ⟨old, there, rfl⟩
      · exact ⟨host, found, rfl⟩
    · exact ⟨host, found, rfl⟩

theorem Native.Confined.call {m : Native} (confined : n.Confined w) :
    n.Confined (w.call m args).2 := by
  intro index name host same found
  obtain ⟨old, there, kept⟩ := World.hosts_call found
  have confined := confined index name old same there
  unfold HostNative.Confined at confined ⊢
  rwa [← kept]

theorem World.older_call (confined : n.Confined w) (obeys : w.machine.Obeys D)
    (known : ∀ x ∈ args, x.Obeys D) {d : Nat} (there : d < w.store.scopes.size)
    (hidden : ¬ D.scope d) : (w.call n args).2.store.scopes[d]? = w.store.scopes[d]? := by
  unfold call Machine.callNative
  split
  · rename_i p
    exact p.older_call args there
  · rename_i index name
    split
    · rename_i host found
      exact confined index name host rfl found D _ _ args w.store
        (obeys.hosts host (Array.mem_of_getElem? found)).2 known obeys.scopes d there hidden
    · rfl

theorem Native.Ready.reserve (ready : n.Ready w vs) (count : Nat) :
    n.Ready (w.reserve count) vs where
  confined := ready.confined
  within := by
    obtain ⟨allowed, there, obeys⟩ := ready.within
    refine ⟨allowed, there, fun more wider new => ?_⟩
    obtain ⟨⟨scopes, hosts⟩, known⟩ := obeys more wider new
    exact ⟨⟨⟨scopes.value, scopes.parent⟩, hosts⟩, known⟩
  spares before v rest rs called same threads :=
    ready.spares before v rest rs called same (threads.lead (w.widens_reserve count))

/-- What widens a world has nothing new in the scopes that were there. -/
theorem World.Widens.obeys {more : ScopeId → Prop} (widens : w.Widens called)
    (new : ∀ d, more d → d < w.store.scopes.size ∨ called.store.scopes.size ≤ d)
    (obeys : w.machine.Obeys (.within more)) : called.machine.Obeys (.within more) := by
  have bindings {d : ScopeId} (here : more d) :
      called.store.scopes.bindings d = w.store.scopes.bindings d := by
    unfold Scopes.bindings
    rcases new d here with old | missing
    · rw [widens.older d old]
    · rw [Array.getElem?_eq_none missing, Array.getElem?_eq_none (Nat.le_trans widens.size missing)]
  have parents {d : ScopeId} (here : more d) :
      called.store.scopes.parent? d = w.store.scopes.parent? d := by
    unfold Scopes.parent?
    rcases new d here with old | missing
    · rw [widens.older d old]
    · rw [Array.getElem?_eq_none missing, Array.getElem?_eq_none (Nat.le_trans widens.size missing)]
  refine ⟨⟨fun d here binding member => ?_, fun d p here found => ?_⟩, fun host member => ?_⟩
  · exact obeys.scopes.value d here binding (bindings here ▸ member)
  · exact obeys.scopes.parent d p here ((parents here).symm.trans found)
  · rw [World.machine, widens.hosts] at member
    exact obeys.hosts host member

theorem World.size_call (obeys : w.machine.Obeys D) :
    w.store.scopes.size ≤ (w.call n args).2.store.scopes.size :=
  (@Machine.Obeys.callNative D False _ obeys n args nofun).1.store.scopes

theorem World.Within.call {allowed : ScopeId → Prop} (within : w.Within allowed (v :: vs))
    (widens : w.Widens called) : ∃ allowed', (called.call n [v]).2.Within allowed' vs := by
  have obeys {more : ScopeId → Prop} (wider : ∀ d, allowed d → more d)
      (new : ∀ d, more d → allowed d ∨ called.store.scopes.size ≤ d) :
      called.machine.Obeys (.within more) ∧ ∀ x ∈ v :: vs, x.Obeys (.within more) := by
    obtain ⟨obeys, known⟩ := within.obeys more wider fun d here =>
      (new d here).imp_right (Nat.le_trans widens.size)
    exact ⟨widens.obeys (fun d here => (new d here).imp_left (within.there d)) obeys, known⟩
  have size : called.store.scopes.size ≤ (called.call n [v]).2.store.scopes.size :=
    World.size_call (obeys (fun _ here => here) fun _ => .inl).1
  refine ⟨fun d => allowed d ∨
    -- What the rest may lead to is what it could before, and what this call made.
    called.store.scopes.size ≤ d ∧ d < (called.call n [v]).2.store.scopes.size, ?_, ?_⟩
  · rintro d (here | here)
    · exact Nat.lt_of_lt_of_le (within.there d here) (Nat.le_trans widens.size size)
    · exact here.2
  · intro more wider new
    obtain ⟨obeys, known⟩ := obeys (fun d here => wider d (.inl here)) fun d here =>
      (new d here).elim (fun found => found.imp_right And.left)
        fun high => .inr (Nat.le_trans size high)
    have settled : Settled (.within more) True called.machine (called.machine.callNative n [v]) :=
      obeys.callNative n fun _ x member =>
        List.mem_singleton.mp member ▸ known v List.mem_cons_self
    have covers : (Discipline.within more).Covers called.machine
        (called.machine.callNative n [v]).2 :=
      ⟨⟨fun _ _ _ => trivial, fun d low high => wider d (.inr ⟨low, high⟩)⟩, fun _ _ _ => trivial⟩
    obtain ⟨_, after⟩ := settled.2 trivial covers
    exact ⟨⟨after.scopes, after.hosts⟩, fun x member => known x (List.mem_cons_of_mem _ member)⟩

theorem Native.serves (n : Native) : (Combiner.native n).Serves n.Answers n.Ready where
  other := nofun
  reserve count ready := ready.reserve count
  call {w called v vs} ready widens size _ e := by
    obtain ⟨allowed, within⟩ := ready.within
    have spares := ready.spares [] v vs [] (called.reserve 1) rfl (.nil (widens.reserve 1))
    have confined : n.Confined (called.reserve 1) := by
      have kept := ready.confined
      rwa [Native.Confined, ← widens.hosts] at kept
    have fits : (called.reserve 1).machine.Obeys (.within allowed) :=
      (widens.reserve 1).obeys (fun d here => .inl (within.there d here))
        (within.obeys allowed (fun _ => id) fun _ => .inl).1
    have known : ∀ x ∈ [v], x.Obeys (.within allowed) := fun x member =>
      List.mem_singleton.mp member ▸
        (within.obeys allowed (fun _ => id) fun _ => .inl).2 v List.mem_cons_self
    refine ⟨called.reserve 1, _, _, called.widens_reserve 1, rfl, fun fuel => ?_, fun r same =>
      ⟨⟨confined.call, within.call (widens.reserve 1),
        fun before v' rest rs later split threads => ?_⟩, spares, ?_⟩⟩
    · exact (Combiner.result_receive (by nofun) [v]).trans (Meaning.result_call n [v] _ _)
    · have answered : n.Answers (called.reserve 1) v (.ok r)
          ((called.reserve 1).call n [v]).2 := by
        rw [Native.Answers, World.call, same]
      exact ready.spares (v :: before) v' rest (r :: rs) later (congrArg (v :: ·) split)
        (.cons (widens.reserve 1) answered threads)
    · exact World.older_call confined fits known
        (Nat.lt_of_lt_of_eq (Nat.lt_succ_self _) size.symm)
        fun here => Nat.lt_irrefl _ (within.there _ here)

end

namespace Evaluation

variable {e there : Evaluation} {w : World}

theorem Executes.reachable {count : Nat} (executes : e.Executes count there)
    (reachable : e.Reachable) : there.Reachable := by
  induction executes with
  | refl => exact reachable
  | head stepped _ ih => exact ih (reachable.step stepped)

/-- Operands are evaluated whether or not a frame is pushed for it. -/
theorem reaches_operands (obeys : e.Obeys .sourced) {name : String} {operands : Form}
    {next : Code} (here : e.code = (Code.refer name (.apply operands)).framed next)
    {id : Identity} {c : Combiner}
    (bound : e.store.scopes.lookup e.scope name = .ok (.combiner (.applicative id c)))
    {code : Code} (accepted : operands.compileArguments c = .ok code) {fuel : Nat}
    {values : List Form}
    (evaluated : (operands.evaluateOperands (Combiner.combine fuel) e.scope).result e.world =
      some (.ok values, w)) :
    e.Reaches fun p => ∃ there, p = .running there ∧ there.pending.items.reverse = values ∧
      there.world = w := by
  have reaches {e : Evaluation} (obeys : e.Obeys .sourced)
      (here : e.code = .refer name (.apply operands))
      (bound : e.store.scopes.lookup e.scope name = .ok (.combiner (.applicative id c)))
      (evaluated : (operands.evaluateOperands (Combiner.combine fuel) e.scope).result e.world =
        some (.ok values, w)) :
      e.Reaches fun p => ∃ there, p = .running there ∧ there.pending.items.reverse = values ∧
        there.world = w := by
    refine (reaches_named obeys here bound accepted evaluated).trans ?_
    rintro _ ⟨there, rfl, calls⟩
    exact .here ⟨there, rfl, calls.values, calls.world⟩
  unfold Code.framed at here
  split at here
  · exact reaches obeys here bound evaluated
  · have pushed := execute_frame (e := e.tick) here
    have kept := obeys.executed
    rw [pushed] at kept
    -- The frame is pushed first, and then the operands are evaluated as above.
    exact .after pushed (reaches kept rfl bound evaluated)

/-- Values that a state holds lead to the scopes that it has. -/
theorem Reachable.within (reachable : e.Reachable) {values : List Form}
    (pending : e.pending.items.reverse = values) {more : ScopeId → Prop}
    (wider : ∀ d, d < e.store.scopes.size → more d) :
    e.world.machine.Obeys (.within more) ∧ ∀ v ∈ values, v.Obeys (.within more) := by
  have carries : (Discipline.within more).Carries fun _ => True :=
    ⟨fun _ _ _ => trivial, fun _ _ _ => trivial, fun _ _ _ => trivial⟩
  have obeys := (reachable.obeys carries
    ⟨fun _ _ => trivial, fun _ _ => trivial, wider⟩).1
  refine ⟨⟨obeys.machine.scopes, obeys.machine.hosts⟩, fun v member => ?_⟩
  rw [← pending] at member
  exact obeys.pending.items v (List.mem_reverse.mp member)

/-- `map` calls a native once for each value of a list, in order, with the value as it stands. Its
value is a list of what the native gave; the first error ends it. -/
theorem Reachable.map_calls_native (reachable : e.Reachable)
    (unlimited : e.limit = none) {i : Identity} {operands : Form} {next : Code}
    (compiled : (Form.pair i (.symbol "map") operands).compile next = .ok e.code)
    (bound : e.store.scopes.get? e.scope "map" =
      (Machine.initial.store.scopes.bindings Machine.ground).get? "map")
    (accepted : ∀ c : Combiner, ∃ code, operands.compileArguments c = .ok code)
    {fuel : Nat} {id : Identity} {n : Native} {xs : Form} {vs : List Form}
    (evaluated : (operands.evaluateOperands (Combiner.combine fuel) e.scope).result e.world =
      some (.ok [.combiner (.applicative id (.native n)), xs], w))
    (proper : xs.list? = some vs)
    (installed : w.store.scopes[Machine.ground]? = Machine.initial.store.scopes[Machine.ground]?)
    (confined : n.Confined w) (spares : n.Spares w vs) :
    ∃ outcome later, Threads n.Answers w vs outcome later ∧ match outcome with
      | .ok rs => ∃ value, value.list? = some rs ∧ e.Yields e.code next value later
      | .error error => e.Fails e.code next error later := by
  have equipped : w.store.scopes.Equipped := Machine.equipped_initial.same installed
  obtain ⟨wrapper, inner, fresh, applicative⟩ := Machine.derives_initial.map
  have found := Scopes.lookup_of_get? (bound.trans applicative)
  obtain ⟨code, arguments⟩ := accepted (.operative inner Machine.ground (.mapping fresh))
  have here : e.code = (Code.refer "map" (.apply operands)).framed next :=
    (Except.ok.inj compiled).symm
  obtain ⟨count, there, executes, ⟨pending, rfl⟩, _⟩ :=
    (reaches_operands reachable.sourced here found arguments evaluated).executes unlimited
  -- The values were there when the operands had been evaluated, so they lead to older scopes.
  have ready : n.Ready there.world vs := by
    refine ⟨confined, ⟨(· < there.store.scopes.size), fun _ old => old, fun more wider _ => ?_⟩,
      spares⟩
    obtain ⟨obeys, known⟩ := (executes.reachable reachable).within pending wider
    refine ⟨obeys, fun v member => ?_⟩
    rw [← Form.items_of_list? proper] at member
    exact (known xs (by simp)).items v member
  obtain ⟨result, later, threads, ends, runs⟩ :=
    n.serves.map proper ready equipped id inner fresh e.scope
  have evaluated : (operands.evaluateOperands
      (Combiner.combine (fuel + 3 * vs.length + 4)) e.scope).result e.world = _ :=
    Form.below_evaluateOperands (Combiner.below_combine (by omega)) _ _ _ _ evaluated
  have outcome : (Form.pair i (.symbol "map") operands).outcome (fuel + 3 * vs.length + 5) e.scope
      e.world = some (result.mapError .error, later) :=
    (Form.result_named rfl found).trans
      ((Combiner.result_applicative arguments evaluated).trans (runs fuel))
  have agrees := (reachable.agrees_with_evaluator (fun _ obeys => obeys.code) compiled).1
    (fuel + 3 * vs.length + 5)
  rw [outcome] at agrees
  refine ⟨result.map Form.items, later, threads, ?_⟩
  cases result with
  | ok value => exact ⟨value, if_pos (congrArg Form.isNil (ends value rfl)), agrees⟩
  | error error => exact agrees

end Evaluation

def Form.pairsAsked : Form :=
  .pair 0 (.symbol "pair?") (.pair 0 (.pair 0 (.symbol "$quote") (.pair 0
    (.pair 0 (.symbol "x") (.pair 0 (.pair 0 (.symbol "y") .nil) .nil)) .nil)) .nil)

/-- Nothing binds the symbols, and none of the values is evaluated. -/
theorem Evaluation.Reachable.map_calls_native_symbols : ∃ value later, value.list? =
      some [.bool false, .bool true] ∧
    (Machine.initial.start (.frame .halt (.refer "map" (.apply .pairsAsked)))
      Machine.topLevel).Yields (.frame .halt (.refer "map" (.apply .pairsAsked))) .halt value
        later := by
  obtain ⟨kept, session⟩ := Session.Reachable.initial
  obtain ⟨_, _, _, _, top, fresh, unlimited⟩ := Machine.initial_facts
  obtain ⟨id, isPair⟩ := Machine.grounded_initial.primitives .isPair
  have found := Scopes.lookup_of_get? ((Machine.get?_topLevel "pair?").trans isPair)
  -- No step below is to compute the machine.
  obtain ⟨m, same⟩ : ∃ m, m = Machine.initial := ⟨_, rfl⟩
  have here : m.store.scopes.get? Machine.topLevel "map" =
      (Machine.initial.store.scopes.bindings Machine.ground).get? "map" := by
    rw [same]
    exact Machine.get?_topLevel "map"
  have installed : m.store.scopes[Machine.ground]? =
      Machine.initial.store.scopes[Machine.ground]? := by rw [same]
  rw [← same] at session top fresh unlimited found ⊢
  have bound : Machine.topLevel < m.store.scopes.size := (Array.getElem?_eq_some_iff.mp top).1
  have plain : (Form.pair 0 (.symbol "map") .pairsAsked).Plain m := by
    intro D room
    have zero := room.object 0 (by rw [fresh]; decide)
    simp [Form.pairsAsked, Form.Obeys, zero]
  have compiled : (Form.pair 0 (.symbol "map") .pairsAsked).compile .halt =
      .ok (.frame .halt (.refer "map" (.apply .pairsAsked))) := rfl
  have evaluated : (Form.pairsAsked.evaluateOperands (Combiner.combine 0)
      Machine.topLevel).result m.world =
        some (.ok [.combiner (.applicative id (.native (.primitive .isPair))),
          .pair 0 (.symbol "x") (.pair 0 (.pair 0 (.symbol "y") .nil) .nil)],
          m.world.reserve 2) :=
    Form.result_operands (Form.result_symbol (w := m.world) found)
      (Form.result_operands (Form.result_quote rfl) Form.result_nil)
  have spares : (Native.primitive .isPair).Spares (m.world.reserve 2)
      [.symbol "x", .pair 0 (.symbol "y") .nil] := fun _ _ _ _ _ _ _ => rfl
  obtain ⟨outcome, later, threads, matched⟩ := (session.start plain compiled bound).map_calls_native
    unlimited compiled here (fun _ => ⟨_, rfl⟩) evaluated rfl installed
    (Native.confined_primitive _ _) spares
  cases threads with
  | fail _ failed => cases failed
  | cons _ answered threads =>
    cases answered
    cases threads with
    | fail _ failed => cases failed
    | cons _ answered threads =>
      cases answered
      cases threads with
      | nil =>
        obtain ⟨value, results, yields⟩ := matched
        exact ⟨value, later, results, yields⟩

end Vau
