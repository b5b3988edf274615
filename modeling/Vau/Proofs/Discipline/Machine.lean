import Vau.Proofs.Discipline.Action
import Vau.Machine.Run

/-! Every instruction keeps a discipline, if the stacks that it captures are as the discipline
asks, and the numbers of what it makes are. -/

set_option autoImplicit false

namespace Vau

structure Machine.Grows (m later : Machine) : Prop where
  store : m.store.Grows later.store
  frames : m.frames ≤ later.frames

theorem Machine.Grows.refl (m : Machine) : m.Grows m :=
  ⟨.refl _, Nat.le_refl _⟩

theorem Machine.Grows.trans {m middle later : Machine} (first : m.Grows middle)
    (rest : middle.Grows later) : m.Grows later :=
  ⟨first.store.trans rest.store, Nat.le_trans first.frames rest.frames⟩

/-- The discipline allows the numbers of what the later machine has in addition. -/
structure Discipline.Covers (D : Discipline) (m later : Machine) : Prop where
  store : D.Allows m.store later.store
  frame : ∀ i : Nat, m.frames ≤ i → i < later.frames → D.frame i

namespace Discipline.Covers

variable {D : Discipline} {m middle later : Machine}

theorem first (covers : D.Covers m later) (grows : middle.Grows later) : D.Covers m middle :=
  ⟨covers.store.first grows.store,
    fun i low high => covers.frame i low (Nat.lt_of_lt_of_le high grows.frames)⟩

theorem rest (covers : D.Covers m later) (grows : m.Grows middle) : D.Covers middle later :=
  ⟨covers.store.rest grows.store,
    fun i low high => covers.frame i (Nat.le_trans grows.frames low) high⟩

end Discipline.Covers

/-- Natives of the embedding program pass on what they were given. What they make is new. -/
def HostNative.Keeps (D : Discipline) (host : HostNative) : Prop :=
  ∀ (text : Form → String) (memory : Form) (args : List Form) (store : Store),
    ∀ result memory' store', host.call text memory args store = ((result, memory'), store') →
      store.Grows store' ∧
        (memory.Obeys D → (∀ x ∈ args, x.Obeys D) → store.scopes.Obeys D → D.Allows store store' →
          (∀ v, result = .ok v → v.Obeys D) ∧ memory'.Obeys D ∧ store'.scopes.Obeys D)

structure Machine.Obeys (D : Discipline) (m : Machine) : Prop where
  scopes : m.store.scopes.Obeys D
  hosts : ∀ host ∈ m.hosts, host.Keeps D ∧ host.memory.Obeys D

structure Evaluation.Obeys (D : Discipline) (e : Evaluation) : Prop where
  machine : e.toMachine.Obeys D
  acc : e.acc.Obeys D
  code : e.code.Obeys D
  scope : D.scope e.scope
  pending : e.pending.Obeys D
  stack : e.stack.Obeys D

def Progress.machine : Progress → Machine
  | running e => e.toMachine
  | finished _ m | failed _ m => m

def Progress.Obeys (D : Discipline) : Progress → Prop
  | running e => e.Obeys D
  | finished value m => value.Obeys D ∧ m.Obeys D
  | failed _ m => m.Obeys D

/-- The machine has grown. All obeys if what is given holds, and if what is new is numbered as the
discipline asks. -/
def Progress.Follows (D : Discipline) (given : Prop) (m : Machine) (p : Progress) : Prop :=
  m.Grows p.machine ∧ (given → D.Covers m p.machine → p.Obeys D)

/-- The same of what came out of a computation, and of the machine that it leaves behind. -/
def Settled (D : Discipline) (given : Prop) (m : Machine) : Except Error Form × Machine → Prop
  | (result, later) => m.Grows later ∧
    (given → D.Covers m later → (∀ v, result = .ok v → v.Obeys D) ∧ later.Obeys D)

variable {D : Discipline} {given : Prop}

namespace Machine

theorem Obeys.withScopes {m : Machine} (obeys : m.Obeys D) {scopes : Scopes}
    (new : scopes.Obeys D) : ({ m with store.scopes := scopes } : Machine).Obeys D :=
  ⟨new, obeys.hosts⟩

theorem grows_withScopes (m : Machine) {scopes : Scopes}
    (size : scopes.size = m.store.scopes.size) :
    m.Grows { m with store.scopes := scopes } :=
  ⟨⟨Nat.le_refl _, Nat.le_of_eq size.symm⟩, Nat.le_refl _⟩

theorem Obeys.acted {α : Type} {result : α → Prop} {m : Machine} (obeys : m.Obeys D)
    {action : Action α} (yields : Action.Yields D given result action) :
    m.Grows (m.act action).2 ∧ (given → D.Covers m (m.act action).2 →
      (∀ a, (m.act action).1 = .ok a → result a) ∧ (m.act action).2.Obeys D) := by
  obtain ⟨grows, holds⟩ := yields m.store
  refine ⟨⟨grows, Nat.le_refl _⟩, fun assumed covers => ?_⟩
  obtain ⟨kept, is⟩ := holds assumed obeys.scopes covers.store
  exact ⟨is, ⟨kept, obeys.hosts⟩⟩

theorem Obeys.act {m : Machine} (obeys : m.Obeys D) {action : Action Form}
    (yields : Action.Yields D given (Form.Obeys D) action) : Settled D given m (m.act action) :=
  obeys.acted yields

theorem Obeys.remember {m : Machine} (obeys : m.Obeys D) (index : Nat) {memory : Form}
    (new : memory.Obeys D) {store : Store} (scopes : store.scopes.Obeys D) :
    ({ m with store, hosts := m.hosts.modify index ({ · with memory }) } : Machine).Obeys D := by
  refine ⟨scopes, fun host member => ?_⟩
  obtain ⟨i, bound, same⟩ := Array.mem_iff_getElem.mp member
  simp only [Array.size_modify] at bound
  rw [Array.getElem_modify] at same
  have old := obeys.hosts _ (Array.getElem_mem bound)
  split at same
  · exact same ▸ ⟨old.1, new⟩
  · exact same ▸ old

theorem Obeys.callNative {m : Machine} (obeys : m.Obeys D) (n : Native) {args : List Form}
    (each : given → ∀ x ∈ args, x.Obeys D) : Settled D given m (m.callNative n args) := by
  cases n with
  | primitive p =>
    obtain ⟨grows, holds⟩ := obeys.act (Primitive.yields_call p each)
    refine ⟨grows, fun assumed covers => ?_⟩
    obtain ⟨values, kept⟩ := holds assumed covers
    exact ⟨fun v same => values v (Except.mapError_eq_ok.mp same), kept⟩
  | host index name =>
    unfold Machine.callNative
    dsimp only
    split
    · rename_i host found
      have member : host ∈ m.hosts := Array.mem_of_getElem? found
      obtain ⟨keeps, memory⟩ := obeys.hosts host member
      rcases ran : host.call (·.textDuring (.host index name)) host.memory args m.store with
        ⟨⟨result, memory'⟩, store'⟩
      obtain ⟨grows, holds⟩ := keeps _ _ args m.store _ _ _ ran
      refine ⟨⟨grows, Nat.le_refl _⟩, fun assumed covers => ?_⟩
      obtain ⟨values, kept, scopes⟩ := holds memory (each assumed) obeys.scopes covers.store
      exact ⟨fun v same => values v (Except.mapError_eq_ok.mp same),
        obeys.remember index kept scopes⟩
    · exact ⟨.refl m, fun _ _ => ⟨nofun, obeys⟩⟩

end Machine

namespace Evaluation

variable {e : Evaluation}

theorem Obeys.fail (obeys : e.Obeys D) (error : Error) :
    (e.fail error).Follows D given e.toMachine :=
  ⟨.refl _, fun _ _ => obeys.machine⟩

theorem Obeys.settle (obeys : e.Obeys D) {code : Code} (next : code.Obeys D)
    {outcome : Except Error Form × Machine} (settled : Settled D given e.toMachine outcome) :
    (e.settle code outcome).Follows D given e.toMachine := by
  obtain ⟨result, m⟩ := outcome
  obtain ⟨grows, holds⟩ := settled
  cases result with
  | ok v =>
    refine ⟨grows, fun assumed covers => ?_⟩
    obtain ⟨values, machine⟩ := holds assumed covers
    exact ⟨machine, values v rfl, next, obeys.scope, obeys.pending, obeys.stack⟩
  | error error => exact ⟨grows, fun assumed covers => (holds assumed covers).2⟩

theorem Obeys.combiner (obeys : e.Obeys D) {c : Combiner} (found : e.combiner = .ok c) :
    c.Obeys D := by
  have acc := obeys.acc
  unfold Evaluation.combiner at found
  split at found
  · rename_i held
    cases found
    rw [held] at acc
    exact acc
  · cases found

theorem Obeys.enter (obeys : e.Obeys D) {static : ScopeId} (allowed : D.scope static)
    {t : Template} (template : t.Obeys D) {operands : Form} (values : given → operands.Obeys D) :
    (e.enter static t operands).Follows D given e.toMachine := by
  obtain ⟨parameters, formal, source, body, wraps⟩ := t
  have child : (e.store.scopes.extend (some static)).2.Obeys D :=
    obeys.machine.scopes.extend fun p same => Option.some.inj same ▸ allowed
  have bound (assumed : given) := child.bind e.store.scopes.size parameters (values assumed)
  have size := (Scopes.size_bind (e.store.scopes.extend (some static)).2 e.store.scopes.size
    parameters operands).trans (Scopes.size_extend _ _)
  unfold Evaluation.enter
  simp only [Scopes.extend] at bound size ⊢
  split
  · rename_i error scopes failed
    rw [failed] at bound size
    exact ⟨⟨⟨Nat.le_refl _, Nat.le.intro size.symm⟩, Nat.le_refl _⟩,
      fun assumed _ => obeys.machine.withScopes (bound assumed)⟩
  · rename_i scopes done
    rw [done] at bound size
    -- Whether the scope of the caller is bound or not, the number of scopes is the same.
    have entered {scopes' : Scopes} (same : scopes'.size = scopes.size)
        (kept : given → scopes'.Obeys D) :
        (Progress.running { e with
          store.scopes := scopes', scope := e.store.scopes.size, code := body }).Follows D given
            e.toMachine := by
      have more : e.store.scopes.size + 1 = scopes'.size := (same.trans size).symm
      refine ⟨⟨⟨Nat.le_refl _, Nat.le.intro more⟩, Nat.le_refl _⟩, fun assumed covers => ?_⟩
      have new := covers.store.scope _ (Nat.le_refl _)
        (Nat.lt_of_lt_of_eq (Nat.lt_succ_self _) more)
      exact ⟨obeys.machine.withScopes (kept assumed), obeys.acc, template.2.2.2.2, new,
        obeys.pending, obeys.stack⟩
    split
    · rename_i name
      exact entered (Scopes.size_define _ _ _ _) fun assumed =>
        (bound assumed).define _ name obeys.scope
    · exact entered rfl bound

theorem Obeys.evaluateOperands (obeys : e.Obeys D) {operands : Form}
    (values : given → operands.Obeys D) {c : Combiner} (inner : c.Obeys D) :
    (e.evaluateOperands operands c).Follows D given e.toMachine := by
  unfold Evaluation.evaluateOperands
  split
  · rename_i code compiled
    refine ⟨.refl _, fun assumed _ => ?_⟩
    have next := (values assumed).compileArguments inner compiled
    exact ⟨obeys.machine, obeys.acc, next, obeys.scope, trivial, obeys.stack⟩
  · exact obeys.fail _

theorem Obeys.callNative (obeys : e.Obeys D) (n : Native) {operands : Form}
    (values : given → operands.Obeys D) :
    (e.callNative n operands).Follows D given e.toMachine := by
  unfold Evaluation.callNative
  split
  · rename_i args proper
    exact obeys.settle (show Code.ret.Obeys D from trivial)
      (obeys.machine.callNative n fun assumed => (values assumed).operands proper)
  · exact obeys.fail _

theorem Obeys.callEval (obeys : e.Obeys D) {operands : Form} (values : given → operands.Obeys D) :
    (e.callEval operands).Follows D given e.toMachine := by
  unfold Evaluation.callEval
  dsimp only
  split
  · exact obeys.fail _
  · rename_i form scope proper
    split
    · rename_i code compiled
      refine ⟨.refl _, fun assumed _ => ?_⟩
      have known : form.Obeys D := (values assumed).operands proper form (by simp)
      have allowed : D.scope scope :=
        (values assumed).operands proper (.environment scope) (by simp)
      have body : code.Obeys D := known.compile (show Code.ret.Obeys D from trivial) compiled
      exact ⟨obeys.machine, obeys.acc, body, allowed, obeys.pending, obeys.stack⟩
    · exact obeys.fail _
  · exact obeys.fail _
  · exact obeys.fail _

theorem Obeys.apply (obeys : e.Obeys D) {c : Combiner} (combiner : c.Obeys D) {operands : Form}
    (values : given → operands.Obeys D) : (e.apply c operands).Follows D given e.toMachine := by
  cases c with
  | operative id scope template => exact obeys.enter combiner.2.1 combiner.2.2 values
  | applicative id inner => exact obeys.evaluateOperands values combiner.2
  | native n => exact obeys.callNative n values
  | eval => exact obeys.callEval values
  | continuation stack => exact obeys.evaluateOperands values combiner

theorem Obeys.reinstate (obeys : e.Obeys D) {stack : Stack} (captured : stack.Obeys D)
    {args : Form} (values : given → args.Obeys D) :
    (e.reinstate stack args).Follows D given e.toMachine := by
  unfold Evaluation.reinstate
  split
  · exact ⟨.refl _, fun _ _ =>
      ⟨obeys.machine, trivial, trivial, obeys.scope, obeys.pending, captured⟩⟩
  · exact ⟨.refl _, fun assumed _ =>
      ⟨obeys.machine, (values assumed).car, trivial, obeys.scope, obeys.pending, captured⟩⟩
  · exact obeys.fail _

theorem Obeys.combine (obeys : e.Obeys D) {c : Combiner} (combiner : c.Obeys D) {args : Form}
    (values : given → args.Obeys D) : (e.combine c args).Follows D given e.toMachine := by
  cases c with
  | continuation stack => exact obeys.reinstate combiner.2 values
  | _ => exact obeys.apply combiner values

theorem yields_close (obeys : e.Obeys D) {t : Template} (template : t.Obeys D) :
    Action.Yields D given (Form.Obeys D) (e.close t) := by
  refine Action.yields_fresh.bind fun id => ?_
  dsimp only
  split
  · exact Action.yields_wrap fun ⟨_, new⟩ => ⟨new, obeys.scope, template⟩
  · exact .pure fun ⟨_, new⟩ => ⟨new, obeys.scope, template⟩

def arguments (e : Evaluation) : Form :=
  (Form.chain e.pending.items.reverse .nil e.store.fresh).1

def handed (e : Evaluation) : Evaluation :=
  { e with
    store.fresh := (Form.chain e.pending.items.reverse .nil e.store.fresh).2
    pending := .nil }

theorem Obeys.handed (obeys : e.Obeys D) : e.handed.Obeys D :=
  ⟨⟨⟨obeys.machine.scopes.value, obeys.machine.scopes.parent⟩, obeys.machine.hosts⟩, obeys.acc,
    obeys.code, obeys.scope, trivial, obeys.stack⟩

theorem fresh_handed (e : Evaluation) :
    e.handed.store.fresh = e.store.fresh + e.pending.items.length := by
  unfold handed
  rw [Form.fresh_chain, List.length_reverse]

theorem grows_handed (e : Evaluation) : e.toMachine.Grows e.handed.toMachine :=
  ⟨⟨Nat.le.intro e.fresh_handed.symm, Nat.le_refl _⟩, Nat.le_refl _⟩

theorem Obeys.arguments (obeys : e.Obeys D) (covers : D.Covers e.toMachine e.handed.toMachine) :
    e.arguments.Obeys D := by
  refine Form.obeys_chain (fun i low high => covers.store.object i low ?_)
    (fun x member => obeys.pending.items x (List.mem_reverse.mp member)) trivial
  rw [List.length_reverse] at high
  exact Nat.lt_of_lt_of_eq high e.fresh_handed.symm

theorem Obeys.combineHanded (obeys : e.Obeys D) {c : Combiner} (combiner : c.Obeys D) :
    (e.handed.combine c e.arguments).Follows D True e.toMachine := by
  obtain ⟨grows, holds⟩ := obeys.handed.combine combiner fun covers => obeys.arguments covers
  refine ⟨e.grows_handed.trans grows, fun _ covers => ?_⟩
  exact holds (covers.first grows) (covers.rest e.grows_handed)

theorem Obeys.execute (obeys : e.Obeys D)
    (captured : ∀ next, e.code = .capture next → D.stack e.stack) :
    e.execute.Follows D True e.toMachine := by
  have code := obeys.code
  have one_more : e.toMachine.Grows { e.toMachine with store.fresh := e.store.fresh + 1 } :=
    ⟨⟨Nat.le_succ _, Nat.le_refl _⟩, Nat.le_refl _⟩
  unfold Evaluation.execute
  cases here : e.code <;> rw [here] at code <;> dsimp only
  case halt => exact ⟨.refl _, fun _ _ => ⟨obeys.acc, obeys.machine⟩⟩
  case refer name next =>
    split
    · rename_i value found
      have looked := obeys.machine.scopes.lookup obeys.scope found
      exact ⟨.refl _, fun _ _ =>
        ⟨obeys.machine, looked, code, obeys.scope, obeys.pending, obeys.stack⟩⟩
    · exact obeys.fail _
  case constant value next =>
    exact ⟨.refl _, fun _ _ =>
      ⟨obeys.machine, code.1, code.2, obeys.scope, obeys.pending, obeys.stack⟩⟩
  case close t next => exact obeys.settle code.2 (obeys.machine.act (yields_close obeys code.1))
  case define parameters next =>
    have bound := obeys.machine.scopes.bind e.scope parameters obeys.acc
    have size := Scopes.size_bind e.store.scopes e.scope parameters e.acc
    split <;> rename_i outcome <;> rw [outcome] at bound size
    · exact ⟨Machine.grows_withScopes _ size, fun _ _ => ⟨obeys.machine.withScopes bound, trivial,
        code.2, obeys.scope, obeys.pending, obeys.stack⟩⟩
    · exact ⟨Machine.grows_withScopes _ size, fun _ _ => obeys.machine.withScopes bound⟩
  case assign name next =>
    split
    · rename_i scopes assigned
      have changed : scopes.Obeys D := obeys.machine.scopes.set obeys.acc assigned
      exact ⟨Machine.grows_withScopes _ (Scopes.size_set assigned), fun _ _ =>
        ⟨obeys.machine.withScopes changed, trivial, code, obeys.scope, obeys.pending,
          obeys.stack⟩⟩
    · exact obeys.fail _
  case test consequent alternative =>
    refine ⟨.refl _, fun _ _ =>
      ⟨obeys.machine, obeys.acc, ?_, obeys.scope, obeys.pending, obeys.stack⟩⟩
    dsimp only
    split
    · exact code.2
    · exact code.1
  case frame resume next =>
    refine ⟨⟨.refl _, Nat.le_succ _⟩, fun _ covers => ?_⟩
    have frame := covers.frame _ (Nat.le_refl _) (Nat.lt_succ_self _)
    exact ⟨⟨obeys.machine.scopes, obeys.machine.hosts⟩, obeys.acc, code.2, obeys.scope,
      obeys.pending, ⟨frame, obeys.scope, code.1, obeys.pending⟩, obeys.stack⟩
  case apply operands =>
    split
    · rename_i c found
      exact obeys.apply (obeys.combiner found) fun _ => code
    · exact obeys.fail _
  case argument next =>
    refine ⟨one_more, fun _ covers => ?_⟩
    have new := covers.store.object _ (Nat.le_refl _) (Nat.lt_succ_self _)
    exact ⟨⟨obeys.machine.scopes, obeys.machine.hosts⟩, obeys.acc, code, obeys.scope,
      ⟨new, obeys.acc, obeys.pending⟩, obeys.stack⟩
  case capture next =>
    refine ⟨one_more, fun _ covers => ?_⟩
    have new := covers.store.object _ (Nat.le_refl _) (Nat.lt_succ_self _)
    -- The stack gets into a value, so the discipline has to allow it.
    have stack : D.stack e.stack ∧ e.stack.Obeys D := ⟨captured _ here, obeys.stack⟩
    exact ⟨⟨obeys.machine.scopes, obeys.machine.hosts⟩, stack, code, obeys.scope,
      ⟨new, stack, trivial⟩, obeys.stack⟩
  case call =>
    split
    · rename_i c found
      exact obeys.combineHanded (obeys.combiner found)
    · exact obeys.fail _
  case ret =>
    split
    · exact ⟨.refl _, fun _ _ => ⟨obeys.acc, obeys.machine⟩⟩
    · rename_i frame rest top
      have stack := obeys.stack
      rw [top] at stack
      obtain ⟨id, depth, resume, scope, pending⟩ := frame
      obtain ⟨⟨_, allowed, resumed, saved⟩, below⟩ := stack
      exact ⟨⟨.refl _, Nat.le_refl _⟩, fun _ _ => ⟨⟨obeys.machine.scopes, obeys.machine.hosts⟩,
        obeys.acc, resumed, allowed, saved, below⟩⟩

def tick (e : Evaluation) : Evaluation :=
  { e with steps := e.steps + 1, stats.steps := e.stats.steps + 1 }

theorem Obeys.tick (obeys : e.Obeys D) : e.tick.Obeys D :=
  ⟨⟨obeys.machine.scopes, obeys.machine.hosts⟩, obeys.acc, obeys.code, obeys.scope, obeys.pending,
    obeys.stack⟩

def Exhausted (e : Evaluation) : Prop := ∃ limit, e.limit = some limit ∧ limit < e.steps + 1

theorem step_of_not_exhausted (within : ¬ e.Exhausted) : e.step = e.tick.execute := by
  unfold step
  dsimp only
  split
  · rename_i limit bounded
    have small : ¬ limit < e.steps + 1 := fun beyond => within ⟨limit, bounded, beyond⟩
    rw [if_neg small]
    rfl
  · rfl

theorem step_of_exhausted {limit : Nat} (bounded : e.limit = some limit)
    (beyond : limit < e.steps + 1) :
    e.step = .failed (.of (.stepLimit limit)) e.tick.toMachine := by
  unfold step
  dsimp only
  split
  · rename_i limit' found
    cases bounded.symm.trans found
    rw [if_pos beyond]
    rfl
  · rename_i unbounded
    cases bounded.symm.trans unbounded

theorem Obeys.step (obeys : e.Obeys D)
    (captured : ∀ next, e.code = .capture next → D.stack e.stack) :
    e.step.Follows D True e.toMachine := by
  by_cases exhausted : e.Exhausted
  · obtain ⟨limit, bounded, beyond⟩ := exhausted
    rw [step_of_exhausted bounded beyond]
    exact ⟨⟨.refl _, Nat.le_refl _⟩, fun _ _ => obeys.tick.machine⟩
  · rw [step_of_not_exhausted exhausted]
    obtain ⟨grows, holds⟩ := obeys.tick.execute captured
    exact ⟨⟨grows.store, grows.frames⟩,
      fun given covers => holds given ⟨covers.store, covers.frame⟩⟩

/-- A run takes nothing away if no instruction does that such states come to. -/
theorem grows_run_of {P : Evaluation → Prop}
    (grows : ∀ {e : Evaluation}, P e → e.toMachine.Grows e.step.machine)
    (next : ∀ {e later : Evaluation}, P e → e.step = .running later → P later) (here : P e)
    {fuel : Nat} {outcome : Except Error Form × Machine} (ran : e.run fuel = some outcome) :
    e.toMachine.Grows outcome.2 := by
  induction fuel generalizing e with
  | zero => cases ran
  | succ fuel ih =>
    have step := grows here
    unfold Evaluation.run at ran
    split at ran <;> rename_i stepped <;> rw [stepped] at step
    · exact step.trans (ih (next here stepped) ran)
    · cases ran
      exact step
    · cases ran
      exact step

end Evaluation

end Vau
