import Vau.Proofs.Confinement.Action
import Vau.Proofs.Confinement.Reach
import Vau.Proofs.Control

/-! Evaluation where other things are bound in some scopes.

What holds none of these scopes does the same whatever they bind. That it leaves their bindings
alone is no further fact: it also does the same when they are bound to what they are already. -/

set_option autoImplicit false

namespace Vau

variable {new : Rebinding}

def Machine.rebind (new : Rebinding) (m : Machine) : Machine :=
  { m with store := m.store.rebind new }

namespace Machine

theorem store_rebind (m : Machine) : (m.rebind new).store = m.store.rebind new := rfl

theorem hosts_rebind (m : Machine) : (m.rebind new).hosts = m.hosts := rfl

end Machine

def Evaluation.rebind (new : Rebinding) (e : Evaluation) : Evaluation :=
  { e with toMachine := e.toMachine.rebind new }

def Progress.rebind (new : Rebinding) : Progress → Progress
  | running e => .running (e.rebind new)
  | finished value m => .finished value (m.rebind new)
  | failed error m => .failed error (m.rebind new)

/-- Nothing that the state holds leads to what is rebound, and no native is there to find it. -/
structure Evaluation.Ignores (new : Rebinding) (e : Evaluation) : Prop where
  obeys : e.Obeys (.within (new · = none))
  hosts : e.hosts = #[]
  before : new.Before e.store.scopes.size

namespace Machine

theorem act_rebind {m : Machine} (before : new.Before m.store.scopes.size) {α : Type}
    {action : Action α} (ignores : action.Ignores new) :
    (m.rebind new).act action = ((m.act action).1, (m.act action).2.rebind new) := by
  obtain ⟨same, _⟩ := ignores m.store before
  rw [act, store_rebind, same]
  rfl

theorem callNative_missing {m : Machine} (ground : m.hosts = #[]) (index : Nat) (name : String)
    (args : List Form) : m.callNative (.host index name) args =
      (.error ((Error.of (.custom "no such native")).orOperator name).fromNative, m) := by
  have missing : m.hosts[index]? = none := by simp [ground]
  unfold callNative
  dsimp only
  rw [missing]
  rfl

theorem callNative_rebind {m : Machine} (before : new.Before m.store.scopes.size)
    (ground : m.hosts = #[]) (n : Native) (args : List Form) :
    (m.rebind new).callNative n args =
      ((m.callNative n args).1, (m.callNative n args).2.rebind new) := by
  cases n with
  | primitive p =>
    have same := act_rebind before (Primitive.ignores_call p args)
    unfold callNative
    dsimp only
    rw [same]
  | host index name =>
    rw [callNative_missing ground, callNative_missing (m.hosts_rebind.trans ground)]

end Machine

namespace Evaluation

variable {e : Evaluation}

theorem scopes_rebind (e : Evaluation) :
    (e.rebind new).store.scopes = e.store.scopes.rebind new := rfl

theorem scope_rebind (e : Evaluation) : (e.rebind new).scope = e.scope := rfl

theorem acc_rebind (e : Evaluation) : (e.rebind new).acc = e.acc := rfl

theorem settle_rebind (e : Evaluation) (code : Code) (outcome : Except Error Form × Machine) :
    (e.rebind new).settle code (outcome.1, outcome.2.rebind new) =
      (e.settle code outcome).rebind new := by
  obtain ⟨_ | _, m⟩ := outcome <;> rfl

theorem evaluateOperands_rebind (e : Evaluation) (operands : Form) (c : Combiner) :
    (e.rebind new).evaluateOperands operands c = (e.evaluateOperands operands c).rebind new := by
  unfold evaluateOperands
  cases operands.compileArguments c <;> rfl

theorem callEval_rebind (e : Evaluation) (operands : Form) :
    (e.rebind new).callEval operands = (e.callEval operands).rebind new := by
  unfold callEval
  dsimp only
  split
  · rfl
  · split <;> rfl
  · rfl
  · rfl

theorem reinstate_rebind (e : Evaluation) (stack : Stack) (args : Form) :
    (e.rebind new).reinstate stack args = (e.reinstate stack args).rebind new := by
  unfold reinstate
  split <;> rfl

theorem ignores_close (e : Evaluation) (t : Template) : (e.close t).Ignores new := by
  refine Action.ignores_fresh.bind fun id => ?_
  dsimp only
  split
  · exact Action.ignores_wrap _
  · exact .pure _

namespace Ignores

variable (ignores : e.Ignores new)

include ignores

theorem fresh : new e.store.scopes.size = none := ignores.before _ (Nat.le_refl _)

theorem enter (static : ScopeId) (t : Template) (operands : Form) :
    (e.rebind new).enter static t operands = (e.enter static t operands).rebind new := by
  have extended : (e.store.scopes.rebind new).extend (some static) =
      (e.store.scopes.size, (e.store.scopes.extend (some static)).2.rebind new) :=
    e.store.scopes.rebind_extend ignores.fresh (some static)
  have bound := Scopes.rebind_bind ignores.fresh t.parameters operands
    (e.store.scopes.extend (some static)).2
  unfold Evaluation.enter
  rw [scopes_rebind, extended]
  dsimp only
  rw [bound, show (e.store.scopes.extend (some static)).1 = e.store.scopes.size from rfl]
  rcases (e.store.scopes.extend (some static)).2.bind e.store.scopes.size t.parameters operands
    with ⟨_ | _, scopes⟩
  · rfl
  · cases t.formal with
    | symbol name =>
      dsimp only
      rw [Scopes.rebind_define _ ignores.fresh]
      rfl
    | _ => rfl

theorem callNative (n : Native) (operands : Form) :
    (e.rebind new).callNative n operands = (e.callNative n operands).rebind new := by
  have same := Machine.callNative_rebind ignores.before ignores.hosts n
  unfold Evaluation.callNative
  cases operands.operands (·.textDuring n) with
  | error error => rfl
  | ok args =>
    dsimp only
    rw [← settle_rebind, ← same]
    rfl

theorem apply (c : Combiner) (operands : Form) :
    (e.rebind new).apply c operands = (e.apply c operands).rebind new := by
  cases c with
  | operative id static t => exact ignores.enter static t operands
  | applicative id inner => exact e.evaluateOperands_rebind operands inner
  | native n => exact ignores.callNative n operands
  | eval => exact e.callEval_rebind operands
  | continuation stack => exact e.evaluateOperands_rebind operands (.continuation stack)

theorem combine (c : Combiner) (args : Form) :
    (e.rebind new).combine c args = (e.combine c args).rebind new := by
  cases c with
  | continuation stack => exact e.reinstate_rebind stack args
  | operative id static t => exact ignores.apply (.operative id static t) args
  | applicative id inner => exact ignores.apply (.applicative id inner) args
  | native n => exact ignores.apply (.native n) args
  | eval => exact ignores.apply .eval args

theorem handed : e.handed.Ignores new :=
  ⟨ignores.obeys.handed, ignores.hosts, ignores.before⟩

theorem tick : e.tick.Ignores new :=
  ⟨ignores.obeys.tick, ignores.hosts, ignores.before⟩

theorem chain : ∀ d ∈ e.store.scopes.chain e.scope, new d = none :=
  ignores.obeys.machine.scopes.chainOf _ ignores.obeys.scope

theorem execute : (e.rebind new).execute = e.execute.rebind new := by
  have code {code : Code} (here : e.code = code) : (e.rebind new).code = code := here
  have found {c : Combiner} (found : e.combiner = .ok c) : (e.rebind new).combiner = .ok c := found
  cases here : e.code with
  | halt =>
    rw [Evaluation.execute, Evaluation.execute, here, code here]
    rfl
  | refer name next =>
    have same : (e.rebind new).store.scopes.lookup e.scope name = _ :=
      Scopes.lookup_rebind _ ignores.chain name
    rw [execute_refer here, execute_refer (code here), scope_rebind, same]
    cases e.store.scopes.lookup e.scope name <;> rfl
  | constant value next =>
    rw [execute_constant here, execute_constant (code here)]
    rfl
  | close t next =>
    have same := Machine.act_rebind ignores.before (e.ignores_close t)
    rw [execute_close here, execute_close (code here), ← settle_rebind, ← same]
    rfl
  | define parameters next =>
    -- The current scope is one that the discipline allows.
    have bound := Scopes.rebind_bind ignores.obeys.scope parameters e.acc e.store.scopes
    rw [execute_define here, execute_define (code here), scopes_rebind, scope_rebind, acc_rebind,
      bound]
    rcases e.store.scopes.bind e.scope parameters e.acc with ⟨_ | _, scopes⟩ <;> rfl
  | assign name next =>
    have assigned := Scopes.rebind_set _ ignores.chain name e.acc
    rw [execute_assign here, execute_assign (code here), scopes_rebind, scope_rebind, acc_rebind,
      assigned]
    cases e.store.scopes.set e.scope name e.acc <;> rfl
  | test consequent alternative =>
    rw [execute_test here, execute_test (code here)]
    rfl
  | frame resume next =>
    rw [execute_frame here, execute_frame (code here)]
    rfl
  | apply operands =>
    cases found : e.combiner with
    | error error =>
      rw [execute_not_combinable (.inl ⟨_, here⟩) found,
        execute_not_combinable (.inl ⟨_, code here⟩) found]
      rfl
    | ok c =>
      have acc := combiner_eq_ok found
      rw [execute_apply here acc, execute_apply (code here) acc]
      exact ignores.apply c operands
  | argument next =>
    rw [execute_argument here, execute_argument (code here)]
    rfl
  | capture next =>
    rw [execute_capture here, execute_capture (code here)]
    rfl
  | call =>
    cases found : e.combiner with
    | error error =>
      rw [execute_not_combinable (.inr here) found, execute_not_combinable (.inr (code here)) found]
      rfl
    | ok c =>
      have acc := combiner_eq_ok found
      rw [execute_call here acc, execute_call (code here) acc]
      exact ignores.handed.combine c e.arguments
  | ret =>
    cases top : e.stack with
    | empty =>
      have top' : (e.rebind new).stack = .empty := top
      rw [Evaluation.execute, Evaluation.execute, here, code here, top, top']
      rfl
    | push frame rest =>
      have top' : (e.rebind new).stack = .push frame rest := top
      rw [execute_ret here top, execute_ret (code here) top']
      rfl

theorem step : (e.rebind new).step = e.step.rebind new := by
  by_cases exhausted : e.Exhausted
  · obtain ⟨limit, bounded, beyond⟩ := exhausted
    have bounded' : (e.rebind new).limit = some limit := bounded
    rw [step_of_exhausted bounded beyond, step_of_exhausted bounded' beyond]
    rfl
  · have within : ¬ (e.rebind new).Exhausted := exhausted
    rw [step_of_not_exhausted exhausted, step_of_not_exhausted within]
    exact ignores.tick.execute

/-- What is made on the way has numbers that nothing is rebound for. -/
theorem step_next {later : Evaluation} (stepped : e.step = .running later) :
    later.Ignores new := by
  have settings := e.settings_step
  obtain ⟨grows, obeys⟩ := ignores.obeys.step fun _ _ => trivial
  rw [stepped] at settings grows obeys
  have covers : (Discipline.within (new · = none)).Covers e.toMachine later.toMachine :=
    ⟨⟨fun _ _ _ => trivial, fun d low _ => ignores.before d low⟩, fun _ _ _ => trivial⟩
  have hosts : later.hosts.size = 0 := by
    -- Calling a native of the embedding program keeps how many there are.
    have same := congrArg Prod.snd settings
    rwa [show e.settings.2 = 0 from congrArg Array.size ignores.hosts] at same
  exact ⟨obeys trivial covers, Array.eq_empty_of_size_eq_zero hosts,
    ignores.before.trans grows.store.scopes⟩

theorem grows_run {fuel : Nat} {outcome : Except Error Form × Machine}
    (ran : e.run fuel = some outcome) : e.toMachine.Grows outcome.2 :=
  grows_run_of (fun here => (here.obeys.step fun _ _ => trivial).1)
    (fun here stepped => here.step_next stepped) ignores ran

theorem run (fuel : Nat) : (e.rebind new).run fuel =
    (e.run fuel).map fun (result, m) => (result, m.rebind new) := by
  induction fuel generalizing e with
  | zero => rfl
  | succ fuel ih =>
    unfold Evaluation.run
    rw [ignores.step]
    cases stepped : e.step with
    | running later => exact ih (ignores.step_next stepped)
    | finished value m => rfl
    | failed error m => rfl

end Ignores

end Evaluation

structure Machine.Ignores (new : Rebinding) (m : Machine) (form : Form) (scope : ScopeId) :
    Prop where
  hosts : m.hosts = #[]
  scopes : m.store.scopes.Obeys (.within (new · = none))
  before : new.Before m.store.scopes.size
  known : ∀ d, form.Mentions d → new d = none
  kept : new scope = none

namespace Machine.Ignores

variable {m : Machine} {form : Form} {scope : ScopeId} (ignores : m.Ignores new form scope)

include ignores

theorem start {code : Code} (compiled : form.compile .halt = .ok code) :
    (m.start code scope).Ignores new := by
  have hosts : ∀ host ∈ m.hosts, host.Keeps (.within (new · = none)) ∧
      host.memory.Obeys (.within (new · = none)) := by simp [ignores.hosts]
  have body : code.Obeys (.within (new · = none)) :=
    (Form.obeys_within ignores.known).compile (show Code.halt.Obeys _ from trivial) compiled
  exact ⟨⟨⟨ignores.scopes, hosts⟩, trivial, body, ignores.kept, trivial, trivial⟩, ignores.hosts,
    ignores.before⟩

theorem evalIn (fuel : Nat) : (m.rebind new).evalIn fuel form scope =
    (m.evalIn fuel form scope).map fun (result, later) => (result, later.rebind new) := by
  unfold Machine.evalIn
  cases compiled : form.compile .halt with
  | error error => rfl
  | ok code => exact (ignores.start compiled).run fuel

theorem size_evalIn {fuel : Nat} {outcome : Except Error Form × Machine}
    (ran : m.evalIn fuel form scope = some outcome) :
    m.store.scopes.size ≤ outcome.2.store.scopes.size := by
  unfold Machine.evalIn at ran
  split at ran
  · rename_i code compiled
    exact ((ignores.start compiled).grows_run ran).store.scopes
  · cases ran
    exact Nat.le_refl _

end Machine.Ignores

end Vau
