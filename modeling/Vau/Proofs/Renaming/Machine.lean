import Vau.Proofs.Control
import Vau.Proofs.Renaming.Action

/-! A machine does the same under other numbers.

So what it does from some registers on does not depend on how much it made before, only on what the
registers lead to. -/

set_option autoImplicit false

namespace Vau

/-- A native of the embedding program can tell objects apart, but cannot read their numbers. -/
def HostNative.Respects (ρ : Renaming) (host : HostNative) : Prop :=
  ∀ (text : Form → String) (memory : Form) (args : List Form) (store other : Store),
    (∀ f : Form, text (f.rename ρ) = text f) → store.Alike ρ other →
    ∀ result memory' store', host.call text memory args store = ((result, memory'), store') →
      ∃ other', host.call text (memory.rename ρ) (args.map (Form.rename ρ)) other =
        ((result.map (Form.rename ρ), memory'.rename ρ), other') ∧ store'.Alike ρ other'

def HostNative.rename (ρ : Renaming) (host : HostNative) : HostNative :=
  { host with memory := host.memory.rename ρ }

/-- The same machine under other numbers, whatever it counted. -/
structure Machine.Alike (ρ : Renaming) (m other : Machine) : Prop where
  store : m.store.Alike ρ other.store
  hosts : other.hosts = m.hosts.map (HostNative.rename ρ)
  respects : ∀ host ∈ m.hosts, host.Respects ρ
  limit : other.limit = m.limit
  frames : ∀ n : Nat, ρ.frame (m.frames + n) = other.frames + n

/-- The same state under other numbers. Instructions are as many, if that matters. -/
structure Evaluation.Alike (ρ : Renaming) (e other : Evaluation) : Prop where
  machine : e.toMachine.Alike ρ other.toMachine
  steps : e.limit = none ∨ other.steps = e.steps
  acc : other.acc = e.acc.rename ρ
  code : other.code = e.code.rename ρ
  scope : other.scope = e.scope
  pending : other.pending = e.pending.rename ρ
  stack : other.stack = e.stack.rename ρ

inductive Progress.Alike (ρ : Renaming) : Progress → Progress → Prop
  | running {e other : Evaluation} : e.Alike ρ other → Alike ρ (.running e) (.running other)
  | finished {value : Form} {m other : Machine} : m.Alike ρ other →
    Alike ρ (.finished value m) (.finished (value.rename ρ) other)
  | failed {error : Error} {m other : Machine} : m.Alike ρ other →
    Alike ρ (.failed error m) (.failed error other)

def SettledAlike (ρ : Renaming) (outcome outcome' : Except Error Form × Machine) : Prop :=
  outcome'.1 = outcome.1.map (Form.rename ρ) ∧ outcome.2.Alike ρ outcome'.2

variable {ρ : Renaming}

theorem Machine.Obeys.rename_hosts_eq {D : Discipline} (fixes : ρ.Fixes D) {m : Machine}
    (obeys : m.Obeys D) : m.hosts.map (HostNative.rename ρ) = m.hosts := by
  refine (Array.map_congr_left fun host member => ?_).trans m.hosts.map_id
  obtain ⟨_, memory⟩ := obeys.hosts host member
  rw [HostNative.rename, memory.rename_eq fixes]
  rfl

namespace Machine.Alike

variable {m other : Machine}

theorem withStore (alike : m.Alike ρ other) {store store' : Store} (new : store.Alike ρ store') :
    ({ m with store } : Machine).Alike ρ { other with store := store' } :=
  ⟨new, alike.hosts, alike.respects, alike.limit, alike.frames⟩

theorem withScopes (alike : m.Alike ρ other) {scopes scopes' : Scopes}
    (same : scopes' = scopes.rename ρ) :
    ({ m with store.scopes := scopes } : Machine).Alike ρ { other with store.scopes := scopes' } :=
  alike.withStore ⟨same, alike.store.fresh, alike.store.output⟩

theorem counted (alike : m.Alike ρ other) (stats stats' : Stats) :
    ({ m with stats } : Machine).Alike ρ { other with stats := stats' } :=
  ⟨alike.store, alike.hosts, alike.respects, alike.limit, alike.frames⟩

theorem act (alike : m.Alike ρ other) {action action' : Action Form}
    (renames : Action.Renames ρ (Form.rename ρ) action action') :
    SettledAlike ρ (m.act action) (other.act action') := by
  obtain ⟨same, store⟩ := renames m.store other.store alike.store
  exact ⟨same, alike.withStore store⟩

theorem getElem?_hosts (alike : m.Alike ρ other) (index : Nat) :
    other.hosts[index]? = m.hosts[index]?.map (HostNative.rename ρ) := by
  rw [alike.hosts, Array.getElem?_map]

theorem remember (alike : m.Alike ρ other) (index : Nat) (memory : Form) {store store' : Store}
    (new : store.Alike ρ store') :
    ({ m with store, hosts := m.hosts.modify index ({ · with memory }) } : Machine).Alike ρ
      { other with
        store := store'
        hosts := other.hosts.modify index ({ · with memory := memory.rename ρ }) } := by
  refine ⟨new, ?_, fun host member => ?_, alike.limit, alike.frames⟩
  · refine Array.ext_getElem? fun i => ?_
    simp only [Array.getElem?_modify, Array.getElem?_map, alike.getElem?_hosts]
    split
    · cases m.hosts[i]? <;> rfl
    · rfl
  · obtain ⟨i, bound, same⟩ := Array.mem_iff_getElem.mp member
    simp only [Array.size_modify] at bound
    rw [Array.getElem_modify] at same
    have old := alike.respects _ (Array.getElem_mem bound)
    split at same
    · exact same ▸ old
    · exact same ▸ old

theorem callNative (alike : m.Alike ρ other) (n : Native) (args : List Form) :
    SettledAlike ρ (m.callNative n args) (other.callNative n (args.map (Form.rename ρ))) := by
  have own {result : Except Error Form} (mark : Error → Error) :
      (result.map (Form.rename ρ)).mapError mark = (result.mapError mark).map (Form.rename ρ) := by
    cases result <;> rfl
  cases n with
  | primitive p =>
    obtain ⟨same, after⟩ := alike.act (Primitive.renames_call p args)
    refine ⟨?_, after⟩
    change ((other.act (p.call (args.map (Form.rename ρ)))).1).mapError _ = _
    rw [same, own]
    rfl
  | host index name =>
    unfold Machine.callNative
    dsimp only
    rw [alike.getElem?_hosts]
    cases found : m.hosts[index]? with
    | none => exact ⟨rfl, alike⟩
    | some host =>
      -- All that is known of such a native is that it respects the renaming.
      have respects := alike.respects host (Array.mem_of_getElem? found)
      rcases ran : host.call (·.textDuring (.host index name)) host.memory args m.store with
        ⟨⟨result, memory⟩, store⟩
      obtain ⟨store', ran', new⟩ := respects (·.textDuring (.host index name)) _ args m.store
        other.store (fun f => f.textDuring_rename _) alike.store _ _ _ ran
      dsimp only [Option.map_some, HostNative.rename]
      rw [ran, ran']
      exact ⟨own _, alike.remember index memory new⟩

end Machine.Alike

namespace Evaluation.Alike

variable {e other : Evaluation}

theorem fail (alike : e.Alike ρ other) (error : Error) :
    (e.fail error).Alike ρ (other.fail error) :=
  .failed alike.machine

theorem goes (alike : e.Alike ρ other) (value : Form) (code : Code) :
    ({ e with acc := value, code } : Evaluation).Alike ρ
      { other with acc := value.rename ρ, code := code.rename ρ } :=
  ⟨alike.machine, alike.steps, rfl, rfl, alike.scope, alike.pending, alike.stack⟩

theorem settle (alike : e.Alike ρ other) (code : Code)
    {outcome outcome' : Except Error Form × Machine}
    (settled : SettledAlike ρ outcome outcome') (limit : outcome.2.limit = e.limit) :
    (e.settle code outcome).Alike ρ (other.settle (code.rename ρ) outcome') := by
  obtain ⟨result, m⟩ := outcome
  obtain ⟨result', m'⟩ := outcome'
  obtain ⟨same, after⟩ := settled
  cases same
  cases result with
  | error error => exact .failed after
  | ok value =>
    refine .running ⟨after, ?_, rfl, rfl, alike.scope, alike.pending, alike.stack⟩
    exact alike.steps.imp_left limit.trans

theorem combiner (alike : e.Alike ρ other) :
    other.combiner = e.combiner.map (Combiner.rename ρ) := by
  have text := e.acc.text_rename (ρ := ρ)
  unfold Evaluation.combiner
  rw [alike.acc]
  cases acc : e.acc with
  | pair id car cdr =>
    rw [acc] at text
    simp only [Form.rename] at text ⊢
    rw [text]
    rfl
  | _ => rfl

theorem enter (alike : e.Alike ρ other) (static : ScopeId) (t : Template) (operands : Form) :
    (e.enter static t operands).Alike ρ
      (other.enter static (t.rename ρ) (operands.rename ρ)) := by
  obtain ⟨parameters, formal, source, body, wraps⟩ := t
  have extended := e.store.scopes.rename_extend (ρ := ρ) (some static)
  rw [← alike.machine.store.scopes] at extended
  unfold Evaluation.enter
  rw [extended]
  dsimp only [Template.rename]
  rw [Scopes.bind_rename]
  rcases (e.store.scopes.extend (some static)).2.bind (e.store.scopes.extend (some static)).1
    parameters operands with ⟨_ | _, scopes⟩
  · exact .failed (alike.machine.withScopes rfl)
  · refine .running ⟨alike.machine.withScopes ?_, alike.steps, alike.acc, rfl, rfl, alike.pending,
      alike.stack⟩
    cases formal with
    | symbol name =>
      dsimp only [Form.rename]
      rw [alike.scope, Scopes.rename_define]
      rfl
    | _ => rfl

theorem evaluateOperands (alike : e.Alike ρ other) (operands : Form) (c : Combiner) :
    (e.evaluateOperands operands c).Alike ρ
      (other.evaluateOperands (operands.rename ρ) (c.rename ρ)) := by
  have name : other.acc.combiner?.bind Combiner.name? = e.acc.combiner?.bind Combiner.name? := by
    rw [alike.acc, Form.combiner?_rename]
    cases e.acc.combiner? with
    | none => rfl
    | some c => exact c.name?_rename
  unfold Evaluation.evaluateOperands
  rw [Form.compileArguments_rename]
  cases operands.compileArguments c with
  | ok code =>
    exact .running ⟨alike.machine, alike.steps, alike.acc, rfl, alike.scope, rfl, alike.stack⟩
  | error error =>
    dsimp only [Except.map]
    rw [name]
    exact alike.fail _

theorem callNative (alike : e.Alike ρ other) (n : Native) (operands : Form) :
    (e.callNative n operands).Alike ρ (other.callNative n (operands.rename ρ)) := by
  have proper : (operands.rename ρ).operands (·.textDuring n) = _ :=
    operands.operands_rename fun f => f.textDuring_rename n
  unfold Evaluation.callNative
  rw [proper]
  cases operands.operands (·.textDuring n) with
  | error error => exact alike.fail _
  | ok args =>
    have settings := Machine.fixed_settings.steady.callNative e.toMachine n args
    exact alike.settle .ret (alike.machine.callNative n args) (congrArg Prod.fst settings)

theorem callEval (alike : e.Alike ρ other) (operands : Form) :
    (e.callEval operands).Alike ρ (other.callEval (operands.rename ρ)) := by
  unfold Evaluation.callEval
  rw [Form.operands_rename _ Form.text_rename]
  generalize operands.operands Form.text = parsed
  rcases parsed with error | ⟨_ | ⟨form, _ | ⟨second, _ | ⟨third, rest⟩⟩⟩⟩
  · exact alike.fail _
  · exact alike.fail _
  · exact alike.fail _
  · have text := second.text_rename (ρ := ρ)
    cases second with
    | environment scope =>
      have compiled := form.compile_rename (ρ := ρ) .ret
      simp only [Code.rename] at compiled
      dsimp only [Except.map, List.map, Form.rename]
      rw [compiled]
      cases form.compile .ret with
      | error error => exact alike.fail error
      | ok code =>
        exact .running ⟨alike.machine, alike.steps, alike.acc, rfl, rfl, alike.pending, alike.stack⟩
    | pair | combiner =>
      simp only [Form.rename] at text
      dsimp only [Except.map, List.map, Form.rename]
      rw [text]
      exact alike.fail _
    | _ => exact alike.fail _
  · dsimp only [Except.map]
    rw [List.map_cons, List.map_cons, List.map_cons]
    cases second <;> simp only [Form.rename, List.length_cons, List.length_map] <;>
      exact alike.fail _

theorem apply (alike : e.Alike ρ other) (c : Combiner) (operands : Form) :
    (e.apply c operands).Alike ρ (other.apply (c.rename ρ) (operands.rename ρ)) := by
  cases c with
  | operative id scope t => exact alike.enter scope t operands
  | applicative id inner => exact alike.evaluateOperands operands inner
  | native n => exact alike.callNative n operands
  | eval => exact alike.callEval operands
  | continuation stack => exact alike.evaluateOperands operands (.continuation stack)

theorem reinstate (alike : e.Alike ρ other) (stack : Stack) (args : Form) :
    (e.reinstate stack args).Alike ρ (other.reinstate (stack.rename ρ) (args.rename ρ)) := by
  have text := args.text_rename (ρ := ρ)
  have returned (value : Form) :
      ({ e with acc := value, code := .ret, stack } : Evaluation).Alike ρ
        { other with acc := value.rename ρ, code := .ret, stack := stack.rename ρ } :=
    ⟨alike.machine, alike.steps, rfl, rfl, alike.scope, alike.pending, rfl⟩
  unfold Evaluation.reinstate
  cases args with
  | nil => exact .running (returned .inert)
  | pair id value rest =>
    cases rest with
    | nil => exact .running (returned value)
    | _ =>
      simp only [Form.rename] at text ⊢
      rw [text]
      exact alike.fail _
  | combiner c =>
    simp only [Form.rename] at text ⊢
    rw [text]
    exact alike.fail _
  | _ => exact alike.fail _

theorem combine (alike : e.Alike ρ other) (c : Combiner) (args : Form) :
    (e.combine c args).Alike ρ (other.combine (c.rename ρ) (args.rename ρ)) := by
  cases c with
  | continuation stack => exact alike.reinstate stack args
  | operative id scope t => exact alike.apply (.operative id scope t) args
  | applicative id inner => exact alike.apply (.applicative id inner) args
  | native n => exact alike.apply (.native n) args
  | eval => exact alike.apply .eval args

theorem lookup (alike : e.Alike ρ other) (name : String) :
    other.store.scopes.lookup other.scope name =
      (e.store.scopes.lookup e.scope name).map (Form.rename ρ) := by
  rw [alike.machine.store.scopes, alike.scope]
  exact e.store.scopes.lookup_rename e.scope name

theorem bind (alike : e.Alike ρ other) (parameters : Form) :
    other.store.scopes.bind other.scope (parameters.rename ρ) other.acc =
      ((e.store.scopes.bind e.scope parameters e.acc).1,
        (e.store.scopes.bind e.scope parameters e.acc).2.rename ρ) := by
  rw [alike.machine.store.scopes, alike.scope, alike.acc]
  exact Scopes.bind_rename parameters e.acc e.store.scopes e.scope

theorem set (alike : e.Alike ρ other) (name : String) :
    other.store.scopes.set other.scope name other.acc =
      (e.store.scopes.set e.scope name e.acc).map (Scopes.rename ρ) := by
  rw [alike.machine.store.scopes, alike.scope, alike.acc]
  exact e.store.scopes.set_rename e.scope name e.acc

theorem renames_close (alike : e.Alike ρ other) (t : Template) :
    Action.Renames ρ (Form.rename ρ) (e.close t) (other.close (t.rename ρ)) := by
  have wraps : (t.rename ρ).wraps = t.wraps := by cases t; rfl
  unfold Evaluation.close
  rw [alike.scope, wraps]
  refine Action.renames_fresh.bind fun id => ?_
  dsimp only
  split
  · exact Action.renames_wrap (.operative id e.scope t)
  · exact .pure (Form.combiner (.operative id e.scope t))

theorem arguments (alike : e.Alike ρ other) : other.arguments = e.arguments.rename ρ := by
  have chain := ρ.likeness.chain e.pending.items.reverse .nil alike.machine.store.fresh
  unfold Evaluation.arguments
  rw [alike.pending, Form.items_rename, ← List.map_reverse]
  exact congrArg Prod.fst chain

theorem handed (alike : e.Alike ρ other) : e.handed.Alike ρ other.handed := by
  have count : other.pending.items.length = e.pending.items.length := by
    rw [alike.pending, Form.items_rename, List.length_map]
  have store : e.handed.store.Alike ρ other.handed.store := by
    refine ⟨alike.machine.store.scopes, fun n => ?_, alike.machine.store.output⟩
    rw [Evaluation.fresh_handed, Evaluation.fresh_handed, count]
    exact (alike.machine.store.numbered _).fresh n
  exact ⟨alike.machine.withStore store, alike.steps, alike.acc, alike.code, alike.scope, rfl,
    alike.stack⟩

theorem pend (alike : e.Alike ρ other) (value pending : Form) (code : Code) :
    ({ ({ e with acc := value } : Evaluation).pend pending with code } : Evaluation).Alike ρ
      { ({ other with acc := value.rename ρ } : Evaluation).pend (pending.rename ρ) with
        code := code.rename ρ } := by
  refine ⟨alike.machine.withStore (alike.machine.store.numbered 1), alike.steps, rfl, rfl,
    alike.scope, ?_, alike.stack⟩
  change Form.pair other.store.fresh _ _ = Form.pair (ρ.object e.store.fresh) _ _
  rw [alike.machine.store.next]

theorem push (alike : e.Alike ρ other) (resume code : Code) :
    ({ e.push resume with code } : Evaluation).Alike ρ
      { other.push (resume.rename ρ) with code := code.rename ρ } := by
  have frame := alike.machine.frames 0
  refine ⟨⟨alike.machine.store, alike.machine.hosts, alike.machine.respects, alike.machine.limit,
    fun n => ?_⟩, alike.steps, alike.acc, rfl, alike.scope, alike.pending, ?_⟩
  · have shift := alike.machine.frames (1 + n)
    rwa [← Nat.add_assoc, ← Nat.add_assoc] at shift
  · change other.stack.extend other.frames (resume.rename ρ) other.scope other.pending =
      (e.stack.extend e.frames resume e.scope e.pending).rename ρ
    rw [Stack.rename_extend, alike.stack, alike.scope, alike.pending]
    exact congrArg (fun id => Stack.extend _ id _ _ _) frame.symm

theorem pop (alike : e.Alike ρ other) (frame : Frame) (rest : Stack) :
    (e.pop frame rest).Alike ρ (other.pop (frame.rename ρ) (rest.rename ρ)) := by
  obtain ⟨id, depth, resume, scope, pending⟩ := frame
  exact ⟨alike.machine.counted _ _, alike.steps, alike.acc, rfl, rfl, rfl, rfl⟩

theorem tick (alike : e.Alike ρ other) : e.tick.Alike ρ other.tick :=
  ⟨alike.machine.counted _ _, alike.steps.imp_right (congrArg (· + 1)), alike.acc, alike.code,
    alike.scope, alike.pending, alike.stack⟩

theorem execute (alike : e.Alike ρ other) : e.execute.Alike ρ other.execute := by
  -- Both sides are at the same instruction, with the numbers of their side in it.
  have code {code : Code} (here : e.code = code) : other.code = code.rename ρ :=
    here ▸ alike.code
  cases here : e.code with
  | halt =>
    rw [Evaluation.execute, Evaluation.execute, here, code here]
    dsimp only [Code.rename]
    rw [alike.acc]
    exact .finished alike.machine
  | refer name next =>
    rw [execute_refer here, execute_refer (code here), alike.lookup]
    cases e.store.scopes.lookup e.scope name with
    | ok value => exact .running (alike.goes value next)
    | error error => exact alike.fail error
  | constant value next =>
    rw [execute_constant here, execute_constant (code here)]
    exact .running (alike.goes value next)
  | close t next =>
    rw [execute_close here, execute_close (code here)]
    exact alike.settle next (alike.machine.act (alike.renames_close t)) rfl
  | define parameters next =>
    rw [execute_define here, execute_define (code here), alike.bind]
    rcases e.store.scopes.bind e.scope parameters e.acc with ⟨_ | _, scopes⟩
    · exact .failed (alike.machine.withScopes rfl)
    · exact .running ⟨alike.machine.withScopes rfl, alike.steps, rfl, rfl, alike.scope,
        alike.pending, alike.stack⟩
  | assign name next =>
    rw [execute_assign here, execute_assign (code here), alike.set]
    cases e.store.scopes.set e.scope name e.acc with
    | error error => exact alike.fail error
    | ok scopes =>
      exact .running ⟨alike.machine.withScopes rfl, alike.steps, rfl, rfl, alike.scope,
        alike.pending, alike.stack⟩
  | test consequent alternative =>
    have holds : other.acc.isFalse = e.acc.isFalse := by rw [alike.acc, Form.isFalse_rename]
    rw [execute_test here, execute_test (code here), holds]
    refine .running ⟨alike.machine, alike.steps, alike.acc, ?_, alike.scope, alike.pending,
      alike.stack⟩
    dsimp only
    split <;> rfl
  | frame resume next =>
    rw [execute_frame here, execute_frame (code here)]
    exact .running (alike.push resume next)
  | apply operands =>
    have combiner := alike.combiner
    cases found : e.combiner with
    | error error =>
      rw [found] at combiner
      rw [execute_not_combinable (.inl ⟨_, here⟩) found,
        execute_not_combinable (.inl ⟨_, code here⟩) combiner]
      exact alike.fail error
    | ok c =>
      rw [found] at combiner
      rw [execute_apply here (combiner_eq_ok found),
        execute_apply (code here) (combiner_eq_ok combiner)]
      exact alike.apply c operands
  | argument next =>
    rw [execute_argument here, execute_argument (code here)]
    have pended := alike.pend e.acc e.pending next
    rw [← alike.acc, ← alike.pending] at pended
    exact .running pended
  | capture next =>
    have pended := alike.pend (.combiner (.continuation e.stack)) .nil next
    simp only [Form.rename, Combiner.rename, ← alike.stack] at pended
    rw [execute_capture here, execute_capture (code here)]
    exact .running pended
  | call =>
    have combiner := alike.combiner
    cases found : e.combiner with
    | error error =>
      rw [found] at combiner
      rw [execute_not_combinable (.inr here) found,
        execute_not_combinable (.inr (code here)) combiner]
      exact alike.fail error
    | ok c =>
      rw [found] at combiner
      rw [execute_call here (combiner_eq_ok found),
        execute_call (code here) (combiner_eq_ok combiner), alike.arguments]
      exact alike.handed.combine c e.arguments
  | ret =>
    have stack := alike.stack
    cases top : e.stack with
    | empty =>
      rw [top] at stack
      rw [Evaluation.execute, Evaluation.execute, here, code here, top]
      dsimp only [Code.rename]
      rw [stack, alike.acc]
      exact .finished alike.machine
    | push frame rest =>
      rw [top] at stack
      rw [execute_ret here top, execute_ret (code here) stack]
      exact .running (alike.pop frame rest)

theorem exhausted (alike : e.Alike ρ other) {limit : Nat} (bounded : e.limit = some limit)
    (beyond : limit < e.steps + 1) : other.limit = some limit ∧ limit < other.steps + 1 := by
  have steps : other.steps = e.steps := by
    refine alike.steps.resolve_left fun unbounded => ?_
    cases bounded.symm.trans unbounded
  exact ⟨alike.machine.limit.trans bounded, steps ▸ beyond⟩

theorem within (alike : e.Alike ρ other) (within : ¬ e.Exhausted) : ¬ other.Exhausted := by
  rintro ⟨limit, bounded, beyond⟩
  have bounded : e.limit = some limit := alike.machine.limit.symm.trans bounded
  refine alike.steps.elim (fun unbounded => ?_) fun steps => ?_
  · cases bounded.symm.trans unbounded
  · exact within ⟨limit, bounded, steps ▸ beyond⟩

theorem step (alike : e.Alike ρ other) : e.step.Alike ρ other.step := by
  by_cases exhausted : e.Exhausted
  · obtain ⟨limit, bounded, beyond⟩ := exhausted
    obtain ⟨bounded', beyond'⟩ := alike.exhausted bounded beyond
    rw [step_of_exhausted bounded beyond, step_of_exhausted bounded' beyond']
    exact .failed alike.tick.machine
  · rw [step_of_not_exhausted exhausted, step_of_not_exhausted (alike.within exhausted)]
    exact alike.tick.execute

end Evaluation.Alike

def Outcome.Alike (ρ : Renaming) : Outcome → Outcome → Prop
  | some outcome, some outcome' => SettledAlike ρ outcome outcome'
  | none, none => True
  | _, _ => False

theorem Evaluation.Alike.run {e other : Evaluation} (alike : e.Alike ρ other) (fuel : Nat) :
    Outcome.Alike ρ (e.run fuel) (other.run fuel) := by
  induction fuel generalizing e other with
  | zero => trivial
  | succ fuel ih =>
    have step := alike.step
    unfold Evaluation.run
    cases here : e.step <;> cases there : other.step <;> rw [here, there] at step <;> cases step
    case running next alike => exact ih alike
    case finished alike => exact ⟨rfl, alike⟩
    case failed alike => exact ⟨rfl, alike⟩

end Vau
