import Vau.Proofs.Discipline.Machine

/-! What one instruction does to the code, the pending arguments and the control stack.

Laws of control are read off these cases; none of them opens the machine again. -/

set_option autoImplicit false

namespace Vau

/-- Where plain instructions lead, which change neither the stack nor the pending arguments. -/
def Code.links : Code → List Code
  | refer _ next | constant _ next | close _ next | define _ next | assign _ next => [next]
  | test consequent alternative => [consequent, alternative]
  | frame .. | apply _ | argument _ | capture _ | halt | call | ret => []

def Evaluation.Combines (e : Evaluation) : Prop :=
  (∃ operands, e.code = .apply operands) ∨ e.code = .call

inductive Evaluation.Moves (e next : Evaluation) : Prop
  | along : next.code ∈ e.code.links → next.scope = e.scope → next.pending = e.pending →
    next.stack = e.stack → Moves e next
  | pend : e.code = .argument next.code → next.scope = e.scope →
    next.pending = .pair e.store.fresh e.acc e.pending → next.stack = e.stack → Moves e next
  | capture : e.code = .capture next.code → next.scope = e.scope →
    next.acc = .combiner (.continuation e.stack) →
    next.pending = .pair e.store.fresh next.acc .nil → next.stack = e.stack → Moves e next
  | push {resume : Code} : e.code = .frame resume next.code → next.scope = e.scope →
    next.pending = e.pending → next.stack = e.stack.extend e.frames resume e.scope e.pending →
    Moves e next
  | pop {frame : Frame} : e.code = .ret → e.stack = .push frame next.stack →
    next.code = frame.resume → next.scope = frame.scope → next.pending = frame.pending →
    next.acc = e.acc → Moves e next
  | enter {id : Identity} {static : ScopeId} {t : Template} : e.Combines →
    e.acc = .combiner (.operative id static t) → next.code = t.body → next.stack = e.stack →
    Moves e next
  | unwrap {id : Identity} {inner : Combiner} {xs : List Expr} : e.Combines →
    e.acc = .combiner (.applicative id inner) →
    next.code = Expr.operandsCode xs (.constant (.combiner inner) .call) → next.scope = e.scope →
    next.pending = .nil → next.stack = e.stack → Moves e next
  | supply {operands : Form} {stack : Stack} {xs : List Expr} : e.code = .apply operands →
    e.acc = .combiner (.continuation stack) →
    next.code = Expr.operandsCode xs (.constant e.acc .call) → next.scope = e.scope →
    next.pending = .nil → next.stack = e.stack → Moves e next
  | native {n : Native} : e.Combines → e.acc = .combiner (.native n) → next.code = .ret →
    next.stack = e.stack → Moves e next
  | eval {form : Form} {x : Expr} : e.Combines → e.acc = .combiner .eval → form.Reads x →
    next.code = x.code .ret → next.stack = e.stack → Moves e next
  | reinstate {stack : Stack} : e.code = .call → e.acc = .combiner (.continuation stack) →
    next.code = .ret → next.stack = stack → Moves e next

structure Resumption where
  code : Code
  scope : ScopeId
  pending : Form
  stack : Stack

/-- The state goes on there with the value. A return reads neither scope nor arguments. -/
structure Resumption.Receives (there : Resumption) (value : Form) (e : Evaluation) : Prop where
  acc : e.acc = value
  code : e.code = there.code
  stack : e.stack = there.stack
  registers : there.code ≠ .ret → e.scope = there.scope ∧ e.pending = there.pending

def Machine.settings (m : Machine) : Option Nat × Nat := (m.limit, m.hosts.size)

def Machine.natives (m : Machine) :
    Array ((Form → String) → Form → List Form → StateM Store (Except Error Form × Form)) :=
  m.hosts.map HostNative.call

/-- The part of a machine depends neither on its store nor on what its natives remember. -/
def Machine.Steady {α : Type} (part : Machine → α) : Prop :=
  ∀ (m : Machine) (store : Store) (hosts : Array HostNative),
    hosts.map HostNative.call = m.natives → part { m with store, hosts } = part m

/-- Nor does it depend on the counters. -/
def Machine.Fixed {α : Type} (part : Machine → α) : Prop :=
  ∀ (m : Machine) (store : Store) (hosts : Array HostNative) (stats : Stats) (frames : Identity),
    hosts.map HostNative.call = m.natives → part { m with store, hosts, stats, frames } = part m

namespace Machine

variable {α : Type} {part : Machine → α}

theorem fixed_settings : Fixed settings := fun m _ hosts _ _ natives => by
  have size := congrArg Array.size natives
  unfold Machine.natives at size
  rw [Array.size_map, Array.size_map] at size
  exact congrArg (m.limit, ·) size

theorem fixed_natives : Fixed natives := fun _ _ _ _ _ natives => natives

theorem Fixed.steady (fixed : Fixed part) : Steady part :=
  fun m store hosts => fixed m store hosts m.stats m.frames

theorem Steady.callNative (steady : Steady part) (m : Machine) (n : Native) (args : List Form) :
    part (m.callNative n args).2 = part m := by
  cases n with
  | primitive p => exact steady m _ m.hosts rfl
  | host index name =>
    unfold Machine.callNative
    dsimp only
    split
    · refine steady m _ _ (Array.ext_getElem? fun i => ?_)
      unfold natives
      rw [Array.getElem?_map, Array.getElem?_map, Array.getElem?_modify]
      split
      · rw [Option.map_map]
        rfl
      · rfl
    · rfl

end Machine

variable {e next : Evaluation}

namespace Evaluation

def resumption (e : Evaluation) (next : Code) : Resumption :=
  ⟨next, e.scope, e.pending, e.stack⟩

section

variable {name : String} {value : Form} {code : Code}

theorem execute_refer (here : e.code = .refer name code) :
    e.execute = match e.store.scopes.lookup e.scope name with
      | .ok value => .running { e with acc := value, code }
      | .error error => e.fail error := by
  cases e
  cases here
  rfl

theorem execute_constant (here : e.code = .constant value code) :
    e.execute = .running { e with acc := value, code } := by
  rw [execute, here]

theorem execute_close {t : Template} (here : e.code = .close t code) :
    e.execute = e.settle code (e.act (e.close t)) := by
  rw [execute, here]

theorem execute_define {parameters : Form} (here : e.code = .define parameters code) :
    e.execute = match e.store.scopes.bind e.scope parameters e.acc with
      | (.ok (), scopes) => .running { e with store.scopes := scopes, acc := .inert, code }
      | (.error error, scopes) => .failed error { e.toMachine with store.scopes := scopes } := by
  cases e
  cases here
  rfl

theorem execute_assign (here : e.code = .assign name code) :
    e.execute = match e.store.scopes.set e.scope name e.acc with
      | .ok scopes => .running { e with store.scopes := scopes, acc := .inert, code }
      | .error error => e.fail error := by
  cases e
  cases here
  rfl

theorem execute_test {consequent alternative : Code}
    (here : e.code = .test consequent alternative) :
    e.execute = .running { e with code := if e.acc.isFalse then alternative else consequent } := by
  rw [execute, here]

theorem execute_frame {resume : Code} (here : e.code = .frame resume code) :
    e.execute = .running { e.push resume with code } := by
  rw [execute, here]

theorem execute_argument (here : e.code = .argument code) :
    e.execute = .running { e.pend e.pending with code } := by
  rw [execute, here]

theorem execute_ret (here : e.code = .ret) {frame : Frame} {rest : Stack}
    (top : e.stack = .push frame rest) : e.execute = .running (e.pop frame rest) := by
  rw [execute, here, top]

theorem execute_capture (here : e.code = .capture code) :
    e.execute =
      .running { { e with acc := .combiner (.continuation e.stack) }.pend .nil with code } := by
  rw [execute, here]

theorem execute_not_combinable (here : e.Combines) {error : Error}
    (missing : e.combiner = .error error) : e.execute = e.fail error := by
  rcases here with ⟨operands, here⟩ | here <;> rw [execute, here] <;> simp only [missing]

end

theorem execute_apply {operands : Form} (here : e.code = .apply operands) {c : Combiner}
    (acc : e.acc = .combiner c) : e.execute = e.apply c operands := by
  simp only [execute, here, combiner, acc]

theorem execute_call (here : e.code = .call) {c : Combiner} (acc : e.acc = .combiner c) :
    e.execute = e.handed.combine c e.arguments := by
  have found : e.combiner = .ok c := by rw [combiner, acc]
  unfold execute
  rw [here]
  dsimp only
  rw [found]
  rfl

theorem combiner_eq_ok {c : Combiner} (found : e.combiner = .ok c) : e.acc = .combiner c := by
  unfold combiner at found
  split at found
  · cases found
    assumption
  · cases found

theorem running_of_settle {code : Code} {outcome : Except Error Form × Machine}
    (settled : e.settle code outcome = .running next) :
    next.code = code ∧ next.scope = e.scope ∧ next.pending = e.pending ∧ next.stack = e.stack := by
  obtain ⟨result, m⟩ := outcome
  cases result with
  | ok v =>
    cases settled
    exact ⟨rfl, rfl, rfl, rfl⟩
  | error error => cases settled

theorem running_of_enter {static : ScopeId} {t : Template} {operands : Form}
    (entered : e.enter static t operands = .running next) :
    next.code = t.body ∧ next.stack = e.stack := by
  unfold enter at entered
  dsimp only at entered
  split at entered
  · cases entered
  · cases entered
    exact ⟨rfl, rfl⟩

theorem compiled_of_evaluateOperands {operands : Form} {c : Combiner}
    (evaluating : e.evaluateOperands operands c = .running next) :
    operands.compileArguments c = .ok next.code ∧ next.pending = .nil := by
  unfold evaluateOperands at evaluating
  split at evaluating
  · rename_i code compiled
    cases evaluating
    exact ⟨compiled, rfl⟩
  · cases evaluating

theorem running_of_evaluateOperands {operands : Form} {c : Combiner}
    (evaluating : e.evaluateOperands operands c = .running next) :
    (∃ xs, next.code = Expr.operandsCode xs (.constant (.combiner c) .call)) ∧
      next.scope = e.scope ∧ next.pending = .nil ∧ next.stack = e.stack := by
  unfold evaluateOperands at evaluating
  split at evaluating
  · rename_i code compiled
    cases evaluating
    obtain ⟨_, xs, _, _, same⟩ := Form.compileArguments_eq_ok compiled
    exact ⟨⟨xs, same⟩, rfl, rfl, rfl⟩
  · cases evaluating

theorem running_of_callNative {n : Native} {operands : Form}
    (called : e.callNative n operands = .running next) :
    next.code = .ret ∧ next.stack = e.stack := by
  unfold callNative at called
  split at called
  · obtain ⟨code, _, _, stack⟩ := running_of_settle called
    exact ⟨code, stack⟩
  · cases called

theorem running_of_callEval {operands : Form} (called : e.callEval operands = .running next) :
    ∃ (form : Form) (x : Expr), form.Reads x ∧ next.code = x.code .ret ∧ next.stack = e.stack := by
  unfold callEval at called
  dsimp only at called
  split at called
  · cases called
  · rename_i form scope proper
    split at called
    · rename_i code compiled
      cases called
      obtain ⟨x, read, same⟩ := Form.compile_eq_ok.mp compiled
      exact ⟨form, x, read, same, rfl⟩
    · cases called
  · cases called
  · cases called

theorem combine_eq_apply {c : Combiner} (other : ∀ k, c ≠ .continuation k) (args : Form) :
    e.combine c args = e.apply c args := by
  cases c with
  | continuation k => exact (other k rfl).elim
  | _ => rfl

section

variable {value : Form} {m : Machine}

theorem settle_ne_finished {code : Code} {outcome : Except Error Form × Machine} :
    e.settle code outcome ≠ .finished value m := by
  obtain ⟨result, m⟩ := outcome
  cases result <;> nofun

theorem apply_ne_finished {c : Combiner} {operands : Form} :
    e.apply c operands ≠ .finished value m := by
  have evaluating {c : Combiner} : e.evaluateOperands operands c ≠ .finished value m := by
    unfold evaluateOperands
    split <;> nofun
  cases c with
  | operative id static t =>
    change e.enter static t operands ≠ _
    unfold enter
    dsimp only
    split <;> nofun
  | applicative id inner => exact evaluating
  | native n =>
    change e.callNative n operands ≠ _
    unfold callNative
    split
    · exact settle_ne_finished
    · nofun
  | continuation k => exact evaluating
  | eval =>
    change e.callEval operands ≠ _
    unfold callEval
    dsimp only
    split
    · nofun
    · split <;> nofun
    · nofun
    · nofun

theorem combine_ne_finished {c : Combiner} {args : Form} :
    e.combine c args ≠ .finished value m := by
  cases c with
  | continuation stack =>
    change e.reinstate stack args ≠ _
    unfold reinstate
    split <;> nofun
  | operative | applicative | native | eval =>
    rw [combine_eq_apply (fun k => by nofun)]
    exact apply_ne_finished

end

theorem moves_of_apply {caller : Evaluation} {c : Combiner} {operands : Form}
    (combines : e.Combines) (acc : e.acc = .combiner c) (scope : caller.scope = e.scope)
    (stack : caller.stack = e.stack) (other : ∀ k, c ≠ .continuation k)
    (applied : caller.apply c operands = .running next) : e.Moves next := by
  cases c with
  | operative id static t =>
    obtain ⟨code, kept⟩ := running_of_enter applied
    exact .enter combines acc code (kept.trans stack)
  | applicative id inner =>
    obtain ⟨⟨xs, code⟩, scope', pending, kept⟩ := running_of_evaluateOperands applied
    exact .unwrap combines acc code (scope'.trans scope) pending (kept.trans stack)
  | native n =>
    obtain ⟨code, kept⟩ := running_of_callNative applied
    exact .native combines acc code (kept.trans stack)
  | continuation k => exact (other k rfl).elim
  | eval =>
    obtain ⟨form, x, read, code, kept⟩ := running_of_callEval applied
    exact .eval combines acc read code (kept.trans stack)

theorem moves_of_handed {c : Combiner} (here : e.code = .call) (acc : e.acc = .combiner c)
    (other : ∀ k, c ≠ .continuation k) (combined : e.handed.combine c e.arguments = .running next) :
    e.Moves next := by
  rw [combine_eq_apply other] at combined
  exact moves_of_apply (.inr here) acc (rfl : e.handed.scope = _) (rfl : e.handed.stack = _) other
    combined

theorem moves_of_execute (executed : e.execute = .running next) : e.Moves next := by
  cases here : e.code with
  | halt =>
    rw [execute, here] at executed
    cases executed
  | refer name code =>
    rw [execute_refer here] at executed
    split at executed <;> cases executed
    exact .along (by simp [here, Code.links]) rfl rfl rfl
  | constant value code =>
    rw [execute_constant here] at executed
    cases executed
    exact .along (by simp [here, Code.links]) rfl rfl rfl
  | close t code =>
    rw [execute_close here] at executed
    obtain ⟨code, scope, pending, stack⟩ := running_of_settle executed
    exact .along (by simp [here, Code.links, code]) scope pending stack
  | define parameters code =>
    rw [execute_define here] at executed
    split at executed <;> cases executed
    exact .along (by simp [here, Code.links]) rfl rfl rfl
  | assign name code =>
    rw [execute_assign here] at executed
    split at executed <;> cases executed
    exact .along (by simp [here, Code.links]) rfl rfl rfl
  | test consequent alternative =>
    rw [execute_test here] at executed
    cases executed
    refine .along ?_ rfl rfl rfl
    dsimp only
    split <;> simp [here, Code.links]
  | frame resume code =>
    rw [execute_frame here] at executed
    cases executed
    exact .push here rfl rfl rfl
  | apply operands =>
    cases found : e.combiner with
    | error error =>
      rw [execute_not_combinable (.inl ⟨_, here⟩) found] at executed
      cases executed
    | ok c =>
      have acc := combiner_eq_ok found
      rw [execute_apply here acc] at executed
      cases c with
      | continuation k =>
        -- A continuation has its operands evaluated, as if it were an applicative.
        obtain ⟨⟨xs, code⟩, scope, pending, stack⟩ := running_of_evaluateOperands executed
        exact .supply here acc (acc ▸ code) scope pending stack
      | _ =>
        refine moves_of_apply (.inl ⟨operands, here⟩) acc rfl rfl (fun k same => ?_) executed
        cases same
  | argument code =>
    rw [execute_argument here] at executed
    cases executed
    exact .pend here rfl rfl rfl
  | capture code =>
    rw [execute_capture here] at executed
    cases executed
    exact .capture here rfl rfl rfl rfl
  | call =>
    cases found : e.combiner with
    | error error =>
      rw [execute_not_combinable (.inr here) found] at executed
      cases executed
    | ok c =>
      have acc := combiner_eq_ok found
      rw [execute_call here acc] at executed
      cases c with
      | continuation k =>
        -- Its operands are evaluated, so now its stack takes the place of this one.
        unfold combine reinstate at executed
        dsimp only at executed
        split at executed <;> cases executed
        · exact .reinstate here acc rfl rfl
        · exact .reinstate here acc rfl rfl
      | _ =>
        refine moves_of_handed here acc (fun k same => ?_) executed
        cases same
  | ret =>
    cases top : e.stack with
    | empty =>
      rw [execute, here, top] at executed
      cases executed
    | push frame rest =>
      rw [execute_ret here top] at executed
      cases executed
      exact .pop here top rfl rfl rfl rfl

theorem code_of_finished {value : Form} {m : Machine} (finished : e.step = .finished value m) :
    e.code = .halt ∨ e.code = .ret ∧ e.stack = .empty := by
  by_cases exhausted : e.Exhausted
  · obtain ⟨limit, bounded, beyond⟩ := exhausted
    rw [step_of_exhausted bounded beyond] at finished
    cases finished
  · rw [step_of_not_exhausted exhausted] at finished
    change e.tick.code = _ ∨ e.tick.code = _ ∧ e.tick.stack = _
    generalize e.tick = e at finished
    cases here : e.code with
    | halt => exact .inl rfl
    | ret =>
      cases top : e.stack with
      | empty => exact .inr ⟨rfl, rfl⟩
      | push frame rest =>
        rw [execute_ret here top] at finished
        cases finished
    | close t code =>
      rw [execute_close here] at finished
      exact (settle_ne_finished finished).elim
    | apply operands =>
      cases found : e.combiner with
      | error error =>
        rw [execute_not_combinable (.inl ⟨_, here⟩) found] at finished
        cases finished
      | ok c =>
        rw [execute_apply here (combiner_eq_ok found)] at finished
        exact (apply_ne_finished finished).elim
    | call =>
      cases found : e.combiner with
      | error error =>
        rw [execute_not_combinable (.inr here) found] at finished
        cases finished
      | ok c =>
        rw [execute_call here (combiner_eq_ok found)] at finished
        exact (combine_ne_finished finished).elim
    -- The other instructions go on or fail.
    | refer name code =>
      rw [execute_refer here] at finished
      split at finished <;> cases finished
    | define parameters code =>
      rw [execute_define here] at finished
      split at finished <;> cases finished
    | assign name code =>
      rw [execute_assign here] at finished
      split at finished <;> cases finished
    | constant | test | frame | argument | capture =>
      rw [execute, here] at finished
      cases finished

theorem moves_of_step (stepped : e.step = .running next) : e.Moves next := by
  by_cases exhausted : e.Exhausted
  · obtain ⟨limit, bounded, beyond⟩ := exhausted
    rw [step_of_exhausted bounded beyond] at stepped
    cases stepped
  · rw [step_of_not_exhausted exhausted] at stepped
    cases moves_of_execute stepped with
    | along code scope pending stack => exact .along code scope pending stack
    | pend code scope pending stack => exact .pend code scope pending stack
    | capture code scope acc pending stack => exact .capture code scope acc pending stack
    | push code scope pending stack => exact .push code scope pending stack
    | pop code top resume scope pending acc => exact .pop code top resume scope pending acc
    | enter combines acc code stack => exact .enter combines acc code stack
    | unwrap combines acc code scope pending stack =>
      exact .unwrap combines acc code scope pending stack
    | supply code acc operands scope pending stack =>
      exact .supply code acc operands scope pending stack
    | native combines acc code stack => exact .native combines acc code stack
    | eval combines acc read code stack => exact .eval combines acc read code stack
    | reinstate code acc ret stack => exact .reinstate code acc ret stack

theorem executed_of_step (stepped : e.step = .running next) : e.tick.execute = .running next := by
  by_cases exhausted : e.Exhausted
  · obtain ⟨limit, bounded, beyond⟩ := exhausted
    rw [step_of_exhausted bounded beyond] at stepped
    cases stepped
  · rwa [step_of_not_exhausted exhausted] at stepped

/-! Only pushing and popping a frame act on more than the store and the memory of natives. -/

theorem machine_settle (code : Code) (outcome : Except Error Form × Machine) :
    (e.settle code outcome).machine = outcome.2 := by
  obtain ⟨_ | _, m⟩ := outcome <;> rfl

section

variable {α : Type} {part : Machine → α} (steady : Machine.Steady part)
include steady

theorem steady_apply (c : Combiner) (operands : Form) :
    part (e.apply c operands).machine = part e.toMachine := by
  have evaluating (c : Combiner) :
      part (e.evaluateOperands operands c).machine = part e.toMachine := by
    unfold evaluateOperands
    split <;> rfl
  cases c with
  | operative id static t =>
    change part (e.enter static t operands).machine = _
    unfold enter
    dsimp only
    split <;> exact steady e.toMachine _ e.hosts rfl
  | applicative id inner => exact evaluating inner
  | native n =>
    change part (e.callNative n operands).machine = _
    unfold callNative
    split
    · rw [machine_settle, steady.callNative]
    · rfl
  | eval =>
    change part (e.callEval operands).machine = _
    unfold callEval
    dsimp only
    split
    · rfl
    · split <;> rfl
    · rfl
    · rfl
  | continuation k => exact evaluating _

theorem steady_combine (c : Combiner) (args : Form) :
    part (e.combine c args).machine = part e.toMachine := by
  cases c with
  | continuation stack =>
    change part (e.reinstate stack args).machine = _
    unfold reinstate
    split <;> rfl
  | operative | applicative | native | eval =>
    rw [combine_eq_apply (fun k => by nofun)]
    exact steady_apply steady _ _

theorem steady_execute (pushes : ∀ resume next, e.code ≠ .frame resume next)
    (pops : e.code ≠ .ret) : part e.execute.machine = part e.toMachine := by
  have withStore (store : Store) : part { e.toMachine with store } = part e.toMachine :=
    steady e.toMachine store e.hosts rfl
  cases here : e.code with
  | refer name code =>
    rw [execute_refer here]
    split <;> rfl
  | close t code =>
    rw [execute_close here, machine_settle]
    exact withStore _
  | define parameters code =>
    rw [execute_define here]
    split <;> exact withStore _
  | assign name code =>
    rw [execute_assign here]
    split
    · exact withStore _
    · rfl
  | apply operands =>
    cases found : e.combiner with
    | error error =>
      rw [execute_not_combinable (.inl ⟨_, here⟩) found]
      rfl
    | ok c =>
      rw [execute_apply here (combiner_eq_ok found)]
      exact steady_apply steady _ _
  | argument | capture =>
    rw [execute, here]
    exact withStore _
  | call =>
    cases found : e.combiner with
    | error error =>
      rw [execute_not_combinable (.inr here) found]
      rfl
    | ok c =>
      rw [execute_call here (combiner_eq_ok found)]
      exact (steady_combine steady _ _).trans (withStore _)
  | halt | constant | test =>
    rw [execute, here]
    rfl
  -- What counts frames is left to those who know what it counts.
  | frame resume code => exact (pushes resume code here).elim
  | ret => exact (pops here).elim

end

section

variable {α : Type} {part : Machine → α} (fixed : Machine.Fixed part)
include fixed

theorem fixed_step : part e.step.machine = part e.toMachine := by
  have counted (e : Evaluation) (stats : Stats) (frames : Identity) :
      part { e.toMachine with stats, frames } = part e.toMachine :=
    fixed e.toMachine e.store e.hosts stats frames rfl
  by_cases exhausted : e.Exhausted
  · obtain ⟨limit, bounded, beyond⟩ := exhausted
    rw [step_of_exhausted bounded beyond]
    exact counted e _ _
  · rw [step_of_not_exhausted exhausted]
    refine Eq.trans ?_ (counted e e.tick.stats e.frames)
    cases here : e.tick.code with
    | frame resume next =>
      rw [execute_frame here]
      exact counted e.tick _ _
    | ret =>
      unfold execute
      rw [here]
      dsimp only
      split
      · rfl
      · exact counted e.tick _ _
    | _ => exact steady_execute fixed.steady (by simp [here]) (by simp [here])

theorem fixed_run {fuel : Nat} {outcome : Except Error Form × Machine}
    (ran : e.run fuel = some outcome) : part outcome.2 = part e.toMachine := by
  induction fuel generalizing e with
  | zero => cases ran
  | succ fuel ih =>
    have step := fixed_step fixed (e := e)
    unfold run at ran
    split at ran <;> rename_i stepped <;> rw [stepped] at step
    · exact (ih ran).trans step
    · cases ran
      exact step
    · cases ran
      exact step

end

theorem settings_step : e.step.machine.settings = e.settings := fixed_step Machine.fixed_settings

end Evaluation

end Vau
