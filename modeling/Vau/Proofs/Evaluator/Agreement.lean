import Vau.Proofs.Evaluator.Simulation
import Vau.Proofs.Session

/-! The machine agrees with the evaluator.

The induction is on the fuel, for combinations, and inside of that on how a form reads. Frames
bring back the scope, the pending arguments and the stack wherever code goes on after a value. -/

set_option autoImplicit false

namespace Vau

/-- The machine goes on there with the value, in the world of the meaning. -/
def Progress.Resumed (there : Resumption) (value : Form) (w : World) (p : Progress) : Prop :=
  ∃ e : Evaluation, p = .running e ∧ there.Receives value e ∧ e.world = w ∧ e.Obeys .sourced

/-- From here on the machine computes what is meant in the state, for the code that is next. -/
def Progress.Computes (p : Progress) (e : Evaluation) (next : Code) (fuel : Nat)
    (meaning : Meaning Form) : Prop :=
  p.Agrees (Evaluation.Pending next e.stack) (Resumed (e.resumption next)) fuel meaning e.world

def Evaluation.Computes (e : Evaluation) (next : Code) (fuel : Nat) (meaning : Meaning Form) :
    Prop :=
  (Progress.running e).Computes e next fuel meaning

def Combiner.Agrees (fuel : Nat) : Prop :=
  ∀ (e caller : Evaluation) (c : Combiner) (operands : Form),
    (¬ e.Exhausted → e.tick.execute = caller.apply c operands) →
    e.stack = caller.stack → e.code ≠ .ret →
    caller.Obeys .sourced → caller.acc = .combiner c → operands.Obeys .sourced →
    (Progress.running e).Computes caller .ret fuel
      (Combiner.combine fuel c operands caller.scope)

variable {fuel : Nat}

/-! Instructions that need no combination. -/

namespace Evaluation

variable {e : Evaluation} {next : Code}

theorem Obeys.executed (obeys : e.Obeys .sourced) : e.tick.execute.Obeys .sourced :=
  (obeys.tick.execute fun _ _ => trivial).sourced

theorem Computes.step {meaning : Meaning Form} (here : e.Pending next e.stack)
    (agrees : ¬ e.Exhausted → e.tick.execute.Agrees (Pending next e.stack)
      (Progress.Resumed (e.resumption next)) fuel meaning e.world) :
    e.Computes next fuel meaning :=
  Progress.Agrees.step here agrees

theorem computes_constant {value : Form} (obeys : e.Obeys .sourced)
    (here : e.code = .constant value next) : e.Computes next fuel (pure value) := by
  refine .step (.single (by rw [here]; rfl)) fun _ => .pure ?_
  have kept := obeys.executed
  rw [execute_constant (e := e.tick) here] at kept ⊢
  exact ⟨_, rfl, ⟨rfl, rfl, rfl, fun _ => ⟨rfl, rfl⟩⟩, rfl, kept⟩

theorem computes_refer {name : String} (obeys : e.Obeys .sourced)
    (here : e.code = .refer name next) : e.Computes next fuel (Meaning.lookup e.scope name) := by
  refine .step (.single (by rw [here]; rfl)) fun _ => ?_
  have kept := obeys.executed
  rw [execute_refer (e := e.tick) here] at kept ⊢
  refine .onScopes (fun value scopes looked => ?_) (fun error scopes looked => ?_)
  all_goals
    obtain ⟨found, rfl⟩ := Prod.mk.inj looked
    change e.tick.store.scopes.lookup e.tick.scope name = _ at found
    simp only [found] at kept ⊢
  · exact ⟨_, rfl, ⟨rfl, rfl, rfl, fun _ => ⟨rfl, rfl⟩⟩, rfl, kept⟩
  · exact ⟨_, rfl, rfl⟩

theorem computes_define {parameters : Form} (obeys : e.Obeys .sourced)
    (here : e.code = .define parameters next) :
    e.Computes next fuel (Meaning.define e.scope parameters e.acc) := by
  refine .step (.single (by rw [here]; rfl)) fun _ => ?_
  have kept := obeys.executed
  rw [execute_define (e := e.tick) here] at kept ⊢
  refine .bind (fun _ => Progress.Resumed (e.resumption next) .inert)
    (.onScopes (fun _ scopes bound => ?_) fun error scopes bound => ?_) fun _ w p met => .pure met
  all_goals
    change e.tick.store.scopes.bind e.tick.scope parameters e.tick.acc = _ at bound
    simp only [bound] at kept ⊢
  · exact ⟨_, rfl, ⟨rfl, rfl, rfl, fun _ => ⟨rfl, rfl⟩⟩, rfl, kept⟩
  · exact ⟨_, rfl, rfl⟩

theorem computes_assign {name : String} (obeys : e.Obeys .sourced)
    (here : e.code = .assign name next) :
    e.Computes next fuel (Meaning.assign e.scope name e.acc) := by
  refine .step (.single (by rw [here]; rfl)) fun _ => ?_
  have kept := obeys.executed
  rw [execute_assign (e := e.tick) here] at kept ⊢
  refine .bind (fun _ => Progress.Resumed (e.resumption next) .inert)
    (.onScopes (fun _ scopes assigned => ?_) fun error scopes assigned => ?_) fun _ w p met =>
      .pure met
  all_goals
    have same : e.world.store.scopes.set e.scope name e.acc =
      e.tick.store.scopes.set e.tick.scope name e.tick.acc := rfl
    rw [same] at assigned
    split at assigned <;> rename_i set <;> cases assigned
    simp only [set] at kept ⊢
  · exact ⟨_, rfl, ⟨rfl, rfl, rfl, fun _ => ⟨rfl, rfl⟩⟩, rfl, kept⟩
  · exact ⟨_, rfl, rfl⟩

theorem computes_close {parameters formal source : Form} {body : Code} {wraps : Bool}
    (compiled : source.compileAll .ret = .ok body) (obeys : e.Obeys .sourced)
    (here : e.code = .close ⟨parameters, formal, source, body, wraps⟩ next) :
    e.Computes next fuel (Meaning.close e.scope parameters formal source wraps) := by
  refine .step (.single (by rw [here]; rfl)) fun _ => ?_
  have kept := obeys.executed
  rw [execute_close (e := e.tick) here] at kept ⊢
  cases wraps with
  | true =>
    refine .of_ok (by rw [Meaning.close, compiled]; rfl) ?_
    exact ⟨_, rfl, ⟨rfl, rfl, rfl, fun _ => ⟨rfl, rfl⟩⟩, rfl, kept⟩
  | false =>
    refine .of_ok (by rw [Meaning.close, compiled]; rfl) ?_
    exact ⟨_, rfl, ⟨rfl, rfl, rfl, fun _ => ⟨rfl, rfl⟩⟩, rfl, kept⟩

theorem computes_test {consequent alternative : Code} {yes no : Meaning Form}
    (obeys : e.Obeys .sourced) (here : e.code = .test consequent alternative)
    (awaited : next.Awaited (.test consequent alternative))
    (taken : ∀ {branch : Evaluation}, branch.Obeys .sourced → branch.code = consequent →
      branch.scope = e.scope → branch.Computes next fuel yes)
    (skipped : ∀ {branch : Evaluation}, branch.Obeys .sourced → branch.code = alternative →
      branch.scope = e.scope → branch.Computes next fuel no) :
    e.Computes next fuel (if e.acc.isFalse then no else yes) := by
  refine .step (.inr ⟨rfl, here ▸ awaited⟩) fun _ => ?_
  have kept := obeys.executed
  rw [execute_test (e := e.tick) here] at kept ⊢
  cases holds : e.acc.isFalse with
  | true => exact skipped kept (if_pos holds) rfl
  | false => exact taken kept (if_neg (by simp [tick, holds])) rfl

/-- A combination in front of code other than a return runs above a frame, and comes back. -/
theorem computes_framed {code : Code} {meaning : Meaning Form} (obeys : e.Obeys .sourced)
    (here : e.code = code.framed next)
    (later : ∀ {inner : Evaluation}, inner.Obeys .sourced → inner.code = code →
      inner.scope = e.scope → inner.Computes .ret fuel meaning) :
    e.Computes next fuel meaning := by
  unfold Code.framed at here
  split at here
  · rename_i returns
    cases next <;> cases returns
    exact later obeys here rfl
  · refine .step (.inr ⟨rfl, here ▸ .frame⟩) fun _ => ?_
    have kept := obeys.executed
    rw [execute_frame (e := e.tick) here] at kept ⊢
    have inner := later kept rfl rfl
    refine (inner.weaken fun _ => Pending.of_push).extend fun value w p met => ?_
    obtain ⟨returned, rfl, at_ret, world, obeys⟩ := met
    have above : returned.Pending next e.stack := .inl (at_ret.stack ▸ .push)
    by_cases exhausted : returned.Exhausted
    · exact .limited above exhausted
    · have popped := obeys.executed
      have code : returned.tick.code = .ret := at_ret.code
      rw [execute_ret code at_ret.stack] at popped
      refine .step above exhausted (.here ?_)
      rw [step_of_not_exhausted exhausted, execute_ret code at_ret.stack]
      exact ⟨_, rfl, ⟨at_ret.acc, rfl, rfl, fun _ => ⟨rfl, rfl⟩⟩, world, popped⟩

theorem computes_apply (combines : Combiner.Agrees fuel) {operands : Form}
    (obeys : e.Obeys .sourced) (here : e.code = .apply operands) :
    e.Computes .ret fuel (do
      Combiner.combine fuel (← Meaning.combiner e.acc) operands e.scope) := by
  have given := here ▸ obeys.code
  have proper : e.code ≠ .ret := by rw [here]; nofun
  cases acc : e.acc with
  | combiner c =>
    exact combines e e.tick c operands (fun _ => execute_apply (e := e.tick) here acc) rfl proper
      obeys.tick acc given
  | _ =>
    refine .step (.inr ⟨rfl, proper, .inl rfl⟩) fun _ => ?_
    rw [execute_not_combinable (e := e.tick) (.inl ⟨operands, here⟩)
      (by rw [Evaluation.combiner, tick, acc])]
    exact .fail ⟨_, rfl, rfl⟩

theorem Computes.bind {code : Code} {meaning : Meaning Form} {k : Form → Meaning Form}
    (computes : e.Computes code fuel meaning) (awaited : next.Awaited code) (proper : code ≠ .ret)
    (later : ∀ {there : Evaluation}, there.Obeys .sourced → there.code = code →
      there.scope = e.scope → there.Computes next fuel (k there.acc)) :
    e.Computes next fuel (meaning >>= k) := by
  have first := Progress.Agrees.weaken computes fun _ pending => pending.trans awaited proper
  refine Progress.Agrees.bind _ first fun value w p met => ?_
  obtain ⟨there, rfl, received, rfl, obeys⟩ := met
  obtain ⟨scope, pending⟩ := received.registers proper
  have same : there.resumption next = e.resumption next := by
    rw [Evaluation.resumption, scope, pending, received.stack]
    rfl
  have rest := later obeys received.code scope
  unfold Evaluation.Computes Progress.Computes at rest
  rw [same, received.stack, received.acc] at rest
  exact rest

end Evaluation

mutual

theorem Form.Reads.computes (combines : Combiner.Agrees fuel) : ∀ {f : Form} {x : Expr}, f.Reads x →
    ∀ {e : Evaluation} {next : Code}, e.Obeys .sourced → e.code = x.code next →
      e.Computes next fuel (f.evaluate (Combiner.combine fuel) e.scope)
  | _, _, .refer, _, _, obeys, here => Evaluation.computes_refer obeys here
  | f, _, .constant notSymbol notPair, e, _, obeys, here => by
    have value : f.evaluate (Combiner.combine fuel) e.scope = pure f := by
      cases f with
      | symbol name => cases notSymbol
      | pair id car cdr => cases notPair
      | _ => rfl
    rw [value]
    exact Evaluation.computes_constant obeys here
  | _, _, .quote found, _, _, obeys, here => by
    simp only [Form.evaluate, found]
    exact Evaluation.computes_constant obeys here
  | _, _, .consequent (c := y) found t c, _, next, obeys, here => by
    simp only [Form.evaluate, found]
    have branches := Code.Awaited.test (.expr y next) (.expr (.constant .inert) next)
    refine .bind (t.computes combines obeys here) branches nofun fun obeys here scope => ?_
    refine scope ▸ Evaluation.computes_test obeys here branches (fun obeys here scope => ?_)
      fun obeys here _ => Evaluation.computes_constant obeys here
    exact scope ▸ c.computes combines obeys here
  | _, _, .conditional (c := y) (a := z) found t c a, _, next, obeys, here => by
    simp only [Form.evaluate, found]
    have branches := Code.Awaited.test (.expr y next) (.expr z next)
    refine .bind (t.computes combines obeys here) branches nofun fun obeys here scope => ?_
    refine scope ▸ Evaluation.computes_test obeys here branches (fun obeys here scope => ?_)
      fun obeys here scope => ?_
    · exact scope ▸ c.computes combines obeys here
    · exact scope ▸ a.computes combines obeys here
  | _, _, .define found _ v, _, _, obeys, here => by
    simp only [Form.evaluate, found]
    refine .bind (v.computes combines obeys here) (.single rfl) nofun fun obeys here scope => ?_
    exact scope ▸ Evaluation.computes_define obeys here
  | _, _, .assign found v, _, _, obeys, here => by
    simp only [Form.evaluate, found]
    refine .bind (v.computes combines obeys here) (.single rfl) nofun fun obeys here scope => ?_
    exact scope ▸ Evaluation.computes_assign obeys here
  | _, _, .vau found _ _ _ b, _, _, obeys, here => by
    simp only [Form.evaluate, found]
    exact Evaluation.computes_close (Form.compileAll_eq_ok.mpr ⟨_, b, rfl⟩) obeys here
  | _, _, .lambda found _ _ _ b, _, _, obeys, here => by
    simp only [Form.evaluate, found]
    exact Evaluation.computes_close (Form.compileAll_eq_ok.mpr ⟨_, b, rfl⟩) obeys here
  | _, _, .sequence found _ b, _, _, obeys, here => by
    simp only [Form.evaluate, found]
    exact b.computes combines obeys here
  | _, _, .callCC found _, _, _, _, _ => by
    simp only [Form.evaluate, found]
    -- Here the evaluator without a stack says nothing.
    unfold Evaluation.Computes
    exact .control
  | _, _, .combination found h, _, _, obeys, here => by
    simp only [Form.evaluate, found]
    -- The head is evaluated on top of a frame, to come back to the operands.
    refine Evaluation.computes_framed obeys here fun obeys here scope => ?_
    rw [← scope]
    refine .bind (h.computes combines obeys here) ⟨nofun, .inl rfl⟩ nofun fun obeys here scope => ?_
    exact scope ▸ Evaluation.computes_apply combines obeys here

theorem Form.ReadsAll.computes (combines : Combiner.Agrees fuel) : ∀ {f : Form} {x : Expr},
    f.ReadsAll x → ∀ {e : Evaluation} {next : Code}, e.Obeys .sourced → e.code = x.code next →
      e.Computes next fuel (f.evaluateAll (Combiner.combine fuel) e.scope)
  | f, _, .none notPair, e, _, obeys, here => by
    have value : f.evaluateAll (Combiner.combine fuel) e.scope = pure .inert := by
      cases f with
      | pair id car cdr => cases notPair
      | _ => rfl
    rw [value]
    exact Evaluation.computes_constant obeys here
  | .pair _ _ rest, _, .last notPair x, _, _, obeys, here => by
    cases rest with
    | pair id car cdr => cases notPair
    | _ => exact x.computes combines obeys here
  | _, _, .more (y := y) x rest, _, next, obeys, here => by
    refine .bind (x.computes combines obeys here) (.expr y next) (y.code_ne_ret next)
      fun obeys here scope => ?_
    exact scope ▸ rest.computes combines obeys here

end

/-! Operands, and combinations. -/

/-- All values are on the pending arguments, the last one in front. -/
def Progress.Supplied (e : Evaluation) (code : Code) (values : List Form) (w : World)
    (p : Progress) : Prop :=
  ∃ there : Evaluation, p = .running there ∧ there.code = code ∧ there.scope = e.scope ∧
    there.pending.items = values.reverse ++ e.pending.items ∧ there.stack = e.stack ∧
    there.world = w ∧ there.Obeys .sourced

theorem Form.agrees_operands (combines : Combiner.Agrees fuel) : ∀ {operands : Form}
    {xs : List Expr}, operands.exprs = .ok xs → ∀ {e : Evaluation} {next : Code},
      e.Obeys .sourced → e.code = Expr.operandsCode xs next →
      (Progress.running e).Agrees (Evaluation.Pending .ret e.stack) (Progress.Supplied e next) fuel
        (operands.evaluateOperands (Combiner.combine fuel) e.scope) e.world
  | .pair _ operand rest, xs, read, e, next, obeys, here => by
    obtain ⟨ys, readRest, read⟩ := Except.bind_eq_ok.mp read
    obtain ⟨y, readOperand, read⟩ := Except.bind_eq_ok.mp read
    cases read
    have first := (Form.reads_of_expr readOperand).computes combines obeys here
    refine .bind _ (first.weaken fun _ pending => pending.to_ret nofun) fun value w p met => ?_
    obtain ⟨there, rfl, received, rfl, obeys⟩ := met
    obtain ⟨scope, pending⟩ : there.scope = e.scope ∧ there.pending = e.pending :=
      received.registers nofun
    have proper : there.code ≠ .ret := by rw [received.code]; nofun
    refine .step (.inr ⟨received.stack, proper, .inl rfl⟩) fun _ => ?_
    have kept := obeys.executed
    rw [Evaluation.execute_argument (e := there.tick) received.code] at kept ⊢
    refine .bind_ok rfl ?_
    rw [← scope]
    have others := rest.agrees_operands combines readRest kept rfl
    refine .bind _ (received.stack ▸ others) fun values w p met => .pure ?_
    obtain ⟨supplied, rfl, code, scope', items, stack, world, obeys⟩ := met
    refine ⟨supplied, rfl, code, scope'.trans scope, ?_, stack.trans received.stack, world, obeys⟩
    rw [items, List.reverse_cons, List.append_assoc, ← pending, ← received.acc]
    rfl
  | .nil, _, read, e, next, obeys, here | .symbol _, _, read, e, next, obeys, here
  | .int _, _, read, e, next, obeys, here | .real _, _, read, e, next, obeys, here
  | .bool _, _, read, e, next, obeys, here | .ignore, _, read, e, next, obeys, here
  | .inert, _, read, e, next, obeys, here | .combiner _, _, read, e, next, obeys, here
  | .environment _, _, read, e, next, obeys, here => by
    cases read
    exact .pure ⟨e, rfl, here, rfl, rfl, rfl, rfl, obeys⟩

theorem Machine.callNative_eq (m : Machine) (n : Native) (args : List Form) :
    Machine.callNative { store := m.store, hosts := m.hosts } n args =
      ((m.callNative n args).1,
        { store := (m.callNative n args).2.store, hosts := (m.callNative n args).2.hosts }) := by
  cases n with
  | primitive p => rfl
  | host index name =>
    unfold Machine.callNative
    dsimp only
    cases m.hosts[index]? <;> rfl

theorem Combiner.receive_eq {combine : Combiner → Form → ScopeId → Meaning Form} {c : Combiner}
    (other : ∀ k, c ≠ .continuation k) (e : ScopeId) (values : List Form) :
    c.receive combine e values = (do combine c (← Meaning.act (Action.list values)) e) := by
  cases c with
  | continuation k => exact (other k rfl).elim
  | _ => rfl

/-- A return looks at the stack alone. -/
theorem Progress.Computes.of_stack {p : Progress} {e : Evaluation} {meaning : Meaning Form}
    (computes : p.Computes e .ret fuel meaning) (other : Evaluation)
    (stack : e.stack = other.stack) :
    p.Agrees (Evaluation.Pending .ret other.stack) (Resumed (other.resumption .ret)) fuel meaning
      e.world := by
  rw [← stack]
  refine Progress.Agrees.mono computes fun value w p met => ?_
  obtain ⟨returned, rfl, received, world, obeys⟩ := met
  exact ⟨returned, rfl, ⟨received.acc, received.code, received.stack.trans stack,
    fun proper => (proper rfl).elim⟩, world, obeys⟩

namespace Evaluation

variable {e : Evaluation}

theorem computes_receive (combines : Combiner.Agrees fuel) {c : Combiner} {values : List Form}
    (obeys : e.Obeys .sourced) (here : e.code = .constant (.combiner c) .call)
    (supplied : e.pending.items = values.reverse) :
    e.Computes .ret fuel (c.receive (Combiner.combine fuel) e.scope values) := by
  refine .step (.inr ⟨rfl, by rw [here]; nofun, .inl rfl⟩) fun _ => ?_
  have kept := obeys.executed
  rw [execute_constant (e := e.tick) here] at kept ⊢
  by_cases continuation : ∃ k, c = .continuation k
  · obtain ⟨k, rfl⟩ := continuation
    exact .control
  · have other : ∀ k, c ≠ .continuation k := fun k same => continuation ⟨k, same⟩
    rw [Combiner.receive_eq other]
    let called : Evaluation := { e.tick with acc := .combiner c, code := .call }
    have combined := combines called called.tick.handed c called.tick.arguments
      (fun _ => (execute_call (e := called.tick) rfl rfl).trans (combine_eq_apply other _))
      rfl nofun (Obeys.tick kept).handed rfl
      ((Obeys.tick kept).arguments ((Discipline.room_sourced _).covers _))
    have values_eq : called.tick.pending.items.reverse = values :=
      (congrArg List.reverse supplied).trans values.reverse_reverse
    have listed : (Meaning.act (Action.list values)).result e.world =
        some (.ok called.tick.arguments, called.tick.handed.world) := by
      unfold arguments handed
      rw [values_eq]
      rfl
    exact .bind_ok listed (combined.of_stack e rfl)

theorem computes_enter (combines : Combiner.Agrees fuel) {static : ScopeId} {t : Template}
    {operands : Form} (obeys : e.Obeys .sourced) (template : t.Obeys .sourced)
    (given : operands.Obeys .sourced) :
    (e.enter static t operands).Computes e .ret fuel (do
      t.source.evaluateAll (Combiner.combine fuel)
        (← Meaning.enter e.scope static t operands)) := by
  have allowed : Discipline.sourced.scope static := trivial
  have kept := (obeys.enter allowed template fun _ => given).sourced
  obtain ⟨b, read, body⟩ := Form.compileAll_eq_ok.mp (Template.Obeys.holds template).2
  unfold enter at kept ⊢
  rcases bound : (e.store.scopes.extend (some static)).2.bind e.store.scopes.size t.parameters
    operands with ⟨outcome, scopes⟩
  simp only [Scopes.extend] at bound kept ⊢
  simp only [bound] at kept ⊢
  have entered : (Meaning.enter e.scope static t operands).result e.world = _ :=
    Meaning.result_onScopes _ _
  simp only [Scopes.extend, world, Machine.world, bound] at entered
  cases outcome with
  | error error => exact .bind_error entered ⟨_, rfl, rfl⟩
  | ok done =>
    refine .bind_ok entered ?_
    exact (read.computes combines kept body).of_stack e rfl

theorem computes_evaluateOperands (combines : Combiner.Agrees fuel) {c inner : Combiner}
    {operands : Form} (obeys : e.Obeys .sourced) (acc : e.acc = .combiner c)
    (combiner : inner.Obeys .sourced) (given : operands.Obeys .sourced) :
    (e.evaluateOperands operands inner).Computes e .ret fuel (do
      Meaning.accept c inner operands
      inner.receive (Combiner.combine fuel) e.scope
        (← operands.evaluateOperands (Combiner.combine fuel) e.scope)) := by
  have kept := (obeys.evaluateOperands (fun _ => given) combiner).sourced
  unfold evaluateOperands at kept ⊢
  cases compiled : operands.compileArguments inner with
  | error error =>
    refine .bind_error (by rw [Meaning.accept, compiled]; rfl) ?_
    rw [acc]
    exact ⟨_, rfl, rfl⟩
  | ok code =>
    refine .bind_ok (by rw [Meaning.accept, compiled]; rfl) ?_
    simp only [compiled] at kept
    obtain ⟨_, xs, _, read, rfl⟩ := Form.compileArguments_eq_ok compiled
    refine .bind _ (Form.agrees_operands combines read kept rfl) fun values w p met => ?_
    obtain ⟨supplied, rfl, code, scope, items, stack, rfl, obeys⟩ := met
    have received := computes_receive combines obeys code (items.trans (List.append_nil _))
    rw [scope] at received
    exact received.of_stack e stack

theorem computes_callNative {n : Native} {operands : Form} (obeys : e.Obeys .sourced)
    (given : operands.Obeys .sourced) :
    (e.callNative n operands).Computes e .ret fuel (Meaning.native n operands) := by
  have kept := (obeys.callNative n fun _ => given).sourced
  unfold callNative Meaning.native at *
  cases proper : operands.operands (·.textDuring n) with
  | error error => exact .fail ⟨_, rfl, rfl⟩
  | ok args =>
    simp only [proper] at kept
    have same := Machine.callNative_eq e.toMachine n args
    rcases called : e.toMachine.callNative n args with ⟨outcome, m⟩
    rw [called] at kept same
    let meaning : Meaning Form := fun w =>
      some ((Machine.callNative { store := w.store, hosts := w.hosts } n args).1.mapError .error,
        (Machine.callNative { store := w.store, hosts := w.hosts } n args).2.world)
    have meant : meaning.result e.world = some (outcome.mapError .error, m.world) := by
      change some ((Machine.callNative { store := e.store, hosts := e.hosts } n args).1.mapError
        Exit.error, (Machine.callNative { store := e.store, hosts := e.hosts } n args).2.world) = _
      rw [same]
      rfl
    simp only [called]
    cases outcome with
    | ok value => exact .of_ok meant ⟨_, rfl, ⟨rfl, rfl, rfl, fun _ => ⟨rfl, rfl⟩⟩, rfl, kept⟩
    | error error => exact .of_error meant ⟨_, rfl, rfl⟩

theorem computes_callEval (combines : Combiner.Agrees fuel) {operands : Form}
    (obeys : e.Obeys .sourced) (given : operands.Obeys .sourced) :
    (e.callEval operands).Computes e .ret fuel (do
      let (form, scope) ← Meaning.acceptEval operands
      form.evaluate (Combiner.combine fuel) scope) := by
  have kept := (obeys.callEval fun _ => given).sourced
  unfold callEval Meaning.acceptEval at *
  generalize operands.operands Form.text = parsed at kept given ⊢
  rcases parsed with error | ⟨_ | ⟨form, _ | ⟨second, _ | ⟨third, rest⟩⟩⟩⟩
  · exact .bind_fail ⟨_, rfl, rfl⟩
  · exact .bind_fail ⟨_, rfl, rfl⟩
  · exact .bind_fail ⟨_, rfl, rfl⟩
  · cases second with
    | environment scope =>
      dsimp only at kept ⊢
      cases compiled : form.compile .ret with
      | error error => exact .bind_fail ⟨_, rfl, rfl⟩
      | ok code =>
        rw [compiled] at kept
        obtain ⟨x, read, body⟩ := Form.compile_eq_ok.mp compiled
        refine .bind_ok rfl ?_
        exact (read.computes combines kept body).of_stack e rfl
    | _ => exact .bind_fail ⟨_, rfl, rfl⟩
  · cases second <;> exact .bind_fail ⟨_, rfl, rfl⟩

end Evaluation

theorem Combiner.agrees : ∀ fuel, Combiner.Agrees fuel
  | 0 => fun _ _ _ _ _ _ _ _ _ _ => .zero
  | fuel + 1 => fun e caller c operands executes stack proper obeys acc given => by
    have combines := Combiner.agrees fuel
    refine .spend (.inr ⟨stack, proper, .inl rfl⟩) fun within => ?_
    rw [executes within]
    have combiner := obeys.acc
    rw [acc] at combiner
    cases c with
    | operative id static t => exact Evaluation.computes_enter combines obeys combiner.2.2 given
    | applicative id inner =>
      exact Evaluation.computes_evaluateOperands combines obeys acc combiner.2 given
    | native n => exact Evaluation.computes_callNative obeys given
    | eval => exact Evaluation.computes_callEval combines obeys given
    | continuation k => exact Evaluation.computes_evaluateOperands combines obeys acc combiner given

end Vau
