import Vau.Proofs.Continuation
import Vau.Proofs.Evaluator.Call
import Vau.Proofs.Evaluator.Outcome
import Vau.Proofs.Ground
import Vau.Proofs.Limit

/-! What `apply` does with a list of arguments.

It makes a combination of the underlying combiner and the arguments, and gives it to `eval`. So the
arguments get to the combiner as operands do. Of all combiners only a continuation evaluates its
operands of its own accord. -/

set_option autoImplicit false

namespace Vau

structure Scopes.Applying (scopes : Scopes) (e : ScopeId) (c : Combiner) (args : Form)
    (env : ScopeId) : Prop where
  appv : ∃ id, scopes.lookup e "appv" = .ok (.combiner (.applicative id c))
  args : scopes.lookup e "args" = .ok args
  opt : ∃ id, scopes.lookup e "opt" = .ok (.pair id (.environment env) .nil)
  primitives : ∀ p : Primitive, ∃ id,
    scopes.lookup e p.name = .ok (.combiner (.applicative id (.native (.primitive p))))
  eval : ∃ id, scopes.lookup e "eval" = .ok (.combiner (.applicative id .eval))

section

variable {fuel : Nat} {e : ScopeId} {w : World} {c : Combiner} {args : Form} {env : ScopeId}

/-- A number is spent on each value put away, on each pair of a list of arguments, and on the pair
that is made. -/
theorem Scopes.Applying.result_combination (applying : w.store.scopes.Applying e c args env)
    (n : Identity) :
    ((Form.ofDatum .applyCombination n).1.evaluate (Combiner.combine (fuel + 3)) e).result w =
      some (.ok (.pair (w.store.fresh + 6) (.combiner c) args), w.reserve 7) := by
  obtain ⟨_, appv⟩ := applying.appv
  obtain ⟨_, cons⟩ := applying.primitives .cons
  obtain ⟨_, unwrap⟩ := applying.primitives .unwrap
  have unwrapped : ((Form.ofDatum (.list [.symbol "unwrap", .symbol "appv"]) n).1.evaluate
      (Combiner.combine (fuel + 2)) e).result w = some (.ok (.combiner c), w.reserve 2) :=
    Form.result_call unwrap rfl (Form.result_operands (Form.result_symbol appv) Form.result_nil) rfl
  exact Form.result_call cons rfl (Form.result_operands unwrapped (Form.result_operands
    (Form.result_symbol (w := w.reserve 3) applying.args) Form.result_nil)) rfl

theorem Scopes.Applying.result_environment (applying : w.store.scopes.Applying e c args env)
    (n : Identity) :
    ((Form.ofDatum .applyEnvironment n).1.evaluate (Combiner.combine (fuel + 2)) e).result w =
      some (.ok (.environment env), w.reserve 4) := by
  obtain ⟨_, opt⟩ := applying.opt
  obtain ⟨_, isNull⟩ := applying.primitives .isNull
  obtain ⟨_, car⟩ := applying.primitives .car
  have tested : ((Form.ofDatum (.list [.symbol "null?", .symbol "opt"]) n).1.evaluate
      (Combiner.combine (fuel + 2)) e).result w = some (.ok (.bool false), w.reserve 2) :=
    Form.result_call isNull rfl (Form.result_operands (Form.result_symbol opt) Form.result_nil) rfl
  have chosen : ((Form.ofDatum (.list [.symbol "car", .symbol "opt"]) (n + 3)).1.evaluate
      (Combiner.combine (fuel + 2)) e).result (w.reserve 2) =
        some (.ok (.environment env), w.reserve 4) :=
    Form.result_call (w := w.reserve 2) car rfl
      (Form.result_operands (Form.result_symbol opt) Form.result_nil) rfl
  exact (Form.result_conditional rfl tested).trans chosen

theorem Scopes.Applying.result_operands (applying : w.store.scopes.Applying e c args env)
    (fuel : Nat) (n : Identity) :
    ((Form.ofDatum .applyOperands n).1.evaluateOperands (Combiner.combine (fuel + 3)) e).result w =
      some (.ok [.pair (w.store.fresh + 6) (.combiner c) args, .environment env],
        w.reserve 13) := by
  have later : (w.reserve 8).store.scopes.Applying e c args env := applying
  exact Form.result_operands (applying.result_combination _)
    (Form.result_operands (later.result_environment _) Form.result_nil)

end

/-! The scope of a call of `apply`. -/

theorem Template.names_applying {fresh : Nat} {name : String} :
    (applying fresh).parameters.Names name ↔ name = "appv" ∨ name = "args" ∨ name = "opt" := by
  change (Form.pair _ (.symbol "appv") (.pair _ (.symbol "args") (.symbol "opt"))).Names name ↔ _
  simp only [Form.names_pair, Form.names_of_atom (f := .symbol _) rfl, Form.symbol.injEq,
    eq_comm (b := name)]

theorem Primitive.not_names_applying (p : Primitive) {fresh : Nat} :
    ¬ (Template.applying fresh).parameters.Names p.name := by
  rw [Template.names_applying]
  cases p <;> decide

theorem Template.fits_applying {fresh : Nat} {i j : Identity} {first second rest : Form} :
    (applying fresh).parameters.Fits (.pair i first (.pair j second rest)) := by
  have atom (name : String) (f : Form) : (Form.symbol name).Fits f :=
    (Form.fits_of_atom rfl).mpr nofun
  exact Form.fits_pair.mpr ⟨atom _ _, Form.fits_pair.mpr ⟨atom _ _, atom _ _⟩⟩

theorem Scopes.Entered.applying {scopes later : Scopes} {caller env : ScopeId} {c : Combiner}
    {args : Form} {fresh : Nat} {i j k id : Identity} (grounded : scopes.Grounded)
    (entered : scopes.Entered later Machine.ground caller (Template.applying fresh).parameters
      .ignore (.pair i (.combiner (.applicative id c))
        (.pair j args (.pair k (.environment env) .nil)))) :
    later.Applying scopes.size c args env := by
  have there := grounded.size_pos
  have below : later.Grounded := grounded.same (entered.older _ there)
  have outer {name : String} {value : Form}
      (unnamed : ¬ (Template.applying fresh).parameters.Names name)
      (found : (later.bindings Machine.ground).get? name = some value) :
      later.lookup scopes.size name = .ok value :=
    lookup_of_get? ((get?_of_root (entered.others name unnamed nofun) entered.parent below.root
      there).trans found)
  have inner {name : String} {value : Form} (p : List Side)
      (named : (Template.applying fresh).parameters.at? p = some (.symbol name))
      (given : (Form.pair i (.combiner (.applicative id c)) (.pair j args (.pair k
        (.environment env) .nil))).at? p = some value) :
      later.lookup scopes.size name = .ok value := by
    obtain ⟨bound, found, own⟩ := entered.symbols p name named
    cases given.symm.trans found
    exact lookup_of_get? (get?_of_own own)
  refine ⟨⟨id, inner [.car] rfl rfl⟩, inner [.cdr, .car] rfl rfl, ⟨k, inner [.cdr, .cdr] rfl rfl⟩,
    fun p => ?_, ?_⟩
  · obtain ⟨id, found⟩ := below.primitives p
    exact ⟨id, outer p.not_names_applying found⟩
  · obtain ⟨id, found⟩ := below.eval
    exact ⟨id, outer (by rw [Template.names_applying]; decide) found⟩

namespace Evaluation

/-- About to combine with a list of arguments as it stands. Of what was there before, nothing has
changed; a scope and some pairs are new. -/
structure HandsOver (there : Evaluation) (c : Combiner) (args : Form) (env : ScopeId) (k : Stack)
    (w : World) : Prop where
  code : there.code = .apply args
  acc : there.acc = .combiner c
  scope : there.scope = env
  pending : there.pending = .nil
  stack : there.stack = k
  hosts : there.hosts = w.hosts
  output : there.store.output = w.store.output
  fresh : w.store.fresh ≤ there.store.fresh
  size : there.store.scopes.size = w.store.scopes.size + 1
  older : ∀ d : Nat, d < w.store.scopes.size → there.store.scopes[d]? = w.store.scopes[d]?

variable {e there : Evaluation} {c : Combiner} {args : Form} {env : ScopeId} {w : World}

theorem reaches_named (obeys : e.Obeys .sourced) {name : String} {operands : Form}
    (here : e.code = .refer name (.apply operands)) {id : Identity}
    (bound : e.store.scopes.lookup e.scope name = .ok (.combiner (.applicative id c)))
    {code : Code} (compiled : operands.compileArguments c = .ok code) {fuel : Nat}
    {values : List Form}
    (evaluated : (operands.evaluateOperands (Combiner.combine fuel) e.scope).result e.world =
      some (.ok values, w)) :
    e.Reaches fun p => ∃ there, p = .running there ∧ e.Calls c values w there := by
  let found : Evaluation :=
    { e.tick with acc := .combiner (.applicative id c), code := .apply operands }
  have referred : e.tick.execute = .running found := by
    have executed := execute_refer (e := e.tick) here
    rw [show e.tick.store.scopes.lookup e.tick.scope name = _ from bound] at executed
    exact executed
  have kept := obeys.executed
  rw [referred] at kept
  have executed : found.tick.execute = .running { found.tick with pending := .nil, code } := by
    rw [execute_apply (e := found.tick) rfl rfl, apply, evaluateOperands, compiled]
  refine .after referred ((reaches_call kept executed compiled evaluated).trans ?_)
  rintro _ ⟨there, rfl, calls⟩
  exact .here ⟨there, rfl, calls.code, calls.acc, calls.values, calls.scope, calls.stack,
    calls.world, calls.obeys⟩

theorem Calls.tick {values : List Form} (calls : e.Calls c values w there) :
    e.Calls c values w there.tick :=
  ⟨calls.code, calls.acc, calls.values, calls.scope, calls.stack, calls.world, calls.obeys.tick⟩

theorem Calls.arguments {values : List Form} (calls : e.Calls c values w there) :
    there.arguments = (Form.chain values .nil w.store.fresh).1 := by
  unfold Evaluation.arguments
  rw [calls.values, ← calls.world]
  rfl

theorem Calls.execute {values : List Form} (calls : e.Calls c values w there) :
    there.execute = there.handed.combine c (Form.chain values .nil w.store.fresh).1 := by
  rw [execute_call calls.code calls.acc, calls.arguments]

theorem Calls.store_handed {values : List Form} (calls : e.Calls c values w there) :
    there.handed.store = (w.reserve values.length).store := by
  obtain rfl := calls.world
  unfold handed
  rw [calls.values, Form.fresh_chain]
  rfl

theorem Calls.reaches_combination {id : Identity}
    (calls : e.Calls .eval [.pair id (.combiner c) args, .environment env] w there) :
    there.Reaches fun p => ∃ last, p = .running last ∧ last.code = .apply args ∧
      last.acc = .combiner c ∧ last.scope = env ∧ last.pending = .nil ∧ last.stack = e.stack ∧
      last.hosts = w.hosts ∧ last.store = (w.reserve 2).store := by
  have compiled : (Form.pair id (.combiner c) args).compile .ret =
      .ok (.constant (.combiner c) (.apply args)) := rfl
  let entered : Evaluation := { there.tick.handed with
    code := .constant (.combiner c) (.apply args), scope := env }
  have other (k : Stack) : Combiner.eval ≠ .continuation k := nofun
  have executed : there.tick.execute = .running entered := by
    rw [calls.tick.execute, combine_eq_apply other, apply, callEval, Form.operands_chain]
    dsimp only
    rw [compiled]
  have executed' : entered.tick.execute = .running { entered.tick with
      acc := .combiner c, code := .apply args } := execute_constant rfl
  exact .after executed (.after executed' (.here ⟨_, rfl, rfl, rfl, rfl, rfl, calls.stack,
    congrArg World.hosts calls.world, calls.tick.store_handed⟩))

theorem Calls.execute_applying {id inner : Identity} {fresh : Nat}
    (calls : e.Calls (.operative inner Machine.ground (.applying fresh))
      [.combiner (.applicative id c), args, .environment env] w there)
    (grounded : w.store.scopes.Grounded) :
    ∃ later : Scopes, there.tick.execute = .running { there.tick.handed with
        store.scopes := later
        scope := w.store.scopes.size
        code := (Template.applying fresh).body } ∧
      later.Applying w.store.scopes.size c args env ∧ later.size = w.store.scopes.size + 1 ∧
      ∀ d : Nat, d < w.store.scopes.size → later[d]? = w.store.scopes[d]? := by
  obtain rfl := calls.world
  have checked : (Template.applying fresh).formal.checkClosure
      (Template.applying fresh).parameters = .ok () := rfl
  have other (k : Stack) :
      Combiner.operative inner Machine.ground (.applying fresh) ≠ .continuation k := nofun
  have executed := calls.tick.execute
  rw [combine_eq_apply other, apply] at executed
  rcases there.tick.handed.enter_outcome Machine.ground checked (.pair _ (.combiner
    (.applicative id c)) (.pair _ args (.pair _ (.environment env) .nil))) with
    ⟨later, entered, _, bound⟩ | ⟨later, p, expected, got, _, differ, _⟩
  · exact ⟨later, executed.trans entered, bound.applying grounded, bound.size, bound.older⟩
  · -- Any list of two operands or more fits the parameters.
    exact (Template.fits_applying.not_unlike differ.asked differ.given differ.unlike).elim

theorem Calls.reaches_applied {id inner : Identity} {fresh : Nat}
    (calls : e.Calls (.operative inner Machine.ground (.applying fresh))
      [.combiner (.applicative id c), args, .environment env] w there)
    (grounded : w.store.scopes.Grounded) :
    there.Reaches fun p => ∃ last, p = .running last ∧ last.HandsOver c args env e.stack w := by
  obtain ⟨later, executed, applying, size, older⟩ := calls.execute_applying grounded
  have body := calls.obeys.executed
  rw [executed] at body
  obtain ⟨wrapper, bound⟩ := applying.eval
  refine .after executed ((reaches_named body rfl bound rfl
    (applying.result_operands 0 (fresh + 2))).trans ?_)
  rintro _ ⟨evaluating, rfl, evaluates⟩
  refine evaluates.reaches_combination.trans ?_
  rintro _ ⟨last, rfl, code, acc, scope, pending, stack, hosts, store⟩
  have scopes : last.store.scopes = later := congrArg Store.scopes store
  have kept : there.hosts = w.hosts := congrArg World.hosts calls.world
  have written : there.store.output = w.store.output := congrArg (·.store.output) calls.world
  -- Pairs were numbered for the arguments of `apply`, in its body, and for those of `eval`.
  have listed : there.tick.handed.store.fresh = w.store.fresh + 3 :=
    congrArg Store.fresh calls.tick.store_handed
  have spent : last.store.fresh = there.tick.handed.store.fresh + 15 := congrArg Store.fresh store
  refine .here ⟨last, rfl, code, acc, scope, pending, stack.trans calls.stack, hosts.trans kept,
    (congrArg Store.output store).trans written, ?_, (congrArg Array.size scopes).trans size,
    fun d there => ?_⟩
  · rw [spent, listed]
    exact Nat.le_add_right w.store.fresh 18
  · rw [scopes]
    exact older d there

theorem Reaches.executes {goal : Evaluation → Prop}
    (reaches : e.Reaches fun p => ∃ there, p = .running there ∧ goal there)
    (unlimited : e.limit = none) :
    ∃ count there, e.Executes count there ∧ goal there ∧ there.limit = none := by
  have leads {p : Progress}
      (leads : p.Leads (fun _ => True) fun p => ∃ there, p = .running there ∧ goal there) :
      p.machine.limit = none → ∃ e, p = .running e ∧
        ∃ count there, e.Executes count there ∧ goal there ∧ there.limit = none := by
    induction leads with
    | here met =>
      obtain ⟨there, rfl, met⟩ := met
      exact fun unlimited => ⟨there, rfl, 0, there, .refl there, met, unlimited⟩
    | limited _ exhausted =>
      exact fun unlimited => (Progress.not_exhausted unlimited exhausted).elim
    | step _ _ _ ih =>
      intro unlimited
      obtain ⟨next, stepped, count, there, executes, met⟩ :=
        ih ((congrArg Prod.fst settings_step).trans unlimited)
      exact ⟨_, rfl, count + 1, there, .head stepped executes, met⟩
  obtain ⟨_, same, reached⟩ := leads reaches unlimited
  cases same
  exact reached

end Evaluation

/-- `apply` hands its arguments over as they stand. What a combiner makes of them is what it makes
of arguments that were evaluated, but a continuation evaluates them once more. -/
theorem Evaluation.Reachable.apply_hands_over {e : Evaluation} (reachable : e.Reachable)
    (unlimited : e.limit = none) {i : Identity} {operands : Form} {next : Code}
    (compiled : (Form.pair i (.symbol "apply") operands).compile next = .ok e.code)
    (bound : e.store.scopes.get? e.scope "apply" =
      (Machine.initial.store.scopes.bindings Machine.ground).get? "apply")
    (accepted : ∀ c : Combiner, ∃ code, operands.compileArguments c = .ok code)
    {fuel : Nat} {id : Identity} {c : Combiner} {args : Form} {env : ScopeId} {w : World}
    (evaluated : (operands.evaluateOperands (Combiner.combine fuel) e.scope).result e.world =
      some (.ok [.combiner (.applicative id c), args, .environment env], w))
    (installed : w.store.scopes[Machine.ground]? =
      Machine.initial.store.scopes[Machine.ground]?) :
    ∃ count there, e.Executes count there ∧ (∀ fuel, e.run (count + fuel) = there.run fuel) ∧
      there.HandsOver c args env (e.continuation next) w ∧
      ((∀ k, c ≠ .continuation k) → there.step = there.tick.combine c args) ∧
      ∀ k, c = .continuation k → there.step = there.tick.evaluateOperands args c := by
  have grounded : w.store.scopes.Grounded := Machine.grounded_initial.same installed
  obtain ⟨wrapper, inner, fresh, applicative⟩ := Machine.grounded_initial.apply
  have found := Scopes.lookup_of_get? (bound.trans applicative)
  obtain ⟨code, arguments⟩ := accepted (.operative inner Machine.ground (.applying fresh))
  have reaches {e : Evaluation} (obeys : e.Obeys .sourced)
      (here : e.code = .refer "apply" (.apply operands))
      (bound : e.store.scopes.lookup e.scope "apply" = .ok (.combiner (.applicative wrapper
        (.operative inner Machine.ground (.applying fresh)))))
      (evaluated : (operands.evaluateOperands (Combiner.combine fuel) e.scope).result e.world =
        some (.ok [.combiner (.applicative id c), args, .environment env], w)) :
      e.Reaches fun p => ∃ there, p = .running there ∧ there.HandsOver c args env e.stack w := by
    refine (reaches_named obeys here bound arguments evaluated).trans ?_
    rintro _ ⟨there, rfl, calls⟩
    exact calls.reaches_applied grounded
  have here : e.code = (Code.refer "apply" (.apply operands)).framed next :=
    (Except.ok.inj compiled).symm
  have arrives : e.Reaches fun p => ∃ there, p = .running there ∧
      there.HandsOver c args env (e.continuation next) w := by
    unfold continuation
    unfold Code.framed at here
    -- In front of a return there is no frame to push.
    split at here <;> rename_i returns
    · rw [if_pos returns]
      exact reaches reachable.sourced here found evaluated
    · rw [if_neg returns]
      have pushed := execute_frame (e := e.tick) here
      have kept := reachable.sourced.executed
      rw [pushed] at kept
      exact .after pushed (reaches kept rfl found evaluated)
  obtain ⟨count, there, executes, hands, unlimited⟩ := arrives.executes unlimited
  have applied : there.step = there.tick.apply c args :=
    (step_unlimited unlimited).trans (execute_apply (e := there.tick) hands.code hands.acc)
  refine ⟨count, there, executes, executes.run, hands, fun other => ?_, ?_⟩
  · rw [applied, combine_eq_apply other]
  · rintro k rfl
    exact applied

def Form.consSymbols : Form :=
  .pair 0 (.symbol "cons") (.pair 0 (.pair 0 (.symbol "$quote") (.pair 0
    (.pair 0 (.symbol "x") (.pair 0 (.symbol "y") .nil)) .nil))
      (.pair 0 (.environment Machine.topLevel) .nil))

/-- Nothing binds the symbols, and they end up in a pair. -/
theorem Evaluation.Reachable.apply_hands_over_symbols : ∃ count there last i,
    (Machine.initial.start (.frame .halt (.refer "apply" (.apply .consSymbols)))
      Machine.topLevel).Executes count there ∧
    there.step = .running last ∧ last.acc = .pair i (.symbol "x") (.symbol "y") := by
  obtain ⟨kept, session⟩ := Session.Reachable.initial
  obtain ⟨_, _, _, _, top, fresh, unlimited⟩ := Machine.initial_facts
  obtain ⟨id, cons⟩ := Machine.grounded_initial.primitives .cons
  have found := Scopes.lookup_of_get? ((Machine.get?_topLevel "cons").trans cons)
  -- No step below is to compute the machine.
  obtain ⟨m, same⟩ : ∃ m, m = Machine.initial := ⟨_, rfl⟩
  have here : m.store.scopes.get? Machine.topLevel "apply" =
      (Machine.initial.store.scopes.bindings Machine.ground).get? "apply" := by
    rw [same]
    exact Machine.get?_topLevel "apply"
  have installed : m.store.scopes[Machine.ground]? =
      Machine.initial.store.scopes[Machine.ground]? := by rw [same]
  rw [← same] at session top fresh unlimited found ⊢
  have bound : Machine.topLevel < m.store.scopes.size := (Array.getElem?_eq_some_iff.mp top).1
  have plain : (Form.pair 0 (.symbol "apply") .consSymbols).Plain m := by
    intro D room
    have zero := room.object 0 (by rw [fresh]; decide)
    have scope := room.scope Machine.topLevel bound
    simp [Form.consSymbols, Form.Obeys, zero, scope]
  have compiled : (Form.pair 0 (.symbol "apply") .consSymbols).compile .halt =
      .ok (.frame .halt (.refer "apply" (.apply .consSymbols))) := rfl
  have reachable := session.start plain compiled bound
  have evaluated : (Form.consSymbols.evaluateOperands (Combiner.combine 0)
      Machine.topLevel).result m.world =
        some (.ok [.combiner (.applicative id (.native (.primitive .cons))),
          .pair 0 (.symbol "x") (.pair 0 (.symbol "y") .nil), .environment Machine.topLevel],
          m.world.reserve 3) :=
    Form.result_operands (Form.result_symbol (w := m.world) found)
      (Form.result_operands (Form.result_quote rfl) (Form.result_operands rfl Form.result_nil))
  obtain ⟨count, there, executes, _, hands, combines, _⟩ := reachable.apply_hands_over unlimited
    compiled here (fun _ => ⟨_, rfl⟩) evaluated installed
  exact ⟨count, there, _, _, executes, combines (by simp), rfl⟩

/-- The symbol that a wrapped continuation is given is its value when the continuation is called,
but is looked up when it is given by `apply`. -/
theorem Machine.apply_evaluates_again :
    (initial.evalText ampleFuel "(call/cc ($lambda (k) ((wrap k) 'x)))" none topLevel).map
        Prod.fst = some (.ok (.symbol "x")) ∧
      (initial.evalText ampleFuel
        "(call/cc ($lambda (k) (apply (wrap k) '(x) (make-environment))))" none topLevel).map
          Prod.fst = some (.error (.of (.unbound "x"))) := by
  have called : Vau.read "(call/cc ($lambda (k) ((wrap k) 'x)))" none =
      .ok [.list [.symbol "call/cc", .list [.symbol "$lambda", .list [.symbol "k"],
        .list [.list [.symbol "wrap", .symbol "k"], .list [.symbol "$quote", .symbol "x"]]]]] := by
    decide +kernel
  have applied : Vau.read "(call/cc ($lambda (k) (apply (wrap k) '(x) (make-environment))))" none =
      .ok [.list [.symbol "call/cc", .list [.symbol "$lambda", .list [.symbol "k"],
        .list [.symbol "apply", .list [.symbol "wrap", .symbol "k"],
          .list [.symbol "$quote", .list [.symbol "x"]], .list [.symbol "make-environment"]]]]] := by
    decide +kernel
  rw [evalText_of_read called, evalText_of_read applied, initial_eq]
  cbv

end Vau
