import Vau.Proofs.Control.Ahead
import Vau.Proofs.Control.Order

/-! Calls in tail position leave the control stack as it was.

An evaluation that is not in tail position runs above the stack that it started on, and comes back
to it; tail positions follow one another on that stack. -/

set_option autoImplicit false

namespace Vau

def Stack.height (stack : Stack) : Nat := stack.frames.length

/-- Above the base, the lowest frame resumes into code with the target ahead. -/
inductive Stack.Resumes (target : Code) (base : Stack) : Stack → Prop
  | lowest {frame : Frame} : target.Ahead frame.resume → Resumes target base (.push frame base)
  | above {frame : Frame} {rest : Stack} : Resumes target base rest →
    Resumes target base (.push frame rest)

theorem Stack.Resumes.height_lt {target : Code} {base stack : Stack}
    (resumes : Stack.Resumes target base stack) : base.height < stack.height := by
  induction resumes with
  | lowest => exact Nat.lt_succ_self _
  | above _ ih => exact Nat.lt_succ_of_lt ih

namespace Evaluation

def Invokes (e : Evaluation) : Prop :=
  e.code = .call ∧ ∃ stack, e.acc = .combiner (.continuation stack)

/-- A run to the first state that is at the target with no more than `height` frames, on the way
to which no continuation is invoked. -/
inductive RunsTo (target : Code) (height : Nat) : Evaluation → Evaluation → Prop
  | here {e : Evaluation} : e.code = target → e.stack.height ≤ height → RunsTo target height e e
  | step {e next final : Evaluation} : ¬ (e.code = target ∧ e.stack.height ≤ height) →
    ¬ e.Invokes → e.step = .running next → RunsTo target height next final →
    RunsTo target height e final

def Completes (target : Code) (e final : Evaluation) : Prop := RunsTo target e.stack.height e final

/-- The target lies ahead, of the code on the base stack, or of what will resume on it. -/
def Heads (target : Code) (base : Stack) (e : Evaluation) : Prop :=
  e.stack = base ∧ target.Ahead e.code ∨ Stack.Resumes target base e.stack

variable {e next final : Evaluation} {target : Code} {base : Stack}

theorem Heads.level (base_eq : e.stack = base) (proper : target ≠ .ret)
    (ahead : target.Ahead e.code) (other : e.code ≠ target) (moves : e.Moves next) :
    next.Heads target base := by
  cases moves with
  | along link _ _ same => exact .inl ⟨same.trans base_eq, ahead.of_link other link⟩
  | pend here _ _ same =>
    rw [here] at ahead other
    exact .inl ⟨same.trans base_eq, ahead.of_argument other⟩
  | capture here _ _ _ same =>
    rw [here] at ahead other
    exact .inl ⟨same.trans base_eq, ahead.of_capture other⟩
  | push here _ _ pushed =>
    rw [here] at ahead other
    rw [Heads, pushed, base_eq]
    exact .inr (.lowest (ahead.of_frame other))
  | pop here =>
    rw [here] at ahead
    exact (proper ahead.eq_of_ret.symm).elim
  | enter combines | unwrap combines | native combines | eval combines =>
    exact (other (ahead.eq_of_combines combines)).elim
  | supply here => exact (other (ahead.eq_of_combines (.inl ⟨_, here⟩))).elim
  | reinstate here => exact (other (ahead.eq_of_combines (.inr here))).elim

theorem Heads.above (resumes : Stack.Resumes target base e.stack) (quiet : ¬ e.Invokes)
    (moves : e.Moves next) : next.Heads target base := by
  cases moves with
  | along _ _ _ same | pend _ _ _ same | capture _ _ _ _ same | enter _ _ _ same
  | unwrap _ _ _ _ _ same | supply _ _ _ _ _ same | native _ _ _ same | eval _ _ _ _ same =>
    exact .inr (same ▸ resumes)
  | push here _ _ pushed =>
    rw [Heads, pushed]
    exact .inr (.above resumes)
  | pop here top resumed =>
    rw [top] at resumes
    cases resumes with
    | lowest ahead => exact .inl ⟨rfl, resumed ▸ ahead⟩
    | above resumes => exact .inr resumes
  | reinstate here acc => exact (quiet ⟨here, _, acc⟩).elim

theorem Heads.stack_eq (heads : e.Heads target base) (small : e.stack.height ≤ base.height) :
    e.stack = base := by
  rcases heads with ⟨same, _⟩ | resumes
  · exact same
  · have := resumes.height_lt
    omega

theorem RunsTo.stack_eq (runs : RunsTo target base.height e final) (proper : target ≠ .ret)
    (heads : e.Heads target base) : final.stack = base := by
  induction runs with
  | here _ small => exact heads.stack_eq small
  | step other quiet stepped _ ih =>
    refine ih ?_
    have moves := moves_of_step stepped
    rcases heads with ⟨same, ahead⟩ | resumes
    · have elsewhere : _ ≠ target := fun here => other ⟨here, same ▸ Nat.le_refl _⟩
      exact .level same proper ahead elsewhere moves
    · exact .above resumes quiet moves

theorem RunsTo.code_eq {height : Nat} (runs : RunsTo target height e final) :
    final.code = target := by
  induction runs with
  | here code _ => exact code
  | step _ _ _ _ ih => exact ih

theorem Completes.stack_eq (completes : e.Completes target final) (proper : target ≠ .ret)
    (ahead : target.Ahead e.code) : final.stack = e.stack :=
  RunsTo.stack_eq completes proper (.inl ⟨rfl, ahead⟩)

theorem Reachable.runsTo {height : Nat} (reachable : e.Reachable)
    (runs : RunsTo target height e final) : final.Reachable := by
  induction runs with
  | here => exact reachable
  | step _ _ stepped _ ih => exact ih (reachable.step stepped)

end Evaluation

namespace Evaluation

variable {e next : Evaluation}

theorem running_of_test {consequent alternative : Code}
    (here : e.code = .test consequent alternative)
    (stepped : e.step = .running next) :
    next.code = (if e.acc.isFalse then alternative else consequent) ∧ next.stack = e.stack := by
  by_cases exhausted : e.Exhausted
  · obtain ⟨limit, bounded, beyond⟩ := exhausted
    rw [step_of_exhausted bounded beyond] at stepped
    cases stepped
  · have code : e.tick.code = .test consequent alternative := here
    rw [step_of_not_exhausted exhausted, execute, code] at stepped
    cases stepped
    exact ⟨rfl, rfl⟩

theorem running_of_argument {code : Code} (here : e.code = .argument code)
    (stepped : e.step = .running next) : next.code = code ∧ next.stack = e.stack := by
  cases moves_of_step stepped with
  | along link => rw [here] at link; cases link
  | pend code _ _ same => exact ⟨Code.argument.inj (code.symm.trans here), same⟩
  | capture code | push code | pop code | supply code | reinstate code => cases here.symm.trans code
  | enter combines | unwrap combines | native combines | eval combines =>
    rcases combines with ⟨_, code⟩ | code <;> cases here.symm.trans code

theorem running_of_constant {value : Form} {code : Code} (here : e.code = .constant value code)
    (stepped : e.step = .running next) : next.code = code ∧ next.stack = e.stack := by
  cases moves_of_step stepped with
  | along link _ _ same =>
    rw [here] at link
    exact ⟨List.mem_singleton.mp link, same⟩
  | pend code | capture code | push code | pop code | supply code | reinstate code =>
    cases here.symm.trans code
  | enter combines | unwrap combines | native combines | eval combines =>
    rcases combines with ⟨_, code⟩ | code <;> cases here.symm.trans code

theorem Combines.code_of_operative (combines : e.Combines) {id : Identity} {static : ScopeId}
    {t : Template} (acc : e.acc = .combiner (.operative id static t)) (moves : e.Moves next) :
    next.code = t.body := by
  cases moves with
  | along link => rcases combines with ⟨_, here⟩ | here <;> rw [here] at link <;> cases link
  | pend code | capture code | push code | pop code =>
    rcases combines with ⟨_, here⟩ | here <;> cases here.symm.trans code
  | enter _ held body =>
    cases acc.symm.trans held
    exact body
  | unwrap _ held | supply _ held | native _ held | eval _ held | reinstate _ held =>
    cases acc.symm.trans held

theorem Moves.stack_eq (moves : e.Moves next) (quiet : ¬ e.Invokes)
    (push : ∀ resume code, e.code ≠ .frame resume code) (pop : e.code ≠ .ret) :
    next.stack = e.stack := by
  cases moves with
  | along _ _ _ same | pend _ _ _ same | capture _ _ _ _ same | enter _ _ _ same
  | unwrap _ _ _ _ _ same | supply _ _ _ _ _ same | native _ _ _ same | eval _ _ _ _ same =>
    exact same
  | push here => exact (push _ _ here).elim
  | pop here => exact (pop here).elim
  | reinstate here acc => exact (quiet ⟨here, _, acc⟩).elim

theorem Combines.stack_eq (combines : e.Combines) (quiet : ¬ e.Invokes) (moves : e.Moves next) :
    next.stack = e.stack := by
  refine moves.stack_eq quiet (fun _ _ => ?_) ?_ <;>
    rcases combines with ⟨_, here⟩ | here <;> rw [here] <;> nofun

theorem step_of_unlimited (unlimited : e.limit = none) : e.step = e.tick.execute :=
  step_of_not_exhausted fun ⟨_, bounded, _⟩ => nomatch bounded.symm.trans unlimited

theorem step_frame (unlimited : e.limit = none) {resume code : Code}
    (here : e.code = .frame resume code) :
    ∃ next, e.step = .running next ∧ next.limit = none ∧ next.code = code ∧
      next.stack = e.stack.extend e.frames resume e.scope e.pending := by
  have code : e.tick.code = _ := here
  rw [step_of_unlimited unlimited, execute, code]
  exact ⟨_, rfl, unlimited, rfl, rfl⟩

theorem step_close (unlimited : e.limit = none) {t : Template} {code : Code}
    (here : e.code = .close t code) (operative : t.wraps = false) :
    ∃ next, e.step = .running next ∧ next.limit = none ∧ next.code = code ∧
      next.acc = .combiner (.operative e.store.fresh e.scope t) ∧ next.stack = e.stack := by
  obtain ⟨parameters, formal, source, body, wraps⟩ := t
  cases operative
  have code : e.tick.code = _ := here
  rw [step_of_unlimited unlimited, execute, code]
  exact ⟨_, rfl, unlimited, rfl, rfl, rfl⟩

theorem step_thunk (unlimited : e.limit = none) {id : Identity} {static : ScopeId}
    {source : Form} {body : Code} (here : e.code = .apply .nil)
    (acc : e.acc = .combiner (.operative id static ⟨.nil, .ignore, source, body, false⟩)) :
    ∃ next, e.step = .running next ∧ next.limit = none ∧ next.code = body ∧
      next.stack = e.stack := by
  have code : e.tick.code = _ := here
  rw [step_of_unlimited unlimited, execute_apply code acc]
  exact ⟨_, rfl, unlimited, rfl, rfl⟩

end Evaluation

theorem Template.Compiled.body_eq {t : Template} (compiled : t.Compiled) {x : Expr}
    (read : t.source.ReadsAll x) : t.body = x.code .ret := by
  have body := compiled.2
  rw [Form.compileAll_eq_ok.mpr ⟨x, read, rfl⟩] at body
  exact (Except.ok.inj body).symm

/-- What is left to do in tail position: a form, the operands of a combiner, or a combination. -/
inductive TailPosition where
  | form (x : Expr)
  | operands (xs : List Expr) (c : Combiner)
  | combination

namespace TailPosition

def At : TailPosition → Evaluation → Prop
  | form x, e => e.code = x.code .ret
  | operands xs c, e => e.code = Expr.operandsCode xs (.constant (.combiner c) .call)
  | combination, e => e.Combines

/-- From one tail position to the next in the same body: the tail of a form, or what the
combination of an applicative, or of `eval`, comes down to. -/
inductive Follows : TailPosition → Evaluation → TailPosition → Evaluation → Prop
  | conditional {test consequent alternative : Expr} {e tested next : Evaluation} :
    e.Completes (.test (consequent.code .ret) (alternative.code .ret)) tested →
    tested.step = .running next →
    Follows (.form (.conditional test consequent alternative)) e
      (.form (if tested.acc.isFalse then alternative else consequent)) next
  | sequence {first rest : Expr} {e next : Evaluation} : e.Completes (rest.code .ret) next →
    Follows (.form (.sequence first rest)) e (.form rest) next
  | operator {operator : Expr} {operands : Form} {e next : Evaluation} :
    e.Completes (.apply operands) next →
    Follows (.form (.combine operator operands)) e .combination next
  | receiver {receiver : Expr} {e next : Evaluation} : e.Completes .call next →
    Follows (.form (.capture receiver)) e .combination next
  | unwrap {id : Identity} {inner : Combiner} {xs : List Expr} {e next : Evaluation} :
    e.acc = .combiner (.applicative id inner) → e.step = .running next →
    next.code = Expr.operandsCode xs (.constant (.combiner inner) .call) →
    Follows .combination e (.operands xs inner) next
  | operand {x : Expr} {xs : List Expr} {c : Combiner} {e value next : Evaluation} :
    e.Completes (.argument (Expr.operandsCode xs (.constant (.combiner c) .call))) value →
    value.step = .running next → Follows (.operands (x :: xs) c) e (.operands xs c) next
  | call {c : Combiner} {e next : Evaluation} : e.step = .running next →
    Follows (.operands [] c) e .combination next
  | eval {form : Form} {x : Expr} {e next : Evaluation} : e.acc = .combiner .eval →
    e.step = .running next → form.Reads x → next.code = x.code .ret →
    Follows .combination e (.form x) next

/-- The combination of an operative enters its body, which reads as the given expression. -/
def Enters (e : Evaluation) (x : Expr) (next : Evaluation) : Prop :=
  ∃ id static t, e.acc = .combiner (.operative id static t) ∧ t.source.ReadsAll x ∧
    e.step = .running next

inductive Chain (p : TailPosition) (e : Evaluation) : Nat → TailPosition → Evaluation → Prop
  | start : Chain p e 0 p e
  | follow {n : Nat} {q r : TailPosition} {later next : Evaluation} : Chain p e n q later →
    Follows q later r next → Chain p e n r next
  | enter {n : Nat} {x : Expr} {later next : Evaluation} : Chain p e n .combination later →
    Enters later x next → Chain p e (n + 1) (.form x) next

variable {p q : TailPosition} {e next : Evaluation}

theorem Follows.keeps (follows : Follows p e q next) (here : p.At e) :
    q.At next ∧ next.stack = e.stack := by
  -- In each case the code that follows is ahead at the start, so it is reached on the same stack.
  cases follows with
  | @conditional test consequent alternative _ tested _ done stepped =>
    have ahead : Code.Ahead (.test (consequent.code .ret) (alternative.code .ret)) e.code := by
      rw [(here : e.code = _)]
      exact .expr test nofun .here
    obtain ⟨code, kept⟩ := Evaluation.running_of_test done.code_eq stepped
    refine ⟨?_, kept.trans (done.stack_eq nofun ahead)⟩
    rw [At, code]
    split <;> rfl
  | @sequence first rest _ _ done =>
    have ahead : Code.Ahead (rest.code .ret) e.code := by
      rw [(here : e.code = _)]
      exact .expr first (rest.code_ne_ret _) .here
    exact ⟨done.code_eq, done.stack_eq (rest.code_ne_ret _) ahead⟩
  | @operator operator operands _ _ done =>
    have ahead : Code.Ahead (.apply operands) e.code := by
      rw [(here : e.code = _)]
      exact .expr operator nofun .here
    exact ⟨.inl ⟨operands, done.code_eq⟩, done.stack_eq nofun ahead⟩
  | @receiver receiver _ _ done =>
    have ahead : Code.Ahead .call e.code := by
      rw [(here : e.code = _)]
      exact .capture (.expr receiver nofun .here)
    exact ⟨.inr done.code_eq, done.stack_eq nofun ahead⟩
  | unwrap acc stepped code =>
    -- Nothing but a continuation exchanges the stack.
    have quiet : ¬ e.Invokes := fun ⟨_, _, invoked⟩ => by cases acc.symm.trans invoked
    exact ⟨code, here.stack_eq quiet (Evaluation.moves_of_step stepped)⟩
  | @operand x xs c _ _ _ done stepped =>
    have ahead : Code.Ahead (.argument (Expr.operandsCode xs (.constant (.combiner c) .call)))
        e.code := by
      rw [(here : e.code = _)]
      exact .expr x nofun .here
    obtain ⟨code, kept⟩ := Evaluation.running_of_argument done.code_eq stepped
    exact ⟨code, kept.trans (done.stack_eq nofun ahead)⟩
  | call stepped =>
    obtain ⟨code, kept⟩ := Evaluation.running_of_constant here stepped
    exact ⟨.inr code, kept⟩
  | eval acc stepped read code =>
    have quiet : ¬ e.Invokes := fun ⟨_, _, invoked⟩ => by cases acc.symm.trans invoked
    exact ⟨code, here.stack_eq quiet (Evaluation.moves_of_step stepped)⟩

theorem Follows.reachable (follows : Follows p e q next) (reachable : e.Reachable) :
    next.Reachable := by
  cases follows with
  | conditional done stepped | operand done stepped => exact (reachable.runsTo done).step stepped
  | sequence done | operator done | receiver done => exact reachable.runsTo done
  | unwrap _ stepped | call stepped | eval _ stepped => exact reachable.step stepped

theorem Enters.keeps {x : Expr} (enters : Enters e x next) (reachable : e.Reachable)
    (combines : e.Combines) : next.code = x.code .ret ∧ next.stack = e.stack := by
  obtain ⟨id, static, t, acc, read, stepped⟩ := enters
  -- The body in a closure was compiled from its source, which reads in one way only.
  have closure := reachable.obeys_order.1.acc
  rw [acc] at closure
  have moves := Evaluation.moves_of_step stepped
  have quiet : ¬ e.Invokes := fun ⟨_, _, invoked⟩ => by cases acc.symm.trans invoked
  refine ⟨?_, combines.stack_eq quiet moves⟩
  rw [combines.code_of_operative acc moves]
  exact (Template.Obeys.holds closure.2.2).body_eq read

theorem Chain.keeps {n : Nat} (chain : Chain p e n q next) (reachable : e.Reachable)
    (here : p.At e) : next.Reachable ∧ q.At next ∧ next.stack = e.stack := by
  induction chain with
  | start => exact ⟨reachable, here, rfl⟩
  | follow _ follows ih =>
    obtain ⟨reached, there, stack⟩ := ih
    obtain ⟨at_next, kept⟩ := follows.keeps there
    exact ⟨follows.reachable reached, at_next, kept.trans stack⟩
  | enter _ enters ih =>
    obtain ⟨reached, combines, stack⟩ := ih
    obtain ⟨code, kept⟩ := enters.keeps reached combines
    obtain ⟨_, _, _, _, _, stepped⟩ := enters
    exact ⟨reached.step stepped, code, kept.trans stack⟩

end TailPosition

theorem Evaluation.Reachable.tail_calls {e : Evaluation} (reachable : e.Reachable) :
    (∀ stack, stack = e.stack ∨ e.Captured stack → stack.NeverJustReturns) ∧
      ∀ {form : Form} {x : Expr}, form.Reads x → form.compile .ret = .ok e.code →
        ∀ {n : Nat} {q : TailPosition} {next : Evaluation},
          TailPosition.Chain (.form x) e n q next → q.At next ∧ next.stack = e.stack := by
  refine ⟨fun stack has => (reachable.stack_fits has).neverJustReturns, ?_⟩
  intro form x read compiled n q next chain
  rw [Form.compile_eq_ok.mpr ⟨x, read, rfl⟩] at compiled
  exact (chain.keeps reachable (Except.ok.inj compiled).symm).2

theorem TailPosition.chain_of_thunk {e : Evaluation} (unlimited : e.limit = none) {source : Form}
    {x : Expr} (read : source.ReadsAll x)
    (here : e.code = .close ⟨.nil, .ignore, source, x.code .ret, false⟩ (.apply .nil)) :
    ∃ next,
      Chain (.form (.combine (.close .nil .ignore source x false) .nil)) e 1 (.form x) next := by
  obtain ⟨closed, stepped, limit, code, acc, stack⟩ := Evaluation.step_close unlimited here rfl
  obtain ⟨next, entered, _⟩ := Evaluation.step_thunk limit code acc
  have operator : e.Completes (.apply .nil) closed := by
    refine .step (fun there => ?_) (fun there => ?_) stepped (.here code (stack ▸ Nat.le_refl _))
    · cases here.symm.trans there.1
    · cases here.symm.trans there.1
  exact ⟨next, .enter (.follow .start (.operator operator)) ⟨_, _, _, acc, read, entered⟩⟩

/-- A body whose tail is the combination of a closure, on the one frame that the outermost
combination pushed. -/
theorem Evaluation.Reachable.tail_calls_of_nested : ∃ (e entered : Evaluation) (x : Expr),
    e.Reachable ∧ TailPosition.Chain (.form x) e 1 (.form (.constant .nil)) entered ∧
      e.stack.height = 1 ∧ entered.stack = e.stack := by
  let vau (body : Form) : Form :=
    .pair 0 (.symbol "$vau") (.pair 0 .nil (.pair 0 .ignore (.pair 0 body .nil)))
  let inner : Form := .pair 0 (vau .nil) .nil
  let thunk : Expr := .close .nil .ignore (.pair 0 .nil .nil) (.constant .nil) false
  have found : SpecialForm.ofHead? (.symbol "$vau") = some (.vau, "$vau") := rfl
  have read : inner.Reads (.combine thunk .nil) :=
    .combination rfl (.vau found rfl rfl rfl (.last rfl (.constant rfl rfl)))
  obtain ⟨m, kept, session, unlimited, _, numbered, bound⟩ := Session.Reachable.exists_machine
  let body := (Expr.combine thunk .nil).code .ret
  let whole : Code := .frame .halt
    (.close ⟨.nil, .ignore, .pair 0 inner .nil, body, false⟩ (.apply .nil))
  have compiled : (Form.pair 0 (vau inner) .nil).compile .halt = .ok whole := rfl
  have plain : (Form.pair 0 (vau inner) .nil).Plain m := by
    intro D room
    have zero := room.object 0 numbered
    simp [inner, vau, Form.Obeys, zero]
  have start : (m.start whole 0).Reachable := session.start plain compiled bound
  obtain ⟨e₁, pushed, limit₁, code₁, stack₁⟩ := step_frame (e := m.start whole 0) unlimited rfl
  obtain ⟨e₂, closed, limit₂, code₂, acc, stack₂⟩ := step_close limit₁ code₁ rfl
  obtain ⟨e₃, entered, limit₃, code₃, stack₃⟩ := step_thunk limit₂ code₂ acc
  have reachable := ((start.step pushed).step closed).step entered
  obtain ⟨next, chain⟩ :=
    TailPosition.chain_of_thunk limit₃ (.last rfl (.constant rfl rfl)) code₃
  have compiled : inner.compile .ret = .ok e₃.code := code₃ ▸ rfl
  refine ⟨e₃, next, _, reachable, chain, ?_, (reachable.tail_calls.2 read compiled chain).2⟩
  rw [stack₃, stack₂, stack₁]
  rfl

end Vau
