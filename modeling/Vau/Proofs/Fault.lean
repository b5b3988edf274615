import Vau.Proofs.Checked
import Vau.Proofs.Continuation
import Vau.Proofs.Fault.Compile

/-! The class of an error tells where it comes from.

What is wrong with a state is told apart from what the machine does about it. For each function of
the machine, the errors that it fails with are exactly those of what is wrong. -/

set_option autoImplicit false

namespace Vau

namespace Form

/-- The parts of a parameter tree and of an operand tree where they first do not match. -/
def clash? : Form → Form → Option (Form × Form)
  | symbol _, _ | ignore, _ | nil, nil => none
  | pair _ car cdr, pair _ first rest => (car.clash? first).or (cdr.clash? rest)
  | part, operand => some (part, operand)

def isParameter : Form → Bool
  | symbol _ | ignore | nil | pair .. => true
  | _ => false

def objection (part operand : Form) : Cause :=
  if part.isParameter then .mismatch part.text operand.text else .illegalParameter part.text

theorem objection_of_parameter {part : Form} (proper : part.isParameter) (got : Form) :
    part.objection got = .mismatch part.text got.text :=
  if_pos proper

theorem objection_of_other {part : Form} (spoiled : part.isParameter = false) (got : Form) :
    part.objection got = .illegalParameter part.text :=
  if_neg (Bool.eq_false_iff.mp spoiled)

theorem isParameter_of_clash? : ∀ {parameters operand part got : Form}, parameters.IsParameters →
    parameters.clash? operand = some (part, got) → part.isParameter
  | .symbol _, _, _, _, _, clash | .ignore, _, _, _, _, clash => by cases clash
  | .nil, operand, _, _, _, clash => by
    cases operand <;> cases clash <;> rfl
  | .pair _ car cdr, operand, _, _, ⟨carTree, cdrTree⟩, clash => by
    cases operand with
    | pair _ first rest =>
      rcases Option.or_eq_some_iff.mp clash with clash | ⟨_, clash⟩
      · exact isParameter_of_clash? carTree clash
      · exact isParameter_of_clash? cdrTree clash
    | _ =>
      cases clash
      rfl

end Form

theorem Scopes.bind_cases : ∀ (scopes : Scopes) (e : ScopeId) (parameters operands : Form),
      (∃ later, scopes.bind e parameters operands = (.ok (), later) ∧
        parameters.clash? operands = none) ∨
      ∃ later part got, scopes.bind e parameters operands =
          (.error (.of (part.objection got)), later) ∧
        parameters.clash? operands = some (part, got)
  | _, _, .symbol _, _ | _, _, .ignore, _ => .inl ⟨_, rfl, rfl⟩
  | _, _, .nil, operands => by
    cases operands with
    | nil => exact .inl ⟨_, rfl, rfl⟩
    | _ => exact .inr ⟨_, _, _, rfl, rfl⟩
  | scopes, e, .pair _ car cdr, operands => by
    cases operands with
    | pair _ first rest =>
      simp only [bind, Form.clash?]
      rcases bind_cases scopes e car first with
        ⟨later, bound, clash⟩ | ⟨later, part, got, bound, clash⟩
      · simp only [bound, clash, Option.none_or]
        exact bind_cases later e cdr rest
      · simp only [bound, clash, Option.some_or]
        exact .inr ⟨later, part, got, rfl, rfl⟩
    | _ => exact .inr ⟨_, _, _, rfl, rfl⟩
  | _, _, .int _, operands | _, _, .real _, operands | _, _, .bool _, operands
  | _, _, .inert, operands | _, _, .combiner _, operands | _, _, .environment _, operands => by
    cases operands <;> exact .inr ⟨_, _, _, rfl, rfl⟩

theorem Scopes.bind_eq_error (scopes : Scopes) (e : ScopeId) {parameters operands : Form}
    {error : Error} : (scopes.bind e parameters operands).1 = .error error ↔ ∃ part got,
      parameters.clash? operands = some (part, got) ∧ .of (part.objection got) = error := by
  rcases scopes.bind_cases e parameters operands with
    ⟨later, bound, fits⟩ | ⟨later, part, got, bound, clash⟩
  · rw [bound, fits]
    exact ⟨nofun, nofun⟩
  · rw [bound, clash]
    constructor
    · intro raised
      exact ⟨part, got, rfl, Except.error.inj raised⟩
    · rintro ⟨_, _, same, rfl⟩
      cases same
      rfl

def Scopes.Lacks (scopes : Scopes) (e : ScopeId) (name : String) : Prop :=
  ∀ d ∈ scopes.chain e, (scopes.bindings d).get? name = none

namespace Scopes

variable {scopes : Scopes} {e : ScopeId} {name : String} {error : Error}

theorem lookup_eq_error : scopes.lookup e name = .error error ↔
    scopes.Lacks e name ∧ error = .of (.unbound name) := by
  have absent : scopes.get? e name = none ↔ scopes.Lacks e name := List.findSome?_eq_none_iff
  unfold lookup
  rw [← absent]
  cases scopes.get? e name <;> simp [eq_comm]

theorem set_eq_error {value : Form} : scopes.set e name value = .error error ↔
    scopes.Lacks e name ∧ error = .of (.unbound name) := by
  have absent : scopes.binder? e name = none ↔ scopes.Lacks e name := by
    simp only [binder?, List.find?_eq_none, Bool.not_eq_true, Option.isSome_eq_false_iff,
      Option.isNone_iff_eq_none, Lacks]
  unfold set
  rw [← absent]
  cases scopes.binder? e name <;> simp [eq_comm]

end Scopes

theorem Machine.errorClass_callNative {m : Machine} {n : Native} {args : List Form} {error : Error}
    (raised : (m.callNative n args).1 = .error error) : error.errorClass = .native := by
  have own {result : Except Error Form}
      (raised : (result.mapError fun e => (e.orOperator n.name).fromNative) = .error error) :
      error.errorClass = .native := by
    cases result <;> cases raised
    rfl
  cases n with
  | primitive p => exact own raised
  | host index name =>
    unfold callNative at raised
    dsimp only at raised
    split at raised
    · exact own raised
    · cases raised
      rfl

/-- Where an error of an evaluation comes from. -/
inductive Origin where
  | limit
  /-- A name that no scope on the way up binds. -/
  | name
  /-- Operands that do not match what they are for. -/
  | operands
  /-- A value that is no combiner. -/
  | combiner
  | native
  /-- The number and the types of what `eval` is given. -/
  | evalArguments
  | compiler
  /-- A parameter tree that the compiler would have refused. -/
  | parameters
  deriving DecidableEq

def Origin.errorClass : Origin → ErrorClass
  | limit => .limit
  | name => .unbound
  | operands => .binding
  | combiner => .notCombinable
  | native | evalArguments => .native
  | compiler | parameters => .compile

def Cause.blamesParameters : Cause → Bool
  | illegalParameter _ | duplicateParameter _ => true
  | _ => false

def Progress.error? : Progress → Option Error
  | failed error _ => some error
  | running _ | finished .. => none

namespace Evaluation

/-- An error of operands names the combiner, unless it names another operator. -/
def naming (e : Evaluation) (error : Error) : Error :=
  match e.acc.combiner?.bind Combiner.name? with
  | some name => error.orOperator name
  | none => error

/-- Why a combiner does not take its operands. Applicatives, and continuations like them, have their
operands compiled. -/
inductive Refuses (e : Evaluation) : Combiner → Form → Origin → Error → Prop
  | operands {id : Identity} {static : ScopeId} {t : Template} {operands part got : Form} :
    t.parameters.clash? operands = some (part, got) → part.isParameter →
    Refuses e (.operative id static t) operands .operands (.of (.mismatch part.text got.text))
  | parameters {id : Identity} {static : ScopeId} {t : Template} {operands part got : Form} :
    t.parameters.clash? operands = some (part, got) → part.isParameter = false →
    Refuses e (.operative id static t) operands .parameters (.of (.illegalParameter part.text))
  | improper {c : Combiner} {operands : Form} : c.isOperative = false → operands.list? = none →
    Refuses e c operands .operands
      (e.naming (.of (.mismatch "a proper list of operands" operands.text)))
  | operand {c : Combiner} {operands : Form} {args : List Form} {error : Error} :
    c.isOperative = false → operands.list? = some args → Form.LastRefused args error →
    Refuses e c operands .compiler (e.naming error)
  | nativeImproper {n : Native} {operands : Form} : operands.list? = none →
    Refuses e (.native n) operands .operands
      ((Error.of (.mismatch "a proper list of operands" (operands.textDuring n))).orOperator n.name)
  | native {n : Native} {operands : Form} {args : List Form} {error : Error} :
    operands.list? = some args → (e.toMachine.callNative n args).1 = .error error →
    Refuses e (.native n) operands .native error
  | evalImproper {operands : Form} : operands.list? = none →
    Refuses e .eval operands .operands
      ((Error.of (.mismatch "a proper list of operands" operands.text)).withOperator "eval")
  | evalCount {operands : Form} {args : List Form} : operands.list? = some args →
    args.length ≠ 2 → Refuses e .eval operands .evalArguments
      ((Error.of (.arity (.exactly 2) (Count.wrapped args.length))).withOperator "eval").fromNative
  | evalType {operands form other : Form} : operands.list? = some [form, other] →
    other.environment? = none → Refuses e .eval operands .evalArguments
      (((Error.of (.wrongType "environment" other.text)).withOperator "eval").withArgument 2)
  | evalForm {operands form : Form} {scope : ScopeId} {error : Error} :
    operands.list? = some [form, .environment scope] → form.compile .ret = .error error →
    Refuses e .eval operands .compiler error

/-- What is wrong with a state. -/
inductive Faults (e : Evaluation) : Origin → Error → Prop
  | unbound {name : String} {next : Code} : e.code = .refer name next ∨ e.code = .assign name next →
    e.store.scopes.Lacks e.scope name → Faults e .name (.of (.unbound name))
  | define {parameters part got : Form} {next : Code} : e.code = .define parameters next →
    parameters.clash? e.acc = some (part, got) → part.isParameter →
    Faults e .operands (.of (.mismatch part.text got.text))
  | parameters {parameters part got : Form} {next : Code} : e.code = .define parameters next →
    parameters.clash? e.acc = some (part, got) → part.isParameter = false →
    Faults e .parameters (.of (.illegalParameter part.text))
  | notCombinable : e.Combines → e.acc.combiner? = none →
    Faults e .combiner (.of (.notCombinable e.acc.text))
  | apply {operands : Form} {c : Combiner} {origin : Origin} {error : Error} :
    e.code = .apply operands → e.acc = .combiner c → e.Refuses c operands origin error →
    Faults e origin error
  | call {c : Combiner} {origin : Origin} {error : Error} : e.code = .call →
    e.acc = .combiner c → (∀ k, c ≠ .continuation k) →
    e.handed.Refuses c e.arguments origin error → Faults e origin error
  | values {k : Stack} {values : List Form} : e.Resumes k values → Form.passed? values = none →
    Faults e .operands (.of (.mismatch "at most one value" e.arguments.text))

/-- Why an evaluation stops with an error here: it has used up its instructions, or else something
is wrong. -/
inductive Stops (e : Evaluation) : Origin → Error → Prop
  | limit {limit : Nat} : e.limit = some limit → limit < e.steps + 1 →
    Stops e .limit (.of (.stepLimit limit))
  | fault {origin : Origin} {error : Error} : ¬ e.Exhausted → e.tick.Faults origin error →
    Stops e origin error

variable {e : Evaluation} {c : Combiner} {operands : Form} {origin : Origin} {error : Error}

theorem errorClass_naming (e : Evaluation) (error : Error) :
    (e.naming error).errorClass = error.errorClass := by
  unfold naming
  split <;> rfl

theorem Refuses.errorClass (refuses : e.Refuses c operands origin error) :
    error.errorClass = origin.errorClass := by
  cases refuses with
  | operands | parameters | nativeImproper | evalImproper | evalCount | evalType => rfl
  | improper => exact e.errorClass_naming _
  | operand _ _ refused =>
    obtain ⟨_, f, _, _, refused, _⟩ := refused
    exact (e.errorClass_naming _).trans (f.raises_compile .halt _ (refused _))
  | native _ raised => exact Machine.errorClass_callNative raised
  | evalForm _ refused => exact Form.raises_compile _ _ _ refused

theorem Faults.errorClass (faults : e.Faults origin error) :
    error.errorClass = origin.errorClass := by
  cases faults with
  | unbound | define | parameters | notCombinable | values => rfl
  | apply _ _ refuses | call _ _ _ refuses => exact refuses.errorClass

theorem Stops.errorClass (stops : e.Stops origin error) :
    error.errorClass = origin.errorClass := by
  cases stops with
  | limit => rfl
  | fault _ faults => exact faults.errorClass

theorem error?_enter {static : ScopeId} {t : Template} :
    (e.enter static t operands).error? = some error ↔ ∃ part got,
      t.parameters.clash? operands = some (part, got) ∧ .of (part.objection got) = error := by
  rw [← Scopes.bind_eq_error (e.store.scopes.extend (some static)).2
    (e.store.scopes.extend (some static)).1]
  unfold enter
  dsimp only
  split <;> rename_i bound <;> rw [bound] <;> simp [Progress.error?]

theorem error?_evaluateOperands : (e.evaluateOperands operands c).error? = some error ↔
    ∃ raised, operands.compileArguments c = .error raised ∧ e.naming raised = error := by
  unfold evaluateOperands
  cases operands.compileArguments c with
  | ok code => simp [Progress.error?]
  | error raised =>
    simp only [Except.error.injEq, exists_eq_left']
    exact Option.some_inj

theorem error?_settle {code : Code} {outcome : Except Error Form × Machine} :
    (e.settle code outcome).error? = some error ↔ outcome.1 = .error error := by
  obtain ⟨_ | _, m⟩ := outcome <;> simp [settle, Progress.error?]

theorem apply_of_evaluates (e : Evaluation) (evaluates : c.isOperative = false)
    (operands : Form) : ∃ inner, e.apply c operands = e.evaluateOperands operands inner := by
  cases c with
  | applicative id inner => exact ⟨inner, rfl⟩
  | continuation k => exact ⟨.continuation k, rfl⟩
  | operative | native | eval => cases evaluates

theorem refuses_of_evaluateOperands {inner : Combiner} (evaluates : c.isOperative = false)
    (failed : (e.evaluateOperands operands inner).error? = some error) :
    ∃ origin, e.Refuses c operands origin error := by
  obtain ⟨raised, refused, rfl⟩ := error?_evaluateOperands.mp failed
  rcases Form.compileArguments_eq_error.mp refused with ⟨improper, rfl⟩ | ⟨args, proper, refused⟩
  · exact ⟨_, .improper evaluates improper⟩
  · exact ⟨_, .operand evaluates proper refused⟩

theorem refuses_of_callNative {n : Native}
    (failed : (e.callNative n operands).error? = some error) :
    ∃ origin, e.Refuses (.native n) operands origin error := by
  unfold callNative at failed
  split at failed
  · rename_i args read
    exact ⟨_, .native (Form.operands_eq_ok.mp read) (error?_settle.mp failed)⟩
  · rename_i raised read
    obtain ⟨improper, rfl⟩ := Form.operands_eq_error.mp read
    cases failed
    exact ⟨_, .nativeImproper improper⟩

theorem refuses_of_callEval (failed : (e.callEval operands).error? = some error) :
    ∃ origin, e.Refuses .eval operands origin error := by
  unfold callEval at failed
  dsimp only at failed
  split at failed
  · rename_i raised read
    obtain ⟨improper, rfl⟩ := Form.operands_eq_error.mp read
    cases failed
    exact ⟨_, .evalImproper improper⟩
  · rename_i form scope read
    split at failed
    · cases failed
    · rename_i raised refused
      cases failed
      exact ⟨_, .evalForm (Form.operands_eq_ok.mp read) refused⟩
  · rename_i form other untyped read
    cases failed
    refine ⟨_, .evalType (Form.operands_eq_ok.mp read) ?_⟩
    cases other with
    | environment scope => exact (untyped scope rfl).elim
    | _ => rfl
  · rename_i args typed counted read
    cases failed
    refine ⟨_, .evalCount (Form.operands_eq_ok.mp read) fun two => ?_⟩
    match args, two with
    | [form, other], _ => exact counted form other rfl

theorem refuses_of_apply (failed : (e.apply c operands).error? = some error) :
    ∃ origin, e.Refuses c operands origin error := by
  cases c with
  | operative id static t =>
    obtain ⟨part, got, clash, rfl⟩ := error?_enter.mp failed
    cases proper : part.isParameter with
    | true =>
      rw [Form.objection_of_parameter proper]
      exact ⟨_, .operands clash proper⟩
    | false =>
      rw [Form.objection_of_other proper]
      exact ⟨_, .parameters clash proper⟩
  | applicative id inner => exact refuses_of_evaluateOperands rfl failed
  | native n => exact refuses_of_callNative failed
  | eval => exact refuses_of_callEval failed
  | continuation stack => exact refuses_of_evaluateOperands rfl failed

theorem Refuses.error?_apply (refuses : e.Refuses c operands origin error) :
    (e.apply c operands).error? = some error := by
  cases refuses with
  | operands clash proper =>
    exact error?_enter.mpr ⟨_, _, clash, by rw [Form.objection_of_parameter proper]⟩
  | parameters clash spoiled =>
    exact error?_enter.mpr ⟨_, _, clash, by rw [Form.objection_of_other spoiled]⟩
  | improper evaluates improper =>
    obtain ⟨inner, same⟩ := e.apply_of_evaluates evaluates operands
    rw [same]
    exact error?_evaluateOperands.mpr
      ⟨_, Form.compileArguments_eq_error.mpr (.inl ⟨improper, rfl⟩), rfl⟩
  | operand evaluates proper refused =>
    obtain ⟨inner, same⟩ := e.apply_of_evaluates evaluates operands
    rw [same]
    exact error?_evaluateOperands.mpr
      ⟨_, Form.compileArguments_eq_error.mpr (.inr ⟨_, proper, refused⟩), rfl⟩
  | @nativeImproper n _ improper =>
    change (e.callNative n operands).error? = _
    rw [callNative, Form.operands_eq_error.mpr ⟨improper, rfl⟩]
    rfl
  | @native n _ args _ proper raised =>
    change (e.callNative n operands).error? = _
    rw [callNative, Form.operands_eq_ok.mpr proper]
    exact error?_settle.mpr raised
  | evalImproper improper =>
    change (e.callEval operands).error? = _
    rw [callEval, Form.operands_eq_error.mpr ⟨improper, rfl⟩]
    rfl
  | @evalCount _ args proper other =>
    change (e.callEval operands).error? = _
    rw [callEval, Form.operands_eq_ok.mpr proper]
    split <;> rename_i read <;> cases read
    · exact (other rfl).elim
    · exact (other rfl).elim
    · rfl
  | @evalType _ form other proper untyped =>
    change (e.callEval operands).error? = _
    rw [callEval, Form.operands_eq_ok.mpr proper]
    cases other with
    | environment scope => cases untyped
    | _ => rfl
  | evalForm proper refused =>
    change (e.callEval operands).error? = _
    rw [callEval, Form.operands_eq_ok.mpr proper]
    dsimp only
    rw [refused]
    rfl

theorem combiner_eq_error (missing : e.combiner = .error error) :
    e.acc.combiner? = none ∧ error = .of (.notCombinable e.acc.text) := by
  unfold combiner at missing
  split at missing
  · cases missing
  · rename_i other
    cases missing
    refine ⟨?_, rfl⟩
    cases acc : e.acc with
    | combiner c => exact (other c acc).elim
    | _ => rfl

theorem error?_define {parameters : Form} {next : Code}
    (here : e.code = .define parameters next) : e.execute.error? = some error ↔ ∃ part got,
      parameters.clash? e.acc = some (part, got) ∧ .of (part.objection got) = error := by
  rw [execute_define here, ← e.store.scopes.bind_eq_error e.scope]
  split <;> rename_i bound <;> rw [bound] <;> simp [Progress.error?]

theorem error?_close {t : Template} {next : Code} (here : e.code = .close t next) :
    e.execute.error? = none := by
  rw [execute_close here]
  unfold close
  cases t.wraps <;> rfl

theorem faults_of_execute (failed : e.execute.error? = some error) :
    ∃ origin, e.Faults origin error := by
  have missing (combines : e.Combines) {raised : Error} (missing : e.combiner = .error raised) :
      ∃ origin, e.Faults origin error := by
    rw [execute_not_combinable combines missing] at failed
    cases failed
    obtain ⟨acc, rfl⟩ := combiner_eq_error missing
    exact ⟨_, .notCombinable combines acc⟩
  cases here : e.code with
  | refer name next =>
    rw [execute_refer here] at failed
    split at failed
    · cases failed
    · rename_i raised looked
      cases failed
      obtain ⟨lacks, rfl⟩ := Scopes.lookup_eq_error.mp looked
      exact ⟨_, .unbound (.inl here) lacks⟩
  | assign name next =>
    rw [execute_assign here] at failed
    split at failed
    · cases failed
    · rename_i raised assigned
      cases failed
      obtain ⟨lacks, rfl⟩ := Scopes.set_eq_error.mp assigned
      exact ⟨_, .unbound (.inr here) lacks⟩
  | define parameters next =>
    obtain ⟨part, got, clash, rfl⟩ := (error?_define here).mp failed
    cases proper : part.isParameter with
    | true =>
      rw [Form.objection_of_parameter proper]
      exact ⟨_, .define here clash proper⟩
    | false =>
      rw [Form.objection_of_other proper]
      exact ⟨_, .parameters here clash proper⟩
  | apply operands =>
    cases found : e.combiner with
    | error raised => exact missing (.inl ⟨_, here⟩) found
    | ok c =>
      have acc := combiner_eq_ok found
      rw [execute_apply here acc] at failed
      obtain ⟨origin, refuses⟩ := refuses_of_apply failed
      exact ⟨origin, .apply here acc refuses⟩
  | call =>
    cases found : e.combiner with
    | error raised => exact missing (.inr here) found
    | ok c =>
      have acc := combiner_eq_ok found
      -- Continuations are handed values here, as operands they are handed in an application.
      by_cases captured : ∃ k, c = .continuation k
      · obtain ⟨k, rfl⟩ := captured
        have resumes : e.Resumes k e.pending.items.reverse := ⟨here, acc, rfl⟩
        cases passed : Form.passed? e.pending.items.reverse with
        | some value =>
          rw [resumes.execute_passed passed] at failed
          cases failed
        | none =>
          rw [resumes.execute_rejected passed] at failed
          cases failed
          exact ⟨_, .values resumes passed⟩
      · have other (k : Stack) : c ≠ .continuation k := fun same => captured ⟨k, same⟩
        rw [execute_call here acc, combine_eq_apply other] at failed
        obtain ⟨origin, refuses⟩ := refuses_of_apply failed
        exact ⟨origin, .call here acc other refuses⟩
  | close t next =>
    rw [error?_close here] at failed
    cases failed
  | ret =>
    rw [execute, here] at failed
    cases top : e.stack <;> rw [top] at failed <;> cases failed
  | constant | test | frame | argument | capture | halt =>
    rw [execute, here] at failed
    cases failed

theorem Faults.error?_execute (faults : e.Faults origin error) :
    e.execute.error? = some error := by
  cases faults with
  | unbound here lacks =>
    rcases here with here | here
    · rw [execute_refer here, Scopes.lookup_eq_error.mpr ⟨lacks, rfl⟩]
      rfl
    · rw [execute_assign here, Scopes.set_eq_error.mpr ⟨lacks, rfl⟩]
      rfl
  | define here clash proper =>
    exact (error?_define here).mpr ⟨_, _, clash, by rw [Form.objection_of_parameter proper]⟩
  | parameters here clash spoiled =>
    exact (error?_define here).mpr ⟨_, _, clash, by rw [Form.objection_of_other spoiled]⟩
  | notCombinable combines acc =>
    have missing : e.combiner = .error (.of (.notCombinable e.acc.text)) := by
      unfold combiner
      split
      · rename_i c held
        rw [held] at acc
        cases acc
      · rfl
    rw [execute_not_combinable combines missing]
    rfl
  | apply here acc refuses =>
    rw [execute_apply here acc]
    exact refuses.error?_apply
  | call here acc other refuses =>
    rw [execute_call here acc, combine_eq_apply other]
    exact refuses.error?_apply
  | values resumes rejected =>
    rw [resumes.execute_rejected rejected]
    rfl

theorem error?_step : e.step.error? = some error ↔ ∃ origin, e.Stops origin error := by
  constructor
  · intro failed
    by_cases exhausted : e.Exhausted
    · obtain ⟨limit, bounded, beyond⟩ := exhausted
      rw [step_of_exhausted bounded beyond] at failed
      cases failed
      exact ⟨_, .limit bounded beyond⟩
    · rw [step_of_not_exhausted exhausted] at failed
      obtain ⟨origin, faults⟩ := faults_of_execute failed
      exact ⟨origin, .fault exhausted faults⟩
  · rintro ⟨origin, stops⟩
    cases stops with
    | limit bounded beyond =>
      rw [step_of_exhausted bounded beyond]
      rfl
    | fault exhausted faults =>
      rw [step_of_not_exhausted exhausted]
      exact faults.error?_execute

theorem Stops.only {m : Machine} {raised : Error} (stops : e.Stops origin raised)
    (failed : e.step = .failed error m) : raised = error := by
  have also := error?_step.mpr ⟨origin, stops⟩
  rw [failed] at also
  exact (Option.some.inj also).symm

theorem Refuses.origin_of_parameters (refuses : e.Refuses c operands origin error)
    (blamed : error.cause.blamesParameters) :
    origin = .compiler ∨ origin = .native ∨ origin = .parameters := by
  cases refuses with
  | operand | evalForm => exact .inl rfl
  | native => exact .inr (.inl rfl)
  | parameters => exact .inr (.inr rfl)
  | improper =>
    unfold naming at blamed
    split at blamed <;> cases blamed
  | operands | nativeImproper | evalImproper | evalCount | evalType => cases blamed

theorem Stops.origin_of_parameters (stops : e.Stops origin error)
    (blamed : error.cause.blamesParameters) :
    origin = .compiler ∨ origin = .native ∨ origin = .parameters := by
  cases stops with
  | limit => cases blamed
  | fault _ faults =>
    cases faults with
    | unbound | define | notCombinable | values => cases blamed
    | parameters => exact .inr (.inr rfl)
    | apply _ _ refuses | call _ _ _ refuses => exact refuses.origin_of_parameters blamed

theorem Refuses.origin_ne (obeys : c.Obeys .checked)
    (refuses : e.Refuses c operands origin error) : origin ≠ .parameters := by
  cases refuses with
  | parameters clash spoiled =>
    rw [Form.isParameter_of_clash? obeys.2.2.holds.1 clash] at spoiled
    cases spoiled
  | _ => nofun

/-- The trees that the machine comes to match were checked when they were compiled. -/
theorem Stops.origin_ne (checked : e.Checked) (stops : e.Stops origin error) :
    origin ≠ .parameters := by
  have acc := checked.obeys.acc
  have code := checked.code
  cases stops with
  | limit => nofun
  | fault _ faults =>
    cases faults with
    | unbound | define | notCombinable | values => nofun
    | parameters here clash spoiled =>
      rw [show e.code = _ from here] at code
      rw [Form.isParameter_of_clash? code.1 clash] at spoiled
      cases spoiled
    | apply _ held refuses | call _ held _ refuses =>
      rw [show e.acc = _ from held] at acc
      exact refuses.origin_ne acc

end Evaluation

theorem Session.Reachable.arises {s : Session} (reachable : s.Reachable) : s.Arises := by
  induction reachable with
  | refl => exact .new
  | tail _ next ih => exact .next ih next

/-- An evaluation fails because its form does not compile, or else for a reason that tells the class of
the error. Compiling refuses operands of applicatives and continuations, and forms that are given to
`eval`. A parameter tree that it would have refused is only met if the program brought it in. -/
theorem Session.error_taxonomy {s : Session} {form : Form} {scope : ScopeId} {fuel : Nat}
    {error : Error} {later : Machine}
    (ran : s.machine.evalIn fuel form scope = some (.error error, later)) :
    error.errorClass ≠ .read ∧ error.errorClass ≠ .host ∧
      ((form.compile .halt = .error error ∧ error.errorClass = .compile) ∨
        ∃ code count e, form.compile .halt = .ok code ∧
          (s.machine.start code scope).Executes count e ∧ e.step = .failed error later ∧
          (∃ origin, e.Stops origin error) ∧
          ∀ origin raised, e.Stops origin raised →
            raised = error ∧ error.errorClass = origin.errorClass ∧
            (error.cause.blamesParameters →
              origin = .compiler ∨ origin = .native ∨ origin = .parameters) ∧
            (s.Arises → form.Obeys .checked → origin ≠ .parameters)) := by
  obtain ⟨_, _, takes⟩ := Machine.evalIn_eq_some.mp ran
  cases takes with
  | refused refused =>
    have compiling := form.raises_compile .halt _ refused
    rw [compiling]
    exact ⟨nofun, nofun, .inl ⟨refused, rfl⟩⟩
  | @ended code count e _ compiled executes ended =>
    have failed : e.step = .failed error later := by
      cases stepped : e.step <;> rw [stepped] at ended <;> cases ended
      rfl
    obtain ⟨origin, stops⟩ := Evaluation.error?_step.mp (congrArg Progress.error? failed)
    have inner : error.errorClass ≠ .read ∧ error.errorClass ≠ .host := by
      rw [stops.errorClass]
      cases origin <;> exact ⟨nofun, nofun⟩
    refine ⟨inner.1, inner.2, .inr ⟨code, count, e, compiled, executes, failed, ⟨origin, stops⟩,
      fun other raised also => ?_⟩⟩
    obtain rfl := also.only failed
    exact ⟨rfl, also.errorClass, also.origin_of_parameters, fun arises known =>
      also.origin_ne ((arises.checked.machine.start known compiled).executes executes)⟩

/-- A native may raise what it likes. Called with an argument, this one blames a variable. -/
theorem Session.error_taxonomy_of_native : ∃ (s : Session) (form : Form), s.Arises ∧
    form.Obeys .checked ∧ ∃ error later,
      s.machine.evalIn 5 form 0 = some (.error error, later) ∧ error.cause = .unbound "ghost" ∧
        error.errorClass = .native ∧ ∃ e : Evaluation, e.step = .failed error later ∧
          ∃ origin, e.Stops origin error ∧ error.errorClass = origin.errorClass ∧
            origin ≠ .parameters := by
  let count : Form := .combiner (.native (.host 0 "count"))
  let form : Form := .pair 0 count (.pair 0 count .nil)
  obtain ⟨⟨store, hosts, limit, stats, frames⟩, kept, reachable, unlimited, one, _⟩ :=
    Session.Reachable.exists_machine
  cases unlimited
  cases one
  have ends : ∃ error later,
      Machine.evalIn 5 { store, hosts := #[.counting], stats, frames } form 0 =
        some (.error error, later) ∧ error.cause = .unbound "ghost" ∧
        error.errorClass = .native := ⟨_, _, rfl, rfl, rfl⟩
  obtain ⟨error, later, ran, cause, kind⟩ := ends
  have known : form.Obeys .checked := ⟨trivial, trivial, trivial, trivial, trivial⟩
  obtain ⟨_, _, ⟨_, compiling⟩ | ⟨_, _, e, _, _, failed, ⟨origin, stops⟩, only⟩⟩ :=
    Session.error_taxonomy (s := ⟨_, kept⟩) ran
  · cases kind.symm.trans compiling
  · obtain ⟨_, same, _, checked⟩ := only origin error stops
    exact ⟨_, form, reachable.arises, known, error, later, ran, cause, kind, e, failed, origin,
      stops, same, checked reachable.arises known⟩

/-- A form that compiles fails as its combiner is applied. -/
def Session.FailsApplying (s : Session) (c : Combiner) (operands : Form) (error : Error) : Prop :=
  ∃ code e later, (Form.pair 0 (.combiner c) operands).compile .halt = .ok code ∧
    s.machine.evalIn 3 (.pair 0 (.combiner c) operands) 0 = some (.error error, later) ∧
    (s.machine.start code 0).Executes 2 e ∧ e.code = .apply operands ∧ e.acc = .combiner c ∧
    e.step = .failed error later

/-- Applicatives are not the only ones to have operands compiled, continuations have too. And not only
compiling raises errors of its class: the program can make an operative with a number for a parameter
tree. -/
theorem Session.compile_errors_of_other_combiners : ∃ s : Session, s.Reachable ∧
    (∃ error, s.FailsApplying (.continuation .empty) (.pair 0 (.pair 0 (.symbol "$if") .nil) .nil)
      error ∧ error.errorClass = .compile) ∧
    ∃ error, s.FailsApplying (.operative 0 0 ⟨.int 1, .ignore, .nil, .ret, false⟩) .nil error ∧
      error.cause = .illegalParameter "1" ∧ error.errorClass = .compile := by
  obtain ⟨⟨store, hosts, limit, stats, frames⟩, kept, reachable, unlimited, _⟩ :=
    Session.Reachable.exists_machine
  cases unlimited
  refine ⟨_, reachable, ⟨_, ⟨_, _, _, rfl, rfl, .head rfl (.head rfl (.refl _)), rfl, rfl, rfl⟩, rfl⟩,
    _, ⟨_, _, _, rfl, rfl, .head rfl (.head rfl (.refl _)), rfl, rfl, rfl⟩, rfl, rfl⟩

end Vau
