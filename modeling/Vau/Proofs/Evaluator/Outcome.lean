import Vau.Proofs.Evaluator.Agreement
import Vau.Proofs.Resolution

/-! The machine and the evaluator have the same outcome, wherever the machine starts on a form.

Agreement gives what the machine does once the outcome of the evaluator is known. The other
direction holds as the machine cannot do two things. -/

set_option autoImplicit false

namespace Vau

/-- All closures and continuations in the code are ones that the state has. -/
def Evaluation.Knows (e : Evaluation) (code : Code) : Prop := ∀ D, e.Obeys D → code.Obeys D

/-- The machine goes on there with the value, in the world. -/
def Progress.Receives (there : Resumption) (value : Form) (w : World) (p : Progress) : Prop :=
  ∃ e : Evaluation, p = .running e ∧ there.Receives value e ∧ e.world = w

/-- No such state is here, nor will it be. -/
def Progress.Beyond (on : Evaluation → Prop) (p : Progress) : Prop :=
  ∀ e, p = .running e → ¬ on e

namespace Progress

variable {p : Progress} {on : Evaluation → Prop} {goal goal' : Progress → Prop}

theorem not_exhausted {e : Evaluation} (unlimited : (running e).machine.limit = none) :
    ¬ e.Exhausted := by
  rintro ⟨limit, bounded, _⟩
  cases bounded.symm.trans unlimited

theorem Leads.meets (first : p.Leads on goal) (second : p.Leads on goal')
    (unlimited : p.machine.limit = none) (ends : ∀ q, goal q → q.Beyond on)
    (ends' : ∀ q, goal' q → q.Beyond on) : ∃ q, goal q ∧ goal' q := by
  induction first with
  | here met =>
    cases second with
    | here met' => exact ⟨_, met, met'⟩
    | limited there _ => exact (ends _ met _ rfl there).elim
    | step there _ _ => exact (ends _ met _ rfl there).elim
  | limited _ exhausted => exact (not_exhausted unlimited exhausted).elim
  | step here within _ ih =>
    cases second with
    | here met' => exact (ends' _ met' _ rfl here).elim
    | limited _ exhausted => exact (within exhausted).elim
    | step _ _ later =>
      exact ih later ((congrArg Prod.fst Evaluation.settings_step).trans unlimited)

theorem Leads.not_outlasts (leads : p.Leads on goal) (unlimited : p.machine.limit = none)
    (ends : ∀ q, goal q → q.Beyond on) : ∃ n, ¬ p.Outlasts on n := by
  induction leads with
  | here met =>
    refine ⟨1, fun outlasts => ?_⟩
    cases outlasts with
    | limited there _ => exact ends _ met _ rfl there
    | step there _ _ => exact ends _ met _ rfl there
  | limited _ exhausted => exact (not_exhausted unlimited exhausted).elim
  | step _ within _ ih =>
    obtain ⟨n, spent⟩ := ih ((congrArg Prod.fst Evaluation.settings_step).trans unlimited)
    refine ⟨n + 1, fun outlasts => ?_⟩
    cases outlasts with
    | limited _ exhausted => exact within exhausted
    | step _ _ outlasts => exact spent outlasts

theorem Receives.beyond {e : Evaluation} {next : Code} {value : Form} {w : World}
    (receives : p.Receives (e.resumption next) value w) :
    p.Beyond (Evaluation.Pending next e.stack) := by
  obtain ⟨there, rfl, received, _⟩ := receives
  intro e' same pending
  cases same
  exact pending.not_at received.stack received.code

theorem Failed.beyond {error : Error} {w : World} (failed : p.Failed error w) : p.Beyond on := by
  obtain ⟨m, rfl, _⟩ := failed
  nofun

end Progress

namespace Evaluation

/-! What comes of running code in a state, which gives its value to the code that is next. A step
limit may be met before. -/

variable (e : Evaluation) (code next : Code)

def Yields (value : Form) (w : World) : Prop :=
  (Progress.running { e with code }).Leads (Pending next e.stack)
    (Progress.Receives (e.resumption next) value w)

def Fails (error : Error) (w : World) : Prop :=
  (Progress.running { e with code }).Leads (Pending next e.stack) (Progress.Failed error w)

def Lasts (n : Nat) : Prop :=
  (Progress.running { e with code }).Outlasts (Pending next e.stack) n

/-- What the outcome of the evaluator says about the machine. Where continuations were used it
says nothing. -/
def Matches (fuel : Nat) : Option (Except Exit Form × World) → Prop
  | some (.ok value, w) => e.Yields code next value w
  | some (.error (.error error), w) => e.Fails code next error w
  | some (.error .control, _) => True
  | none => e.Lasts code next fuel

variable {e code next}

theorem matches_outcome (obeys : e.Obeys .sourced) (known : e.Knows code) {f : Form}
    (compiled : f.compile next = .ok code) (fuel : Nat) :
    e.Matches code next fuel (f.outcome fuel e.scope e.world) := by
  obtain ⟨x, read, here⟩ := Form.compile_eq_ok.mp compiled
  have start : ({ e with code } : Evaluation).Obeys .sourced :=
    ⟨obeys.machine, obeys.acc, known _ obeys, obeys.scope, obeys.pending, obeys.stack⟩
  have computes := read.computes (Combiner.agrees fuel) start here
  have agrees : (Progress.running { e with code }).Agrees (Pending next e.stack)
      (Progress.Receives (e.resumption next)) fuel
      (f.evaluate (Combiner.combine fuel) e.scope) e.world := by
    refine Progress.Agrees.mono computes fun value w p met => ?_
    obtain ⟨there, same, received, world, _⟩ := met
    exact ⟨there, same, received, world⟩
  unfold Progress.Agrees at agrees
  unfold Form.outcome
  split at agrees <;> rename_i result <;> rw [result]
  · exact agrees
  · exact agrees
  · trivial
  · exact agrees

/-! Without a step limit the outcomes exclude each other. -/

section

variable (unlimited : e.limit = none) {value value' : Form} {error error' : Error} {w w' : World}

include unlimited

theorem Yields.unique (yields : e.Yields code next value w)
    (yields' : e.Yields code next value' w') : value = value' ∧ w = w' := by
  -- Both lead on from one state, and neither leads beyond its end, so the ends are the same.
  obtain ⟨p, ⟨there, rfl, received, world⟩, ⟨there', same, received', world'⟩⟩ :=
    Progress.Leads.meets yields yields' unlimited (fun _ => Progress.Receives.beyond)
      fun _ => Progress.Receives.beyond
  cases same
  exact ⟨received.acc.symm.trans received'.acc, world.symm.trans world'⟩

theorem Fails.unique (fails : e.Fails code next error w)
    (fails' : e.Fails code next error' w') : error = error' ∧ w = w' := by
  obtain ⟨p, ⟨m, rfl, world⟩, ⟨m', same, world'⟩⟩ :=
    Progress.Leads.meets fails fails' unlimited (fun _ => Progress.Failed.beyond)
      fun _ => Progress.Failed.beyond
  cases same
  exact ⟨rfl, world.symm.trans world'⟩

theorem Yields.not_fails (yields : e.Yields code next value w) :
    ¬ e.Fails code next error w' := by
  intro fails
  obtain ⟨p, ⟨there, rfl, _⟩, ⟨m, same, _⟩⟩ :=
    Progress.Leads.meets yields fails unlimited (fun _ => Progress.Receives.beyond)
      fun _ => Progress.Failed.beyond
  cases same

variable {f : Form}
  (agrees : ∀ fuel, e.Matches code next fuel (f.outcome fuel e.scope e.world))

include agrees

theorem outcome_of_leads {goal : Progress → Prop}
    (leads : (Progress.running { e with code }).Leads (Pending next e.stack) goal)
    (ends : ∀ q, goal q → q.Beyond (Pending next e.stack)) :
    ∃ fuel outcome, f.outcome fuel e.scope e.world = some outcome := by
  obtain ⟨n, spent⟩ := leads.not_outlasts unlimited ends
  have agrees := agrees n
  cases outcome : f.outcome n e.scope e.world with
  | none =>
    rw [outcome] at agrees
    exact (spent agrees).elim
  | some outcome' => exact ⟨n, outcome', outcome⟩

variable (direct : ∀ fuel w, f.outcome fuel e.scope e.world ≠ some (.error .control, w))

include direct

theorem yields_iff :
    e.Yields code next value w ↔
      ∃ fuel, f.outcome fuel e.scope e.world = some (.ok value, w) := by
  constructor
  · intro yields
    obtain ⟨fuel, outcome, same⟩ :=
      outcome_of_leads unlimited agrees yields fun _ => Progress.Receives.beyond
    have agrees := agrees fuel
    rw [same] at agrees
    rcases outcome with ⟨(error | _) | value', w'⟩
    · exact (yields.not_fails unlimited agrees).elim
    · exact (direct fuel w' same).elim
    · obtain ⟨rfl, rfl⟩ := yields.unique unlimited agrees
      exact ⟨fuel, same⟩
  · rintro ⟨fuel, same⟩
    have agrees := agrees fuel
    rwa [same] at agrees

theorem fails_iff :
    e.Fails code next error w ↔
      ∃ fuel, f.outcome fuel e.scope e.world = some (.error (.error error), w) := by
  constructor
  · intro fails
    obtain ⟨fuel, outcome, same⟩ :=
      outcome_of_leads unlimited agrees fails fun _ => Progress.Failed.beyond
    have agrees := agrees fuel
    rw [same] at agrees
    rcases outcome with ⟨(error' | _) | value, w'⟩
    · obtain ⟨rfl, rfl⟩ := fails.unique unlimited agrees
      exact ⟨fuel, same⟩
    · exact (direct fuel w' same).elim
    · exact (agrees.not_fails unlimited fails).elim
  · rintro ⟨fuel, same⟩
    have agrees := agrees fuel
    rwa [same] at agrees

theorem lasts_iff :
    (∀ n, e.Lasts code next n) ↔ ∀ fuel, f.outcome fuel e.scope e.world = none := by
  constructor
  · intro forever fuel
    have agrees := agrees fuel
    rcases same : f.outcome fuel e.scope e.world with _ | ⟨(error | _) | value, w'⟩
    · rfl
    · rw [same] at agrees
      obtain ⟨n, spent⟩ := agrees.not_outlasts unlimited fun _ => Progress.Failed.beyond
      exact (spent (forever n)).elim
    · exact (direct fuel w' same).elim
    · rw [same] at agrees
      obtain ⟨n, spent⟩ := agrees.not_outlasts unlimited fun _ => Progress.Receives.beyond
      exact (spent (forever n)).elim
  · intro none n
    have agrees := agrees n
    rwa [none n] at agrees

end

end Evaluation

/-- Where no continuation is used, the machine and the evaluator have the same outcome. -/
theorem Evaluation.Reachable.agrees_with_evaluator {e : Evaluation} (reachable : e.Reachable)
    {f : Form} {next code : Code} (known : e.Knows code) (compiled : f.compile next = .ok code) :
    (∀ fuel, e.Matches code next fuel (f.outcome fuel e.scope e.world)) ∧
      (e.limit = none → (∀ fuel w, f.outcome fuel e.scope e.world ≠ some (.error .control, w)) →
        (∀ value w, e.Yields code next value w ↔
          ∃ fuel, f.outcome fuel e.scope e.world = some (.ok value, w)) ∧
        (∀ error w, e.Fails code next error w ↔
          ∃ fuel, f.outcome fuel e.scope e.world = some (.error (.error error), w)) ∧
        ((∀ n, e.Lasts code next n) ↔ ∀ fuel, f.outcome fuel e.scope e.world = none)) := by
  have agrees := matches_outcome reachable.sourced known compiled
  refine ⟨agrees, fun unlimited direct => ⟨fun value w => ?_, fun error w => ?_, ?_⟩⟩
  · exact yields_iff unlimited agrees direct
  · exact fails_iff unlimited agrees direct
  · exact lasts_iff unlimited agrees direct

/-- `(($lambda (x) x) 1)`, at the start of an evaluation. -/
theorem Evaluation.Reachable.agrees_on_application : ∃ (e : Evaluation) (code : Code) (w : World),
    e.Reachable ∧ e.Knows code ∧ e.limit = none ∧ e.Yields code .halt (.int 1) w ∧
      w.store.scopes.size = e.store.scopes.size + 1 ∧ (∀ error w, ¬ e.Fails code .halt error w) ∧
      ¬ ∀ n, e.Lasts code .halt n := by
  let x : Form := .pair 0 (.symbol "x") .nil
  let f : Form := .pair 0 (.pair 0 (.symbol "$lambda") (.pair 0 x x)) (.pair 0 (.int 1) .nil)
  obtain ⟨m, kept, session, unlimited, _, numbered, bound⟩ := Session.Reachable.exists_machine
  let code : Code := .frame .halt (.close ⟨x, .ignore, x, .refer "x" .ret, true⟩
    (.apply (.pair 0 (.int 1) .nil)))
  have compiled : f.compile .halt = .ok code := rfl
  have plain : f.Plain m := by
    intro D room
    have zero := room.object 0 numbered
    simp [f, x, Form.Obeys, zero]
  let e := m.start code 0
  have reachable : e.Reachable := session.start plain compiled bound
  have known : e.Knows code := fun D obeys => obeys.code
  -- The call makes a scope below that of the closure, where the parameter is bound.
  let scopes := (m.store.scopes.extend (some 0)).2.define m.store.scopes.size "x" (.int 1)
  let w : World := ⟨{ m.store with scopes, fresh := m.store.fresh + 4 }, m.hosts⟩
  have outcome (n : Nat) : f.outcome (n + 2) e.scope e.world = some (.ok (.int 1), w) := by
    change some ((scopes.lookup m.store.scopes.size "x").mapError Exit.error, w) = _
    rw [Scopes.lookup_define_extend]
    rfl
  have direct : ∀ fuel w, f.outcome fuel e.scope e.world ≠ some (.error .control, w)
    | 0, _ | 1, _ => nofun
    | n + 2, _ => outcome n ▸ nofun
  obtain ⟨agrees, exactly⟩ := reachable.agrees_with_evaluator known compiled
  obtain ⟨-, fails, lasts⟩ := exactly unlimited direct
  have yields := agrees 2
  rw [outcome 0] at yields
  refine ⟨e, code, w, reachable, known, unlimited, yields, ?_, fun error w failed => ?_,
    fun forever => ?_⟩
  · exact (Scopes.size_define ..).trans (Scopes.size_extend ..)
  · obtain ⟨fuel, ends⟩ := (fails error w).mp failed
    match fuel with
    | 0 | 1 => cases ends
    | n + 2 => cases (outcome n).symm.trans ends
  · cases (outcome 0).symm.trans (lasts.mp forever 2)

end Vau
