import Mathlib.Logic.Relation
import Vau.Ground
import Vau.Proofs.Discipline.Machine

/-! Sessions: a machine in the hands of an embedding program.

The program evaluates forms, keeps what it gets, and acts on scopes between evaluations. It can
build forms of its own, but closures and continuations it only has from the machine. -/

set_option autoImplicit false

namespace Vau

/-- The discipline allows every number that the machine has given out. -/
structure Discipline.Room (D : Discipline) (m : Machine) : Prop where
  object : ∀ i : Nat, i < m.store.fresh → D.object i
  frame : ∀ i : Nat, i < m.frames → D.frame i
  scope : ∀ e : Nat, e < m.store.scopes.size → D.scope e

theorem Discipline.Room.covers {D : Discipline} {m : Machine} (room : D.Room m)
    (earlier : Machine) : D.Covers earlier m :=
  ⟨⟨fun i _ high => room.object i high, fun e _ high => room.scope e high⟩,
    fun i _ high => room.frame i high⟩

theorem Discipline.Room.earlier {D : Discipline} {m later : Machine} (room : D.Room later)
    (grows : m.Grows later) : D.Room m :=
  ⟨fun i high => room.object i (Nat.lt_of_lt_of_le high grows.store.fresh),
    fun i high => room.frame i (Nat.lt_of_lt_of_le high grows.frames),
    fun e high => room.scope e (Nat.lt_of_lt_of_le high grows.store.scopes)⟩

structure Session where
  machine : Machine
  kept : List Form := []

namespace Session

structure Obeys (D : Discipline) (s : Session) : Prop where
  machine : s.machine.Obeys D
  kept : ∀ f ∈ s.kept, f.Obeys D
  room : D.Room s.machine

/-- All closures and continuations in the form are ones that the session has, and so are the
scopes. Pairs may be new, but are numbered. -/
def Knows (s : Session) (f : Form) : Prop := ∀ D, s.Obeys D → f.Obeys D

def withStore (s : Session) (store : Store) : Session := { s with machine.store := store }

def withScopes (s : Session) (scopes : Scopes) : Session :=
  s.withStore { s.machine.store with scopes }

inductive Next (s : Session) : Session → Prop
  | evaluate {fuel : Nat} {form : Form} {scope : ScopeId} {result : Except Error Form}
      {m : Machine} :
    s.Knows form → scope < s.machine.store.scopes.size →
    s.machine.evalIn fuel form scope = some (result, m) →
    Next s ⟨m, result.toOption.toList ++ s.kept⟩
  | keep {f : Form} : s.Knows f → Next s { s with kept := f :: s.kept }
  | number (count : Nat) :
    Next s (s.withStore { s.machine.store with fresh := s.machine.store.fresh + count })
  | extend {parent : Option ScopeId} :
    (∀ p, parent = some p → p < s.machine.store.scopes.size) →
    Next s (s.withScopes (s.machine.store.scopes.extend parent).2)
  | define (e : ScopeId) (name : String) {value : Form} : s.Knows value →
    Next s (s.withScopes (s.machine.store.scopes.define e name value))
  | assign {e : ScopeId} {name : String} {value : Form} {scopes : Scopes} : s.Knows value →
    s.machine.store.scopes.set e name value = .ok scopes → Next s (s.withScopes scopes)
  | bind (e : ScopeId) (parameters : Form) {operands : Form} : s.Knows operands →
    Next s (s.withScopes (s.machine.store.scopes.bind e parameters operands).2)
  | clear (e : ScopeId) : Next s (s.withScopes (s.machine.store.scopes.clear e))
  | register (e : ScopeId) {host : HostNative} : (∀ D, host.Keeps D) → s.Knows host.memory →
    Next s { s with machine := s.machine.register e host }
  | limit (limit : Option Nat) : Next s { s with machine.limit := limit }
  | output (output : Output) : Next s (s.withStore { s.machine.store with output })
  | resetStats : Next s { s with machine := s.machine.resetStats }

/-- Reached from a new machine, before any definition in the language itself. -/
def Reachable (s : Session) : Prop := Relation.ReflTransGen Next ⟨Machine.bare, []⟩ s

/-- States of the evaluation of a form that the session knows. -/
inductive Running (s : Session) : Evaluation → Prop
  | start {form : Form} {code : Code} {scope : ScopeId} : s.Knows form →
    scope < s.machine.store.scopes.size → form.compile .halt = .ok code →
    Running s (s.machine.start code scope)
  | step {e next : Evaluation} : Running s e → e.step = .running next → Running s next

end Session

/-- A state of some evaluation, after any number of earlier ones on the same machine. -/
def Evaluation.Reachable (e : Evaluation) : Prop :=
  ∃ s : Session, s.Reachable ∧ s.Running e

/-- The stack is among those captured: no discipline that the state obeys excludes it. -/
def Evaluation.Captured (e : Evaluation) (stack : Stack) : Prop :=
  ∀ D, e.Obeys D → D.stack stack

theorem Evaluation.captured_of_acc {e : Evaluation} {stack : Stack}
    (held : e.acc = .combiner (.continuation stack)) : e.Captured stack := by
  intro D obeys
  have acc := obeys.acc
  rw [held] at acc
  exact acc.1

/-- A property of states that holds on while the discipline is kept, and that makes the stacks
captured next what the discipline asks for. -/
structure Discipline.Carries (D : Discipline) (holds : Evaluation → Prop) : Prop where
  start : ∀ (m : Machine) (x : Expr) (scope : ScopeId), holds (m.start (x.code .halt) scope)
  step : ∀ {e next : Evaluation}, e.Obeys D → holds e → e.step = .running next → holds next
  capture : ∀ {e : Evaluation} {next : Code}, e.Obeys D → holds e → e.code = .capture next →
    D.stack e.stack

/-- Every closure comes from its source. -/
def Discipline.sourced : Discipline where
  template := Template.Compiled
  stack _ := True
  compiled _ compiled := compiled

theorem Discipline.carries_sourced : Discipline.sourced.Carries fun _ => True :=
  ⟨fun _ _ _ => trivial, fun _ _ _ => trivial, fun _ _ _ => trivial⟩

theorem Discipline.room_sourced (m : Machine) : Discipline.sourced.Room m :=
  ⟨fun _ _ => trivial, fun _ _ => trivial, fun _ _ => trivial⟩

theorem Progress.Follows.sourced {m : Machine} {p : Progress}
    (follows : p.Follows .sourced True m) : p.Obeys .sourced :=
  follows.2 trivial ((Discipline.room_sourced _).covers _)

variable {D : Discipline} {holds : Evaluation → Prop}

/-! No discipline with numbers of its own can be kept before it is known that machines grow. That
comes from one without any. -/

namespace Evaluation.Obeys

variable {e next : Evaluation}

theorem grows_step (obeys : e.Obeys .sourced) : e.toMachine.Grows e.step.machine :=
  (obeys.step fun _ _ => trivial).1

theorem sourced_step (obeys : e.Obeys .sourced) : e.step.Obeys .sourced :=
  (obeys.step fun _ _ => trivial).sourced

theorem grows_next (obeys : e.Obeys .sourced) (stepped : e.step = .running next) :
    e.toMachine.Grows next.toMachine := by
  have grows := obeys.grows_step
  rwa [stepped] at grows

theorem sourced_next (obeys : e.Obeys .sourced) (stepped : e.step = .running next) :
    next.Obeys .sourced := by
  have kept := obeys.sourced_step
  rwa [stepped] at kept

theorem grows_run (obeys : e.Obeys .sourced) {fuel : Nat}
    {outcome : Except Error Form × Machine} (ran : e.run fuel = some outcome) :
    e.toMachine.Grows outcome.2 :=
  grows_run_of grows_step sourced_next obeys ran

end Evaluation.Obeys

namespace Discipline.Carries

theorem run (carries : D.Carries holds) {fuel : Nat} {e : Evaluation} (sourced : e.Obeys .sourced)
    (obeys : e.Obeys D) (here : holds e) {outcome : Except Error Form × Machine}
    (ran : e.run fuel = some outcome) (covers : D.Covers e.toMachine outcome.2) :
    (∀ v, outcome.1 = .ok v → v.Obeys D) ∧ outcome.2.Obeys D := by
  induction fuel generalizing e with
  | zero => cases ran
  | succ fuel ih =>
    obtain ⟨_, kept⟩ := obeys.step fun _ captures => carries.capture obeys here captures
    unfold Evaluation.run at ran
    split at ran
    · rename_i next stepped
      -- What is made later counts too, so the first step is covered by what covers the whole run.
      have grows := sourced.grows_next stepped
      have sourced := sourced.sourced_next stepped
      rw [stepped] at kept
      have kept := kept trivial (covers.first (sourced.grows_run ran))
      exact ih sourced kept (carries.step obeys here stepped) ran (covers.rest grows)
    · rename_i value m stepped
      rw [stepped] at kept
      cases ran
      obtain ⟨value, machine⟩ := kept trivial covers
      refine ⟨fun v same => ?_, machine⟩
      cases same
      exact value
    · rename_i error m stepped
      rw [stepped] at kept
      cases ran
      exact ⟨nofun, kept trivial covers⟩

theorem start_obeys {m : Machine} (obeys : m.Obeys D) {form : Form} (known : form.Obeys D)
    {code : Code} (compiled : form.compile .halt = .ok code) {scope : ScopeId}
    (allowed : D.scope scope) : (m.start code scope).Obeys D := by
  have obeysCode := known.compile (show Code.halt.Obeys D from trivial) compiled
  exact ⟨⟨obeys.scopes, obeys.hosts⟩, trivial, obeysCode, allowed, trivial, trivial⟩

theorem start_holds (carries : D.Carries holds) (m : Machine) {form : Form} {code : Code}
    (compiled : form.compile .halt = .ok code) (scope : ScopeId) :
    holds (m.start code scope) := by
  obtain ⟨x, _, rfl⟩ := Form.compile_eq_ok.mp compiled
  exact carries.start m x scope

theorem evalIn (carries : D.Carries holds) {m : Machine} (sourced : m.Obeys .sourced)
    (obeys : m.Obeys D) {form : Form} (plain : form.Obeys .sourced) (known : form.Obeys D)
    {fuel : Nat} {scope : ScopeId} (allowed : D.scope scope)
    {outcome : Except Error Form × Machine} (ran : m.evalIn fuel form scope = some outcome)
    (covers : D.Covers m outcome.2) :
    (∀ v, outcome.1 = .ok v → v.Obeys D) ∧ outcome.2.Obeys D := by
  unfold Machine.evalIn at ran
  split at ran
  · rename_i code compiled
    exact carries.run (start_obeys sourced plain compiled trivial)
      (start_obeys obeys known compiled allowed) (carries.start_holds m compiled scope) ran
      ⟨covers.store, covers.frame⟩
  · cases ran
    exact ⟨nofun, obeys⟩

theorem running (carries : D.Carries holds) {s : Session} (sourced : s.Obeys .sourced)
    {e : Evaluation} (running : s.Running e) :
    s.machine.Grows e.toMachine ∧ e.Obeys .sourced ∧
      (D.Room e.toMachine → s.Obeys D → e.Obeys D ∧ holds e) := by
  induction running with
  | start known bound compiled =>
    refine ⟨⟨.refl _, Nat.le_refl _⟩, ?_, fun room obeys => ⟨?_, ?_⟩⟩
    · exact start_obeys sourced.machine (known _ sourced) compiled trivial
    · exact start_obeys obeys.machine (known D obeys) compiled (room.scope _ bound)
    · exact carries.start_holds s.machine compiled _
  | @step e next _ stepped ih =>
    obtain ⟨grows, sourced, holds⟩ := ih
    have more := sourced.grows_next stepped
    refine ⟨grows.trans more, sourced.sourced_next stepped, fun room obeys => ?_⟩
    obtain ⟨kept, here⟩ := holds (room.earlier more) obeys
    obtain ⟨_, after⟩ := kept.step fun _ captures => carries.capture kept here captures
    rw [stepped] at after
    exact ⟨after trivial (room.covers _), carries.step kept here stepped⟩

end Discipline.Carries

namespace Session.Obeys

variable {s s' : Session}

theorem new {m : Machine} (obeys : m.Obeys D) (room : D.Room m) : Session.Obeys D ⟨m, []⟩ :=
  ⟨obeys, nofun, room⟩

theorem withScopes (obeys : s.Obeys D) {scopes : Scopes} (new : scopes.Obeys D)
    (room : D.Room (s.withScopes scopes).machine) : (s.withScopes scopes).Obeys D :=
  ⟨⟨new, obeys.machine.hosts⟩, obeys.kept, room⟩

theorem keep (obeys : s.Obeys D) {f : Form} (known : f.Obeys D) :
    Session.Obeys D { s with kept := f :: s.kept } := by
  refine ⟨obeys.machine, fun g member => ?_, obeys.room⟩
  rcases List.mem_cons.mp member with rfl | old
  · exact known
  · exact obeys.kept g old

theorem register (obeys : s.Obeys D) (e : ScopeId) {host : HostNative} (keeps : host.Keeps D)
    (known : host.memory.Obeys D) (room : D.Room (s.machine.register e host)) :
    Session.Obeys D { s with machine := s.machine.register e host } := by
  have numbered := room.object _ (Nat.lt_succ_self _)
  refine ⟨⟨obeys.machine.scopes.define _ _ ⟨numbered, trivial⟩, fun other member => ?_⟩,
    obeys.kept, room⟩
  rcases Array.mem_push.mp member with old | rfl
  · exact obeys.machine.hosts other old
  · exact ⟨keeps, known⟩

theorem grows_evalIn (sourced : s.Obeys .sourced) {form : Form} (known : s.Knows form) {fuel : Nat}
    {scope : ScopeId} {outcome : Except Error Form × Machine}
    (ran : s.machine.evalIn fuel form scope = some outcome) : s.machine.Grows outcome.2 := by
  unfold Machine.evalIn at ran
  split at ran
  · rename_i code compiled
    have start : (s.machine.start code scope).Obeys .sourced :=
      Discipline.Carries.start_obeys sourced.machine (known _ sourced) compiled trivial
    have grows := start.grows_run ran
    exact ⟨grows.store, grows.frames⟩
  · cases ran
    exact .refl _

theorem grows (sourced : s.Obeys .sourced) (next : s.Next s') :
    s.machine.Grows s'.machine := by
  have same {scopes : Scopes} (size : scopes.size = s.machine.store.scopes.size) :
      s.machine.Grows (s.withScopes scopes).machine :=
    ⟨⟨Nat.le_refl _, Nat.le_of_eq size.symm⟩, Nat.le_refl _⟩
  cases next with
  | evaluate known _ ran => exact sourced.grows_evalIn known ran
  | number count => exact ⟨⟨Nat.le_add_right _ _, Nat.le_refl _⟩, Nat.le_refl _⟩
  | @extend parent _ =>
    have size := Scopes.size_extend s.machine.store.scopes parent
    exact ⟨⟨Nat.le_refl _, Nat.le.intro size.symm⟩, Nat.le_refl _⟩
  | define e name _ => exact same (Scopes.size_define _ e name _)
  | assign _ assigned => exact same (Scopes.size_set assigned)
  | bind e parameters _ => exact same (Scopes.size_bind _ e parameters _)
  | clear e => exact same (Scopes.size_clear _ e)
  | register e _ _ =>
    have size := Scopes.size_define s.machine.store.scopes e
    exact ⟨⟨Nat.le_succ _, Nat.le_of_eq (size _ _).symm⟩, Nat.le_refl _⟩
  | keep | limit | output | resetStats => exact ⟨⟨Nat.le_refl _, Nat.le_refl _⟩, Nat.le_refl _⟩

theorem next_of (obeys : s.Obeys D) (next : s.Next s') (room : D.Room s'.machine)
    (evaluated : ∀ {fuel : Nat} {form : Form} {scope : ScopeId} {result : Except Error Form}
      {m : Machine}, s.Knows form → scope < s.machine.store.scopes.size →
      s.machine.evalIn fuel form scope = some (result, m) →
      s' = ⟨m, result.toOption.toList ++ s.kept⟩ →
        (∀ v, result = .ok v → v.Obeys D) ∧ m.Obeys D) : s'.Obeys D := by
  have machine := obeys.machine
  have kept := obeys.kept
  cases next with
  | @evaluate fuel form scope result m known bound ran =>
    obtain ⟨value, machine'⟩ := evaluated known bound ran rfl
    refine ⟨machine', fun f member => ?_, room⟩
    rcases List.mem_append.mp member with answer | old
    · cases result with
      | ok v =>
        rw [List.mem_singleton.mp answer]
        exact value v rfl
      | error error => cases answer
    · exact kept f old
  | keep known => exact obeys.keep (known D obeys)
  | extend bound =>
    exact obeys.withScopes (machine.scopes.extend fun p same => obeys.room.scope p (bound p same))
      room
  | define e name known =>
    exact obeys.withScopes (machine.scopes.define e name (known D obeys)) room
  | assign known assigned =>
    exact obeys.withScopes (machine.scopes.set (known D obeys) assigned) room
  | bind e parameters known =>
    exact obeys.withScopes (machine.scopes.bind e parameters (known D obeys)) room
  | clear e => exact obeys.withScopes (machine.scopes.clear e) room
  | register e keeps known => exact obeys.register e (keeps D) (known D obeys) room
  | number | limit | output | resetStats =>
    exact ⟨⟨machine.scopes, machine.hosts⟩, kept, room⟩

theorem next (carries : D.Carries holds) (sourced : s.Obeys .sourced) (obeys : s.Obeys D)
    (next : s.Next s') (room : D.Room s'.machine) : s'.Obeys D := by
  refine obeys.next_of next room fun known bound ran same => ?_
  subst same
  exact carries.evalIn sourced.machine obeys.machine (known _ sourced) (known D obeys)
    (obeys.room.scope _ bound) ran (room.covers _)

end Session.Obeys

theorem Action.yields_forIn {α : Type} {given : Prop} {body : α → Action Unit}
    (each : ∀ a, ∀ {given : Prop}, Yields D given (fun _ => True) (body a)) (items : List α) :
    Yields D given (fun _ => True) (forIn items PUnit.unit fun a _ => do
      body a
      pure (ForInStep.yield PUnit.unit)) := by
  induction items generalizing given with
  | nil => exact .pure fun _ => trivial
  | cons a items ih =>
    simp only [List.forIn_cons, bind_assoc, pure_bind]
    exact (each a).bind fun _ => ih

theorem Machine.obeys_bare (room : D.Room Machine.bare) : Machine.bare.Obeys D := by
  have wrapped (name : String) {c : Combiner} (inner : c.Obeys D) {given : Prop} :
      Action.Yields D given (fun _ => True) (bindWrapped name c) :=
    (Action.yields_wrap fun _ => inner).bind fun _ => Action.yields_define _ name And.right
  have natives {given : Prop} := @Action.yields_forIn D _ given _
    (fun p {_} => wrapped p.name (c := .native (.primitive p)) trivial) Primitive.all
  have empty : ({} : Machine).Obeys D := by
    refine ⟨⟨fun e _ binding member => ?_, fun e p _ found => ?_⟩, fun host member => ?_⟩
    · simp [Scopes.bindings] at member
    · simp [Scopes.parent?] at found
    · simp at member
  have covers := room.covers {}
  unfold bare at covers ⊢
  refine ((@Machine.Obeys.acted D True _ (fun _ => True) _ empty _ ?_).2 trivial covers).2
  refine Action.Yields.bind (Action.yields_newScope fun _ _ same => by cases same) fun ground => ?_
  refine Action.Yields.bind (Action.yields_newScope fun given p same => ?_) fun _ => ?_
  · cases same
    exact given.2
  · exact natives.bind fun _ => wrapped _ (c := .eval) trivial

theorem Machine.settings_bare : Machine.bare.limit = none ∧ Machine.bare.hosts = #[] := by
  have unchanged {α : Type} (action : Action α) :
      (Machine.act {} action).2.limit = none ∧ (Machine.act {} action).2.hosts = #[] :=
    ⟨rfl, rfl⟩
  unfold bare
  exact unchanged _

theorem Session.Reachable.sourced {s : Session} (reachable : s.Reachable) :
    s.Obeys .sourced := by
  have room := Discipline.room_sourced
  induction reachable with
  | refl => exact .new (Machine.obeys_bare (room _)) (room _)
  | tail _ next ih => exact ih.next Discipline.carries_sourced ih next (room _)

theorem Session.Reachable.obeys (carries : D.Carries holds) {s : Session}
    (reachable : s.Reachable) (room : D.Room s.machine) : s.Obeys D := by
  induction reachable with
  | refl =>
    dsimp only at room
    exact .new (Machine.obeys_bare room) room
  | tail before next ih =>
    have sourced := Session.Reachable.sourced before
    exact sourced.next carries (ih (room.earlier (sourced.grows next))) next room

theorem Evaluation.Reachable.obeys (carries : D.Carries holds) {e : Evaluation}
    (reachable : e.Reachable) (room : D.Room e.toMachine) : e.Obeys D ∧ holds e := by
  obtain ⟨s, before, running⟩ := reachable
  obtain ⟨grows, _, kept⟩ := carries.running before.sourced running
  exact kept room (before.obeys carries (room.earlier grows))

theorem Evaluation.Reachable.sourced {e : Evaluation} (reachable : e.Reachable) :
    e.Obeys .sourced :=
  (reachable.obeys Discipline.carries_sourced (Discipline.room_sourced _)).1

theorem Evaluation.Reachable.step {e next : Evaluation} (reachable : e.Reachable)
    (stepped : e.step = .running next) : next.Reachable := by
  obtain ⟨s, before, running⟩ := reachable
  exact ⟨s, before, running.step stepped⟩

/-- A native that counts its calls. It takes no arguments. -/
def HostNative.counting : HostNative where
  name := "count"
  memory := .int 0
  call _ memory args store :=
    match memory, args with
    | .int n, [] => ((.ok (.int (n + 1)), .int (n + 1)), store)
    | _, _ => ((.error (.of (.unbound "ghost")), memory), store)

theorem HostNative.keeps_counting (D : Discipline) : counting.Keeps D := by
  intro text memory args store result memory' store' ran
  unfold counting at ran
  dsimp only at ran
  split at ran <;> cases ran
  · refine ⟨.refl store, fun _ _ scopes _ => ⟨fun v same => ?_, trivial, scopes⟩⟩
    cases same
    trivial
  · exact ⟨.refl store, fun memory _ scopes _ => ⟨nofun, memory, scopes⟩⟩

/-- Some machine has numbered objects and scopes, and a native of the embedding program. -/
theorem Session.Reachable.exists_machine : ∃ m kept, Session.Reachable ⟨m, kept⟩ ∧
    m.limit = none ∧ m.hosts = #[.counting] ∧ 0 < m.store.fresh ∧ 0 < m.store.scopes.size := by
  obtain ⟨limit, hosts⟩ := Machine.settings_bare
  have new : Session.Reachable ⟨Machine.bare, []⟩ := .refl
  generalize Machine.bare = m at new limit hosts
  have registered := new.tail (.register 0 HostNative.keeps_counting fun _ _ => trivial)
  have reachable := (registered.tail (.number 1)).tail (@Session.Next.extend _ none nofun)
  have size := Scopes.size_extend (m.register 0 .counting).store.scopes none
  exact ⟨_, _, reachable, limit, congrArg (Array.push · HostNative.counting) hosts, Nat.succ_pos _,
    Nat.lt_of_lt_of_eq (Nat.succ_pos _) size.symm⟩

/-- Data hold no closure, no continuation and no scope. Their pairs have numbers that were given
out. -/
def Form.Plain (m : Machine) (f : Form) : Prop := ∀ D, D.Room m → f.Obeys D

theorem Session.Reachable.start {m : Machine} {kept : List Form}
    (reachable : Session.Reachable ⟨m, kept⟩) {form : Form} (plain : form.Plain m) {code : Code}
    (compiled : form.compile .halt = .ok code) {scope : ScopeId}
    (bound : scope < m.store.scopes.size) : (m.start code scope).Reachable :=
  ⟨⟨m, kept⟩, reachable, .start (fun _ obeys => plain _ obeys.room) bound compiled⟩

end Vau
