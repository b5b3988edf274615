import Vau.Proofs.Continuation.Outcome
import Vau.Proofs.Grammar.Joined
import Vau.Proofs.Renaming.Outcome
import Vau.Proofs.Session.Text

/-! Two texts, evaluated as one or in turn.

All pairs of a text are numbered before its first form is evaluated. So the second of two texts has
other numbers when it is read with the first, and the first makes its objects with other numbers.
Nothing else is different. -/

set_option autoImplicit false

namespace Vau

/-! Evaluating one list of forms after another. -/

/-- Go on from a success. -/
def Outcome.andThen (outcome : Outcome) (next : Form → Machine → Outcome) : Outcome :=
  match outcome with
  | some (.ok value, m) => next value m
  | failed => failed

namespace Machine

variable {m : Machine} {text : String} {file : Option String}

theorem evalAll_append (fuel : Nat) (scope : ScopeId) (forms rest : List Form) (m : Machine)
    (value : Form) : m.evalAll fuel scope value (forms ++ rest) =
      (m.evalAll fuel scope value forms).andThen fun value m =>
        m.evalAll fuel scope value rest := by
  induction forms generalizing m value with
  | nil => rfl
  | cons form forms ih =>
    rw [List.cons_append, Machine.evalAll, Machine.evalAll]
    match m.evalIn fuel form scope with
    | some (.ok value, m) => exact ih m value
    | some (.error error, m) => rfl
    | none => rfl

/-- A text after a value is what its forms are after the value. -/
theorem evalText_after {data : List Datum} (found : Vau.read text file = .ok data) (fuel : Nat)
    (scope : ScopeId) (value : Form) :
    ((m.evalText fuel text file scope).map fun (last, m) =>
        (if data.isEmpty then .ok value else last, m)) =
      (m.reserve (Form.pairsOf data)).evalAll fuel scope value
        (Form.numbered m.store.fresh data) := by
  rw [evalText_of_read found]
  cases data with
  | nil => rfl
  | cons d data => exact Option.map_id'

end Machine

/-! What is made of the first of two joined texts has no number of the second. -/

/-- Objects have numbers up to the last bound, but none from the first up to the second. -/
def Discipline.outside (low high top : Nat) : Discipline where
  template _ := True
  stack _ := True
  object i := i < low ∨ high ≤ i ∧ i < top
  compiled _ _ := trivial

theorem Discipline.carries_outside (low high top : Nat) :
    (outside low high top).Carries fun _ => True :=
  ⟨fun _ _ _ => trivial, fun _ _ _ => trivial, fun _ _ _ => trivial⟩

theorem Discipline.covers_outside {low high : Nat} {m later : Machine}
    (beyond : high ≤ m.store.fresh) : (outside low high later.store.fresh).Covers m later :=
  ⟨⟨fun _ above below => .inr ⟨Nat.le_trans beyond above, below⟩, fun _ _ _ => trivial⟩,
    fun _ _ _ => trivial⟩

namespace Session.Reachable

variable {s : Session}

theorem obeys_evalAll {D : Discipline} {holds : Evaluation → Prop} (carries : D.Carries holds)
    (reachable : s.Reachable) (obeys : s.machine.Obeys D) (allowed : ∀ e, D.scope e)
    {forms : List Form} (plain : ∀ f ∈ forms, f.Plain s.machine) (known : ∀ f ∈ forms, f.Obeys D)
    {scope : ScopeId} (bound : scope < s.machine.store.scopes.size) {fuel : Nat} {value : Form}
    (given : value.Obeys D) {result : Except Error Form} {m : Machine}
    (ran : s.machine.evalAll fuel scope value forms = some (result, m))
    (covers : D.Covers s.machine m) : (∀ v, result = .ok v → v.Obeys D) ∧ m.Obeys D := by
  induction forms generalizing s value with
  | nil =>
    cases ran
    refine ⟨fun v same => ?_, obeys⟩
    cases same
    exact given
  | cons form rest ih =>
    have here : s.Knows form := fun D obeys => plain form (by simp) D obeys.room
    have sourced := reachable.sourced
    have first {outcome : Except Error Form × Machine}
        (ran : s.machine.evalIn fuel form scope = some outcome)
        (covers : D.Covers s.machine outcome.2) :=
      carries.evalIn sourced.machine obeys (here _ sourced) (known form (by simp)) (allowed _) ran
        covers
    unfold Machine.evalAll at ran
    split at ran
    · rename_i v m' evaluated
      have grows := sourced.grows_evalIn here evaluated
      have reachable := reachable.tail (.evaluate here bound evaluated)
      -- The first form is evaluated, and the rest is as plain in the session that this leads to.
      have plain (f : Form) (member : f ∈ rest) : f.Plain m' :=
        (plain f (List.mem_cons_of_mem _ member)).later grows
      have bound := Nat.lt_of_lt_of_le bound grows.store.scopes
      obtain ⟨_, more⟩ := Session.Reachable.evalAll reachable plain bound ran
      obtain ⟨made, obeys⟩ := first evaluated (covers.first more)
      exact ih reachable obeys plain (fun f member => known f (List.mem_cons_of_mem _ member)) bound
        (made v rfl) ran (covers.rest grows)
    · exact first ran covers

theorem numbered {m : Machine} {kept : List Form} (reachable : Session.Reachable ⟨m, kept⟩) :
    m.Obeys m.numbers :=
  (reachable.obeys (⟨fun _ _ _ => trivial, fun _ _ _ => trivial, fun _ _ _ => trivial⟩ :
    m.numbers.Carries fun _ => True)
    ⟨fun _ low => low, fun _ low => low, fun _ _ => trivial⟩).machine

end Session.Reachable

namespace Renaming

/-- Numbers from a bound on, as many as counted, go to the top. All from there on make room. -/
def lift (low count top i : Nat) : Nat :=
  if i < low then i
  else if i < low + count then top + (i - low)
  else if i < top then i
  else i + count

theorem lift_injective {low count top : Nat} (le : low + count ≤ top) :
    Function.Injective (lift low count top) := by
  intro i j same
  unfold lift at same
  grind

/-- The objects with these numbers go to the top. -/
def lifting {low count top : Nat} (le : low + count ≤ top) : Renaming where
  object := lift low count top
  frame := id
  object_injective := lift_injective le
  frame_injective := Function.injective_id

variable {low count top : Nat}

theorem lift_add {n : Nat} (small : n < count) : lift low count top (low + n) = top + n := by
  unfold lift
  rw [if_neg (by omega), if_pos (by omega), Nat.add_sub_cancel_left]

theorem lift_top (le : low + count ≤ top) (n : Nat) :
    lift low count top (top + n) = top + count + n := by
  unfold lift
  rw [if_neg (by omega), if_neg (by omega), if_neg (by omega)]
  omega

theorem fixes_lifting (le : low + count ≤ top) :
    (lifting le).Fixes (.outside low (low + count) top) := by
  refine ⟨fun i allowed => ?_, fun _ _ => rfl⟩
  change lift low count top i = i
  unfold lift
  rcases allowed with below | ⟨beyond, below⟩
  · rw [if_pos below]
  · rw [if_neg (by omega), if_neg (by omega), if_pos below]

end Renaming

/-! Two machines that differ in the numbers they gave out. -/

theorem Form.rename_numbered {ρ : Renaming} (data : List Datum) {fresh fresh' : Nat}
    (shifts : ∀ n : Nat, n < pairsOf data → ρ.object (fresh + n) = fresh' + n) :
    (numbered fresh data).map (rename ρ) = numbered fresh' data := by
  induction data generalizing fresh fresh' with
  | nil => rfl
  | cons d data ih =>
    unfold pairsOf at shifts
    rw [numbered, numbered, List.map_cons, rename_ofDatum d fun n small => shifts n (by omega),
      ih fun n small => ?_]
    rw [Nat.add_assoc, Nat.add_assoc]
    exact shifts _ (by omega)

namespace Machine

variable {ρ : Renaming} {D : Discipline} {m other : Machine}

/-- Giving out numbers is a renaming, if it leaves alone what there is. -/
theorem Obeys.alike_reserve (obeys : m.Obeys D) (fixes : ρ.Fixes D) (allowed : ∀ e, D.scope e)
    (respects : ∀ host ∈ m.hosts, host.Respects ρ) {count : Nat}
    (objects : ∀ n : Nat, ρ.object (m.store.fresh + n) = m.store.fresh + count + n)
    (frames : ∀ n : Nat, ρ.frame (m.frames + n) = m.frames + n) :
    m.Alike ρ (m.reserve count) :=
  ⟨⟨(obeys.scopes.rename_eq fixes allowed).symm, objects, rfl⟩,
    (obeys.rename_hosts_eq fixes).symm, respects, rfl, frames⟩

theorem Alike.reserve (alike : m.Alike ρ other) (count : Nat) :
    (m.reserve count).Alike ρ (other.reserve count) :=
  alike.withStore (alike.store.numbered count)

theorem fixed_evalAll {α : Type} {part : Machine → α} (fixed : Fixed part) {fuel : Nat}
    {scope : ScopeId} {value : Form} {forms : List Form} {outcome : Except Error Form × Machine}
    (ran : m.evalAll fuel scope value forms = some outcome) : part outcome.2 = part m := by
  have evalIn {m : Machine} {form : Form} {outcome : Except Error Form × Machine}
      (ran : m.evalIn fuel form scope = some outcome) : part outcome.2 = part m := by
    unfold Machine.evalIn at ran
    split at ran
    · exact Evaluation.fixed_run fixed ran
    · cases ran
      rfl
  induction forms generalizing m value with
  | nil =>
    cases ran
    rfl
  | cons form rest ih =>
    unfold Machine.evalAll at ran
    split at ran
    · rename_i evaluated
      exact (ih ran).trans (evalIn evaluated)
    · exact evalIn ran

theorem respects_of_natives (same : other.natives = m.natives)
    (respects : ∀ host ∈ m.hosts, host.Respects ρ) : ∀ host ∈ other.hosts, host.Respects ρ := by
  intro host member
  have called : host.call ∈ m.natives := same ▸ Array.mem_map.mpr ⟨host, member, rfl⟩
  obtain ⟨host', member', call⟩ := Array.mem_map.mp called
  have respects := respects host' member'
  unfold HostNative.Respects at respects ⊢
  rw [call] at respects
  exact respects

end Machine

/-- From this machine two outcomes are the same to see, and as much was counted. Objects and frames
may differ in number where they are new. -/
def Outcome.Same (m : Machine) (outcome other : Outcome) : Prop :=
  ∃ ρ ρ' : Renaming, ρ.Fixes m.numbers ∧ ρ'.Fixes m.numbers ∧
    outcome.seen ρ = other.seen ρ' ∧ outcome.stats = other.stats

/-- What is alike under some numbers and the same forms, numbered earlier by one of two machines,
come to the same. -/
theorem Machine.Alike.earlier {ρ : Renaming} {m other : Machine} (alike : m.Alike ρ other)
    (counted : other.stats = m.stats) {data : List Datum} {low : Nat}
    (le : low + Form.pairsOf data ≤ other.store.fresh)
    (obeys : other.Obeys (.outside low (low + Form.pairsOf data) other.store.fresh))
    (respects : ∀ ρ, ∀ host ∈ other.hosts, host.Respects ρ) {value : Form}
    (known : (value.rename ρ).Obeys (.outside low (low + Form.pairsOf data) other.store.fresh))
    (fuel : Nat) (scope : ScopeId) :
    Outcome.seen (.lifting le)
        (other.evalAll fuel scope (value.rename ρ) (Form.numbered low data)) =
      Outcome.seen ρ ((m.reserve (Form.pairsOf data)).evalAll fuel scope value
        (Form.numbered m.store.fresh data)) ∧
    Outcome.stats (other.evalAll fuel scope (value.rename ρ) (Form.numbered low data)) =
      Outcome.stats ((m.reserve (Form.pairsOf data)).evalAll fuel scope value
        (Form.numbered m.store.fresh data)) := by
  have fixes := Renaming.fixes_lifting le
  have lifted : other.Alike (.lifting le) (other.reserve (Form.pairsOf data)) :=
    obeys.alike_reserve fixes (fun _ => trivial) (respects _) (Renaming.lift_top le) fun _ => rfl
  -- Both are alike a third machine, where the forms are numbered on top of all.
  have later := (alike.reserve (Form.pairsOf data)).evalAll counted fuel scope value
    (Form.numbered m.store.fresh data)
  have earlier := lifted.evalAll rfl fuel scope (value.rename ρ) (Form.numbered low data)
  rw [Form.rename_numbered data fun n _ => alike.store.fresh n] at later
  rw [Form.rename_numbered data fun n small => Renaming.lift_add small,
    known.rename_eq fixes] at earlier
  exact ⟨earlier.alike.seen_eq.trans later.alike.seen_eq.symm, earlier.stats.symm.trans later.stats⟩

namespace Session.Reachable

variable {m : Machine} {kept : List Form} {scope : ScopeId}

theorem reserve (reachable : Session.Reachable ⟨m, kept⟩) (count : Nat) :
    Session.Reachable ⟨m.reserve count, kept⟩ :=
  reachable.tail (.number count)

/-- Forms come to the same when other numbers are given out before. -/
theorem matches_reserve (reachable : Session.Reachable ⟨m, kept⟩)
    (respects : ∀ ρ, ∀ host ∈ m.hosts, host.Respects ρ) (data : List Datum) (count fuel : Nat)
    (scope : ScopeId) : ∃ ρ : Renaming, ρ.Fixes m.numbers ∧ Outcome.Matches ρ
      ((m.reserve (Form.pairsOf data)).evalAll fuel scope .inert
        (Form.numbered m.store.fresh data))
      (((m.reserve (Form.pairsOf data)).reserve count).evalAll fuel scope .inert
        (Form.numbered m.store.fresh data)) := by
  have alone := (reachable.reserve (Form.pairsOf data)).numbered
  have fixes := Renaming.fixes_above (m.reserve (Form.pairsOf data))
    (m.store.fresh + Form.pairsOf data + count) m.frames
  have alike := alone.alike_reserve fixes (fun _ => trivial) (respects _)
    (Renaming.raise_add (Nat.le_add_right _ count)) (Renaming.raise_add (Nat.le_refl _))
  have run := alike.evalAll rfl fuel scope .inert (Form.numbered m.store.fresh data)
  rw [Form.rename_numbered data fun n small =>
    fixes.object _ (Nat.add_lt_add_left small _)] at run
  refine ⟨_, ⟨fun i low => fixes.object i (Nat.lt_of_lt_of_le low ?_), fixes.frame⟩, run⟩
  exact Nat.le_add_right _ _

/-- Nothing that the forms make has a number that was given out before. -/
theorem outside_evalAll (reachable : Session.Reachable ⟨m, kept⟩)
    (bound : scope < m.store.scopes.size) {data : List Datum} {count fuel : Nat}
    {result : Except Error Form} {later : Machine}
    (ran : ((m.reserve (Form.pairsOf data)).reserve count).evalAll fuel scope .inert
      (Form.numbered m.store.fresh data) = some (result, later)) :
    m.store.fresh + Form.pairsOf data + count ≤ later.store.fresh ∧
      let D := Discipline.outside (m.store.fresh + Form.pairsOf data)
        (m.store.fresh + Form.pairsOf data + count) later.store.fresh
      (∀ v, result = .ok v → v.Obeys D) ∧ later.Obeys D := by
  have ahead := (reachable.reserve (Form.pairsOf data)).reserve count
  have plain (f : Form) (member : f ∈ Form.numbered m.store.fresh data) :
      f.Plain ((m.reserve (Form.pairsOf data)).reserve count) :=
    fun D room => Form.obeys_numbered data (fun i _ high =>
      room.object i (Nat.lt_of_lt_of_le high (Nat.le_add_right _ _))) f member
  obtain ⟨_, grows⟩ := Session.Reachable.evalAll ahead plain bound ran
  refine ⟨grows.store.fresh, ?_⟩
  intro D
  have carries : D.Carries fun _ => True := Discipline.carries_outside _ _ _
  have room : D.Room m := ⟨fun i low => .inl (Nat.lt_of_lt_of_le low (Nat.le_add_right _ _)),
    fun _ _ => trivial, fun _ _ => trivial⟩
  have obeys := (reachable.obeys carries room).machine
  exact obeys_evalAll carries ahead ⟨obeys.scopes, obeys.hosts⟩ (fun _ => trivial) plain
    (Form.obeys_numbered data fun i _ high => .inl high) bound
    (show Form.inert.Obeys D from trivial) ran (Discipline.covers_outside (Nat.le_refl _))

theorem evalText_joined (reachable : Session.Reachable ⟨m, kept⟩)
    (respects : ∀ ρ, ∀ host ∈ m.hosts, host.Respects ρ) (bound : scope < m.store.scopes.size)
    {text more : String} {file : Option String} {data rest : List Datum}
    (first : Vau.read text file = .ok data) (second : Vau.read more file = .ok rest) (fuel : Nat) :
    Outcome.Same m (m.evalText fuel (text ++ "\n" ++ more) file scope)
      ((m.evalText fuel text file scope).andThen fun value m =>
        (m.evalText fuel more file scope).map fun (last, m) =>
          (if rest.isEmpty then .ok value else last, m)) := by
  let low := m.store.fresh + Form.pairsOf data
  let count := Form.pairsOf rest
  -- Joined, the pairs of the second text are numbered before the first is evaluated. In turn, they
  -- are numbered after that.
  have joined : m.evalText fuel (text ++ "\n" ++ more) file scope =
      (((m.reserve (Form.pairsOf data)).reserve count).evalAll fuel scope .inert
        (Form.numbered m.store.fresh data)).andThen fun value m =>
          m.evalAll fuel scope value (Form.numbered low rest) := by
    rw [Machine.evalText_of_read (read_joined first second), Form.pairsOf_append,
      Form.numbered_append, Machine.evalAll_append]
    unfold Machine.reserve
    rw [← Nat.add_assoc]
  have inTurn : ((m.evalText fuel text file scope).andThen fun value m =>
        (m.evalText fuel more file scope).map fun (last, m) =>
          (if rest.isEmpty then .ok value else last, m)) =
      ((m.reserve (Form.pairsOf data)).evalAll fuel scope .inert
        (Form.numbered m.store.fresh data)).andThen fun value m =>
          (m.reserve count).evalAll fuel scope value (Form.numbered m.store.fresh rest) := by
    rw [Machine.evalText_of_read first]
    exact congrArg _ (funext fun value => funext fun m => Machine.evalText_after second ..)
  rw [joined, inTurn]
  obtain ⟨ρ, fixes, run⟩ := reachable.matches_reserve respects data count fuel scope
  rcases run.alike.cases with ⟨ran, ran'⟩ | ⟨result, m₁, m₂, ran, ran', later⟩
  · rw [ran, ran']
    exact ⟨ρ, ρ, fixes, fixes, rfl, rfl⟩
  · obtain ⟨le, values, obeys⟩ := reachable.outside_evalAll bound ran'
    have lifting : (Renaming.lifting le).Fixes m.numbers :=
      ⟨fun i below => (Renaming.fixes_lifting le).object i
        (.inl (Nat.lt_of_lt_of_le below (Nat.le_add_right _ _))), fun _ _ => rfl⟩
    refine ⟨.lifting le, ρ, lifting, fixes, ?_⟩
    rw [ran, ran'] at run ⊢
    cases result with
    | error error =>
      -- The second text is not begun in either.
      refine ⟨?_, run.stats⟩
      exact (obeys.seen_eq (Renaming.fixes_lifting le) (fun _ => trivial) error).trans
        run.alike.seen_eq.symm
    | ok value =>
      have natives := Machine.fixed_evalAll Machine.fixed_natives ran'
      exact later.earlier (Option.some.inj run.stats) le obeys
        (fun ρ => Machine.respects_of_natives natives (respects ρ)) (values _ rfl) fuel scope

/-- Texts are read and evaluated one after the other, whether they are joined or not, and not at
all if they cannot be read. -/
theorem texts_compose (reachable : Session.Reachable ⟨m, kept⟩)
    (respects : ∀ ρ, ∀ host ∈ m.hosts, host.Respects ρ) (bound : scope < m.store.scopes.size) :
    (∀ (text more : String) (file : Option String) (data rest : List Datum),
      Vau.read text file = .ok data → Vau.read more file = .ok rest →
        Vau.read (text ++ "\n" ++ more) file = .ok (data ++ rest) ∧
        ∀ fuel, Outcome.Same m (m.evalText fuel (text ++ "\n" ++ more) file scope)
          ((m.evalText fuel text file scope).andThen fun value m =>
            (m.evalText fuel more file scope).map fun (last, m) =>
              (if rest.isEmpty then .ok value else last, m))) ∧
    (∀ (text : String) (file : Option String) (error : Error),
      Vau.read text file = .error error →
        ∀ fuel, m.evalText fuel text file scope = some (.error error, m)) ∧
    ∀ (text file : String) (error : Error), Vau.read text (some file) = .error error →
      ∀ fuel, m.load fuel file text scope = some (.error (error.orFile file), m) := by
  refine ⟨fun text more file data rest first second => ⟨read_joined first second, ?_⟩, ?_, ?_⟩
  · exact reachable.evalText_joined respects bound first second
  · exact fun text file error refused fuel => Machine.evalText_of_unread refused fuel scope
  · intro text file error refused fuel
    unfold Machine.load
    rw [Machine.evalText_of_unread refused]
    rfl

/-- A native counts its calls in both texts. The comment at the end of the first one does not hide the
second. -/
theorem texts_compose_of_comment : ∃ m scope, scope < m.store.scopes.size ∧
    (∃ kept, Session.Reachable ⟨m, kept⟩) ∧ m.hosts = #[.counting] ∧
    (∀ ρ, ∀ host ∈ m.hosts, host.Respects ρ) ∧
    Vau.read ("(count) ; one" ++ "\n" ++ "(count)") none =
      .ok [.list [.symbol "count"], .list [.symbol "count"]] ∧
    (∀ fuel, Outcome.Same m (m.evalText fuel ("(count) ; one" ++ "\n" ++ "(count)") none scope)
      ((m.evalText fuel "(count) ; one" none scope).andThen fun _ m =>
        m.evalText fuel "(count)" none scope)) ∧
    ∃ error, Vau.read "(1" (some "f") = .error error ∧
      m.load 1 "f" "(1" scope = some (.error (error.orFile "f"), m) := by
  obtain ⟨m, kept, session, _, hosts, _, bound⟩ := Session.Reachable.exists_machine
  have respects (ρ : Renaming) (host : HostNative) (member : host ∈ m.hosts) : host.Respects ρ := by
    rw [hosts] at member
    exact Array.mem_singleton.mp member ▸ HostNative.respects_counting ρ
  obtain ⟨joined, -, unread⟩ := session.texts_compose respects bound
  have first : Vau.read "(count) ; one" none = .ok [.list [.symbol "count"]] := by decide +kernel
  have second : Vau.read "(count)" none = .ok [.list [.symbol "count"]] := by decide +kernel
  have unclosed : Vau.read "(1" (some "f") =
      .error { cause := .unclosedDelimiter, file := some "f", position := some ⟨1, 1⟩ } := by
    decide +kernel
  obtain ⟨read, same⟩ := joined _ _ none _ _ first second
  refine ⟨m, 0, bound, ⟨kept, session⟩, hosts, respects, read, fun fuel => ?_,
    _, unclosed, unread _ _ _ unclosed 1⟩
  simpa using same fuel

end Session.Reachable

end Vau
