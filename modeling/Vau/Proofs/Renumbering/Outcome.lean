import Vau.Proofs.Evaluator.Fuel
import Vau.Proofs.Evaluator.Run
import Vau.Proofs.Renumbering.Evaluator

/-! Forms that come to the same, up to the numbers of what is made on the way. -/

set_option autoImplicit false

namespace Vau

/-! Where more was made, new numbers are larger. -/

namespace Renumbering

def raise (number : Nat → Nat) (first more : Nat) (n : Nat) : Nat :=
  if n < first then number n else number n + more

theorem raise_of_lt {number : Nat → Nat} {first more n : Nat} (below : n < first) :
    raise number first more n = number n :=
  if_pos below

theorem raise_add (number : Nat → Nat) (first more n : Nat) :
    raise number first more (first + n) = number (first + n) + more :=
  if_neg (Nat.not_lt.mpr (Nat.le_add_right first n))

theorem raise_mono {number : Nat → Nat} (mono : StrictMono number) (first more : Nat) :
    StrictMono (raise number first more) := by
  intro i j less
  have grows := mono less
  unfold raise
  split <;> split <;> omega

def raised (ρ : Renumbering) (store : Store) (objects scopes : Nat) : Renumbering where
  object := raise ρ.object store.fresh objects
  scope := raise ρ.scope store.scopes.size scopes
  object_mono := raise_mono ρ.object_mono _ _
  scope_mono := raise_mono ρ.scope_mono _ _

theorem agrees_raised (ρ : Renumbering) (store : Store) (objects scopes : Nat) :
    ρ.Agrees store.discipline (ρ.raised store objects scopes) :=
  ⟨fun _ below => (raise_of_lt below).symm, fun _ below => (raise_of_lt below).symm⟩

end Renumbering

variable {ρ σ : Renumbering} {apart : ScopeId → Option Scope} {w other later : World}

theorem Scopes.Obeys.renumber_eq {D : Discipline} (agrees : ρ.Agrees D σ) {scopes : Scopes}
    (obeys : scopes.Obeys D) {d : ScopeId} (allowed : D.scope d) :
    scopes[d]?.map (Scope.renumber ρ) = scopes[d]?.map (Scope.renumber σ) := by
  have values := obeys.value d allowed
  have parents := fun p => obeys.parent d p allowed
  unfold Scopes.bindings at values
  unfold Scopes.parent? at parents
  cases found : scopes[d]? with
  | none => rfl
  | some scope =>
    rw [found] at values parents
    have bindings : scope.bindings.renumber ρ = scope.bindings.renumber σ :=
      List.map_congr_left fun binding member =>
        congrArg (binding.1, ·) ((values binding member).renumber_eq agrees)
    have parent : scope.parent.map ρ.scope = scope.parent.map σ.scope := by
      cases above : scope.parent with
      | none => rfl
      | some p => exact congrArg some (agrees.scope p (parents p above))
    rw [Option.map_some, Option.map_some, Scope.renumber, Scope.renumber, bindings, parent]

theorem Scopes.Obeys.renumber_same {D : Discipline} (compiled : ∀ t, D.template t → t.Compiled)
    {scopes : Scopes} (obeys : scopes.Obeys D) {d : ScopeId} (allowed : D.scope d) :
    scopes[d]?.map (Scope.renumber .same) = scopes[d]? := by
  have values := obeys.value d allowed
  unfold Scopes.bindings at values
  cases found : scopes[d]? with
  | none => rfl
  | some scope =>
    rw [found] at values
    have bindings : scope.bindings.renumber .same = scope.bindings :=
      (List.map_congr_left fun binding member =>
        congrArg (binding.1, ·) ((values binding member).renumber_same compiled)).trans
          scope.bindings.map_id
    rw [Option.map_some, Scope.renumber, bindings]
    exact congrArg (fun parent => some (Scope.mk scope.bindings parent)) Option.map_id_apply

namespace World

/-- What there is to know of a world whose numbers are to be changed. -/
structure Sound (w : World) : Prop where
  closed : w.store.Knows (w.machine.Obeys ·)
  tree : w.store.scopes.Tree
  uniform : ∀ host ∈ w.hosts, host.Uniform

theorem Sound.moved (sound : w.Sound) : w.Moved .same (fun _ => none) w where
  closed := sound.closed
  store := by
    have obeys := (sound.closed _ w.store.spans_discipline).scopes
    refine ⟨⟨sound.tree, fun _ => rfl, fun d => ?_, fun d out => (out d rfl).elim⟩,
      fun _ => rfl, rfl⟩
    by_cases below : d < w.store.scopes.size
    · exact (obeys.renumber_same (fun _ => id) below).symm
    · change w.store.scopes[d]? = _
      rw [Array.getElem?_eq_none (Nat.le_of_not_lt below)]
      rfl
  hosts := by
    refine ((Array.map_congr_left fun host member => ?_).trans w.hosts.map_id).symm
    have obeys := ((sound.closed _ w.store.spans_discipline).hosts host member).2
    rw [HostNative.renumber, obeys.renumber_same fun _ => id]
    rfl
  uniform := sound.uniform

/-- Where the other world is widened, what is new there is apart. -/
theorem Moved.widen (moved : w.Moved ρ apart other) (widens : other.Widens later) :
    ∃ σ : Renumbering, ρ.Agrees w.store.discipline σ ∧
      w.Moved σ (fun d => later.store.scopes[d]?) later := by
  have obeys := moved.closed _ w.store.spans_discipline
  obtain ⟨objects, fresh⟩ := Nat.exists_eq_add_of_le widens.fresh
  obtain ⟨scopes, size⟩ := Nat.exists_eq_add_of_le widens.size
  -- What was there keeps its number, and what is new is numbered after what the other made.
  have agrees := ρ.agrees_raised w.store objects scopes
  refine ⟨ρ.raised w.store objects scopes, agrees, moved.closed, ⟨⟨moved.store.scopes.tree,
    fun n => ?_, fun d => ?_, fun d _ => rfl⟩, fun n => ?_, ?_⟩, ?_, moved.uniform⟩
  · refine (Renumbering.raise_add _ _ _ n).trans ?_
    rw [moved.store.scopes.next, size, Nat.add_right_comm]
  · by_cases below : d < w.store.scopes.size
    · have old : ρ.scope d < other.store.scopes.size :=
        Nat.lt_of_lt_of_eq (ρ.scope_mono below) (moved.store.scopes.next 0)
      rw [← agrees.scope d below, widens.older _ old, moved.store.scopes.scope]
      exact obeys.scopes.renumber_eq agrees below
    · obtain ⟨n, rfl⟩ := Nat.exists_eq_add_of_le (Nat.le_of_not_lt below)
      have new : (ρ.raised w.store objects scopes).scope (w.store.scopes.size + n) =
          later.store.scopes.size + n := by
        refine (Renumbering.raise_add _ _ _ n).trans ?_
        rw [moved.store.scopes.next, size, Nat.add_right_comm]
      rw [new, Array.getElem?_eq_none (Nat.le_add_right _ _),
        Array.getElem?_eq_none (Nat.le_add_right _ _)]
      rfl
  · refine (Renumbering.raise_add _ _ _ n).trans ?_
    rw [moved.store.fresh, fresh, Nat.add_right_comm]
  · exact widens.output.trans moved.store.output
  · rw [widens.hosts, moved.hosts]
    refine Array.map_congr_left fun host member => ?_
    rw [HostNative.renumber, HostNative.renumber,
      (obeys.hosts host member).2.renumber_eq agrees]

/-! What the two sides leave of a world. -/

/-- Two worlds that one led to, the same up to the numbers of what was made since, and up to scopes
that nothing leads to. -/
structure Corresponds (w : World) (ρ : Renumbering) (later later' : World) : Prop where
  object : ∀ i : Nat, i < w.store.fresh → ρ.object i = i
  scope : ∀ d : Nat, d < w.store.scopes.size → ρ.scope d = d
  scopes : ∀ d, later'.store.scopes[ρ.scope d]? =
    later.store.scopes[d]?.map (Scope.renumber ρ)
  hosts : later'.hosts = later.hosts.map (HostNative.renumber ρ)
  output : later'.store.output = later.store.output

theorem Moved.corresponds (moved : later.Moved ρ apart other)
    (fixes : Renumbering.same.Agrees w.store.discipline ρ) : w.Corresponds ρ later other where
  object i below := (fixes.object i below).symm
  scope d below := (fixes.scope d below).symm
  scopes := moved.store.scopes.scope
  hosts := moved.hosts
  output := moved.store.output

end World

/-- What comes of two evaluations: neither ends, or both end alike. -/
inductive World.Concludes (w : World) :
    Option (Except Exit Form × World) → Option (Except Exit Form × World) → Prop
  | spent : Concludes w none none
  | value {v : Form} {later later' : World} (ρ : Renumbering) : w.Corresponds ρ later later' →
    Concludes w (some (.ok v, later)) (some (.ok (v.renumber ρ), later'))
  | error {error : Error} {later later' : World} (ρ : Renumbering) :
    w.Corresponds ρ later later' → Concludes w
      (some (.error (.error error), later)) (some (.error (.error error), later'))
  | control {later later' : World} :
    Concludes w (some (.error .control, later)) (some (.error .control, later'))

theorem Ends.concludes {first second : Option (Except Exit Form × World)} {middle : World}
    (ends : Ends ρ apart (Form.Image ρ) middle first second)
    (fixes : Renumbering.same.Agrees w.store.discipline ρ) : w.Concludes first second := by
  cases ends with
  | spent => exact .spent
  | value _ moved image =>
    obtain ⟨_, rfl⟩ := image
    exact .value ρ (moved.corresponds fixes)
  | error _ moved => exact .error ρ (moved.corresponds fixes)
  | control => exact .control

section

variable {middle : World} {f : Form} {x : Expr} {e : ScopeId}

theorem Form.renumber_fixed (fixes : Renumbering.same.Agrees w.store.discipline ρ)
    (known : w.store.Knows (f.Obeys ·)) : f.renumber ρ = f :=
  have obeys := known _ w.store.spans_discipline
  (obeys.renumber_eq fixes).symm.trans (obeys.renumber_same fun _ => id)

theorem Form.Reads.moves_fixed (read : f.Reads x) (known : w.store.Knows (f.Obeys ·))
    (there : e < w.store.scopes.size) (grows : w.store.Grows middle.store)
    (fixes : Renumbering.same.Agrees w.store.discipline ρ) (fuel : Nat) :
    Meaning.Moves ρ apart (Form.Image ρ) (f.evaluate (Combiner.combine fuel) e)
      (f.evaluate (Combiner.combine fuel) e) middle := by
  have moves := read.moves (Combiner.moves ρ apart fuel) (known.later grows)
    (World.in_later there grows)
  rwa [Form.renumber_fixed fixes known, ← fixes.scope e there] at moves

theorem Form.ReadsAll.moves_fixed (read : f.ReadsAll x) (known : w.store.Knows (f.Obeys ·))
    (there : e < w.store.scopes.size) (grows : w.store.Grows middle.store)
    (fixes : Renumbering.same.Agrees w.store.discipline ρ) (fuel : Nat) :
    Meaning.Moves ρ apart (Form.Image ρ) (f.evaluateAll (Combiner.combine fuel) e)
      (f.evaluateAll (Combiner.combine fuel) e) middle := by
  have moves := read.moves (Combiner.moves ρ apart fuel) (known.later grows)
    (World.in_later there grows)
  rwa [Form.renumber_fixed fixes known, ← fixes.scope e there] at moves

theorem World.Moved.concludes (moved : middle.Moved ρ apart other)
    (fixes : Renumbering.same.Agrees w.store.discipline ρ) (grows : w.store.Grows middle.store)
    (widens : other.Widens later) {meaning : Meaning Form}
    (moves : ∀ (σ : Renumbering) (apart : ScopeId → Option Scope),
      Renumbering.same.Agrees w.store.discipline σ →
        meaning.Moves σ apart (Form.Image σ) meaning middle) :
    w.Concludes (meaning.result middle) (meaning.result later) := by
  obtain ⟨σ, agrees, moved⟩ := moved.widen widens
  have fixes : Renumbering.same.Agrees w.store.discipline σ :=
    ⟨fun i below => (fixes.object i below).trans
        (agrees.object i (Nat.lt_of_lt_of_le below grows.fresh)),
      fun d below => (fixes.scope d below).trans
        (agrees.scope d (Nat.lt_of_lt_of_le below grows.scopes))⟩
  exact (moves σ _ fixes later moved).concludes fixes

theorem World.Sound.concludes (sound : w.Sound) (widens : w.Widens later) (read : f.Reads x)
    (known : w.store.Knows (f.Obeys ·)) (there : e < w.store.scopes.size) (fuel : Nat) :
    w.Concludes (f.outcome fuel e w) (f.outcome fuel e later) :=
  sound.moved.concludes ⟨fun _ _ => rfl, fun _ _ => rfl⟩ (.refl _) widens
    fun _ _ fixes => read.moves_fixed known there (.refl _) fixes fuel

end

namespace Machine

/-- Whatever comes of either form in the scope, the other comes to the same, up to the numbers of
what is made on the way. -/
structure Interchangeable (m : Machine) (e : ScopeId) (f g : Form) : Prop where
  left : ∀ fuel result later, m.evalIn fuel f e = some (result, later) →
    ∃ fuel' later' ρ, m.evalIn fuel' g e = some (result.map (Form.renumber ρ), later') ∧
      m.world.Corresponds ρ later.world later'.world
  right : ∀ fuel result' later', m.evalIn fuel g e = some (result', later') →
    ∃ fuel' result later ρ, m.evalIn fuel' f e = some (result, later) ∧
      result' = result.map (Form.renumber ρ) ∧ m.world.Corresponds ρ later.world later'.world

end Machine

/-- A session obeys every discipline that spans its machine. -/
theorem Session.Reachable.obeys_spans {s : Session} (reachable : s.Reachable) {D : Discipline}
    (spans : D.Spans s.machine.store) : s.Obeys D :=
  have carries : D.Carries fun _ => True :=
    ⟨fun _ _ _ => trivial, fun _ _ _ => trivial, fun _ _ _ => spans.stack _⟩
  reachable.obeys carries ⟨spans.object, fun i _ => spans.frame i, spans.scope⟩

/-- No continuation is captured or invoked. A form that does not compile is not evaluated. -/
def Form.Direct (f : Form) (e : ScopeId) (w : World) : Prop :=
  ∀ code, f.compile .halt = .ok code →
    ∀ fuel later, f.outcome fuel e w ≠ some (.error .control, later)

theorem Form.outcome_mono {f : Form} {e : ScopeId} {fuel more : Nat} (le : fuel ≤ more)
    {outcome : Except Exit Form × World} (result : f.outcome fuel e w = some outcome) :
    f.outcome more e w = some outcome :=
  f.below_evaluate (Combiner.below_combine le) e w outcome result

/-- A form that comes to a value uses no continuation. -/
theorem Form.direct_of_outcome {f : Form} {e : ScopeId} {fuel : Nat} {value : Form}
    (ended : f.outcome fuel e w = some (.ok value, later)) : f.Direct e w := by
  intro _ _ more last control
  cases (outcome_mono (Nat.le_add_right fuel more) ended).symm.trans
    (outcome_mono (Nat.le_add_left more fuel) control)

/-- It is enough that the evaluator makes the same of both, where both compile. -/
theorem Session.Reachable.interchangeable {m : Machine} {kept : List Form}
    (reachable : Session.Reachable ⟨m, kept⟩) (unlimited : m.limit = none) {f g : Form}
    {e : ScopeId} (known : Session.Knows ⟨m, kept⟩ f) (known' : Session.Knows ⟨m, kept⟩ g)
    (there : e < m.store.scopes.size) {code code' : Code} (compiled : f.compile .halt = .ok code)
    (compiled' : g.compile .halt = .ok code')
    (direct : f.Direct e m.world) {a b : Nat}
    (concludes : ∀ fuel, m.world.Concludes (f.outcome (fuel + a) e m.world)
      (g.outcome (fuel + b) e m.world)) :
    m.Interchangeable e f g := by
  have direct := direct code compiled
  have direct' (fuel : Nat) (w : World) :
      g.outcome fuel e m.world ≠ some (.error .control, w) := by
    intro result
    have ends := concludes fuel
    rw [Form.outcome_mono (Nat.le_add_right fuel b) result] at ends
    generalize first : f.outcome (fuel + a) e m.world = outcome at ends
    cases ends with
    | control => exact direct _ _ first
  refine ⟨fun fuel result last ran => ?_, fun fuel result last ran => ?_⟩
  -- From a run to the evaluator, there to the other form, and back to a run of that.
  · obtain ⟨fuel, outcome⟩ := (reachable.evalIn_iff unlimited known there compiled direct).mp
      ⟨fuel, last, ran, rfl⟩
    have ends := concludes fuel
    rw [Form.outcome_mono (Nat.le_add_right fuel a) outcome] at ends
    have other {ρ : Renumbering} {last' : World}
        (corresponds : m.world.Corresponds ρ last.world last')
        (outcome' : g.outcome (fuel + b) e m.world =
          some ((result.map (Form.renumber ρ)).mapError .error, last')) :
        ∃ fuel' later' ρ, m.evalIn fuel' g e = some (result.map (Form.renumber ρ), later') ∧
          m.world.Corresponds ρ last.world later'.world := by
      obtain ⟨fuel', later', ran', rfl⟩ :=
        reachable.evalIn_of_outcome unlimited known' there compiled' outcome'
      exact ⟨fuel', later', ρ, ran', corresponds⟩
    generalize second : g.outcome (fuel + b) e m.world = outcome' at ends
    cases result with
    | ok v =>
      cases ends with
      | value ρ corresponds => exact other corresponds second
    | error error =>
      cases ends with
      | error ρ corresponds => exact other corresponds second
  -- The same way back. Here too the renumbering goes from the first form to the second.
  · obtain ⟨fuel, outcome⟩ := (reachable.evalIn_iff unlimited known' there compiled' direct').mp
      ⟨fuel, last, ran, rfl⟩
    have ends := concludes fuel
    rw [Form.outcome_mono (Nat.le_add_right fuel b) outcome] at ends
    generalize first : f.outcome (fuel + a) e m.world = outcome' at ends
    have other {ρ : Renumbering} {value : Except Error Form} {last' : World}
        (corresponds : m.world.Corresponds ρ last' last.world)
        (image : result = value.map (Form.renumber ρ))
        (outcome' : f.outcome (fuel + a) e m.world = some (value.mapError .error, last')) :
        ∃ fuel' result' later ρ, m.evalIn fuel' f e = some (result', later) ∧
          result = result'.map (Form.renumber ρ) ∧
            m.world.Corresponds ρ later.world last.world := by
      obtain ⟨fuel', later', ran', rfl⟩ :=
        reachable.evalIn_of_outcome unlimited known there compiled outcome'
      exact ⟨fuel', value, later', ρ, ran', image, corresponds⟩
    cases result with
    | ok v =>
      cases ends with
      | @value v _ _ ρ corresponds => exact @other ρ (.ok v) _ corresponds rfl first
    | error error =>
      cases ends with
      | error ρ corresponds => exact @other ρ (.error error) _ corresponds rfl first

/-- A form that does not compile, and one that comes to the same error on the way. -/
theorem Session.Reachable.interchangeable_of_error {m : Machine} {kept : List Form}
    (reachable : Session.Reachable ⟨m, kept⟩) (unlimited : m.limit = none)
    (sound : m.world.Sound) {f g : Form} {e : ScopeId} (known : Session.Knows ⟨m, kept⟩ g)
    (there : e < m.store.scopes.size) {error : Error} (refused : f.compile .halt = .error error)
    {code : Code} (compiled : g.compile .halt = .ok code) (widens : m.world.Widens later)
    {fuel : Nat} (outcome : g.outcome fuel e m.world = some (.error (.error error), later)) :
    m.Interchangeable e f g := by
  obtain ⟨ρ, fixes, moved⟩ := sound.moved.widen widens
  have corresponds := moved.corresponds fixes
  -- With any fuel that is enough the evaluator comes to that error.
  have only {more : Nat} {other : Except Exit Form × World}
      (result : g.outcome more e m.world = some other) :
      other = (.error (.error error), later) := by
    have same := (Form.outcome_mono (Nat.le_add_right more fuel) result).symm.trans
      (Form.outcome_mono (Nat.le_add_left fuel more) outcome)
    exact Option.some.inj same
  have direct (more : Nat) (w : World) : g.outcome more e m.world ≠ some (.error .control, w) := by
    intro result
    cases only result
  have evalIn (fuel : Nat) : m.evalIn fuel f e = some (.error error, m) := by
    unfold Machine.evalIn
    rw [refused]
  refine ⟨fun more result last ran => ?_, fun more result last ran => ?_⟩
  · cases (evalIn more).symm.trans ran
    obtain ⟨fuel', last, ran', same⟩ := @Session.Reachable.evalIn_of_outcome (.error error) _ m kept
      reachable unlimited g e known there code compiled fuel outcome
    exact ⟨fuel', last, ρ, ran', same ▸ corresponds⟩
  · obtain ⟨fuel', outcome'⟩ := (reachable.evalIn_iff unlimited known there compiled direct).mp
      ⟨more, last, ran, rfl⟩
    have same := only outcome'
    cases result with
    | ok value => cases same
    | error error' =>
      obtain ⟨rfl, world⟩ : error' = error ∧ last.world = later := by
        simpa [Except.mapError] using same
      exact ⟨0, .error error', m, ρ, evalIn 0, rfl, world ▸ corresponds⟩

end Vau
