import Vau.Proofs.Discipline.Action
import Vau.Proofs.Likeness

/-! What the natives of the ground environment can tell.

They see the shape of a form, its text, and whether two forms are the same. So a map of forms that
keeps these goes through a call, if it goes through making objects and scopes, and through
output. -/

set_option autoImplicit false

namespace Vau

/-- From related stores the actions come to the same, but for the map, and to related stores. -/
def Action.Relates (R : Store → Store → Prop) {α β : Type} (f : α → β) (action : Action α)
    (action' : Action β) : Prop :=
  ∀ store other : Store, R store other → (action'.run other).1 = (action.run store).1.map f ∧
    R (action.run store).2 (action'.run other).2

variable {R : Store → Store → Prop}

namespace Action

variable {α β γ δ : Type} {f : α → β} {g : γ → δ}

theorem Relates.pure (a : α) : Relates R f (pure a) (pure (f a)) :=
  fun _ _ related => ⟨rfl, related⟩

theorem Relates.throw (error : Error) : Relates R f (throw error) (throw error) :=
  fun _ _ related => ⟨rfl, related⟩

theorem Relates.bind {action : Action α} {action' : Action β} (first : Relates R f action action')
    {k : α → Action γ} {k' : β → Action δ} (later : ∀ a, Relates R g (k a) (k' (f a))) :
    Relates R g (action >>= k) (action' >>= k') := by
  intro store other related
  obtain ⟨same, after⟩ := first store other related
  rw [run_bind, run_bind]
  rcases ran : action.run store with ⟨outcome, middle⟩
  rcases ran' : action'.run other with ⟨outcome', middle'⟩
  rw [ran, ran'] at same after
  cases same
  cases outcome with
  | error error => exact ⟨rfl, after⟩
  | ok a => exact later a middle middle' after

theorem relates_ofExcept {outcome : Except Error α} {outcome' : Except Error β}
    (same : outcome' = outcome.map f) :
    Relates R f (ofExcept outcome) (ofExcept outcome') := by
  cases same
  cases outcome with
  | ok a => exact .pure a
  | error error => exact .throw error

end Action

/-- Natives act on a store by making objects and scopes, and by output. -/
structure Likeness.Carries (L : Likeness) (R : Store → Store → Prop) : Prop where
  fresh : Action.Relates R L.object Action.fresh Action.fresh
  root : Action.Relates R L.scope (Action.newScope none) (Action.newScope none)
  write : ∀ text, Action.Relates R id (Action.write text) (Action.write text)
  flush : Action.Relates R id Action.flush Action.flush

namespace Likeness

variable {L : Likeness}

theorem number (n : Number) : L.form n.form = n.form := by
  cases n <;> exact L.atom _ rfl rfl rfl

theorem bool (b : Bool) : L.form (.bool b) = .bool b := L.atom _ rfl rfl rfl

theorem ofForm? (f : Form) : Number.ofForm? (L.form f) = Number.ofForm? f :=
  L.reads _ (fun _ _ _ _ _ _ => rfl) (fun _ _ => rfl) (fun _ _ => rfl) f

end Likeness

namespace Primitive

variable {L : Likeness}

theorem relates_one (args : List Form) :
    Action.Relates R L.form (one args) (one (args.map L.form)) := by
  rcases args with _ | ⟨x, _ | ⟨y, rest⟩⟩
  · exact .throw _
  · exact .pure x
  · unfold one Action.fail
    rw [List.length_map]
    exact .throw _

theorem relates_two (args : List Form) :
    Action.Relates R (Prod.map L.form L.form) (two args) (two (args.map L.form)) := by
  rcases args with _ | ⟨x, _ | ⟨y, _ | ⟨z, rest⟩⟩⟩
  · exact .throw _
  · exact .throw _
  · exact .pure (x, y)
  · unfold two Action.fail
    rw [List.length_map]
    exact .throw _

theorem relates_bool (b : Bool) :
    Action.Relates R L.form (pure (.bool b)) (pure (.bool b)) := by
  have same := @Action.Relates.pure R _ _ L.form (.bool b)
  rwa [L.bool] at same

theorem relates_number (n : Number) :
    Action.Relates R L.form (pure n.form) (pure n.form) := by
  have same := @Action.Relates.pure R _ _ L.form n.form
  rwa [L.number] at same

theorem relates_inert : Action.Relates R L.form (pure .inert) (pure .inert) := by
  have same := @Action.Relates.pure R _ _ L.form .inert
  rwa [L.form_inert] at same

theorem relates_test (args : List Form) {holds : Form → Bool}
    (same : ∀ f : Form, holds (L.form f) = holds f) :
    Action.Relates R L.form (test args holds) (test (args.map L.form) holds) := by
  refine (relates_one args).bind fun x => ?_
  rw [same]
  exact relates_bool _

theorem relates_kind (args : List Form) {holds : Form → Bool}
    (pair : ∀ i j a d a' d', holds (.pair i a d) = holds (.pair j a' d'))
    (combiner : ∀ c d, holds (.combiner c) = holds (.combiner d))
    (environment : ∀ d e, holds (.environment d) = holds (.environment e)) :
    Action.Relates R L.form (test args holds) (test (args.map L.form) holds) :=
  relates_test args (L.reads holds pair combiner environment)

theorem relates_part {α β : Type} {g : α → β} (p : Primitive) (expected : String) (f : Form)
    {found : Option α} {found' : Option β} (same : found' = found.map g) :
    Action.Relates R g (p.part expected f found) (p.part expected (L.form f) found') := by
  cases same
  cases found with
  | some a => exact .pure a
  | none =>
    unfold part
    rw [L.textDuring]
    exact .throw _

theorem ofForms_image (n : Native) (args : List Form) (place : Nat) :
    Number.ofForms (·.textDuring n) place (args.map L.form) =
      Number.ofForms (·.textDuring n) place args := by
  induction args generalizing place with
  | nil => rfl
  | cons x rest ih =>
    rw [List.map_cons, Number.ofForms, Number.ofForms, L.ofForm?, L.textDuring, ih]

theorem relates_numbers (p : Primitive) (args : List Form) :
    Action.Relates R id (p.numbers args) (p.numbers (args.map L.form)) := by
  refine Action.relates_ofExcept ?_
  rw [ofForms_image]
  cases Number.ofForms (·.textDuring (.primitive p)) 1 args <;> rfl

theorem relates_count (a : Arity) (args : List Form) :
    Action.Relates R id (ofExcept (a.check args.length))
      (ofExcept (a.check (args.map L.form).length)) := by
  refine Action.relates_ofExcept ?_
  rw [List.length_map]
  cases a.check args.length <;> rfl

theorem relates_compare (p : Primitive) (args : List Form) (holds : Ordering → Bool) :
    Action.Relates R L.form (p.compare args holds) (p.compare (args.map L.form) holds) :=
  (relates_numbers p args).bind fun _ => relates_bool _

/-- A native does the same to an image of its arguments. Where it makes a child of a scope, that is
a scope it was given. -/
theorem relates_call (carries : L.Carries R) (p : Primitive) (args : List Form)
    (child : ∀ x ∈ args, ∀ e, x.environment? = some e →
      Action.Relates R L.scope (Action.newScope (some e)) (Action.newScope (some (L.scope e)))) :
    Action.Relates R L.form (p.call args) (p.call (args.map L.form)) := by
  cases p
  case add | multiply => exact (relates_numbers _ args).bind fun _ => relates_number _
  case subtract =>
    refine (relates_count _ args).bind fun _ => ?_
    exact (relates_numbers _ args).bind fun _ => relates_number _
  case divide =>
    refine (relates_count _ args).bind fun _ => (relates_numbers _ args).bind fun xs => ?_
    refine Action.Relates.bind (f := id) (Action.relates_ofExcept ?_) relates_number
    rw [id]
    cases Number.quotient xs <;> rfl
  case numberEqual | less | greater | atMost | atLeast => exact relates_compare _ args _
  case same =>
    refine (relates_two args).bind fun ⟨x, y⟩ => ?_
    dsimp only [Prod.map]
    rw [L.isSame]
    exact relates_bool _
  case equal =>
    refine (relates_two args).bind fun ⟨x, y⟩ => ?_
    dsimp only [Prod.map]
    rw [L.isEqual]
    exact relates_bool _
  case cons =>
    refine (relates_two args).bind fun ⟨x, y⟩ => carries.fresh.bind fun id => ?_
    have made := @Action.Relates.pure R _ _ L.form (.pair id x y)
    rwa [L.pair] at made
  case car => exact (relates_one args).bind fun x => relates_part _ _ x (L.car? x)
  case cdr => exact (relates_one args).bind fun x => relates_part _ _ x (L.cdr? x)
  case wrap =>
    refine (relates_one args).bind fun x => ?_
    refine (relates_part _ _ x (L.combiner? x)).bind fun c => carries.fresh.bind fun id => ?_
    have made := @Action.Relates.pure R _ _ L.form (.combiner (.applicative id c))
    rwa [L.combined, L.applicative] at made
  case unwrap =>
    refine (relates_one args).bind fun x => (relates_part _ _ x (L.combiner? x)).bind fun c => ?_
    refine (relates_part _ _ x (L.underlying? c)).bind fun inner => ?_
    have found := @Action.Relates.pure R _ _ L.form (.combiner inner)
    rwa [L.combined] at found
  case makeEnvironment =>
    have made {e : ScopeId} : Action.Relates R L.form (pure (.environment e))
        (pure (.environment (L.scope e))) := by
      have made := @Action.Relates.pure R _ _ L.form (.environment e)
      rwa [L.environment] at made
    rcases args with _ | ⟨x, _ | ⟨y, rest⟩⟩
    · exact carries.root.bind fun _ => made
    · have found := L.environment? x
      cases given : x.environment? with
      | none =>
        rw [given] at found
        unfold call
        simp only [List.map, given, found]
        unfold part
        rw [L.textDuring]
        exact .throw _
      | some e =>
        rw [given] at found
        unfold call
        simp only [List.map, given, found, part, pure_bind, Option.map_some]
        -- This is the scope that is made as a child, below one that the native was given.
        exact (child x List.mem_cons_self e given).bind fun _ => made
    · unfold call Action.fail
      rw [List.length_map]
      exact .throw _
  case display =>
    refine (relates_one args).bind fun x => ?_
    rw [L.textDuring]
    exact (carries.write _).bind fun _ => relates_inert
  case newline =>
    refine (relates_count _ args).bind fun _ => (carries.write _).bind fun _ => ?_
    exact carries.flush.bind fun _ => relates_inert
  case isOperative =>
    refine relates_test args fun f => ?_
    rw [L.combiner?]
    cases f.combiner? with
    | none => rfl
    | some c => exact L.isOperative c
  case isApplicative =>
    refine relates_test args fun f => ?_
    rw [L.combiner?]
    have isApplicative (c : Combiner) : c.isApplicative = c.underlying?.isSome := by
      cases c <;> rfl
    cases f.combiner? with
    | none => rfl
    | some c => simp only [Option.map_some, Option.any_some, isApplicative, L.underlying?,
        Option.isSome_map]
  -- What is left tests a form for its kind, which an image shares.
  all_goals
    exact relates_kind args (fun _ _ _ _ _ _ => rfl) (fun _ _ => rfl) fun _ _ => rfl

end Primitive

end Vau
