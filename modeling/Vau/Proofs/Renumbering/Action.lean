import Vau.Proofs.Primitive
import Vau.Proofs.Renumbering
import Vau.Proofs.Resolution

/-! Scopes and natives do the same under other numbers.

Numbers may be left out, and under those there may be anything. What is there is out of reach, so
nothing is done to it. -/

set_option autoImplicit false

namespace Vau

variable {ρ : Renumbering} {apart : ScopeId → Option Scope}

def Bindings.renumber (ρ : Renumbering) (bindings : Bindings) : Bindings :=
  bindings.map fun binding => (binding.1, binding.2.renumber ρ)

def Scope.renumber (ρ : Renumbering) (scope : Scope) : Scope :=
  ⟨scope.bindings.renumber ρ, scope.parent.map ρ.scope⟩

namespace Scopes

/-- The same scopes under other numbers. What is made next has numbers that correspond, and what
stands under a number that is left out is as given. -/
structure Moved (ρ : Renumbering) (apart : ScopeId → Option Scope) (scopes other : Scopes) :
    Prop where
  tree : scopes.Tree
  next : ∀ n : Nat, ρ.scope (scopes.size + n) = other.size + n
  scope : ∀ d, other[ρ.scope d]? = scopes[d]?.map (Scope.renumber ρ)
  apart : ∀ d, (∀ c, ρ.scope c ≠ d) → other[d]? = apart d

namespace Moved

variable {scopes other : Scopes}

theorem bindings (moved : scopes.Moved ρ apart other) (e : ScopeId) :
    other.bindings (ρ.scope e) = (scopes.bindings e).renumber ρ := by
  unfold Scopes.bindings
  rw [moved.scope]
  cases scopes[e]? <;> rfl

theorem parent? (moved : scopes.Moved ρ apart other) (e : ScopeId) :
    other.parent? (ρ.scope e) = (scopes.parent? e).map ρ.scope := by
  unfold Scopes.parent?
  rw [moved.scope]
  cases scopes[e]? <;> rfl

theorem chain (moved : scopes.Moved ρ apart other) (e : ScopeId) :
    other.chain (ρ.scope e) = (scopes.chain e).map ρ.scope := by
  have chainOf (n : Nat) (e : ScopeId) :
      other.chainOf n (ρ.scope e) = (scopes.chainOf n e).map ρ.scope := by
    induction n generalizing e with
    | zero => rfl
    | succ n ih =>
      unfold Scopes.chainOf
      rw [moved.parent?]
      cases scopes.parent? e with
      | none => rfl
      | some p => exact congrArg (ρ.scope e :: ·) (ih p)
  have older : e < ρ.scope e + 1 := Nat.lt_succ_of_le ρ.scope_mono.le_apply
  unfold Scopes.chain
  rw [chainOf, chainOf_eq moved.tree older (Nat.lt_succ_self e)]

theorem get? (moved : scopes.Moved ρ apart other) (e : ScopeId) (name : String) :
    other.get? (ρ.scope e) name = (scopes.get? e name).map (Form.renumber ρ) := by
  unfold Scopes.get?
  rw [moved.chain]
  induction scopes.chain e with
  | nil => rfl
  | cons d rest ih =>
    rw [List.map_cons, List.findSome?_cons, List.findSome?_cons, moved.bindings, Bindings.renumber,
      Bindings.get?_map]
    cases (scopes.bindings d).get? name with
    | none => exact ih
    | some value => rfl

theorem binder? (moved : scopes.Moved ρ apart other) (e : ScopeId) (name : String) :
    other.binder? (ρ.scope e) name = (scopes.binder? e name).map ρ.scope := by
  unfold Scopes.binder?
  rw [moved.chain, List.find?_map]
  congr 2
  funext d
  rw [Function.comp_apply, moved.bindings, Bindings.renumber, Bindings.get?_map, Option.isSome_map]

theorem lookup (moved : scopes.Moved ρ apart other) (e : ScopeId) (name : String) :
    other.lookup (ρ.scope e) name = (scopes.lookup e name).map (Form.renumber ρ) := by
  unfold Scopes.lookup
  rw [moved.get?]
  cases scopes.get? e name <;> rfl

theorem define (moved : scopes.Moved ρ apart other) (e : ScopeId) (name : String) (value : Form) :
    (scopes.define e name value).Moved ρ apart
      (other.define (ρ.scope e) name (value.renumber ρ)) where
  tree := tree_define moved.tree e name value
  next n := by
    rw [size_define, size_define]
    exact moved.next n
  scope d := by
    unfold Scopes.define
    rw [Array.getElem?_modify, Array.getElem?_modify, moved.scope]
    by_cases here : e = d
    · subst here
      rw [if_pos rfl, if_pos rfl]
      cases scopes[e]? with
      | none => rfl
      | some scope =>
        have put := scope.bindings.map_put (Form.renumber ρ) name value
        exact congrArg (fun bindings => some (Scope.mk bindings (scope.parent.map ρ.scope)))
          put.symm
    · rw [if_neg here, if_neg (ρ.scope_mono.injective.ne here)]
  apart d out := by
    unfold Scopes.define
    rw [Array.getElem?_modify, if_neg (out e)]
    exact moved.apart d out

theorem extend (moved : scopes.Moved ρ apart other) {parent : Option ScopeId}
    (older : ∀ p, parent = some p → p < scopes.size) :
    (scopes.extend parent).2.Moved ρ apart (other.extend (parent.map ρ.scope)).2 where
  tree := tree_extend moved.tree older
  next n := by
    rw [size_extend, size_extend, Nat.add_assoc, Nat.add_assoc]
    exact moved.next (1 + n)
  scope d := by
    have last : ρ.scope d = other.size ↔ d = scopes.size := by
      rw [← ρ.scope_mono.injective.eq_iff (a := d), show ρ.scope scopes.size = _ from moved.next 0]
      rfl
    unfold Scopes.extend
    rw [Array.getElem?_push, Array.getElem?_push, moved.scope]
    by_cases here : d = scopes.size
    · rw [if_pos here, if_pos (last.mpr here)]
      rfl
    · rw [if_neg here, if_neg (mt last.mp here)]
  apart d out := by
    unfold Scopes.extend
    rw [Array.getElem?_push, if_neg fun last => out _ ((moved.next 0).trans last.symm)]
    exact moved.apart d out

theorem bind (e : ScopeId) : ∀ (parameters operands : Form) {scopes other : Scopes},
    scopes.Moved ρ apart other →
      (other.bind (ρ.scope e) (parameters.renumber ρ) (operands.renumber ρ)).1 =
        (scopes.bind e parameters operands).1 ∧
      (scopes.bind e parameters operands).2.Moved ρ apart
        (other.bind (ρ.scope e) (parameters.renumber ρ) (operands.renumber ρ)).2
  | .symbol name, operand, _, _, moved => by
    simp only [Form.renumber, Scopes.bind, true_and]
    exact moved.define e name operand
  | .ignore, operand, _, _, moved => by
    simp only [Form.renumber, Scopes.bind, true_and]
    exact moved
  | .pair id car cdr, operand, scopes, _, moved => by
    have parameters := (Form.pair id car cdr).text_renumber (ρ := ρ)
    have text := operand.text_renumber (ρ := ρ)
    cases operand with
    | pair id' first rest =>
      -- A failure in the first part leaves the second part alone, on both sides.
      have here := bind e car first moved
      simp only [Form.renumber, Scopes.bind]
      revert here
      generalize (scopes.bind e car first) = left
      generalize Scopes.bind _ (ρ.scope e) (car.renumber ρ) (first.renumber ρ) = right
      obtain ⟨outcome, changed⟩ := left
      obtain ⟨outcome', changed'⟩ := right
      rintro ⟨same, later⟩
      cases same
      cases outcome with
      | error error => exact ⟨rfl, later⟩
      | ok done => exact bind e cdr rest later
    | combiner c =>
      -- The message has the texts of both, which show no number.
      simp only [Form.renumber, Scopes.bind] at parameters text ⊢
      rw [parameters, text]
      exact ⟨rfl, moved⟩
    | _ =>
      simp only [Form.renumber, Scopes.bind] at parameters ⊢
      rw [parameters]
      exact ⟨rfl, moved⟩
  | .nil, operand, _, _, moved => by
    have text := operand.text_renumber (ρ := ρ)
    cases operand with
    | pair | combiner =>
      simp only [Form.renumber, Scopes.bind] at text ⊢
      rw [text]
      exact ⟨rfl, moved⟩
    | _ => exact ⟨rfl, moved⟩
  | .combiner c, operand, _, _, moved => by
    have text := (Form.combiner c).text_renumber (ρ := ρ)
    simp only [Form.renumber, Scopes.bind] at text ⊢
    rw [text]
    exact ⟨rfl, moved⟩
  | .int _, _, _, _, moved | .real _, _, _, _, moved | .bool _, _, _, _, moved
  | .inert, _, _, _, moved | .environment _, _, _, _, moved => ⟨rfl, moved⟩

end Moved

end Scopes

structure Store.Moved (ρ : Renumbering) (apart : ScopeId → Option Scope) (store other : Store) :
    Prop where
  scopes : store.scopes.Moved ρ apart other.scopes
  fresh : ∀ n : Nat, ρ.object (store.fresh + n) = other.fresh + n
  output : other.output = store.output

namespace Store.Moved

variable {store other : Store}

theorem next (moved : store.Moved ρ apart other) : ρ.object store.fresh = other.fresh :=
  moved.fresh 0

theorem withScopes (moved : store.Moved ρ apart other) {scopes scopes' : Scopes}
    (new : scopes.Moved ρ apart scopes') :
    ({ store with scopes } : Store).Moved ρ apart { other with scopes := scopes' } :=
  ⟨new, moved.fresh, moved.output⟩

theorem numbered (moved : store.Moved ρ apart other) (count : Nat) :
    ({ store with fresh := store.fresh + count } : Store).Moved ρ apart
      { other with fresh := other.fresh + count } := by
  refine ⟨moved.scopes, fun n => ?_, moved.output⟩
  have shift := moved.fresh (count + n)
  rwa [← Nat.add_assoc, ← Nat.add_assoc] at shift

end Store.Moved

/-- The same store under other numbers, with so many scopes at least. -/
structure Store.MovedPast (size : Nat) (ρ : Renumbering) (apart : ScopeId → Option Scope)
    (store other : Store) : Prop where
  moved : store.Moved ρ apart other
  size : size ≤ store.scopes.size

variable {size : Nat}

theorem Store.moved_newScope {parent : Option ScopeId} (older : ∀ p, parent = some p → p < size) :
    Action.Relates (Store.MovedPast size ρ apart) ρ.scope (Action.newScope parent)
      (Action.newScope (parent.map ρ.scope)) := by
  rintro store other ⟨moved, le⟩
  have extended := moved.scopes.extend fun p same => Nat.lt_of_lt_of_le (older p same) le
  refine ⟨congrArg Except.ok (moved.scopes.next 0).symm, moved.withScopes extended, ?_⟩
  exact Nat.le_trans le (Nat.le.intro (store.scopes.size_extend parent).symm)

theorem Renumbering.carries (ρ : Renumbering) (apart : ScopeId → Option Scope) (size : Nat) :
    ρ.likeness.Carries (Store.MovedPast size ρ apart) where
  fresh := fun _ _ ⟨moved, le⟩ =>
    ⟨congrArg Except.ok moved.next.symm, moved.numbered 1, le⟩
  root := Store.moved_newScope nofun
  write text := by
    rintro store other ⟨moved, le⟩
    rw [Action.run_write, Action.run_write, moved.output]
    rcases store.output.write text with ⟨_ | _, output⟩
    · exact ⟨rfl, ⟨moved.scopes, moved.fresh, rfl⟩, le⟩
    · exact ⟨rfl, ⟨moved.scopes, moved.fresh, rfl⟩, le⟩
  flush := by
    rintro store other ⟨moved, le⟩
    rw [Action.run_flush, Action.run_flush, moved.output]
    cases store.output.flush with
    | error fault => exact ⟨rfl, moved, le⟩
    | ok _ => exact ⟨rfl, moved, le⟩

theorem Primitive.moved_call (p : Primitive) {args : List Form} {store other : Store}
    (moved : store.Moved ρ apart other)
    (known : ∀ x ∈ args, ∀ e, x.environment? = some e → e < store.scopes.size) :
    ((p.call (args.map (Form.renumber ρ))).run other).1 =
        ((p.call args).run store).1.map (Form.renumber ρ) ∧
      ((p.call args).run store).2.Moved ρ apart
        ((p.call (args.map (Form.renumber ρ))).run other).2 := by
  obtain ⟨same, after⟩ := relates_call (ρ.carries apart store.scopes.size) p args
    (fun x member e found => Store.moved_newScope fun p same =>
      Option.some.inj same ▸ known x member e found) store other ⟨moved, Nat.le_refl _⟩
  exact ⟨same, after.moved⟩

end Vau
