import Vau.Proofs.Primitive
import Vau.Proofs.Renaming

/-! Scopes and natives do the same under other numbers. -/

set_option autoImplicit false

namespace Vau

variable {ρ : Renaming}

def Bindings.rename (ρ : Renaming) (bindings : Bindings) : Bindings :=
  bindings.map fun binding => (binding.1, binding.2.rename ρ)

def Scope.rename (ρ : Renaming) (scope : Scope) : Scope :=
  { scope with bindings := scope.bindings.rename ρ }

def Scopes.rename (ρ : Renaming) (scopes : Scopes) : Scopes :=
  scopes.map (Scope.rename ρ)

namespace Scopes

theorem getElem?_rename (scopes : Scopes) (e : ScopeId) :
    (scopes.rename ρ)[e]? = scopes[e]?.map (Scope.rename ρ) :=
  Array.getElem?_map

theorem size_rename (scopes : Scopes) : (scopes.rename ρ).size = scopes.size :=
  Array.size_map

theorem bindings_rename (scopes : Scopes) (e : ScopeId) :
    (scopes.rename ρ).bindings e = (scopes.bindings e).rename ρ := by
  unfold bindings
  rw [getElem?_rename]
  cases scopes[e]? <;> rfl

theorem parent?_rename (scopes : Scopes) (e : ScopeId) :
    (scopes.rename ρ).parent? e = scopes.parent? e := by
  unfold parent?
  rw [getElem?_rename]
  cases scopes[e]? <;> rfl

theorem chainOf_rename (scopes : Scopes) (n : Nat) (e : ScopeId) :
    (scopes.rename ρ).chainOf n e = scopes.chainOf n e := by
  induction n generalizing e with
  | zero => rfl
  | succ n ih =>
    unfold chainOf
    rw [parent?_rename]
    cases scopes.parent? e with
    | none => rfl
    | some p => exact congrArg (e :: ·) (ih p)

theorem get?_rename (scopes : Scopes) (e : ScopeId) (name : String) :
    (scopes.rename ρ).get? e name = (scopes.get? e name).map (Form.rename ρ) := by
  unfold get? chain
  rw [chainOf_rename]
  induction scopes.chainOf (e + 1) e with
  | nil => rfl
  | cons d rest ih =>
    rw [List.findSome?_cons, List.findSome?_cons, bindings_rename, Bindings.rename,
      Bindings.get?_map]
    cases (scopes.bindings d).get? name with
    | none => exact ih
    | some value => rfl

theorem binder?_rename (scopes : Scopes) (e : ScopeId) (name : String) :
    (scopes.rename ρ).binder? e name = scopes.binder? e name := by
  unfold binder? chain
  rw [chainOf_rename]
  congr 1
  funext d
  rw [bindings_rename, Bindings.rename, Bindings.get?_map, Option.isSome_map]

theorem lookup_rename (scopes : Scopes) (e : ScopeId) (name : String) :
    (scopes.rename ρ).lookup e name = (scopes.lookup e name).map (Form.rename ρ) := by
  unfold lookup
  rw [get?_rename]
  cases scopes.get? e name <;> rfl

theorem rename_define (scopes : Scopes) (e : ScopeId) (name : String) (value : Form) :
    (scopes.define e name value).rename ρ =
      (scopes.rename ρ).define e name (value.rename ρ) := by
  refine Array.ext_getElem? fun d => ?_
  rw [getElem?_rename]
  unfold define
  rw [Array.getElem?_modify, Array.getElem?_modify, getElem?_rename]
  split
  · cases scopes[d]? with
    | none => rfl
    | some scope =>
      have put := scope.bindings.map_put (Form.rename ρ) name value
      simp only [Option.map_some, Scope.rename, Bindings.rename, put]
  · rfl

theorem set_rename (scopes : Scopes) (e : ScopeId) (name : String) (value : Form) :
    (scopes.rename ρ).set e name (value.rename ρ) =
      (scopes.set e name value).map (rename ρ) := by
  unfold set
  rw [binder?_rename]
  cases scopes.binder? e name with
  | none => rfl
  | some d => exact congrArg Except.ok (scopes.rename_define d name value).symm

theorem rename_extend (scopes : Scopes) (parent : Option ScopeId) :
    (scopes.rename ρ).extend parent =
      ((scopes.extend parent).1, (scopes.extend parent).2.rename ρ) := by
  unfold extend
  rw [size_rename, rename, rename, Array.map_push]
  rfl

theorem bind_rename : ∀ (parameters operands : Form) (scopes : Scopes) (e : ScopeId),
    (scopes.rename ρ).bind e (parameters.rename ρ) (operands.rename ρ) =
      ((scopes.bind e parameters operands).1, (scopes.bind e parameters operands).2.rename ρ)
  | .symbol name, operand, scopes, e => by simp only [Form.rename, bind, rename_define]
  | .ignore, operand, scopes, e => by simp only [Form.rename, bind]
  | .pair id car cdr, operand, scopes, e => by
    have parameters := (Form.pair id car cdr).text_rename (ρ := ρ)
    have text := operand.text_rename (ρ := ρ)
    cases operand with
    | pair id' first rest =>
      have here := bind_rename car first scopes e
      simp only [Form.rename, bind, here]
      rcases scopes.bind e car first with ⟨_ | _, changed⟩
      · rfl
      · exact bind_rename cdr rest changed e
    | combiner c =>
      simp only [Form.rename, bind] at parameters text ⊢
      rw [parameters, text]
    | _ =>
      simp only [Form.rename, bind] at parameters ⊢
      rw [parameters]
  | .nil, operand, scopes, e => by
    have text := operand.text_rename (ρ := ρ)
    cases operand with
    | pair | combiner =>
      simp only [Form.rename, bind] at text ⊢
      rw [text]
    | _ => rfl
  | .combiner c, operand, scopes, e => by
    have text := (Form.combiner c).text_rename (ρ := ρ)
    simp only [Form.rename, bind] at text ⊢
    rw [text]
  | .int _, _, _, _ | .real _, _, _, _ | .bool _, _, _, _ | .inert, _, _, _
  | .environment _, _, _, _ => rfl

theorem Obeys.rename_eq {D : Discipline} (fixes : ρ.Fixes D) {scopes : Scopes}
    (obeys : scopes.Obeys D) (allowed : ∀ e, D.scope e) : scopes.rename ρ = scopes := by
  refine Array.ext_getElem? fun e => ?_
  rw [getElem?_rename]
  cases found : scopes[e]? with
  | none => rfl
  | some scope =>
    have values := obeys.value e (allowed e)
    rw [Scopes.bindings, found] at values
    have same : scope.bindings.rename ρ = scope.bindings := by
      refine (List.map_congr_left fun binding member => ?_).trans scope.bindings.map_id
      exact congrArg (binding.1, ·) ((values binding member).rename_eq fixes)
    rw [Option.map_some, Scope.rename, same]

end Scopes

structure Store.Alike (ρ : Renaming) (store other : Store) : Prop where
  scopes : other.scopes = store.scopes.rename ρ
  fresh : ∀ n : Nat, ρ.object (store.fresh + n) = other.fresh + n
  output : other.output = store.output

theorem Store.Alike.next {store other : Store} (alike : store.Alike ρ other) :
    ρ.object store.fresh = other.fresh :=
  alike.fresh 0

/-- The fresh numbers still correspond when as many are taken. -/
theorem Store.Alike.numbered {store other : Store} (alike : store.Alike ρ other) (count : Nat) :
    ({ store with fresh := store.fresh + count } : Store).Alike ρ
      { other with fresh := other.fresh + count } := by
  refine ⟨alike.scopes, fun n => ?_, alike.output⟩
  have shift := alike.fresh (count + n)
  rwa [← Nat.add_assoc, ← Nat.add_assoc] at shift

/-- Both actions do the same under other numbers. -/
def Action.Renames (ρ : Renaming) {α β : Type} (f : α → β) (action : Action α)
    (action' : Action β) : Prop :=
  ∀ store other : Store, store.Alike ρ other →
    (action'.run other).1 = (action.run store).1.map f ∧
      (action.run store).2.Alike ρ (action'.run other).2

namespace Action

variable {α β γ δ : Type} {f : α → β} {g : γ → δ}

theorem Renames.pure (a : α) : Renames ρ f (pure a) (pure (f a)) :=
  fun _ _ alike => ⟨rfl, alike⟩

theorem Renames.bind {action : Action α} {action' : Action β} (first : Renames ρ f action action')
    {k : α → Action γ} {k' : β → Action δ} (later : ∀ a, Renames ρ g (k a) (k' (f a))) :
    Renames ρ g (action >>= k) (action' >>= k') :=
  Relates.bind first later

theorem renames_fresh : Renames ρ ρ.object Action.fresh Action.fresh :=
  fun _ _ alike => ⟨congrArg Except.ok alike.next.symm, alike.numbered 1⟩

theorem renames_wrap (c : Combiner) :
    Renames ρ (Form.rename ρ) (wrap c) (wrap (c.rename ρ)) :=
  renames_fresh.bind fun _ => .pure _

theorem renames_newScope (parent : Option ScopeId) :
    Renames ρ id (newScope parent) (newScope parent) := by
  intro store other alike
  have extended := store.scopes.rename_extend (ρ := ρ) parent
  rw [← alike.scopes] at extended
  refine ⟨congrArg Except.ok (Prod.mk.inj extended).1, ?_, alike.fresh, alike.output⟩
  exact (Prod.mk.inj extended).2

theorem renames_write (text : String) : Renames ρ id (write text) (write text) := by
  intro store other alike
  rw [run_write, run_write, alike.output]
  rcases store.output.write text with ⟨_ | _, output⟩
  · exact ⟨rfl, alike.scopes, alike.fresh, rfl⟩
  · exact ⟨rfl, alike.scopes, alike.fresh, rfl⟩

theorem renames_flush : Renames ρ id flush flush := by
  intro store other alike
  rw [run_flush, run_flush, alike.output]
  cases store.output.flush with
  | error fault => exact ⟨rfl, alike⟩
  | ok _ => exact ⟨rfl, alike⟩

end Action

theorem Renaming.carries (ρ : Renaming) : ρ.likeness.Carries (Store.Alike ρ) where
  fresh := Action.renames_fresh
  root := Action.renames_newScope none
  write := Action.renames_write
  flush := Action.renames_flush

theorem Primitive.renames_call (p : Primitive) (args : List Form) :
    Action.Renames ρ (Form.rename ρ) (p.call args) (p.call (args.map (Form.rename ρ))) :=
  relates_call ρ.carries p args fun _ _ e _ => Action.renames_newScope (some e)

end Vau
