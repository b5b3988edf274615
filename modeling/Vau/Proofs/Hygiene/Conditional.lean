import Vau.Proofs.Hygiene.Call
import Vau.Proofs.Renumbering.Outcome

/-! `$when` and `$unless` come to the conditionals that they stand for.

The test is evaluated between two parts of the body of the operative. The scope of the call is out
of its reach, so as long as it leaves the ground scope alone the second part means what it says. -/

set_option autoImplicit false

namespace Vau

/-- A body that is left out if the test is false, or if it is not. -/
def Meaning.guard (skips : Bool) (test body : Meaning Form) : Meaning Form := do
  if (← test).isFalse == skips then return .inert else body

variable {w later : World} {d e : ScopeId} {test body : Form}

/-! In the scope of a call. -/

theorem Scopes.Calls.result_test (calls : w.store.scopes.Calls d e "test" test body) {code : Code}
    (compiled : test.compile .ret = .ok code) (n : Identity) (fuel : Nat) :
    ((Form.ofDatum .evalTest n).1.evaluate (Combiner.combine (fuel + 2)) d).result w =
      test.outcome fuel e (w.reserve 4) := by
  obtain ⟨_, eval⟩ := calls.eval (by decide)
  have caller : (w.reserve 1).store.scopes.lookup d "e" = .ok (.environment e) := calls.caller
  refine (@Form.result_eval _ (n + 2) _ _ _ _ _ _ _ _ eval rfl (Form.result_operands
    (Form.result_symbol calls.first) (Form.result_operands (Form.result_symbol caller)
      Form.result_nil))).trans ?_
  rw [compiled]
  rfl

theorem Scopes.Calls.result_body (calls : w.store.scopes.Calls d e "test" test body)
    (proper : body.ending.isNil) {x : Expr} (read : body.ReadsAll x) (n : Identity) (fuel : Nat) :
    ((Form.ofDatum .evalBody n).1.evaluate (Combiner.combine (fuel + 3)) d).result w =
      (body.evaluateAll (Combiner.combine (fuel + 1)) e).result (w.reserve 9) := by
  obtain ⟨_, eval⟩ := calls.eval (by decide)
  obtain ⟨_, cons⟩ := calls.primitive .cons (by decide)
  have rest : (w.reserve 1).store.scopes.lookup d "body" = .ok body := calls.body
  have caller : (w.reserve 6).store.scopes.lookup d "e" = .ok (.environment e) := calls.caller
  have sequence : ((Form.ofDatum .sequenceBody n).1.evaluate
      (Combiner.combine (fuel + 2)) d).result w =
        some (.ok (.pair (w.store.fresh + 4) (.symbol "$sequence") body), w.reserve 5) :=
    Form.result_call cons rfl (Form.result_operands (Form.result_quote rfl)
      (Form.result_operands (Form.result_symbol rest) Form.result_nil)) rfl
  have reads : (Form.pair (w.store.fresh + 4) (.symbol "$sequence") body).Reads x :=
    .sequence rfl proper read
  refine (@Form.result_eval _ (n + 7) _ _ _ _ _ _ _ _ eval rfl (Form.result_operands sequence
    (Form.result_operands (Form.result_symbol caller) Form.result_nil))).trans ?_
  rw [Form.compile_eq_ok.mpr ⟨x, reads, rfl⟩]
  rfl

theorem Meaning.result_guard (skips : Bool) (test body : Meaning Form) (w : World) :
    (guard skips test body).result w = match test.result w with
      | some (.ok v, later) => if v.isFalse == skips then some (.ok .inert, later) else
        body.result later
      | some (.error exit, later) => some (.error exit, later)
      | none => none := by
  unfold guard
  rw [result_bind]
  rcases test.result w with _ | ⟨exit | v, later⟩
  · rfl
  · rfl
  · dsimp only
    split <;> rfl

/-- The scope of the call is out of reach, and the ground scope was left alone. -/
theorem Scopes.Calls.moved {called middle other : World} {ρ : Renumbering} {name : String}
    (calls : called.store.scopes.Calls w.store.scopes.size e name test body)
    (size : called.store.scopes.size = w.store.scopes.size + 1) (sound : w.Sound)
    (widens : w.Widens called) (fixes : Renumbering.same.Agrees w.store.discipline ρ)
    (next : ρ.scope w.store.scopes.size = called.store.scopes.size)
    (grows : w.store.Grows middle.store)
    (moved : middle.Moved ρ (fun d => called.store.scopes[d]?) other)
    (kept : middle.store.scopes[Machine.ground]? = w.store.scopes[Machine.ground]?) :
    other.store.scopes.Calls w.store.scopes.size e name test body := by
  have below : Machine.ground < w.store.scopes.size := calls.older
  -- Older scopes keep their numbers, and newer ones are numbered after the scope of the call.
  have apart (d : ScopeId) : ρ.scope d ≠ w.store.scopes.size := by
    intro same
    rcases Nat.lt_or_ge d w.store.scopes.size with old | new
    · rw [← fixes.scope d old] at same
      exact Nat.ne_of_lt old same
    · have le : ρ.scope w.store.scopes.size ≤ ρ.scope d := ρ.scope_mono.monotone new
      rw [next, size, same] at le
      exact Nat.not_succ_le_self _ le
  have room : w.store.scopes.size < other.store.scopes.size := by
    have last : ρ.scope middle.store.scopes.size = other.store.scopes.size :=
      moved.store.scopes.next 0
    have le : ρ.scope w.store.scopes.size ≤ ρ.scope middle.store.scopes.size :=
      ρ.scope_mono.monotone grows.scopes
    rw [next, size, last] at le
    exact le
  refine calls.same (moved.store.scopes.apart _ apart) ?_ room
  have obeys : w.store.scopes.Obeys w.store.discipline :=
    (sound.closed _ w.store.spans_discipline).scopes
  have ground : other.store.scopes[Machine.ground]? = _ :=
    fixes.scope _ below ▸ moved.store.scopes.scope Machine.ground
  rw [kept, ← obeys.renumber_eq fixes below, obeys.renumber_same (fun _ => id) below] at ground
  exact ground.trans (widens.older _ below).symm

/-- What the conditional comes to, and what the operative that stands for it does. -/
theorem World.Sound.concludes_guard (sound : w.Sound) {called : World} (widens : w.Widens called)
    (size : called.store.scopes.size = w.store.scopes.size + 1)
    (calls : called.store.scopes.Calls w.store.scopes.size e "test" test body) {code : Code}
    (compiled : test.compile .ret = .ok code) (proper : body.ending.isNil) {y : Expr}
    (readBody : body.ReadsAll y) (known : w.store.Knows (test.Obeys ·))
    (knownBody : w.store.Knows (body.Obeys ·)) (there : e < w.store.scopes.size) (fuel : Nat)
    (kept : ∀ v later, test.outcome (fuel + 1) e w = some (.ok v, later) →
      later.store.scopes[Machine.ground]? = w.store.scopes[Machine.ground]?)
    (skips : Bool) (n n' : Identity) :
    w.Concludes
      ((Meaning.guard skips (test.evaluate (Combiner.combine (fuel + 1)) e)
        (body.evaluateAll (Combiner.combine (fuel + 1)) e)).result w)
      ((Meaning.guard skips
        ((Form.ofDatum .evalTest n).1.evaluate (Combiner.combine (fuel + 3)) w.store.scopes.size)
        ((Form.ofDatum .evalBody n').1.evaluate (Combiner.combine (fuel + 3))
          w.store.scopes.size)).result called) := by
  obtain ⟨x, read, _⟩ := Form.compile_eq_ok.mp compiled
  -- The test is evaluated a second time, in the world of the call, with other new numbers.
  obtain ⟨ρ, fixes, moved⟩ := sound.moved.widen (widens.reserve 4)
  have fixes : Renumbering.same.Agrees w.store.discipline ρ := fixes
  have ends := read.moves_fixed known there (.refl _) fixes (fuel + 1) (called.reserve 4) moved
  have here : (test.evaluate (Combiner.combine (fuel + 1)) e).result w =
      test.outcome (fuel + 1) e w := rfl
  rw [Meaning.result_guard, Meaning.result_guard, calls.result_test compiled n (fuel + 1), here]
  change Ends _ _ _ _ (test.outcome (fuel + 1) e w) (test.outcome (fuel + 1) e _) at ends
  generalize test.outcome (fuel + 1) e (called.reserve 4) = second at ends
  generalize first : test.outcome (fuel + 1) e w = outcome at ends
  cases ends with
  | spent => exact .spent
  | error _ after => exact .error ρ (after.corresponds fixes)
  | control => exact .control
  | @value v v' middle other grows after image =>
    obtain ⟨_, rfl⟩ := image
    dsimp only
    rw [Form.isFalse_renumber]
    split
    · exact .value ρ (after.corresponds fixes)
    · have calls := calls.moved size sound widens fixes (moved.store.scopes.next 0) grows after
        (kept v middle first)
      rw [calls.result_body proper readBody n' fuel]
      exact after.concludes fixes grows (other.widens_reserve 9) fun _ _ fixes =>
        readBody.moves_fixed knownBody there grows fixes (fuel + 1)

/-! Conditionals in the source, and in the bodies of the operatives. -/

namespace Form

variable {combine : Combiner → Form → ScopeId → Meaning Form} {i j k l n : Identity}

theorem evaluate_consequent {head test consequent : Form} {name : String}
    (special : SpecialForm.ofHead? head = some (.conditional, name)) :
    (pair i head (pair j test (pair k consequent .nil))).evaluate combine e =
      .guard true (test.evaluate combine e) (consequent.evaluate combine e) := by
  rw [evaluate, special]
  unfold Meaning.guard
  refine congrArg (_ >>= ·) (funext fun v => ?_)
  cases v.isFalse <;> rfl

theorem evaluate_alternative {head test alternative : Form} {name : String}
    (special : SpecialForm.ofHead? head = some (.conditional, name)) :
    (pair i head (pair j test (pair k .inert (pair l alternative .nil)))).evaluate combine e =
      .guard false (test.evaluate combine e) (alternative.evaluate combine e) := by
  rw [evaluate, special]
  unfold Meaning.guard
  refine congrArg (_ >>= ·) (funext fun v => ?_)
  cases v.isFalse <;> rfl

def ifTrue (test body : Form) (i j k l : Identity) : Form :=
  .pair i (.symbol "$if") (.pair j test (.pair k (.pair l (.symbol "$sequence") body) .nil))

def ifFalse (test body : Form) (i j k l n : Identity) : Form :=
  .pair i (.symbol "$if") (.pair j test (.pair k .inert
    (.pair l (.pair n (.symbol "$sequence") body) .nil)))

theorem evaluate_ifTrue : (ifTrue test body i j k l).evaluate combine e =
    .guard true (test.evaluate combine e) (body.evaluateAll combine e) :=
  evaluate_consequent rfl

theorem evaluate_ifFalse : (ifFalse test body i j k l n).evaluate combine e =
    .guard false (test.evaluate combine e) (body.evaluateAll combine e) :=
  evaluate_alternative rfl

structure Accepted (test body : Form) : Prop where
  test : ∃ code, test.compile .ret = .ok code
  proper : body.ending.isNil
  each : ∀ form ∈ body.items, ∃ code, form.compile .ret = .ok code

theorem Accepted.reads (accepted : test.Accepted body) :
    ∃ x y : Expr, test.Reads x ∧ body.ReadsAll y := by
  have reads {f : Form} (compiles : ∃ code, f.compile .ret = .ok code) : ∃ x : Expr, f.Reads x := by
    obtain ⟨_, compiled⟩ := compiles
    obtain ⟨x, read, _⟩ := compile_eq_ok.mp compiled
    exact ⟨x, read⟩
  obtain ⟨x, read⟩ := reads accepted.test
  obtain ⟨y, readBody⟩ := readsAll_of_items fun form member => reads (accepted.each form member)
  exact ⟨x, y, read, readBody⟩

theorem Accepted.ifTrue (accepted : test.Accepted body) (i j k l : Identity) :
    ∃ code, (test.ifTrue body i j k l).compile .halt = .ok code := by
  obtain ⟨x, y, read, readBody⟩ := accepted.reads
  exact ⟨_, compile_eq_ok.mpr
    ⟨_, .consequent rfl read (.sequence rfl accepted.proper readBody), rfl⟩⟩

theorem Accepted.ifFalse (accepted : test.Accepted body) (i j k l n : Identity) :
    ∃ code, (test.ifFalse body i j k l n).compile .halt = .ok code := by
  obtain ⟨x, y, read, readBody⟩ := accepted.reads
  exact ⟨_, compile_eq_ok.mpr ⟨_, .conditional rfl read (.constant rfl rfl)
    (.sequence rfl accepted.proper readBody), rfl⟩⟩

end Form

namespace Template

variable {combine : Combiner → Form → ScopeId → Meaning Form} {fresh : Identity}

theorem evaluate_onTrue : (onTrue fresh).source.evaluateAll combine d =
    .guard true ((Form.ofDatum .evalTest (fresh + 1)).1.evaluate combine d)
      ((Form.ofDatum .evalBody (fresh + 4)).1.evaluate combine d) :=
  Form.evaluate_consequent rfl

theorem evaluate_onFalse : (onFalse fresh).source.evaluateAll combine d =
    .guard false ((Form.ofDatum .evalTest (fresh + 1)).1.evaluate combine d)
      ((Form.ofDatum .evalBody (fresh + 4)).1.evaluate combine d) :=
  Form.evaluate_alternative rfl

end Template

end Vau
