import Vau.Error

/-! Which numbers of operands pass the check of an arity.

A count beyond 16 bits is taken as the largest one, and the sum of the bounds wraps. An arity that
takes any number more, or never as many as that, is not affected by either. -/

set_option autoImplicit false

namespace Vau.Arity

def total (a : Arity) : Nat := a.required.toNat + a.optional.toNat

def Demands (a : Arity) (count : Nat) : Prop :=
  a.required.toNat ≤ count ∧ (a.rest = true ∨ count ≤ a.total)

variable {a : Arity}

theorem toNat_narrow (count : Nat) : (narrow count).toNat = min count 65535 :=
  UInt16.toNat_ofNat_of_lt' (Nat.lt_succ_of_le (Nat.min_le_right count 65535))

theorem narrow_toNat (n : UInt16) : narrow n.toNat = n := by
  have small := n.toNat_lt
  rw [← UInt16.toNat_inj, toNat_narrow]
  omega

theorem toNat_most (a : Arity) : a.most.toNat = a.total % 65536 :=
  UInt16.toNat_add a.required a.optional

theorem accepts_iff {n : UInt16} : a.accepts n = true ↔ n.toNat = a.required.toNat ∨
    a.rest = true ∧ a.required.toNat ≤ n.toNat ∨
      a.rest = false ∧ 0 < a.optional.toNat ∧ a.required.toNat ≤ n.toNat ∧
        n.toNat ≤ a.total % 65536 := by
  unfold accepts
  simp only [Bool.or_eq_true, Bool.and_eq_true, beq_iff_eq, decide_eq_true_eq,
    Bool.not_eq_true', ← UInt16.toNat_inj, UInt16.le_iff_toNat_le, UInt16.lt_iff_toNat_lt,
    toNat_most, UInt16.toNat_zero, or_assoc, and_assoc]

theorem accepts_iff_of_bounded (bounded : a.rest = true ∨ a.total ≤ 65535) {n : UInt16} :
    a.accepts n = true ↔ a.Demands n.toNat := by
  rw [accepts_iff, Demands]
  cases rest : a.rest with
  | true =>
    simp only [true_or, and_true, true_and, Bool.true_eq_false, false_and, or_false]
    omega
  | false =>
    rw [rest] at bounded
    unfold total at bounded ⊢
    simp only [Bool.false_eq_true, false_or, false_and, true_and] at bounded ⊢
    omega

theorem accepts_iff_of_wrapped (limited : a.rest = false) (wraps : 65535 < a.total) {n : UInt16} :
    a.accepts n = true ↔ n.toNat = a.required.toNat := by
  have optional := a.optional.toNat_lt
  rw [accepts_iff, limited]
  unfold total at wraps ⊢
  simp only [Bool.false_eq_true, false_or, false_and, true_and]
  omega

theorem check_eq_ok {count : Nat} :
    a.check count = .ok () ↔ a.accepts (narrow count) = true := by
  unfold check admits
  cases a.accepts (narrow count) <;> simp

theorem check_iff_of_bounded (bounded : a.rest = true ∨ a.total ≤ 65535) {count : Nat} :
    a.check count = .ok () ↔
      a.required.toNat ≤ count ∧ (a.rest = true ∨ min count 65535 ≤ a.total) := by
  have required := a.required.toNat_lt
  have least : a.required.toNat ≤ min count 65535 ↔ a.required.toNat ≤ count := by omega
  rw [check_eq_ok, accepts_iff_of_bounded bounded, Demands, toNat_narrow, least]

theorem check_iff_of_wrapped (limited : a.rest = false) (wraps : 65535 < a.total) {count : Nat} :
    a.check count = .ok () ↔ min count 65535 = a.required.toNat := by
  rw [check_eq_ok, accepts_iff_of_wrapped limited wraps, toNat_narrow]

theorem check_iff_demands (room : a.rest = true ∨ a.total < 65535) {count : Nat} :
    a.check count = .ok () ↔ a.Demands count := by
  rw [check_iff_of_bounded (room.imp_right Nat.le_of_lt), Demands]
  rcases room with rest | room
  · simp [rest]
  · have most : min count 65535 ≤ a.total ↔ count ≤ a.total := by omega
    rw [most]

theorem exists_check_ne_demands (limited : a.rest = false) (full : 65535 ≤ a.total) :
    ∃ count, ¬ (a.check count = .ok () ↔ a.Demands count) := by
  have required := a.required.toNat_lt
  have demands (count : Nat) :
      a.Demands count ↔ a.required.toNat ≤ count ∧ count ≤ a.total := by simp [Demands, limited]
  by_cases wraps : 65535 < a.total
  · by_cases least : a.required.toNat = 65535
    · -- Everything from 65535 on is taken for the least count.
      refine ⟨a.total + 1, ?_⟩
      rw [check_iff_of_wrapped limited wraps, demands]
      omega
    · -- Nothing but the least count is admitted.
      refine ⟨a.required.toNat + 1, ?_⟩
      rw [check_iff_of_wrapped limited wraps, demands]
      omega
  · -- The first count that is taken for the largest one.
    refine ⟨65536, ?_⟩
    rw [check_iff_of_bounded (.inr (Nat.le_of_not_lt wraps)), demands, limited]
    simp only [Bool.false_eq_true, false_or]
    omega

/-- A check that fails says what was asked for, and how many there were up to 32 bits. It passes on
counts from the least one to the most, where all counts from 65535 on are the same; if the most is
beyond that, only on the least. So it is exact on all counts if any number more are taken, or if
65535 are too many, and on no other arity. -/
theorem check_exact_iff (a : Arity) :
    (∀ count, a.check count = .ok () ∨
      a.check count = .error (.of (.arity a (min count 4294967295)))) ∧
    (∀ n : UInt16, a.accepts n = true ↔ a.check n.toNat = .ok ()) ∧
    (∀ count, a.check count = .ok () ↔
      if a.rest = true ∨ a.total ≤ 65535 then
        a.required.toNat ≤ count ∧ (a.rest = true ∨ min count 65535 ≤ a.total)
      else min count 65535 = a.required.toNat) ∧
    ((∀ count, a.check count = .ok () ↔ a.Demands count) ↔ a.rest = true ∨ a.total < 65535) := by
  refine ⟨fun count => ?_, fun n => ?_, fun count => ?_, fun faithful => ?_, fun room count => ?_⟩
  · unfold check
    split
    · exact .inl rfl
    · exact .inr rfl
  · rw [check_eq_ok, narrow_toNat]
  · split
    · rename_i bounded
      exact check_iff_of_bounded bounded
    · rename_i wrapped
      obtain ⟨limited, wraps⟩ := not_or.mp wrapped
      exact check_iff_of_wrapped (Bool.eq_false_iff.mpr limited) (Nat.lt_of_not_le wraps)
  · refine Classical.byContradiction fun other => ?_
    obtain ⟨limited, full⟩ := not_or.mp other
    obtain ⟨count, differ⟩ :=
      exists_check_ne_demands (Bool.eq_false_iff.mpr limited) (Nat.le_of_not_lt full)
    exact differ (faithful count)
  · exact check_iff_demands room

/-- One operand too many passes, and one that is asked for does not. -/
theorem check_inexact :
    (exactly 65535).check 65536 = .ok () ∧ ¬ (exactly 65535).Demands 65536 ∧
      (upTo 65534 2).Demands 65535 ∧ (upTo 65534 2).check 65535 ≠ .ok () := by
  refine ⟨check_eq_ok.mpr (by decide), ?_, ⟨by decide, .inr (by decide)⟩, fun passes => ?_⟩
  · rintro ⟨_, more | most⟩
    · cases more
    · exact absurd most (by decide)
  · exact absurd (check_eq_ok.mp passes) (by decide)

end Vau.Arity
