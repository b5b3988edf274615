import Mathlib.Data.List.DropRight
import Vau.Decimal.Layout
import Vau.Proofs.Decimal.Shortest
import Vau.Proofs.Grammar.Word

/-! Which decimals are laid out as numerals.

In positional notation there are digits on both sides of a point. In scientific notation there is
an exponent mark, which no numeral contains. The power of ten of the first digit decides between
the two, and it decides how the decimal compares with any power of ten. -/

set_option autoImplicit false

namespace Vau.Decimal

variable {d : Decimal} {cs : List Char}

/-! Digits. -/

theorem coefficient_pos (pos : 0 < d.toRat) : 0 < d.coefficient := by
  by_contra zero
  unfold toRat at pos
  simp [Nat.eq_zero_of_not_pos zero] at pos

theorem isDigits_digits (pos : 0 < d.coefficient) : isDigits d.digits.1 := by
  change isDigits ((Nat.toDigits 10 d.coefficient).rdropWhile (· == '0'))
  refine isDigits_iff.mpr ⟨fun none => ?_, fun c member => ?_⟩
  · have zeros := List.rdropWhile_eq_nil_iff.mp none
    have value : Nat.ofDigitChars 10 (Nat.toDigits 10 d.coefficient) 0 = 0 := by
      generalize Nat.toDigits 10 d.coefficient = cs at zeros
      induction cs with
      | nil => rfl
      | cons c cs ih =>
        have zero : c = '0' := by simpa using zeros c List.mem_cons_self
        rw [zero, Nat.ofDigitChars_cons]
        exact ih fun c member => zeros c (List.mem_cons_of_mem _ member)
    rw [Nat.ofDigitChars_ten_toDigits] at value
    omega
  · have member := (List.rdropWhile_prefix (p := (· == '0')) _).subset member
    exact Nat.isDigit_of_mem_toDigits (by decide) (by decide) member

theorem pow_lead_le (pos : 0 < d.coefficient) : (10 : ℚ) ^ d.digits.2 ≤ d.toRat := by
  have lead : d.digits.2 = (digitCount d.coefficient - 1) + d.exponent := by
    change d.exponent + digitCount d.coefficient - 1 = _
    omega
  unfold toRat
  rw [lead, zpow_add₀ (by norm_num)]
  gcongr
  exact pow_digitCount_le pos

theorem lt_pow_lead (d : Decimal) : d.toRat < 10 ^ (d.digits.2 + 1) := by
  have lead : d.digits.2 + 1 = digitCount d.coefficient + d.exponent := by
    change d.exponent + digitCount d.coefficient - 1 + 1 = _
    omega
  unfold toRat
  rw [lead, zpow_add₀ (by norm_num)]
  gcongr
  exact lt_pow_digitCount _

theorem le_lead_iff (pos : 0 < d.coefficient) {k : Int} :
    k ≤ d.digits.2 ↔ (10 : ℚ) ^ k ≤ d.toRat := by
  constructor
  · intro least
    calc (10 : ℚ) ^ k ≤ 10 ^ d.digits.2 := zpow_le_zpow_right₀ (by norm_num) least
      _ ≤ d.toRat := pow_lead_le pos
  · intro least
    have less := least.trans_lt (lt_pow_lead d)
    exact Int.le_of_lt_add_one ((zpow_lt_zpow_iff_right₀ (by norm_num)).mp less)

namespace Layout

variable {layout : Layout}

def Pointed (layout : Layout) (cs : List Char) : Prop :=
  ∃ whole fraction, isDigits whole ∧ isDigits fraction ∧ cs = whole ++ layout.point :: fraction

theorem isDigits_of_known (digits : isDigits cs) {known : List Char} (nonempty : known ≠ [])
    (each : ∀ c ∈ known, c = '0' ∨ c ∈ cs) : isDigits known := by
  refine isDigits_iff.mpr ⟨nonempty, fun c member => ?_⟩
  obtain rfl | member := each c member
  · rfl
  · exact (isDigits_iff.mp digits).2 c member

theorem pointed_positional (digits : isDigits cs) (lead : Int) :
    layout.Pointed (layout.positional cs lead) := by
  have nonempty := (isDigits_iff.mp digits).1
  unfold positional
  split
  · refine ⟨['0'], _, rfl, isDigits_of_known digits (by simp [nonempty]) fun c member => ?_, rfl⟩
    exact (List.mem_append.mp member).imp_left List.eq_of_mem_replicate
  · dsimp only
    split
    · refine ⟨_, ['0'], isDigits_of_known digits (by simp [nonempty]) fun c member => ?_, rfl, rfl⟩
      exact (List.mem_append.mp member).symm.imp_left List.eq_of_mem_replicate
    · rename_i long
      refine ⟨_, _, isDigits_of_known digits ?_ fun c member => .inr (List.mem_of_mem_take member),
        isDigits_of_known digits ?_ fun c member => .inr (List.mem_of_mem_drop member), rfl⟩
      · rw [ne_eq, List.take_eq_nil_iff, not_or]
        exact ⟨Nat.succ_ne_zero _, nonempty⟩
      · rw [ne_eq, List.drop_eq_nil_iff]
        exact long

theorem decimal_eq (pos : 0 < d.coefficient) : layout.decimal d =
    if layout.leastPositional ≤ d.digits.2 && d.digits.2 ≤ layout.mostPositional then
      layout.positional d.digits.1 d.digits.2
    else layout.scientific d.digits.1 d.digits.2 := by
  have nonempty := (isDigits_iff.mp (isDigits_digits pos)).1
  unfold decimal
  split
  · rename_i none
    rw [none] at nonempty
    contradiction
  · rename_i same
    rw [same]

end Layout

/-! Numerals. -/

theorem Numeral.Spells.characters {n : Numeral} (spells : n.Spells cs) :
    ∀ c ∈ cs, c.isDigit ∨ c ∈ ['.', '+', '-'] := by
  have unsigned (proper : n.Proper) : ∀ c ∈ n.unsigned, c.isDigit ∨ c ∈ ['.', '+', '-'] := by
    obtain ⟨whole, behind⟩ := proper
    intro c member
    unfold unsigned at member
    split at member
    · exact .inl ((isDigits_iff.mp whole).2 c member)
    · rename_i fraction found
      obtain member | member := List.mem_append.mp member
      · exact .inl ((isDigits_iff.mp whole).2 c member)
      · obtain rfl | member := List.mem_cons.mp member
        · simp
        · exact .inl ((isDigits_iff.mp (behind fraction found)).2 c member)
  cases spells with
  | minus proper | plus proper =>
    intro c member
    obtain rfl | member := List.mem_cons.mp member
    · simp
    · exact unsigned proper c member
  | bare proper => exact unsigned proper

end Vau.Decimal
