import Mathlib.Algebra.Order.Field.Power
import Mathlib.Algebra.Order.Field.Rat
import Mathlib.Tactic.FieldSimp
import Mathlib.Tactic.GCongr
import Mathlib.Tactic.Linarith
import Mathlib.Tactic.NormNum
import Mathlib.Tactic.Positivity
import Mathlib.Tactic.Ring
import Vau.Decimal.Shortest

/-! How far the shortest decimal is from the magnitude.

The search ends on a grid of seventeen digits at the latest, where a cell is smaller than the
interval that rounds to the magnitude. So the decimal is off by at most half of the last place, and
lies on the same side of a power of ten if that power, or what is nearest to it, is a magnitude. -/

set_option autoImplicit false

namespace Vau.Decimal

def toRat (d : Decimal) : ℚ := d.coefficient * 10 ^ d.exponent

theorem power_div_power (base : Nat) (k : Int) :
    (power base k : ℚ) / power base (-k) = (base : ℚ) ^ k := by
  unfold power
  cases k with
  | ofNat n => simp
  | negSucc n => rw [zpow_negSucc, Int.neg_negSucc]; simp

theorem power_pos {base : Nat} (pos : 0 < base) (k : Int) : 0 < power base k :=
  Nat.pow_pos pos

theorem lt_pow_digitCount (n : Nat) : (n : ℚ) < 10 ^ (digitCount n : Int) := by
  have bound : n < 10 ^ digitCount n :=
    (Nat.length_toDigits_le_iff (by decide) Nat.length_toDigits_pos).mp (Nat.le_refl _)
  rw [zpow_natCast]
  exact_mod_cast bound

theorem pow_digitCount_le {n : Nat} (pos : 0 < n) : (10 : ℚ) ^ (digitCount n - 1 : Int) ≤ n := by
  obtain ⟨count, same⟩ := Nat.exists_eq_add_one.mpr
    (show 0 < digitCount n from Nat.length_toDigits_pos)
  have bound : 10 ^ count ≤ n := by
    by_contra less
    obtain rfl | some := Nat.eq_zero_or_pos count
    · omega
    · have few := (Nat.length_toDigits_le_iff (by decide) some).mpr (Nat.not_le.mp less)
      unfold digitCount at same
      omega
  rw [same, Nat.cast_succ, add_sub_cancel_right, zpow_natCast]
  exact_mod_cast bound

namespace Magnitude

variable {m : Magnitude} {d : Decimal} {k : Int} {q : ℚ}

def center (m : Magnitude) : ℚ := m.value / m.unit

def Near (m : Magnitude) (q : ℚ) : Prop :=
  m.center - m.below / m.unit ≤ q ∧ q ≤ m.center + m.above / m.unit

def refine (m : Magnitude) (fine : Nat) : Magnitude :=
  { m with value := m.value * fine, below := m.below * fine, above := m.above * fine }

theorem covers_bounds {point : Nat} (covers : m.covers point) :
    m.value ≤ point + m.below ∧ point ≤ m.value + m.above := by
  unfold Magnitude.covers at covers
  split at covers <;> simp at covers <;> omega

theorem near_of_covers (unit : 0 < m.unit) {c : Nat}
    (covers : (m.refine (power 10 (-k))).covers (c * (m.unit * power 10 k))) :
    m.Near (toRat ⟨c, k⟩) := by
  obtain ⟨low, high⟩ := covers_bounds covers
  unfold refine at low high
  dsimp only at low high
  have fine : (0 : ℚ) < power 10 (-k) := by exact_mod_cast power_pos (by decide) _
  have unit : (0 : ℚ) < m.unit := by exact_mod_cast unit
  have low : (m.value * power 10 (-k) : ℚ) ≤
      c * (m.unit * power 10 k) + m.below * power 10 (-k) := by exact_mod_cast low
  have high : (c * (m.unit * power 10 k) : ℚ) ≤
      m.value * power 10 (-k) + m.above * power 10 (-k) := by exact_mod_cast high
  have ten := power_div_power 10 k
  unfold Near center toRat
  dsimp only
  rw [Nat.cast_ofNat] at ten
  rw [← ten]
  constructor
  · rw [← sub_div, mul_div_assoc', div_le_div_iff₀ unit fine]
    linarith
  · rw [← add_div, mul_div_assoc', div_le_div_iff₀ fine unit]
    linarith

theorem near_of_onGrid? (unit : 0 < m.unit) (found : m.onGrid? k = some d) :
    m.Near d.toRat := by
  unfold onGrid? at found
  dsimp only at found
  split at found
  · rename_i fits
    cases found
    exact near_of_covers unit (Bool.and_eq_true_iff.mp fits).1
  · split at found
    · rename_i fits
      cases found
      exact near_of_covers unit fits
    · cases found

theorem covers_neighbours {cell : Nat} (pos : 0 < cell) (above : 0 < m.above)
    (narrow : cell < m.below + m.above) :
    m.covers (m.value / cell * cell) ∨ m.covers ((m.value / cell + 1) * cell) := by
  have split := Nat.div_add_mod' m.value cell
  have less := Nat.mod_lt m.value pos
  rw [Nat.add_mul, Nat.one_mul]
  generalize m.value / cell * cell = low at *
  generalize m.value % cell = rest at *
  unfold covers
  split
  · simp only [Bool.and_eq_true, decide_eq_true_eq]
    omega
  · simp only [Bool.and_eq_true, decide_eq_true_eq]
    omega

theorem isSome_onGrid? (unit : 0 < m.unit) (above : 0 < m.above)
    (narrow : m.unit * power 10 k < (m.below + m.above) * power 10 (-k)) :
    (m.onGrid? k).isSome := by
  have pos := Nat.mul_pos unit (power_pos (show 0 < 10 by decide) k)
  have above := Nat.mul_pos above (power_pos (show 0 < 10 by decide) (-k))
  rw [Nat.add_mul] at narrow
  have fits := @covers_neighbours (m.refine (power 10 (-k))) _ pos above narrow
  unfold refine at fits
  unfold onGrid?
  dsimp only at fits ⊢
  split
  · rfl
  · split
    · rfl
    · simp_all

/-! The grids. -/

theorem pow_order_le (value : 0 < m.value) (unit : 0 < m.unit) :
    (10 : ℚ) ^ (m.order - 1) ≤ m.center := by
  have one : (0 : ℚ) < m.unit := by exact_mod_cast unit
  unfold order
  dsimp only
  generalize same : (digitCount m.value : Int) - digitCount m.unit = e
  unfold center
  split
  · rename_i reached
    have fine : (0 : ℚ) < power 10 (-e) := by exact_mod_cast power_pos (by decide) _
    have ten := power_div_power 10 e
    rw [Nat.cast_ofNat] at ten
    rw [add_sub_cancel_right, ← ten, div_le_div_iff₀ fine one, mul_comm]
    exact_mod_cast reached
  · have least := pow_digitCount_le value
    have most := lt_pow_digitCount m.unit
    rw [le_div_iff₀ one]
    calc (10 : ℚ) ^ (e - 1) * m.unit
        ≤ 10 ^ (e - 1) * 10 ^ (digitCount m.unit : Int) := by gcongr
      _ = 10 ^ (digitCount m.value - 1 : Int) := by
          rw [← zpow_add₀ (by norm_num)]
          congr 1
          omega
      _ ≤ m.value := least

/-- Seventeen digits are enough if the interval is not too narrow. -/
theorem near_shortest (value : 0 < m.value) (unit : 0 < m.unit) (above : 0 < m.above)
    (wide : m.value < 10 ^ 16 * (m.below + m.above)) : m.Near m.shortest.toRat := by
  -- On the last grid that is tried, a cell is smaller than the interval.
  have finest : (m.onGrid? (m.order - 1 - (16 : Nat))).isSome := by
    refine isSome_onGrid? unit above ?_
    have one : (0 : ℚ) < m.unit := by exact_mod_cast unit
    generalize same : m.order - 1 - (16 : Nat) = k
    have fine : (0 : ℚ) < power 10 (-k) := by exact_mod_cast power_pos (by decide) _
    have wide : (m.value : ℚ) < 10 ^ 16 * (m.below + m.above) := by exact_mod_cast wide
    have cell : (10 : ℚ) ^ k * 10 ^ 16 ≤ m.value / m.unit := by
      have least := pow_order_le value unit
      rw [show m.order - 1 = k + (16 : Nat) by omega, zpow_add₀ (by norm_num),
        zpow_natCast] at least
      exact least
    have ten := power_div_power 10 k
    rw [Nat.cast_ofNat] at ten
    rw [← ten, le_div_iff₀ one, div_mul_eq_mul_div, div_mul_eq_mul_div,
      div_le_iff₀ fine] at cell
    have scaled := mul_lt_mul_of_pos_right wide fine
    have narrow : (m.unit * power 10 k : ℚ) < (m.below + m.above) * power 10 (-k) := by linarith
    exact_mod_cast narrow
  have found : (((List.range 17).map fun n : Nat => m.order - 1 - (n : Int)).findSome?
      m.onGrid?).isSome := by
    rw [List.findSome?_isSome_iff]
    exact ⟨_, List.mem_map.mpr ⟨16, by simp, rfl⟩, finest⟩
  obtain ⟨d, found⟩ := Option.isSome_iff_exists.mp found
  obtain ⟨k, -, here⟩ := List.exists_of_findSome?_eq_some found
  have near := near_of_onGrid? unit here
  unfold shortest
  dsimp only
  rw [found]
  exact near

/-! Binary magnitudes. -/

variable {n : Nat} {e : Int} {narrow : Bool}

/-- A significand of at most 53 bits, and the least one of all that are full where the neighbour
below is only half as far. -/
structure Doubles (n : Nat) (narrow : Bool) : Prop where
  pos : 0 < n
  bits : n < 2 ^ 53
  least : narrow → n = 2 ^ 52

theorem near_ofBinary (doubles : Doubles n narrow) (e : Int) :
    ((n : ℚ) - 1 / 2) * 2 ^ e ≤ (ofBinary n e narrow).shortest.toRat ∧
      (ofBinary n e narrow).shortest.toRat ≤ ((n : ℚ) + 1 / 2) * 2 ^ e := by
  have scale := power_pos (show 0 < 2 by decide) e
  have unit := power_pos (show 0 < 2 by decide) (-e)
  have pos := doubles.pos
  have bits := doubles.bits
  have near : (ofBinary n e narrow).Near (ofBinary n e narrow).shortest.toRat := by
    refine near_shortest (by unfold ofBinary; positivity) (by unfold ofBinary; positivity)
      (by unfold ofBinary; positivity) ?_
    unfold ofBinary
    dsimp only
    rw [← Nat.add_mul, ← Nat.mul_assoc]
    refine Nat.mul_lt_mul_of_pos_right ?_ scale
    cases narrow with
    | false => simp; omega
    | true =>
      have least := doubles.least rfl
      simp; omega
  obtain ⟨low, high⟩ := near
  generalize (ofBinary n e narrow).shortest.toRat = q at low high ⊢
  have fine : (power 2 (-e) : ℚ) ≠ 0 := by exact_mod_cast unit.ne'
  have two := power_div_power 2 e
  rw [Nat.cast_ofNat, div_eq_iff fine] at two
  -- In parts of the unit everything is a number of quarters of the last place.
  have quarters (c : ℚ) : c * power 2 e / (4 * power 2 (-e)) = c / 4 * 2 ^ e := by
    rw [two]
    field_simp
  have nonneg : (0 : ℚ) ≤ 2 ^ e := by positivity
  unfold center ofBinary at low high
  push_cast at low high
  rw [quarters, quarters] at low high
  constructor
  · cases narrow <;> simp at low <;> linarith
  · linarith

variable {n₀ : Nat} {e₀ : Int}

/-- The intervals around other magnitudes lie on the same side as the magnitudes. -/
theorem apart (full : 2 ^ 52 < n₀ ∧ n₀ < 2 ^ 53) (bits : n < 2 ^ 53)
    (normal : e₀ < e → 2 ^ 52 ≤ n) :
    ((n : ℚ) + 1 / 2) * 2 ^ e ≤ (n₀ - 1 / 2) * 2 ^ e₀ ∨ n = n₀ ∧ e = e₀ ∨
      (n₀ : ℚ) * 2 ^ e₀ ≤ (n - 1 / 2) * 2 ^ e := by
  have full : (2 : ℚ) ^ 52 + 1 ≤ n₀ ∧ (n₀ : ℚ) + 1 ≤ 2 ^ 53 := by exact_mod_cast full
  have bits : (n : ℚ) + 1 ≤ 2 ^ 53 := by exact_mod_cast bits
  have doubled {i j : Int} (less : i < j) : (2 : ℚ) * 2 ^ i ≤ 2 ^ j := by
    have step : (2 : ℚ) * 2 ^ i = 2 ^ (i + 1) := by rw [zpow_add_one₀ two_ne_zero, mul_comm]
    rw [step]
    exact zpow_le_zpow_right₀ (by norm_num) less
  have pos : (0 : ℚ) < 2 ^ e := by positivity
  have pos₀ : (0 : ℚ) < 2 ^ e₀ := by positivity
  obtain less | rfl | more := lt_trichotomy e e₀
  · have half := doubled less
    refine .inl ?_
    calc ((n : ℚ) + 1 / 2) * 2 ^ e ≤ (2 ^ 53 - 1 / 2) * 2 ^ e := by gcongr ?_ * _; linarith
      _ = (2 ^ 52 - 1 / 4) * (2 * 2 ^ e) := by ring
      _ ≤ (2 ^ 52 - 1 / 4) * 2 ^ e₀ := by gcongr
      _ ≤ (n₀ - 1 / 2) * 2 ^ e₀ := by gcongr ?_ * _; linarith
  · obtain less | same | more := lt_trichotomy n n₀
    · have less : (n : ℚ) + 1 ≤ n₀ := by exact_mod_cast less
      refine .inl ?_
      gcongr ?_ * _
      linarith
    · exact .inr (.inl ⟨same, rfl⟩)
    · have more : (n₀ : ℚ) + 1 ≤ n := by exact_mod_cast more
      refine .inr (.inr ?_)
      gcongr ?_ * _
      linarith
  · have half := doubled more
    have normal : (2 : ℚ) ^ 52 ≤ n := by exact_mod_cast normal more
    refine .inr (.inr ?_)
    calc (n₀ : ℚ) * 2 ^ e₀ ≤ (2 ^ 53 - 1) * 2 ^ e₀ := by gcongr; linarith
      _ = (2 ^ 52 - 1 / 2) * (2 * 2 ^ e₀) := by ring
      _ ≤ (2 ^ 52 - 1 / 2) * 2 ^ e := by gcongr
      _ ≤ (n - 1 / 2) * 2 ^ e := by gcongr

/-- The bound is a magnitude, or little less than one, and the decimal of that magnitude is not
below it. Then all decimals are on the same side as their magnitudes. -/
theorem le_shortest_iff {bound : ℚ} (full : 2 ^ 52 < n₀ ∧ n₀ < 2 ^ 53)
    (below : ((n₀ : ℚ) - 1 / 2) * 2 ^ e₀ < bound) (reached : bound ≤ n₀ * 2 ^ e₀)
    (same : bound ≤ (ofBinary n₀ e₀ false).shortest.toRat) (doubles : Doubles n narrow)
    (normal : e₀ < e → 2 ^ 52 ≤ n) :
    bound ≤ (ofBinary n e narrow).shortest.toRat ↔ bound ≤ n * 2 ^ e := by
  obtain ⟨low, high⟩ := near_ofBinary doubles e
  have pos : (0 : ℚ) < 2 ^ e := by positivity
  obtain less | ⟨rfl, rfl⟩ | more := apart full doubles.bits normal
  · refine iff_of_false (not_le.mpr ?_) (not_le.mpr ?_) <;> linarith
  · have wide : narrow = false := by
      refine Bool.eq_false_iff.mpr fun least => ?_
      exact full.1.ne' (doubles.least least)
    exact iff_of_true (wide ▸ same) reached
  · refine iff_of_true ?_ ?_ <;> linarith

end Magnitude

end Vau.Decimal
