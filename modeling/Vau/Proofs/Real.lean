import Mathlib
import Vau.Form.Equality

/-! Reals as a comparison sees them, and the integers that are reals.

A real is compared by what its bits unpack to. An integer of at most 53 bits unpacks to all of its
digits, and so two of them do not become one real. -/

set_option autoImplicit false

namespace Vau

namespace Real

open Float.Model (UnpackedFloat Format totalExponent)
open Float.Model.UnpackedFloat (Sign ExtendedMantissa)

def unpacked (x : Float) : UnpackedFloat := x.toModel.unpack

theorem not_lt_of_beq {x y : Float} (same : x == y) : ¬ x < y := by
  intro less
  have equal : (unpacked x).compare (unpacked y) = some .eq := beq_iff_eq.mp same
  have less : (unpacked x).lt (unpacked y) := of_decide_eq_true less
  have less : (unpacked x).compare (unpacked y) = some .lt := beq_iff_eq.mp less
  cases equal.symm.trans less

/-! Rounding. A mantissa is full if it has as many bits as there is room for. -/

def Full (m : Nat) : Prop := 2 ^ 52 ≤ m ∧ m < 2 ^ 53

theorem Full.pos {m : Nat} (full : Full m) : 0 < m := Nat.lt_of_lt_of_le (by decide) full.1

theorem Full.log2 {m : Nat} (full : Full m) (j : Nat) : (m * 2 ^ j).log2 = 52 + j := by
  have nonzero : m * 2 ^ j ≠ 0 := Nat.ne_of_gt (Nat.mul_pos full.pos (Nat.two_pow_pos j))
  rw [Nat.log2_eq_iff nonzero]
  have low := Nat.mul_le_mul_right (2 ^ j) full.1
  have high := Nat.mul_lt_mul_of_pos_right full.2 (Nat.two_pow_pos j)
  rw [← Nat.pow_add] at low high
  exact ⟨low, by rwa [Nat.add_right_comm]⟩

theorem shift_zeros (m j : Nat) :
    (⟨m * 2 ^ j, false, false⟩ : ExtendedMantissa) >>> j = ⟨m, false, false⟩ := by
  change j.repeat ExtendedMantissa.shiftRightOne _ = _
  induction j generalizing m with
  | zero => simp [Nat.repeat]
  | succ j ih =>
    have doubled : m * 2 ^ (j + 1) = m * 2 * 2 ^ j := by
      rw [Nat.pow_succ, Nat.mul_assoc, Nat.mul_comm 2]
    rw [Nat.repeat, doubled, ih (m * 2)]
    simp [ExtendedMantissa.shiftRightOne]

theorem Full.shift {m : Nat} (full : Full m) {e : Int} (normal : -1074 ≤ e) (j : Nat) :
    UnpackedFloat.shiftToTargetExponent .binary64 (m * 2 ^ j) (e - j) .exact =
      (⟨m, false, false⟩, e) := by
  have target : Format.binary64.targetExponent (totalExponent (m * 2 ^ j) (e - j)) = e := by
    rw [totalExponent, full.log2]
    simp [Format.targetExponent, Format.mantissaBits, Format.minExponent]
    omega
  have amount : (e - (e - j)).toNat = j := by omega
  unfold UnpackedFloat.shiftToTargetExponent UnpackedFloat.shiftToExponent
  dsimp only
  rw [target, amount]
  simp [ExtendedMantissa.ofMantissaAndAccuracy, shift_zeros]

theorem Full.round {m : Nat} (full : Full m) {e : Int} (normal : -1074 ≤ e) (s : Sign) (j : Nat) :
    UnpackedFloat.roundWithAccuracy .binary64 s (m * 2 ^ j) (e - j) .exact =
      .finite s m e full.pos := by
  have again := full.shift normal 0
  rw [Nat.pow_zero, Nat.mul_one, Int.natCast_zero, Int.sub_zero] at again
  unfold UnpackedFloat.roundWithAccuracy
  rw [full.shift normal]
  dsimp only [ExtendedMantissa.roundedMantissa, ExtendedMantissa.accuracy,
    UnpackedFloat.Accuracy.roundToNearestEven]
  rw [again]
  exact dif_neg (Nat.ne_of_gt full.pos)

/-! Packing. -/

/-- The highest bit is not stored. -/
theorem Full.toNat_append {m : Nat} (full : Full m) : (1#1 ++ BitVec.ofNat 52 m).toNat = m := by
  obtain ⟨low, high⟩ := full
  rw [BitVec.toNat_append, ← Nat.shiftLeft_add_eq_or_of_lt (BitVec.ofNat 52 m).isLt,
    BitVec.toNat_ofNat, Nat.shiftLeft_eq, BitVec.toNat_ofNat]
  omega

theorem Full.unpack_pack {m : Nat} (full : Full m) {e : Int} (low : -1074 ≤ e) (high : e ≤ 971)
    (s : Sign) :
    (Float.Model.pack (.finite s m e full.pos)).unpack = .finite s m e full.pos := by
  have bits : m.log2 = 52 := by simpa using full.log2 0
  have bias : (Format.binary64.exponentBias : Int) = 1023 := rfl
  -- Stored with its bias, the exponent of a normal number is neither the least nor the greatest.
  obtain ⟨b, biased⟩ : ∃ b : Nat, (b : Int) = e + 1075 := ⟨(e + 1075).toNat, by omega⟩
  have stored : (e + Format.binary64.exponentBias + (52 : Nat)).toNat = b := by omega
  have least : BitVec.ofNat 11 b ≠ 0#11 := by
    intro same
    have same := congrArg BitVec.toNat same
    simp only [BitVec.toNat_ofNat] at same
    omega
  have most : BitVec.ofNat 11 b ≠ -1#11 := by
    intro same
    have same := congrArg BitVec.toNat same
    simp only [BitVec.toNat_ofNat, BitVec.toNat_neg] at same
    omega
  have packed : UnpackedFloat.pack .binary64 (.finite s m e full.pos) =
      UnpackedFloat.packComponents .binary64 s (.ofNat 11 b) (.ofNat 52 m) := by
    unfold UnpackedFloat.pack
    dsimp only
    rw [stored, bits, if_neg (by omega)]
    exact if_pos rfl
  unfold Float.Model.unpack Float.Model.pack
  rw [UInt64.toBitVec_ofBitVec, packed, UnpackedFloat.unpack]
  dsimp only
  rw [UnpackedFloat.unpackExponent_packComponents, if_neg most, if_neg least]
  congr
  · rw [UnpackedFloat.unpackSign_packComponents, Sign.ofBitVec_toBitVec]
  · rw [UnpackedFloat.unpackMantissa_packComponents]
    exact full.toNat_append
  · rw [BitVec.toNat_ofNat, Nat.mod_eq_of_lt (by omega)]
    omega

/-! Integers. -/

theorem full_shifted {n : Nat} (pos : 0 < n) (small : n < 2 ^ 53) :
    Full (n * 2 ^ (52 - n.log2)) := by
  have bits : n.log2 < 53 := (Nat.log2_lt (Nat.ne_of_gt pos)).mpr small
  have low : 2 ^ n.log2 ≤ n := Nat.log2_self_le (Nat.ne_of_gt pos)
  have high : n < 2 ^ (n.log2 + 1) := Nat.lt_log2_self
  have shift : n.log2 + (52 - n.log2) = 52 := by omega
  constructor
  · calc 2 ^ 52 = 2 ^ n.log2 * 2 ^ (52 - n.log2) := by rw [← Nat.pow_add, shift]
      _ ≤ n * 2 ^ (52 - n.log2) := Nat.mul_le_mul_right _ low
  · calc n * 2 ^ (52 - n.log2) < 2 ^ (n.log2 + 1) * 2 ^ (52 - n.log2) :=
          Nat.mul_lt_mul_of_pos_right high (Nat.two_pow_pos _)
      _ = 2 ^ 53 := by rw [← Nat.pow_add, Nat.add_right_comm, shift]

def shifted (s : Sign) {n : Nat} (pos : 0 < n) (small : n < 2 ^ 53) : UnpackedFloat :=
  .finite s (n * 2 ^ (52 - n.log2)) (-(52 - n.log2 : Nat)) (full_shifted pos small).pos

variable {n : Nat} (pos : 0 < n) (small : n < 2 ^ 53)

include pos small in
theorem log2_le : n.log2 ≤ 52 :=
  Nat.le_of_lt_succ ((Nat.log2_lt (Nat.ne_of_gt pos)).mpr small)

theorem round_small (s : Sign) : UnpackedFloat.round .binary64 s n 0 = shifted s pos small := by
  have bits := log2_le pos small
  have target : Format.binary64.targetExponent (totalExponent n 0) = -(52 - n.log2 : Nat) := by
    simp [totalExponent, Format.targetExponent, Format.mantissaBits, Format.minExponent]
    omega
  have amount : (0 - -(52 - n.log2 : Nat) : Int).toNat = 52 - n.log2 := by omega
  have rounded := (full_shifted pos small).round (e := -(52 - n.log2 : Nat)) (by omega) s 0
  rw [Nat.pow_zero, Nat.mul_one, Int.natCast_zero, Int.sub_zero] at rounded
  unfold UnpackedFloat.round UnpackedFloat.decreaseExponent
  dsimp only
  rw [target, amount, Nat.shiftLeft_eq, Int.zero_sub]
  exact rounded

theorem unpack_pack_shifted (s : Sign) :
    (Float.Model.pack (shifted s pos small)).unpack = shifted s pos small :=
  (full_shifted pos small).unpack_pack (by omega) (by omega) s

theorem unpacked_toFloat : unpacked n.toUInt64.toFloat = shifted .positive pos small := by
  have whole : n.toUInt64.toNat = n := by
    rw [Nat.toUInt64, UInt64.toNat_ofNat']
    omega
  have sign : compare (n : Int) 0 = .gt := by
    rw [Int.compare_eq_gt]
    omega
  have rounded : UnpackedFloat.ofUInt64 .binary64 n.toUInt64 = shifted .positive pos small := by
    rw [← round_small]
    unfold UnpackedFloat.ofUInt64 UnpackedFloat.ofNat UnpackedFloat.ofInt UnpackedFloat.normalize
    rw [whole, sign, Int.toNat_natCast]
  have packed : unpacked n.toUInt64.toFloat =
      (Float.Model.pack (UnpackedFloat.ofUInt64 .binary64 n.toUInt64)).unpack := rfl
  rw [packed, rounded, unpack_pack_shifted]

theorem unpacked_one : unpacked (.ofBits 0x3FF0000000000000) =
    .finite .positive (2 ^ 52) (-52) (by decide) :=
  rfl

/-- Small numerals are multiplied with the first power of ten, which changes nothing. -/
theorem unpacked_ofNat : unpacked (.ofNat n) = shifted .positive pos small := by
  have fast : Float.ofNat n = n.toUInt64.toFloat * .ofBits 0x3FF0000000000000 :=
    dif_pos (c := n < 2 ^ 53 ∧ 0 ≤ 22) ⟨small, by decide⟩
  have multiplied (x y : Float) : unpacked (x * y) =
    (Float.Model.pack (UnpackedFloat.mul .binary64 (unpacked x) (unpacked y))).unpack := rfl
  have product : UnpackedFloat.mul .binary64 (shifted .positive pos small)
      (.finite .positive (2 ^ 52) (-52) (by decide)) = shifted .positive pos small :=
    (full_shifted pos small).round (e := -(52 - n.log2 : Nat)) (by omega) .positive 52
  rw [fast, multiplied, unpacked_toFloat pos small, unpacked_one, product, unpack_pack_shifted]

/-- The real has all digits of the integer. -/
inductive Exactly : Int → UnpackedFloat → Prop
  | zero : Exactly 0 (.zero .positive)
  | positive {n m : Nat} {e : Int} {pos : 0 < m} : m * 2 ^ (e + 52).toNat = n * 2 ^ 52 →
    Exactly n (.finite .positive m e pos)
  | negative {n m : Nat} {e : Int} {pos : 0 < m} : m * 2 ^ (e + 52).toNat = n * 2 ^ 52 →
    Exactly (-n) (.finite .negative m e pos)

theorem Exactly.unique {a b : Int} {x y : UnpackedFloat} (first : Exactly a x)
    (second : Exactly b y) (same : x.beq y) : a = b := by
  have digits {n k : Nat} (same : n * 2 ^ 52 = k * 2 ^ 52) : n = k :=
    Nat.eq_of_mul_eq_mul_right (Nat.two_pow_pos 52) same
  -- No integer is the negative zero.
  obtain ⟨_, _, rfl | ⟨_, rfl⟩ | ⟨rfl, _⟩⟩ :=
    (UnpackedFloat.beq_iff_ne_notANumber_and_eq x y).mp same
  · cases first with
    | zero =>
      cases second
      rfl
    | positive shifted =>
      cases second with | positive shifted' =>
      exact congrArg _ (digits (shifted.symm.trans shifted'))
    | negative shifted =>
      cases second with | negative shifted' =>
      exact congrArg (fun n : Nat => -(n : Int)) (digits (shifted.symm.trans shifted'))
  · cases second
  · cases first

theorem unpacked_limit : unpacked (.ofNat (2 ^ 53)) = .finite .positive (2 ^ 52) 1 (by decide) :=
  rfl

include pos in
theorem exists_unpacked_ofNat (most : n ≤ 2 ^ 53) : ∃ (m : Nat) (e : Int) (full : Full m),
    -1074 ≤ e ∧ e ≤ 971 ∧ unpacked (.ofNat n) = .finite .positive m e full.pos ∧
      m * 2 ^ (e + 52).toNat = n * 2 ^ 52 := by
  -- The limit itself has one bit more, and is computed.
  obtain small | rfl : n < 2 ^ 53 ∨ n = 2 ^ 53 := by omega
  · have bits := log2_le pos small
    refine ⟨_, _, full_shifted pos small, by omega, by omega, unpacked_ofNat pos small, ?_⟩
    rw [Nat.mul_assoc, ← Nat.pow_add]
    congr 2
    omega
  · exact ⟨2 ^ 52, 1, ⟨by decide, by decide⟩, by decide, by decide, unpacked_limit, by decide⟩

theorem exactly_ofInt {z : Int} (least : -2 ^ 53 ≤ z) (most : z ≤ 2 ^ 53) :
    Exactly z (unpacked (.ofInt z)) := by
  cases z with
  | ofNat n =>
    rw [Int.ofNat_eq_natCast] at most ⊢
    change Exactly n (unpacked (.ofNat n))
    obtain rfl | pos := Nat.eq_zero_or_pos n
    · exact .zero
    · obtain ⟨m, e, full, _, _, stands, digits⟩ := exists_unpacked_ofNat pos (by omega)
      rw [stands]
      exact .positive digits
  | negSucc k =>
    -- A negative integer is the negation of a real, packed once more.
    obtain ⟨m, e, full, low, high, stands, digits⟩ :=
      exists_unpacked_ofNat (Nat.succ_pos k) (by omega)
    have negated : unpacked (.ofInt (.negSucc k)) =
      (Float.Model.pack (unpacked (.ofNat (k + 1))).neg).unpack := rfl
    rw [negated, stands]
    change Exactly _ (Float.Model.pack (.finite .negative m e full.pos)).unpack
    rw [full.unpack_pack low high]
    exact .negative digits

end Real

/-- Below the limit, no two integers are nearest to one real. -/
theorem Form.nearest_injective {a b : Int64} (first : a.toInt.natAbs ≤ 2 ^ 53)
    (second : b.toInt.natAbs ≤ 2 ^ 53) (same : nearest a == nearest b) : a = b := by
  have left := Real.exactly_ofInt (z := a.toInt) (by omega) (by omega)
  have right := Real.exactly_ofInt (z := b.toInt) (by omega) (by omega)
  exact Int64.toInt_inj.mp (left.unique right same)

end Vau
