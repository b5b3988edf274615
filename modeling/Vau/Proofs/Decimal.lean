import Vau.Proofs.Decimal.Layout
import Vau.Proofs.Grammar.Written
import Vau.Proofs.Real

/-! Which numbers are numbers again when their text is read.

The bits of a real give its size. Whether its text has an exponent depends on the shortest decimal,
which is on the same side of the two limits as the size. -/

set_option autoImplicit false

namespace Vau

namespace Real

open Float.Model (UnpackedFloat Format)

/-- The absolute value. Infinities have none, and neither has what is no number. -/
def size? (x : Float) : Option ℚ :=
  match unpacked x with
  | .zero _ => some 0
  | .finite _ m e _ => some (m * 2 ^ e)
  | .infinity _ | .notANumber => none

def Moderate (x : Float) : Prop :=
  ∃ size, size? x = some size ∧ (size = 0 ∨ 1 / 10000 ≤ size ∧ size < 10 ^ 16)

def biased (x : Float) : Nat := x.toBits.toNat / 2 ^ 52 % 2048

def fraction (x : Float) : Nat := x.toBits.toNat % 2 ^ 52

variable (x : Float)

theorem toNat_unpackExponent :
    (@UnpackedFloat.unpackExponent .binary64 x.toBits.toBitVec).toNat = biased x := by
  unfold UnpackedFloat.unpackExponent biased
  rw [BitVec.toNat_cast, BitVec.extractLsb_toNat, Nat.shiftRight_eq_div_pow]
  rfl

theorem toNat_unpackMantissa :
    (@UnpackedFloat.unpackMantissa .binary64 x.toBits.toBitVec).toNat = fraction x := by
  unfold UnpackedFloat.unpackMantissa fraction
  rw [BitVec.toNat_cast, BitVec.extractLsb_toNat]
  rfl

theorem toNat_append_stored (stored : BitVec 52) :
    (1#1 ++ stored).toNat = stored.toNat + 2 ^ 52 := by
  rw [BitVec.toNat_append, ← Nat.shiftLeft_add_eq_or_of_lt stored.isLt, Nat.shiftLeft_eq]
  simp [Nat.add_comm]

theorem size?_eq : size? x =
    if biased x = 2047 then none
    else if biased x = 0 then some ((fraction x : ℚ) * 2 ^ (-1074 : Int))
    else some (((fraction x + 2 ^ 52 : Nat) : ℚ) * 2 ^ (biased x - 1075 : Int)) := by
  have exponent := toNat_unpackExponent x
  have mantissa := toNat_unpackMantissa x
  have top : @UnpackedFloat.unpackExponent .binary64 x.toBits.toBitVec = -1#11 ↔
      biased x = 2047 := by
    rw [← exponent, ← BitVec.toNat_inj]
    rfl
  have least : @UnpackedFloat.unpackExponent .binary64 x.toBits.toBitVec = 0#11 ↔
      biased x = 0 := by
    rw [← exponent, ← BitVec.toNat_inj]
    rfl
  have exact : @UnpackedFloat.unpackMantissa .binary64 x.toBits.toBitVec = 0#52 ↔
      fraction x = 0 := by
    rw [← mantissa, ← BitVec.toNat_inj]
    rfl
  have bits : x.toModel.toBits = x.toBits := rfl
  have bias : (Format.binary64.exponentBias : Int) +
    Format.binary64.mantissaBitsWithoutImplicit = 1075 := rfl
  unfold size? unpacked Float.Model.unpack
  rw [bits, UnpackedFloat.unpack]
  dsimp only
  rw [exponent, bias]
  -- The greatest exponent is that of what has no size. With the least one no bit is added.
  by_cases infinite : biased x = 2047
  · rw [if_pos infinite, if_pos (top.mpr infinite)]
    by_cases none : fraction x = 0
    · rw [if_pos (exact.mpr none)]
    · rw [if_neg (mt exact.mp none)]
  · rw [if_neg infinite, if_neg (mt top.mp infinite)]
    by_cases subnormal : biased x = 0
    · rw [if_pos subnormal, if_pos (least.mpr subnormal)]
      by_cases none : fraction x = 0
      · rw [dif_pos (exact.mpr none), none, Nat.cast_zero, zero_mul]
      · rw [dif_neg (mt exact.mp none)]
        dsimp only
        rw [mantissa, subnormal]
        rfl
    · rw [if_neg subnormal, if_neg (mt least.mp subnormal)]
      dsimp only
      rw [toNat_append_stored, mantissa]

end Real

namespace Decimal

open Magnitude (ofBinary Doubles)

variable {n : Nat} {e : Int} {narrow : Bool} {cs : List Char}

inductive Layout.Writes (layout : Layout) : Option ℚ → List Char → Prop
  | infinite : Writes layout none layout.infinite.toList
  | undefined : Writes layout none layout.undefined.toList
  | zero : Writes layout (some 0) (layout.decimal ⟨0, 0⟩)
  | finite {n : Nat} {e : Int} {narrow : Bool} : Doubles n narrow → (-1074 < e → 2 ^ 52 ≤ n) →
    Writes layout (some (n * 2 ^ e)) (layout.decimal (ofBinary n e narrow).shortest)

theorem Layout.writes_text (layout : Layout) (x : Float) : ∃ sign cs, sign ∈ [[], ['-']] ∧
    (layout.text x).toList = sign ++ cs ∧ layout.Writes (Real.size? x) cs := by
  have exponent : x.toBits.toNat / power 2 52 % 2048 = Real.biased x := rfl
  have digits : x.toBits.toNat % power 2 52 = Real.fraction x := rfl
  have stored : Real.fraction x < 2 ^ 52 := Nat.mod_lt _ (by decide)
  have signed : (if x.toBits.toNat / power 2 63 = 1 then "-" else "").toList ∈ [[], ['-']] := by
    split <;> decide
  unfold text
  dsimp only
  rw [exponent, digits, Real.size?_eq]
  generalize (if x.toBits.toNat / power 2 63 = 1 then "-" else "") = sign at signed
  have laid (cs : List Char) : (sign ++ String.ofList cs).toList = sign.toList ++ cs := by
    rw [String.toList_append, String.toList_ofList]
  by_cases infinite : Real.biased x = 2047
  · rw [if_pos infinite, if_pos infinite]
    split
    · exact ⟨_, _, signed, String.toList_append, .infinite⟩
    -- What is no number is written without its sign.
    · exact ⟨[], _, List.mem_cons_self, rfl, .undefined⟩
  · rw [if_neg infinite, if_neg infinite]
    unfold magnitude
    by_cases subnormal : Real.biased x = 0
    · rw [if_pos subnormal, if_pos subnormal]
      by_cases none : Real.fraction x = 0
      · rw [if_pos (by simp [subnormal, none]), none, Nat.cast_zero, zero_mul]
        exact ⟨_, _, signed, laid _, .zero⟩
      · rw [if_neg (by simp [none])]
        refine ⟨_, _, signed, laid _, .finite ⟨?_, ?_, nofun⟩ ?_⟩ <;> omega
    · rw [if_neg subnormal, if_neg subnormal, if_neg (by simp [subnormal])]
      refine ⟨_, _, signed, laid _, .finite ⟨?_, ?_, fun narrow => ?_⟩ fun _ => ?_⟩
      · omega
      · omega
      -- Only at a power of two is the neighbour below nearer, and the first numbers have none.
      · simp at narrow
        omega
      · omega

theorem coefficient_shortest_pos (doubles : Doubles n narrow) :
    0 < (ofBinary n e narrow).shortest.coefficient := by
  have low := (Magnitude.near_ofBinary doubles e).1
  have one : (1 : ℚ) ≤ n := by exact_mod_cast doubles.pos
  have half : (0 : ℚ) < n - 1 / 2 := by linarith
  refine coefficient_pos (lt_of_lt_of_le ?_ low)
  positivity

/-! The two limits. Each is a magnitude, or just below one, and is the shortest decimal of it. -/

theorem le_lead_shortest_iff (n₀ : Nat) (e₀ k : Int) (full : 2 ^ 52 < n₀ ∧ n₀ < 2 ^ 53)
    (below : ((n₀ : ℚ) - 1 / 2) * 2 ^ e₀ < 10 ^ k) (reached : (10 : ℚ) ^ k ≤ n₀ * 2 ^ e₀)
    (limit : (ofBinary n₀ e₀ false).shortest = ⟨1, k⟩) (doubles : Doubles n narrow)
    (normal : e₀ < e → 2 ^ 52 ≤ n) :
    k ≤ (ofBinary n e narrow).shortest.digits.2 ↔ (10 : ℚ) ^ k ≤ n * 2 ^ e := by
  have same : (10 : ℚ) ^ k ≤ (ofBinary n₀ e₀ false).shortest.toRat := by
    rw [limit, toRat, Nat.cast_one, one_mul]
  rw [le_lead_iff (coefficient_shortest_pos doubles),
    Magnitude.le_shortest_iff full below reached same doubles normal]

theorem positional_iff (doubles : Doubles n narrow) (normal : -1074 < e → 2 ^ 52 ≤ n) :
    (Layout.real.leastPositional ≤ (ofBinary n e narrow).shortest.digits.2 &&
      (ofBinary n e narrow).shortest.digits.2 ≤ Layout.real.mostPositional) ↔
        1 / 10000 ≤ (n * 2 ^ e : ℚ) ∧ (n * 2 ^ e : ℚ) < 10 ^ 16 := by
  -- A ten-thousandth is no double, but the next larger one is written as it.
  have least := le_lead_shortest_iff 7378697629483821 (-66) (-4) (by decide) (by norm_num)
    (by norm_num) (by decide +kernel) doubles fun more : -66 < e => normal (by omega)
  have most := le_lead_shortest_iff 5000000000000000 1 16 (by decide) (by norm_num)
    (by norm_num) (by decide +kernel) doubles fun more : 1 < e => normal (by omega)
  have tenThousandth : (10 : ℚ) ^ (-4 : Int) = 1 / 10000 := by norm_num
  rw [tenThousandth] at least
  rw [zpow_ofNat] at most
  rw [← least, ← not_le, ← most, Bool.and_eq_true, decide_eq_true_iff, decide_eq_true_iff, not_le,
    Int.lt_iff_add_one_le]
  unfold Layout.real
  dsimp only
  omega

theorem Layout.Writes.pointed {x : Float} (writes : Layout.real.Writes (Real.size? x) cs)
    (moderate : Real.Moderate x) : Layout.real.Pointed cs := by
  obtain ⟨size, same, range⟩ := moderate
  rw [same] at writes
  cases writes with
  | zero => exact ⟨['0'], ['0'], rfl, rfl, rfl⟩
  | finite doubles normal =>
    have within := range.resolve_left ?_
    · rw [Layout.decimal_eq (coefficient_shortest_pos doubles),
        if_pos ((positional_iff doubles normal).mpr within)]
      exact pointed_positional (isDigits_digits (coefficient_shortest_pos doubles)) _
    · have pos : (0 : ℚ) < _ := Nat.cast_pos.mpr doubles.pos
      positivity

theorem Layout.Writes.foreign {x : Float} (writes : Layout.real.Writes (Real.size? x) cs)
    (immoderate : ¬ Real.Moderate x) : ∃ c ∈ cs, ¬ (c.isDigit ∨ c ∈ ['.', '+', '-']) := by
  generalize same : Real.size? x = size at writes
  cases writes with
  | infinite => exact ⟨'i', by decide, by decide⟩
  | undefined => exact ⟨'N', by decide, by decide⟩
  | zero => exact absurd ⟨0, same, .inl rfl⟩ immoderate
  | finite doubles normal =>
    have outside := fun within => immoderate ⟨_, same, .inr within⟩
    rw [← positional_iff doubles normal] at outside
    rw [Layout.decimal_eq (coefficient_shortest_pos doubles), if_neg outside]
    exact ⟨'e', List.mem_append_right _ List.mem_cons_self, by decide⟩

theorem Layout.Pointed.spells (pointed : Layout.real.Pointed cs) {sign : List Char}
    (signed : sign ∈ [[], ['-']]) : ∃ (n : Numeral) (fraction : List Char),
      n.fraction = some fraction ∧ n.Spells (sign ++ cs) := by
  obtain ⟨whole, fraction, digits, behind, rfl⟩ := pointed
  have proper (negative : Bool) : (⟨negative, whole, some fraction⟩ : Numeral).Proper := by
    refine ⟨digits, ?_⟩
    rintro _ ⟨⟩
    exact behind
  simp only [List.mem_cons, List.not_mem_nil, or_false] at signed
  obtain rfl | rfl := signed
  · exact ⟨⟨false, whole, some fraction⟩, fraction, rfl, .bare (proper false) rfl⟩
  · exact ⟨⟨true, whole, some fraction⟩, fraction, rfl, .minus (proper true) rfl⟩

end Decimal

namespace Datum

def ofNumber? (text : String) : Option Datum :=
  (Decimal.Numeral.ofChars? text.toList).map ofNumeral

inductive IsNumber : Datum → Prop
  | int (value : Int64) : IsNumber (int value)
  | real (value : Float) : IsNumber (real value)

theorem isNumber_ofNumeral (n : Decimal.Numeral) : (ofNumeral n).IsNumber := by
  unfold ofNumeral
  split
  · split
    · exact .int _
    · exact .real _
  · exact .real _

theorem ofNumber?_eq_some {text : String} {d : Datum} :
    ofNumber? text = some d ↔ ofWord? text = some d ∧ d.IsNumber := by
  unfold ofNumber? ofWord?
  dsimp only
  cases Decimal.Numeral.ofChars? text.toList with
  | some n =>
    constructor
    · rintro ⟨⟩
      exact ⟨rfl, isNumber_ofNumeral n⟩
    · exact And.left
  | none =>
    refine iff_of_false nofun fun ⟨found, number⟩ => ?_
    dsimp only at found
    split at found
    · unfold constant? at found
      split at found <;> cases found <;> cases number
    · split at found <;> cases found
      cases number

theorem ofNumber?_integerText (value : Int64) :
    ofNumber? (Decimal.integerText value.toInt) = some (int value) :=
  ofNumber?_eq_some.mpr ⟨(denotes_integerText value).ofWord?, .int value⟩

theorem ofNumber?_realText {x : Float} (moderate : Real.Moderate x) :
    ∃ y, ofNumber? (Decimal.realText x) = some (real y) := by
  obtain ⟨sign, cs, signed, same, writes⟩ := Decimal.Layout.real.writes_text x
  obtain ⟨n, fraction, behind, spells⟩ := (writes.pointed moderate).spells signed
  rw [← same] at spells
  refine ⟨n.toFloat, ?_⟩
  unfold ofNumber? Decimal.realText
  rw [Decimal.Numeral.ofChars?_eq_some.mpr spells, Option.map_some, ofNumeral_decimal behind]

theorem ofNumber?_realText_eq_none {x : Float} (immoderate : ¬ Real.Moderate x) :
    ofNumber? (Decimal.realText x) = none := by
  obtain ⟨sign, cs, signed, same, writes⟩ := Decimal.Layout.real.writes_text x
  obtain ⟨c, member, foreign⟩ := writes.foreign immoderate
  unfold ofNumber? Decimal.realText
  rw [Option.map_eq_none_iff, Option.eq_none_iff_forall_ne_some]
  intro n found
  have spells := Decimal.Numeral.ofChars?_eq_some.mp found
  rw [same] at spells
  exact foreign (spells.characters c (List.mem_append_right _ member))

end Datum

/-- Integers are the same again. Reals are reals again if they are written without an exponent, and
no numbers if not. -/
theorem numbers_reread {text : String} {d : Datum} (number : Datum.ofNumber? text = some d) :
    (∃ value, d = .int value ∧ Datum.ofNumber? (Form.ofDatum d 0).1.text = some d) ∨
      ∃ x, d = .real x ∧
        (Real.Moderate x → ∃ y, Datum.ofNumber? (Form.ofDatum d 0).1.text = some (.real y)) ∧
        (¬ Real.Moderate x → Datum.ofNumber? (Form.ofDatum d 0).1.text = none) := by
  obtain ⟨-, number⟩ := Datum.ofNumber?_eq_some.mp number
  cases number with
  | int value => exact .inl ⟨value, rfl, Datum.ofNumber?_integerText value⟩
  | real x =>
    exact .inr ⟨x, rfl, Datum.ofNumber?_realText, Datum.ofNumber?_realText_eq_none⟩

/-- The first integer past 64 bits is read as a real, but is too large to be read again. -/
theorem numbers_reread_past_integers : ∃ d e y, Datum.ofNumber? "9223372036854775808" = some d ∧
    Datum.ofNumber? (Form.ofDatum d 0).1.text = none ∧ Datum.ofNumber? "-2.50" = some e ∧
      Datum.ofNumber? (Form.ofDatum e 0).1.text = some (.real y) := by
  have large : Datum.ofNumber? "9223372036854775808" =
    some (.real (.ofBits 0x43E0000000000000)) := by decide +kernel
  have small : Datum.ofNumber? "-2.50" =
    some (.real (.ofBits 0xC004000000000000)) := by decide +kernel
  have power : Real.size? (.ofBits 0x43E0000000000000) =
    some ((2 ^ 52 : Nat) * (2 : ℚ) ^ (11 : Int)) := rfl
  have fives : Real.size? (.ofBits 0xC004000000000000) =
    some ((5 * 2 ^ 50 : Nat) * (2 : ℚ) ^ (-51 : Int)) := rfl
  obtain ⟨_, ⟨⟩, _⟩ | ⟨_, ⟨⟩, -, unread⟩ := numbers_reread large
  obtain ⟨_, ⟨⟩, _⟩ | ⟨_, ⟨⟩, reread, -⟩ := numbers_reread small
  obtain ⟨y, again⟩ := reread ⟨_, fives, .inr (by norm_num)⟩
  refine ⟨_, _, y, large, unread ?_, small, again⟩
  rintro ⟨_, same, range⟩
  cases power.symm.trans same
  norm_num at range

/-- What is written with an exponent is a symbol. -/
theorem large_real_unread : ∃ d, Datum.ofNumber? "10000000000000000.0" = some d ∧
    (Form.ofDatum d 0).1.text = "1e16" ∧ Datum.ofNumber? "1e16" = none ∧
      Datum.ofWord? "1e16" = some (.symbol "1e16") := by
  refine ⟨.real (.ofBits 0x4341C37937E08000), ?_, ?_, ?_, ?_⟩ <;> decide +kernel

end Vau
