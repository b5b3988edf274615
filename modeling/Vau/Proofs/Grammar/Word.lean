import Mathlib.Data.List.TakeDrop
import Vau.Datum.Reader

/-! The words of the grammar, and what each of them denotes: a number, a constant or a symbol. -/

set_option autoImplicit false

namespace Vau

theorem Keyword.ofSpelling?_eq_some {text : String} {k : Keyword} :
    ofSpelling? text = some k ↔ k.spelling = text := by
  constructor
  · intro found
    have same := List.find?_some found
    exact beq_iff_eq.mp same
  · rintro rfl
    exact k.ofSpelling?_spelling

namespace Decimal

theorem isDigits_iff {cs : List Char} : isDigits cs ↔ cs ≠ [] ∧ ∀ c ∈ cs, c.isDigit := by
  simp [isDigits]

theorem digitsValue_eq (cs : List Char) : digitsValue cs = Nat.ofDigitChars 10 cs 0 :=
  Nat.ofDigitChars_eq_foldl.symm

namespace Numeral

/-- There are digits in front of the point, and behind it if there is one. -/
def Proper (n : Numeral) : Prop :=
  isDigits n.whole ∧ ∀ fraction, n.fraction = some fraction → isDigits fraction

def unsigned (n : Numeral) : List Char :=
  match n.fraction with
  | none => n.whole
  | some fraction => n.whole ++ '.' :: fraction

def value (n : Numeral) : Int :=
  if n.negative then -(Nat.ofDigitChars 10 n.whole 0 : Int) else Nat.ofDigitChars 10 n.whole 0

inductive Spells (n : Numeral) : List Char → Prop
  | minus : n.Proper → n.negative = true → Spells n ('-' :: n.unsigned)
  | plus : n.Proper → n.negative = false → Spells n ('+' :: n.unsigned)
  | bare : n.Proper → n.negative = false → Spells n n.unsigned

theorem toInt?_eq (n : Numeral) :
    n.toInt? = if n.fraction = none then some n.value else none := by
  unfold toInt? value
  rw [digitsValue_eq]
  cases n.fraction <;> rfl

theorem Proper.head_isDigit {n : Numeral} (proper : n.Proper) :
    ∃ c rest, n.unsigned = c :: rest ∧ c.isDigit := by
  obtain ⟨nonempty, digits⟩ := isDigits_iff.mp proper.1
  obtain ⟨c, rest, whole⟩ := List.exists_cons_of_ne_nil nonempty
  have first : c.isDigit := digits c (by simp [whole])
  unfold unsigned
  cases n.fraction with
  | none => exact ⟨c, rest, whole, first⟩
  | some fraction => exact ⟨c, rest ++ '.' :: fraction, by simp [whole], first⟩

theorem span_digits {whole : List Char} (digits : isDigits whole) {rest : List Char}
    (stops : rest.head?.all (· == '.')) : (whole ++ rest).span (· != '.') = (whole, rest) := by
  have others : ∀ c ∈ whole, (c != '.') = true := by
    intro c member
    have digit := (isDigits_iff.mp digits).2 c member
    simp only [bne_iff_ne]
    rintro rfl
    cases digit
  rw [List.span_eq_takeWhile_dropWhile, List.takeWhile_append_of_pos others,
    List.dropWhile_append_of_pos others]
  cases rest with
  | nil => simp
  | cons c rest =>
    have point : c = '.' := by simpa using stops
    simp [point]

theorem ofUnsigned?_eq_some {negative : Bool} {cs : List Char} {n : Numeral} :
    ofUnsigned? negative cs = some n ↔ n.negative = negative ∧ n.Proper ∧ cs = n.unsigned := by
  constructor
  · intro found
    have joined := List.takeWhile_append_dropWhile (p := (· != '.')) (l := cs)
    unfold ofUnsigned? at found
    rw [List.span_eq_takeWhile_dropWhile] at found
    split at found
    · rename_i whole split
      obtain ⟨rfl, rest⟩ := Prod.mk.inj split
      rw [rest, List.append_nil] at joined
      split at found
      · rename_i digits
        cases found
        exact ⟨rfl, ⟨digits, nofun⟩, joined.symm⟩
      · cases found
    · rename_i whole point fraction split
      obtain ⟨rfl, rest⟩ := Prod.mk.inj split
      -- The whole part was taken up to the first point.
      have point : point = '.' := by
        have first := List.head_dropWhile_not (p := (· != '.')) (l := cs) (by simp [rest])
        simpa [rest] using first
      rw [rest, point] at joined
      split at found
      · rename_i digits
        rw [Bool.and_eq_true] at digits
        cases found
        refine ⟨rfl, ⟨digits.1, ?_⟩, joined.symm⟩
        rintro _ ⟨⟩
        exact digits.2
      · cases found
  · obtain ⟨sign, whole, fraction⟩ := n
    rintro ⟨rfl, ⟨digits, behind⟩, rfl⟩
    unfold ofUnsigned? unsigned
    cases fraction with
    | none =>
      have split := @span_digits whole digits [] rfl
      rw [List.append_nil] at split
      dsimp only at split digits ⊢
      rw [split]
      exact if_pos digits
    | some fraction =>
      have split := @span_digits whole digits ('.' :: fraction) rfl
      have both : isDigits whole && isDigits fraction := by
        rw [Bool.and_eq_true]
        exact ⟨digits, behind fraction rfl⟩
      dsimp only at split ⊢
      rw [split]
      exact if_pos both

theorem ofChars?_eq_some {cs : List Char} {n : Numeral} : ofChars? cs = some n ↔ n.Spells cs := by
  constructor
  · intro found
    unfold ofChars? at found
    split at found
    · obtain ⟨sign, proper, rfl⟩ := ofUnsigned?_eq_some.mp found
      exact .minus proper sign
    · obtain ⟨sign, proper, rfl⟩ := ofUnsigned?_eq_some.mp found
      exact .plus proper sign
    · obtain ⟨sign, proper, rfl⟩ := ofUnsigned?_eq_some.mp found
      exact .bare proper sign
  · intro spells
    cases spells with
    | minus proper sign => exact ofUnsigned?_eq_some.mpr ⟨sign, proper, rfl⟩
    | plus proper sign => exact ofUnsigned?_eq_some.mpr ⟨sign, proper, rfl⟩
    | bare proper sign =>
      obtain ⟨c, rest, unsigned, digit⟩ := proper.head_isDigit
      have found := ofUnsigned?_eq_some.mpr ⟨sign, proper, rfl⟩
      rw [unsigned] at found ⊢
      unfold ofChars?
      split
      · rename_i same
        cases same
        cases digit
      · rename_i same
        cases same
        cases digit
      · exact found

end Numeral

end Decimal

namespace Datum

/-- What the words denote. A number is not a symbol, even if all its characters are allowed. -/
inductive Denotes : String → Datum → Prop
  | integer {text : String} {n : Decimal.Numeral} {value : Int64} : n.Spells text.toList →
    n.fraction = none → n.value = value.toInt → Denotes text (int value)
  | beyond {text : String} {n : Decimal.Numeral} : n.Spells text.toList → n.fraction = none →
    (∀ value : Int64, n.value ≠ value.toInt) → Denotes text (real n.toFloat)
  | decimal {text : String} {n : Decimal.Numeral} {fraction : List Char} : n.Spells text.toList →
    n.fraction = some fraction → Denotes text (real n.toFloat)
  | yes : Denotes "#t" (bool true)
  | no : Denotes "#f" (bool false)
  | ignore : Denotes "#ignore" ignore
  | inert : Denotes "#inert" inert
  | symbol {name : String} : (∀ n : Decimal.Numeral, ¬ n.Spells name.toList) → name ≠ "." →
    (∀ c ∈ name.toList, isSymbolCharacter c) → Denotes name (symbol name)

theorem ofNumeral_integer {n : Decimal.Numeral} (whole : n.fraction = none) {value : Int64}
    (fits : n.value = value.toInt) : ofNumeral n = int value := by
  unfold ofNumeral
  rw [n.toInt?_eq, if_pos whole, fits]
  dsimp only
  rw [if_pos ⟨value.minValue_le_toInt, value.toInt_le⟩, Int64.ofInt_toInt]

theorem ofNumeral_beyond {n : Decimal.Numeral} (whole : n.fraction = none)
    (beyond : ∀ value : Int64, n.value ≠ value.toInt) : ofNumeral n = real n.toFloat := by
  unfold ofNumeral
  rw [n.toInt?_eq, if_pos whole]
  dsimp only
  refine if_neg fun ⟨low, high⟩ => beyond (.ofInt n.value) ?_
  rw [Int64.toInt_ofInt_of_le low (Int.lt_add_one_of_le high)]

theorem ofNumeral_decimal {n : Decimal.Numeral} {fraction : List Char}
    (behind : n.fraction = some fraction) : ofNumeral n = real n.toFloat := by
  unfold ofNumeral
  rw [n.toInt?_eq, if_neg (by simp [behind])]

theorem denotes_numeral {text : String} {n : Decimal.Numeral} (spells : n.Spells text.toList) :
    Denotes text (ofNumeral n) := by
  cases behind : n.fraction with
  | some fraction =>
    rw [ofNumeral_decimal behind]
    exact .decimal spells behind
  | none =>
    by_cases fits : ∃ value : Int64, n.value = value.toInt
    · obtain ⟨value, fits⟩ := fits
      rw [ofNumeral_integer behind fits]
      exact .integer spells behind fits
    · have beyond : ∀ value : Int64, n.value ≠ value.toInt := fun value same => fits ⟨value, same⟩
      rw [ofNumeral_beyond behind beyond]
      exact .beyond spells behind beyond

theorem denotes_of_constant? {text : String} {d : Datum} (found : constant? text = some d) :
    Denotes text d := by
  unfold constant? at found
  split at found <;> rename_i known <;> cases found <;>
    cases Keyword.ofSpelling?_eq_some.mp known
  · exact .yes
  · exact .no
  · exact .ignore
  · exact .inert

theorem denotes_of_ofWord? {text : String} (word : text ≠ ".") {d : Datum}
    (found : ofWord? text = some d) : Denotes text d := by
  unfold ofWord? at found
  dsimp only at found
  split at found
  · rename_i n numeral
    cases found
    exact denotes_numeral (Decimal.Numeral.ofChars?_eq_some.mp numeral)
  · rename_i numeral
    split at found
    · exact denotes_of_constant? found
    · split at found
      · rename_i allowed
        cases found
        refine .symbol (fun n spells => ?_) word (List.all_eq_true.mp allowed)
        cases numeral.symm.trans (Decimal.Numeral.ofChars?_eq_some.mpr spells)
      · cases found

theorem Denotes.ofWord? {text : String} {d : Datum} (denotes : Denotes text d) :
    ofWord? text = some d := by
  have numeral {n : Decimal.Numeral} (spells : n.Spells text.toList) :
      Datum.ofWord? text = some (ofNumeral n) := by
    unfold Datum.ofWord?
    dsimp only
    rw [Decimal.Numeral.ofChars?_eq_some.mpr spells]
  cases denotes with
  | integer spells whole fits => rw [numeral spells, ofNumeral_integer whole fits]
  | beyond spells whole beyond => rw [numeral spells, ofNumeral_beyond whole beyond]
  | decimal spells behind => rw [numeral spells, ofNumeral_decimal behind]
  | yes | no | ignore | inert => decide
  | symbol other _ allowed =>
    have none : Decimal.Numeral.ofChars? text.toList = none :=
      Option.eq_none_iff_forall_ne_some.mpr fun n found =>
        other n (Decimal.Numeral.ofChars?_eq_some.mp found)
    have head : text.toList.head? ≠ some '#' := by
      intro head
      have member := List.mem_of_mem_head? head
      have := allowed '#' member
      revert this
      decide
    unfold Datum.ofWord?
    dsimp only
    rw [none]
    simp [head, List.all_eq_true.mpr allowed]

theorem Denotes.ne_dot {text : String} {d : Datum} (denotes : Denotes text d) : text ≠ "." := by
  have numeral {n : Decimal.Numeral} (spells : n.Spells text.toList) : text ≠ "." := by
    rintro rfl
    cases Decimal.Numeral.ofChars?_eq_some.mpr spells
  cases denotes with
  | integer spells | beyond spells | decimal spells => exact numeral spells
  | yes | no | ignore | inert => decide
  | symbol _ other => exact other

end Datum

end Vau
