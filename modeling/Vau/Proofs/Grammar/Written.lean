import Vau.Form.Text
import Vau.Proofs.Grammar.Accepted

/-! Reading undoes writing.

A written form is cut into the text of its parts, each with the separator in front of it. The
scanner turns a part into its lexemes, wherever it stands, and the lexemes derive the form. -/

set_option autoImplicit false

namespace Vau

open Datum (Derives DerivesAll)

/-! Characters of words. -/

namespace Text

def blanks : List Nat :=
  [0x20, 0x09, 0x0A, 0x0B, 0x0C, 0x0D, 0x85, 0xA0, 0x1680, 0x2000, 0x2001, 0x2002, 0x2003, 0x2004,
    0x2005, 0x2006, 0x2007, 0x2008, 0x2009, 0x200A, 0x2028, 0x2029, 0x202F, 0x205F, 0x3000]

theorem mem_blanks {c : Char} (blank : isBlank c) : c.toNat ∈ blanks := by
  simp only [isBlank, Bool.or_eq_true, Bool.and_eq_true, beq_iff_eq, decide_eq_true_eq] at blank
  simp only [blanks, List.mem_cons, List.not_mem_nil, or_false]
  omega

end Text

namespace Scanner

/-- Continues a word, and starts one in a gap. -/
def Plain (c : Char) : Prop := c ≠ ';' ∧ Text.isBlank c = false ∧ delimiter? c = none

instance (c : Char) : Decidable (Plain c) := inferInstanceAs (Decidable (_ ∧ _ ∧ _))

end Scanner

namespace Datum

/-- No letter or number is white space, and so no character of a symbol ends it. -/
theorem plain_of_isSymbolCharacter {c : Char} (allowed : isSymbolCharacter c) : Scanner.Plain c := by
  have apart : ∀ n ∈ Text.blanks, isSymbolCharacter (Char.ofNat n) = false := by decide +kernel
  refine ⟨?_, ?_, ?_⟩
  · rintro rfl
    cases allowed
  · by_contra blank
    have absent := apart c.toNat (Text.mem_blanks (Bool.of_not_eq_false blank))
    rw [Char.ofNat_toNat, allowed] at absent
    cases absent
  · unfold Scanner.delimiter?
    split
    · cases allowed
    · cases allowed
    · cases allowed
    · rfl

end Datum

theorem Datum.isSymbolCharacter_of_isDigit {c : Char} (digit : c.isDigit) :
    isSymbolCharacter c := by
  have ascii : c.toNat < 0x80 := by
    simp only [Char.isDigit, Bool.and_eq_true, decide_eq_true_eq, UInt32.le_iff_toNat_le] at digit
    exact Nat.lt_of_le_of_lt digit.2 (by decide)
  have alphanumeric : Text.isAlphanumeric c := by
    unfold Text.isAlphanumeric
    rw [if_pos ascii]
    simp [Char.isAlphanum, digit]
  simp [isSymbolCharacter, alphanumeric]

/-- A word that the scanner takes as one token. -/
def Unbroken (text : String) : Prop := text ≠ "" ∧ ∀ c ∈ text.toList, Scanner.Plain c

instance (text : String) : Decidable (Unbroken text) :=
  decidable_of_iff (text ≠ "" ∧ text.toList.all (Scanner.Plain ·)) <| by
    simp only [Unbroken, List.all_eq_true, decide_eq_true_eq]

namespace Scanner

variable {s : Scanner}

def lexemes (s : Scanner) : List Lexeme := s.tokens.map Token.lexeme

/-- The characters, read from this state on, are these lexemes, and they leave no comment open. -/
def Scans (s : Scanner) (cs : List Char) (lexemes : List Lexeme) : Prop :=
  (cs.foldl feed s).inside ≠ .comment ∧ (cs.foldl feed s).lexemes = s.lexemes ++ lexemes

theorem Scans.append {cs rest : List Char} {lexemes more : List Lexeme} (first : s.Scans cs lexemes)
    (following : (cs.foldl feed s).Scans rest more) : s.Scans (cs ++ rest) (lexemes ++ more) := by
  unfold Scans at *
  rw [List.foldl_append, following.2, first.2, List.append_assoc]
  exact ⟨following.1, rfl⟩

theorem feed_blank (uncommented : s.inside ≠ .comment) {c : Char} (other : c ≠ ';')
    (blank : Text.isBlank c) : (s.feed c).inside = .gap ∧ (s.feed c).lexemes = s.lexemes := by
  unfold feed
  split
  · contradiction
  · rw [if_neg other, if_pos blank]
    exact ⟨rfl, rfl⟩

theorem feed_delimiter (uncommented : s.inside ≠ .comment) {c : Char} {lexeme : Lexeme}
    (other : c ≠ ';') (visible : Text.isBlank c = false) (delimits : delimiter? c = some lexeme) :
    (s.feed c).inside = .gap ∧ (s.feed c).lexemes = s.lexemes ++ [lexeme] := by
  unfold feed
  split
  · contradiction
  · rw [if_neg other, if_neg (by simp [visible]), delimits]
    refine ⟨rfl, ?_⟩
    simp [lexemes, tokens, flush]

theorem feed_plain_gap (gap : s.inside = .gap) {c : Char} (plain : Plain c) :
    s.feed c = { s with position := s.position.after c, inside := .word s.position [c] } := by
  unfold feed
  rw [gap]
  dsimp only
  rw [if_neg plain.1, if_neg (by simp [plain.2.1]), plain.2.2]

theorem feed_plain_word {start : Position} {newest : List Char}
    (inside : s.inside = .word start newest) {c : Char} (plain : Plain c) :
    s.feed c = { s with position := s.position.after c, inside := .word start (c :: newest) } := by
  unfold feed
  rw [inside]
  dsimp only
  rw [if_neg plain.1, if_neg (by simp [plain.2.1]), plain.2.2]

theorem foldl_plain {cs : List Char} (plain : ∀ c ∈ cs, Plain c) {start : Position}
    {newest : List Char} (inside : s.inside = .word start newest) :
    (cs.foldl feed s).inside = .word start (cs.reverse ++ newest) ∧
      (cs.foldl feed s).done = s.done := by
  induction cs generalizing s newest with
  | nil => exact ⟨inside, rfl⟩
  | cons c cs ih =>
    rw [List.foldl_cons, feed_plain_word inside (plain c List.mem_cons_self)]
    have rest := ih (fun c member => plain c (List.mem_cons_of_mem _ member))
      (s := { s with position := s.position.after c, inside := .word start (c :: newest) }) rfl
    simpa using rest

theorem scans_word (gap : s.inside = .gap) {text : String} (unbroken : Unbroken text) :
    s.Scans text.toList [.word text] := by
  cases chars : text.toList with
  | nil => exact (unbroken.1 (String.toList_eq_nil_iff.mp chars)).elim
  | cons c cs =>
    have plain : ∀ other ∈ c :: cs, Plain other := fun other member =>
      unbroken.2 other (chars ▸ member)
    unfold Scans
    -- The first character begins the word, the others only make it longer.
    rw [List.foldl_cons, feed_plain_gap gap (plain c List.mem_cons_self)]
    have rest := foldl_plain (fun c member => plain c (List.mem_cons_of_mem _ member))
      (s := { s with position := s.position.after c, inside := .word s.position [c] }) rfl
    have whole : String.ofList (c :: cs) = text := by rw [← chars, String.ofList_toList]
    refine ⟨by simp [rest.1], ?_⟩
    simp [lexemes, tokens, flush, rest.1, rest.2, gap, whole]

/-- Behind a separator there is a gap. -/
theorem Scans.behind {c : Char} {cs : List Char} {before lexemes : List Lexeme}
    (separator : (s.feed c).inside = .gap ∧ (s.feed c).lexemes = s.lexemes ++ before)
    (following : (s.feed c).inside = .gap → (s.feed c).Scans cs lexemes) :
    s.Scans (c :: cs) (before ++ lexemes) := by
  have rest := following separator.1
  unfold Scans at *
  rw [List.foldl_cons, rest.2, separator.2, List.append_assoc]
  exact ⟨rest.1, rfl⟩

end Scanner

/-! The words of atoms. -/

namespace Datum

def IsName (name : String) : Prop :=
  name ≠ "" ∧ (∀ c ∈ name.toList, isSymbolCharacter c) ∧
    (∀ n : Decimal.Numeral, ¬ n.Spells name.toList) ∧ name ≠ "."

theorem isName_iff {name : String} : IsName name ↔
    name ≠ "" ∧ name.toList.all isSymbolCharacter ∧
      Decimal.Numeral.ofChars? name.toList = none ∧ name ≠ "." := by
  unfold IsName
  rw [Option.eq_none_iff_forall_ne_some, List.all_eq_true]
  simp only [ne_eq, Decimal.Numeral.ofChars?_eq_some]

instance : DecidablePred IsName := fun _ => decidable_of_iff _ isName_iff.symm

theorem IsName.unbroken {name : String} (named : IsName name) : Unbroken name :=
  ⟨named.1, fun c member => plain_of_isSymbolCharacter (named.2.1 c member)⟩

theorem IsName.denotes {name : String} (named : IsName name) : Denotes name (symbol name) :=
  .symbol named.2.2.1 named.2.2.2 named.2.1

end Datum

namespace Decimal

def Numeral.ofInteger (n : Int) : Numeral := ⟨n < 0, (Nat.repr n.natAbs).toList, none⟩

variable (n : Int)

theorem isDigits_repr (n : Nat) : isDigits (Nat.repr n).toList := by
  rw [isDigits_iff, Nat.toList_repr]
  exact ⟨Nat.toDigits_ne_nil, fun c member =>
    Nat.isDigit_of_mem_toDigits (by decide) (by decide) member⟩

theorem Numeral.spells_ofInteger : (ofInteger n).Spells (integerText n).toList := by
  have proper : (ofInteger n).Proper := ⟨isDigits_repr _, nofun⟩
  unfold integerText
  by_cases negative : n < 0
  · rw [if_pos negative, String.toList_append]
    exact .minus proper (decide_eq_true negative)
  · rw [if_neg negative]
    exact .bare proper (decide_eq_false negative)

theorem Numeral.value_ofInteger : (ofInteger n).value = n := by
  have whole : Nat.ofDigitChars 10 (Nat.repr n.natAbs).toList 0 = n.natAbs := by
    rw [Nat.toList_repr]
    exact Nat.ofDigitChars_ten_toDigits
  unfold value ofInteger
  dsimp only
  rw [whole]
  split
  · rename_i negative
    have : n < 0 := of_decide_eq_true negative
    omega
  · rename_i negative
    have : ¬ n < 0 := fun below => negative (decide_eq_true below)
    omega

theorem unbroken_integerText : Unbroken (integerText n) := by
  have digits (m : Nat) : ∀ c ∈ (Nat.repr m).toList, Scanner.Plain c := fun c member =>
    Datum.plain_of_isSymbolCharacter
      (Datum.isSymbolCharacter_of_isDigit ((isDigits_iff.mp (isDigits_repr m)).2 c member))
  have nonempty (m : Nat) : Nat.repr m ≠ "" := fun empty =>
    (isDigits_iff.mp (isDigits_repr m)).1 (String.toList_eq_nil_iff.mpr empty)
  unfold integerText
  split
  · constructor
    · intro empty
      have chars := congrArg String.toList empty
      rw [String.toList_append] at chars
      cases chars
    · intro c member
      rw [String.toList_append] at member
      rcases List.mem_cons.mp member with rfl | member
      · decide
      · exact digits _ c member
  · exact ⟨nonempty _, digits _⟩

end Decimal

theorem Datum.denotes_integerText (value : Int64) :
    Denotes (Decimal.integerText value.toInt) (int value) :=
  .integer (Decimal.Numeral.spells_ofInteger _) rfl (Decimal.Numeral.value_ofInteger _)

/-! Written forms. -/

def Form.datum? : Form → Option Datum
  | .nil => some .nil
  | .symbol name => some (.symbol name)
  | .int value => some (.int value)
  | .real value => some (.real value)
  | .bool value => some (.bool value)
  | .ignore => some .ignore
  | .inert => some .inert
  | .pair _ car cdr =>
    match car.datum?, cdr.datum? with
    | some a, some d => some (.pair a d)
    | _, _ => none
  | .combiner _ | .environment _ => none

/-- Built without reals, and from names that the reader can produce. -/
def Datum.Readable : Datum → Prop
  | symbol name => IsName name
  | real _ => False
  | nil | int _ | bool _ | ignore | inert => True
  | pair car cdr => car.Readable ∧ cdr.Readable

instance Datum.decidableReadable : DecidablePred Readable
  | symbol name => inferInstanceAs (Decidable (IsName name))
  | real _ => .isFalse id
  | nil | int _ | bool _ | ignore | inert => .isTrue trivial
  | pair car cdr =>
    have := decidableReadable car
    have := decidableReadable cdr
    inferInstanceAs (Decidable (car.Readable ∧ cdr.Readable))

def Place.lexemes (place : Place) (text : String) : List Lexeme :=
  match place with
  | alone => [.word text]
  | tail => [.word ".", .word text, .closing]

def Form.lexemes (place : Place) : Form → List Lexeme
  | .nil => match place with
    | .alone => [.opening, .closing]
    | .tail => [.closing]
  | .pair _ car cdr => match place with
    | .alone => .opening :: (car.lexemes .alone ++ cdr.lexemes .tail)
    | .tail => car.lexemes .alone ++ cdr.lexemes .tail
  | f => place.lexemes f.text

/-- A form that is written in words of the grammar. -/
inductive Form.Shows : Form → Datum → Prop
  | nil : Shows .nil .nil
  | word {f : Form} {d : Datum} : (∀ place : Place, f.write none place = place.atom f.text) →
    (∀ place : Place, f.lexemes place = place.lexemes f.text) → Unbroken f.text →
      Datum.Denotes f.text d → Shows f d
  | pair {id : Identity} {car cdr : Form} {a d : Datum} : Shows car a → Shows cdr d →
    Shows (.pair id car cdr) (.pair a d)

theorem Form.shows_of_readable : ∀ {f : Form} {d : Datum}, f.datum? = some d → d.Readable →
    f.Shows d
  | .nil, _, rfl, _ => .nil
  | .symbol _, _, rfl, named => .word (fun _ => rfl) (fun _ => rfl) named.unbroken named.denotes
  | .int value, _, rfl, _ =>
    .word (fun _ => rfl) (fun _ => rfl) (Decimal.unbroken_integerText _)
      (Datum.denotes_integerText value)
  | .bool true, _, rfl, _ => .word (fun _ => rfl) (fun _ => rfl) (by decide) .yes
  | .bool false, _, rfl, _ => .word (fun _ => rfl) (fun _ => rfl) (by decide) .no
  | .ignore, _, rfl, _ => .word (fun _ => rfl) (fun _ => rfl) (by decide) .ignore
  | .inert, _, rfl, _ => .word (fun _ => rfl) (fun _ => rfl) (by decide) .inert
  | .pair _ car cdr, d, same, readable => by
    unfold datum? at same
    cases front : car.datum? with
    | none =>
      rw [front] at same
      cases same
    | some a =>
      cases behind : cdr.datum? with
      | none =>
        rw [front, behind] at same
        cases same
      | some rest =>
        rw [front, behind] at same
        cases same
        exact .pair (shows_of_readable front readable.1) (shows_of_readable behind readable.2)

/-! Scanning written forms. -/

namespace Scanner

variable {s : Scanner}

theorem scans_blank (uncommented : s.inside ≠ .comment) {cs : List Char} {lexemes : List Lexeme}
    (following : (s.feed ' ').inside = .gap → (s.feed ' ').Scans cs lexemes) :
    s.Scans (' ' :: cs) lexemes := by
  have blank : (s.feed ' ').inside = .gap ∧ (s.feed ' ').lexemes = s.lexemes ++ [] := by
    rw [List.append_nil]
    exact feed_blank uncommented (by decide) (by decide)
  exact Scans.behind blank following

theorem scans_opening (uncommented : s.inside ≠ .comment) {cs : List Char} {lexemes : List Lexeme}
    (following : (s.feed '(').inside = .gap → (s.feed '(').Scans cs lexemes) :
    s.Scans ('(' :: cs) (.opening :: lexemes) := by
  have opens := feed_delimiter uncommented (c := '(') (by decide) (by decide) rfl
  exact Scans.behind opens following

theorem scans_closing (uncommented : s.inside ≠ .comment) : s.Scans [')'] [.closing] := by
  have closes := feed_delimiter uncommented (c := ')') (by decide) (by decide) rfl
  refine ⟨?_, closes.2⟩
  rw [List.foldl_cons, List.foldl_nil, closes.1]
  exact nofun

end Scanner

namespace Place

/-- Where something may be written: in a gap, or else anywhere inside a list. -/
def Allows (place : Place) (s : Scanner) : Prop :=
  match place with
  | alone => s.inside = .gap
  | tail => s.inside ≠ .comment

variable {place : Place} {s : Scanner}

theorem Allows.uncommented (allows : place.Allows s) : s.inside ≠ .comment := by
  cases place with
  | alone =>
    have gap : s.inside = .gap := allows
    simp [gap]
  | tail => exact allows

theorem scans_atom (allows : place.Allows s) {text : String} (unbroken : Unbroken text) :
    s.Scans (place.atom text).toList (place.lexemes text) := by
  cases place with
  | alone => exact Scanner.scans_word allows unbroken
  | tail =>
    have spelled : (tail.atom text).toList =
        ' ' :: (".".toList ++ ' ' :: (text.toList ++ [')'])) := by
      simp [atom, String.toList_append]
    rw [spelled]
    refine Scanner.scans_blank allows fun gap => ?_
    have full : Unbroken "." := by decide
    have dot := Scanner.scans_word gap full
    refine dot.append (Scanner.scans_blank dot.1 fun gap => ?_)
    have word := Scanner.scans_word gap unbroken
    exact word.append (Scanner.scans_closing word.1)

end Place

namespace Form.Shows

variable {f : Form} {d : Datum}

theorem scans (shown : f.Shows d) (place : Place) {s : Scanner} (allows : place.Allows s) :
    s.Scans (f.write none place).toList (f.lexemes place) := by
  induction shown generalizing place s with
  | nil =>
    cases place with
    | alone =>
      exact Scanner.scans_opening allows.uncommented fun gap =>
        Scanner.scans_closing (by simp [gap])
    | tail => exact Scanner.scans_closing allows
  | word written spelled unbroken _ =>
    rw [written, spelled]
    exact Place.scans_atom allows unbroken
  | @pair id car cdr a d _ _ front behind =>
    -- Whatever separates the first item, the items that follow bring their own separators.
    have both {s : Scanner} (gap : s.inside = .gap) :
        s.Scans ((car.write none .alone).toList ++ (cdr.write none .tail).toList)
          (car.lexemes .alone ++ cdr.lexemes .tail) := by
      have first := front .alone (s := s) gap
      exact first.append (behind .tail first.1)
    cases place with
    | alone =>
      have spelled : ((Form.pair id car cdr).write none .alone).toList =
          '(' :: ((car.write none .alone).toList ++ (cdr.write none .tail).toList) := by
        simp [write, String.toList_append]
      rw [spelled]
      exact Scanner.scans_opening allows.uncommented both
    | tail =>
      have spelled : ((Form.pair id car cdr).write none .tail).toList =
          ' ' :: ((car.write none .alone).toList ++ (cdr.write none .tail).toList) := by
        simp [write, String.toList_append]
      rw [spelled]
      exact Scanner.scans_blank allows both

/-- The lexemes of a form, alone or behind the items of a list, derive what it shows. -/
theorem derives (shown : f.Shows d) :
    Derives (f.lexemes .alone) d ∧
      ∀ {front : List Lexeme} {items : List Datum}, DerivesAll front items → items ≠ [] →
        Derives (.opening :: (front ++ f.lexemes .tail)) (.chain items d) := by
  induction shown with
  | nil => exact ⟨.empty, fun all nonempty => .proper all nonempty⟩
  | word _ spelled _ denotes =>
    rw [spelled, spelled]
    exact ⟨.word denotes, fun all nonempty => .dotted all nonempty (.word denotes)⟩
  | @pair id car cdr a d _ _ front behind =>
    constructor
    · have single := DerivesAll.none.snoc front.1
      exact behind.2 single (by simp)
    · -- The first item joins those in front, and what is behind it goes on from there.
      intro before items all nonempty
      have longer := behind.2 (all.snoc front.1) (by simp)
      simpa [lexemes, Datum.chain] using longer

theorem read_text (shown : f.Shows d) (file : Option String) : read f.text file = .ok [d] := by
  have scanned := shown.scans .alone (s := {}) rfl
  apply read_eq_ok.mpr
  have tokens : (tokenize f.text).map Token.lexeme = f.lexemes .alone := scanned.2
  rw [tokens]
  exact DerivesAll.none.snoc shown.derives.1

end Form.Shows

/-! What is read can be written. -/

namespace Scanner

variable {s : Scanner}

/-- No token is empty, nor is the word under way. -/
structure Filled (s : Scanner) : Prop where
  done : ∀ t ∈ s.done, t.lexeme ≠ .word ""
  inside : ∀ start newest, s.inside = .word start newest → newest ≠ []

theorem Filled.flush (filled : s.Filled) : ∀ t ∈ s.flush, t.lexeme ≠ .word "" := by
  unfold Scanner.flush
  cases inside : s.inside with
  | gap | comment => exact filled.done
  | word start newest =>
    intro t member
    rcases List.mem_cons.mp member with rfl | member
    · intro empty
      have none : newest.reverse = [] := by simpa using empty
      exact filled.inside start newest inside (List.reverse_eq_nil_iff.mp none)
    · exact filled.done t member

theorem Filled.feed (filled : s.Filled) (c : Char) : (s.feed c).Filled := by
  unfold Scanner.feed
  split
  · refine ⟨filled.done, ?_⟩
    intro start newest inside
    dsimp only at inside
    split at inside <;> cases inside
  · split
    · exact ⟨filled.flush, nofun⟩
    · split
      · exact ⟨filled.flush, nofun⟩
      · split
        · rename_i lexeme delimits
          refine ⟨?_, nofun⟩
          intro t member
          rcases List.mem_cons.mp member with rfl | member
          · intro same
            have word : delimiter? c = some (.word "") := delimits.trans (congrArg some same)
            unfold delimiter? at word
            split at word <;> cases word
          · exact filled.flush t member
        · split
          all_goals
            refine ⟨filled.done, ?_⟩
            rintro start newest ⟨⟩
            exact List.cons_ne_nil _ _

theorem Filled.foldl (filled : s.Filled) (cs : List Char) : (cs.foldl Scanner.feed s).Filled := by
  induction cs generalizing s with
  | nil => exact filled
  | cons c cs ih => exact ih (filled.feed c)

end Scanner

theorem ne_word_empty_of_mem_tokenize {text : String} {lexeme : Lexeme}
    (member : lexeme ∈ (tokenize text).map Token.lexeme) : lexeme ≠ .word "" := by
  obtain ⟨t, found, rfl⟩ := List.mem_map.mp member
  have start : Scanner.Filled {} := ⟨nofun, nofun⟩
  exact (start.foldl text.toList).flush t (List.mem_reverse.mp found)

namespace Datum

def Exact : Datum → Prop
  | real _ => False
  | nil | symbol _ | int _ | bool _ | ignore | inert => True
  | pair car cdr => car.Exact ∧ cdr.Exact

theorem Denotes.readable {text : String} {d : Datum} (denotes : Denotes text d)
    (nonempty : text ≠ "") (exact : d.Exact) : d.Readable := by
  cases denotes with
  | beyond | decimal => exact exact
  | integer | yes | no | ignore | inert => trivial
  | symbol other undotted allowed => exact ⟨nonempty, allowed, other, undotted⟩

theorem readable_quote : (symbol "$quote").Readable := by decide

theorem readable_chain {items : List Datum} {tail : Datum}
    (each : ∀ d ∈ items, d.Exact → d.Readable) (behind : tail.Exact → tail.Readable)
    (exact : (chain items tail).Exact) : (chain items tail).Readable := by
  induction items with
  | nil => exact behind exact
  | cons d items ih =>
    constructor
    · exact each d List.mem_cons_self exact.1
    · exact ih (fun other member => each other (List.mem_cons_of_mem d member)) exact.2

mutual

theorem Derives.readable : ∀ {lexemes : List Lexeme} {d : Datum}, Derives lexemes d →
    (∀ lexeme ∈ lexemes, lexeme ≠ .word "") → d.Exact → d.Readable
  | _, _, .word denotes, filled, exact => by
    refine denotes.readable ?_ exact
    rintro rfl
    exact filled _ List.mem_cons_self rfl
  | _, _, .quote derives, filled, exact => by
    have quoted := derives.readable (fun lexeme member => filled lexeme (.tail _ member)) exact.2.1
    exact ⟨readable_quote, quoted, trivial⟩
  | _, _, .empty, _, _ => trivial
  | _, _, .proper all _, filled, exact => by
    refine readable_chain (all.readable fun lexeme member => filled lexeme ?_) (fun _ => trivial)
      exact
    simp [member]
  | _, _, .dotted all _ derives, filled, exact => by
    refine readable_chain (all.readable fun lexeme member => filled lexeme ?_)
      (derives.readable fun lexeme member => filled lexeme ?_) exact
    · simp [member]
    · simp [member]

theorem DerivesAll.readable : ∀ {lexemes : List Lexeme} {items : List Datum},
    DerivesAll lexemes items → (∀ lexeme ∈ lexemes, lexeme ≠ .word "") →
      ∀ d ∈ items, d.Exact → d.Readable
  | _, _, .none, _, _, member, _ => nomatch member
  | _, _, .more derives following, filled, d, member, exact => by
    rcases List.mem_cons.mp member with same | member
    · rw [same] at exact ⊢
      exact derives.readable (fun lexeme member => filled lexeme (List.mem_append_left _ member))
        exact
    · exact following.readable (fun lexeme member => filled lexeme (List.mem_append_right _ member))
        d member exact

end

theorem readable_of_read {text : String} {file : Option String} {data : List Datum}
    (accepted : read text file = .ok data) {d : Datum} (member : d ∈ data) (exact : d.Exact) :
    d.Readable :=
  (read_eq_ok.mp accepted).readable (fun _ => ne_word_empty_of_mem_tokenize) d member exact

end Datum

theorem Form.datum?_ofDatum (d : Datum) (fresh : Identity) :
    (ofDatum d fresh).1.datum? = some d := by
  induction d generalizing fresh with
  | pair a d front behind => simp [ofDatum, datum?, front, behind]
  | _ => rfl

/-- A form without reals whose names the reader can produce is read back from its text, and all
that is ever read is such a form, the reals apart. So reading, writing and reading again gives the
same forms. -/
theorem reading_undoes_writing :
    (∀ (f : Form) (d : Datum), f.datum? = some d → d.Readable → ∀ file : Option String,
      read f.text file = .ok [d]) ∧
    ∀ (text : String) (file : Option String) (data : List Datum), read text file = .ok data →
      ∀ d ∈ data, d.Exact → d.Readable ∧ ∀ (fresh : Identity) (file : Option String),
        (Form.ofDatum d fresh).1.datum? = some d ∧
          read (Form.ofDatum d fresh).1.text file = .ok [d] := by
  have first (f : Form) (d : Datum) (same : f.datum? = some d) (readable : d.Readable)
      (file : Option String) : read f.text file = .ok [d] :=
    (Form.shows_of_readable same readable).read_text file
  refine ⟨first, ?_⟩
  intro text file data accepted d member exact
  have readable := Datum.readable_of_read accepted member exact
  refine ⟨readable, fun fresh file => ?_⟩
  have same := Form.datum?_ofDatum d fresh
  exact ⟨same, first _ d same readable file⟩

/-- A dotted form of a sign, the least integer and dots, and a text with a quote mark. -/
theorem reading_undoes_writing_of_dotted :
    read (Form.pair 7 (.symbol "+") (.pair 3 (.int Int64.minValue) (.symbol "..."))).text none =
        .ok [.pair (.symbol "+") (.pair (.int Int64.minValue) (.symbol "..."))] ∧
      read (Form.ofDatum (.list [.symbol "$quote", .symbol "x"]) 0).1.text none =
        .ok [.list [.symbol "$quote", .symbol "x"]] := by
  constructor
  · exact reading_undoes_writing.1 _ _ rfl (by decide) none
  · have accepted : read "'x" none = .ok [.list [.symbol "$quote", .symbol "x"]] := by
      decide +kernel
    have exact : (Datum.list [.symbol "$quote", .symbol "x"]).Exact := by
      exact ⟨trivial, trivial, trivial⟩
    exact ((reading_undoes_writing.2 _ _ _ accepted _ List.mem_cons_self exact).2 0 none).2

end Vau
