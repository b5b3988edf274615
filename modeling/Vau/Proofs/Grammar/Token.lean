import Mathlib.Data.List.Induction
import Vau.Proofs.Grammar.Written

/-! What tokenizing keeps of a text, and where.

Comments and white space go; all else is in the tokens, in order. The last line of what was read
tells both the column and whether a comment is open. Lines and columns have 32 bits. -/

set_option autoImplicit false

namespace Vau

namespace Text

def lastLine (text : List Char) : List Char := (text.reverse.takeWhile (· ≠ '\n')).reverse

/-- A semicolon and the rest of its line are a comment; the line break is not. -/
def hides (inside : Bool) (c : Char) : Bool := c ≠ '\n' && (inside || c = ';')

/-- A text without its comments, from outside or inside of one. -/
def uncommented : (inside : Bool) → List Char → List Char
  | _, [] => []
  | inside, c :: cs =>
    if hides inside c then uncommented true cs else c :: uncommented false cs

/-- The characters that are neither white space nor in a comment. -/
def visible (text : List Char) : List Char := (uncommented false text).filter (! isBlank ·)

theorem lastLine_snoc (text : List Char) (c : Char) :
    lastLine (text ++ [c]) = if c = '\n' then [] else lastLine text ++ [c] := by
  by_cases broken : c = '\n' <;> simp [lastLine, broken]

theorem uncommented_snoc (inside : Bool) (text : List Char) (c : Char) :
    uncommented inside (text ++ [c]) =
      uncommented inside text ++ if hides (text.foldl hides inside) c then [] else [c] := by
  induction text generalizing inside with
  | nil => cases opened : hides inside c <;> simp [uncommented, opened]
  | cons first rest ih =>
    rw [List.cons_append, uncommented, uncommented, List.foldl_cons]
    cases hides inside first with
    | true => exact ih true
    | false => exact congrArg (first :: ·) (ih false)

/-- A comment is open where there is a semicolon in the line. -/
theorem foldl_hides (text : List Char) :
    text.foldl hides false = true ↔ ';' ∈ lastLine text := by
  induction text using List.reverseRecOn with
  | nil => simp [lastLine]
  | append_singleton text c ih =>
    rw [List.foldl_append, List.foldl_cons, List.foldl_nil, lastLine_snoc]
    by_cases broken : c = '\n'
    · simp [hides, broken]
    · simp [hides, broken, ih, eq_comm (a := ';')]

theorem visible_snoc (text : List Char) (c : Char) : visible (text ++ [c]) =
    if isBlank c ∨ ';' ∈ lastLine (text ++ [c]) then visible text else visible text ++ [c] := by
  have blank : isBlank '\n' = true := by decide
  have opens : hides (text.foldl hides false) c = true ↔ ';' ∈ lastLine (text ++ [c]) := by
    rw [← foldl_hides, List.foldl_append, List.foldl_cons, List.foldl_nil]
  unfold visible
  rw [uncommented_snoc, List.filter_append]
  by_cases hidden : ';' ∈ lastLine (text ++ [c])
  · simp [hidden, opens.mpr hidden]
  · by_cases white : isBlank c <;> simp [hidden, mt opens.mp hidden, white]

end Text

open Text (lastLine visible)

/-- Where the next character stands, in the 32 bits that lines and columns have. -/
def Position.behind (text : List Char) : Position :=
  ⟨.ofNat (1 + text.count '\n'), .ofNat (1 + (lastLine text).length)⟩

namespace Position

theorem behind_snoc (text : List Char) (c : Char) :
    behind (text ++ [c]) = (behind text).after c := by
  unfold behind after
  rw [Text.lastLine_snoc]
  by_cases broken : c = '\n' <;> simp [broken, ← Nat.add_assoc, UInt32.ofNat_add]

variable {text : List Char}

end Position

open Scanner (Plain)

/-- The lexeme ends where the text does not go on with it. -/
inductive Lexeme.Whole (before after : List Char) : Lexeme → Prop
  | opening : Whole before after .opening
  | closing : Whole before after .closing
  | quote : Whole before after .quote
  | word {word : String} : Unbroken word → (∀ c ∈ before.getLast?, ¬ Plain c) →
    (∀ c ∈ after.head?, ¬ Plain c) → Whole before after (.word word)

/-- The token has its place between two parts of the text. -/
structure Token.Placed (text before : List Char) (t : Token) (after : List Char) : Prop where
  there : text = before ++ t.lexeme.text.toList ++ after
  whole : t.lexeme.Whole before after
  uncommented : ';' ∉ lastLine before
  position : t.position = .behind before

def Token.characters (ts : List Token) : List Char := ts.flatMap fun t => t.lexeme.text.toList

namespace Scanner

variable {s next : Scanner} {read : List Char} {c : Char}

/-- What a character can do. -/
inductive Feeds (s : Scanner) (c : Char) : Scanner → Prop
  | hidden : s.inside = .comment → c ≠ '\n' →
    Feeds s c { s with position := s.position.after c, inside := .comment }
  | lineEnd : s.inside = .comment → c = '\n' →
    Feeds s c { s with position := s.position.after c, inside := .gap }
  | hide : s.inside ≠ .comment → c = ';' → Feeds s c ⟨s.position.after c, .comment, s.flush⟩
  | blank : s.inside ≠ .comment → c ≠ ';' → Text.isBlank c →
    Feeds s c ⟨s.position.after c, .gap, s.flush⟩
  | delimiter {lexeme : Lexeme} : s.inside ≠ .comment → c ≠ ';' → ¬ Text.isBlank c →
    delimiter? c = some lexeme →
    Feeds s c ⟨s.position.after c, .gap, ⟨lexeme, s.position⟩ :: s.flush⟩
  | start : s.inside = .gap → Plain c →
    Feeds s c { s with position := s.position.after c, inside := .word s.position [c] }
  | more {start : Position} {newest : List Char} : s.inside = .word start newest → Plain c →
    Feeds s c { s with position := s.position.after c, inside := .word start (c :: newest) }

theorem feeds (s : Scanner) (c : Char) : s.Feeds c (s.feed c) := by
  by_cases commented : s.inside = .comment
  · by_cases broken : c = '\n'
    · have fed : s.feed c = { s with position := s.position.after c, inside := .gap } := by
        simp [feed, commented, broken]
      exact fed ▸ .lineEnd commented broken
    · have fed : s.feed c = { s with position := s.position.after c, inside := .comment } := by
        simp [feed, commented, broken]
      exact fed ▸ .hidden commented broken
  · by_cases plain : Plain c
    · cases inside : s.inside with
      | gap => exact feed_plain_gap inside plain ▸ .start inside plain
      | comment => exact (commented inside).elim
      | word start newest => exact feed_plain_word inside plain ▸ .more inside plain
    · unfold feed
      split
      · contradiction
      · split
        · exact .hide commented ‹_›
        · split
          · exact .blank commented ‹_› ‹_›
          · split
            · exact .delimiter commented ‹_› ‹_› ‹_›
            · exact (plain ⟨‹_›, Bool.of_not_eq_true ‹_›, ‹_›⟩).elim

end Scanner

open Scanner (Feeds)

theorem Lexeme.of_delimiter? {c : Char} {l : Lexeme} (delimits : Scanner.delimiter? c = some l) :
    l.text.toList = [c] ∧ (∀ before after, l.Whole before after) ∧ ∀ word, l ≠ .word word := by
  unfold Scanner.delimiter? at delimits
  split at delimits <;> cases delimits
  · exact ⟨rfl, fun _ _ => .opening, nofun⟩
  · exact ⟨rfl, fun _ _ => .closing, nofun⟩
  · exact ⟨rfl, fun _ _ => .quote, nofun⟩

variable {text before after read : List Char} {c : Char} {t : Token} {older ts : List Token}

theorem Lexeme.Whole.snoc {l : Lexeme} (whole : l.Whole before after)
    (ends : ∀ word, l = .word word → after = [] → ¬ Plain c) : l.Whole before (after ++ [c]) := by
  cases whole with
  | opening => exact .opening
  | closing => exact .closing
  | quote => exact .quote
  | word unbroken left right =>
    refine .word unbroken left ?_
    cases after with
    | nil =>
      -- The word ended with the text, and does so with the longer text too.
      intro d first
      cases first
      exact ends _ rfl rfl
    | cons d rest => exact right

/-- The token is placed behind the older ones. -/
def Token.Found (text : List Char) (older : List Token) (t : Token) (after : List Char) : Prop :=
  ∃ before, t.Placed text before after ∧ visible before = Token.characters older.reverse

theorem Token.Found.snoc (found : t.Found text older after)
    (ends : ∀ word, t.lexeme = .word word → after = [] → ¬ Plain c) :
    t.Found (text ++ [c]) older (after ++ [c]) := by
  obtain ⟨before, placed, seen⟩ := found
  refine ⟨before, ⟨?_, placed.whole.snoc ends, placed.uncommented, placed.position⟩, seen⟩
  rw [placed.there]
  simp only [List.append_assoc]

theorem Token.Found.more {newest : List Char} {start : Position}
    (found : Token.Found text older ⟨.word (String.ofList newest.reverse), start⟩ [])
    (plain : Plain c) :
    Token.Found (text ++ [c]) older ⟨.word (String.ofList (c :: newest).reverse), start⟩ [] := by
  obtain ⟨before, placed, seen⟩ := found
  have there := placed.there
  cases placed.whole with
  | word unbroken left _ =>
    refine ⟨before, ⟨?_, .word ⟨by simp, ?_⟩ left nofun, placed.uncommented, placed.position⟩, seen⟩
    · simp [there, Lexeme.text]
    · intro d member
      simp only [List.reverse_cons, String.toList_ofList, List.mem_append,
        List.mem_singleton] at member
      obtain old | rfl := member
      · exact unbroken.2 d (by simpa using old)
      · exact plain

/-- Behind each word something was read that ended it. The newest token comes first. -/
def Token.Finished (text : List Char) (ts : List Token) : Prop :=
  ∀ newer t older, ts = newer ++ t :: older →
    ∃ after, t.Found text older after ∧ ∀ word, t.lexeme = .word word → after ≠ []

namespace Token.Finished

theorem snoc (finished : Finished text ts) : Finished (text ++ [c]) ts := by
  intro newer t older same
  obtain ⟨after, found, ended⟩ := finished newer t older same
  exact ⟨_, found.snoc fun word is none => (ended word is none).elim, by simp⟩

theorem cons (finished : Finished text ts) (found : t.Found text ts after)
    (ended : ∀ word, t.lexeme = .word word → after ≠ []) : Finished text (t :: ts) := by
  intro newer u older same
  obtain ⟨rfl, same⟩ | ⟨newer, rfl, rfl⟩ := List.cons_eq_append_iff.mp same
  · cases same
    exact ⟨after, found, ended⟩
  · exact finished newer u older rfl

end Token.Finished

namespace Scanner

variable {s next : Scanner}

/-- The tokens so far are those of what was read. -/
structure Cuts (read : List Char) (s : Scanner) : Prop where
  position : s.position = .behind read
  comment : s.inside = .comment ↔ ';' ∈ lastLine read
  gap : s.inside = .gap → ∀ c ∈ read.getLast?, ¬ Plain c
  characters : Token.characters s.flush.reverse = visible read
  done : Token.Finished read s.done
  word : ∀ start newest, s.inside = .word start newest →
    Token.Found read s.done ⟨.word (String.ofList newest.reverse), start⟩ []

namespace Cuts

theorem start : Cuts [] {} where
  position := rfl
  comment := ⟨nofun, nofun⟩
  gap := nofun
  characters := rfl
  done newer t older same := by simp at same
  word := nofun

/-- The word under way is finished by what cannot continue it. -/
theorem finished (cuts : s.Cuts read) (ends : ¬ Plain c) :
    Token.Finished (read ++ [c]) s.flush := by
  unfold flush
  cases inside : s.inside with
  | word start newest =>
    exact cuts.done.snoc.cons ((cuts.word start newest inside).snoc fun _ _ _ => ends) (by simp)
  | gap | comment => exact cuts.done.snoc

/-- No comment opens but at a semicolon. -/
theorem shown (cuts : s.Cuts read) (outside : s.inside ≠ .comment) (other : c ≠ ';') :
    ';' ∉ lastLine (read ++ [c]) := by
  rw [Text.lastLine_snoc]
  split
  · simp
  · simpa [Ne.symm other] using mt cuts.comment.mpr outside

section

variable {position : Position} {done : List Token} (placed : position = .behind read)
  (finished : Token.Finished read done)

include placed finished

theorem in_comment (hidden : ';' ∈ lastLine read)
    (all : Token.characters done.reverse = visible read) : Cuts read ⟨position, .comment, done⟩ where
  position := placed
  comment := iff_of_true rfl hidden
  gap := nofun
  characters := all
  done := finished
  word := nofun

theorem in_gap (shown : ';' ∉ lastLine read) (ends : ∀ c ∈ read.getLast?, ¬ Plain c)
    (all : Token.characters done.reverse = visible read) : Cuts read ⟨position, .gap, done⟩ where
  position := placed
  comment := iff_of_false nofun shown
  gap _ := ends
  characters := all
  done := finished
  word := nofun

theorem in_word {start : Position} {newest : List Char} (shown : ';' ∉ lastLine read)
    (all : Token.characters done.reverse ++ newest.reverse = visible read)
    (word : Token.Found read done ⟨.word (String.ofList newest.reverse), start⟩ []) :
    Cuts read ⟨position, .word start newest, done⟩ where
  position := placed
  comment := iff_of_false nofun shown
  gap := nofun
  characters := by simpa [flush, Token.characters, Lexeme.text] using all
  done := finished
  word _ _ same := by
    cases same
    exact word

end

theorem feed (cuts : s.Cuts read) (fed : s.Feeds c next) : next.Cuts (read ++ [c]) := by
  have position : s.position.after c = .behind (read ++ [c]) :=
    cuts.position ▸ (Position.behind_snoc read c).symm
  have visible := Text.visible_snoc read c
  have last (ends : ¬ Plain c) : ∀ d ∈ (read ++ [c]).getLast?, ¬ Plain d := by
    simpa using ends
  cases fed with
  | hidden inside other =>
    have hidden : ';' ∈ lastLine (read ++ [c]) := by
      rw [Text.lastLine_snoc, if_neg other]
      exact List.mem_append_left _ (cuts.comment.mp inside)
    refine in_comment position cuts.done.snoc hidden ?_
    rw [visible, if_pos (.inr hidden), ← cuts.characters]
    simp only [flush, inside]
  | lineEnd inside broken =>
    subst broken
    have blank : Text.isBlank '\n' = true := by decide
    -- The line break is white space, so no word is glued to what follows it.
    refine in_gap position cuts.done.snoc (by simp [Text.lastLine_snoc]) (last (by decide)) ?_
    rw [visible, if_pos (.inl blank), ← cuts.characters]
    simp only [flush, inside]
  | hide outside opens =>
    subst opens
    have hidden : ';' ∈ lastLine (read ++ [';']) := by simp [Text.lastLine_snoc]
    refine in_comment position (cuts.finished (by decide)) hidden ?_
    rw [visible, if_pos (.inr hidden), ← cuts.characters]
  | blank outside other white =>
    have ends : ¬ Plain c := fun plain => by simp [plain.2.1] at white
    refine in_gap position (cuts.finished ends) (cuts.shown outside other) (last ends) ?_
    rw [visible, if_pos (.inl white), ← cuts.characters]
  | @delimiter lexeme outside other dark delimits =>
    have ends : ¬ Plain c := fun plain => by simp [plain.2.2] at delimits
    have shown := cuts.shown outside other
    obtain ⟨spelled, whole, wordless⟩ := Lexeme.of_delimiter? delimits
    have found : Token.Found (read ++ [c]) s.flush ⟨lexeme, s.position⟩ [] :=
      ⟨read, ⟨by simp [spelled], whole _ _, mt cuts.comment.mpr outside, cuts.position⟩,
        cuts.characters.symm⟩
    have finished := (cuts.finished ends).cons found fun word same => (wordless word same).elim
    refine in_gap position finished shown (last ends) ?_
    rw [visible, if_neg (by simp [dark, shown]), ← cuts.characters, ← spelled]
    simp [Token.characters]
  | start inside plain =>
    have outside : s.inside ≠ .comment := by simp [inside]
    have shown := cuts.shown outside plain.1
    have settled : Token.characters s.done.reverse = Text.visible read := by
      simpa [flush, inside] using cuts.characters
    refine in_word position cuts.done.snoc shown ?_ ?_
    · rw [visible, if_neg (by simp [plain.2.1, shown]), settled]
      rfl
    · exact ⟨read, ⟨by simp [Lexeme.text], .word ⟨by simp, by simpa using plain⟩
        (cuts.gap inside) (by simp), mt cuts.comment.mpr outside, cuts.position⟩, settled.symm⟩
  | @more start newest inside plain =>
    have outside : s.inside ≠ .comment := by simp [inside]
    have shown := cuts.shown outside plain.1
    refine in_word position cuts.done.snoc shown ?_ ((cuts.word _ _ inside).more plain)
    rw [visible, if_neg (by simp [plain.2.1, shown]), ← cuts.characters]
    simp [flush, inside, Token.characters, Lexeme.text]

theorem foldl {cs : List Char} (cuts : s.Cuts read) :
    (cs.foldl Scanner.feed s).Cuts (read ++ cs) := by
  induction cs generalizing s read with
  | nil => simpa using cuts
  | cons c cs ih => simpa using ih (cuts.feed (s.feeds c))

theorem found (cuts : s.Cuts read) {newer : List Token} (same : s.flush = newer ++ t :: older) :
    ∃ after, t.Found read older after := by
  have finished (newer : List Token) (rest : s.done = newer ++ t :: older) :
      ∃ after, t.Found read older after := by
    obtain ⟨after, found, _⟩ := cuts.done newer t older rest
    exact ⟨after, found⟩
  unfold flush at same
  cases inside : s.inside with
  | word start newest =>
    rw [inside] at same
    obtain ⟨rfl, last⟩ | ⟨newer, rfl, rest⟩ := List.cons_eq_append_iff.mp same
    · cases last
      exact ⟨[], cuts.word start newest inside⟩
    · exact finished newer rest
  | gap | comment =>
    rw [inside] at same
    exact finished newer same

end Cuts

end Scanner

end Vau
