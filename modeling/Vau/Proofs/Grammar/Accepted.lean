import Vau.Proofs.Grammar

/-! The reader accepts nothing but what the grammar derives, and refuses with errors of one class.

What a level stands for is a derivation of the lexemes met since it started; every token extends
it. -/

set_option autoImplicit false

namespace Vau

open Datum (Derives DerivesAll)

namespace Level

variable {l later : Level} {lexemes more : List Lexeme}

def Taken (l : Level) (lexemes : List Lexeme) : Prop :=
  match l.tail with
  | .none => DerivesAll lexemes l.items.reverse
  | .dot _ => ∃ front, lexemes = front ++ [.word "."] ∧ DerivesAll front l.items.reverse ∧
      l.items ≠ []
  | .read value => ∃ front last, lexemes = front ++ .word "." :: last ∧
      DerivesAll front l.items.reverse ∧ l.items ≠ [] ∧ Derives last value

def Covers (l : Level) (lexemes : List Lexeme) : Prop :=
  ∃ front, l.Taken front ∧ lexemes = front ++ List.replicate l.quotes.length .quote

theorem covers_start (start : Position) : Covers { start } [] :=
  ⟨[], .none, rfl⟩

theorem Covers.quote (covers : l.Covers lexemes) (position : Position) :
    (l.quote position).Covers (lexemes ++ [.quote]) := by
  obtain ⟨front, taken, rfl⟩ := covers
  refine ⟨front, taken, ?_⟩
  rw [List.append_assoc, ← List.replicate_succ']
  rfl

theorem Covers.add (covers : l.Covers lexemes) {d : Datum} (derives : Derives more d)
    {position : Position} (added : l.add position d = .ok later) : later.Covers (lexemes ++ more) := by
  obtain ⟨front, taken, rfl⟩ := covers
  -- The quote marks that wait are in front of the datum, and it takes all of them.
  have quoted := derives.quotedTimes l.quotes.length
  rw [List.append_assoc]
  unfold Level.add at added
  unfold Taken at taken
  cases tail : l.tail with
  | none =>
    rw [tail] at added taken
    cases added
    refine ⟨_, ?_, (List.append_nil _).symm⟩
    unfold Taken
    dsimp only
    rw [List.reverse_cons]
    exact taken.snoc quoted
  | dot mark =>
    rw [tail] at added taken
    obtain ⟨items, rfl, all, nonempty⟩ := taken
    cases added
    refine ⟨_, ⟨items, _, ?_, all, nonempty, quoted⟩, (List.append_nil _).symm⟩
    rw [List.append_assoc]
    rfl
  | read value =>
    rw [tail] at added
    cases added

theorem Covers.dot (covers : l.Covers lexemes) {position : Position}
    (dotted : l.dot position = .ok later) : later.Covers (lexemes ++ [.word "."]) := by
  obtain ⟨front, taken, rfl⟩ := covers
  unfold Level.dot at dotted
  unfold Taken at taken
  split at dotted
  · cases dotted
  · rename_i unquoted
    have none : l.quotes = [] := by simpa using unquoted
    split at dotted
    · cases dotted
    · rename_i items tail nonempty
      rw [tail] at taken
      cases dotted
      refine ⟨front ++ [.word "."], ⟨front, rfl, taken, nonempty⟩, ?_⟩
      simp [none]
    · cases dotted
    · cases dotted

/-- A list that closes has no quote mark waiting. -/
theorem close_eq_ok {items : List Datum} {tail : Datum} (closes : l.close = .ok (items, tail)) :
    l.quotes = [] ∧ l.items.reverse = items ∧
      (l.tail = .none ∧ tail = .nil ∨ l.tail = .read tail) := by
  unfold Level.close at closes
  split at closes
  · cases closes
  · rename_i unquoted
    have none : l.quotes = [] := List.getLast?_eq_none_iff.mp unquoted
    split at closes
    · rename_i ended
      cases closes
      exact ⟨none, rfl, .inl ⟨ended, rfl⟩⟩
    · cases closes
    · rename_i value ended
      cases closes
      exact ⟨none, rfl, .inr ended⟩

theorem Covers.close (covers : l.Covers lexemes) {items : List Datum} {tail : Datum}
    (closes : l.close = .ok (items, tail)) :
    Derives (.opening :: (lexemes ++ [.closing])) (.chain items tail) := by
  obtain ⟨front, taken, rfl⟩ := covers
  obtain ⟨none, rfl, ended⟩ := close_eq_ok closes
  rw [none, List.length_nil, List.replicate_zero, List.append_nil]
  unfold Taken at taken
  rcases ended with ⟨ended, rfl⟩ | ended
  · rw [ended] at taken
    -- The grammar has the empty list apart.
    by_cases empty : l.items.reverse = []
    · rw [empty] at taken ⊢
      cases taken
      exact .empty
    · exact .proper taken empty
  · rw [ended] at taken
    obtain ⟨items, last, rfl, all, nonempty, derives⟩ := taken
    rw [List.append_assoc]
    refine .dotted all ?_ derives
    intro empty
    exact nonempty (List.reverse_eq_nil_iff.mp empty)

/-- What is added does not make a tail where there is no dot. -/
theorem add_tail {d : Datum} {position : Position} (added : l.add position d = .ok later)
    (undotted : l.tail = .none) : later.tail = .none := by
  unfold Level.add at added
  rw [undotted] at added
  cases added
  rfl

end Level

namespace Reader

/-- The levels stand for the lexemes met so far. There is no dot outside of the lists. -/
inductive Covers : List Lexeme → Reader → Prop
  | text {lexemes : List Lexeme} {l : Level} : l.tail = .none → l.Covers lexemes →
    Covers lexemes ⟨l, []⟩
  | inside {lexemes within : List Lexeme} {l around : Level} {outer : List Level} :
    Covers lexemes ⟨around, outer⟩ → l.Covers within →
      Covers (lexemes ++ .opening :: within) ⟨l, around :: outer⟩

variable {lexemes more : List Lexeme} {l later : Level} {outer : List Level}

theorem covers_start : Covers [] {} := .text rfl (Level.covers_start .start)

/-- The innermost level may go on, but not take a dot when it is the text. -/
theorem Covers.extend (covers : Covers lexemes ⟨l, outer⟩)
    (extended : ∀ {within : List Lexeme}, l.Covers within → later.Covers (within ++ more))
    (undotted : outer = [] → l.tail = .none → later.tail = .none) :
    Covers (lexemes ++ more) ⟨later, outer⟩ := by
  cases covers with
  | text ended covers => exact .text (undotted rfl ended) (extended covers)
  | inside around covers =>
    rw [List.append_assoc]
    exact .inside around (extended covers)

theorem Covers.add (covers : Covers lexemes ⟨l, outer⟩) {d : Datum} (derives : Derives more d)
    {position : Position} (added : l.add position d = .ok later) :
    Covers (lexemes ++ more) ⟨later, outer⟩ :=
  covers.extend (fun covers => covers.add derives added) fun _ => Level.add_tail added

theorem Covers.feed {r next : Reader} {t : Token} (covers : Covers lexemes r)
    (fed : r.feed t = .ok next) : Covers (lexemes ++ [t.lexeme]) next := by
  obtain ⟨l, outer⟩ := r
  unfold Reader.feed at fed
  cases here : t.lexeme with
  | opening =>
    rw [here] at fed
    cases fed
    exact .inside covers (Level.covers_start _)
  | closing =>
    rw [here] at fed
    cases covers with
    | text => cases fed
    | inside around covers =>
      -- The list closes, and then goes to the level around it.
      rename_i lexemes within around' outer
      dsimp only at fed
      cases closes : l.close with
      | error error =>
        rw [closes] at fed
        cases fed
      | ok result =>
        obtain ⟨items, tail⟩ := result
        cases added : around'.add l.start (.chain items tail) with
        | error error =>
          rw [closes] at fed
          simp [bind, Except.bind, added] at fed
        | ok around'' =>
          rw [closes] at fed
          simp only [bind, Except.bind, added] at fed
          cases fed
          rw [List.append_assoc]
          exact around.add (covers.close closes) added
  | quote =>
    rw [here] at fed
    cases fed
    exact covers.extend (fun covers => covers.quote t.position) fun _ ended => ended
  | word text =>
    rw [here] at fed
    dsimp only at fed
    split at fed
    · rename_i dot
      rw [dot]
      split at fed
      · cases fed
      · cases dotted : l.dot t.position with
        | error error =>
          rw [dotted] at fed
          cases fed
        | ok later =>
          rw [dotted] at fed
          cases fed
          -- Outside of the lists the dot was refused above.
          exact covers.extend (fun covers => covers.dot dotted) nofun
    · rename_i other
      split at fed
      · rename_i d known
        have derives := Derives.word (Datum.denotes_of_ofWord? other known)
        cases added : l.add t.position d with
        | error error =>
          rw [added] at fed
          cases fed
        | ok later =>
          rw [added] at fed
          cases fed
          exact covers.add derives added
      · cases fed

theorem Covers.finish {r : Reader} (covers : Covers lexemes r) {data : List Datum}
    (finished : r.finish = .ok data) : DerivesAll lexemes data := by
  unfold Reader.finish at finished
  cases covers with
  | inside => cases finished
  | text ended covers =>
    rename_i l
    dsimp only at finished
    cases closes : l.close with
    | error error =>
      rw [closes] at finished
      cases finished
    | ok result =>
      rw [closes] at finished
      cases finished
      obtain ⟨front, taken, rfl⟩ := covers
      obtain ⟨none, items, _⟩ := Level.close_eq_ok closes
      unfold Level.Taken at taken
      rw [ended, items] at taken
      simpa [none] using taken

end Reader

theorem derivesAll_of_readTokens {tokens : List Token} {data : List Datum}
    (accepted : readTokens tokens = .ok data) : DerivesAll (tokens.map Token.lexeme) data := by
  unfold readTokens at accepted
  cases matched : matchDelimiters tokens with
  | error error =>
    rw [matched] at accepted
    cases accepted
  | ok pairs =>
    cases run : tokens.foldlM Reader.feed {} with
    | error error =>
      rw [matched, run] at accepted
      cases accepted
    | ok r =>
      rw [matched, run] at accepted
      have covers := Feeds.invariant run Reader.Covers.feed Reader.covers_start
      exact covers.finish accepted

theorem read_eq_ok {text : String} {file : Option String} {data : List Datum} :
    read text file = .ok data ↔ DerivesAll ((tokenize text).map Token.lexeme) data := by
  constructor
  · intro accepted
    unfold read at accepted
    cases read : readTokens (tokenize text) with
    | error error =>
      rw [read] at accepted
      cases accepted
    | ok data' =>
      rw [read] at accepted
      cases accepted
      exact derivesAll_of_readTokens read
  · intro all
    unfold read
    rw [readTokens_of_derivesAll all]
    rfl

/-! Refusals. -/

def Refuses {α : Type} (outcome : Except Error α) : Prop :=
  ∀ error, outcome = .error error → error.errorClass = .read

namespace Refuses

variable {α β : Type}

theorem ok (value : α) : Refuses (.ok value) := by
  intro error failed
  cases failed

theorem error {cause : Cause} (reading : cause.errorClass = .read) (position : Position) :
    Refuses (.error (cause.at position) : Except Error α) := by
  rintro _ ⟨⟩
  exact reading

theorem bind {outcome : Except Error α} {next : α → Except Error β} (first : Refuses outcome)
    (following : ∀ value, Refuses (next value)) : Refuses (outcome >>= next) := by
  intro error failed
  cases outcome with
  | error other =>
    cases failed
    exact first error rfl
  | ok value => exact following value error failed

theorem foldlM {State : Type} {feed : State → Token → Except Error State}
    (each : ∀ state t, Refuses (feed state t)) (tokens : List Token) (state : State) :
    Refuses (tokens.foldlM feed state) := by
  induction tokens generalizing state with
  | nil => exact .ok state
  | cons t tokens ih =>
    rw [List.foldlM_cons]
    exact (each state t).bind fun next => ih next

end Refuses

namespace Level

variable (l : Level)

theorem add_refuses (position : Position) (d : Datum) : Refuses (l.add position d) := by
  unfold Level.add
  cases l.tail with
  | none | dot => exact .ok _
  | read => exact .error rfl position

theorem dot_refuses (position : Position) : Refuses (l.dot position) := by
  unfold Level.dot
  split
  · exact .error rfl position
  · split
    · exact .error rfl position
    · exact .ok _
    · exact .error rfl position
    · exact .error rfl position

theorem close_refuses : Refuses l.close := by
  unfold Level.close
  split
  · exact .error rfl _
  · cases l.tail with
    | none | read => exact .ok _
    | dot position => exact .error rfl position

end Level

theorem Matching.feed_refuses (m : Matching) (t : Token) : Refuses (m.feed t) := by
  unfold Matching.feed
  cases t.lexeme with
  | opening | quote | word => exact .ok _
  | closing =>
    dsimp only
    split
    · exact .ok _
    · exact .error rfl t.position

theorem Reader.feed_refuses (r : Reader) (t : Token) : Refuses (r.feed t) := by
  obtain ⟨l, outer⟩ := r
  unfold Reader.feed
  cases t.lexeme with
  | opening | quote => exact .ok _
  | closing =>
    cases outer with
    | nil => exact .error rfl t.position
    | cons around outer =>
      exact l.close_refuses.bind fun _ => (around.add_refuses _ _).bind fun _ => .ok _
  | word text =>
    dsimp only
    split
    · cases outer with
      | nil => exact .error rfl t.position
      | cons => exact (l.dot_refuses _).bind fun _ => .ok _
    · split
      · exact (l.add_refuses _ _).bind fun _ => .ok _
      · exact .error rfl t.position

theorem Reader.finish_refuses (r : Reader) : Refuses r.finish := by
  obtain ⟨l, outer⟩ := r
  cases outer with
  | nil => exact l.close_refuses.bind fun _ => .ok _
  | cons => exact .error rfl _

theorem matchDelimiters_refuses (tokens : List Token) : Refuses (matchDelimiters tokens) := by
  refine (Refuses.foldlM Matching.feed_refuses tokens {}).bind fun m => ?_
  split
  · exact .error rfl _
  · exact .ok _

theorem read_refuses (text : String) (file : Option String) : Refuses (read text file) := by
  have tokens : Refuses (readTokens (tokenize text)) :=
    (matchDelimiters_refuses _).bind fun _ =>
      (Refuses.foldlM Reader.feed_refuses _ _).bind Reader.finish_refuses
  intro error failed
  unfold read at failed
  cases read : readTokens (tokenize text) with
  | ok data =>
    rw [read] at failed
    cases failed
  | error raised =>
    rw [read] at failed
    cases failed
    exact tokens raised read

/-- A text is read if and only if its tokens derive from the grammar, and then as the trees of the
derivation. Whatever else is met is refused as an error of reading. -/
theorem read_exactly_grammar (text : String) (file : Option String) :
    (∀ data, read text file = .ok data ↔ DerivesAll ((tokenize text).map Token.lexeme) data) ∧
      ((¬∃ data, DerivesAll ((tokenize text).map Token.lexeme) data) ↔
        ∃ error, read text file = .error error ∧ error.errorClass = .read) := by
  refine ⟨fun data => read_eq_ok, ?_⟩
  constructor
  · intro underivable
    cases outcome : read text file with
    | ok data => exact (underivable ⟨data, read_eq_ok.mp outcome⟩).elim
    | error error => exact ⟨error, rfl, read_refuses text file error outcome⟩
  · rintro ⟨error, refused, _⟩ ⟨data, all⟩
    cases (read_eq_ok.mpr all).symm.trans refused

example : read "(a . ('b (-0 . +7)))" none =
    .ok [.list [.symbol "a", .list [.symbol "$quote", .symbol "b"], .pair (.int 0) (.int 7)]] := by
  decide +kernel

end Vau
