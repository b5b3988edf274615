import Vau.Proofs.Grammar.Written
import Vau.Proofs.Syntax

/-! Texts that more input can complete.

At the end of a line the scanner is in a gap, so what is added later leaves the tokens in front of
it as they are. A text of whole lines can be completed if and only if the reader takes its tokens
and has a place for every datum that must still come: one behind quote marks or a dot, and the lists
that are under way. -/

set_option autoImplicit false

namespace Vau

/-! Tokens of a text that is added to. -/

namespace Scanner

variable {s : Scanner}

theorem done_suffix_flush (s : Scanner) : s.done <:+ s.flush := by
  unfold flush
  cases s.inside with
  | word start newest => exact List.suffix_cons _ _
  | gap | comment => exact List.suffix_rfl

theorem done_suffix_feed (s : Scanner) (c : Char) : s.done <:+ (s.feed c).done := by
  have flushed := s.done_suffix_flush
  unfold feed
  split
  · exact List.suffix_rfl
  · split
    · exact flushed
    · split
      · exact flushed
      · split
        · exact flushed.trans (List.suffix_cons _ _)
        · split <;> exact List.suffix_rfl

theorem done_suffix_foldl (cs : List Char) (s : Scanner) : s.done <:+ (cs.foldl feed s).done := by
  induction cs generalizing s with
  | nil => exact List.suffix_rfl
  | cons c cs ih => exact (s.done_suffix_feed c).trans (ih (s.feed c))

/-- In a gap no word is under way that what follows could make longer. -/
theorem tokens_prefix_foldl (gap : s.inside = .gap) (cs : List Char) :
    s.tokens <+: (cs.foldl feed s).tokens := by
  have settled : s.flush = s.done := by
    unfold flush
    rw [gap]
  unfold tokens
  rw [List.reverse_prefix, settled]
  exact (done_suffix_foldl cs s).trans (done_suffix_flush _)

theorem feed_newline (s : Scanner) : (s.feed '\n').inside = .gap := by
  have other : ('\n' : Char) ≠ ';' := by decide
  have blank : Text.isBlank '\n' = true := by decide
  by_cases commented : s.inside = .comment
  · simp [feed, commented]
  · exact (feed_blank commented other blank).1

def atLineEnd (text : String) : Scanner := (text ++ "\n").toList.foldl feed {}

theorem inside_atLineEnd (text : String) : (atLineEnd text).inside = .gap := by
  have spelled : (text ++ "\n").toList = text.toList ++ ['\n'] := by simp [String.toList_append]
  unfold atLineEnd
  rw [spelled, List.foldl_append]
  exact feed_newline _

theorem tokenize_eq (text more : String) :
    tokenize (text ++ "\n" ++ more) = (more.toList.foldl feed (atLineEnd text)).tokens := by
  unfold tokenize atLineEnd
  rw [String.toList_append, List.foldl_append]

theorem scans_closings (uncommented : s.inside ≠ .comment) (n : Nat) :
    s.Scans (List.replicate n ')') (List.replicate n .closing) := by
  induction n generalizing s with
  | zero => exact ⟨uncommented, (List.append_nil _).symm⟩
  | succ n ih =>
    have first := scans_closing uncommented
    exact first.append (ih first.1)

end Scanner

theorem tokenize_prefix (text more : String) :
    tokenize (text ++ "\n") <+: tokenize (text ++ "\n" ++ more) := by
  rw [Scanner.tokenize_eq]
  exact Scanner.tokens_prefix_foldl (Scanner.inside_atLineEnd text) _

/-! What one token does to a reader. -/

namespace Reader

inductive Takes (t : Token) : Reader → Reader → Prop
  | opening {l : Level} {outer : List Level} : t.lexeme = .opening →
    Takes t ⟨l, outer⟩ ⟨{ start := t.position }, l :: outer⟩
  | closing {l around later : Level} {outer : List Level} {items : List Datum} {tail : Datum} :
    t.lexeme = .closing → l.close = .ok (items, tail) →
      around.add l.start (.chain items tail) = .ok later →
      Takes t ⟨l, around :: outer⟩ ⟨later, outer⟩
  | quote {l : Level} {outer : List Level} : t.lexeme = .quote →
    Takes t ⟨l, outer⟩ ⟨l.quote t.position, outer⟩
  | dot {l later : Level} {outer : List Level} : t.lexeme = .word "." →
    l.dot t.position = .ok later → Takes t ⟨l, outer⟩ ⟨later, outer⟩
  | word {l later : Level} {outer : List Level} {text : String} {d : Datum} :
    t.lexeme = .word text → l.add t.position d = .ok later → Takes t ⟨l, outer⟩ ⟨later, outer⟩

theorem takes_of_feed {r next : Reader} {t : Token} (fed : r.feed t = .ok next) :
    Takes t r next := by
  obtain ⟨l, outer⟩ := r
  unfold feed at fed
  split at fed
  · rename_i here
    cases fed
    exact .opening here
  · rename_i here
    split at fed
    · rename_i around outer' same
      cases same
      obtain ⟨⟨items, tail⟩, closes, fed⟩ := Except.bind_eq_ok.mp fed
      obtain ⟨later, added, fed⟩ := Except.bind_eq_ok.mp fed
      cases fed
      exact .closing here closes added
    · cases fed
  · rename_i here
    cases fed
    exact .quote here
  · rename_i text here
    split at fed
    · rename_i dot
      split at fed
      · cases fed
      · obtain ⟨later, dotted, fed⟩ := Except.bind_eq_ok.mp fed
        cases fed
        exact .dot (here.trans (congrArg Lexeme.word dot)) dotted
    · split at fed
      · obtain ⟨later, added, fed⟩ := Except.bind_eq_ok.mp fed
        cases fed
        exact .word here added
      · cases fed

end Reader

/-! Readers that can be completed. -/

namespace Level

/-- Any quote marks that wait have a place for their datum. -/
def Completable (l : Level) : Prop := l.quotes ≠ [] → l.Open

def awaits (l : Level) : Bool :=
  !l.quotes.isEmpty || match l.tail with
    | .dot _ => true
    | .none | .read _ => false

def Closable (l : Level) : Prop := ∃ result, l.close = .ok result

variable {l later : Level} {position : Position} {d : Datum}

theorem open_of_add (added : l.add position d = .ok later) : l.Open := by
  intro value ended
  unfold add at added
  rw [ended] at added
  cases added

theorem quotes_of_dot (dotted : l.dot position = .ok later) : l.quotes = [] := by
  unfold dot at dotted
  split at dotted
  · cases dotted
  · rename_i unquoted
    simpa using unquoted

theorem open_of_awaits (completable : l.Completable) (awaits : l.awaits) : l.Open := by
  by_cases unquoted : l.quotes = []
  · intro value ended
    simp [Level.awaits, unquoted, ended] at awaits
  · exact completable unquoted

theorem closable_taken (isOpen : l.Open) (d : Datum) : (l.taken d).Closable := by
  unfold taken Closable close
  cases tail : l.tail with
  | none => exact ⟨_, rfl⟩
  | dot position => exact ⟨_, rfl⟩
  | read value => exact (isOpen value tail).elim

theorem closable_of_not_awaits (done : l.awaits = false) : l.Closable := by
  unfold awaits at done
  obtain ⟨unquoted, undotted⟩ := Bool.or_eq_false_iff.mp done
  have none : l.quotes = [] := by simpa using unquoted
  unfold Closable close
  cases tail : l.tail with
  | none | read value => simp [none]
  | dot position => simp [tail] at undotted

end Level

namespace Reader

/-- Every datum that must still come has a place. -/
structure Completable (r : Reader) : Prop where
  inner : r.inner.Completable
  outer : ∀ l ∈ r.outer, l.Open

/-- What has no place never gets one. -/
theorem Takes.completable {r next : Reader} {t : Token} (takes : Takes t r next)
    (completable : next.Completable) : r.Completable := by
  obtain ⟨inner, outer⟩ := completable
  cases takes with
  | opening =>
    obtain ⟨isOpen, outer⟩ := List.forall_mem_cons.mp outer
    exact ⟨fun _ => isOpen, outer⟩
  | closing _ closes added =>
    have unquoted := (Level.close_eq_ok closes).1
    exact ⟨fun quoted => (quoted unquoted).elim,
      List.forall_mem_cons.mpr ⟨Level.open_of_add added, outer⟩⟩
  | quote => exact ⟨fun _ => inner (List.cons_ne_nil _ _), outer⟩
  | dot _ dotted =>
    have unquoted := Level.quotes_of_dot dotted
    exact ⟨fun quoted => (quoted unquoted).elim, outer⟩
  | word _ added => exact ⟨fun _ => Level.open_of_add added, outer⟩

theorem completable_of_finish {tokens : List Token} {r last : Reader} {data : List Datum}
    (fed : Feeds feed tokens r last) (finished : last.finish = .ok data) : r.Completable := by
  induction tokens generalizing r with
  | nil =>
    obtain ⟨l, outer⟩ := last
    cases fed
    cases outer with
    | nil =>
      obtain ⟨_, closes, _⟩ := Except.bind_eq_ok.mp finished
      exact ⟨fun quoted => (quoted (Level.close_eq_ok closes).1).elim, nofun⟩
    | cons => cases finished
  | cons t tokens ih =>
    obtain ⟨next, first, rest⟩ := Except.bind_eq_ok.mp fed
    exact (takes_of_feed first).completable (ih rest)

/-- The lexemes that are missing, with some symbol for a datum. -/
def completion (r : Reader) : List Lexeme :=
  (if r.inner.awaits then [.word "x"] else []) ++ List.replicate r.outer.length .closing

def completionText (r : Reader) : String :=
  String.ofList ((if r.inner.awaits then ['x'] else []) ++ List.replicate r.outer.length ')')

theorem scans_completion (r : Reader) {s : Scanner} (gap : s.inside = .gap) :
    s.Scans r.completionText.toList r.completion := by
  unfold completionText completion
  rw [String.toList_ofList]
  split
  · have unbroken : Unbroken "x" := by decide
    have word : s.Scans ['x'] [.word "x"] := Scanner.scans_word gap unbroken
    exact word.append (Scanner.scans_closings word.1 _)
  · exact Scanner.scans_closings (by simp [gap]) _

/-- Each list that closes is a datum for the level around it. -/
theorem feeds_closings {outer : List Level} (isOpen : ∀ l ∈ outer, l.Open) {inner : Level}
    (closable : inner.Closable) {tokens : List Token}
    (spelled : tokens.map Token.lexeme = List.replicate outer.length .closing) :
    ∃ last : Level, Feeds feed tokens ⟨inner, outer⟩ ⟨last, []⟩ ∧ last.Closable := by
  induction outer generalizing inner tokens with
  | nil =>
    cases List.map_eq_nil_iff.mp spelled
    exact ⟨inner, .nil, closable⟩
  | cons around outer ih =>
    obtain ⟨here, isOpen⟩ := List.forall_mem_cons.mp isOpen
    obtain ⟨t, tokens, rfl, closing, spelled⟩ := List.map_eq_cons_iff.mp spelled
    obtain ⟨⟨items, tail⟩, closes⟩ := closable
    obtain ⟨last, fed, closable⟩ := ih isOpen (Level.closable_taken here _) spelled
    refine ⟨last, .cons ?_ fed, closable⟩
    rw [feed_closing closing closes, Level.add_eq here]
    rfl

theorem Completable.feeds {r : Reader} (completable : r.Completable) {tokens : List Token}
    (spelled : tokens.map Token.lexeme = r.completion) :
    ∃ last : Level, Feeds feed tokens r ⟨last, []⟩ ∧ last.Closable := by
  obtain ⟨inner, outer⟩ := r
  unfold completion at spelled
  dsimp only at spelled
  split at spelled
  · rename_i awaits
    obtain ⟨t, tokens, rfl, word, spelled⟩ := List.map_eq_cons_iff.mp spelled
    have isOpen := Level.open_of_awaits completable.inner awaits
    have name : Datum.IsName "x" := by decide
    have taken := Level.closable_taken isOpen (.symbol "x")
    obtain ⟨last, fed, closable⟩ := feeds_closings completable.outer taken spelled
    refine ⟨last, .cons ?_ fed, closable⟩
    rw [feed_word word name.denotes, Level.add_eq isOpen]
    rfl
  · rename_i done
    have closable := Level.closable_of_not_awaits (Bool.eq_false_iff.mpr done)
    exact feeds_closings completable.outer closable spelled

end Reader

/-! Both together. -/

def WellBegun (tokens : List Token) : Prop :=
  ∃ r, Feeds Reader.feed tokens {} r ∧ r.Completable

theorem feeds_of_read {text : String} {file : Option String} {data : List Datum}
    (accepted : read text file = .ok data) :
    ∃ r, Feeds Reader.feed (tokenize text) {} r ∧ r.finish = .ok data := by
  have read : readTokens (tokenize text) = .ok data := Except.mapError_eq_ok.mp accepted
  obtain ⟨_, _, read⟩ := Except.bind_eq_ok.mp read
  obtain ⟨r, fed, finished⟩ := Except.bind_eq_ok.mp read
  exact ⟨r, fed, finished⟩

theorem wellBegun_of_read {text more : String} {file : Option String} {data : List Datum}
    (accepted : read (text ++ "\n" ++ more) file = .ok data) :
    WellBegun (tokenize (text ++ "\n")) := by
  obtain ⟨rest, whole⟩ := tokenize_prefix text more
  obtain ⟨last, fed, finished⟩ := feeds_of_read accepted
  unfold Feeds at fed
  rw [← whole, List.foldlM_append] at fed
  obtain ⟨r, first, rest⟩ := Except.bind_eq_ok.mp fed
  exact ⟨r, first, Reader.completable_of_finish rest finished⟩

theorem read_completion {text : String} {r : Reader}
    (fed : Feeds Reader.feed (tokenize (text ++ "\n")) {} r) (completable : r.Completable)
    (file : Option String) : ∃ data, read (text ++ "\n" ++ r.completionText) file = .ok data := by
  have scanned := r.scans_completion (Scanner.inside_atLineEnd text)
  obtain ⟨rest, whole⟩ := tokenize_prefix text r.completionText
  -- The tokens that are added spell the completion.
  have spelled : rest.map Token.lexeme = r.completion := by
    have lexemes := scanned.2
    unfold Scanner.lexemes at lexemes
    rw [← Scanner.tokenize_eq, ← whole, List.map_append] at lexemes
    exact List.append_cancel_left lexemes
  obtain ⟨last, closed, ⟨items, tail⟩, closes⟩ := completable.feeds spelled
  have fed : Feeds Reader.feed (tokenize (text ++ "\n" ++ r.completionText)) {} ⟨last, []⟩ :=
    whole ▸ fed.append closed
  have finished : (⟨last, []⟩ : Reader).finish = .ok items := by
    unfold Reader.finish
    rw [closes]
    rfl
  have covers := fed.invariant Reader.Covers.feed Reader.covers_start
  exact ⟨items, read_eq_ok.mpr (covers.finish finished)⟩

/-- A text of whole lines can be completed if and only if it is well begun. -/
theorem wellBegun_iff_completed (text : String) (file : Option String) :
    WellBegun (tokenize (text ++ "\n")) ↔
      ∃ more data, read (text ++ "\n" ++ more) file = .ok data := by
  constructor
  · rintro ⟨r, fed, completable⟩
    exact ⟨_, read_completion fed completable file⟩
  · rintro ⟨more, data, accepted⟩
    exact wellBegun_of_read accepted

/-! Of what is well begun, only the end may be missing. -/

namespace Reader

/-- As many parentheses are open as lists are under way. -/
theorem Takes.matching {r next : Reader} {t : Token} (takes : Takes t r next) {m : Matching}
    (level : m.opened.length = r.outer.length) :
    ∃ later, m.feed t = .ok later ∧ later.opened.length = next.outer.length := by
  obtain ⟨index, opened, pairs⟩ := m
  dsimp only at level
  cases takes with
  | opening here => exact ⟨_, by rw [Matching.feed, here], congrArg (· + 1) level⟩
  | closing here =>
    cases opened with
    | nil => cases level
    | cons first opened => exact ⟨_, by rw [Matching.feed, here], Nat.succ.inj level⟩
  | quote here => exact ⟨_, by rw [Matching.feed, here], level⟩
  | dot here | word here => exact ⟨_, by rw [Matching.feed, here], level⟩

theorem matching_of_feeds {tokens : List Token} {r last : Reader} (fed : Feeds feed tokens r last)
    {m : Matching} (level : m.opened.length = r.outer.length) :
    ∃ later, Feeds Matching.feed tokens m later ∧ later.opened.length = last.outer.length := by
  induction tokens generalizing r m with
  | nil =>
    cases fed
    exact ⟨m, .nil, level⟩
  | cons t tokens ih =>
    obtain ⟨next, first, rest⟩ := Except.bind_eq_ok.mp fed
    obtain ⟨middle, moved, level⟩ := (takes_of_feed first).matching level
    obtain ⟨later, following, level⟩ := ih rest level
    exact ⟨later, .cons moved following, level⟩

end Reader

/-- Something is missing at the end of the text. -/
inductive Cause.Awaits : Cause → Prop
  | unclosed : Awaits .unclosedDelimiter
  | quotes (marks : String) : Awaits (.trailingQuotes marks)

theorem Level.awaits_of_close {l : Level} {error : Error} (undotted : l.tail = .none)
    (refused : l.close = .error error) : error.cause.Awaits := by
  unfold close at refused
  split at refused
  · cases refused
    exact .quotes _
  · rw [undotted] at refused
    cases refused

theorem Reader.Covers.awaits {lexemes : List Lexeme} {r : Reader} (covers : Covers lexemes r)
    {error : Error} (refused : r.finish = .error error) : error.cause.Awaits := by
  cases covers with
  | inside =>
    cases refused
    exact .unclosed
  | @text _ l undotted =>
    change (l.close >>= fun result => .ok result.1) = .error error at refused
    cases closes : l.close with
    | error raised =>
      rw [closes] at refused
      cases refused
      exact Level.awaits_of_close undotted closes
    | ok result =>
      rw [closes] at refused
      cases refused

theorem awaits_of_feeds {text : String} {file : Option String} {r : Reader}
    (fed : Feeds Reader.feed (tokenize text) {} r) {error : Error}
    (refused : read text file = .error error) : error.cause.Awaits := by
  have covers := fed.invariant Reader.Covers.feed Reader.covers_start
  obtain ⟨m, moved, level⟩ := Reader.matching_of_feeds fed (m := {}) rfl
  unfold read readTokens matchDelimiters at refused
  unfold Feeds at fed moved
  rw [moved, fed] at refused
  cases opened : m.opened with
  | cons first rest =>
    simp only [bind, Except.bind, opened, Except.mapError] at refused
    cases refused
    exact .unclosed
  | nil =>
    simp only [bind, Except.bind, opened] at refused
    cases finished : r.finish with
    | ok data =>
      rw [finished] at refused
      cases refused
    | error raised =>
      rw [finished] at refused
      cases refused
      have awaits := covers.awaits finished
      exact awaits

end Vau
