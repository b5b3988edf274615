import Vau.Proofs.Grammar.Word

/-! The grammar of data, and that the reader accepts exactly what it derives.

The reader keeps one level for each list that is under way. What a level has read so far is derived
item by item; what it still waits for is a dot or quote marks. -/

set_option autoImplicit false

namespace Vau

namespace Datum

mutual

/-- The grammar of a datum, with the tree that it stands for. -/
inductive Derives : List Lexeme → Datum → Prop
  | word {text : String} {d : Datum} : Denotes text d → Derives [.word text] d
  | quote {lexemes : List Lexeme} {d : Datum} : Derives lexemes d →
    Derives (.quote :: lexemes) (list [symbol "$quote", d])
  | empty : Derives [.opening, .closing] nil
  | proper {lexemes : List Lexeme} {items : List Datum} : DerivesAll lexemes items → items ≠ [] →
    Derives (.opening :: (lexemes ++ [.closing])) (list items)
  | dotted {lexemes behind : List Lexeme} {items : List Datum} {tail : Datum} :
    DerivesAll lexemes items → items ≠ [] → Derives behind tail →
    Derives (.opening :: (lexemes ++ .word "." :: (behind ++ [.closing]))) (chain items tail)

inductive DerivesAll : List Lexeme → List Datum → Prop
  | none : DerivesAll [] []
  | more {lexemes rest : List Lexeme} {d : Datum} {items : List Datum} : Derives lexemes d →
    DerivesAll rest items → DerivesAll (lexemes ++ rest) (d :: items)

end

theorem DerivesAll.append {lexemes rest : List Lexeme} {items more : List Datum}
    (first : DerivesAll lexemes items) (later : DerivesAll rest more) :
    DerivesAll (lexemes ++ rest) (items ++ more) := by
  induction items generalizing lexemes with
  | nil =>
    cases first
    exact later
  | cons d items ih =>
    cases first with
    | more here following =>
      rw [List.append_assoc]
      exact .more here (ih following)

theorem DerivesAll.snoc {lexemes last : List Lexeme} {items : List Datum} {d : Datum}
    (first : DerivesAll lexemes items) (derives : Derives last d) :
    DerivesAll (lexemes ++ last) (items ++ [d]) := by
  have single : DerivesAll (last ++ []) [d] := .more derives .none
  rw [List.append_nil] at single
  exact first.append single

theorem quotedTimes_quoted (n : Nat) (d : Datum) :
    quotedTimes n (quoted d) = quotedTimes (n + 1) d := by
  induction n with
  | zero => rfl
  | succ n ih => exact congrArg quoted ih

theorem Derives.quotedTimes {lexemes : List Lexeme} {d : Datum} (derives : Derives lexemes d)
    (n : Nat) : Derives (List.replicate n .quote ++ lexemes) (d.quotedTimes n) := by
  induction n with
  | zero => exact derives
  | succ n ih => exact .quote ih

end Datum

open Datum (Derives DerivesAll)

/-! What the grammar derives is accepted. -/

namespace Level

def Open (l : Level) : Prop := ∀ value, l.tail ≠ .read value

def quote (l : Level) (position : Position) : Level :=
  { l with quotes := position :: l.quotes }

def taken (l : Level) (d : Datum) : Level :=
  let d := d.quotedTimes l.quotes.length
  match l.tail with
  | .none => { l with items := d :: l.items, quotes := [] }
  | .dot _ | .read _ => { l with tail := .read d, quotes := [] }

theorem add_eq {l : Level} (isOpen : l.Open) (position : Position) (d : Datum) :
    l.add position d = .ok (l.taken d) := by
  unfold add taken
  cases tail : l.tail with
  | none => rfl
  | dot position => rfl
  | read value => exact (isOpen value tail).elim

theorem taken_quote (l : Level) (position : Position) (d : Datum) :
    (l.quote position).taken d = l.taken d.quoted := by
  unfold taken quote
  dsimp only [List.length_cons]
  rw [Datum.quotedTimes_quoted]

def ofItems (start : Position) (items : List Datum) : Level := { start, items := items.reverse }

theorem open_ofItems (start : Position) (items : List Datum) : (ofItems start items).Open := nofun

theorem taken_ofItems (start : Position) (items : List Datum) (d : Datum) :
    (ofItems start items).taken d = ofItems start (items ++ [d]) := by
  simp [taken, ofItems, Datum.quotedTimes]

theorem close_ofItems (start : Position) (items : List Datum) :
    (ofItems start items).close = .ok (items, .nil) := by
  simp [close, ofItems]

theorem dot_ofItems (start position : Position) {items : List Datum} (nonempty : items ≠ []) :
    (ofItems start items).dot position = .ok { ofItems start items with tail := .dot position } := by
  unfold dot ofItems
  cases reversed : items.reverse with
  | nil => exact (nonempty (List.reverse_eq_nil_iff.mp reversed)).elim
  | cons first rest => rfl

theorem close_taken_dot (start position : Position) (items : List Datum) (d : Datum) :
    (({ ofItems start items with tail := .dot position } : Level).taken d).close =
      .ok (items, d) := by
  simp [taken, close, ofItems, Datum.quotedTimes]

end Level

namespace Reader

variable {level around : Level} {outer : List Level} {t : Token}

theorem feed_opening (here : t.lexeme = .opening) :
    feed ⟨level, outer⟩ t = .ok ⟨.ofItems t.position [], level :: outer⟩ := by
  unfold feed
  rw [here]
  rfl

theorem feed_quote (here : t.lexeme = .quote) :
    feed ⟨level, outer⟩ t = .ok ⟨level.quote t.position, outer⟩ := by
  unfold feed
  rw [here]
  rfl

theorem feed_word {text : String} (here : t.lexeme = .word text) {d : Datum}
    (denotes : Datum.Denotes text d) :
    feed ⟨level, outer⟩ t = (level.add t.position d).map fun level => ⟨level, outer⟩ := by
  have other : text ≠ Keyword.dot.spelling := denotes.ne_dot
  unfold feed
  rw [here]
  dsimp only
  rw [if_neg other, denotes.ofWord?]
  change (do .ok (Reader.mk (← level.add t.position d) outer)) = _
  cases level.add t.position d <;> rfl

theorem feed_dot (here : t.lexeme = .word ".") :
    feed ⟨level, around :: outer⟩ t =
      (level.dot t.position).map fun level => ⟨level, around :: outer⟩ := by
  unfold feed
  rw [here]
  change (do .ok (Reader.mk (← level.dot t.position) (around :: outer))) = _
  cases level.dot t.position <;> rfl

theorem feed_closing (here : t.lexeme = .closing) {items : List Datum} {tail : Datum}
    (closes : level.close = .ok (items, tail)) :
    feed ⟨level, around :: outer⟩ t =
      (around.add level.start (.chain items tail)).map fun around => ⟨around, outer⟩ := by
  unfold feed
  rw [here]
  dsimp only
  rw [closes]
  change (do .ok (Reader.mk (← around.add level.start (.chain items tail)) outer)) = _
  cases around.add level.start (.chain items tail) <;> rfl

end Reader

def Feeds {State : Type} (feed : State → Token → Except Error State) (tokens : List Token)
    (state later : State) : Prop :=
  tokens.foldlM feed state = .ok later

namespace Feeds

variable {State : Type} {feed : State → Token → Except Error State} {state middle later : State}
  {t : Token} {tokens rest : List Token}

theorem nil : Feeds feed [] state state := rfl

theorem append (first : Feeds feed tokens state middle) (following : Feeds feed rest middle later) :
    Feeds feed (tokens ++ rest) state later := by
  unfold Feeds at *
  rw [List.foldlM_append, first]
  exact following

theorem cons (first : feed state t = .ok middle) (following : Feeds feed rest middle later) :
    Feeds feed (t :: rest) state later := by
  unfold Feeds at *
  rw [List.foldlM_cons, first]
  exact following

theorem single (first : feed state t = .ok later) : Feeds feed [t] state later :=
  .cons first .nil

/-- What each token preserves holds after all of them; `seen` are the lexemes met so far. -/
theorem invariant {holds : List Lexeme → State → Prop} (fed : Feeds feed tokens state later)
    (step : ∀ {seen : List Lexeme} {state next : State} {t : Token}, holds seen state →
      feed state t = .ok next → holds (seen ++ [t.lexeme]) next)
    {seen : List Lexeme} (first : holds seen state) :
    holds (seen ++ tokens.map Token.lexeme) later := by
  unfold Feeds at fed
  induction tokens generalizing state seen with
  | nil =>
    cases fed
    simpa using first
  | cons t tokens ih =>
    rw [List.foldlM_cons] at fed
    cases moved : feed state t with
    | error error =>
      rw [moved] at fed
      cases fed
    | ok next =>
      rw [moved] at fed
      rw [List.map_cons, List.append_cons]
      exact ih fed (step first moved)

end Feeds

mutual

theorem Datum.Derives.feeds : ∀ {lexemes : List Lexeme} {d : Datum}, Derives lexemes d →
    ∀ {tokens : List Token}, tokens.map Token.lexeme = lexemes →
      ∀ (level : Level) (outer : List Level), level.Open →
        Feeds Reader.feed tokens ⟨level, outer⟩ ⟨level.taken d, outer⟩
  | _, d, .word denotes, tokens, spelled, level, outer, isOpen => by
    obtain ⟨t, rfl, here⟩ := List.map_eq_singleton_iff.mp spelled
    apply Feeds.single
    rw [Reader.feed_word here denotes, Level.add_eq isOpen]
    rfl
  | _, _, .quote derives, tokens, spelled, level, outer, isOpen => by
    obtain ⟨t, rest, rfl, here, spelled⟩ := List.map_eq_cons_iff.mp spelled
    have inner := derives.feeds spelled (level.quote t.position) outer isOpen
    rw [Level.taken_quote] at inner
    exact .cons (Reader.feed_quote here) inner
  | _, _, .empty, tokens, spelled, level, outer, isOpen => by
    obtain ⟨t, rest, rfl, opening, spelled⟩ := List.map_eq_cons_iff.mp spelled
    obtain ⟨u, rfl, closing⟩ := List.map_eq_singleton_iff.mp spelled
    apply Feeds.cons (Reader.feed_opening opening)
    apply Feeds.single
    rw [Reader.feed_closing closing (Level.close_ofItems t.position []), Level.add_eq isOpen]
    rfl
  | _, _, .proper all _, tokens, spelled, level, outer, isOpen => by
    obtain ⟨t, rest, rfl, opening, spelled⟩ := List.map_eq_cons_iff.mp spelled
    obtain ⟨within, last, rfl, inside, ends⟩ := List.map_eq_append_iff.mp spelled
    obtain ⟨u, rfl, closing⟩ := List.map_eq_singleton_iff.mp ends
    have filled := all.feeds inside t.position [] (level :: outer)
    apply Feeds.cons (Reader.feed_opening opening)
    apply filled.append
    apply Feeds.single
    rw [Reader.feed_closing closing (Level.close_ofItems t.position _), Level.add_eq isOpen]
    rfl
  | _, _, @Derives.dotted _ _ items tail all nonempty behind, tokens, spelled, level, outer,
      isOpen => by
    obtain ⟨t, rest, rfl, opening, spelled⟩ := List.map_eq_cons_iff.mp spelled
    obtain ⟨within, later, rfl, inside, more⟩ := List.map_eq_append_iff.mp spelled
    obtain ⟨v, last, rfl, dot, more⟩ := List.map_eq_cons_iff.mp more
    obtain ⟨following, final, rfl, after, ends⟩ := List.map_eq_append_iff.mp more
    obtain ⟨u, rfl, closing⟩ := List.map_eq_singleton_iff.mp ends
    -- The dot turns the level into one that takes a single datum, and then closes.
    let dotted : Level := { Level.ofItems t.position items with tail := .dot v.position }
    have filled := all.feeds inside t.position [] (level :: outer)
    have tailed := behind.feeds after dotted (level :: outer) nofun
    have turned : Reader.feed ⟨.ofItems t.position items, level :: outer⟩ v =
        .ok ⟨dotted, level :: outer⟩ := by
      rw [Reader.feed_dot dot, Level.dot_ofItems t.position v.position nonempty]
      rfl
    have closed : Reader.feed ⟨dotted.taken tail, level :: outer⟩ u =
        .ok ⟨level.taken (.chain items tail), outer⟩ := by
      rw [Reader.feed_closing closing (Level.close_taken_dot t.position v.position items tail),
        Level.add_eq isOpen]
      rfl
    exact .cons (Reader.feed_opening opening)
      (filled.append (.cons turned (tailed.append (.single closed))))

theorem Datum.DerivesAll.feeds : ∀ {lexemes : List Lexeme} {items : List Datum},
    DerivesAll lexemes items → ∀ {tokens : List Token}, tokens.map Token.lexeme = lexemes →
      ∀ (start : Position) (before : List Datum) (outer : List Level),
        Feeds Reader.feed tokens ⟨.ofItems start before, outer⟩
          ⟨.ofItems start (before ++ items), outer⟩
  | _, _, .none, tokens, spelled, start, before, outer => by
    cases List.map_eq_nil_iff.mp spelled
    rw [List.append_nil]
    exact .nil
  | _, _, .more derives following, tokens, spelled, start, before, outer => by
    obtain ⟨first, rest, rfl, here, later⟩ := List.map_eq_append_iff.mp spelled
    have item := derives.feeds here _ outer (Level.open_ofItems start before)
    rw [Level.taken_ofItems] at item
    rw [List.append_cons]
    exact item.append (following.feeds later start _ outer)

end

def Balanced (lexemes : List Lexeme) : Prop :=
  ∀ tokens : List Token, tokens.map Token.lexeme = lexemes → ∀ m : Matching,
    ∃ later, Feeds Matching.feed tokens m later ∧ later.opened = m.opened

namespace Balanced

variable {lexemes rest : List Lexeme}

theorem nil : Balanced [] := by
  intro tokens spelled m
  cases List.map_eq_nil_iff.mp spelled
  exact ⟨m, .nil, rfl⟩

theorem append (first : Balanced lexemes) (following : Balanced rest) :
    Balanced (lexemes ++ rest) := by
  intro tokens spelled m
  obtain ⟨before, after, rfl, here, there⟩ := List.map_eq_append_iff.mp spelled
  obtain ⟨middle, moved, same⟩ := first before here m
  obtain ⟨later, moved', same'⟩ := following after there middle
  exact ⟨later, moved.append moved', same'.trans same⟩

theorem quote : Balanced [.quote] := by
  intro tokens spelled m
  obtain ⟨t, rfl, here⟩ := List.map_eq_singleton_iff.mp spelled
  have fed : m.feed t = .ok { m with index := m.index + 1 } := by
    unfold Matching.feed
    rw [here]
  exact ⟨_, .single fed, rfl⟩

theorem word (text : String) : Balanced [.word text] := by
  intro tokens spelled m
  obtain ⟨t, rfl, here⟩ := List.map_eq_singleton_iff.mp spelled
  have fed : m.feed t = .ok { m with index := m.index + 1 } := by
    unfold Matching.feed
    rw [here]
  exact ⟨_, .single fed, rfl⟩

theorem surround (inside : Balanced lexemes) :
    Balanced (.opening :: (lexemes ++ [.closing])) := by
  intro tokens spelled m
  obtain ⟨t, rest, rfl, opening, spelled⟩ := List.map_eq_cons_iff.mp spelled
  obtain ⟨within, last, rfl, here, ends⟩ := List.map_eq_append_iff.mp spelled
  obtain ⟨u, rfl, closing⟩ := List.map_eq_singleton_iff.mp ends
  have opens : m.feed t =
      .ok { m with index := m.index + 1, opened := (m.index, t.position) :: m.opened } := by
    unfold Matching.feed
    rw [opening]
  obtain ⟨later, moved, same⟩ := inside within here
    { m with index := m.index + 1, opened := (m.index, t.position) :: m.opened }
  have closes : later.feed u =
      .ok ⟨later.index + 1, m.opened, (m.index, later.index) :: later.pairs⟩ := by
    unfold Matching.feed
    rw [closing]
    dsimp only
    rw [same]
  exact ⟨_, .cons opens (moved.append (.single closes)), rfl⟩

end Balanced

mutual

theorem Datum.Derives.balanced : ∀ {lexemes : List Lexeme} {d : Datum}, Derives lexemes d →
    Balanced lexemes
  | _, _, .word _ => Balanced.word _
  | _, _, .quote derives => Balanced.quote.append derives.balanced
  | _, _, .empty => Balanced.nil.surround
  | _, _, .proper all _ => all.balanced.surround
  | _, _, .dotted all _ derives => by
    have inside := (all.balanced.append (Balanced.word ".")).append derives.balanced
    have whole := inside.surround
    rwa [List.append_assoc, List.append_assoc] at whole

theorem Datum.DerivesAll.balanced : ∀ {lexemes : List Lexeme} {items : List Datum},
    DerivesAll lexemes items → Balanced lexemes
  | _, _, .none => Balanced.nil
  | _, _, .more derives following => derives.balanced.append following.balanced

end

theorem matchDelimiters_of_balanced {tokens : List Token}
    (balanced : Balanced (tokens.map Token.lexeme)) : ∃ pairs, matchDelimiters tokens = .ok pairs := by
  obtain ⟨m, moved, opened⟩ := balanced tokens rfl {}
  unfold matchDelimiters
  unfold Feeds at moved
  rw [moved]
  exact ⟨m.pairs, by simp [bind, Except.bind, opened]⟩

theorem readTokens_of_derivesAll {tokens : List Token} {data : List Datum}
    (all : DerivesAll (tokens.map Token.lexeme) data) : readTokens tokens = .ok data := by
  obtain ⟨pairs, matched⟩ := matchDelimiters_of_balanced all.balanced
  have fed := all.feeds rfl .start [] []
  have run : tokens.foldlM Reader.feed {} = .ok ⟨.ofItems .start data, []⟩ := fed
  unfold readTokens
  rw [matched, run]
  change (Level.ofItems .start data).close.map Prod.fst = _
  rw [Level.close_ofItems]
  rfl

end Vau
