import Vau.Proofs.Grammar.Accepted
import Vau.Proofs.Grammar.Delimiter
import Vau.Proofs.Grammar.Token
import Vau.Proofs.Syntax

/-! Reading by ranges.

A list can also be read from the table of the pairs: its items stand between its parentheses, and
what follows it is read on behind the closing one. This trusts the table. Where the parentheses were
matched the trust is justified, and the outcome is that of the reader. -/

set_option autoImplicit false

namespace Vau

/-- Why reading by ranges stops. -/
inductive Halt where
  | refused (error : Error)
  /-- The table has no entry for an opening parenthesis. -/
  | unlisted
  /-- A closing parenthesis stands where a datum should start. -/
  | stray
  /-- A list ends in front of its start, so that reading would not move on. -/
  | stuck
  /-- There is no such token. -/
  | beyond
  deriving DecidableEq

namespace Level

def word (l : Level) (inList : Bool) (position : Position) (text : String) : Except Error Level :=
  if text = Keyword.dot.spelling then
    if inList then l.dot position else .error ((Cause.dot .outsideList).at position)
  else
    match Datum.ofWord? text with
    | some d => l.add position d
    | none => .error ((Cause.unknownLiteral text).at position)

/-- Read the tokens from `i` up to `stop` into a level. -/
def fill (tokens : List Token) (pairs : List (Nat × Nat)) (inList : Bool) (l : Level)
    (i stop : Nat) : Except Halt Level :=
  if i < stop then
    match _here : tokens[i]? with
    | none => .error .beyond
    | some t =>
      match t.lexeme with
      | .opening =>
        match pairs.lookup i with
        | none => .error .unlisted
        | some j =>
          if i ≤ j then do
            let inner ← fill tokens pairs true (.ofItems t.position []) (i + 1) j
            let (items, tail) ← inner.close.mapError .refused
            let l ← (l.add t.position (.chain items tail)).mapError .refused
            fill tokens pairs inList l (j + 1) stop
          else .error .stuck
      | .closing => .error .stray
      | .quote => fill tokens pairs inList (l.quote t.position) (i + 1) stop
      | .word text => do
        let l ← (l.word inList t.position text).mapError .refused
        fill tokens pairs inList l (i + 1) stop
  else .ok l
termination_by tokens.length - i
decreasing_by
  all_goals
    obtain ⟨inside, -⟩ := List.getElem?_eq_some_iff.mp _here
    omega

end Level

/-- What holds of a result, and what of an error. -/
def Except.Yields {ε α : Type} (holds : α → Prop) (fails : ε → Prop) : Except ε α → Prop
  | .ok value => holds value
  | .error error => fails error

namespace Except.Yields

variable {ε α β : Type} {outcome : Except ε α} {next : α → Except ε β} {holds : α → Prop}
  {holds' : β → Prop} {fails : ε → Prop}

theorem bind (first : Except.Yields holds fails outcome)
    (following : ∀ value, holds value → Except.Yields holds' fails (next value)) :
    Except.Yields holds' fails (outcome >>= next) := by
  cases outcome with
  | error error => exact first
  | ok value => exact following value first

end Except.Yields

/-- The error has the position of one of the tokens, unless that has line zero. The file is not named
yet. -/
def Error.PointsInto (tokens : List Token) (error : Error) : Prop :=
  (∃ t ∈ tokens, error.position = t.position.known?) ∧ error.file = none

theorem pointsInto_at {tokens : List Token} {t : Token} (listed : t ∈ tokens) (cause : Cause) :
    (cause.at t.position).PointsInto tokens :=
  ⟨⟨t, listed, rfl⟩, rfl⟩

def Halt.PointsInto (tokens : List Token) : Halt → Prop
  | .refused error => error.PointsInto tokens
  | .unlisted | .stray | .stuck | .beyond => True

theorem Except.Yields.refused {α : Type} {tokens : List Token} {outcome : Except Error α}
    {holds : α → Prop} (yields : Except.Yields holds (Error.PointsInto tokens) outcome) :
    Except.Yields holds (Halt.PointsInto tokens) (outcome.mapError .refused) := by
  cases outcome with
  | error error => exact yields
  | ok value => exact yields

namespace Level

variable {tokens : List Token} {l : Level} {t : Token}

structure Placed (tokens : List Token) (l : Level) : Prop where
  quotes : ∀ position, position ∈ l.quotes → ∃ t ∈ tokens, t.position = position
  dot : ∀ position, l.tail = .dot position → ∃ t ∈ tokens, t.position = position

/-- Follows from a level by taking tokens of the text. -/
def Continues (tokens : List Token) (l later : Level) : Prop :=
  later.Placed tokens ∧ later.start = l.start

theorem placed_empty (tokens : List Token) (start : Position) : Placed tokens (.ofItems start []) :=
  ⟨nofun, nofun⟩

theorem Placed.quote (placed : l.Placed tokens) (listed : t ∈ tokens) :
    (l.quote t.position).Placed tokens := by
  refine ⟨fun position waits => ?_, placed.dot⟩
  cases waits with
  | head => exact ⟨t, listed, rfl⟩
  | tail _ waits => exact placed.quotes position waits

theorem yields_add (l : Level) (listed : t ∈ tokens) (d : Datum) :
    Except.Yields (l.Continues tokens) (Error.PointsInto tokens) (l.add t.position d) := by
  unfold Level.add
  cases tail : l.tail with
  | none =>
    refine ⟨⟨nofun, fun position dotted => ?_⟩, rfl⟩
    cases dotted
  | dot => exact ⟨⟨nofun, nofun⟩, rfl⟩
  | read => exact pointsInto_at listed _

theorem Placed.dotted (placed : l.Placed tokens) (listed : t ∈ tokens) :
    Except.Yields (l.Continues tokens) (Error.PointsInto tokens) (l.dot t.position) := by
  unfold Level.dot
  split
  · exact pointsInto_at listed _
  · split
    · exact pointsInto_at listed _
    · refine ⟨⟨placed.quotes, fun position dotted => ?_⟩, rfl⟩
      cases dotted
      exact ⟨t, listed, rfl⟩
    · exact pointsInto_at listed _
    · exact pointsInto_at listed _

theorem Placed.word (placed : l.Placed tokens) (listed : t ∈ tokens) (inList : Bool)
    (text : String) :
    Except.Yields (l.Continues tokens) (Error.PointsInto tokens)
      (l.word inList t.position text) := by
  unfold Level.word
  split
  · split
    · exact placed.dotted listed
    · exact pointsInto_at listed _
  · split
    · exact l.yields_add listed _
    · exact pointsInto_at listed _

theorem Placed.close (placed : l.Placed tokens) :
    Except.Yields (fun _ => True) (Error.PointsInto tokens) l.close := by
  unfold Level.close
  split
  · rename_i first last
    obtain ⟨t, listed, rfl⟩ := placed.quotes first (List.mem_of_getLast? last)
    exact pointsInto_at listed _
  · cases tail : l.tail with
    | none | read => trivial
    | dot position =>
      obtain ⟨t, listed, rfl⟩ := placed.dot position tail
      exact pointsInto_at listed _

theorem Continues.trans {later last : Level} (first : l.Continues tokens later)
    (following : later.Continues tokens last) : l.Continues tokens last :=
  ⟨following.1, following.2.trans first.2⟩

theorem Continues.on {later : Level} {outcome : Except Halt Level}
    (first : l.Continues tokens later)
    (following : Except.Yields (later.Continues tokens) (Halt.PointsInto tokens) outcome) :
    Except.Yields (l.Continues tokens) (Halt.PointsInto tokens) outcome := by
  cases outcome with
  | error halt => exact following
  | ok last => exact first.trans following

theorem Placed.fill (placed : l.Placed tokens) (pairs : List (Nat × Nat)) (inList : Bool)
    (i stop : Nat) :
    Except.Yields (l.Continues tokens) (Halt.PointsInto tokens)
      (l.fill tokens pairs inList i stop) := by
  fun_induction Level.fill tokens pairs inList l i stop with
  | case1 | case2 | case4 | case5 => trivial
  | case3 inList l i stop before t here opening j found ahead inner following =>
    have listed := List.mem_of_getElem? here
    refine (inner (placed_empty tokens _)).bind fun inner filled => ?_
    refine filled.1.close.refused.bind fun (items, tail) _ => ?_
    exact (l.yields_add listed _).refused.bind fun later added =>
      added.on (following later added.1)
  | case6 inList l i stop before t here quote following =>
    have quoted := placed.quote (List.mem_of_getElem? here)
    exact Continues.on ⟨quoted, rfl⟩ (following quoted)
  | case7 inList l i stop before t here text word following =>
    have taken := placed.word (List.mem_of_getElem? here) inList text
    exact taken.refused.bind fun later taken => taken.on (following later taken.1)
  | case8 => exact ⟨placed, rfl⟩

end Level

/-! Balanced tokens, taken apart from the front. -/

inductive Nested : List Token → Prop
  | none : Nested []
  | plain {t : Token} {rest : List Token} : t.lexeme ≠ .opening → t.lexeme ≠ .closing →
    Nested rest → Nested (t :: rest)
  | list {t u : Token} {within rest : List Token} : t.lexeme = .opening → Nested within →
    u.lexeme = .closing → Nested rest → Nested (t :: (within ++ u :: rest))

theorem Nested.paired {tokens : List Token} (nested : Nested tokens) :
    Paired (tokens.map Token.lexeme) := by
  induction nested with
  | none => exact .nil
  | @plain t rest unopened unclosed _ ih => exact (Paired.single unopened unclosed).append ih
  | @list t u within rest opening _ closing _ inside behind =>
    have whole := inside.surround.append behind
    rw [List.map_cons, List.map_append, List.map_cons, opening, closing]
    simpa using whole

namespace Level

variable {tokens : List Token} {pairs : List (Nat × Nat)} {t : Token} {inList : Bool} {l : Level}
  {i j stop : Nat}

end Level

namespace Reader

variable {l inner : Level} {outer : List Level} {t : Token}

end Reader

variable {segment tokens before after : List Token} {pairs : List (Nat × Nat)} {i stop : Nat}

end Vau
