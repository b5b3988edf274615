import Mathlib.Data.Nat.Find
import Vau.Proofs.Grammar

/-! Which parentheses match.

Parentheses are balanced if no prefix closes more than it opens, and the whole closes as many.
While they are matched, the tokens met so far fall into balanced stretches with an open parenthesis
between each two of them, and all other parentheses have their partner. -/

set_option autoImplicit false

namespace Vau

def Overclosed (lexemes : List Lexeme) : Prop :=
  lexemes.count .opening < lexemes.count .closing

structure Paired (lexemes : List Lexeme) : Prop where
  prefixes : ∀ n, ¬ Overclosed (lexemes.take n)
  total : lexemes.count .opening = lexemes.count .closing

/-- A parenthesis is opened at `i` and closed at `j`, and what stands between is balanced. -/
def Closes (lexemes : List Lexeme) (i j : Nat) : Prop :=
  ∃ front within rest, lexemes = front ++ .opening :: (within ++ .closing :: rest) ∧
    Paired within ∧ i = front.length ∧ j = front.length + within.length + 1

variable {lexemes front front' within within' rest rest' : List Lexeme} {x : Lexeme}
  {i i' j j' : Nat}

/-! Counting. -/

namespace Paired

theorem nil : Paired [] := by
  refine ⟨fun n excess => ?_, rfl⟩
  simp [Overclosed] at excess

theorem single (unopened : x ≠ .opening) (unclosed : x ≠ .closing) : Paired [x] := by
  refine ⟨fun n excess => ?_, ?_⟩
  · cases n <;> simp [Overclosed, unopened, unclosed] at excess
  · simp [unopened, unclosed]

theorem append (first : Paired lexemes) (following : Paired rest) : Paired (lexemes ++ rest) := by
  refine ⟨fun n excess => ?_, ?_⟩
  · have left := first.prefixes n
    have right := following.prefixes (n - lexemes.length)
    unfold Overclosed at *
    rw [List.take_append, List.count_append, List.count_append] at excess
    omega
  · rw [List.count_append, List.count_append, first.total, following.total]

theorem surround (inside : Paired within) : Paired (.opening :: (within ++ [.closing])) := by
  refine ⟨fun n excess => ?_, ?_⟩
  · cases n with
    | zero => simp [Overclosed] at excess
    | succ n =>
      have inner := inside.prefixes n
      have last : (List.take (n - within.length) [Lexeme.closing]).count .closing ≤ 1 :=
        Nat.le_trans List.count_le_length (List.length_take_le' _ _)
      unfold Overclosed at *
      simp only [List.take_succ_cons, List.take_append, List.count_cons, List.count_append,
        beq_self_eq_true, reduceIte] at excess
      simp at excess
      omega
  · have total := inside.total
    simp [List.count_append, total]

theorem behind (paired : Paired (lexemes ++ rest)) (first : Paired lexemes) : Paired rest := by
  have ended := first.total
  refine ⟨fun n excess => ?_, ?_⟩
  · refine paired.prefixes (lexemes.length + n) ?_
    rw [List.take_length_add_append]
    unfold Overclosed at *
    rw [List.count_append, List.count_append]
    omega
  · have total := paired.total
    rw [List.count_append, List.count_append] at total
    omega

end Paired

/-- A parenthesis that is open in front of balanced tokens is the last one that is open. -/
theorem Paired.length_le_of_opening (inside : Paired within) (inside' : Paired within')
    (same : front ++ .opening :: within = front' ++ .opening :: within') :
    front'.length ≤ front.length := by
  by_contra longer
  obtain ⟨more, rfl, split⟩ | ⟨more, rfl, split⟩ := List.append_eq_append_iff.mp same
  · cases more with
    | nil => simp at longer
    | cons first more =>
      obtain ⟨rfl, rfl⟩ := List.cons.inj split
      have total := inside.total
      have total' := inside'.total
      refine inside.prefixes more.length ?_
      simp [List.count_append] at total
      simp [Overclosed]
      omega
  · simp at longer

theorem Closes.append (closes : Closes lexemes i j) (rest : List Lexeme) :
    Closes (lexemes ++ rest) i j := by
  obtain ⟨front, within, after, rfl, inside, start, ends⟩ := closes
  exact ⟨front, within, after ++ rest, by simp, inside, start, ends⟩

theorem Closes.behind (closes : Closes lexemes i j) (front : List Lexeme) :
    Closes (front ++ lexemes) (front.length + i) (front.length + j) := by
  obtain ⟨before, within, rest, rfl, inside, rfl, rfl⟩ := closes
  exact ⟨front ++ before, within, rest, by simp, inside, by simp, by simp; omega⟩

/-- One more token adds at most one pair, of which it is the closing one. -/
theorem closes_snoc : Closes (lexemes ++ [x]) i j ↔ Closes lexemes i j ∨
    x = .closing ∧ j = lexemes.length ∧
      ∃ front within, lexemes = front ++ .opening :: within ∧ Paired within ∧ i = front.length := by
  constructor
  · rintro ⟨front, within, rest, same, inside, rfl, rfl⟩
    obtain rfl | ⟨rest, last, rfl⟩ := List.eq_nil_or_concat rest
    · have same : lexemes ++ [x] = (front ++ .opening :: within) ++ [.closing] := by
        simpa using same
      obtain ⟨rfl, ends⟩ := List.append_inj' same rfl
      exact .inr ⟨(List.cons.inj ends).1, by simp; omega, front, within, rfl, inside, rfl⟩
    · have same : lexemes ++ [x] =
          (front ++ .opening :: (within ++ .closing :: rest)) ++ [last] := by simpa using same
      obtain ⟨rfl, -⟩ := List.append_inj' same rfl
      exact .inl ⟨front, within, rest, rfl, inside, rfl, rfl⟩
  · rintro (closes | ⟨rfl, rfl, front, within, rfl, inside, rfl⟩)
    · exact closes.append [x]
    · exact ⟨front, within, [], by simp, inside, rfl, by simp; omega⟩

theorem closes_snoc_of_ne (other : x ≠ .closing) :
    Closes (lexemes ++ [x]) i j ↔ Closes lexemes i j := by
  rw [closes_snoc]
  simp [other]

theorem closes_snoc_closing (split : lexemes = front ++ .opening :: within)
    (inside : Paired within) : Closes (lexemes ++ [.closing]) i j ↔
      (i, j) = (front.length, lexemes.length) ∨ Closes lexemes i j := by
  rw [closes_snoc, or_comm, Prod.mk.injEq]
  refine or_congr_left ⟨?_, ?_⟩
  · rintro ⟨-, rfl, front', within', split', inside', rfl⟩
    have same := split.symm.trans split'
    exact ⟨Nat.le_antisymm (inside.length_le_of_opening inside' same)
      (inside'.length_le_of_opening inside same.symm), rfl⟩
  · rintro ⟨rfl, rfl⟩
    exact ⟨rfl, rfl, front, within, split, inside, rfl⟩

/-- The tokens leave these parentheses open, the innermost first. -/
inductive Standing : List Token → List (Nat × Position) → Prop
  | closed {tokens : List Token} : Paired (tokens.map Token.lexeme) → Standing tokens []
  | opened {front within : List Token} {t : Token} {around : List (Nat × Position)} :
    Standing front around → t.lexeme = .opening → Paired (within.map Token.lexeme) →
      Standing (front ++ t :: within) ((front.length, t.position) :: around)

namespace Standing

variable {tokens more : List Token} {t : Token} {standing around : List (Nat × Position)}
  {first : Nat × Position}

theorem extend (stands : Standing tokens standing) (paired : Paired (more.map Token.lexeme)) :
    Standing (tokens ++ more) standing := by
  cases stands with
  | closed before =>
    refine .closed ?_
    rw [List.map_append]
    exact before.append paired
  | opened front opening inside =>
    rw [List.append_assoc, List.cons_append]
    refine .opened front opening ?_
    rw [List.map_append]
    exact inside.append paired

theorem push (stands : Standing tokens standing) (opening : t.lexeme = .opening) :
    Standing (tokens ++ [t]) ((tokens.length, t.position) :: standing) :=
  .opened stands opening .nil

theorem last (stands : Standing tokens (first :: around)) :
    ∃ front within, tokens.map Token.lexeme = front ++ .opening :: within ∧ Paired within ∧
      first.1 = front.length := by
  cases stands with
  | @opened front within t _ _ opening inside =>
    exact ⟨_, _, by rw [List.map_append, List.map_cons, opening], inside,
      (List.length_map _).symm⟩

theorem pop (stands : Standing tokens (first :: around)) (closing : t.lexeme = .closing) :
    Standing (tokens ++ [t]) around := by
  cases stands with
  | @opened front within u _ before opening inside =>
    rw [List.append_assoc]
    refine before.extend ?_
    rw [List.cons_append, List.map_cons, List.map_append, opening]
    simpa [closing] using inside.surround

theorem prefixes (stands : Standing tokens standing) (n : Nat) :
    ¬ Overclosed ((tokens.map Token.lexeme).take n) := by
  induction stands with
  | closed paired => exact paired.prefixes n
  | @opened front within t around _ opening inside ih =>
    rw [List.map_append, List.map_cons, opening, List.take_append, List.length_map]
    cases n - front.length with
    | zero => simpa using ih
    | succ k =>
      have behind := inside.prefixes k
      unfold Overclosed at *
      rw [List.take_succ_cons, List.count_append, List.count_append]
      simp
      omega

theorem paired_iff (stands : Standing tokens standing) :
    Paired (tokens.map Token.lexeme) ↔ standing = [] := by
  constructor
  · intro paired
    cases stands with
    | closed => rfl
    | @opened front within t around before opening inside =>
      have first := before.prefixes front.length
      have total := paired.total
      have inner := inside.total
      rw [List.map_append, List.map_cons, opening, List.count_append, List.count_append] at total
      rw [← @List.length_map _ _ front, List.take_length] at first
      simp [Overclosed] at first total
      omega
  · rintro rfl
    cases stands with
    | closed paired => exact paired

end Standing

namespace Matching

structure Describes (m : Matching) (tokens : List Token) : Prop where
  index : m.index = tokens.length
  standing : Standing tokens m.opened
  pairs : ∀ i j, (i, j) ∈ m.pairs ↔ Closes (tokens.map Token.lexeme) i j

variable {m next : Matching} {seen tokens : List Token} {t : Token}

theorem Describes.feed (describes : m.Describes seen) (fed : m.feed t = .ok next) :
    next.Describes (seen ++ [t]) := by
  obtain ⟨index, standing, pairs⟩ := describes
  have length : m.index + 1 = (seen ++ [t]).length := by simp [index]
  -- Only a closing parenthesis makes a pair.
  have kept (other : t.lexeme ≠ .closing) (i j : Nat) :
      (i, j) ∈ m.pairs ↔ Closes ((seen ++ [t]).map Token.lexeme) i j := by
    rw [pairs, List.map_append, List.map_singleton, closes_snoc_of_ne other]
  have passed (unopened : t.lexeme ≠ .opening) (unclosed : t.lexeme ≠ .closing) :
      Describes { m with index := m.index + 1 } (seen ++ [t]) :=
    ⟨length, standing.extend (.single unopened unclosed), kept unclosed⟩
  unfold Matching.feed at fed
  split at fed <;> rename_i here
  · cases fed
    exact ⟨length, index ▸ standing.push here, kept (by simp [here])⟩
  · split at fed
    · rename_i start position around top
      cases fed
      rw [top] at standing
      obtain ⟨front, within, split, inside, first⟩ := standing.last
      refine ⟨length, standing.pop here, fun i j => ?_⟩
      rw [List.map_append, List.map_singleton, here, closes_snoc_closing split inside,
        List.mem_cons, pairs, List.length_map, index, ← first]
    · cases fed
  · cases fed
    exact passed (by simp [here]) (by simp [here])
  · cases fed
    exact passed (by simp [here]) (by simp [here])

/-- Matching stops only at a closing parenthesis for which there is no other. -/
theorem Describes.stops (describes : m.Describes seen) {error : Error}
    (failed : m.feed t = .error error) :
    Paired (seen.map Token.lexeme) ∧ t.lexeme = .closing ∧
      error = Cause.trailingDelimiter.at t.position := by
  unfold Matching.feed at failed
  split at failed <;> rename_i here
  · cases failed
  · split at failed
    · cases failed
    · rename_i none
      cases failed
      exact ⟨describes.standing.paired_iff.mpr none, here, rfl⟩
  · cases failed
  · cases failed

/-- The run over all tokens: they are described, or the first one too many is reported. -/
theorem Describes.feeds (describes : m.Describes seen) (tokens : List Token) :
    (∃ last, tokens.foldlM Matching.feed m = .ok last ∧ last.Describes (seen ++ tokens)) ∨
      ∃ front t rest, tokens = front ++ t :: rest ∧
        Paired ((seen ++ front).map Token.lexeme) ∧ t.lexeme = .closing ∧
        tokens.foldlM Matching.feed m = .error (Cause.trailingDelimiter.at t.position) := by
  induction tokens generalizing m seen with
  | nil => exact .inl ⟨m, rfl, by rwa [List.append_nil]⟩
  | cons t tokens ih =>
    rw [List.foldlM_cons]
    cases fed : m.feed t with
    | error error =>
      obtain ⟨paired, closing, rfl⟩ := describes.stops fed
      exact .inr ⟨[], t, tokens, rfl, by rwa [List.append_nil], closing, rfl⟩
    | ok next =>
      rw [List.append_cons]
      obtain described | ⟨front, u, rest, rfl, paired, closing, failed⟩ := ih (describes.feed fed)
      · exact .inl described
      · refine .inr ⟨t :: front, u, rest, rfl, ?_, closing, failed⟩
        rwa [List.append_cons]

end Matching

variable {tokens : List Token} {pairs : List (Nat × Nat)}

end Vau
