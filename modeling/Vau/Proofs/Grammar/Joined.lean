import Vau.Proofs.Grammar.Completion

/-! Reading two texts as one.

After the end of a line the scanner goes on as if the text began there, at other positions. Which
data the tokens form does not depend on their positions. -/

set_option autoImplicit false

namespace Vau

inductive Scanning.Alike : Scanning → Scanning → Prop
  | gap : Alike .gap .gap
  | comment : Alike .comment .comment
  | word (start start' : Position) (newest : List Char) :
    Alike (.word start newest) (.word start' newest)

namespace Scanner

/-- One scanner is where another is, except for lexemes that it finished before. -/
structure Behind (before : List Lexeme) (s later : Scanner) : Prop where
  inside : s.inside.Alike later.inside
  done : later.done.map Token.lexeme = s.done.map Token.lexeme ++ before

variable {before : List Lexeme} {s later : Scanner}

theorem Behind.flush (behind : Behind before s later) :
    later.flush.map Token.lexeme = s.flush.map Token.lexeme ++ before := by
  obtain ⟨inside, done⟩ := behind
  unfold Scanner.flush
  cases here : s.inside <;> cases there : later.inside <;> rw [here, there] at inside <;>
    cases inside
  · exact done
  · exact done
  · rw [List.map_cons, List.map_cons, done]
    rfl

theorem Behind.feed (behind : Behind before s later) (c : Char) :
    Behind before (s.feed c) (later.feed c) := by
  have flushed := behind.flush
  obtain ⟨position, i, finished⟩ := s
  obtain ⟨position', j, finished'⟩ := later
  obtain ⟨inside, done⟩ := behind
  dsimp only at inside done
  cases inside with
  | comment =>
    refine ⟨?_, done⟩
    unfold Scanner.feed
    dsimp only
    split <;> constructor
  | gap | word =>
    unfold Scanner.feed
    dsimp only
    by_cases comment : c = ';'
    · rw [if_pos comment, if_pos comment]
      exact ⟨.comment, flushed⟩
    · rw [if_neg comment, if_neg comment]
      by_cases blank : Text.isBlank c = true
      · rw [if_pos blank, if_pos blank]
        exact ⟨.gap, flushed⟩
      · rw [if_neg blank, if_neg blank]
        cases delimiter? c with
        | some lexeme => exact ⟨.gap, congrArg (lexeme :: ·) flushed⟩
        | none => exact ⟨.word _ _ _, done⟩

theorem Behind.foldl (behind : Behind before s later) (cs : List Char) :
    Behind before (cs.foldl Scanner.feed s) (cs.foldl Scanner.feed later) := by
  induction cs generalizing s later with
  | nil => exact behind
  | cons c cs ih => exact ih (behind.feed c)

theorem done_atLineEnd (text : String) : (atLineEnd text).done = (tokenize text).reverse := by
  have spelled : (text ++ "\n").toList = text.toList ++ ['\n'] := by simp [String.toList_append]
  have ended (s : Scanner) : (s.feed '\n').done = s.flush := by
    unfold feed flush
    cases s.inside <;> rfl
  unfold atLineEnd
  rw [spelled, List.foldl_append]
  exact (ended _).trans (List.reverse_reverse _).symm

/-- A line end and a new text are read as the new text alone. -/
theorem lexemes_joined (text more : String) :
    (tokenize (text ++ "\n" ++ more)).map Token.lexeme =
      (tokenize text).map Token.lexeme ++ (tokenize more).map Token.lexeme := by
  have start : Behind ((tokenize text).map Token.lexeme).reverse {} (atLineEnd text) :=
    ⟨inside_atLineEnd text ▸ .gap, by rw [done_atLineEnd, List.map_reverse]; rfl⟩
  have read := (start.foldl more.toList).flush
  calc (tokenize (text ++ "\n" ++ more)).map Token.lexeme
      = ((more.toList.foldl Scanner.feed (atLineEnd text)).flush.map Token.lexeme).reverse := by
        rw [tokenize_eq, tokens, List.map_reverse]
    _ = (tokenize text).map Token.lexeme ++
        ((more.toList.foldl Scanner.feed {}).flush.map Token.lexeme).reverse := by
        rw [read, List.reverse_append, List.reverse_reverse]
    _ = _ := by rw [← List.map_reverse]; rfl

end Scanner

theorem read_joined {text more : String} {file : Option String} {data rest : List Datum}
    (first : read text file = .ok data) (second : read more file = .ok rest) :
    read (text ++ "\n" ++ more) file = .ok (data ++ rest) := by
  rw [read_eq_ok] at first second ⊢
  rw [Scanner.lexemes_joined]
  exact first.append second

end Vau
