import Vau.Proofs.Grammar.Completion
import Vau.Repl

/-! When the interactive loop asks for more input.

It gives up on no text that could still be completed. It also asks for more when a text is beyond
repair: the error it looks at may stand in front of another one, and a quote mark before a closing
parenthesis is reported like one at the end of the text. -/

set_option autoImplicit false

namespace Vau

theorem isIncomplete_iff {text : String} :
    isIncomplete text ↔ ∃ error, read text none = .error error ∧ error.cause.Awaits := by
  unfold isIncomplete
  cases outcome : read text none with
  | ok data => simp
  | error error =>
    constructor
    · intro incomplete
      refine ⟨error, rfl, ?_⟩
      dsimp only at incomplete
      split at incomplete
      · rename_i same
        exact same ▸ .unclosed
      · rename_i marks same
        exact same ▸ .quotes marks
      · cases incomplete
    · rintro ⟨_, ⟨⟩, awaits⟩
      dsimp only
      generalize error.cause = cause at awaits
      cases awaits <;> rfl

theorem read_error_of_file {text : String} {file : Option String} {error : Error}
    (refused : read text file = .error error) (other : Option String) :
    ∃ error', read text other = .error error' ∧ error'.cause = error.cause := by
  unfold read at *
  cases outcome : readTokens (tokenize text) with
  | ok data =>
    rw [outcome] at refused
    cases refused
  | error raised =>
    rw [outcome] at refused
    cases refused
    exact ⟨_, rfl, rfl⟩

theorem awaits_of_wellBegun {text : String} (begun : WellBegun (tokenize text))
    {file : Option String} {error : Error} (refused : read text file = .error error) :
    error.cause.Awaits := by
  obtain ⟨r, fed, _⟩ := begun
  exact awaits_of_feeds fed refused

/-- Texts of whole lines that more input can complete are the well begun ones. Of those the loop
asks for more exactly while they cannot be read. -/
theorem more_input_helps_iff (text : String) :
    ((∃ more data, read (text ++ "\n" ++ more) none = .ok data) ↔
        WellBegun (tokenize (text ++ "\n"))) ∧
      (WellBegun (tokenize (text ++ "\n")) →
        (isIncomplete (text ++ "\n") ↔ ¬ ∃ data, read (text ++ "\n") none = .ok data)) := by
  refine ⟨(wellBegun_iff_completed text none).symm, fun begun => ?_⟩
  rw [isIncomplete_iff]
  constructor
  · rintro ⟨error, refused, _⟩ ⟨data, accepted⟩
    cases refused.symm.trans accepted
  · intro unread
    cases outcome : read (text ++ "\n") none with
    | ok data => exact (unread ⟨data, outcome⟩).elim
    | error error => exact ⟨error, rfl, awaits_of_wellBegun begun outcome⟩

theorem more_input_helps_iff_of_open_list :
    WellBegun (tokenize ("(a ." ++ "\n")) ∧ isIncomplete ("(a ." ++ "\n") := by
  have begun : WellBegun (tokenize ("(a ." ++ "\n")) := by
    refine (more_input_helps_iff "(a .").1.mp ⟨"b)", [.pair (.symbol "a") (.symbol "b")], ?_⟩
    decide +kernel
  refine ⟨begun, ((more_input_helps_iff "(a .").2 begun).mpr ?_⟩
  rintro ⟨data, accepted⟩
  have refused : read ("(a ." ++ "\n") none = .error (Cause.unclosedDelimiter.at ⟨1, 1⟩) := by
    decide +kernel
  cases refused.symm.trans accepted

theorem read_ne_ok {text : String}
    (stops : ((tokenize (text ++ "\n")).foldlM Reader.feed {}).toOption = none) (more : String)
    (data : List Datum) : read (text ++ "\n" ++ more) none ≠ .ok data := by
  intro accepted
  obtain ⟨r, fed, _⟩ := wellBegun_of_read accepted
  unfold Feeds at fed
  rw [fed] at stops
  cases stops

/-- The loop asks for more after these lines, though no text that starts with them can be read. In
the first no delimiter is left open. -/
theorem incomplete_beyond_repair :
    (isIncomplete ("(a ')" ++ "\n") ∧
      ∀ more data, read ("(a ')" ++ "\n" ++ more) none ≠ .ok data) ∧
    isIncomplete ("(#frob" ++ "\n") ∧
      ∀ more data, read ("(#frob" ++ "\n" ++ more) none ≠ .ok data := by
  refine ⟨⟨?_, fun more data => read_ne_ok ?_ more data⟩, ?_,
    fun more data => read_ne_ok ?_ more data⟩ <;> decide +kernel

/-- What is refused for another reason than that its end is missing is never read, whatever
follows. So the loop is right not to ask for more. -/
theorem refusal_is_final {text : String} {file : Option String} {error : Error}
    (refused : read (text ++ "\n") file = .error error)
    (closed : error.cause ≠ .unclosedDelimiter)
    (unquoted : ∀ marks, error.cause ≠ .trailingQuotes marks) :
    isIncomplete (text ++ "\n") = false ∧ ∀ (more : String) (file : Option String),
      ∃ error, read (text ++ "\n" ++ more) file = .error error := by
  have final : ¬ error.cause.Awaits := by
    intro awaits
    generalize error.cause = cause at *
    cases awaits with
    | unclosed => exact closed rfl
    | quotes marks => exact unquoted marks rfl
  constructor
  · rw [Bool.eq_false_iff, ne_eq, isIncomplete_iff]
    rintro ⟨error', refused', awaits⟩
    obtain ⟨_, same, cause⟩ := read_error_of_file refused none
    cases refused'.symm.trans same
    exact final (cause ▸ awaits)
  · intro more file'
    cases outcome : read (text ++ "\n" ++ more) file' with
    | error error' => exact ⟨error', rfl⟩
    | ok data => exact (final (awaits_of_wellBegun (wellBegun_of_read outcome) refused)).elim

/-- A second datum behind the dot. The parenthesis that the next line seems to close is in a
comment. -/
theorem refusal_is_final_of_second_tail :
    read ("(a . b c) ; (" ++ "\n") none = .error ((Cause.dot .secondTail).at ⟨1, 8⟩) ∧
      ∃ error, read ("(a . b c) ; (" ++ "\n" ++ "d)") none = .error error := by
  have refused : read ("(a . b c) ; (" ++ "\n") none =
      .error ((Cause.dot .secondTail).at ⟨1, 8⟩) := by
    decide +kernel
  exact ⟨refused, (refusal_is_final refused nofun nofun).2 "d)" none⟩

end Vau
