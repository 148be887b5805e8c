import Lox.Proofs.Evaluation.ErrorKinds
import Lox.Proofs.Session.History
import Lox.Proofs.Text.Excerpt
import Lox.Proofs.Token.Lines
import Lox.Proofs.Token.LongestMatch

namespace Lox

/-!
# Reported positions

Tokens and errors carry the line on which they end, and a report looks up the line
of the offset at which they start.  The two agree but for strings that go on over
several lines.  Main statement: every report shows the place where what it blames
starts, and the lines differ by the line feeds in what it blames.  Runtime errors
blame operators, names and keywords, so for them the lines are the same.
-/

namespace Lexer

theorem not_letter_or_digit_lineFeed :
    ¬ (Letter '\n' ∨ Digit '\n') := by
  unfold Letter Digit
  decide

/-- Only strings go on over several lines. -/
theorem Lexeme.exists_body_of_lineFeed
    {kind : Kind}
    {text : List Char}
    (lexeme : Lexeme (.token kind) text)
    (member : '\n' ∈ text) :
    kind = .string ∧ ∃ body, text = '"' :: body := by
  have noDigit {digits : List Char}
    (inside : ∀ character ∈ digits, Digit character) :
      '\n' ∉ digits := fun inDigits =>
    not_letter_or_digit_lineFeed (.inr (inside _ inDigits))
  have noWord : ¬ Word text := by
    intro word
    cases text with
    | nil => exact word
    | cons first rest =>
        rcases List.mem_cons.mp member with rfl | later
        · exact not_letter_or_digit_lineFeed (.inl word.1)
        · exact not_letter_or_digit_lineFeed (word.2 _ later)
  cases lexeme with
  | fixed listed =>
      have all : ∀ entry ∈ fixedLexemes, '\n' ∉ entry.1 := by decide
      exact (all _ listed member).elim
  | string noQuote => exact ⟨rfl, _, rfl⟩
  | whole nonempty digits => exact (noDigit digits member).elim
  | fraction nonempty digits someFurther further =>
      rcases List.mem_append.mp member with whole | behind
      · exact (noDigit digits whole).elim
      · rcases List.mem_cons.mp behind with point | fraction
        · exact absurd point (by decide)
        · exact (noDigit further fraction).elim
  | keyword word listed => exact (noWord word).elim
  | name word unlisted => exact (noWord word).elim

theorem exists_body_of_lineFeed
    {source : String}
    {token : Token}
    (isToken : token ∈ (scan source).stream.tokens)
    (member : '\n' ∈ token.lexeme.toList) :
    token.kind = .string ∧ ∃ body, token.lexeme.toList = '"' :: body :=
  ((munched_pieces 0 1 source.toList).lexeme_of_mem
    isToken).exists_body_of_lineFeed member

/-- An error blames a single character that is no line feed, or a string. -/
theorem exists_body_of_error
    {source : String}
    {error : LexicalError}
    (isError : error ∈ (scan source).errors)
    (member : '\n' ∈ error.stretch source.toList) :
    ∃ body, error.stretch source.toList = '"' :: body := by
  obtain ⟨stretch, leaves, blames⟩ :=
    (covered_pieces 0 1 source.toList).leavesAt_error isError
  have left := leaves.drop_eq
  obtain ⟨cause, line, offset⟩ := error
  generalize isMessage : cause.message = message at blames
  cases cause with
  | unexpectedCharacter =>
      cases blames with
      | unexpected noLexeme noBlank =>
          simp only [LexicalError.stretch, left, List.take_succ_cons,
            List.take_zero, List.mem_singleton] at member
          simp [← member] at noBlank
      | unterminated noQuote => exact absurd isMessage (by decide)
  | unterminatedString =>
      cases blames with
      | unexpected noLexeme noBlank => exact absurd isMessage (by decide)
      | unterminated noQuote => exact ⟨_, left⟩

end Lexer

/--
A fault that is found before a text runs, with
the stretch of the text that it blames.
-/
inductive Fault.Blames (source : String) : Fault → List Char → Prop where
  | lexical
      {error : Lexer.LexicalError} :
      error ∈ (Lexer.scan source).errors →
      Blames source error.fault (error.stretch source.toList)
  | token
      {error : GrammarError}
      {blamed : Token}
      {later : List Token} :
      error ∈ (readProgram (Lexer.scan source).stream.tokens).errors →
      error.remaining = blamed :: later →
      Blames source (error.fault (Lexer.scan source).stream.finish)
        blamed.lexeme.toList
  | finish
      {error : GrammarError} :
      error ∈ (readProgram (Lexer.scan source).stream.tokens).errors →
      error.remaining = [] →
      Blames source (error.fault (Lexer.scan source).stream.finish) []

/-- Every fault that is found before a text runs blames a stretch of it. -/
theorem exists_blames
    {source : String}
    {fault : Fault}
    (member : fault ∈ (Analysis.ofSource source).faults) :
    ∃ stretch, fault.Blames source stretch := by
  rw [Analysis.faults_eq] at member
  rcases List.mem_append.mp member with lexical | grammar
  · obtain ⟨error, isError, rfl⟩ := List.mem_map.mp lexical
    exact ⟨_, .lexical isError⟩
  · obtain ⟨error, isError, rfl⟩ := List.mem_map.mp grammar
    cases remaining : error.remaining with
    | nil => exact ⟨_, .finish isError remaining⟩
    | cons blamed later => exact ⟨_, .token isError remaining⟩

/--
Where the stretch stands that a fault blames; of
several lines it is only if it is a string.
-/
structure Fault.Located
    (source : String)
    (fault : Fault)
    (stretch : List Char)
    (offset line : Nat) :
    Prop where
  stands : Text.Stands source.toList stretch offset line
  isStatic : fault.origin.stage.isStatic = true
  offset : fault.offset = some offset
  line : fault.line = line
  string : '\n' ∈ stretch → ∃ body, stretch = '"' :: body

/-- A token that an error of grammar blames is one of the tokens. -/
theorem mem_of_remaining_eq_cons
    {tokens later : List Token}
    {error : GrammarError}
    {blamed : Token}
    (isError : error ∈ (readProgram tokens).errors)
    (remaining : error.remaining = blamed :: later) :
    blamed ∈ tokens := by
  obtain ⟨note, isNote, isFailure⟩ := List.mem_filterMap.mp isError
  have within := within_of_mem_notes isNote
  cases note with
  | parsed nodeClass line => cases isFailure
  | failed error =>
      cases isFailure
      have suffix : error.remaining <:+ tokens := within
      exact suffix.subset (remaining ▸ List.mem_cons_self)

theorem Fault.Blames.located
    {source : String}
    {fault : Fault}
    {stretch : List Char}
    (blames : fault.Blames source stretch) :
    ∃ offset line, fault.Located source stretch offset line := by
  cases blames with
  | lexical isError =>
      exact ⟨_, _, Lexer.stands_error isError, rfl, rfl, rfl,
        Lexer.exists_body_of_error isError⟩
  | token isError remaining =>
      have isToken := mem_of_remaining_eq_cons isError remaining
      unfold GrammarError.fault
      rw [remaining]
      exact ⟨_, _, Lexer.stands_token isToken, rfl, rfl, rfl, fun member =>
        (Lexer.exists_body_of_lineFeed isToken member).2⟩
  | finish isError remaining =>
      unfold GrammarError.fault
      rw [remaining]
      exact ⟨_, _, Lexer.stands_finish source, rfl, rfl, rfl, by simp⟩

/--
A report shows where a stretch of a text starts, which is the offset of a
fault: from the column on, the line of the place begins with the first line of
the stretch.  The line of the report is that of the excerpt and as many more
as there are line feeds in the stretch.
-/
inductive Report.Shows (source : String) (fault : Fault) (stretch : List Char) :
    Report → Prop where
  | mk
      {report : Report}
      {context : String}
      {column : Nat}
      (place : Text.Place source.toList) :
      fault.offset = some place.offset →
      report.context = some context →
      context ≠ "" →
      report.column = some (column : Int) →
      Text.firstLine stretch <+: place.line.drop (column - 1) →
      Text.shownNumber context = place.number →
      report.line = (Text.shownNumber context + Text.lineFeeds stretch : Nat) →
      (report.line ≠ (Text.shownNumber context : Nat) →
        ∃ body, stretch = '"' :: body ∧ '\n' ∈ body) →
      Shows source fault stretch report

/-- A runtime error is reported on the line of its excerpt. -/
inductive Report.OnLine : Report → Prop where
  | mk
      {report : Report}
      {context : String} :
      report.context = some context →
      context ≠ "" →
      report.line = (Text.shownNumber context : Nat) →
      OnLine report

/--
A stretch starts at a place, and ends as many lines below as it has line feeds.
-/
theorem Text.Stands.exists_place
    {text stretch : List Char}
    {offset line : Nat}
    (stands : Text.Stands text stretch offset line) :
    ∃ place : Text.Place text,
      place.offset = offset ∧
        line = place.number + Text.lineFeeds stretch ∧
        Text.firstLine stretch <+: place.after := by
  obtain @⟨before, after, isText, rfl, rfl⟩ := stands
  obtain ⟨place, isOffset⟩ :=
    @Text.exists_place text before.length (by simp [isText])
  refine ⟨place, isOffset, ?_, ?_⟩
  · rw [← place.lineAt_offset, isOffset, Text.lineAt, isText, List.take_left]
  · rw [← place.firstLine_drop_offset, isOffset, isText, List.drop_left]
    exact Text.firstLine_prefix stretch after

/-- What a report says of a fault that is found before a text runs. -/
theorem Fault.report_of_isStatic
    {fault : Fault}
    (isStatic : fault.origin.stage.isStatic = true)
    {source : String}
    {offset : Nat}
    (known : fault.offset = some offset) :
    (fault.report (some source)).line = fault.line ∧
      (fault.report (some source)).context = some (Text.excerpt source offset) ∧
      (fault.report (some source)).column =
        (Text.column? source offset).map Int.ofNat := by
  obtain ⟨origin, line, location, message, found⟩ := fault
  subst known
  cases origin with
  | lexical => exact ⟨rfl, rfl, rfl⟩
  | grammar => exact ⟨rfl, rfl, rfl⟩
  | runtime kind => cases isStatic

/-- The report of a located fault shows where the stretch starts. -/
theorem Fault.Located.shows
    {source : String}
    {fault : Fault}
    {stretch : List Char}
    {offset line : Nat}
    (located : fault.Located source stretch offset line) :
    Report.Shows source fault stretch (fault.report (some source)) := by
  obtain ⟨place, rfl, isLine, starts⟩ := located.stands.exists_place
  obtain ⟨reportLine, context, column⟩ :=
    Fault.report_of_isStatic located.isStatic located.offset
  rw [located.line, isLine] at reportLine
  rw [Text.column?_offset] at column
  have number := Text.shownNumber_excerpt place
  refine .mk place located.offset context (Text.excerpt_ne_empty place)
    column ?_ number ?_ ?_
  · rwa [place.drop_column]
  · rw [reportLine, number]
  · intro differs
    rw [reportLine, number] at differs
    have someLineFeed : Text.lineFeeds stretch ≠ 0 := by omega
    have member : '\n' ∈ stretch := by
      by_contra noLineFeed
      exact someLineFeed (List.count_eq_zero.mpr noLineFeed)
    obtain ⟨body, rfl⟩ := located.string member
    exact ⟨body, rfl, by simpa using member⟩

theorem Token.Among.kind_ne
    {tokens : List Token}
    {kinds : List Kind}
    {token : Token}
    (among : token.Among tokens kinds)
    {kind : Kind}
    (other : kind ∉ kinds) :
    token.kind ≠ kind :=
  fun same => other (same ▸ among.kind)

/-- In a well-formed tree no error blames a string. -/
theorem Node.Raises.kind_ne_string
    {tokens : List Token}
    {node : Node}
    {error : RuntimeError}
    (raises : node.Raises error)
    (formed : node.Everywhere (Node.Formed tokens)) :
    error.token.kind ≠ .string := by
  induction raises with
  | operand => exact Token.Among.kind_ne formed.here.marked (by decide)
  | operands => exact Token.Among.kind_ne formed.here.marked (by decide)
  | undefined => exact Token.Among.kind_ne formed.here.marked (by decide)
  | withoutValue => exact Token.Among.kind_ne formed.here.marked (by decide)
  | undeclared => exact Token.Among.kind_ne formed.here.marked (by decide)
  | broken => exact Token.Among.kind_ne formed.here.marked (by decide)
  | continued => exact Token.Among.kind_ne formed.here.marked (by decide)
  | inside member _ inductionHypothesis =>
      exact inductionHypothesis (formed.child member)

/-- A runtime error that blames one of some tokens, and no string. -/
structure RuntimeError.BlamesAmong
    (tokens : List Token)
    (error : RuntimeError) :
    Prop where
  member : error.token ∈ tokens
  noString : error.token.kind ≠ .string

/-- The faults of an interpretation blame tokens of the program. -/
theorem Evaluation.blamesAmong_of_interpret
    {tokens : List Token}
    {settings : Settings}
    {budget : Nat}
    {program : Program}
    {state after : State}
    {finished : Bool}
    (formed : ∀ stmt ∈ program, stmt.Formed tokens)
    (ended : interpret settings budget program state = some (finished, after))
    (unfailed : state.faults = [])
    {fault : Fault}
    (member : fault ∈ after.faults) :
    ∃ error : RuntimeError, fault = error.fault ∧ error.BlamesAmong tokens := by
  obtain ⟨progress, run, outcome⟩ := interpret_cases ended
  have keeps := faults_execProgram run
  rw [faults_atGlobals, unfailed] at keeps
  rcases outcome with ⟨-, -, rfl⟩ | ⟨error, stopped, -, rfl⟩
  · rw [keeps] at member
    cases member
  · rw [faults_recordError, keeps] at member
    obtain ⟨stmt, isStmt, raises⟩ := raises_of_execProgram run stopped
    have nodes := (formed stmt isStmt).nodes
    exact ⟨error, by simpa using member, (raises.known nodes).1,
      raises.kind_ne_string nodes⟩

/-- The runtime errors of a run blame tokens of its text. -/
theorem Session.blamesAmong_of_run?
    {budget : Nat}
    {session : Session}
    {source : String}
    {run : SourceRun}
    (ran : session.run? budget source = some run)
    {fault : Fault}
    (member : fault ∈ run.faults)
    (atRuntime : fault.origin.stage = .runtime) :
    ∃ error : RuntimeError,
      fault = error.fault ∧
        error.BlamesAmong (Lexer.scan source).stream.tokens := by
  rcases cases_of_run? ran with
    ⟨faulty, -⟩ | ⟨clean, succeeded, state, interpreted, rfl⟩
  · have found : run.faults = (Analysis.ofSource source).faults := by
      cases ends_of_run? ran with
      | refused _ _ found => exact found
      | finished clean => exact absurd clean faulty
      | stopped clean => exact absurd clean faulty
    have isStatic := isStatic_of_mem_faults (found ▸ member)
    rw [atRuntime] at isStatic
    cases isStatic
  · rw [session.faults_runOf clean] at member
    exact Evaluation.blamesAmong_of_interpret (fun stmt => formed_of_mem_found)
      interpreted rfl member

/--
An error that blames a token other than a string
is reported on the line of its excerpt.
-/
theorem RuntimeError.BlamesAmong.onLine
    {source : String}
    {error : RuntimeError}
    (blames : error.BlamesAmong (Lexer.scan source).stream.tokens) :
    Report.OnLine (error.fault.report (some source)) := by
  obtain ⟨place, isOffset, isLine, -⟩ :=
    (Lexer.stands_token blames.member).exists_place
  have noLineFeed : Text.lineFeeds error.token.lexeme.toList = 0 :=
    List.count_eq_zero.mpr fun inLexeme =>
      blames.noString (Lexer.exists_body_of_lineFeed blames.member inLexeme).1
  rw [noLineFeed, Nat.add_zero] at isLine
  have context : (error.fault.report (some source)).context =
      some (Text.excerpt source place.offset) := by
    rw [isOffset]
    rfl
  refine .mk context (Text.excerpt_ne_empty place) ?_
  rw [Text.shownNumber_excerpt place, ← isLine]
  rfl

/--
The positions that a text is given are right, in
its tokens and in all reports of errors.
-/
structure PositionsRight (source : String) : Prop where
  /-- The line of a token is the line on which its lexeme ends. -/
  tokens :
    ∀ token ∈ (Lexer.scan source).stream.tokens,
      token.line =
        1 + Text.lineFeeds
          (source.toList.take (token.offset + token.lexeme.toList.length))
  finish :
    (Lexer.scan source).stream.finish.line = 1 + Text.lineFeeds source.toList
  /-- Each error that is found before the text runs blames a stretch of it. -/
  blamed :
    ∀ fault ∈ (Analysis.ofSource source).faults,
      ∃ stretch, fault.Blames source stretch
  /-- Its report shows the place where the stretch starts. -/
  shown :
    ∀ fault stretch,
      fault.Blames source stretch →
        Report.Shows source fault stretch (fault.report (some source))
  /-- The line of a runtime error is the line of its excerpt. -/
  stopped :
    ∀ (session : Session) run,
      session.Runs source run →
        ∀ fault ∈ run.faults,
          fault.origin.stage = .runtime → Report.OnLine (fault.report (some source))

/--
The tokens of every text have the lines on which they end, and every report of an
error shows the place where what it blames starts.  Its line is further down only if
it blames a string that goes on over several lines, and never at runtime.
-/
theorem positionsRight
    (source : String) :
    PositionsRight source := by
  constructor
  case tokens =>
    intro token member
    exact Lexer.line_of_stands (Lexer.stands_token member)
  case finish =>
    rfl
  case blamed =>
    intro fault member
    exact exists_blames member
  case shown =>
    intro fault stretch blames
    obtain ⟨offset, line, located⟩ := blames.located
    exact located.shows
  case stopped =>
    rintro session run ⟨budget, ran⟩ fault member atRuntime
    obtain ⟨error, rfl, blames⟩ := Session.blamesAmong_of_run? ran member atRuntime
    exact blames.onLine

end Lox
