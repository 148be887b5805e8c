import Lox.Proofs.Evaluation.Formula
import Lox.Proofs.Session.ExpressionText
import Lox.Proofs.Session.Pieces
import Lox.Proofs.Token.Layout

namespace Lox

/-!
# Printing arithmetic

The word that starts a print statement moves the tokens behind it and changes
nothing else about them.  Main statement: a text that is read as an arithmetic
expression is written as one formula, and the statement that prints it writes the
value of the formula, or else ends with the error of its first division by zero.
-/

namespace Lexer

/-- The keyword at the start of a text. -/
def printToken :
    Token where
  kind := .printKeyword
  lexeme := "print"
  literal := .nil
  line := 1
  offset := 0

theorem pieces_print
    (behind : List Char) :
    pieces ("print ".toList ++ behind) =
      ⟨.token .printKeyword, "print".toList⟩ :: ⟨.blank, [' ']⟩ ::
        pieces behind := by
  have word : Lexeme (.token .printKeyword) "print".toList :=
    .keyword (by simp [Word, Letter, Digit]) (by decide)
  obtain ⟨first, rest, isText, rule⟩ :=
    word.cutBefore (show ' ' ∈ blanks by decide) behind
  have cutWord := pieces_append_of_rule rule
  rw [← isText] at cutWord
  have cutBlank : pieces (' ' :: behind) = ⟨.blank, [' ']⟩ :: pieces behind :=
    @pieces_append_of_rule ' ' [] behind .blank (.blank (by decide))
  rw [← cutBlank, ← cutWord]
  rfl

/-- Behind the keyword and a blank a text is scanned as on its own. -/
theorem scan_print
    (source : String) :
    scan ("print " ++ source) =
      { stream :=
          { tokens :=
              printToken :: (scan source).stream.tokens.map (Token.moved 0 6)
            finish := (scan source).stream.finish.moved 0 6 }
        errors := (scan source).errors.map (LexicalError.moved 0 6) } := by
  have placed : place 0 1 (pieces ("print " ++ source).toList) =
      ⟨⟨.token .printKeyword, "print".toList⟩, 0, 1⟩ :: ⟨⟨.blank, [' ']⟩, 5, 1⟩ ::
        (place 0 1 (pieces source.toList)).map (Placed.moved 0 6) := by
    rw [String.toList_append, pieces_print, ← place_moved]
    rfl
  have finish : (⟨1 + Text.lineFeeds ("print " ++ source).toList,
      ("print " ++ source).toList.length⟩ : EndMark) =
        EndMark.moved 0 6
          ⟨1 + Text.lineFeeds source.toList, source.toList.length⟩ := by
    have noLineFeed : Text.lineFeeds "print ".toList = 0 := by decide
    have length : "print ".toList.length = 6 := rfl
    rw [String.toList_append, lineFeeds_append, noLineFeed,
      List.length_append, length]
    simp only [EndMark.moved, EndMark.mk.injEq]
    omega
  simp only [scan, placed, finish, List.filterMap_cons, List.filterMap_map,
    List.map_filterMap, Function.comp_def, token?_moved, error?_moved]
  rfl

end Lexer

open Grammar (Declaration Declarations Derives)

namespace Session

/-- The state in which the only statement of a text is printed. -/
def startOfPrint
    (session : Session) :
    Evaluation.State :=
  (Evaluation.State.start session.environment session.loopDepth).atGlobals.begin
    session.settings .print

/--
The state in which the only statement of a text ends, and whether it ends well.
-/
def endOfPrint
    (session : Session) :
    Except RuntimeError Value → Bool × Evaluation.State
  | .ok value => (true, session.startOfPrint.record (.printed value.display))
  | .error error => (false, session.startOfPrint.recordError session.settings error)

variable {session : Session} {expr : Expr} {formula : Formula}

@[simp] theorem faults_startOfPrint :
    session.startOfPrint.faults = [] := by
  rw [startOfPrint, Evaluation.State.begin, Evaluation.faults_trace]
  rfl

@[simp] theorem printedText?_startOfPrint :
    session.startOfPrint.events.filterMap Event.printedText? = [] := by
  unfold startOfPrint Evaluation.State.begin Evaluation.State.trace
  split <;> rfl

@[simp] theorem environment_startOfPrint :
    session.startOfPrint.environment =
      { session.environment with locals := [] } := by
  rw [startOfPrint, Evaluation.State.environment_begin]
  rfl

theorem printedText?_record
    (state : Evaluation.State)
    (text : String) :
    (state.record (.printed text)).events.filterMap Event.printedText? =
      state.events.filterMap Event.printedText? ++ [text] := by
  simp [Evaluation.State.events, Evaluation.State.record, Event.printedText?]

/-- Printing changes no scope. -/
theorem environment_endOfPrint
    (outcome : Except RuntimeError Value) :
    (session.endOfPrint outcome).2.environment =
      { session.environment with locals := [] } := by
  cases outcome with
  | ok value => exact environment_startOfPrint
  | error error =>
      exact (Evaluation.State.environment_recordError ..).trans
        environment_startOfPrint

/-- A program that prints a formula ends with the outcome of the formula. -/
theorem interpret_print
    (isFormula : expr.formula? = some formula)
    (budget : Nat) :
    Evaluation.interpret session.settings budget [.print expr]
        (.start session.environment session.loopDepth) =
      some (session.endOfPrint formula.outcome) := by
  have evaluated : session.startOfPrint.evaluate expr =
      (formula.outcome, session.startOfPrint) := by
    simp only [Evaluation.State.evaluate, Evaluation.eval_of_formula isFormula]
  rw [startOfPrint] at evaluated
  simp only [Evaluation.interpret, Evaluation.execProgram, Evaluation.exec,
    Evaluation.runPrint, Evaluation.withValue, evaluated]
  cases formula.outcome <;> rfl

/--
What the run of a text does to a session if the text prints a formula behind so many
characters.
-/
structure Calculates
    (session : Session)
    (characters : Nat)
    (formula : Formula)
    (run : SourceRun) :
    Prop where
  finished :
    formula.zeroDivision? = none →
      run.status = .ok ∧
        run.output = [(Value.number formula.value).display] ∧
        run.faults = []
  /-- The error is blamed on the division, and it is the only one. -/
  stopped :
    ∀ slash, formula.zeroDivision? = some slash →
      run.status = .runtimeError ∧
        run.output = [] ∧
        run.faults =
          [⟨.runtime .divideByZero, slash.line, "", "Division by zero.",
            some (slash.offset + characters)⟩]
  globals : run.session.environment.globals = session.environment.globals
  outer : run.session.environment.outer = session.environment.outer

/-- The run that ends with the outcome of a formula calculates it. -/
theorem calculates_runOf
    {source : String}
    (clean : (Analysis.ofSource source).faults = []) :
    session.Calculates 0 formula
      (session.runOf source (session.endOfPrint formula.outcome)) := by
  have faults := session.faults_runOf clean (session.endOfPrint formula.outcome)
  have output := session.output_runOf source (session.endOfPrint formula.outcome)
  have environment : (session.endOfPrint formula.outcome).2.environment =
      { session.environment with locals := [] } :=
        environment_endOfPrint formula.outcome
  constructor
  · intro finishes
    have isValue : formula.outcome = .ok (.number formula.value) := by
      rw [Formula.outcome, finishes]
    rw [isValue] at faults output ⊢
    refine ⟨rfl, output.trans ?_, faults.trans ?_⟩
    · simp [endOfPrint, printedText?_record]
    · simp [endOfPrint]
  · intro slash stops
    have isError : formula.outcome = .error ⟨.divisionByZero, slash⟩ := by
      rw [Formula.outcome, stops]
    rw [isError] at faults output ⊢
    refine ⟨rfl, output.trans ?_, faults.trans ?_⟩
    · simp [endOfPrint, Evaluation.printedText?_recordError]
    · simp [endOfPrint, Evaluation.faults_recordError]
      rfl
  · have globals := congrArg Environment.globals environment
    exact globals
  · have outer := congrArg Environment.outer environment
    exact outer

/-- A text without errors that prints a formula calculates it. -/
theorem exists_run_calculates
    {source : String}
    (clean : (Lexer.scan source).errors = [])
    (derive : Declarations .nearest (Lexer.scan source).stream.tokens [.print expr])
    (isFormula : expr.formula? = some formula)
    (budget : Nat)
    (session : Session) :
    ∃ run, session.run? budget source = some run ∧
      session.Calculates 0 formula run := by
  obtain ⟨read, found⟩ := readProgram_found_iff.mpr derive
  have noFaults : (Analysis.ofSource source).faults = [] :=
    Analysis.faults_eq_nil_iff.mpr ⟨clean, read⟩
  have isProgram : (Analysis.ofSource source).reading.found = [.print expr] := found
  refine ⟨session.runOf source (session.endOfPrint formula.outcome), ?_,
    calculates_runOf noFaults⟩
  rw [run?_of_clean budget session noFaults, isProgram,
    interpret_print isFormula, Option.map_some]

/-- A formula moved behind some characters is the formula behind them. -/
theorem Calculates.of_moved
    {characters : Nat}
    {run : SourceRun}
    (calculates :
      session.Calculates 0 (formula.map (Token.moved 0 characters)) run) :
    session.Calculates characters formula run where
  finished finishes := by
    have stays :=
      calculates.finished (by rw [Formula.zeroDivision?_map, finishes]; rfl)
    rwa [Formula.value_map] at stays
  stopped slash stops :=
    calculates.stopped (slash.moved 0 characters)
      (by rw [Formula.zeroDivision?_map, stops]; rfl)
  globals := calculates.globals
  outer := calculates.outer

end Session

/--
Tokens written as a formula derive as the
program that prints it, if they are framed.
-/
theorem exists_print_of_written
    {tokens : List Token}
    {formula : Formula}
    {semicolon : Token}
    (written : Formula.Written .sum tokens formula)
    (ends : semicolon.kind = .semicolon) :
    ∃ expr,
      Declarations .nearest
        (Lexer.printToken :: (tokens ++ [semicolon])) [.print expr] ∧
        expr.formula? = some formula := by
  obtain ⟨expr, derives, isFormula⟩ := Grammar.exists_derives_of_written written
  have first :
      Declaration .nearest
        (Lexer.printToken :: (tokens ++ [semicolon])) (.print expr) :=
    .statement (.print rfl derives ends)
  exact ⟨expr, by simpa using Declarations.cons first .nil, isFormula⟩

/-- A text holds a formula and a semicolon behind it. -/
structure EndsFormula
    (source : String)
    (formula : Formula) :
    Prop where
  clean : (Lexer.scan source).errors = []
  tokens :
    ∃ written semicolon,
      (Lexer.scan source).stream.tokens = written ++ [semicolon] ∧
        Formula.Written .sum written formula ∧ semicolon.kind = .semicolon

/-- Behind the keyword such a text is a program that calculates the formula. -/
theorem EndsFormula.exists_run
    {source : String}
    {formula : Formula}
    (ends : EndsFormula source formula)
    (session : Session)
    (budget : Nat) :
    ∃ run,
      session.run? budget ("print " ++ source) = some run ∧
        session.Calculates 6 formula run := by
  have scanned := Lexer.scan_print source
  have clean : (Lexer.scan ("print " ++ source)).errors = [] := by
    rw [scanned]
    simp [ends.clean]
  obtain ⟨tokens, semicolon, isScanned, written, isSemicolon⟩ := ends.tokens
  have moved := written.map (keepsReading_moved 0 6)
  have isSemicolonMoved : (semicolon.moved 0 6).kind = .semicolon := isSemicolon
  obtain ⟨printed, derive, isMoved⟩ :=
    exists_print_of_written moved isSemicolonMoved
  have program : Declarations .nearest
      (Lexer.scan ("print " ++ source)).stream.tokens [.print printed] := by
    rw [scanned, isScanned, List.map_append]
    exact derive
  obtain ⟨run, ran, calculates⟩ :=
    Session.exists_run_calculates clean program isMoved budget session
  exact ⟨run, ran, calculates.of_moved⟩

/--
A text is a calculation: it is written as a
formula, and printing it calculates that.
-/
structure IsCalculation
    (source : String)
    (formula : Formula) :
    Prop where
  written : Formula.Written .sum (Lexer.scan source).stream.tokens formula
  unique :
    ∀ other, Formula.Written .sum (Lexer.scan source).stream.tokens other →
      other = formula
  /-- The line feed ends a comment behind the formula. -/
  printed :
    ∀ (session : Session) (budget : Nat),
      ∃ run,
        session.run? budget ("print " ++ source ++ "\n;") = some run ∧
          session.Calculates 6 formula run

/--
A text that is read as an expression of numbers, parentheses, minus signs
and the four operations is a calculation.
-/
theorem exists_isCalculation
    {reader : TextReader}
    {source : String}
    {expr : Expr}
    (read : (reader.readExpression source).1.value? = some expr)
    (arithmetic : expr.IsArithmetic) :
    ∃ formula, IsCalculation source formula := by
  obtain ⟨clean, derives⟩ := TextReader.value?_readExpression_eq_some_iff.mp read
  obtain ⟨formula, isFormula⟩ := arithmetic.exists_formula
  have written : Formula.Written .sum (Lexer.scan source).stream.tokens formula :=
    Grammar.written_of_derives derives
      (fun _ => Lexer.denotes_of_mem_scan) isFormula
  refine ⟨formula, written, ?_, ?_⟩
  · intro other otherWritten
    obtain ⟨otherExpr, otherDerives, isOther⟩ :=
      Grammar.exists_derives_of_written otherWritten
    cases derives.unique otherDerives
    exact Option.some.inj (isOther.symm.trans isFormula)
  · intro session budget
    obtain ⟨semicolon, isSemicolon, tokens⟩ :=
      Lexer.exists_tokens_append_semicolon clean
    have ends : EndsFormula (source ++ "\n;") formula :=
      ⟨(Lexer.errors_append_semicolon_eq_nil_iff _).mpr clean, _, semicolon, tokens,
        written, isSemicolon⟩
    obtain ⟨run, ran, calculates⟩ := ends.exists_run session budget
    exact ⟨run, by rwa [String.append_assoc], calculates⟩

/-- Of two divisions by zero the first is to blame; it is on the second line. -/
theorem isCalculation_of_two_zero_divisions :
    ∃ formula, IsCalculation "1 / -2\n/ (3 - 3) + 1 / 0 // two" formula := by
  have read :
      ((TextReader.fresh false).readExpression
        "1 / -2\n/ (3 - 3) + 1 / 0 // two").1.value? =
      some (.binary
        (.binary
          (.binary (.literal (.number 1)) ⟨.slash, "/", .nil, 1, 2⟩
            (.unary ⟨.minus, "-", .nil, 1, 4⟩ (.literal (.number 2))))
          ⟨.slash, "/", .nil, 2, 7⟩
          (.grouping (.binary (.literal (.number 3)) ⟨.minus, "-", .nil, 2, 12⟩
            (.literal (.number 3)))))
        ⟨.plus, "+", .nil, 2, 17⟩
        (.binary (.literal (.number 1)) ⟨.slash, "/", .nil, 2, 21⟩
          (.literal (.number 0)))) := by
    decide +kernel
  exact exists_isCalculation read
    (.binary
      (.binary (.binary .number (by decide) (.negative rfl .number)) (by decide)
        (.grouping (.binary .number (by decide) .number)))
      (by decide)
      (.binary .number (by decide) .number))

end Lox
