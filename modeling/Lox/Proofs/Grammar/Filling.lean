import Lox.Proofs.Grammar.Expectation

namespace Lox.Grammar.Relaxed

/-!
# What fills the expected symbols

The tokens that fill a symbol are those of a part of the relaxed grammar.  A token
that fits a symbol, with what fills the symbols behind it, fills the symbol itself.
Main statement: marked tokens that are accepted fill the symbols, with further
declarations behind them.
-/

/-- Tokens fill a symbol. -/
inductive Fills : Symbol → List Marked → Prop where
  | opening
      {token : Marked} :
      token.Fits [.leftParen] →
      Fills .opening [token]
  | close
      {closing : Closing}
      {token : Marked} :
      token.Fits [closing.kind] →
      Fills (.close closing) [token]
  | name
      {token : Marked} :
      token.Fits [.identifier] →
      Fills .name [token]
  | operand
      {fresh : Bool}
      {closing : Closing}
      {token : Marked}
      {first rest : List Marked} :
      Derives .unary first →
      Behind (fresh && isName first) rest →
      token.Fits [closing.kind] →
      Fills (.operand fresh closing) (first ++ (rest ++ [token]))
  | behind
      {bare : Bool}
      {closing : Closing}
      {token : Marked}
      {rest : List Marked} :
      Behind bare rest →
      token.Fits [closing.kind] →
      Fills (.behind bare closing) (rest ++ [token])
  | clause
      {closing : Closing}
      {token : Marked}
      {tokens : List Marked} :
      ForClause tokens →
      token.Fits [closing.kind] →
      Fills (.clause closing) (tokens ++ [token])
  | noValue
      {semicolon : Marked} :
      semicolon.Fits [.semicolon] →
      Fills .value [semicolon]
  | value
      {equals semicolon : Marked}
      {tokens : List Marked} :
      equals.Fits [.equal] →
      Derives .assignment tokens →
      semicolon.Fits [.semicolon] →
      Fills .value (equals :: (tokens ++ [semicolon]))
  | initial
      {tokens : List Marked} :
      ForInitial tokens →
      Fills .initial tokens
  | statement
      {tokens : List Marked} :
      Statement tokens →
      Fills .statement tokens
  | noOtherwise :
      Fills .otherwise []
  | otherwise
      {keyword : Marked}
      {tokens : List Marked} :
      keyword.Fits [.elseKeyword] →
      Statement tokens →
      Fills .otherwise (keyword :: tokens)
  | varDeclaration
      {tokens : List Marked} :
      VarDeclaration tokens →
      Fills .declaration tokens
  | declaration
      {tokens : List Marked} :
      Statement tokens →
      Fills .declaration tokens
  | block
      {closing : Marked}
      {tokens : List Marked} :
      Declarations tokens →
      closing.Fits [.rightBrace] →
      Fills .block (tokens ++ [closing])

/-- Tokens fill the symbols of a list one behind the other. -/
inductive FillsAll : List Symbol → List Marked → Prop where
  | nil :
      FillsAll [] []
  | cons
      {symbol : Symbol}
      {expected : List Symbol}
      {tokens later : List Marked} :
      Fills symbol tokens →
      FillsAll expected later →
      FillsAll (symbol :: expected) (tokens ++ later)

namespace FillsAll

variable {symbol : Symbol} {expected inside : List Symbol} {tokens : List Marked}

/-- Tokens that fill several symbols are split behind those of the first. -/
theorem exists_of_cons
    (fills : FillsAll (symbol :: expected) tokens) :
    ∃ first later,
      tokens = first ++ later ∧ Fills symbol first ∧ FillsAll expected later := by
  cases fills with
  | cons first later => exact ⟨_, _, rfl, first, later⟩

theorem eq_nil
    (fills : FillsAll [] tokens) :
    tokens = [] := by
  cases fills
  rfl

/-- Tokens that fill an expectation are split as the expectation is. -/
theorem exists_of_append
    (fills : FillsAll (inside ++ expected) tokens) :
    ∃ first later, tokens = first ++ later ∧ FillsAll inside first ∧
      FillsAll expected later := by
  induction inside generalizing tokens with
  | nil => exact ⟨[], tokens, rfl, .nil, fills⟩
  | cons symbol inside inductionHypothesis =>
      obtain ⟨first, later, rfl, fillsFirst, fillsLater⟩ := fills.exists_of_cons
      obtain ⟨second, last, rfl, fillsSecond, fillsLast⟩ :=
        inductionHypothesis fillsLater
      exact ⟨first ++ second, last, by rw [List.append_assoc],
        .cons fillsFirst fillsSecond, fillsLast⟩

theorem of_singleton
    (fills : FillsAll [symbol] tokens) :
    Fills symbol tokens := by
  obtain ⟨first, later, rfl, fillsFirst, fillsLater⟩ := fills.exists_of_cons
  rw [fillsLater.eq_nil, List.append_nil]
  exact fillsFirst

end FillsAll

section Sound

variable {expected inside : List Symbol} {token : Marked} {tokens : List Marked}

/-- What fills a fresh operand is an assignment and the token that closes it. -/
theorem exists_of_fills_operand
    {closing : Closing}
    (fills : Fills (.operand true closing) tokens) :
    ∃ inner last, tokens = inner ++ [last] ∧ Derives .assignment inner ∧
      last.Fits [closing.kind] := by
  cases fills with
  | @operand _ _ last first rest operand behind closes =>
      rw [Bool.true_and] at behind
      exact ⟨first ++ rest, last, by simp, operand.withBehind behind, closes⟩

/-- What fills the place behind an operand ends in the closing token. -/
theorem exists_of_fills_behind
    {bare : Bool}
    {closing : Closing}
    (fills : Fills (.behind bare closing) tokens) :
    ∃ rest last, tokens = rest ++ [last] ∧ Behind bare rest ∧
      last.Fits [closing.kind] := by
  cases fills with
  | behind rest closes => exact ⟨_, _, rfl, rest, closes⟩

/-- A first token of an operand, with what fills the symbols behind it. -/
theorem fills_of_operandTurn
    {fresh : Bool}
    {closing : Closing}
    (turns : Symbol.operandTurn fresh closing token.token.kind = some inside)
    (unmarked : token.misplaced = false)
    (fills : FillsAll inside tokens) :
    Fills (.operand fresh closing) (token :: tokens) := by
  unfold Symbol.operandTurn at turns
  split at turns
  · rename_i isFront
    cases turns
    cases fills.of_singleton with
    | @operand _ _ last first rest operand behind closes =>
        have more : isName (token :: first) = false := isName_cons operand.ne_nil
        exact @Fills.operand fresh closing last (token :: first) rest
          (.front ⟨isFront, unmarked⟩ operand) (by simpa [more] using behind) closes
  · split at turns
    · rename_i isOpening
      cases turns
      obtain ⟨group, later, rfl, fillsGroup, fillsLater⟩ := fills.exists_of_cons
      obtain ⟨inner, last, rfl, assignment, closes⟩ :=
        exists_of_fills_operand fillsGroup
      obtain ⟨rest, final, rfl, behind, ends⟩ :=
        exists_of_fills_behind fillsLater.of_singleton
      have group : Derives .primary (token :: (inner ++ [last])) :=
        .group ⟨by simp [isOpening], unmarked⟩ assignment closes
      have more : isName (token :: (inner ++ [last])) = false :=
        isName_cons (by simp)
      exact @Fills.operand fresh closing final (token :: (inner ++ [last])) rest
        (.single (by decide) group)
        (by simpa [more] using behind) ends
    · split at turns
      · rename_i isLeaf
        cases turns
        obtain ⟨rest, final, rfl, behind, ends⟩ :=
          exists_of_fills_behind fills.of_singleton
        exact @Fills.operand fresh closing final [token] rest
          (.single (by decide) (.leaf ⟨isLeaf, unmarked⟩)) behind ends
      · cases turns

/-- The symbols of a condition in parentheses hold its tokens. -/
theorem exists_of_fills_condition
    (fills : FillsAll (.opening :: .operand true .rightParen :: expected) tokens) :
    ∃ opening condition closing later,
      tokens = opening :: (condition ++ closing :: later) ∧
        opening.Fits [.leftParen] ∧ Derives .assignment condition ∧
          closing.Fits [.rightParen] ∧ FillsAll expected later := by
  obtain ⟨first, behind, rfl, fillsOpening, fillsBehind⟩ := fills.exists_of_cons
  obtain ⟨inner, later, rfl, fillsInner, fillsLater⟩ := fillsBehind.exists_of_cons
  obtain ⟨condition, closing, rfl, assignment, closes⟩ :=
    exists_of_fills_operand fillsInner
  cases fillsOpening with
  | @opening opening opens =>
      exact ⟨opening, condition, closing, later, by simp, opens, assignment,
        closes, fillsLater⟩

/-- A variable declaration is its keyword with what fills its name and its value. -/
theorem varDeclaration_of_fills
    (isVar : token.Fits [.varKeyword])
    (fills : FillsAll [.name, .value] tokens) :
    VarDeclaration (token :: tokens) := by
  obtain ⟨first, later, rfl, fillsName, fillsLater⟩ := fills.exists_of_cons
  cases fillsName with
  | name named =>
      cases fillsLater.of_singleton with
      | noValue ends => exact .plain isVar named ends
      | value equal initial ends =>
          exact .initialized isVar named equal initial ends

/-- What fills an operand up to a semicolon is an expression statement. -/
theorem expressionStatement_of_fills
    (fills : Fills (.operand true .semicolon) tokens) :
    ExpressionStatement tokens := by
  obtain ⟨inner, last, rfl, assignment, closes⟩ := exists_of_fills_operand fills
  exact .mk assignment closes

/-- A first token of a statement, with what fills the symbols behind it. -/
theorem statement_of_statementTurn
    (turns : Symbol.statementTurn token.token.kind = some inside)
    (unmarked : token.misplaced = false)
    (fills : FillsAll inside tokens) :
    Statement (token :: tokens) := by
  have fits : ∀ {kinds : List Kind}, token.token.kind ∈ kinds → token.Fits kinds :=
    fun isKind => ⟨isKind, unmarked⟩
  unfold Symbol.statementTurn at turns
  split at turns
  case h_1 isIf =>
    cases turns
    obtain ⟨opening, condition, closing, later, rfl, opens, assignment,
      closes, fillsLater⟩ :=
      exists_of_fills_condition fills
    obtain ⟨thenPart, last, rfl, fillsThen, fillsLast⟩ := fillsLater.exists_of_cons
    cases fillsThen with
    | statement thenDerives =>
        cases fillsLast.of_singleton with
        | noOtherwise =>
            rw [List.append_nil]
            exact .ifThen (fits (by simp [isIf])) opens assignment
              closes thenDerives
        | otherwise alternative elseDerives =>
            exact .ifElse (fits (by simp [isIf])) opens assignment closes
              thenDerives alternative elseDerives
  case h_2 isWhile =>
    cases turns
    obtain ⟨opening, condition, closing, later, rfl, opens, assignment,
      closes, fillsLater⟩ :=
      exists_of_fills_condition fills
    cases fillsLater.of_singleton with
    | statement body =>
        exact .whileLoop (fits (by simp [isWhile])) opens assignment closes body
  case h_3 isFor =>
    cases turns
    obtain ⟨opening, behindOpening, rfl, fillsOpening, fillsBehind⟩ :=
      fills.exists_of_cons
    obtain ⟨initial, behindInitial, rfl, fillsInitial, fillsClauses⟩ :=
      fillsBehind.exists_of_cons
    obtain ⟨condition, behindCondition, rfl, fillsCondition, fillsIncrement⟩ :=
      fillsClauses.exists_of_cons
    obtain ⟨increment, body, rfl, fillsRound, fillsBody⟩ :=
      fillsIncrement.exists_of_cons
    cases fillsOpening with
    | opening opens =>
      cases fillsInitial with
      | initial initialDerives =>
        cases fillsCondition with
        | clause conditionDerives ends =>
          cases fillsRound with
          | clause incrementDerives closes =>
            cases fillsBody.of_singleton with
            | statement bodyDerives =>
                have starts : token.Fits [.forKeyword] := fits (by simp [isFor])
                have whole :=
                  Statement.forLoop starts opens initialDerives conditionDerives
                    ends incrementDerives closes bodyDerives
                simpa using whole
  case h_4 isPrint =>
    cases turns
    obtain ⟨inner, last, rfl, assignment, ends⟩ :=
      exists_of_fills_operand fills.of_singleton
    exact .print (fits (by simp [isPrint])) assignment ends
  case h_5 isBreak =>
    cases turns
    cases fills.of_singleton with
    | close ends => exact .jump (fits (by simp [isBreak])) ends
  case h_6 isContinue =>
    cases turns
    cases fills.of_singleton with
    | close ends => exact .jump (fits (by simp [isContinue])) ends
  case h_7 isBrace =>
    cases turns
    cases fills.of_singleton with
    | block declarations closes =>
        exact .block (fits (by simp [isBrace])) declarations closes
  case h_8 =>
    exact .expression
      (expressionStatement_of_fills (fills_of_operandTurn turns unmarked fills))

/-- A first token of a declaration, with what fills the symbols behind it. -/
theorem fills_of_declarationTurn
    (turns : Symbol.declarationTurn token.token.kind = some inside)
    (unmarked : token.misplaced = false)
    (fills : FillsAll inside tokens) :
    Fills .declaration (token :: tokens) := by
  unfold Symbol.declarationTurn at turns
  split at turns
  · rename_i isVar
    cases turns
    exact .varDeclaration
      (varDeclaration_of_fills ⟨by simp [isVar], unmarked⟩ fills)
  · exact .declaration (statement_of_statementTurn turns unmarked fills)

/-- A declaration in front of declarations adds one to them. -/
theorem declarations_of_fills
    {first later : List Marked}
    (fills : Fills .declaration first)
    (others : Declarations later) :
    Declarations (first ++ later) := by
  cases fills with
  | varDeclaration derives => exact .var derives others
  | declaration derives => exact .statement derives others

/-- A first token that fits a symbol, with what fills the symbols behind it. -/
theorem fills_of_turn
    {symbol : Symbol}
    (turns : symbol.turn token.token.kind = some inside)
    (marks : token.misplaced = symbol.misplaces token.token.kind)
    (fills : FillsAll inside tokens) :
    Fills symbol (token :: tokens) := by
  cases symbol with
  | behind bare closing =>
      simp only [Symbol.turn] at turns
      simp only [Symbol.misplaces] at marks
      split at turns
      · rename_i isClosing
        cases turns
        have unmarked : token.misplaced = false := by
          cases closing <;> simp [marks, isClosing, Closing.kind]
        rw [fills.eq_nil]
        exact @Fills.behind bare closing token [] .nothing
          ⟨by simp [isClosing], unmarked⟩
      · split at turns
        · rename_i isEqual
          cases turns
          obtain ⟨value, last, rfl, assignment, closes⟩ :=
            exists_of_fills_operand fills.of_singleton
          have isToken : token = ⟨token.token, !bare⟩ := by
            cases token
            simp_all
          rw [isToken]
          exact Fills.behind (.equals isEqual assignment) closes
        · split at turns
          · rename_i notEqual isOperator
            cases turns
            have unmarked : token.misplaced = false := by simp [marks, notEqual]
            cases fills.of_singleton with
            | @operand _ _ last first rest operand behind closes =>
                have longer : Behind bare (token :: (first ++ rest)) :=
                  .operator ⟨isOperator, unmarked⟩ operand behind
                have whole := Fills.behind longer closes
                simpa using whole
          · cases turns
  | opening | name =>
      simp only [Symbol.turn] at turns
      split at turns
      · rename_i isKind
        cases turns
        rw [fills.eq_nil]
        constructor
        exact ⟨by simp [isKind], marks⟩
      · cases turns
  | close closing =>
      simp only [Symbol.turn] at turns
      split at turns
      · rename_i isKind
        cases turns
        rw [fills.eq_nil]
        exact .close ⟨by simp [isKind], marks⟩
      · cases turns
  | operand fresh closing => exact fills_of_operandTurn turns marks fills
  | clause closing =>
      simp only [Symbol.turn] at turns
      split at turns
      · rename_i isClosing
        cases turns
        rw [fills.eq_nil]
        exact @Fills.clause closing token [] .missing ⟨by simp [isClosing], marks⟩
      · obtain ⟨inner, last, whole, assignment, closes⟩ :=
          exists_of_fills_operand (fills_of_operandTurn turns marks fills)
        rw [whole]
        exact .clause (.given assignment) closes
  | value =>
      simp only [Symbol.turn] at turns
      split at turns
      · rename_i isSemicolon
        cases turns
        rw [fills.eq_nil]
        exact .noValue ⟨by simp [isSemicolon], marks⟩
      · split at turns
        · rename_i isEqual
          cases turns
          obtain ⟨inner, last, rfl, assignment, ends⟩ :=
            exists_of_fills_operand fills.of_singleton
          exact .value ⟨by simp [isEqual], marks⟩ assignment ends
        · cases turns
  | initial =>
      simp only [Symbol.turn] at turns
      split at turns
      · rename_i isSemicolon
        cases turns
        rw [fills.eq_nil]
        exact .initial (.missing ⟨by simp [isSemicolon], marks⟩)
      · split at turns
        · rename_i isVar
          cases turns
          exact .initial
            (.declaration (varDeclaration_of_fills ⟨by simp [isVar], marks⟩ fills))
        · exact .initial
            (.expression (expressionStatement_of_fills
                (fills_of_operandTurn turns marks fills)))
  | statement => exact .statement (statement_of_statementTurn turns marks fills)
  | otherwise =>
      simp only [Symbol.turn] at turns
      split at turns
      · rename_i isElse
        cases turns
        cases fills.of_singleton with
        | statement derives => exact .otherwise ⟨by simp [isElse], marks⟩ derives
      · cases turns
  | declaration => exact fills_of_declarationTurn turns marks fills
  | block =>
      simp only [Symbol.turn] at turns
      split at turns
      · rename_i isBrace
        cases turns
        rw [fills.eq_nil]
        exact @Fills.block token [] .nil ⟨by simp [isBrace], marks⟩
      · obtain ⟨first, turned, rfl⟩ := Option.map_eq_some_iff.mp turns
        obtain ⟨front, later, rfl, fillsFront, fillsLater⟩ := fills.exists_of_append
        cases fillsLater.of_singleton with
        | block others closes =>
            have declares := fills_of_declarationTurn turned marks fillsFront
            have whole := Fills.block (declarations_of_fills declares others) closes
            simpa using whole

/-- Tokens fill the symbols of a list, with more declarations behind them. -/
def Completes
    (expected : List Symbol)
    (tokens : List Marked) :
    Prop :=
  ∃ first later,
    tokens = first ++ later ∧ FillsAll expected first ∧ Declarations later

/-- Symbols that may be left empty are filled by no token. -/
theorem fillsAll_of_optional
    (optional : expected.all Symbol.optional) :
    FillsAll expected [] := by
  induction expected with
  | nil => exact .nil
  | cons symbol expected inductionHypothesis =>
      obtain ⟨isOptional, others⟩ := by simpa using optional
      obtain rfl := Symbol.eq_otherwise isOptional
      exact .cons .noOtherwise (inductionHypothesis (by simpa using others))

/--
A first token that is accepted, with what completes the symbols that are left.
-/
theorem completes_of_advance
    {next : List Symbol}
    (turned : advance token.token.kind expected = some (token.misplaced, next))
    (completes : Completes next tokens) :
    Completes expected (token :: tokens) := by
  obtain ⟨first, later, rfl, fills, declarations⟩ := completes
  induction expected with
  | nil =>
      obtain ⟨inside, turns, shape⟩ := Option.map_eq_some_iff.mp turned
      obtain ⟨marks, rfl⟩ := Prod.mk.inj shape
      have declares := fills_of_declarationTurn turns marks.symm fills
      exact ⟨[], token :: (first ++ later), rfl, .nil,
        declarations_of_fills declares declarations⟩
  | cons symbol expected inductionHypothesis =>
      simp only [advance] at turned
      split at turned
      · rename_i inside turns
        obtain ⟨marks, rfl⟩ := Prod.mk.inj (Option.some.inj turned)
        obtain ⟨front, behind, rfl, fillsFront, fillsBehind⟩ :=
          fills.exists_of_append
        have fillsSymbol := fills_of_turn turns marks.symm fillsFront
        exact ⟨token :: front ++ behind, later, rfl,
          .cons fillsSymbol fillsBehind, declarations⟩
      · split at turned
        · rename_i optional
          obtain rfl := Symbol.eq_otherwise optional
          obtain ⟨front, behind, shape, fillsFront, others⟩ :=
            inductionHypothesis turned
          exact ⟨front, behind, shape, .cons .noOtherwise fillsFront, others⟩
        · cases turned

/-- Tokens that are accepted complete the symbols. -/
theorem Accepts.completes
    (accepts : Accepts expected tokens) :
    Completes expected tokens := by
  induction tokens generalizing expected with
  | nil => exact ⟨[], [], rfl, fillsAll_of_optional accepts, .nil⟩
  | cons token tokens inductionHypothesis =>
      obtain ⟨next, turned, later⟩ := accepts
      exact completes_of_advance turned (inductionHypothesis later)

end Sound

end Lox.Grammar.Relaxed
