import Lox.Proofs.Grammar.Expression

namespace Lox.Grammar

/-!
# The grammar of statements

A program is a list of declarations.  A variable declaration stands only in such
a list or as the first clause of a for loop.

```text
declaration = varDeclaration | statement
statement   = expressionStatement
            | "if" "(" assignment ")" statement ("else" statement)?
            | "while" "(" assignment ")" statement
            | "for" "(" forInitial assignment? ";" assignment? ")" statement
            | "print" assignment ";" | "break" ";" | "continue" ";"
            | "{" declaration* "}"
varDeclaration      = "var" IDENTIFIER ("=" assignment)? ";"
expressionStatement = assignment ";"
forInitial          = ";" | varDeclaration | expressionStatement
```

Read so, an `else` may belong to any open `if` in front of it.  A statement is
therefore derived with its ending, which tells whether an `else` behind it would
belong to an `if` inside it; the rule for `else` tells which endings may stand
in front of one.
-/

/-- Whether an if at the end of a statement still lacks its else. -/
inductive Ending where
  | closed
  | dangling
  deriving Repr, DecidableEq

/-- Which if an else belongs to: the nearest that is open, or any. -/
inductive ElseRule where
  | nearest
  | unrestricted
  deriving Repr, DecidableEq

/-- The endings of the statements that an else may stand behind. -/
def ElseRule.Admits :
    ElseRule → Ending → Prop
  | .nearest, ending => ending = .closed
  | .unrestricted, _ => True

/-- Tokens that declare a variable, and its tree. -/
inductive VarDeclaration : List Token → Stmt → Prop where
  | plain
      {keyword name semicolon : Token} :
      keyword.kind = .varKeyword →
      name.kind = .identifier →
      semicolon.kind = .semicolon →
      VarDeclaration [keyword, name, semicolon] (.var name none)
  | initialized
      {keyword name equals semicolon : Token}
      {tokens : List Token}
      {initial : Expr} :
      keyword.kind = .varKeyword →
      name.kind = .identifier →
      equals.kind = .equal →
      Derives .assignment tokens initial →
      semicolon.kind = .semicolon →
      VarDeclaration (keyword :: name :: equals :: (tokens ++ [semicolon]))
        (.var name (some initial))

/-- Tokens of an expression and its semicolon, and the tree. -/
inductive ExpressionStatement : List Token → Stmt → Prop where
  | mk
      {tokens : List Token}
      {semicolon : Token}
      {inner : Expr} :
      Derives .assignment tokens inner →
      semicolon.kind = .semicolon →
      ExpressionStatement (tokens ++ [semicolon]) (.expression inner)

/-- The first clause of a for loop, with its semicolon. -/
inductive ForInitial : List Token → Option Stmt → Prop where
  | missing
      {semicolon : Token} :
      semicolon.kind = .semicolon →
      ForInitial [semicolon] none
  | declaration
      {tokens : List Token}
      {initial : Stmt} :
      VarDeclaration tokens initial →
      ForInitial tokens (some initial)
  | expression
      {tokens : List Token}
      {initial : Stmt} :
      ExpressionStatement tokens initial →
      ForInitial tokens (some initial)

/-- A further clause of a for loop. -/
inductive ForClause : List Token → Option Expr → Prop where
  | missing :
      ForClause [] none
  | given
      {tokens : List Token}
      {expr : Expr} :
      Derives .assignment tokens expr →
      ForClause tokens (some expr)

/-- A missing condition always holds. -/
def loopCondition :
    Option Expr → Expr
  | none => .literal (.boolean true)
  | some condition => condition

/-- What a for loop repeats: its body, and behind that its increment. -/
def loopRound :
    Option Expr → Stmt → Stmt
  | none, body => body
  | some increment, body => .loopBody body increment

/-- A loop behind its first clause, in a block with it. -/
def loopBehind :
    Option Stmt → Stmt → Stmt
  | none, loop => loop
  | some initial, loop => .block [initial, loop]

mutual

/-- Tokens derive as a statement with an ending. -/
inductive Statement (rule : ElseRule) : Ending → List Token → Stmt → Prop where
  | expression
      {tokens : List Token}
      {stmt : Stmt} :
      ExpressionStatement tokens stmt →
      Statement rule .closed tokens stmt
  | print
      {keyword semicolon : Token}
      {tokens : List Token}
      {inner : Expr} :
      keyword.kind = .printKeyword →
      Derives .assignment tokens inner →
      semicolon.kind = .semicolon →
      Statement rule .closed (keyword :: (tokens ++ [semicolon])) (.print inner)
  | breakLoop
      {keyword semicolon : Token} :
      keyword.kind = .breakKeyword →
      semicolon.kind = .semicolon →
      Statement rule .closed [keyword, semicolon] (.breakLoop keyword)
  | continueLoop
      {keyword semicolon : Token} :
      keyword.kind = .continueKeyword →
      semicolon.kind = .semicolon →
      Statement rule .closed [keyword, semicolon] (.continueLoop keyword)
  | block
      {opening closing : Token}
      {tokens : List Token}
      {statements : List Stmt} :
      opening.kind = .leftBrace →
      Declarations rule tokens statements →
      closing.kind = .rightBrace →
      Statement rule .closed (opening :: (tokens ++ [closing])) (.block statements)
  | ifThen
      {keyword opening closing : Token}
      {conditionTokens thenTokens : List Token}
      {condition : Expr}
      {thenPart : Stmt}
      {ending : Ending} :
      keyword.kind = .ifKeyword →
      opening.kind = .leftParen →
      Derives .assignment conditionTokens condition →
      closing.kind = .rightParen →
      Statement rule ending thenTokens thenPart →
      Statement rule .dangling
        (keyword :: opening :: (conditionTokens ++ closing :: thenTokens))
        (.ifThen condition thenPart)
  | ifElse
      {keyword opening closing otherwise : Token}
      {conditionTokens thenTokens elseTokens : List Token}
      {condition : Expr}
      {thenPart elsePart : Stmt}
      {thenEnding ending : Ending} :
      keyword.kind = .ifKeyword →
      opening.kind = .leftParen →
      Derives .assignment conditionTokens condition →
      closing.kind = .rightParen →
      Statement rule thenEnding thenTokens thenPart →
      rule.Admits thenEnding →
      otherwise.kind = .elseKeyword →
      Statement rule ending elseTokens elsePart →
      Statement rule ending
        (keyword :: opening ::
          (conditionTokens ++ closing :: (thenTokens ++ otherwise :: elseTokens)))
        (.ifElse condition thenPart elsePart)
  | whileLoop
      {keyword opening closing : Token}
      {conditionTokens bodyTokens : List Token}
      {condition : Expr}
      {body : Stmt}
      {ending : Ending} :
      keyword.kind = .whileKeyword →
      opening.kind = .leftParen →
      Derives .assignment conditionTokens condition →
      closing.kind = .rightParen →
      Statement rule ending bodyTokens body →
      Statement rule ending
        (keyword :: opening :: (conditionTokens ++ closing :: bodyTokens))
        (.whileLoop condition body)
  | forLoop
      {keyword opening semicolon closing : Token}
      {initialTokens conditionTokens incrementTokens bodyTokens : List Token}
      {initial : Option Stmt}
      {condition increment : Option Expr}
      {body : Stmt}
      {ending : Ending} :
      keyword.kind = .forKeyword →
      opening.kind = .leftParen →
      ForInitial initialTokens initial →
      ForClause conditionTokens condition →
      semicolon.kind = .semicolon →
      ForClause incrementTokens increment →
      closing.kind = .rightParen →
      Statement rule ending bodyTokens body →
      Statement rule ending
        (keyword :: opening ::
          (initialTokens ++ (conditionTokens ++ semicolon ::
            (incrementTokens ++ closing :: bodyTokens))))
        (loopBehind initial
          (.whileLoop (loopCondition condition) (loopRound increment body)))

/-- Tokens derive as a variable declaration or a statement. -/
inductive Declaration (rule : ElseRule) : List Token → Stmt → Prop where
  | var
      {tokens : List Token}
      {stmt : Stmt} :
      VarDeclaration tokens stmt →
      Declaration rule tokens stmt
  | statement
      {tokens : List Token}
      {stmt : Stmt}
      {ending : Ending} :
      Statement rule ending tokens stmt →
      Declaration rule tokens stmt

/-- Tokens derive as declarations one after the other. -/
inductive Declarations (rule : ElseRule) : List Token → List Stmt → Prop where
  | nil :
      Declarations rule [] []
  | cons
      {first rest : List Token}
      {stmt : Stmt}
      {statements : List Stmt} :
      Declaration rule first stmt →
      Declarations rule rest statements →
      Declarations rule (first ++ rest) (stmt :: statements)

end

/-- The kinds that a statement can start with. -/
def firstStatementKinds :
    List Kind :=
  [.ifKeyword, .whileKeyword, .forKeyword, .printKeyword, .breakKeyword,
    .continueKeyword, .leftBrace] ++ firstKinds

/-- An expression statement starts as an expression does. -/
theorem ExpressionStatement.startsIn
    {tokens : List Token}
    {stmt : Stmt}
    (derives : ExpressionStatement tokens stmt) :
    Parser.StartsIn firstKinds tokens := by
  obtain ⟨inner, semicolon⟩ := derives
  have starts := inner.startsIn
  rename_i tokens _ _
  cases tokens with
  | nil => exact (Parser.not_startsIn_nil starts).elim
  | cons token rest => exact starts

/-- A statement has a first token, and its kind starts statements. -/
theorem Statement.startsIn
    {rule : ElseRule}
    {ending : Ending}
    {tokens : List Token}
    {stmt : Stmt}
    (derives : Statement rule ending tokens stmt) :
    Parser.StartsIn firstStatementKinds tokens := by
  cases derives with
  | expression inner =>
      have starts := inner.startsIn
      cases tokens with
      | nil => exact (Parser.not_startsIn_nil starts).elim
      | cons token rest => exact List.mem_append_right _ starts
  | print keyword => simp [firstStatementKinds, keyword]
  | breakLoop keyword => simp [firstStatementKinds, keyword]
  | continueLoop keyword => simp [firstStatementKinds, keyword]
  | block opening => simp [firstStatementKinds, opening]
  | ifThen keyword => simp [firstStatementKinds, keyword]
  | ifElse keyword => simp [firstStatementKinds, keyword]
  | whileLoop keyword => simp [firstStatementKinds, keyword]
  | forLoop keyword => simp [firstStatementKinds, keyword]

theorem VarDeclaration.exists_keyword
    {tokens : List Token}
    {stmt : Stmt}
    (derives : VarDeclaration tokens stmt) :
    ∃ keyword rest, tokens = keyword :: rest ∧ keyword.kind = .varKeyword := by
  cases derives with
  | plain declares => exact ⟨_, _, rfl, declares⟩
  | initialized declares => exact ⟨_, _, rfl, declares⟩

/-- A declaration has a first token, and its kind starts declarations. -/
theorem Declaration.startsIn
    {rule : ElseRule}
    {tokens : List Token}
    {stmt : Stmt}
    (derives : Declaration rule tokens stmt) :
    Parser.StartsIn (.varKeyword :: firstStatementKinds) tokens := by
  cases derives with
  | var inner =>
      obtain ⟨keyword, rest, rfl, declares⟩ := inner.exists_keyword
      simp [declares]
  | statement inner =>
      have starts := inner.startsIn
      cases tokens with
      | nil => exact (Parser.not_startsIn_nil starts).elim
      | cons token rest => exact List.mem_cons_of_mem _ starts

/-- Tokens with an else and its part behind them derive as one statement. -/
def TakesElse
    (tokens : List Token) :
    Prop :=
  ∀ ⦃otherwise : Token⦄ ⦃elseTokens : List Token⦄ ⦃elsePart : Stmt⦄
    ⦃ending : Ending⦄,
    otherwise.kind = .elseKeyword →
      Statement .nearest ending elseTokens elsePart →
        ∃ whole wholeEnding,
          Statement .nearest wholeEnding (tokens ++ otherwise :: elseTokens) whole

/-- An else behind a statement with an open if makes a longer statement. -/
theorem Statement.takesElse :
    ∀ {ending : Ending} {tokens : List Token} {stmt : Stmt},
      Statement .nearest ending tokens stmt → ending = .dangling → TakesElse tokens
  | _, _, _, .expression _, dangles => by cases dangles
  | _, _, _, .print .., dangles => by cases dangles
  | _, _, _, .breakLoop .., dangles => by cases dangles
  | _, _, _, .continueLoop .., dangles => by cases dangles
  | _, _, _, .block .., dangles => by cases dangles
  | _, _, _, @Statement.ifThen _ _ _ _ _ _ _ _ .closed starts opens conditionDerives
      closes thenDerives, _ => by
        intro otherwise elseTokens elsePart elseEnding alternative elseDerives
        have closed : ElseRule.Admits .nearest .closed := rfl
        have whole :=
          Statement.ifElse starts opens conditionDerives closes thenDerives closed
            alternative elseDerives
        exact ⟨_, _, by simpa using whole⟩
  | _, _, _, @Statement.ifThen _ _ _ _ _ _ _ _ .dangling starts opens
      conditionDerives closes thenDerives, _ => by
        intro otherwise elseTokens elsePart elseEnding alternative elseDerives
        obtain ⟨inner, innerEnding, innerDerives⟩ :=
          takesElse thenDerives rfl alternative elseDerives
        have whole :=
          Statement.ifThen starts opens conditionDerives closes innerDerives
        exact ⟨_, _, by simpa using whole⟩
  | _, _, _, .ifElse starts opens conditionDerives closes thenDerives closed
      alternative elseDerives, dangles => by
        intro otherwise elseTokens elsePart elseEnding nextAlternative nextDerives
        obtain ⟨inner, innerEnding, innerDerives⟩ :=
          takesElse elseDerives dangles nextAlternative nextDerives
        have whole :=
          Statement.ifElse starts opens conditionDerives closes thenDerives closed
            alternative innerDerives
        exact ⟨_, _, by simpa using whole⟩
  | _, _, _, .whileLoop starts opens conditionDerives closes bodyDerives,
      dangles => by
        intro otherwise elseTokens elsePart elseEnding alternative elseDerives
        obtain ⟨inner, innerEnding, innerDerives⟩ :=
          takesElse bodyDerives dangles alternative elseDerives
        have whole :=
          Statement.whileLoop starts opens conditionDerives closes innerDerives
        exact ⟨_, _, by simpa using whole⟩
  | _, _, _, .forLoop starts opens initialDerives conditionDerives ends
      incrementDerives closes bodyDerives, dangles => by
        intro otherwise elseTokens elsePart elseEnding alternative elseDerives
        obtain ⟨inner, innerEnding, innerDerives⟩ :=
          takesElse bodyDerives dangles alternative elseDerives
        have whole :=
          Statement.forLoop starts opens initialDerives conditionDerives ends
            incrementDerives closes innerDerives
        exact ⟨_, _, by simpa using whole⟩

mutual

/--
Tokens that derive with any choice of the if derive with the nearest: an else goes
over to an if inside the then part.
-/
theorem Statement.exists_nearest
    {rule : ElseRule} :
    ∀ {ending : Ending} {tokens : List Token} {stmt : Stmt},
      Statement rule ending tokens stmt →
        ∃ other otherEnding, Statement .nearest otherEnding tokens other
  | _, _, _, .expression derives => ⟨_, _, .expression derives⟩
  | _, _, _, .print starts derives ends => ⟨_, _, .print starts derives ends⟩
  | _, _, _, .breakLoop starts ends => ⟨_, _, .breakLoop starts ends⟩
  | _, _, _, .continueLoop starts ends => ⟨_, _, .continueLoop starts ends⟩
  | _, _, _, .block starts derive closes => by
      obtain ⟨statements, others⟩ := derive.exists_nearest
      exact ⟨_, _, .block starts others closes⟩
  | _, _, _, .ifThen starts opens conditionDerives closes thenDerives => by
      obtain ⟨thenPart, ending, derives⟩ := thenDerives.exists_nearest
      exact ⟨_, _, .ifThen starts opens conditionDerives closes derives⟩
  | _, _, _, .ifElse starts opens conditionDerives closes thenDerives _ alternative
      elseDerives => by
      obtain ⟨thenPart, thenEnding, thenNearest⟩ := thenDerives.exists_nearest
      obtain ⟨elsePart, ending, elseNearest⟩ := elseDerives.exists_nearest
      cases thenEnding with
      | closed =>
          exact ⟨_, _, .ifElse starts opens conditionDerives closes thenNearest rfl
            alternative elseNearest⟩
      | dangling =>
          obtain ⟨whole, wholeEnding, wholeNearest⟩ :=
            thenNearest.takesElse rfl alternative elseNearest
          exact ⟨_, _, .ifThen starts opens conditionDerives closes wholeNearest⟩
  | _, _, _, .whileLoop starts opens conditionDerives closes bodyDerives => by
      obtain ⟨body, ending, derives⟩ := bodyDerives.exists_nearest
      exact ⟨_, _, .whileLoop starts opens conditionDerives closes derives⟩
  | _, _, _, .forLoop starts opens initialDerives conditionDerives ends
      incrementDerives closes bodyDerives => by
        obtain ⟨body, ending, derives⟩ := bodyDerives.exists_nearest
        exact ⟨_, _, .forLoop starts opens initialDerives conditionDerives ends
          incrementDerives closes derives⟩

/-- What derives as a declaration derives with each else at the nearest if. -/
theorem Declaration.exists_nearest
    {rule : ElseRule} :
    ∀ {tokens : List Token} {stmt : Stmt},
      Declaration rule tokens stmt → ∃ other, Declaration .nearest tokens other
  | _, _, .var derives => ⟨_, .var derives⟩
  | _, _, .statement derives => by
      obtain ⟨other, ending, nearest⟩ := derives.exists_nearest
      exact ⟨other, .statement nearest⟩

/-- The same declarations derive with each else at the nearest if. -/
theorem Declarations.exists_nearest
    {rule : ElseRule} :
    ∀ {tokens : List Token} {statements : List Stmt},
      Declarations rule tokens statements →
        ∃ others, Declarations .nearest tokens others
  | _, _, .nil => ⟨_, .nil⟩
  | _, _, .cons first later => by
      obtain ⟨other, firstNearest⟩ := first.exists_nearest
      obtain ⟨others, laterNearest⟩ := later.exists_nearest
      exact ⟨other :: others, .cons firstNearest laterNearest⟩

end

mutual

/-- A tree with the nearest choices is one of the trees with any choices. -/
theorem Statement.unrestricted :
    ∀ {ending : Ending} {tokens : List Token} {stmt : Stmt},
      Statement .nearest ending tokens stmt →
        Statement .unrestricted ending tokens stmt
  | _, _, _, .expression derives => .expression derives
  | _, _, _, .print starts derives ends => .print starts derives ends
  | _, _, _, .breakLoop starts ends => .breakLoop starts ends
  | _, _, _, .continueLoop starts ends => .continueLoop starts ends
  | _, _, _, .block starts derive closes => .block starts derive.unrestricted closes
  | _, _, _, .ifThen starts opens conditionDerives closes thenDerives =>
      .ifThen starts opens conditionDerives closes thenDerives.unrestricted
  | _, _, _, .ifElse starts opens conditionDerives closes thenDerives _ alternative
      elseDerives =>
      .ifElse starts opens conditionDerives closes thenDerives.unrestricted trivial
        alternative elseDerives.unrestricted
  | _, _, _, .whileLoop starts opens conditionDerives closes bodyDerives =>
      .whileLoop starts opens conditionDerives closes bodyDerives.unrestricted
  | _, _, _, .forLoop starts opens initialDerives conditionDerives ends
      incrementDerives closes bodyDerives =>
      .forLoop starts opens initialDerives conditionDerives ends incrementDerives
        closes bodyDerives.unrestricted

/-- The nearest if is one that an else may belong to. -/
theorem Declaration.unrestricted :
    ∀ {tokens : List Token} {stmt : Stmt},
      Declaration .nearest tokens stmt → Declaration .unrestricted tokens stmt
  | _, _, .var derives => .var derives
  | _, _, .statement derives => .statement derives.unrestricted

theorem Declarations.unrestricted :
    ∀ {tokens : List Token} {statements : List Stmt},
      Declarations .nearest tokens statements →
        Declarations .unrestricted tokens statements
  | _, _, .nil => .nil
  | _, _, .cons first later => .cons first.unrestricted later.unrestricted

end

/-- Which if an else may belong to makes no difference to the tokens that derive. -/
theorem exists_declarations_unrestricted_iff
    {tokens : List Token} :
    (∃ statements, Declarations .unrestricted tokens statements) ↔
      ∃ statements, Declarations .nearest tokens statements := by
  constructor
  · rintro ⟨statements, derive⟩
    exact derive.exists_nearest
  · rintro ⟨statements, derive⟩
    exact ⟨statements, derive.unrestricted⟩

end Lox.Grammar
