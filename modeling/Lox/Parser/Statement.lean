import Lox.Parser.Expression

namespace Lox

/-- The while loop that stands for a for loop. -/
def Stmt.forLoop
    (initial : Option Stmt)
    (condition : Option Expr)
    (increment : Option Expr)
    (body : Stmt) :
    Stmt :=
  let repeated :=
    match increment with
    | none => body
    | some increment => .loopBody body increment
  let loop := .whileLoop (condition.getD (.literal (.boolean true))) repeated
  match initial with
  | none => loop
  | some initial => .block [initial, loop]

namespace Parser

/-!
# Statements

A declaration that does not fit the grammar is given up, and reading goes on at
the next boundary between statements.
-/

/-- Keywords that start a statement. -/
def statementKeywords :
    List Kind :=
  [.classKeyword, .funKeyword, .varKeyword, .forKeyword, .ifKeyword,
    .whileKeyword, .printKeyword, .returnKeyword]

/-- Skip to the first boundary behind a token. -/
def skipFrom :
    (last : Token) → List Token → List Token
  | _, [] => []
  | last, token :: rest =>
      if last.kind = .semicolon || token.kind ∈ statementKeywords then
        token :: rest
      else
        skipFrom token rest

/--
Skip one token, and on to behind a semicolon or to before a statement keyword.
-/
def synchronize :
    List Token → List Token
  | [] => []
  | blamed :: rest => skipFrom blamed rest

/-- Where reading goes on behind an outcome. -/
def resume :
    Outcome α → List Token
  | .accepted _ rest _ => rest
  | .rejected error _ => synchronize error.remaining

/-- Read the equals sign and the value of a declaration, if it has one. -/
def initialValue :
    Parser (Option Expr) := do
  match ← acceptAny [.equal] with
  | none => accept none
  | some _ =>
      let value ← expression
      accept (some value)

/-- Read a variable declaration, behind its keyword. -/
def varDeclaration :
    Parser Stmt := do
  let name ← expect .identifier .expectedVariableName
  let initial ← initialValue
  let _ ← expect .semicolon .expectedSemicolonAfterDeclaration
  accept (.var name initial)

/-- Read an expression and the semicolon behind it. -/
def expressionStatement :
    Parser Stmt := do
  let inner ← expression
  let _ ← expect .semicolon .expectedSemicolonAfterExpression
  accept (.expression inner)

/-- Read a print statement, behind its keyword. -/
def printStatement :
    Parser Stmt := do
  let inner ← expression
  let _ ← expect .semicolon .expectedSemicolonAfterValue
  accept (.print inner)

/-- Read an if statement, behind its keyword. -/
def ifWith
    (statement : Parser Stmt) :
    Parser Stmt := do
  let _ ← expect .leftParen .expectedParenAfterIf
  let condition ← expression
  let _ ← expect .rightParen .expectedParenAfterIfCondition
  let thenPart ← statement
  match ← acceptAny [.elseKeyword] with
  | none => accept (.ifThen condition thenPart)
  | some _ =>
      let elsePart ← statement
      accept (.ifElse condition thenPart elsePart)

/-- Read a while statement, behind its keyword. -/
def whileWith
    (statement : Parser Stmt) :
    Parser Stmt := do
  let _ ← expect .leftParen .expectedParenAfterWhile
  let condition ← expression
  let _ ← expect .rightParen .expectedParenAfterWhileCondition
  let body ← statement
  accept (.whileLoop condition body)

/-- Read the first clause of a for loop with its semicolon. -/
def forInitial :
    Parser (Option Stmt) := do
  match ← acceptAny [.semicolon, .varKeyword] with
  | none =>
      let initial ← expressionStatement
      accept (some initial)
  | some first =>
      if first.kind = .semicolon then
        accept none
      else
        let initial ← varDeclaration
        accept (some initial)

/-- Read a for statement, behind its keyword. -/
def forWith
    (statement : Parser Stmt) :
    Parser Stmt := do
  let _ ← expect .leftParen .expectedParenAfterFor
  let initial ← forInitial
  let condition ← clauseBefore .semicolon expression
  let _ ← expect .semicolon .expectedSemicolonAfterLoopCondition
  let increment ← clauseBefore .rightParen expression
  let _ ← expect .rightParen .expectedParenAfterForClauses
  let body ← statement
  accept (Stmt.forLoop initial condition increment body)

/-- Add the note that a declaration was read, with the line of its last token. -/
def noteParsed
    (tokens : List Token) :
    Outcome Stmt → Outcome Stmt
  | .accepted statement rest notes =>
      let consumed := tokens.take (tokens.length - rest.length)
      let line := (consumed.getLast?.map Token.line).getD 0
      .accepted statement rest (notes ++ [.parsed statement.nodeClass line])
  | .rejected error notes => .rejected error notes

/-- Read a variable declaration or a statement. -/
def declarationWith
    (statement : Parser Stmt) :
    Parser Stmt
  | [] => noteParsed [] (statement [])
  | token :: rest =>
      noteParsed (token :: rest)
        (if token.kind = .varKeyword then
          varDeclaration rest
        else
          statement (token :: rest))

/--
Read at most so many declarations up to a token that stops them or to the end.
Every declaration is tried, whether or not those before it were accepted.
-/
def attempts
    (declaration : Parser Stmt)
    (stops : Token → Bool) :
    Nat → List Token → List (Outcome Stmt) × List Token
  | 0, tokens => ([], tokens)
  | _ + 1, [] => ([], [])
  | count + 1, token :: rest =>
      if stops token then
        ([], token :: rest)
      else
        let outcome := declaration (token :: rest)
        let later := attempts declaration stops count (resume outcome)
        (outcome :: later.1, later.2)

/--
Read the statements of a block and the brace that closes it, behind the first brace.
-/
def blockWith
    (statement : Parser Stmt) :
    Parser Stmt :=
  fun tokens =>
    let (tried, rest) :=
      attempts (declarationWith statement) (·.kind = .rightBrace)
        tokens.length tokens
    (andThen (expect .rightBrace .expectedBraceAfterBlock)
      (fun _ => accept (.block (tried.filterMap Outcome.value?))) rest).after
        (tried.flatMap Outcome.recorded)

/-- Read a statement whose parts are read by a parser. -/
def statementWith
    (statement : Parser Stmt) :
    Parser Stmt
  | [] => expressionStatement []
  | token :: rest =>
      match token.kind with
      | .ifKeyword => ifWith statement rest
      | .whileKeyword => whileWith statement rest
      | .forKeyword => forWith statement rest
      | .printKeyword => printStatement rest
      | .breakKeyword =>
          andThen (expect .semicolon .expectedSemicolonAfterBreak)
            (fun _ => accept (.breakLoop token)) rest
      | .continueKeyword =>
          andThen (expect .semicolon .expectedSemicolonAfterContinue)
            (fun _ => accept (.continueLoop token)) rest
      | .leftBrace => blockWith statement rest
      | _ => expressionStatement (token :: rest)

/-- Read a statement that nests less deep than a bound. -/
def statementWithin :
    Nat → Parser Stmt
  | 0 => reject .expectedExpression
  | depth + 1 => statementWith (statementWithin depth)

/-- Read a statement; it nests no deeper than it has tokens. -/
def statement :
    Parser Stmt :=
  fun tokens => statementWithin (tokens.length + 1) tokens

/-- Read a variable declaration or a statement. -/
def declaration :
    Parser Stmt :=
  declarationWith statement

end Parser

end Lox
