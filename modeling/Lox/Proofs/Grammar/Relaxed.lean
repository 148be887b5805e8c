import Lox.Proofs.Grammar.Expression

namespace Lox.Grammar.Relaxed

/-!
# The relaxed grammar

The relaxed grammar is that of programs, except that a value may be assigned to
any operation and not to a name only.

```text
assignment = disjunction "=" assignment | disjunction
```

Its derivations mark the equals signs of the assignments whose left side is not
a name alone.  An `else` may belong to any open `if` in front of it.  Main
statement: an operand and what may stand behind it, read one token after the
other, are an assignment.
-/

/--
A token, marked if it is the equals sign behind a left side that is no name alone.
-/
structure Marked where
  token : Token
  misplaced : Bool
  deriving Repr, DecidableEq

/-- A token without a mark that has one of the kinds. -/
def Marked.Fits
    (kinds : List Kind)
    (marked : Marked) :
    Prop :=
  marked.token.kind ∈ kinds ∧ marked.misplaced = false

/-- Whether tokens are a name alone. -/
def isName :
    List Marked → Bool
  | [only] => only.token.kind = .identifier
  | _ => false

/-- The kinds of tokens that are expressions alone. -/
def leafKinds :
    List Kind :=
  [.trueKeyword, .falseKeyword, .nilKeyword, .number, .string, .identifier]

/-- Tokens derive from a part of expressions. -/
inductive Derives : Phrase → List Marked → Prop where
  | single
      {phrase : Phrase}
      {tokens : List Marked} :
      phrase ≠ .primary →
      Derives phrase.operand tokens →
      Derives phrase tokens
  | chain
      {phrase : Phrase}
      {before after : List Marked}
      {operator : Marked} :
      Derives phrase before →
      operator.Fits phrase.operators →
      Derives phrase.operand after →
      Derives phrase (before ++ operator :: after)
  | assign
      {left value : List Marked}
      {equals : Token} :
      Derives .disjunction left →
      equals.kind = .equal →
      Derives .assignment value →
      Derives .assignment (left ++ ⟨equals, !isName left⟩ :: value)
  | front
      {operator : Marked}
      {tokens : List Marked} :
      operator.Fits Parser.frontOperators →
      Derives .unary tokens →
      Derives .unary (operator :: tokens)
  | leaf
      {token : Marked} :
      token.Fits leafKinds →
      Derives .primary [token]
  | group
      {opening closing : Marked}
      {tokens : List Marked} :
      opening.Fits [.leftParen] →
      Derives .assignment tokens →
      closing.Fits [.rightParen] →
      Derives .primary (opening :: (tokens ++ [closing]))

/-- Marked tokens that declare a variable. -/
inductive VarDeclaration : List Marked → Prop where
  | plain
      {keyword name semicolon : Marked} :
      keyword.Fits [.varKeyword] →
      name.Fits [.identifier] →
      semicolon.Fits [.semicolon] →
      VarDeclaration [keyword, name, semicolon]
  | initialized
      {keyword name equals semicolon : Marked}
      {tokens : List Marked} :
      keyword.Fits [.varKeyword] →
      name.Fits [.identifier] →
      equals.Fits [.equal] →
      Derives .assignment tokens →
      semicolon.Fits [.semicolon] →
      VarDeclaration (keyword :: name :: equals :: (tokens ++ [semicolon]))

/-- Marked tokens of an expression and its semicolon. -/
inductive ExpressionStatement : List Marked → Prop where
  | mk
      {tokens : List Marked}
      {semicolon : Marked} :
      Derives .assignment tokens →
      semicolon.Fits [.semicolon] →
      ExpressionStatement (tokens ++ [semicolon])

/-- The first clause of a for loop, with its semicolon. -/
inductive ForInitial : List Marked → Prop where
  | missing
      {semicolon : Marked} :
      semicolon.Fits [.semicolon] →
      ForInitial [semicolon]
  | declaration
      {tokens : List Marked} :
      VarDeclaration tokens →
      ForInitial tokens
  | expression
      {tokens : List Marked} :
      ExpressionStatement tokens →
      ForInitial tokens

/-- A further clause of a for loop. -/
inductive ForClause : List Marked → Prop where
  | missing :
      ForClause []
  | given
      {tokens : List Marked} :
      Derives .assignment tokens →
      ForClause tokens

mutual

/-- Tokens derive as a statement. -/
inductive Statement : List Marked → Prop where
  | expression
      {tokens : List Marked} :
      ExpressionStatement tokens →
      Statement tokens
  | print
      {keyword semicolon : Marked}
      {tokens : List Marked} :
      keyword.Fits [.printKeyword] →
      Derives .assignment tokens →
      semicolon.Fits [.semicolon] →
      Statement (keyword :: (tokens ++ [semicolon]))
  | jump
      {keyword semicolon : Marked} :
      keyword.Fits [.breakKeyword, .continueKeyword] →
      semicolon.Fits [.semicolon] →
      Statement [keyword, semicolon]
  | block
      {opening closing : Marked}
      {tokens : List Marked} :
      opening.Fits [.leftBrace] →
      Declarations tokens →
      closing.Fits [.rightBrace] →
      Statement (opening :: (tokens ++ [closing]))
  | ifThen
      {keyword opening closing : Marked}
      {condition thenPart : List Marked} :
      keyword.Fits [.ifKeyword] →
      opening.Fits [.leftParen] →
      Derives .assignment condition →
      closing.Fits [.rightParen] →
      Statement thenPart →
      Statement (keyword :: opening :: (condition ++ closing :: thenPart))
  | ifElse
      {keyword opening closing otherwise : Marked}
      {condition thenPart elsePart : List Marked} :
      keyword.Fits [.ifKeyword] →
      opening.Fits [.leftParen] →
      Derives .assignment condition →
      closing.Fits [.rightParen] →
      Statement thenPart →
      otherwise.Fits [.elseKeyword] →
      Statement elsePart →
      Statement
        (keyword :: opening ::
          (condition ++ closing :: (thenPart ++ otherwise :: elsePart)))
  | whileLoop
      {keyword opening closing : Marked}
      {condition body : List Marked} :
      keyword.Fits [.whileKeyword] →
      opening.Fits [.leftParen] →
      Derives .assignment condition →
      closing.Fits [.rightParen] →
      Statement body →
      Statement (keyword :: opening :: (condition ++ closing :: body))
  | forLoop
      {keyword opening semicolon closing : Marked}
      {initial condition increment body : List Marked} :
      keyword.Fits [.forKeyword] →
      opening.Fits [.leftParen] →
      ForInitial initial →
      ForClause condition →
      semicolon.Fits [.semicolon] →
      ForClause increment →
      closing.Fits [.rightParen] →
      Statement body →
      Statement
        (keyword :: opening ::
          (initial ++ (condition ++ semicolon :: (increment ++ closing :: body))))

/-- Tokens derive as variable declarations and statements one behind the other. -/
inductive Declarations : List Marked → Prop where
  | nil :
      Declarations []
  | var
      {first later : List Marked} :
      VarDeclaration first →
      Declarations later →
      Declarations (first ++ later)
  | statement
      {first later : List Marked} :
      Statement first →
      Declarations later →
      Declarations (first ++ later)

end

/-- Tokens are a program of the relaxed grammar, with some marks. -/
def IsProgram
    (tokens : List Token) :
    Prop :=
  ∃ marked, Declarations marked ∧ marked.map Marked.token = tokens

/-- The places of the marked equals signs, each with the tokens from it on. -/
def misplacedIn :
    List Marked → List (List Token)
  | [] => []
  | marked :: rest =>
      if marked.misplaced then
        (marked :: rest).map Marked.token :: misplacedIn rest
      else
        misplacedIn rest

/-- The operators that may stand between two operands. -/
def betweenOperators :
    List Kind :=
  [.orKeyword, .andKeyword, .bangEqual, .equalEqual, .greater, .greaterEqual, .less,
    .lessEqual, .minus, .plus, .slash, .star]

/-- What may stand behind an operand, which is a name alone or not. -/
inductive Behind : Bool → List Marked → Prop where
  | nothing
      {bare : Bool} :
      Behind bare []
  | operator
      {bare : Bool}
      {operator : Marked}
      {operand rest : List Marked} :
      operator.Fits betweenOperators →
      Derives .unary operand →
      Behind false rest →
      Behind bare (operator :: (operand ++ rest))
  | equals
      {bare : Bool}
      {equals : Token}
      {value : List Marked} :
      equals.kind = .equal →
      Derives .assignment value →
      Behind bare (⟨equals, !bare⟩ :: value)

theorem Derives.ne_nil
    {phrase : Phrase}
    {tokens : List Marked}
    (derives : Derives phrase tokens) :
    tokens ≠ [] := by
  induction derives with
  | single below inner inductionHypothesis => exact inductionHypothesis
  | chain | assign => simp
  | front | leaf | group => simp

theorem isName_cons
    {first : Marked}
    {rest : List Marked}
    (more : rest ≠ []) :
    isName (first :: rest) = false := by
  cases rest with
  | nil => exact (more rfl).elim
  | cons second others => rfl

/-- What holds more than one token is no name alone. -/
theorem isName_append
    {before after : List Marked}
    (first : before ≠ [])
    (second : after ≠ []) :
    isName (before ++ after) = false := by
  cases before with
  | nil => exact (first rfl).elim
  | cons token rest => exact isName_cons (by simp [second])

/-- The operators of a phrase and of all that are tighter. -/
def operatorsWithin :
    Phrase → List Kind
  | .assignment | .disjunction => betweenOperators
  | .conjunction => betweenOperators.drop 1
  | .equality => betweenOperators.drop 2
  | .comparison => betweenOperators.drop 4
  | .term => betweenOperators.drop 8
  | .factor => betweenOperators.drop 10
  | .unary | .primary => []

/-- An operand is every phrase that is looser, up to operations. -/
theorem Derives.loosened
    {tokens : List Marked}
    (derives : Derives .unary tokens)
    (phrase : Phrase)
    (isOperation : phrase.operand ≠ .primary) :
    Derives phrase.operand tokens := by
  have factor : Derives .factor tokens := .single (by decide) derives
  have term : Derives .term tokens := .single (by decide) factor
  have comparison : Derives .comparison tokens := .single (by decide) term
  have equality : Derives .equality tokens := .single (by decide) comparison
  have conjunction : Derives .conjunction tokens := .single (by decide) equality
  have disjunction : Derives .disjunction tokens := .single (by decide) conjunction
  cases phrase with
  | assignment => exact disjunction
  | disjunction => exact conjunction
  | conjunction => exact equality
  | equality => exact comparison
  | comparison => exact term
  | term => exact factor
  | factor => exact derives
  | unary | primary => exact (isOperation rfl).elim

/-- An operator within a phrase is its own, or one within its operands. -/
theorem mem_operatorsWithin
    {phrase : Phrase}
    {kind : Kind}
    (within : kind ∈ operatorsWithin phrase)
    (isOperation : phrase ≠ .assignment) :
    phrase.operand ≠ .primary ∧
      (kind ∈ phrase.operators ∨ kind ∈ operatorsWithin phrase.operand) := by
  cases phrase with
  | assignment => exact (isOperation rfl).elim
  | unary | primary => cases within
  | _ =>
      refine ⟨by decide, ?_⟩
      revert kind
      decide

/-- An operation goes on with a further operand, which a phrase inside takes up. -/
theorem Derives.extended
    {phrase : Phrase}
    {tokens operand : List Marked}
    {operator : Marked}
    (derives : Derives phrase tokens)
    (isOperation : phrase ≠ .assignment)
    (fits : operator.Fits (operatorsWithin phrase))
    (second : Derives .unary operand) :
    Derives phrase (tokens ++ operator :: operand) := by
  have ⟨ofOperands, splits⟩ := mem_operatorsWithin fits.1 isOperation
  have operandIsOperation : phrase.operand ≠ .assignment := by
    cases phrase <;> decide
  induction derives with
  | @single phrase tokens below inner inductionHypothesis =>
      rcases splits with own | deeper
      · exact .chain (.single below inner) ⟨own, fits.2⟩
          (second.loosened phrase ofOperands)
      · have ⟨innerOfOperands, innerSplits⟩ :=
          mem_operatorsWithin deeper operandIsOperation
        exact .single below
          (inductionHypothesis operandIsOperation ⟨deeper, fits.2⟩ innerOfOperands
            innerSplits (by cases phrase <;> decide))
  | @chain phrase before after other first otherFits last
      firstHypothesis lastHypothesis =>
      rcases splits with own | deeper
      · exact .chain (.chain first otherFits last) ⟨own, fits.2⟩
          (second.loosened phrase ofOperands)
      · have ⟨innerOfOperands, innerSplits⟩ :=
          mem_operatorsWithin deeper operandIsOperation
        rw [List.append_assoc, List.cons_append]
        exact .chain first otherFits
          (lastHypothesis operandIsOperation ⟨deeper, fits.2⟩ innerOfOperands
            innerSplits (by cases phrase <;> decide))
  | assign => exact (isOperation rfl).elim
  | front | leaf | group => cases fits.1

/-- An operation with what may stand behind an operand is an assignment. -/
theorem Behind.derives
    {bare : Bool}
    {tokens rest : List Marked}
    (behind : Behind bare rest)
    (operation : Derives .disjunction tokens)
    (isBare : isName tokens = bare) :
    Derives .assignment (tokens ++ rest) := by
  induction behind generalizing tokens with
  | nothing =>
      rw [List.append_nil]
      exact .single (by decide) operation
  | @operator bare operator operand rest fits second later inductionHypothesis =>
      have extended := operation.extended (by decide) fits second
      have more :=
        isName_append operation.ne_nil (List.cons_ne_nil operator operand)
      have whole := inductionHypothesis extended more
      rwa [List.append_assoc, List.cons_append] at whole
  | equals isEqual value =>
      subst isBare
      exact .assign operation isEqual value

/-- An operand with what may stand behind it is an assignment. -/
theorem Derives.withBehind
    {operand rest : List Marked}
    (derives : Derives .unary operand)
    (behind : Behind (isName operand) rest) :
    Derives .assignment (operand ++ rest) :=
  behind.derives (derives.loosened .assignment (by decide)) rfl

end Lox.Grammar.Relaxed
