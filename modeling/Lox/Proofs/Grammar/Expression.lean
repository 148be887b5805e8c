import Lox.Proofs.Grammar.Reads

namespace Lox.Grammar

/-!
# The grammar of expressions

An expression derives from tokens by levels.  The operands of a level are one
level tighter, chains of operands are lengthened on their right, and so grouped
from the left; an assignment holds its value as another assignment.

```text
assignment  = IDENTIFIER "=" assignment | disjunction
disjunction = conjunction ("or" conjunction)*
conjunction = equality ("and" equality)*
equality    = comparison (("!=" | "==") comparison)*
comparison  = term ((">" | ">=" | "<" | "<=") term)*
term        = factor (("-" | "+") factor)*
factor      = unary (("/" | "*") unary)*
unary       = ("!" | "-") unary | primary
primary     = "true" | "false" | "nil" | NUMBER | STRING | IDENTIFIER
            | "(" assignment ")"
```
-/

/-- The parts of expressions, the loosest first. -/
inductive Phrase where
  | assignment
  | disjunction
  | conjunction
  | equality
  | comparison
  | term
  | factor
  | unary
  | primary
  deriving Repr, DecidableEq

namespace Phrase

/-- The operators between the operands of a phrase. -/
def operators :
    Phrase → List Kind
  | .disjunction => [.orKeyword]
  | .conjunction => [.andKeyword]
  | .equality => [.bangEqual, .equalEqual]
  | .comparison => [.greater, .greaterEqual, .less, .lessEqual]
  | .term => [.minus, .plus]
  | .factor => [.slash, .star]
  | .assignment | .unary | .primary => []

/-- The next tighter phrase, which a phrase without an operator of its own is. -/
def operand :
    Phrase → Phrase
  | .assignment => .disjunction
  | .disjunction => .conjunction
  | .conjunction => .equality
  | .equality => .comparison
  | .comparison => .term
  | .term => .factor
  | .factor => .unary
  | .unary | .primary => .primary

/-- The node that an operator between two operands builds. -/
def node :
    Phrase → Expr → Token → Expr → Expr
  | .disjunction | .conjunction => .logical
  | _ => .binary

end Phrase

/-- Tokens derive from a phrase as the tree of an expression. -/
inductive Derives : Phrase → List Token → Expr → Prop where
  | single
      {phrase : Phrase}
      {tokens : List Token}
      {expr : Expr} :
      phrase ≠ .primary →
      Derives phrase.operand tokens expr →
      Derives phrase tokens expr
  | chain
      {phrase : Phrase}
      {before after : List Token}
      {operator : Token}
      {left right : Expr} :
      Derives phrase before left →
      operator.kind ∈ phrase.operators →
      Derives phrase.operand after right →
      Derives phrase (before ++ operator :: after) (phrase.node left operator right)
  | assign
      {name equals : Token}
      {tokens : List Token}
      {value : Expr} :
      name.kind = .identifier →
      equals.kind = .equal →
      Derives .assignment tokens value →
      Derives .assignment (name :: equals :: tokens) (.assign name value)
  | front
      {operator : Token}
      {tokens : List Token}
      {operand : Expr} :
      operator.kind ∈ [.bang, .minus] →
      Derives .unary tokens operand →
      Derives .unary (operator :: tokens) (.unary operator operand)
  | trueLiteral
      {token : Token} :
      token.kind = .trueKeyword →
      Derives .primary [token] (.literal (.boolean true))
  | falseLiteral
      {token : Token} :
      token.kind = .falseKeyword →
      Derives .primary [token] (.literal (.boolean false))
  | nilLiteral
      {token : Token} :
      token.kind = .nilKeyword →
      Derives .primary [token] (.literal .nil)
  | literal
      {token : Token} :
      token.kind ∈ [.number, .string] →
      Derives .primary [token] (.literal token.literal)
  | reference
      {token : Token} :
      token.kind = .identifier →
      Derives .primary [token] (.reference token)
  | group
      {opening closing : Token}
      {tokens : List Token}
      {inner : Expr} :
      opening.kind = .leftParen →
      Derives .assignment tokens inner →
      closing.kind = .rightParen →
      Derives .primary (opening :: (tokens ++ [closing])) (.grouping inner)

/-- The kinds that an expression can start with. -/
def firstKinds :
    List Kind :=
  [.bang, .minus, .trueKeyword, .falseKeyword, .nilKeyword, .number, .string,
    .identifier, .leftParen]

/-- An expression has a first token, and its kind starts expressions. -/
theorem Derives.startsIn
    {phrase : Phrase}
    {tokens : List Token}
    {expr : Expr}
    (derives : Derives phrase tokens expr) :
    Parser.StartsIn firstKinds tokens := by
  induction derives with
  | single below inner inductionHypothesis =>
      exact inductionHypothesis
  | @chain phrase before after operator left right first fits second
      firstStarts secondStarts =>
      cases before with
      | nil => exact (Parser.not_startsIn_nil firstStarts).elim
      | cons token rest => exact firstStarts
  | assign named equal value inductionHypothesis =>
      simp [firstKinds, named]
  | @front operator tokens operand fits inner inductionHypothesis =>
      rcases List.mem_cons.mp fits with isBang | others
      · simp [firstKinds, isBang]
      · simp [firstKinds, List.mem_singleton.mp others]
  | literal fits =>
      rcases List.mem_cons.mp fits with isNumber | others
      · simp [firstKinds, isNumber]
      · simp [firstKinds, List.mem_singleton.mp others]
  | trueLiteral kind => simp [firstKinds, kind]
  | falseLiteral kind => simp [firstKinds, kind]
  | nilLiteral kind => simp [firstKinds, kind]
  | reference kind => simp [firstKinds, kind]
  | group opened inner closed inductionHypothesis => simp [firstKinds, opened]

/-- Only a name alone derives as a name. -/
theorem Derives.eq_name
    {phrase : Phrase}
    {tokens : List Token}
    {name : Token}
    (derives : Derives phrase tokens (.reference name)) :
    tokens = [name] ∧ name.kind = .identifier := by
  generalize shape : Expr.reference name = expr at derives
  induction derives with
  | single below inner inductionHypothesis =>
      exact inductionHypothesis shape
  | @chain phrase before after operator left right first fits second =>
      cases phrase <;> cases shape
  | reference kind =>
      cases shape
      exact ⟨rfl, kind⟩
  | _ => cases shape

/-- No operator stands in front of a primary. -/
theorem Derives.not_startsIn_front
    {tokens rest : List Token}
    {expr : Expr}
    (derives : Derives .primary tokens expr) :
    ¬ Parser.StartsIn Parser.frontOperators (tokens ++ rest) := by
  cases derives with
  | single below inner => exact (below rfl).elim
  | chain first fits second => cases fits
  | literal fits =>
      rcases List.mem_cons.mp fits with isNumber | others
      · simp [Parser.frontOperators, isNumber]
      · simp [Parser.frontOperators, List.mem_singleton.mp others]
  | trueLiteral kind => simp [Parser.frontOperators, kind]
  | falseLiteral kind => simp [Parser.frontOperators, kind]
  | nilLiteral kind => simp [Parser.frontOperators, kind]
  | reference kind => simp [Parser.frontOperators, kind]
  | group opened inner closed => simp [Parser.frontOperators, opened]

end Lox.Grammar
