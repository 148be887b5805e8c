import Lox.Tree.Node

namespace Lox

/-!
# Writing trees

A tree is written in one line, operators in front of their operands between
parentheses, or as an outline with one indented line for each node.
-/

/-- A head and its parts between parentheses. -/
def parenthesized
    (head : String)
    (parts : List String) :
    String :=
  let inner := " ".intercalate parts
  if inner.isEmpty then
    "(" ++ head ++ ")"
  else
    "(" ++ head ++ " " ++ inner ++ ")"

/-- An expression in one line. -/
def Expr.text :
    Expr → String
  | .literal value => value.literalText
  | .grouping inner => parenthesized "group" [inner.text]
  | .unary operator operand => parenthesized operator.lexeme [operand.text]
  | .binary left operator right =>
      parenthesized operator.lexeme [left.text, right.text]
  | .logical left operator right =>
      parenthesized operator.lexeme [left.text, right.text]
  | .reference name => name.lexeme
  | .assign name value => "(= " ++ name.lexeme ++ " " ++ value.text ++ ")"

namespace Stmt

mutual

/--
A statement in one line; the body of a loop with its increment reads as a block.
-/
def text :
    Stmt → String
  | .expression inner => parenthesized ";" [inner.text]
  | .print inner => parenthesized "print" [inner.text]
  | .var name none => "(var " ++ name.lexeme ++ ")"
  | .var name (some initial) =>
      "(var " ++ name.lexeme ++ " " ++ initial.text ++ ")"
  | .block statements => parenthesized "block" (texts statements)
  | .loopBody body increment =>
      parenthesized "block" [text body, parenthesized ";" [increment.text]]
  | .ifThen condition thenPart =>
      parenthesized "if" [condition.text, text thenPart]
  | .ifElse condition thenPart elsePart =>
      parenthesized "if-else" [condition.text, text thenPart, text elsePart]
  | .whileLoop condition body =>
      parenthesized "while" [condition.text, text body]
  | .breakLoop _ => "(break)"
  | .continueLoop _ => "(continue)"

/-- Several statements, each in one line. -/
def texts :
    List Stmt → List String
  | [] => []
  | first :: rest => text first :: texts rest

end

/-- The texts are those of the statements. -/
theorem texts_eq_map
    (statements : List Stmt) :
    texts statements = statements.map text := by
  induction statements with
  | nil => rfl
  | cons first rest inductionHypothesis =>
      simp [texts, inductionHypothesis]

end Stmt

namespace Node

/-- A node in one line. -/
def text :
    Node → String
  | .expr inner => inner.text
  | .stmt inner => inner.text

/-- One line of an outline. -/
def outlineLine
    (entry : Nat × Node) :
    String :=
  String.ofList (List.replicate (2 * entry.1) ' ') ++ entry.2.label ++ "\n"

/-- The outline of a tree, indented by a number of levels. -/
def outline
    (indent : Nat)
    (node : Node) :
    String :=
  String.join ((node.walk indent).map outlineLine)

end Node

end Lox
