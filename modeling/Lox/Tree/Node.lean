import Lox.Tree

namespace Lox

/-!
# Nodes of a tree

A node is an expression or a statement.  Walking a tree visits a node before its
children, and the children from left to right.
-/

/-- An expression or a statement. -/
inductive Node where
  | expr (inner : Expr)
  | stmt (inner : Stmt)
  deriving Repr

/-- The classes that a node can be searched by. -/
inductive NodeClass where
  | anyExpr
  | anyStmt
  | literal
  | grouping
  | unary
  | binary
  | logical
  | reference
  | assign
  | expression
  | print
  | var
  /-- Blocks, and among them loop bodies. -/
  | block
  | loopBody
  | branch
  | whileLoop
  | breakLoop
  | continueLoop
  deriving Repr, DecidableEq

namespace NodeClass

/-- The name of a class. -/
def name :
    NodeClass → String
  | .anyExpr => "Expr"
  | .anyStmt => "Stmt"
  | .literal => "Literal"
  | .grouping => "Grouping"
  | .unary => "Unary"
  | .binary => "Binary"
  | .logical => "Logical"
  | .reference => "Variable"
  | .assign => "Assign"
  | .expression => "Expression"
  | .print => "Print"
  | .var => "Var"
  | .block => "Block"
  | .loopBody => "LoopBody"
  | .branch => "If"
  | .whileLoop => "While"
  | .breakLoop => "Break"
  | .continueLoop => "Continue"

/-- All classes. -/
def all :
    List NodeClass :=
  [.anyExpr, .anyStmt, .literal, .grouping, .unary, .binary, .logical, .reference,
    .assign, .expression, .print, .var, .block, .loopBody, .branch, .whileLoop,
    .breakLoop, .continueLoop]

/-- The class with a name. -/
def ofName?
    (name : String) :
    Option NodeClass :=
  all.find? fun nodeClass => nodeClass.name = name

/-- No class is missing from the list. -/
theorem mem_all
    (nodeClass : NodeClass) :
    nodeClass ∈ all := by
  cases nodeClass <;> decide

end NodeClass

namespace Expr

/-- The class of an expression. -/
def nodeClass :
    Expr → NodeClass
  | .literal _ => .literal
  | .grouping _ => .grouping
  | .unary .. => .unary
  | .binary .. => .binary
  | .logical .. => .logical
  | .reference _ => .reference
  | .assign .. => .assign

/-- The expressions directly below an expression. -/
def children :
    Expr → List Expr
  | .literal _ => []
  | .grouping inner => [inner]
  | .unary _ operand => [operand]
  | .binary left _ right => [left, right]
  | .logical left _ right => [left, right]
  | .reference _ => []
  | .assign _ value => [value]

/-- What a listing shows of an expression besides its class. -/
def detail? :
    Expr → Option String
  | .literal value => some value.literalText
  | .grouping _ => none
  | .unary operator _ => some operator.lexeme
  | .binary _ operator _ => some operator.lexeme
  | .logical _ operator _ => some operator.lexeme
  | .reference name => some name.lexeme
  | .assign name _ => some name.lexeme

/-- All expressions of a tree with their depths. -/
def walk
    (depth : Nat) :
    Expr → List (Nat × Node)
  | .literal value =>
      [(depth, .expr (.literal value))]
  | .grouping inner =>
      (depth, .expr (.grouping inner)) :: walk (depth + 1) inner
  | .unary operator operand =>
      (depth, .expr (.unary operator operand)) :: walk (depth + 1) operand
  | .binary left operator right =>
      (depth, .expr (.binary left operator right)) ::
        (walk (depth + 1) left ++ walk (depth + 1) right)
  | .logical left operator right =>
      (depth, .expr (.logical left operator right)) ::
        (walk (depth + 1) left ++ walk (depth + 1) right)
  | .reference name =>
      [(depth, .expr (.reference name))]
  | .assign name value =>
      (depth, .expr (.assign name value)) :: walk (depth + 1) value

/-- A tree is its root and, one level deeper, the trees of the children. -/
theorem walk_eq
    (depth : Nat)
    (expr : Expr) :
    expr.walk depth =
      (depth, .expr expr) :: expr.children.flatMap (walk (depth + 1)) := by
  cases expr <;> simp [walk, children]

end Expr

namespace Stmt

/-- The class of a statement. -/
def nodeClass :
    Stmt → NodeClass
  | .expression _ => .expression
  | .print _ => .print
  | .var .. => .var
  | .block _ => .block
  | .loopBody .. => .loopBody
  | .ifThen .. => .branch
  | .ifElse .. => .branch
  | .whileLoop .. => .whileLoop
  | .breakLoop _ => .breakLoop
  | .continueLoop _ => .continueLoop

/-- The nodes directly below a statement; the increment of a loop is a statement. -/
def children :
    Stmt → List Node
  | .expression inner => [.expr inner]
  | .print inner => [.expr inner]
  | .var _ initial => initial.toList.map .expr
  | .block statements => statements.map .stmt
  | .loopBody body increment => [.stmt body, .stmt (.expression increment)]
  | .ifThen condition thenPart => [.expr condition, .stmt thenPart]
  | .ifElse condition thenPart elsePart =>
      [.expr condition, .stmt thenPart, .stmt elsePart]
  | .whileLoop condition body => [.expr condition, .stmt body]
  | .breakLoop _ => []
  | .continueLoop _ => []

/-- What a listing shows of a statement besides its class. -/
def detail? :
    Stmt → Option String
  | .var name _ => some name.lexeme
  | _ => none

mutual

/-- All nodes of a tree with their depths. -/
def walk
    (depth : Nat) :
    Stmt → List (Nat × Node)
  | .expression inner =>
      (depth, .stmt (.expression inner)) :: inner.walk (depth + 1)
  | .print inner =>
      (depth, .stmt (.print inner)) :: inner.walk (depth + 1)
  | .var name initial =>
      (depth, .stmt (.var name initial)) ::
        initial.toList.flatMap (Expr.walk (depth + 1))
  | .block statements =>
      (depth, .stmt (.block statements)) :: walkAll (depth + 1) statements
  | .loopBody body increment =>
      (depth, .stmt (.loopBody body increment)) ::
        (walk (depth + 1) body ++
          (depth + 1, .stmt (.expression increment)) :: increment.walk (depth + 2))
  | .ifThen condition thenPart =>
      (depth, .stmt (.ifThen condition thenPart)) ::
        (condition.walk (depth + 1) ++ walk (depth + 1) thenPart)
  | .ifElse condition thenPart elsePart =>
      (depth, .stmt (.ifElse condition thenPart elsePart)) ::
        (condition.walk (depth + 1) ++ walk (depth + 1) thenPart ++
          walk (depth + 1) elsePart)
  | .whileLoop condition body =>
      (depth, .stmt (.whileLoop condition body)) ::
        (condition.walk (depth + 1) ++ walk (depth + 1) body)
  | .breakLoop keyword =>
      [(depth, .stmt (.breakLoop keyword))]
  | .continueLoop keyword =>
      [(depth, .stmt (.continueLoop keyword))]

/-- All nodes of several trees. -/
def walkAll
    (depth : Nat) :
    List Stmt → List (Nat × Node)
  | [] => []
  | first :: rest => walk depth first ++ walkAll depth rest

end

/-- Several trees are walked one after the other. -/
theorem walkAll_eq_flatMap
    (depth : Nat)
    (statements : List Stmt) :
    walkAll depth statements = statements.flatMap (walk depth) := by
  induction statements with
  | nil => rfl
  | cons first rest inductionHypothesis =>
      simp [walkAll, inductionHypothesis]

end Stmt

namespace Node

/-- The class of a node. -/
def nodeClass :
    Node → NodeClass
  | .expr inner => inner.nodeClass
  | .stmt inner => inner.nodeClass

/-- The nodes directly below a node. -/
def children :
    Node → List Node
  | .expr inner => inner.children.map .expr
  | .stmt inner => inner.children

/-- All nodes of a tree with their depths. -/
def walk
    (depth : Nat) :
    Node → List (Nat × Node)
  | .expr inner => inner.walk depth
  | .stmt inner => inner.walk depth

/-- Membership in a class, or in a class above the class of the node. -/
def isA
    (wanted : NodeClass) :
    Node → Bool
  | .expr inner => wanted = .anyExpr || wanted = inner.nodeClass
  | .stmt inner =>
      wanted = .anyStmt || wanted = inner.nodeClass ||
        (wanted = .block && inner.nodeClass = .loopBody)

/-- The nodes of a class in a tree, in walking order. -/
def find
    (wanted : NodeClass)
    (node : Node) :
    List Node :=
  ((node.walk 0).map Prod.snd).filter (isA wanted)

/-- What a listing shows of a node besides its class. -/
def detail? :
    Node → Option String
  | .expr inner => inner.detail?
  | .stmt inner => inner.detail?

/-- The class of a node, and what else a listing shows of it between parentheses. -/
def label
    (node : Node) :
    String :=
  match node.detail? with
  | none => node.nodeClass.name
  | some detail => node.nodeClass.name ++ "(" ++ detail ++ ")"

/-- A tree is its root and, one level deeper, the trees of the children. -/
theorem walk_eq
    (depth : Nat)
    (node : Node) :
    node.walk depth =
      (depth, node) :: node.children.flatMap (walk (depth + 1)) := by
  cases node with
  | expr inner =>
      simp [walk, children, Expr.walk_eq depth inner, List.flatMap_map]
  | stmt inner =>
      cases inner with
      | var name initial =>
          cases initial <;> simp [walk, children, Stmt.walk, Stmt.children]
      | block statements =>
          simp [walk, children, Stmt.walk, Stmt.children, List.flatMap_map,
            Stmt.walkAll_eq_flatMap]
      | _ =>
          simp [walk, children, Stmt.walk, Stmt.children]

end Node

end Lox
