import Lox.Proofs.Tree.Trail

namespace Lox

/-!
# Well-formed trees

A tree built from tokens takes its names, operators and keywords
from them, each where its kind fits.  A loop body, which runs an
increment behind it, stands below a loop only.
-/

/-- Something holds of a node and of every node below it. -/
inductive Node.Everywhere (holds : Node → Prop) : Node → Prop where
  | mk
      {node : Node} :
      holds node →
      (∀ child ∈ node.children, Everywhere holds child) →
      Everywhere holds node

/-- The operators of which both operands are always evaluated. -/
def Kind.binaryOperators :
    List Kind :=
  [.bangEqual, .equalEqual, .greater, .greaterEqual, .less, .lessEqual, .minus,
    .plus, .slash, .star]

/-- A token among others, of one of some kinds. -/
structure Token.Among
    (tokens : List Token)
    (kinds : List Kind)
    (token : Token) :
    Prop where
  member : token ∈ tokens
  kind : token.kind ∈ kinds

/-- The tokens of a node are among others and of the kinds that the node needs. -/
def Node.Marked
    (tokens : List Token) :
    Node → Prop
  | .expr (.literal value) =>
      value ∈ [.nil, .boolean true, .boolean false] ∨
        ∃ token : Token,
          token.Among tokens [.number, .string] ∧ token.literal = value
  | .expr (.unary operator _) => operator.Among tokens [.bang, .minus]
  | .expr (.binary _ operator _) => operator.Among tokens Kind.binaryOperators
  | .expr (.logical _ operator _) => operator.Among tokens [.orKeyword, .andKeyword]
  | .expr (.reference name) => name.Among tokens [.identifier]
  | .expr (.assign name _) => name.Among tokens [.identifier]
  | .stmt (.var name _) => name.Among tokens [.identifier]
  | .stmt (.breakLoop keyword) => keyword.Among tokens [.breakKeyword]
  | .stmt (.continueLoop keyword) => keyword.Among tokens [.continueKeyword]
  | _ => True

/--
A node with tokens that fit, and with loop bodies below it only if it is a loop.
-/
structure Node.Formed
    (tokens : List Token)
    (node : Node) :
    Prop where
  marked : node.Marked tokens
  rounds :
    ∀ child ∈ node.children,
      child.nodeClass = .loopBody → node.nodeClass = .whileLoop

/-- An expression in which every node is well-formed. -/
def Expr.Formed
    (tokens : List Token)
    (expr : Expr) :
    Prop :=
  Node.Everywhere (Node.Formed tokens) (.expr expr)

/-- A statement in which every node is well-formed, and which may stand anywhere. -/
structure Stmt.Formed
    (tokens : List Token)
    (stmt : Stmt) :
    Prop where
  nodes : Node.Everywhere (Node.Formed tokens) (.stmt stmt)
  noRound : stmt.nodeClass ≠ .loopBody

namespace Node

variable {holds : Node → Prop}

/-- What holds everywhere holds at the root. -/
theorem Everywhere.here
    {node : Node}
    (everywhere : Everywhere holds node) :
    holds node := by
  cases everywhere with
  | mk here _ => exact here

/-- What holds everywhere holds everywhere below a child. -/
theorem Everywhere.child
    {node child : Node}
    (everywhere : Everywhere holds node)
    (member : child ∈ node.children := by
      simp [Node.children, Stmt.children, Expr.children]) :
    Everywhere holds child := by
  cases everywhere with
  | mk _ below => exact below child member

/-- What holds everywhere holds below each node that a walk visits. -/
theorem Everywhere.of_mem_walk
    {node : Node}
    (everywhere : Everywhere holds node)
    {depth : Nat}
    {entry : Nat × Node}
    (member : entry ∈ node.walk depth) :
    Everywhere holds entry.2 := by
  induction everywhere generalizing depth with
  | @mk node here below inductionHypothesis =>
      rw [walk_eq, List.mem_cons, List.mem_flatMap] at member
      rcases member with rfl | ⟨child, isChild, inChild⟩
      · exact .mk here below
      · exact inductionHypothesis child isChild inChild

end Node

/-- A statement below a well-formed node that is no loop may stand anywhere. -/
theorem Node.Everywhere.formed_child
    {tokens : List Token}
    {parent : Node}
    {child : Stmt}
    (everywhere : Node.Everywhere (Node.Formed tokens) parent)
    (noLoop : parent.nodeClass ≠ .whileLoop := by nofun)
    (member : .stmt child ∈ parent.children := by
      simp [Node.children, Stmt.children, Expr.children]) :
    child.Formed tokens where
  nodes := everywhere.child member
  noRound isRound := noLoop (everywhere.here.rounds _ member isRound)

/--
The body of a loop may stand anywhere, or has an
increment behind a statement that may.
-/
theorem Node.Everywhere.formed_or_counted
    {tokens : List Token}
    {body : Stmt}
    (everywhere : Node.Everywhere (Node.Formed tokens) (.stmt body)) :
    body.Formed tokens ∨
      ∃ inner increment,
        body = .loopBody inner increment ∧ inner.Formed tokens := by
  cases body with
  | loopBody inner increment =>
      exact .inr ⟨inner, increment, rfl, everywhere.formed_child⟩
  | _ => exact .inl ⟨everywhere, by nofun⟩

variable {tokens : List Token}

namespace Expr

/-- An expression is formed if it is marked well and its children are formed. -/
theorem formed_of_children
    {expr : Expr}
    (marked : (Node.expr expr).Marked tokens)
    (below : ∀ child ∈ expr.children, child.Formed tokens) :
    expr.Formed tokens := by
  refine .mk ⟨marked, ?_⟩ ?_
  · intro child member isRound
    obtain ⟨inner, -, rfl⟩ := List.mem_map.mp member
    cases inner <;> cases isRound
  · intro child member
    obtain ⟨inner, inExpr, rfl⟩ := List.mem_map.mp member
    exact below inner inExpr

/-- The constants that have keywords are formed. -/
theorem formed_constant
    {value : Value}
    (constant : value ∈ [.nil, .boolean true, .boolean false]) :
    (Expr.literal value).Formed tokens :=
  formed_of_children (.inl constant) (by simp [children])

theorem Formed.grouping
    {inner : Expr}
    (formed : inner.Formed tokens) :
    (Expr.grouping inner).Formed tokens :=
  formed_of_children trivial (by simpa [children] using formed)

theorem Formed.unary
    {operator : Token}
    {operand : Expr}
    (fits : operator.Among tokens [.bang, .minus])
    (formed : operand.Formed tokens) :
    (Expr.unary operator operand).Formed tokens :=
  formed_of_children fits (by simpa [children] using formed)

/--
A binary expression is formed of formed operands and one of the binary operators.
-/
theorem Formed.binary
    {left right : Expr}
    {operator : Token}
    (leftFormed : left.Formed tokens)
    (fits : operator.Among tokens Kind.binaryOperators)
    (rightFormed : right.Formed tokens) :
    (Expr.binary left operator right).Formed tokens :=
  formed_of_children fits (by simpa [children] using ⟨leftFormed, rightFormed⟩)

/--
A logical expression is formed of formed operands and one of the logical operators.
-/
theorem Formed.logical
    {left right : Expr}
    {operator : Token}
    (leftFormed : left.Formed tokens)
    (fits : operator.Among tokens [.orKeyword, .andKeyword])
    (rightFormed : right.Formed tokens) :
    (Expr.logical left operator right).Formed tokens :=
  formed_of_children fits (by simpa [children] using ⟨leftFormed, rightFormed⟩)

theorem Formed.assign
    {name : Token}
    {value : Expr}
    (fits : name.Among tokens [.identifier])
    (formed : value.Formed tokens) :
    (Expr.assign name value).Formed tokens :=
  formed_of_children fits (by simpa [children] using formed)

end Expr

namespace Stmt

/-- A statement that is no loop and whose parts may stand anywhere. -/
theorem formed_of_children
    {stmt : Stmt}
    (noRound : stmt.nodeClass ≠ .loopBody)
    (marked : (Node.stmt stmt).Marked tokens)
    (exprs : ∀ child, .expr child ∈ stmt.children → child.Formed tokens)
    (stmts : ∀ child, .stmt child ∈ stmt.children → child.Formed tokens) :
    stmt.Formed tokens := by
  refine ⟨.mk ⟨marked, ?_⟩ ?_, noRound⟩
  · intro child member isRound
    cases child with
    | expr inner => cases inner <;> cases isRound
    | stmt inner => exact ((stmts inner member).noRound isRound).elim
  · intro child member
    cases child with
    | expr inner => exact exprs inner member
    | stmt inner => exact (stmts inner member).nodes

theorem formed_expression
    {inner : Expr}
    (formed : inner.Formed tokens) :
    (Stmt.expression inner).Formed tokens :=
  formed_of_children nofun trivial (by simpa [children] using formed)
    (by simp [children])

theorem formed_print
    {inner : Expr}
    (formed : inner.Formed tokens) :
    (Stmt.print inner).Formed tokens :=
  formed_of_children nofun trivial (by simpa [children] using formed)
    (by simp [children])

/--
A declaration is formed of a name and, if there is one, a formed initial value.
-/
theorem formed_var
    {name : Token}
    {initial : Option Expr}
    (fits : name.Among tokens [.identifier])
    (formed : ∀ value ∈ initial, value.Formed tokens) :
    (Stmt.var name initial).Formed tokens :=
  formed_of_children nofun fits (by simpa [children] using formed)
    (by simp [children])

/-- A block is formed of formed statements. -/
theorem formed_block
    {statements : List Stmt}
    (formed : ∀ stmt ∈ statements, stmt.Formed tokens) :
    (Stmt.block statements).Formed tokens :=
  formed_of_children nofun trivial (by simp [children])
    (by simpa [children] using formed)

theorem formed_ifThen
    {condition : Expr}
    {thenPart : Stmt}
    (conditionFormed : condition.Formed tokens)
    (thenFormed : thenPart.Formed tokens) :
    (Stmt.ifThen condition thenPart).Formed tokens :=
  formed_of_children nofun trivial (by simpa [children] using conditionFormed)
    (by simpa [children] using thenFormed)

/-- An if statement with an else is formed of a condition and two branches. -/
theorem formed_ifElse
    {condition : Expr}
    {thenPart elsePart : Stmt}
    (conditionFormed : condition.Formed tokens)
    (thenFormed : thenPart.Formed tokens)
    (elseFormed : elsePart.Formed tokens) :
    (Stmt.ifElse condition thenPart elsePart).Formed tokens :=
  formed_of_children nofun trivial (by simpa [children] using conditionFormed)
    (by simpa [children] using ⟨thenFormed, elseFormed⟩)

theorem formed_breakLoop
    {keyword : Token}
    (fits : keyword.Among tokens [.breakKeyword]) :
    (Stmt.breakLoop keyword).Formed tokens :=
  formed_of_children nofun fits (by simp [children]) (by simp [children])

theorem formed_continueLoop
    {keyword : Token}
    (fits : keyword.Among tokens [.continueKeyword]) :
    (Stmt.continueLoop keyword).Formed tokens :=
  formed_of_children nofun fits (by simp [children]) (by simp [children])

/-- The nodes of a loop body are well-formed, though it stands below a loop only. -/
theorem everywhere_loopBody
    {body : Stmt}
    {increment : Expr}
    (bodyFormed : body.Formed tokens)
    (incrementFormed : increment.Formed tokens) :
    Node.Everywhere (Node.Formed tokens) (.stmt (.loopBody body increment)) := by
  have incremented := formed_expression incrementFormed
  refine .mk ⟨trivial, ?_⟩ ?_
  · intro child member isRound
    rcases List.mem_pair.mp member with rfl | rfl
    · exact (bodyFormed.noRound isRound).elim
    · exact (incremented.noRound isRound).elim
  · intro child member
    rcases List.mem_pair.mp member with rfl | rfl
    · exact bodyFormed.nodes
    · exact incremented.nodes

/-- A loop may have a loop body below it. -/
theorem formed_whileLoop
    {condition : Expr}
    {body : Stmt}
    (conditionFormed : condition.Formed tokens)
    (bodyNodes : Node.Everywhere (Node.Formed tokens) (.stmt body)) :
    (Stmt.whileLoop condition body).Formed tokens := by
  refine ⟨.mk ⟨trivial, fun _ _ _ => rfl⟩ ?_, nofun⟩
  intro child member
  rcases List.mem_pair.mp member with rfl | rfl
  · exact conditionFormed
  · exact bodyNodes

end Stmt

end Lox
