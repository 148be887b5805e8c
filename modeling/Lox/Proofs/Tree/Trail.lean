import Mathlib.Data.List.Basic
import Lox.Tree.Node

namespace Lox

/-!
# Where a node stands in a tree

The way from the root of a tree down to a node passes the nodes around it.  The
blocks among them, and with them the loop bodies, open the scopes in which the
node stands; each holds the names that were declared in the block further up.
-/

/-- A node on the way down a tree, and which of its children the way goes on to. -/
structure Passed where
  node : Node
  index : Nat
  deriving Repr

/-- The nodes passed on the way down to a node, the nearest first. -/
abbrev Trail :=
  List Passed

/-- The node at the end of a way down from the root of a tree. -/
inductive Node.Leads (root : Node) : Trail → Node → Prop where
  | root :
      Leads root [] root
  | child
      {trail : Trail}
      {parent child : Node}
      {index : Nat} :
      Leads root trail parent →
      parent.children[index]? = some child →
      Leads root (⟨parent, index⟩ :: trail) child

/-- The name that a statement declares. -/
def Stmt.declares? :
    Stmt → Option String
  | .var name _ => some name.lexeme
  | _ => none

/-- The name that a node declares. -/
def Node.declares? :
    Node → Option String
  | .stmt inner => inner.declares?
  | .expr _ => none

@[simp] theorem Node.declares?_stmt
    (stmt : Stmt) :
    (Node.stmt stmt).declares? = stmt.declares? :=
  rfl

/-- Names with one more, behind the others unless it is among them. -/
def declare
    (names : List String)
    (name : String) :
    List String :=
  if name ∈ names then names else names ++ [name]

/-- Names with those that nodes declare, in the order of their first declaration. -/
def declareAll
    (names : List String)
    (nodes : List Node) :
    List String :=
  (nodes.filterMap Node.declares?).foldl declare names

namespace Passed

/--
Whether the node that is passed opens a scope: a block, or among them a loop body.
-/
def opensScope
    (passed : Passed) :
    Bool :=
  passed.node.isA .block

/-- The names declared by the children before the one that the way goes on to. -/
def declared
    (passed : Passed) :
    List String :=
  declareAll [] (passed.node.children.take passed.index)

end Passed

namespace Trail

/-- How many blocks and loop bodies enclose the node at the end of a way. -/
def nesting
    (trail : Trail) :
    Nat :=
  trail.countP Passed.opensScope

/--
The names that the text declares in each scope around a node, the nearest first.
-/
def scopes
    (trail : Trail) :
    List (List String) :=
  (trail.filter Passed.opensScope).map Passed.declared

/-- A node that opens a scope adds the names that it has declared so far. -/
@[simp] theorem scopes_cons
    (passed : Passed)
    (trail : Trail) :
    scopes (passed :: trail) =
      if passed.opensScope then
        passed.declared :: scopes trail
      else
        scopes trail := by
  unfold scopes
  rw [List.filter_cons]
  split <;> rfl

theorem length_scopes
    (trail : Trail) :
    trail.scopes.length = trail.nesting := by
  simp [scopes, nesting, List.countP_eq_length_filter]

end Trail

section Declaring

variable {names : List String} {nodes : List Node} {node : Node} {name : String}

@[simp] theorem declareAll_nil :
    declareAll names [] = names :=
  rfl

/-- Names are declared by one list of nodes behind the other. -/
theorem declareAll_append
    (names : List String)
    (first second : List Node) :
    declareAll names (first ++ second) =
      declareAll (declareAll names first) second := by
  simp [declareAll]

theorem declareAll_singleton
    (names : List String)
    (node : Node) :
    declareAll names [node] =
      match node.declares? with
      | none => names
      | some name => declare names name := by
  unfold declareAll
  rcases declares : node.declares? with _ | name
  · simp [declares]
  · simp [declares]

/-- A declaration adds its own name and no other. -/
@[simp] theorem mem_declare
    {other : String} :
    name ∈ declare names other ↔ name ∈ names ∨ name = other := by
  unfold declare
  split
  · rename_i member
    constructor
    · exact Or.inl
    · rintro (inNames | rfl)
      · exact inNames
      · exact member
  · simp

/-- The declared names are the names from before and those of the declarations. -/
theorem mem_declareAll :
    name ∈ declareAll names nodes ↔
      name ∈ names ∨ ∃ node ∈ nodes, node.declares? = some name := by
  induction nodes generalizing names with
  | nil =>
      simp
  | cons first rest inductionHypothesis =>
      have split := declareAll_append names [first] rest
      rw [List.singleton_append] at split
      rw [split, inductionHypothesis, declareAll_singleton]
      rcases declares : first.declares? with _ | declared
      · simp [declares]
      · simp [declares, or_assoc, eq_comm]

/-- Nodes that declare nothing leave the names. -/
theorem declareAll_eq_of_forall
    (none_declare : ∀ node ∈ nodes, node.declares? = none) :
    declareAll names nodes = names := by
  have nothing : nodes.filterMap Node.declares? = [] :=
    List.filterMap_eq_nil_iff.mpr none_declare
  simp [declareAll, nothing]

end Declaring

/--
Declarations stand among the statements of a program or of a block, and never as
the body of a loop or as a branch.
-/
inductive Stmt.Placed : Stmt → Prop where
  | expression
      {inner : Expr} :
      Placed (.expression inner)
  | print
      {inner : Expr} :
      Placed (.print inner)
  | var
      {name : Token}
      {initial : Option Expr} :
      Placed (.var name initial)
  | block
      {statements : List Stmt} :
      (∀ stmt ∈ statements, Placed stmt) →
      Placed (.block statements)
  | loopBody
      {body : Stmt}
      {increment : Expr} :
      Placed body →
      body.declares? = none →
      Placed (.loopBody body increment)
  | ifThen
      {condition : Expr}
      {thenPart : Stmt} :
      Placed thenPart →
      thenPart.declares? = none →
      Placed (.ifThen condition thenPart)
  | ifElse
      {condition : Expr}
      {thenPart elsePart : Stmt} :
      Placed thenPart →
      thenPart.declares? = none →
      Placed elsePart →
      elsePart.declares? = none →
      Placed (.ifElse condition thenPart elsePart)
  | whileLoop
      {condition : Expr}
      {body : Stmt} :
      Placed body →
      body.declares? = none →
      Placed (.whileLoop condition body)
  | breakLoop
      {keyword : Token} :
      Placed (.breakLoop keyword)
  | continueLoop
      {keyword : Token} :
      Placed (.continueLoop keyword)

namespace Node

/-- Statements below a node are placed where declarations may stand. -/
def Placed :
    Node → Prop
  | .expr _ => True
  | .stmt inner => inner.Placed

/-- In a tree whose declarations stand in lists, those of a child do so, too. -/
theorem Placed.child
    {parent child : Node}
    (placed : parent.Placed)
    (member : child ∈ parent.children) :
    child.Placed := by
  cases parent with
  | expr inner =>
      obtain ⟨below, -, rfl⟩ := List.mem_map.mp member
      trivial
  | stmt inner =>
      cases placed with
      | expression =>
          cases List.mem_singleton.mp member
          trivial
      | print =>
          cases List.mem_singleton.mp member
          trivial
      | var =>
          obtain ⟨initial, -, rfl⟩ := List.mem_map.mp member
          trivial
      | block elements =>
          obtain ⟨stmt, inBlock, rfl⟩ := List.mem_map.mp member
          exact elements stmt inBlock
      | loopBody bodyPlaced =>
          rcases List.mem_pair.mp member with rfl | rfl
          · exact bodyPlaced
          · exact Stmt.Placed.expression
      | ifThen thenPlaced =>
          rcases List.mem_pair.mp member with rfl | rfl
          · trivial
          · exact thenPlaced
      | ifElse thenPlaced _ elsePlaced =>
          rcases List.mem_cons.mp member with rfl | member
          · trivial
          · rcases List.mem_pair.mp member with rfl | rfl
            · exact thenPlaced
            · exact elsePlaced
      | whileLoop bodyPlaced =>
          rcases List.mem_pair.mp member with rfl | rfl
          · trivial
          · exact bodyPlaced
      | breakLoop =>
          cases member
      | continueLoop =>
          cases member

/-- On a way down from a placed root all nodes are placed. -/
theorem Leads.placed
    {root node : Node}
    {trail : Trail}
    (leads : root.Leads trail node)
    (placed : root.Placed) :
    node.Placed ∧ ∀ passed ∈ trail, passed.node.Placed := by
  induction leads with
  | root =>
      exact ⟨placed, by simp⟩
  | child _ found inductionHypothesis =>
      obtain ⟨parentPlaced, trailPlaced⟩ := inductionHypothesis
      constructor
      · exact parentPlaced.child (List.mem_of_getElem? found)
      · simpa using ⟨parentPlaced, trailPlaced⟩

end Node

/-- A placed loop body holds no declaration, so its scope stays empty. -/
theorem Passed.declared_loopBody
    {passed : Passed}
    (placed : passed.node.Placed)
    (isLoopBody : passed.node.isA .loopBody = true) :
    passed.declared = [] := by
  obtain ⟨node, index⟩ := passed
  cases node with
  | expr inner =>
      cases inner <;> cases isLoopBody
  | stmt inner =>
      cases placed with
      | loopBody _ bodyDeclares =>
          apply declareAll_eq_of_forall
          intro child member
          rcases List.mem_pair.mp (List.mem_of_mem_take member) with rfl | rfl
          · exact bodyDeclares
          · rfl
      | _ =>
          cases isLoopBody

end Lox
