import Mathlib.Data.List.Nodup
import Lox.Proofs.Tree.Trail
import Lox.Tree.Printer

namespace Lox

/-!
# The places of a tree

Equal nodes may stand at several places of a tree, which are told by the ways down
to them.  The places are listed by a recursion over children: a node in front of its
children, and these from left to right.  An outline has a line for each place, and a
search finds what stands at some of them, both in the order of the list.
-/

namespace Node

/--
A node is larger than its children, and so is the body of a loop than its increment,
which stands in a statement of its own.
-/
theorem sizeOf_lt_of_mem_children
    (parent : Node) :
    ∀ child ∈ parent.children, sizeOf child < sizeOf parent := by
  cases parent with
  | expr inner =>
      cases inner <;> simp [children, Expr.children] <;> omega
  | stmt inner =>
      cases inner with
      | var name initial =>
          cases initial <;> simp [children, Stmt.children]
          omega
      | block statements =>
          intro child member
          obtain ⟨statement, inBlock, rfl⟩ := List.mem_map.mp member
          have smaller := List.sizeOf_lt_of_mem inBlock
          simp
          omega
      | loopBody body increment =>
          have positive : 0 < sizeOf body := by cases body <;> simp +arith
          simp [children, Stmt.children]
          omega
      | _ => simp [children, Stmt.children] <;> omega

/-- What is made of a node and of what was made of its children. -/
def fold
    {α : Type}
    (combine : Node → List α → α)
    (node : Node) :
    α :=
  combine node (node.children.attach.map fun child => fold combine child.val)
termination_by sizeOf node
decreasing_by exact node.sizeOf_lt_of_mem_children child.val child.property

theorem fold_eq
    {α : Type}
    (combine : Node → List α → α)
    (node : Node) :
    node.fold combine = combine node (node.children.map (fold combine)) := by
  rw [fold]
  simp

/-- What holds of a node whenever it holds of the children holds of every node. -/
@[elab_as_elim]
theorem inductionOn
    {motive : Node → Prop}
    (node : Node)
    (step : ∀ node, (∀ child ∈ node.children, motive child) → motive node) :
    motive node :=
  step node fun child _ => inductionOn child step
termination_by sizeOf node
decreasing_by exact node.sizeOf_lt_of_mem_children child (by assumption)

end Node

/-- A place of a tree: a node, and the way down to it. -/
structure Site where
  trail : Trail
  node : Node
  deriving Repr

namespace Node

/-- The places in a tree to the root of which a way leads. -/
def sitesBehind :
    Node → Trail → List Site :=
  fold fun node below trail =>
    ⟨trail, node⟩ ::
      below.zipIdx.flatMap fun entry => entry.1 (⟨node, entry.2⟩ :: trail)

/--
The places of a tree: each in front of those below it, and these from left to right.
-/
def sites
    (root : Node) :
    List Site :=
  root.sitesBehind []

/-- The places where nodes of a class stand. -/
def sitesOf
    (wanted : NodeClass)
    (root : Node) :
    List Site :=
  root.sites.filter fun site => site.node.isA wanted

theorem sitesBehind_eq
    (node : Node)
    (trail : Trail) :
    node.sitesBehind trail =
      ⟨trail, node⟩ :: node.children.zipIdx.flatMap fun entry =>
        entry.1.sitesBehind (⟨node, entry.2⟩ :: trail) := by
  rw [sitesBehind, fold_eq, List.zipIdx_map, List.flatMap_map]
  rfl

section Places

variable {root node : Node} {trail : Trail} {site : Site}

/-- A place is the root, or it is behind a child. -/
theorem mem_sitesBehind_iff :
    site ∈ node.sitesBehind trail ↔
      site = ⟨trail, node⟩ ∨
        ∃ (index : Nat) (child : Node), node.children[index]? = some child ∧
          site ∈ child.sitesBehind (⟨node, index⟩ :: trail) := by
  rw [sitesBehind_eq, List.mem_cons, List.mem_flatMap]
  apply or_congr_right
  constructor
  · rintro ⟨⟨child, index⟩, numbered, below⟩
    exact ⟨index, child, List.mem_zipIdx_iff_getElem?.mp numbered, below⟩
  · rintro ⟨index, child, found, below⟩
    exact ⟨(child, index), List.mem_zipIdx_iff_getElem?.mpr found, below⟩

theorem leads_of_mem_sitesBehind
    (leads : root.Leads trail node)
    (member : site ∈ node.sitesBehind trail) :
    root.Leads site.trail site.node := by
  induction node using inductionOn generalizing trail with
  | step node inductionHypothesis =>
      rcases mem_sitesBehind_iff.mp member with rfl | ⟨index, child, found, below⟩
      · exact leads
      · exact inductionHypothesis child (List.mem_of_getElem? found)
          (leads.child found) below

theorem sitesBehind_subset_sites
    (leads : root.Leads trail node) :
    node.sitesBehind trail ⊆ root.sites := by
  induction leads with
  | root => exact List.Subset.refl _
  | child _ found inductionHypothesis =>
      intro site member
      exact inductionHypothesis
        (mem_sitesBehind_iff.mpr (.inr ⟨_, _, found, member⟩))

/-- The places of a tree are those to which a way leads. -/
theorem mem_sites_iff :
    site ∈ root.sites ↔ root.Leads site.trail site.node := by
  constructor
  · exact leads_of_mem_sitesBehind .root
  · intro leads
    exact sitesBehind_subset_sites leads (mem_sitesBehind_iff.mpr (.inl rfl))

theorem suffix_of_mem_sitesBehind
    (member : site ∈ node.sitesBehind trail) :
    trail <:+ site.trail := by
  induction node using inductionOn generalizing trail with
  | step node inductionHypothesis =>
      rcases mem_sitesBehind_iff.mp member with rfl | ⟨index, child, found, below⟩
      · exact List.suffix_rfl
      · exact (List.suffix_cons _ _).trans
          (inductionHypothesis child (List.mem_of_getElem? found) below)

end Places

/-- Ways that go on to different children stay apart. -/
theorem disjoint_trails
    {node child other : Node}
    {trail : Trail}
    {index otherIndex : Nat}
    (different : index ≠ otherIndex) :
    List.Disjoint ((child.sitesBehind (⟨node, index⟩ :: trail)).map Site.trail)
      ((other.sitesBehind (⟨node, otherIndex⟩ :: trail)).map Site.trail) := by
  intro way first second
  obtain ⟨site, isFirst, rfl⟩ := List.mem_map.mp first
  obtain ⟨otherSite, isSecond, sameWay⟩ := List.mem_map.mp second
  have firstWay := suffix_of_mem_sitesBehind isFirst
  have secondWay := suffix_of_mem_sitesBehind isSecond
  rw [sameWay] at secondWay
  have same :=
    (List.suffix_of_suffix_length_le firstWay secondWay
      (by simp)).eq_of_length (by simp)
  exact different (Passed.mk.inj (List.cons.inj same).1).2

/-- No place is listed twice: the ways to the places below are longer. -/
theorem nodup_trails
    (node : Node)
    (trail : Trail) :
    ((node.sitesBehind trail).map Site.trail).Nodup := by
  induction node using inductionOn generalizing trail with
  | step node inductionHypothesis =>
      rw [sitesBehind_eq, List.map_cons, List.nodup_cons, List.map_flatMap,
        List.nodup_flatMap]
      refine ⟨?_, ?_, ?_⟩
      · intro again
        obtain ⟨⟨child, index⟩, -, below⟩ := List.mem_flatMap.mp again
        obtain ⟨site, isBelow, sameWay⟩ := List.mem_map.mp below
        have longer := (suffix_of_mem_sitesBehind isBelow).length_le
        rw [sameWay, List.length_cons] at longer
        exact absurd longer (by simp)
      · rintro ⟨child, index⟩ numbered
        have found := List.mem_zipIdx_iff_getElem?.mp numbered
        exact inductionHypothesis child (List.mem_of_getElem? found) _
      · have numbered :
            node.children.zipIdx.Pairwise fun entry other => entry.2 ≠ other.2 := by
          rw [← List.pairwise_map, List.zipIdx_map_snd]
          exact List.nodup_range'
        exact numbered.imp disjoint_trails

/--
A walk visits the places in their order; a node is as deep as the way to it is long.
-/
theorem walk_eq_sites
    (levels : Nat)
    (node : Node)
    (trail : Trail) :
    node.walk (levels + trail.length) =
      (node.sitesBehind trail).map fun site =>
        (levels + site.trail.length, site.node) := by
  induction node using inductionOn generalizing trail with
  | step node inductionHypothesis =>
      rw [walk_eq, sitesBehind_eq, List.map_cons, List.map_flatMap]
      congr 1
      calc node.children.flatMap (walk (levels + trail.length + 1))
        _ = node.children.zipIdx.flatMap fun entry =>
              entry.1.walk (levels + trail.length + 1) := by
            conv_lhs => rw [← List.zipIdx_map_fst 0 node.children, List.flatMap_map]
        _ = _ := List.flatMap_congr fun entry numbered =>
            inductionHypothesis entry.1
              (List.mem_of_getElem? (List.mem_zipIdx_iff_getElem?.mp numbered))
              (⟨node, entry.2⟩ :: trail)

/--
An outline has a line for each place, indented by the length of the way to it.
-/
theorem outline_eq_sites
    (indent : Nat)
    (root : Node) :
    root.outline indent =
      String.join (root.sites.map fun site =>
        outlineLine (indent + site.trail.length, site.node)) := by
  have walked := walk_eq_sites indent root []
  rw [List.length_nil, Nat.add_zero] at walked
  rw [outline, walked, List.map_map]
  rfl

/-- The nodes that a walk visits are those at the places. -/
theorem map_node_sites
    (root : Node) :
    root.sites.map Site.node = (root.walk 0).map Prod.snd := by
  have walked := walk_eq_sites 0 root []
  rw [List.length_nil] at walked
  rw [walked, List.map_map]
  rfl

end Node

namespace NodeClass

/-- The class right above a class. -/
def above? :
    NodeClass → Option NodeClass
  | .anyExpr => none
  | .anyStmt => none
  | .literal => some .anyExpr
  | .grouping => some .anyExpr
  | .unary => some .anyExpr
  | .binary => some .anyExpr
  | .logical => some .anyExpr
  | .reference => some .anyExpr
  | .assign => some .anyExpr
  | .loopBody => some .block
  | _ => some .anyStmt

/-- A class is another one, or it is somewhere below it. -/
inductive Within : NodeClass → NodeClass → Prop where
  | self
      {nodeClass : NodeClass} :
      Within nodeClass nodeClass
  | under
      {nodeClass above top : NodeClass} :
      nodeClass.above? = some above →
      Within above top →
      Within nodeClass top

/--
Classes are at most two steps below others: nothing is three steps above a class.
-/
theorem within_iff
    {nodeClass top : NodeClass} :
    nodeClass.Within top ↔
      top = nodeClass ∨ nodeClass.above? = some top ∨
        (nodeClass.above?.bind above?) = some top := by
  constructor
  · intro within
    induction within with
    | self => exact .inl rfl
    | @under nodeClass above top isAbove _ inductionHypothesis =>
        rw [isAbove, Option.bind_some]
        rcases inductionHypothesis with rfl | next | far
        · exact .inr (.inl rfl)
        · exact .inr (.inr next)
        · have short : (nodeClass.above?.bind above?).bind above? = none := by
            cases nodeClass <;> rfl
          rw [isAbove, Option.bind_some, far] at short
          cases short
  · rintro (rfl | next | far)
    · exact .self
    · exact .under next .self
    · obtain ⟨above, isAbove, isTop⟩ := Option.bind_eq_some_iff.mp far
      exact .under isAbove (.under isTop .self)

end NodeClass

namespace Node

/-- A node is in its class and in those above it. -/
theorem isA_iff
    {wanted : NodeClass}
    {node : Node} :
    node.isA wanted = true ↔ node.nodeClass.Within wanted := by
  rw [NodeClass.within_iff]
  cases node with
  | expr inner =>
      cases inner <;>
        simp [isA, nodeClass, Expr.nodeClass, NodeClass.above?] <;> grind
  | stmt inner =>
      cases inner <;>
        simp [isA, nodeClass, Stmt.nodeClass, NodeClass.above?] <;> grind

/-- A node is an expression, or else it is a statement. -/
theorem isA_anyExpr_eq
    (node : Node) :
    node.isA .anyExpr = !node.isA .anyStmt := by
  cases node with
  | expr inner => cases inner <;> rfl
  | stmt inner => cases inner <;> rfl

/--
The places of a class are those of the nodes in it and in the classes below it.
-/
theorem mem_sitesOf_iff
    {root : Node}
    {wanted : NodeClass}
    {site : Site} :
    site ∈ root.sitesOf wanted ↔
      root.Leads site.trail site.node ∧ site.node.nodeClass.Within wanted := by
  rw [sitesOf, List.mem_filter, mem_sites_iff, isA_iff]

/-- A search finds what stands at the places of a class. -/
theorem find_eq_sites
    (wanted : NodeClass)
    (root : Node) :
    root.find wanted = (root.sitesOf wanted).map Site.node := by
  rw [find, ← map_node_sites, List.filter_map]
  rfl

end Node

end Lox
