import Lox.Proofs.Tree.Part
import Lox.Proofs.Tree.Site

namespace Lox

/-!
# Walks and lines

The line of a tree is cut at its leaves: each leaf is written whole, and
between the leaves stand words of the nodes around them.  Main statement:
whether a tree is walked by the fields of its nodes or written in one line, the
same nodes are met, each once, in the same order.
-/

/-- A segment of a line: a word of a node around leaves, or the whole of a leaf. -/
inductive Segment where
  | own (word : String)
  | leaf (node : Node)
  deriving Repr

namespace Segment

/-- How a segment is written. -/
def text :
    Segment → String
  | .own word => word
  | .leaf node => node.text

@[simp] theorem text_own
    (word : String) :
    (own word).text = word :=
  rfl

@[simp] theorem text_leaf
    (node : Node) :
    (leaf node).text = node.text :=
  rfl

/-- The leaf of a segment. -/
def leaf? :
    Segment → Option Node
  | .own _ => none
  | .leaf node => some node

@[simp] theorem leaf?_own
    (word : String) :
    (own word).leaf? = none :=
  rfl

@[simp] theorem leaf?_leaf
    (node : Node) :
    (leaf node).leaf? = some node :=
  rfl

end Segment

namespace Node

/-- The words of a node around the segments of its parts. -/
def surround
    (node : Node)
    (parts : List (List Segment)) :
    List Segment :=
  if node.isWord then
    [.leaf node]
  else
    .own "(" :: .own node.head ::
      (node.bound?.toList.flatMap (fun name => [.own " ", .own name]) ++
        (parts.flatMap (fun part => .own node.gap :: part) ++ [.own ")"]))

/-- The line of a node, cut at the leaves below it. -/
def segments :
    Node → List Segment :=
  fold surround

/-- The leaves below a node, as they are written in its line. -/
def leaves
    (node : Node) :
    List Node :=
  node.segments.filterMap Segment.leaf?

/-- The pieces of a line are those of the children, between what surrounds them. -/
theorem segments_eq
    (node : Node) :
    node.segments = node.surround (node.children.map segments) :=
  fold_eq ..

/-- The leaves around which a node writes its words are those of its parts. -/
theorem leaves_surround
    {node : Node}
    (noWord : node.isWord = false)
    (parts : List (List Segment)) :
    (node.surround parts).filterMap Segment.leaf? =
      parts.flatMap (List.filterMap Segment.leaf?) := by
  cases bound : node.bound? <;>
    simp [surround, noWord, bound, List.filterMap_cons, List.filterMap_flatMap]

/--
The words that a node writes around its parts are its own, blanks and parentheses.
-/
theorem own_of_mem_surround
    {node : Node}
    (noWord : node.isWord = false)
    {parts : List (List Segment)}
    {word : String}
    (member : .own word ∈ node.surround parts) :
    word ∈ ["", " ", "(", ")"] ∨ word ∈ node.head :: node.bound?.toList ∨
      ∃ part ∈ parts, .own word ∈ part := by
  have gaps : node.gap = "" ∨ node.gap = " " := by
    unfold gap
    split <;> simp
  simp only [surround, noWord, Bool.false_eq_true, ↓reduceIte, List.mem_cons,
    List.mem_append, List.mem_flatMap, Segment.own.injEq, List.not_mem_nil,
    or_false] at member
  rcases member with
    rfl | rfl | ⟨name, isName, rfl | rfl⟩ | ⟨part, isPart, rfl | inPart⟩ | rfl
  · simp
  · simp
  · simp
  · exact .inr (.inl (List.mem_cons_of_mem _ isName))
  · rcases gaps with gap | gap <;> simp [gap]
  · exact .inr (.inr ⟨part, isPart, inPart⟩)
  · simp

/-- The segments make up the line. -/
theorem flatMap_segments
    (node : Node) :
    (node.segments.flatMap fun segment => segment.text.toList) =
      node.text.toList := by
  induction node using inductionOn with
  | step node inductionHypothesis =>
      rw [segments_eq, surround]
      cases isWord : node.isWord with
      | true => simp
      | false =>
          have parts :
              (node.children.flatMap fun child => node.gap.toList ++
                child.segments.flatMap fun segment => segment.text.toList) =
              node.children.flatMap fun child =>
                node.gap.toList ++ child.text.toList :=
            List.flatMap_congr fun child member => by
              rw [inductionHypothesis child member]
          rw [toList_text_of_not_word isWord, ← parts]
          cases node.bound? <;>
            simp [partText, List.flatMap_map, List.flatMap_assoc]

/-- The leaves stand in a line in the order in which a walk visits them. -/
theorem leaves_eq
    (node : Node)
    (levels : Nat) :
    node.leaves = ((node.walk levels).map Prod.snd).filter isWord := by
  induction node using inductionOn generalizing levels with
  | step node inductionHypothesis =>
      rw [leaves, segments_eq, walk_eq]
      cases isWord : node.isWord with
      | true => simp [surround, (class_of_isWord isWord).2, isWord]
      | false =>
          have parts :
              node.children.flatMap leaves =
                node.children.flatMap fun child =>
                  ((child.walk (levels + 1)).map Prod.snd).filter Node.isWord :=
            List.flatMap_congr fun child member =>
              inductionHypothesis child member (levels + 1)
          rw [leaves_surround isWord, List.flatMap_map, List.map_cons,
            List.map_flatMap, List.filter_cons_of_neg (by simp [isWord]),
            List.filter_flatMap]
          exact parts

/-- All that is written between the leaves are words of nodes above them. -/
theorem own_of_mem_segments
    {node : Node}
    {word : String}
    (levels : Nat)
    (member : .own word ∈ node.segments) :
    word ∈ ["", " ", "(", ")"] ∨
      ∃ other ∈ (node.walk levels).map Prod.snd, other.isWord = false ∧
        word ∈ other.head :: other.bound?.toList := by
  induction node using inductionOn generalizing levels with
  | step node inductionHypothesis =>
      rw [segments_eq] at member
      rw [walk_eq, List.map_cons, List.map_flatMap]
      cases isWord : node.isWord with
      | true => simp [surround, isWord] at member
      | false =>
          rcases own_of_mem_surround isWord member with
            blank | own | ⟨part, isPart, inPart⟩
          · exact .inl blank
          · exact .inr ⟨node, List.mem_cons_self, isWord, own⟩
          · obtain ⟨child, isChild, rfl⟩ := List.mem_map.mp isPart
            apply (inductionHypothesis child isChild (levels + 1) inPart).imp_right
            rintro ⟨other, isBelow, own⟩
            exact ⟨other, List.mem_cons_of_mem _
              (List.mem_flatMap.mpr ⟨child, isChild, isBelow⟩), own⟩

/-- The words without parentheses are the literals and the references. -/
theorem isWord_eq
    (node : Node) :
    node.isWord = (node.isA .literal || node.isA .reference) := by
  cases node with
  | expr inner => cases inner <;> rfl
  | stmt inner => cases inner <;> rfl

/-- Leaves of one kind are found in the order in which they are written. -/
theorem find_eq_filter_leaves
    {wanted : NodeClass}
    (leaf : ∀ node : Node, node.isA wanted = true → node.isWord = true)
    (root : Node) :
    root.find wanted = root.leaves.filter (isA wanted) := by
  rw [find, leaves_eq root 0, List.filter_filter]
  apply List.filter_congr
  intro node _
  cases isA : node.isA wanted with
  | true => simp [leaf node isA]
  | false => simp

/-- The walks through a tree agree with each other and with its line. -/
structure WalksAgree
    (root : Node) :
    Prop where
  /-- Children are what the fields of a node hold, one field after the other. -/
  fields :
    ∀ site ∈ root.sites, site.node.children = site.node.fields.flatMap Field.nodes
  /--
  While the line of a node is written, its children are asked for, in their order.
  -/
  written :
    ∀ site ∈ root.sites, ∀ before,
      (site.node.writeWith noted).run before =
        pure (site.node.text, before ++ site.node.children)
  /-- All places to which a way leads are listed. -/
  listed : ∀ site, site ∈ root.sites ↔ root.Leads site.trail site.node
  /-- An outline has a line for each of them, in the order of the list. -/
  outlined :
    ∀ indent, root.outline indent =
      String.join (root.sites.map fun site =>
        outlineLine (indent + site.trail.length, site.node))
  /-- A search finds what stands at the places of a class, in the same order. -/
  found : ∀ wanted, root.find wanted = (root.sitesOf wanted).map Site.node
  ordered : ∀ wanted, (root.sitesOf wanted).Sublist root.sites
  /--
  These are the places of the nodes in the class or in one below it, each once.
  -/
  classed :
    ∀ wanted site, site ∈ root.sitesOf wanted ↔
      root.Leads site.trail site.node ∧ site.node.nodeClass.Within wanted
  once : ∀ wanted, ((root.sitesOf wanted).map Site.trail).Nodup
  /-- Every node is an expression or a statement, and not both. -/
  divided :
    ∀ site ∈ root.sites, site ∈ root.sitesOf .anyExpr ↔ site ∉ root.sitesOf .anyStmt
  /-- The line consists of leaves and, between them, of words of the other nodes. -/
  line : String.join (root.segments.map Segment.text) = root.text
  between :
    ∀ word, .own word ∈ root.segments →
      word ∈ ["", " ", "(", ")"] ∨
        ∃ site ∈ root.sites, site.node.isWord = false ∧
          word ∈ site.node.head :: site.node.bound?.toList
  /--
  Its leaves are the literals and the references that are found, in the same order.
  -/
  leaves :
    root.leaves =
      (root.sites.filter fun site =>
        site.node.isA .literal || site.node.isA .reference).map Site.node
  literals : root.find .literal = root.leaves.filter (isA .literal)
  references : root.find .reference = root.leaves.filter (isA .reference)

/--
Walks through a tree visit the same places in the same order, and so does its line.
-/
theorem walksAgree
    (root : Node) :
    root.WalksAgree where
  fields site _ := site.node.children_eq_fields
  written site _ := site.node.run_writeWith_noted
  listed _ := mem_sites_iff
  outlined indent := outline_eq_sites indent root
  found wanted := find_eq_sites wanted root
  ordered _ := List.filter_sublist
  classed _ _ := mem_sitesOf_iff
  once _ := (nodup_trails root []).sublist (List.filter_sublist.map _)
  divided site member := by
    simp [sitesOf, member, isA_anyExpr_eq]
  line := by
    apply String.toList_injective
    rw [String.toList_join, List.flatMap_map, flatMap_segments]
  between word member := by
    have words := own_of_mem_segments 0 member
    rw [← map_node_sites] at words
    simpa using words
  leaves := by
    rw [leaves_eq root 0, ← map_node_sites, List.filter_map]
    congr 2
    funext site
    exact isWord_eq site.node
  literals :=
    find_eq_filter_leaves
      (fun node isLiteral => by simp [isWord_eq, isLiteral]) root
  references :=
    find_eq_filter_leaves
      (fun node isReference => by simp [isWord_eq, isReference]) root

/-- The body of a loop with an increment is found among the blocks. -/
example :
    let name : Token := ⟨.identifier, "i", .nil, 1, 0⟩
    let round : Stmt := .loopBody (.block []) (.assign name (.reference name))
    let loop : Node := .stmt (.whileLoop (.reference name) round)
    (loop.find .block).map nodeClass = [.loopBody, .block] ∧
      (loop.find .reference).map text = ["i", "i"] := by
  decide

end Node

end Lox
