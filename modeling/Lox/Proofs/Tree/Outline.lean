import Lox.Proofs.Tree.Spelled

namespace Lox.Node

/-!
# Outlines

The outline of a tree is a line for its root, and below it the outlines of the
children, one level further to the right.  A line starts with letters, so behind
the outline of a tree it is clear where the next line belongs.  Main statement:
nodes that are read from texts have the same outline exactly if they are the
same but for the places of their tokens.
-/

/-- The characters of an outline. -/
def outlineText
    (levels : Nat)
    (node : Node) :
    List Char :=
  (node.outline levels).toList

/-- The blanks in front of a line. -/
def indentation
    (levels : Nat) :
    List Char :=
  List.replicate (2 * levels) ' '

theorem indentation_succ
    (levels : Nat) :
    indentation (levels + 1) = indentation levels ++ [' ', ' '] := by
  simp [indentation, Nat.mul_add, List.replicate_add]

/--
An outline is the line of the root, and below it the outlines of the children.
-/
theorem outlineText_eq
    (levels : Nat)
    (node : Node) :
    node.outlineText levels =
      indentation levels ++ (node.label.toList ++
        '\n' :: node.children.flatMap (outlineText (levels + 1))) := by
  have lines (levels : Nat) (node : Node) :
      node.outlineText levels =
        (node.walk levels).flatMap fun entry => (outlineLine entry).toList := by
    rw [outlineText, outline, String.toList_join, List.flatMap_map]
  have below : outlineText (levels + 1) =
      fun child => (child.walk (levels + 1)).flatMap fun entry =>
        (outlineLine entry).toList :=
    funext (lines (levels + 1))
  rw [lines, walk_eq, List.flatMap_cons, List.flatMap_assoc, below]
  simp [outlineLine, indentation]

/-- Names of classes hold letters only. -/
theorem isAlpha_of_mem_name
    (nodeClass : NodeClass) :
    nodeClass.name.toList ≠ [] ∧
      ∀ character ∈ nodeClass.name.toList, character.isAlpha = true := by
  have letters :
      nodeClass.name.toList ≠ [] ∧
        nodeClass.name.toList.all Char.isAlpha = true := by
    cases nodeClass <;> decide
  exact letters.imp_right List.all_eq_true.mp

/-- Node classes have different names. -/
theorem name_injective
    {nodeClass other : NodeClass}
    (same : nodeClass.name = other.name) :
    nodeClass = other := by
  have distinct : ∀ first ∈ NodeClass.all, ∀ second ∈ NodeClass.all,
      first.name = second.name → first = second := by
    decide
  exact distinct _ (NodeClass.mem_all _) _ (NodeClass.mem_all _) same

/-- What stands behind the name of the class in a label. -/
def detailText
    (node : Node) :
    List Char :=
  match node.detail? with
  | none => []
  | some detail => '(' :: (detail.toList ++ [')'])

theorem toList_label
    (node : Node) :
    node.label.toList = node.nodeClass.name.toList ++ node.detailText := by
  unfold label detailText
  cases node.detail? <;> simp

section Cut

variable {node other : Node} {behind behind' : List Char}

/-- A label and what stands on the lines below it are told apart. -/
theorem label_cut
    (spelled : node.Spelled)
    (otherSpelled : other.Spelled)
    (same :
      node.label.toList ++ '\n' :: behind = other.label.toList ++ '\n' :: behind') :
    node.nodeClass = other.nodeClass ∧ node.detail? = other.detail? ∧
      behind = behind' := by
  have noLetter (node : Node) (behind : List Char) :
      ∀ character ∈ (node.detailText ++ '\n' :: behind).head?,
        ¬ character.isAlpha = true := by
    unfold detailText
    cases node.detail? <;> simp
  have letters (node : Node) :
      ∀ character ∈ node.nodeClass.name.toList, ¬ ¬ character.isAlpha = true :=
    fun character member => not_not.mpr ((isAlpha_of_mem_name _).2 character member)
  rw [toList_label, toList_label, List.append_assoc, List.append_assoc] at same
  obtain ⟨sameName, sameRest⟩ :=
    Text.append_cancel_of_stop (¬ Char.isAlpha · = true) (letters node)
      (letters other) (noLetter node behind) (noLetter other behind') same
  refine ⟨name_injective (String.toList_injective sameName), ?_⟩
  unfold detailText at sameRest
  cases shown : node.detail? with
  | none =>
      cases otherShown : other.detail? with
      | none => simpa [shown, otherShown] using sameRest
      | some otherDetail => simp [shown, otherShown] at sameRest
  | some detail =>
      cases otherShown : other.detail? with
      | none => simp [shown, otherShown] at sameRest
      | some otherDetail =>
          simp only [shown, otherShown, List.cons_append, List.cons.injEq,
            List.append_assoc, true_and] at sameRest
          obtain ⟨sameDetail, sameBehind⟩ :=
            (spelled.atom shown).cut (otherSpelled.atom otherShown)
              (Text.delimited_cons (by decide) _)
              (Text.delimited_cons (by decide) _) sameRest
          refine ⟨congrArg some (String.toList_injective sameDetail), ?_⟩
          simpa using sameBehind

end Cut

/--
What stands behind a tree: its next line, if any,
is further to the left than the levels.
-/
def Above
    (levels : Nat)
    (behind : List Char) :
    Prop :=
  ¬ indentation levels <+: behind

theorem Above.succ
    {levels : Nat}
    {behind : List Char}
    (above : Above levels behind) :
    Above (levels + 1) behind := by
  intro deeper
  rw [indentation_succ] at deeper
  exact above ((List.prefix_append _ _).trans deeper)

/-- The line of a node is at its level and no further to the right. -/
theorem above_outlineText
    (levels : Nat)
    (node : Node)
    (behind : List Char) :
    ¬ Above levels (node.outlineText levels ++ behind) ∧
      Above (levels + 1) (node.outlineText levels ++ behind) := by
  rw [outlineText_eq, List.append_assoc]
  constructor
  · exact not_not.mpr (List.prefix_append _ _)
  · intro deeper
    rw [indentation_succ, List.prefix_append_right_inj, toList_label] at deeper
    obtain ⟨nonempty, letters⟩ := isAlpha_of_mem_name node.nodeClass
    obtain ⟨first, rest, isName⟩ := List.exists_cons_of_ne_nil nonempty
    rw [isName] at deeper letters
    obtain ⟨rfl, -⟩ := List.cons_prefix_cons.mp deeper
    exact absurd (letters ' ' List.mem_cons_self) (by decide)

/-- The outline of a tree ends where something further to the left stands. -/
theorem outlineText_cut
    {node other : Node}
    (spelled : Everywhere Spelled node)
    (otherSpelled : Everywhere Spelled other)
    {levels : Nat}
    {behind behind' : List Char}
    (above : Above (levels + 1) behind)
    (above' : Above (levels + 1) behind')
    (same :
      node.outlineText levels ++ behind = other.outlineText levels ++ behind') :
    node.unplaced = other.unplaced ∧ behind = behind' := by
  induction spelled generalizing other levels behind behind' with
  | @mk node here below inductionHypothesis =>
      simp only [outlineText_eq, List.append_assoc, List.append_cancel_left_eq,
        List.cons_append] at same
      obtain ⟨sameClass, sameDetail, sameRows⟩ :=
        label_cut here otherSpelled.here same
      obtain ⟨sameChildren, sameBehind⟩ := Text.append_cancel_of_pieces
        (fun above => above.succ)
        (fun child _ behind => (above_outlineText (levels + 1) child behind).2)
        (fun child _ behind => (above_outlineText (levels + 1) child behind).1)
        (fun child member otherChild otherMember behind behind' inner inner' same =>
          inductionHypothesis child member (otherSpelled.child otherMember)
            inner inner' same)
        above above' sameRows
      exact ⟨unplaced_eq here otherSpelled.here sameClass sameDetail
        sameChildren, sameBehind⟩

/-- Neither the place of a token nor the place of any token below leaves a trace. -/
theorem label_unplaced
    (node : Node) :
    node.unplaced.label = node.label := by
  have sameDetail : node.unplaced.detail? = node.detail? := by
    cases node with
    | expr inner => cases inner <;> rfl
    | stmt inner => cases inner <;> rfl
  rw [label, sameDetail, nodeClass_unplaced]
  rfl

/-- Places of tokens do not show in an outline. -/
theorem outlineText_unplaced
    {node : Node}
    (spelled : Everywhere Spelled node)
    (levels : Nat) :
    node.unplaced.outlineText levels = node.outlineText levels := by
  induction spelled generalizing levels with
  | @mk node _ _ inductionHypothesis =>
      rw [outlineText_eq, outlineText_eq levels node, label_unplaced,
        children_unplaced, List.flatMap_map]
      congr 3
      exact List.flatMap_congr fun child member =>
        inductionHypothesis child member (levels + 1)

/--
Nodes that are read from two texts have the same outline, however far it is
indented, exactly if they are the same but for the places of their tokens.
-/
theorem outline_eq_iff
    {source otherSource : String}
    {node other : Node}
    (read : node.ReadFrom source)
    (otherRead : other.ReadFrom otherSource)
    (indent : Nat) :
    node.outline indent = other.outline indent ↔
      node.unplaced = other.unplaced := by
  have spelled := read.everywhere_spelled
  have otherSpelled := otherRead.everywhere_spelled
  constructor
  · intro same
    have nothingBelow : Above (indent + 1) [] := by simp [Above, indentation]
    have sameText :
        node.outlineText indent ++ [] = other.outlineText indent ++ [] := by
      simp [outlineText, same]
    exact (outlineText_cut spelled otherSpelled nothingBelow
      nothingBelow sameText).1
  · intro same
    have sameText : node.outlineText indent = other.outlineText indent := by
      rw [← outlineText_unplaced spelled, ← outlineText_unplaced otherSpelled, same]
    exact String.toList_injective sameText

/-- Two layouts of one expression, with a text that looks like a tree in it. -/
theorem outline_eq_of_layouts :
    ∃ expr other : Expr,
      (Node.expr expr).ReadFrom "-(\"a)\n  Literal(b\" + 1.50)" ∧
        (Node.expr other).ReadFrom "// twice\n- ( \"a)\n  Literal(b\"+ 1.50 )" ∧
        expr ≠ other ∧
        (Node.expr expr).outline 2 = (Node.expr other).outline 2 := by
  have read : (readExpression
      (Lexer.scan "-(\"a)\n  Literal(b\" + 1.50)").stream.tokens).accepted?.join =
        some (.unary ⟨.minus, "-", .nil, 1, 0⟩
          (.grouping (.binary (.literal (.string "a)\n  Literal(b"))
            ⟨.plus, "+", .nil, 2, 19⟩ (.literal (.number 1.5))))) := by
    decide +kernel
  have otherRead : (readExpression
      (Lexer.scan
        "// twice\n- ( \"a)\n  Literal(b\"+ 1.50 )").stream.tokens).accepted?.join =
        some (.unary ⟨.minus, "-", .nil, 2, 9⟩
          (.grouping (.binary (.literal (.string "a)\n  Literal(b"))
            ⟨.plus, "+", .nil, 3, 29⟩ (.literal (.number 1.5))))) := by
    decide +kernel
  refine ⟨_, _, .expression read, .expression otherRead, ?_, ?_⟩
  · decide
  · exact (outline_eq_iff (.expression read) (.expression otherRead) 2).mpr rfl

end Lox.Node
