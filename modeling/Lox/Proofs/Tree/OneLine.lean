import Lox.Proofs.Tree.Part
import Lox.Proofs.Tree.Spelled

namespace Lox

/-!
# One-line forms

A node is written as a word, or as words and its children between parentheses.  The
first word tells the class of a node, but for operators, which stand in front of one
operand or of two, and for loop bodies, which are written as blocks.
-/

mutual

/-- A statement with loop bodies replaced by the blocks that they are written as. -/
def Stmt.plain :
    Stmt → Stmt
  | .expression inner => .expression inner
  | .print inner => .print inner
  | .var name initial => .var name initial
  | .block statements => .block (Stmt.plainAll statements)
  | .loopBody body increment => .block [body.plain, .expression increment]
  | .ifThen condition thenPart => .ifThen condition thenPart.plain
  | .ifElse condition thenPart elsePart =>
      .ifElse condition thenPart.plain elsePart.plain
  | .whileLoop condition body => .whileLoop condition body.plain
  | .breakLoop keyword => .breakLoop keyword
  | .continueLoop keyword => .continueLoop keyword

/-- Statements with loop bodies replaced. -/
def Stmt.plainAll :
    List Stmt → List Stmt
  | [] => []
  | first :: rest => first.plain :: Stmt.plainAll rest

end

namespace Stmt

theorem plainAll_eq_map
    (statements : List Stmt) :
    plainAll statements = statements.map plain := by
  induction statements with
  | nil => rfl
  | cons first rest inductionHypothesis => simp [plainAll, inductionHypothesis]

mutual

/-- Loop bodies are written as blocks. -/
theorem text_plain :
    (stmt : Stmt) → stmt.plain.text = stmt.text
  | .expression _ => rfl
  | .print _ => rfl
  | .var _ none => rfl
  | .var _ (some _) => rfl
  | .block statements => by rw [plain, text, text, texts_plainAll statements]
  | .loopBody body increment => by simp [plain, text, texts, text_plain body]
  | .ifThen condition thenPart => by rw [plain, text, text, text_plain thenPart]
  | .ifElse condition thenPart elsePart => by
      rw [plain, text, text, text_plain thenPart, text_plain elsePart]
  | .whileLoop condition body => by rw [plain, text, text, text_plain body]
  | .breakLoop _ => rfl
  | .continueLoop _ => rfl

/-- Statements have the same one-line forms when they are made plain. -/
theorem texts_plainAll :
    (statements : List Stmt) → texts (plainAll statements) = texts statements
  | [] => rfl
  | first :: rest =>
      by rw [plainAll, texts, texts, text_plain first, texts_plainAll rest]

end

end Stmt

namespace Node

/-- A node with loop bodies replaced by blocks. -/
def plain :
    Node → Node
  | .expr inner => .expr inner
  | .stmt inner => .stmt inner.plain

/-- A node has the same one-line form when it is made plain. -/
@[simp] theorem text_plain
    (node : Node) :
    node.plain.text = node.text := by
  cases node with
  | expr inner => rfl
  | stmt inner => exact inner.text_plain

/-- The children of a plain node are the children of the node, made plain. -/
@[simp] theorem children_plain
    (node : Node) :
    node.plain.children = node.children.map plain := by
  cases node with
  | expr inner => simp [plain, children, Function.comp_def]
  | stmt inner =>
      cases inner with
      | var name initial => cases initial <;> rfl
      | block statements =>
          simp [plain, Stmt.plain, children, Stmt.children, Stmt.plainAll_eq_map]
      | _ => rfl

/-- No plain node is the body of a loop with an increment. -/
theorem nodeClass_plain_ne
    (node : Node) :
    node.plain.nodeClass ≠ .loopBody := by
  cases node with
  | expr inner => cases inner <;> exact nofun
  | stmt inner => cases inner <;> exact nofun

/-- What a node spells stays spelled when it is made plain. -/
theorem Spelled.plain
    {node : Node}
    (spelled : node.Spelled) :
    node.plain.Spelled := by
  obtain ⟨source, marked⟩ := spelled
  refine ⟨source, ?_⟩
  cases node with
  | expr inner => exact marked
  | stmt inner => cases inner <;> exact marked

/-- A number that stands in a node is finite. -/
def FiniteNumber :
    Node → Prop
  | .expr (.literal (.number quantity)) => quantity.isFinite = true
  | _ => True

/-- A number that is finite stays finite when its node is made plain. -/
theorem FiniteNumber.plain
    {node : Node}
    (finite : node.FiniteNumber) :
    node.plain.FiniteNumber := by
  cases node with
  | expr inner => exact finite
  | stmt inner => trivial

/-- A node that can be told from its form in one line. -/
structure Telling
    (node : Node) :
    Prop where
  spelled : node.Spelled
  finite : node.FiniteNumber
  noRound : node.nodeClass ≠ .loopBody

/--
Spelled nodes with finite numbers have plain nodes that their lines tell apart.
-/
theorem everywhere_telling_plain
    {node : Node}
    (spelled : Everywhere Spelled node)
    (finite : Everywhere FiniteNumber node) :
    Everywhere Telling node.plain := by
  induction spelled with
  | @mk node here _ inductionHypothesis =>
      refine .mk ⟨here.plain, finite.here.plain, nodeClass_plain_ne node⟩ ?_
      rw [children_plain]
      intro child member
      obtain ⟨inner, isChild, rfl⟩ := List.mem_map.mp member
      exact inductionHypothesis inner isChild (finite.child isChild)

/-- The characters of a node behind the parenthesis that opens it. -/
def innerText
    (node : Node) :
    List Char :=
  node.bound?.toList.flatMap partText ++
    (node.children.flatMap (fun child => partText child.text) ++ [')'])

/--
Every other node is written as its words and its children between parentheses.
-/
theorem toList_text
    {node : Node}
    (noWord : node.isWord = false)
    (nonempty : ∀ child ∈ node.children, child.text ≠ "") :
    node.text.toList = '(' :: (node.head.toList ++ node.innerText) := by
  have parts :
      node.children.flatMap (fun child => node.gap.toList ++ child.text.toList) =
        node.children.flatMap fun child => partText child.text := by
    apply List.flatMap_congr
    intro child member
    have blank : node.gap = " " := by
      refine if_neg fun nothing => ?_
      have empty := flatMap_toList_of_intercalate nothing.2
      rw [List.flatMap_map, List.flatMap_eq_nil_iff] at empty
      exact nonempty child member (by simpa using empty child member)
    simp [blank, partText]
  rw [toList_text_of_not_word noWord, parts, innerText]

/--
A class, with the operators in front of one operand counted among the binary ones.
-/
def merged :
    NodeClass → NodeClass
  | .unary => .binary
  | nodeClass => nodeClass

/-- Classes other than that of unary operators are not merged. -/
theorem merged_of_ne
    {nodeClass : NodeClass}
    (noUnary : nodeClass ≠ .unary) :
    merged nodeClass = nodeClass := by
  cases nodeClass <;> first | rfl | exact (noUnary rfl).elim

/-- The class that a first word tells, merged. -/
def classOfHead :
    String → NodeClass
  | "group" => .grouping
  | "=" => .assign
  | ";" => .expression
  | "print" => .print
  | "var" => .var
  | "block" => .block
  | "if" | "if-else" => .branch
  | "while" => .whileLoop
  | "break" => .breakLoop
  | "continue" => .continueLoop
  | "and" | "or" => .logical
  | _ => .binary

/-- Operators tell their class. -/
theorem classOfHead_lexeme
    {source : String}
    {operator : Token}
    {kinds : List Kind}
    {nodeClass : NodeClass}
    (among : operator.Among (Lexer.scan source).stream.tokens kinds)
    (fixed : ∀ kind ∈ kinds, kind ∉ [.identifier, .number, .string])
    (tells : ∀ entry ∈ Lexer.spellings, entry.2 ∈ kinds →
      classOfHead entry.1 = nodeClass) :
    classOfHead operator.lexeme = nodeClass := by
  have listed := (Lexer.scans_of_mem_scan among.member).isLexeme.mem_spellings
    (fixed _ among.kind)
  simpa using tells _ listed among.kind

/--
The first word tells the class of a node, but for operators in front of one operand.
-/
theorem classOfHead_head
    {node : Node}
    (telling : node.Telling)
    (noWord : node.isWord = false) :
    classOfHead node.head = merged node.nodeClass := by
  obtain ⟨⟨source, marked⟩, -, noRound⟩ := telling
  cases node with
  | expr inner =>
      cases inner with
      | literal => cases noWord
      | reference => cases noWord
      | unary operator operand =>
          have tells : classOfHead operator.lexeme = .binary :=
            classOfHead_lexeme marked (by decide) (by decide +kernel)
          exact tells
      | binary left operator right =>
          have tells : classOfHead operator.lexeme = .binary :=
            classOfHead_lexeme marked (by decide) (by decide +kernel)
          exact tells
      | logical left operator right =>
          have tells : classOfHead operator.lexeme = .logical :=
            classOfHead_lexeme marked (by decide) (by decide +kernel)
          exact tells
      | _ => rfl
  | stmt inner =>
      cases inner with
      | loopBody => exact (noRound rfl).elim
      | _ => rfl

/-- Operators in front of one operand have one child, and all others two. -/
theorem nodeClass_eq_unary_iff
    {node : Node}
    (operates : merged node.nodeClass = .binary) :
    node.nodeClass = .unary ↔ node.children.length = 1 := by
  cases node with
  | expr inner =>
      cases inner with
      | unary => exact iff_of_true rfl rfl
      | binary => exact iff_of_false nofun (by simp [children, Expr.children])
      | _ => cases operates
  | stmt inner => cases inner <;> cases operates

/-- The nodes that bind a name are those of assignments and declarations. -/
theorem isSome_bound?
    (node : Node) :
    node.bound?.isSome =
      (merged node.nodeClass = .assign || merged node.nodeClass = .var) := by
  cases node with
  | expr inner => cases inner <;> rfl
  | stmt inner => cases inner <;> rfl

/-- What a listing shows of a node is among its words. -/
theorem detail?_eq
    (node : Node) :
    node.detail? =
      if node.nodeClass ∈ [.literal, .reference, .unary, .binary, .logical] then
        some node.head
      else
        node.bound? := by
  cases node with
  | expr inner => cases inner <;> rfl
  | stmt inner => cases inner <;> rfl

/-- A word that names something: no constant, and it starts like a name. -/
def isName
    (word : String) :
    Bool :=
  !(["nil", "true", "false"].contains word) &&
    word.toList.head?.any Lexer.startsName

/-- Constants are no names, and strings and finite numbers do not start like one. -/
theorem isName_literalText
    {value : Value}
    (finite : (Node.expr (.literal value)).FiniteNumber) :
    isName value.literalText = false := by
  cases value with
  | nil => decide
  | boolean truth => cases truth <;> decide
  | number quantity =>
      obtain ⟨first, rest, isText, starts⟩ := Value.startsName_display_number finite
      have noName : Lexer.startsName first = false := by
        rcases starts with digit | rfl
        · exact Bool.eq_false_iff.mpr fun name => by
            rw [Lexer.isDigit_eq_false_of_startsName name] at digit
            cases digit
        · decide
      simp [isName, Value.literalText, isText, noName]
  | string text =>
      have noName : Lexer.startsName '"' = false := by decide
      simp [isName, Value.literalText, noName]

/-- An identifier is a word that is no keyword. -/
theorem isName_of_lexeme
    {word : String}
    (lexeme : Lexer.Lexeme (.token .identifier) word.toList) :
    isName word = true := by
  obtain ⟨isWord, unlisted⟩ := lexeme.name_of_identifier
  rw [String.ofList_toList] at unlisted
  have noConstant : word ∉ ["nil", "true", "false"] := by
    have keywords : ∀ constant ∈ ["nil", "true", "false"],
        ∃ kind, (constant, kind) ∈ Kind.keywords := by
      simp [Kind.keywords]
    intro constant
    obtain ⟨kind, listed⟩ := keywords word constant
    exact unlisted kind listed
  cases isText : word.toList with
  | nil =>
      rw [isText] at isWord
      exact isWord.elim
  | cons first rest =>
      rw [isText] at isWord
      have starts := Lexer.startsName_iff.mpr isWord.1
      simp [isName, noConstant, isText, starts]

/-- Names are told apart from literals. -/
theorem isName_head_iff
    {node : Node}
    (telling : node.Telling)
    (isWord : node.isWord = true) :
    isName node.head = true ↔ node.nodeClass = .reference := by
  obtain ⟨⟨source, marked⟩, finite, -⟩ := telling
  cases node with
  | stmt inner => cases inner <;> cases isWord
  | expr inner =>
      cases inner with
      | literal value =>
          have noName : isName value.literalText = false :=
            isName_literalText finite
          exact iff_of_false (by simp [head, noName]) nofun
      | reference name =>
          have lexeme := (Lexer.scans_of_mem_scan marked.member).isLexeme
          rw [List.mem_singleton.mp marked.kind] at lexeme
          exact iff_of_true (isName_of_lexeme lexeme) rfl
      | _ => cases isWord

/-- The words of the language that stand at the head of a node. -/
theorem atom_of_fixed
    {word : String}
    (fixed :
      word ∈
        ["group", "=", ";", "print", "var", "block", "if", "if-else", "while",
          "break", "continue"]) :
    Text.Atom word.toList := by
  have legible :
      ∀ word ∈
        ["group", "=", ";", "print", "var", "block", "if", "if-else", "while",
          "break", "continue"], Text.Bare word.toList := by
    decide
  exact .bare (legible word fixed)

/-- The head of a spelled node is an atom. -/
theorem atom_head
    {node : Node}
    (spelled : node.Spelled) :
    Text.Atom node.head.toList := by
  cases node with
  | expr inner =>
      cases inner with
      | grouping => exact atom_of_fixed (by simp [head])
      | assign => exact atom_of_fixed (by simp [head])
      | _ => exact spelled.atom rfl
  | stmt inner => cases inner <;> exact atom_of_fixed (by simp [head])

/-- The name that a spelled node binds is an atom. -/
theorem atom_bound
    {node : Node}
    (spelled : node.Spelled)
    {name : String}
    (bound : node.bound? = some name) :
    Text.Atom name.toList := by
  refine spelled.atom ?_
  cases node with
  | expr inner =>
      cases inner with
      | assign => exact bound
      | _ => cases bound
  | stmt inner =>
      cases inner with
      | var => exact bound
      | _ => cases bound

/-- Every form has characters. -/
theorem text_ne_empty
    {node : Node}
    (telling : Everywhere Telling node) :
    node.text ≠ "" := by
  induction telling with
  | @mk node here _ inductionHypothesis =>
      intro empty
      cases isWord : node.isWord with
      | true =>
          rw [text_of_isWord isWord] at empty
          exact (atom_head here.spelled).ne_nil (by simp [empty])
      | false =>
          have isText := toList_text isWord inductionHypothesis
          simp [empty] at isText

section Cut

variable {node other : Node} {behind behind' : List Char}

/-- Behind the first word stands a blank or the closing parenthesis. -/
theorem delimited_innerText
    (node : Node)
    (behind : List Char) :
    Text.Delimited (node.innerText ++ behind) := by
  unfold innerText
  cases node.bound? with
  | some name => exact Text.delimited_cons (by decide) _
  | none =>
      cases node.children with
      | nil => exact Text.delimited_cons (by decide) _
      | cons child rest => exact Text.delimited_cons (by decide) _

/-- Nodes whose parts are told apart are told apart behind their first words. -/
theorem innerText_cut
    (telling : node.Telling)
    (otherTelling : other.Telling)
    (sameBound : node.bound?.isSome = other.bound?.isSome)
    (cut : ∀ child ∈ node.children, ∀ otherChild ∈ other.children, ∀ behind behind',
      Text.Delimited behind → Text.Delimited behind' →
        child.text.toList ++ behind = otherChild.text.toList ++ behind' →
          child.unplaced = otherChild.unplaced ∧ behind = behind')
    (same : node.innerText ++ behind = other.innerText ++ behind') :
    node.bound? = other.bound? ∧
      node.children.map unplaced = other.children.map unplaced ∧
        behind = behind' := by
  have parts
      (same :
        node.children.flatMap (fun child => partText child.text) ++
            ')' :: behind =
          other.children.flatMap (fun child => partText child.text) ++
            ')' :: behind') :
      node.children.map unplaced = other.children.map unplaced ∧
        behind = behind' := by
    obtain ⟨sameChildren, sameBehind⟩ := @Text.append_cancel_of_pieces _ _
      (fun child : Node => partText child.text) unplaced Text.Delimited
      (fun behind => ∃ rest, behind = ')' :: rest) _ _ _ _
      (by rintro _ ⟨rest, rfl⟩; exact Text.delimited_cons (by decide) _)
      (fun _ _ _ => Text.delimited_cons (by decide) _)
      (by rintro _ _ _ ⟨rest, closes⟩; cases closes)
      (fun child member otherChild otherMember behind behind' delimited
        delimited' same =>
        cut child member otherChild otherMember behind behind' delimited delimited'
          (List.cons_eq_cons.mp same).2)
      ⟨behind, rfl⟩ ⟨behind', rfl⟩ same
    exact ⟨sameChildren, (List.cons_eq_cons.mp sameBehind).2⟩
  unfold innerText at same
  cases bound : node.bound? with
  | none =>
      cases otherBound : other.bound? with
      | none =>
          rw [bound, otherBound] at same
          exact ⟨rfl, parts (by simpa using same)⟩
      | some name => simp [bound, otherBound] at sameBound
  | some name =>
      cases otherBound : other.bound? with
      | none => simp [bound, otherBound] at sameBound
      | some otherName =>
          rw [bound, otherBound] at same
          have sameNames :
              name.toList ++
                  (node.children.flatMap (fun child => partText child.text) ++
                    ')' :: behind) =
                otherName.toList ++
                  (other.children.flatMap (fun child => partText child.text) ++
                    ')' :: behind') := by
            simpa [partText] using same
          have delimited (node : Node) (behind : List Char) :
              Text.Delimited
                (node.children.flatMap (fun child => partText child.text) ++
                  ')' :: behind) := by
            cases node.children with
            | nil => exact Text.delimited_cons (by decide) _
            | cons child rest => exact Text.delimited_cons (by decide) _
          obtain ⟨sameName, sameParts⟩ := (atom_bound telling.spelled bound).cut
            (atom_bound otherTelling.spelled otherBound) (delimited node behind)
            (delimited other behind') sameNames
          exact ⟨congrArg some (String.toList_injective sameName), parts sameParts⟩

/-- Words are told apart from each other. -/
theorem word_cut
    (telling : node.Telling)
    (otherTelling : other.Telling)
    (isWord : node.isWord = true)
    (otherIsWord : other.isWord = true)
    (sameHead : node.head = other.head) :
    node.unplaced = other.unplaced := by
  have sameName : node.nodeClass = .reference ↔ other.nodeClass = .reference := by
    rw [← isName_head_iff telling isWord,
      ← isName_head_iff otherTelling otherIsWord, sameHead]
  obtain ⟨nodeClass, noChildren⟩ := class_of_isWord isWord
  obtain ⟨otherClass, noOtherChildren⟩ := class_of_isWord otherIsWord
  have sameClass : node.nodeClass = other.nodeClass := by
    rcases nodeClass with literal | reference
    · rcases otherClass with otherLiteral | otherReference
      · exact literal.trans otherLiteral.symm
      · exact (sameName.mpr otherReference).trans otherReference.symm
    · exact reference.trans (sameName.mp reference).symm
  have sameDetail : node.detail? = other.detail? := by
    rcases nodeClass with literal | reference
    · simp [detail?_eq, ← sameClass, literal, sameHead]
    · simp [detail?_eq, ← sameClass, reference, sameHead]
  exact unplaced_eq telling.spelled otherTelling.spelled sameClass sameDetail
    (by rw [noChildren, noOtherChildren])

/--
Nodes with the same words and children have the same class. The two kinds of
operators share their words, and are told apart by their children.
-/
theorem nodeClass_eq
    (telling : node.Telling)
    (otherTelling : other.Telling)
    (noWord : node.isWord = false)
    (otherNoWord : other.isWord = false)
    (sameHead : node.head = other.head)
    (sameCount : node.children.length = other.children.length) :
    node.nodeClass = other.nodeClass := by
  have same : merged node.nodeClass = merged other.nodeClass := by
    rw [← classOfHead_head telling noWord,
      ← classOfHead_head otherTelling otherNoWord, sameHead]
  by_cases operates : merged node.nodeClass = .binary
  · have unary := nodeClass_eq_unary_iff operates
    have otherUnary := nodeClass_eq_unary_iff (same.symm.trans operates)
    rw [sameCount] at unary
    have sameUnary := unary.trans otherUnary.symm
    by_cases isUnary : node.nodeClass = .unary
    · rw [isUnary, sameUnary.mp isUnary]
    · rwa [merged_of_ne isUnary, merged_of_ne (mt sameUnary.mpr isUnary)] at same
  · have noUnary (nodeClass : NodeClass)
      (operatesNot : merged nodeClass ≠ .binary) :
        nodeClass ≠ .unary := by
      rintro rfl
      exact operatesNot rfl
    have otherOperatesNot : merged other.nodeClass ≠ .binary := same ▸ operates
    rwa [merged_of_ne (noUnary _ operates),
      merged_of_ne (noUnary _ otherOperatesNot)] at same

/--
The form of a node ends where something else stands than can go on with it. The
induction is on the first tree, and what stands behind changes from child to child.
-/
theorem text_cut
    (telling : Everywhere Telling node)
    (otherTelling : Everywhere Telling other)
    (delimited : Text.Delimited behind)
    (delimited' : Text.Delimited behind')
    (same : node.text.toList ++ behind = other.text.toList ++ behind') :
    node.unplaced = other.unplaced ∧ behind = behind' := by
  induction telling generalizing other behind behind' with
  | @mk node here below inductionHypothesis =>
      have isText (noWord : node.isWord = false) :=
        toList_text noWord fun child member => text_ne_empty (below child member)
      have otherText (noWord : other.isWord = false) :=
        toList_text noWord fun child member =>
          text_ne_empty (otherTelling.child member)
      cases isWord : node.isWord with
      | true =>
          rw [text_of_isWord isWord] at same
          cases otherIsWord : other.isWord with
          | true =>
              rw [text_of_isWord otherIsWord] at same
              obtain ⟨sameHead, sameBehind⟩ := (atom_head here.spelled).cut
                (atom_head otherTelling.here.spelled) delimited delimited' same
              exact ⟨word_cut here otherTelling.here isWord otherIsWord
                (String.toList_injective sameHead), sameBehind⟩
          | false =>
              rw [otherText otherIsWord, List.cons_append] at same
              exact ((atom_head here.spelled).head_ne (by decide)
                (by decide) same).elim
      | false =>
          rw [isText isWord, List.cons_append] at same
          cases otherIsWord : other.isWord with
          | true =>
              rw [text_of_isWord otherIsWord] at same
              exact ((atom_head otherTelling.here.spelled).head_ne (by decide)
                (by decide) same.symm).elim
          | false =>
              rw [otherText otherIsWord, List.cons_append, List.cons.injEq,
                List.append_assoc, List.append_assoc] at same
              obtain ⟨sameHead, sameInner⟩ := (atom_head here.spelled).cut
                (atom_head otherTelling.here.spelled)
                (delimited_innerText node behind)
                (delimited_innerText other behind') same.2
              have heads : node.head = other.head :=
                String.toList_injective sameHead
              have sameBound : node.bound?.isSome = other.bound?.isSome := by
                rw [isSome_bound?, isSome_bound?, ← classOfHead_head here isWord,
                  ← classOfHead_head otherTelling.here otherIsWord, heads]
              obtain ⟨bounds, sameChildren, sameBehind⟩ :=
                innerText_cut here otherTelling.here sameBound
                  (fun child member otherChild otherMember _ _ =>
                    inductionHypothesis child member
                      (otherTelling.child otherMember))
                  sameInner
              have sameCount : node.children.length = other.children.length := by
                simpa using congrArg List.length sameChildren
              have sameClass :=
                nodeClass_eq here otherTelling.here isWord otherIsWord heads
                  sameCount
              have sameDetail : node.detail? = other.detail? := by
                rw [detail?_eq, detail?_eq, sameClass, heads, bounds]
              exact ⟨unplaced_eq here.spelled otherTelling.here.spelled sameClass
                sameDetail sameChildren, sameBehind⟩

end Cut

end Node

/-- The place of a token leaves no trace in a form. -/
theorem Expr.text_unplaced
    (expr : Expr) :
    expr.unplaced.text = expr.text := by
  induction expr <;> simp_all [Expr.unplaced, Expr.text, Token.unplaced]

namespace Stmt

mutual

/-- The one-line form of a statement shows no places. -/
theorem text_unplaced :
    (stmt : Stmt) → stmt.unplaced.text = stmt.text
  | .expression inner => by simp [unplaced, text, inner.text_unplaced]
  | .print inner => by simp [unplaced, text, inner.text_unplaced]
  | .var name none => rfl
  | .var name (some initial) =>
      by simp [unplaced, text, initial.text_unplaced, Token.unplaced]
  | .block statements => by rw [unplaced, text, text, texts_unplacedAll statements]
  | .loopBody body increment => by
      simp [unplaced, text, text_unplaced body, increment.text_unplaced]
  | .ifThen condition thenPart => by
      simp [unplaced, text, condition.text_unplaced, text_unplaced thenPart]
  | .ifElse condition thenPart elsePart => by
      simp [unplaced, text, condition.text_unplaced, text_unplaced thenPart,
        text_unplaced elsePart]
  | .whileLoop condition body => by
      simp [unplaced, text, condition.text_unplaced, text_unplaced body]
  | .breakLoop _ => rfl
  | .continueLoop _ => rfl

theorem texts_unplacedAll :
    (statements : List Stmt) → texts (unplacedAll statements) = texts statements
  | [] => rfl
  | first :: rest => by
      rw [unplacedAll, texts, texts, text_unplaced first, texts_unplacedAll rest]

end

end Stmt

namespace Node

/-- The one-line form of a node shows no places. -/
theorem text_unplaced
    (node : Node) :
    node.unplaced.text = node.text := by
  cases node with
  | expr inner => exact inner.text_unplaced
  | stmt inner => exact inner.text_unplaced

/--
Nodes with finite numbers that are read from two texts have the same form in one
line exactly if they are the same but for the places of their tokens, and but
for loop bodies in the place of blocks.
-/
theorem text_eq_iff
    {source otherSource : String}
    {node other : Node}
    (read : node.ReadFrom source)
    (otherRead : other.ReadFrom otherSource)
    (finite : Everywhere FiniteNumber node)
    (otherFinite : Everywhere FiniteNumber other) :
    node.text = other.text ↔ node.plain.unplaced = other.plain.unplaced := by
  constructor
  · intro same
    have telling := everywhere_telling_plain read.everywhere_spelled finite
    have otherTelling :=
      everywhere_telling_plain otherRead.everywhere_spelled otherFinite
    have nothing : Text.Delimited [] := by simp [Text.Delimited]
    exact (text_cut telling otherTelling nothing nothing (by simp [same])).1
  · intro same
    rw [← text_plain, ← text_plain other, ← text_unplaced,
      ← other.plain.text_unplaced, same]

/--
Two layouts of one expression, with both kinds of minus and parentheses in a text.
-/
theorem text_eq_of_layouts :
    ∃ expr other : Expr,
      (Node.expr expr).ReadFrom "-1.50 - (\"a) (b\" == x)" ∧
        (Node.expr other).ReadFrom "-1.5-( \"a) (b\"==x)\n// same" ∧
        expr ≠ other ∧
        (Node.expr expr).text = (Node.expr other).text := by
  have read : (readExpression
      (Lexer.scan "-1.50 - (\"a) (b\" == x)").stream.tokens).accepted?.join =
        some (.binary
          (.unary ⟨.minus, "-", .nil, 1, 0⟩ (.literal (.number 1.5)))
          ⟨.minus, "-", .nil, 1, 6⟩
          (.grouping
            (.binary (.literal (.string "a) (b")) ⟨.equalEqual, "==", .nil, 1, 17⟩
            (.reference ⟨.identifier, "x", .nil, 1, 20⟩)))) := by
    decide +kernel
  have otherRead : (readExpression
      (Lexer.scan "-1.5-( \"a) (b\"==x)\n// same").stream.tokens).accepted?.join =
        some (.binary
          (.unary ⟨.minus, "-", .nil, 1, 0⟩ (.literal (.number 1.5)))
          ⟨.minus, "-", .nil, 1, 4⟩
          (.grouping
            (.binary (.literal (.string "a) (b")) ⟨.equalEqual, "==", .nil, 1, 14⟩
            (.reference ⟨.identifier, "x", .nil, 1, 16⟩)))) := by
    decide +kernel
  have finite (first second : Token) (third name : Token) : Everywhere FiniteNumber
      (.expr (.binary (.unary first (.literal (.number 1.5))) second
        (.grouping
          (.binary (.literal (.string "a) (b")) third (.reference name))))) := by
    have leaf (expr : Expr) (leaf : expr.children = [])
      (finite : (Node.expr expr).FiniteNumber) :
        Everywhere FiniteNumber (.expr expr) :=
      .mk finite (by simp [children, leaf])
    have parts (expr : Expr) (below : ∀ child ∈ expr.children,
        Everywhere FiniteNumber (.expr child))
            (finite : (Node.expr expr).FiniteNumber) :
        Everywhere FiniteNumber (.expr expr) :=
      .mk finite (by simpa [children] using below)
    have number :=
      leaf (.literal (.number 1.5)) rfl (show Float.isFinite 1.5 = true by decide)
    have text := leaf (.literal (.string "a) (b")) rfl trivial
    have comparison :=
      parts (.binary (.literal (.string "a) (b")) third (.reference name))
        (by simpa [Expr.children] using ⟨text, leaf _ rfl trivial⟩) trivial
    have negative := parts (.unary first (.literal (.number 1.5)))
      (by simpa [Expr.children] using number) trivial
    have group :=
      parts (.grouping _) (by simpa [Expr.children] using comparison) trivial
    exact parts _ (by simpa [Expr.children] using ⟨negative, group⟩) trivial
  refine ⟨_, _, .expression read, .expression otherRead, ?_, ?_⟩
  · decide
  · exact (text_eq_iff (.expression read) (.expression otherRead) (finite ..)
      (finite ..)).mpr rfl

end Node

end Lox
