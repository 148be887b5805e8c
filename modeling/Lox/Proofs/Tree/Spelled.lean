import Lox.Proofs.Decimal.Display
import Lox.Proofs.Grammar.Built
import Lox.Proofs.Session.ExpressionText
import Lox.Proofs.Token.Layout
import Lox.Tree.Printer

namespace Lox

/-!
# Spelled trees

The tokens of a tree that is read from a text were scanned, so each is determined by
its lexeme, and each literal by how it is displayed.  A node is determined by its
class, by what a listing shows besides that, and by its children.
-/

namespace Lexer

/-- The spellings of all kinds that have only one. -/
def spellings :
    List (String × Kind) :=
  fixedLexemes.map (fun entry => (String.ofList entry.1, entry.2)) ++ Kind.keywords

variable {kind other : Kind} {text : List Char}

/-- Every lexeme but a literal or a name is spelled in the one way of its kind. -/
theorem Lexeme.mem_spellings
    (lexeme : Lexeme (.token kind) text)
    (fixed : kind ∉ [.identifier, .number, .string]) :
    (String.ofList text, kind) ∈ spellings := by
  cases lexeme with
  | fixed listed => exact List.mem_append_left _ (List.mem_map_of_mem listed)
  | keyword _ listed => exact List.mem_append_right _ listed
  | _ => exact (fixed (by decide)).elim

/-- No kind has two spellings. -/
theorem eq_of_mem_spellings
    {spelling otherSpelling : String}
    (listed : (spelling, kind) ∈ spellings)
    (otherListed : (otherSpelling, kind) ∈ spellings) :
    spelling = otherSpelling := by
  have unique : ∀ entry ∈ spellings, ∀ other ∈ spellings,
      entry.2 = other.2 → entry.1 = other.1 := by
    decide +kernel
  exact unique _ listed _ otherListed rfl

/-- A name is a word that is no keyword. -/
theorem Lexeme.name_of_identifier
    (lexeme : Lexeme (.token .identifier) text) :
    Word text ∧ ∀ kind, (String.ofList text, kind) ∉ Kind.keywords := by
  cases lexeme with
  | fixed listed =>
      exact ((by decide : ∀ entry ∈ fixedLexemes, entry.2 ≠ .identifier)
        _ listed rfl).elim
  | keyword _ listed =>
      exact ((by decide : ∀ entry ∈ Kind.keywords, entry.2 ≠ .identifier)
        _ listed rfl).elim
  | name word unlisted => exact ⟨word, unlisted⟩

/-- A text is a lexeme of one kind only. -/
theorem Lexeme.kind_unique
    (lexeme : Lexeme (.token kind) text)
    (otherLexeme : Lexeme (.token other) text) :
    kind = other := by
  obtain ⟨first, rest, rfl, rule⟩ :=
    lexeme.cutBefore (show ' ' ∈ blanks by decide) []
  obtain ⟨_, _, same, otherRule⟩ :=
    otherLexeme.cutBefore (show ' ' ∈ blanks by decide) []
  obtain ⟨rfl, rfl⟩ := List.cons_eq_cons.mp same
  have shapes := rule.leading_eq.symm.trans otherRule.leading_eq
  simpa using shapes

/-- The characters of words and numbers delimit nothing. -/
theorem not_mem_delimiters
    {character : Char}
    (continues : continuesName character = true ∨ character = '.') :
    character ∉ Text.delimiters := by
  intro delimits
  simp only [Text.delimiters, List.mem_cons, List.not_mem_nil, or_false] at delimits
  rcases delimits with rfl | rfl | rfl | rfl | rfl
  all_goals exact absurd continues (by decide)

theorem not_mem_delimiters_of_digit
    {character : Char}
    (digit : Digit character) :
    character ∉ Text.delimiters :=
  not_mem_delimiters (.inl (continuesName_iff.mpr (.inr digit)))

theorem atom_of_word
    (word : Word text) :
    Text.Atom text := by
  cases text with
  | nil => exact word.elim
  | cons first rest =>
      refine .bare ⟨List.cons_ne_nil _ _, List.forall_mem_cons.mpr ⟨?_, ?_⟩⟩
      · exact not_mem_delimiters (.inl (continuesName_iff.mpr (.inl word.1)))
      · intro character member
        exact not_mem_delimiters
          (.inl (continuesName_iff.mpr (word.2 character member)))

/-- A lexeme stands for itself, unless it is a parenthesis. -/
theorem Lexeme.atom
    (lexeme : Lexeme (.token kind) text)
    (noParen : kind ∉ [.leftParen, .rightParen]) :
    Text.Atom text := by
  cases lexeme with
  | fixed listed =>
      have legible : ∀ entry ∈ fixedLexemes, entry.2 ∉ [.leftParen, .rightParen] →
          Text.Bare entry.1 := by
        decide
      exact .bare (legible _ listed noParen)
  | string noQuote => exact .quoted noQuote
  | whole nonempty digits =>
      exact .bare ⟨nonempty, fun character member =>
        not_mem_delimiters_of_digit (digits character member)⟩
  | fraction nonempty digits _ further =>
      refine .bare ⟨by simp, fun character member => ?_⟩
      rcases List.mem_append.mp member with inWhole | behind
      · exact not_mem_delimiters_of_digit (digits character inWhole)
      · rcases List.mem_cons.mp behind with rfl | inFraction
        · exact not_mem_delimiters (.inr rfl)
        · exact not_mem_delimiters_of_digit (further character inFraction)
  | keyword word _ => exact atom_of_word word
  | name word _ => exact atom_of_word word

/-- Scanned tokens with one lexeme differ in their places only. -/
theorem Token.Scans.unplaced_eq
    {token other : Token}
    (scans : Token.Scans token)
    (otherScans : Token.Scans other)
    (same : token.lexeme = other.lexeme) :
    token.unplaced = other.unplaced := by
  have otherLexeme := otherScans.isLexeme
  have otherPiece := otherScans.isPiece
  rw [← same] at otherLexeme otherPiece
  rw [← scans.isLexeme.kind_unique otherLexeme] at otherPiece
  exact Option.some.inj (scans.isPiece.symm.trans otherPiece)

end Lexer

namespace Value

/-- The literal text of a string is no other literal's. -/
theorem quote_mem_literalText_iff
    {value : Value} :
    (∃ text, value = .string text) ↔ '"' ∈ value.literalText.toList := by
  cases value with
  | nil => exact iff_of_false (by simp) (by decide)
  | boolean truth => exact iff_of_false (by simp) (by cases truth <;> decide)
  | number quantity =>
      refine iff_of_false (by simp) fun member => ?_
      exact (bare_display_number quantity).2 _ member (by decide)
  | string text => exact iff_of_true ⟨text, rfl⟩ (by simp [literalText])

/-- Only the words for truth values and for nil are displayed as such words. -/
theorem eq_of_literalText_mem
    {value : Value}
    (listed : value.literalText ∈ ["nil", "true", "false"]) :
    value ∈ [.nil, .boolean true, .boolean false] := by
  cases value with
  | nil => decide
  | boolean truth => cases truth <;> decide
  | number quantity => exact (display_number_not_mem quantity listed).elim
  | string text =>
      have quoted := quote_mem_literalText_iff.mp ⟨text, rfl⟩
      have unquoted : ∀ word ∈ ["nil", "true", "false"], '"' ∉ word.toList := by
        decide
      exact (unquoted _ listed quoted).elim

/-- Literals that are displayed alike are the same. -/
theorem literalText_injective
    {value other : Value}
    (same : value.literalText = other.literalText) :
    value = other := by
  have constant {value other : Value} (same : value.literalText = other.literalText)
      (listed : value ∈ [Value.nil, .boolean true, .boolean false]) :
        value = other := by
    have words : ∀ word ∈ [Value.nil, .boolean true, .boolean false],
        word.literalText ∈ ["nil", "true", "false"] := by
      decide
    have otherListed := eq_of_literalText_mem (same ▸ words value listed)
    have distinct : ∀ word ∈ [Value.nil, .boolean true, .boolean false],
        ∀ other ∈ [Value.nil, .boolean true, .boolean false],
          word.literalText = other.literalText → word = other := by
      decide
    exact distinct value listed other otherListed same
  cases value with
  | nil => exact constant same (by decide)
  | boolean truth => exact constant same (by cases truth <;> decide)
  | number quantity =>
      cases other with
      | nil => exact (constant same.symm (by decide)).symm
      | boolean truth => exact (constant same.symm (by cases truth <;> decide)).symm
      | number other => exact congrArg Value.number (display_number_injective same)
      | string text =>
          obtain ⟨body, isString⟩ := quote_mem_literalText_iff.mpr
            (same ▸ quote_mem_literalText_iff.mp ⟨text, rfl⟩)
          cases isString
  | string text =>
      obtain ⟨body, rfl⟩ := quote_mem_literalText_iff.mpr
        (same ▸ quote_mem_literalText_iff.mp ⟨text, rfl⟩)
      simpa [literalText] using same

end Value

/-- A whole expression is built of its tokens. -/
theorem Parser.builds_wholeExpression
    {tokens : List Token} :
    Builds tokens Parser.wholeExpression (Expr.Formed tokens) := by
  refine builds_expression.andThen fun whole formed =>
    builds_remaining.andThen fun place _ => ?_
  cases place with
  | nil => exact builds_accept formed
  | cons token rest => exact builds_reject _

/-- An expression that tokens derive as is well-formed. -/
theorem Grammar.Derives.formed
    {tokens : List Token}
    {expr : Expr}
    (derives : Derives .assignment tokens expr) :
    expr.Formed tokens :=
  (Parser.builds_wholeExpression (List.suffix_refl tokens)).value?
    (readExpression_found_of_derives derives)

/-- A node that a text is read as: its expression, or a statement of its program. -/
inductive Node.ReadFrom (source : String) : Node → Prop where
  | expression
      {expr : Expr} :
      (readExpression (Lexer.scan source).stream.tokens).accepted?.join =
        some expr →
      ReadFrom source (.expr expr)
  | statement
      {program : Program}
      {stmt : Stmt} :
      (readProgram (Lexer.scan source).stream.tokens).accepted? = some program →
      stmt ∈ program →
      ReadFrom source (.stmt stmt)

/-- A node whose tokens were scanned from a text, each of a kind that fits. -/
def Node.Spelled
    (node : Node) :
    Prop :=
  ∃ source, node.Marked (Lexer.scan source).stream.tokens

/-- A node without the places of its tokens. -/
def Node.unplaced :
    Node → Node
  | .expr inner => .expr inner.unplaced
  | .stmt inner => .stmt inner.unplaced

namespace Token.Among

variable {source otherSource : String} {kinds otherKinds : List Kind}
  {token other : Token}

/-- Scanned tokens stand for themselves, but for parentheses. -/
theorem atom
    (among : token.Among (Lexer.scan source).stream.tokens kinds)
    (noParens : ∀ kind ∈ kinds, kind ∉ [.leftParen, .rightParen]) :
    Text.Atom token.lexeme.toList :=
  (Lexer.scans_of_mem_scan among.member).isLexeme.atom (noParens _ among.kind)

/-- Tokens scanned from two texts are determined by their lexemes. -/
theorem unplaced_eq
    (among : token.Among (Lexer.scan source).stream.tokens kinds)
    (otherAmong : other.Among (Lexer.scan otherSource).stream.tokens otherKinds)
    (same : token.lexeme = other.lexeme) :
    token.unplaced = other.unplaced :=
  (Lexer.scans_of_mem_scan among.member).unplaced_eq
    (Lexer.scans_of_mem_scan otherAmong.member) same

/-- Scanned tokens of a kind with one spelling differ in their places only. -/
theorem unplaced_eq_of_kind
    {kind : Kind}
    (among : token.Among (Lexer.scan source).stream.tokens [kind])
    (otherAmong : other.Among (Lexer.scan otherSource).stream.tokens [kind])
    (fixed : kind ∉ [.identifier, .number, .string]) :
    token.unplaced = other.unplaced := by
  have listed := (Lexer.scans_of_mem_scan among.member).isLexeme
  have otherListed := (Lexer.scans_of_mem_scan otherAmong.member).isLexeme
  rw [List.mem_singleton.mp among.kind] at listed
  rw [List.mem_singleton.mp otherAmong.kind] at otherListed
  refine among.unplaced_eq otherAmong ?_
  have sameText := Lexer.eq_of_mem_spellings (listed.mem_spellings fixed)
    (otherListed.mem_spellings fixed)
  simpa using sameText

end Token.Among

namespace Node

/-- What holds everywhere implies everywhere what it implies at a node. -/
theorem Everywhere.imp
    {holds other : Node → Prop}
    {node : Node}
    (everywhere : Everywhere holds node)
    (implies : ∀ {node}, holds node → other node) :
    Everywhere other node := by
  induction everywhere with
  | mk here _ inductionHypothesis => exact .mk (implies here) inductionHypothesis

/-- All nodes of a tree that a text is read as are spelled. -/
theorem ReadFrom.everywhere_spelled
    {source : String}
    {node : Node}
    (read : ReadFrom source node) :
    Everywhere Spelled node := by
  have formed : Everywhere (Formed (Lexer.scan source).stream.tokens) node := by
    cases read with
    | expression found =>
        exact (readExpression_accepted?_iff.mp found).formed
    | statement accepted member =>
        exact (formed_of_accepted accepted _ member).nodes
  exact formed.imp fun formed => ⟨source, formed.marked⟩

@[simp] theorem nodeClass_unplaced
    (node : Node) :
    node.unplaced.nodeClass = node.nodeClass := by
  cases node with
  | expr inner => cases inner <;> rfl
  | stmt inner => exact inner.nodeClass_unplaced

@[simp] theorem children_unplaced
    (node : Node) :
    node.unplaced.children = node.children.map unplaced := by
  cases node with
  | expr inner => cases inner <;> rfl
  | stmt inner =>
      cases inner with
      | var name initial => cases initial <;> rfl
      | block statements =>
          simp [unplaced, Stmt.unplaced, children, Stmt.children,
            Stmt.unplacedAll_eq_map]
      | _ => rfl

/-- The literal of a token that was scanned is written as an atom. -/
theorem atom_of_marked_literal
    {source : String}
    {value : Value}
    (marked :
      (Node.expr (.literal value)).Marked (Lexer.scan source).stream.tokens) :
    Text.Atom value.literalText.toList := by
  rcases marked with constant | ⟨token, among, rfl⟩
  · have words : ∀ word ∈ [Value.nil, .boolean true, .boolean false],
        Text.Bare word.literalText.toList := by
      decide
    exact .bare (words value constant)
  · have denotes := Lexer.denotes_of_mem_scan among.member
    have isAtom := Token.Among.atom among (by decide)
    unfold Token.Denotes at denotes
    split at denotes
    · obtain ⟨numeral, -, literal⟩ := denotes
      rw [literal]
      exact .bare (Value.bare_display_number numeral.value)
    · obtain ⟨text, lexeme, literal⟩ := denotes
      have same :
          (Value.string (String.ofList text)).literalText.toList =
            token.lexeme.toList := by
        simp [Value.literalText, lexeme]
      rw [literal, same]
      exact isAtom
    · have fits := among.kind
      simp_all

/-- What a listing shows of a spelled node stands for itself. -/
theorem Spelled.atom
    {node : Node}
    (spelled : node.Spelled)
    {detail : String}
    (shown : node.detail? = some detail) :
    Text.Atom detail.toList := by
  obtain ⟨source, marked⟩ := spelled
  cases node with
  | expr inner =>
      cases inner with
      | literal value =>
          cases shown
          exact atom_of_marked_literal marked
      | grouping => cases shown
      | _ =>
          cases shown
          exact Token.Among.atom marked (by decide)
  | stmt inner =>
      cases inner with
      | var =>
          cases shown
          exact Token.Among.atom marked (by decide)
      | _ => cases shown

section Same

variable {source otherSource : String}

/--
Expressions of a class that are listed alike
differ in the places of their tokens only.
-/
theorem unplaced_expr_eq
    {inner other : Expr}
    (marked : (Node.expr inner).Marked (Lexer.scan source).stream.tokens)
    (otherMarked : (Node.expr other).Marked (Lexer.scan otherSource).stream.tokens)
    (sameClass : inner.nodeClass = other.nodeClass)
    (sameDetail : inner.detail? = other.detail?)
    (sameChildren :
      inner.children.map Expr.unplaced = other.children.map Expr.unplaced) :
    inner.unplaced = other.unplaced := by
  cases inner with
  | literal value =>
      cases other with
      | literal otherValue =>
          rw [Value.literalText_injective (Option.some.inj sameDetail)]
      | _ => cases sameClass
  | grouping below =>
      cases other with
      | grouping otherBelow =>
          simpa [Expr.children, Expr.unplaced] using sameChildren
      | _ => cases sameClass
  | unary operator operand =>
      cases other with
      | unary otherOperator otherOperand =>
          have operators :=
            Token.Among.unplaced_eq marked otherMarked (Option.some.inj sameDetail)
          simpa [Expr.children, Expr.unplaced, operators] using sameChildren
      | _ => cases sameClass
  | binary left operator right =>
      cases other with
      | binary otherLeft otherOperator otherRight =>
          have operators :=
            Token.Among.unplaced_eq marked otherMarked (Option.some.inj sameDetail)
          simpa [Expr.children, Expr.unplaced, operators] using sameChildren
      | _ => cases sameClass
  | logical left operator right =>
      cases other with
      | logical otherLeft otherOperator otherRight =>
          have operators :=
            Token.Among.unplaced_eq marked otherMarked (Option.some.inj sameDetail)
          simpa [Expr.children, Expr.unplaced, operators] using sameChildren
      | _ => cases sameClass
  | reference name =>
      cases other with
      | reference otherName =>
          have names :=
            Token.Among.unplaced_eq marked otherMarked (Option.some.inj sameDetail)
          simp [Expr.unplaced, names]
      | _ => cases sameClass
  | assign name value =>
      cases other with
      | assign otherName otherValue =>
          have names :=
            Token.Among.unplaced_eq marked otherMarked (Option.some.inj sameDetail)
          simpa [Expr.children, Expr.unplaced, names] using sameChildren
      | _ => cases sameClass

/--
Statements of a class that are listed alike
differ in the places of their tokens only.
-/
theorem unplaced_stmt_eq
    {inner other : Stmt}
    (marked : (Node.stmt inner).Marked (Lexer.scan source).stream.tokens)
    (otherMarked : (Node.stmt other).Marked (Lexer.scan otherSource).stream.tokens)
    (sameClass : inner.nodeClass = other.nodeClass)
    (sameDetail : inner.detail? = other.detail?)
    (sameChildren : inner.children.map unplaced = other.children.map unplaced) :
    inner.unplaced = other.unplaced := by
  cases inner with
  | expression below =>
      cases other with
      | expression otherBelow =>
          simpa [Stmt.children, Stmt.unplaced, unplaced] using sameChildren
      | _ => cases sameClass
  | print below =>
      cases other with
      | print otherBelow =>
          simpa [Stmt.children, Stmt.unplaced, unplaced] using sameChildren
      | _ => cases sameClass
  | var name initial =>
      cases other with
      | var otherName otherInitial =>
          have names :=
            Token.Among.unplaced_eq marked otherMarked (Option.some.inj sameDetail)
          cases initial with
          | none =>
              cases otherInitial with
              | none => simp [Stmt.unplaced, names]
              | some otherValue => cases sameChildren
          | some value =>
              cases otherInitial with
              | none => cases sameChildren
              | some otherValue =>
                  simpa [Stmt.children, Stmt.unplaced, unplaced, names]
                    using sameChildren
      | _ => cases sameClass
  | block statements =>
      cases other with
      | block otherStatements =>
          have sameStatements :
              statements.map Stmt.unplaced = otherStatements.map Stmt.unplaced := by
            have inner (row : List Stmt) : (row.map Node.stmt).map unplaced =
                (row.map Stmt.unplaced).map Node.stmt := by
              simp [unplaced]
            have injective : Function.Injective Node.stmt :=
              fun _ _ => Node.stmt.inj
            simp only [Stmt.children, inner] at sameChildren
            exact injective.list_map sameChildren
          simp [Stmt.unplaced, Stmt.unplacedAll_eq_map, sameStatements]
      | _ => cases sameClass
  | loopBody body increment =>
      cases other with
      | loopBody otherBody otherIncrement =>
          simpa [Stmt.children, Stmt.unplaced, unplaced] using sameChildren
      | _ => cases sameClass
  | ifThen condition thenPart =>
      cases other with
      | ifThen otherCondition otherThen =>
          simpa [Stmt.children, Stmt.unplaced, unplaced] using sameChildren
      | ifElse => simp [Stmt.children] at sameChildren
      | _ => cases sameClass
  | ifElse condition thenPart elsePart =>
      cases other with
      | ifThen => simp [Stmt.children] at sameChildren
      | ifElse otherCondition otherThen otherElse =>
          simpa [Stmt.children, Stmt.unplaced, unplaced] using sameChildren
      | _ => cases sameClass
  | whileLoop condition body =>
      cases other with
      | whileLoop otherCondition otherBody =>
          simpa [Stmt.children, Stmt.unplaced, unplaced] using sameChildren
      | _ => cases sameClass
  | breakLoop keyword =>
      cases other with
      | breakLoop otherKeyword =>
          simp [Stmt.unplaced,
            Token.Among.unplaced_eq_of_kind marked otherMarked (by decide)]
      | _ => cases sameClass
  | continueLoop keyword =>
      cases other with
      | continueLoop otherKeyword =>
          simp [Stmt.unplaced,
            Token.Among.unplaced_eq_of_kind marked otherMarked (by decide)]
      | _ => cases sameClass

end Same

/--
Nodes of a class that are listed alike differ in the places of their tokens only.
-/
theorem unplaced_eq
    {node other : Node}
    (spelled : node.Spelled)
    (otherSpelled : other.Spelled)
    (sameClass : node.nodeClass = other.nodeClass)
    (sameDetail : node.detail? = other.detail?)
    (sameChildren : node.children.map unplaced = other.children.map unplaced) :
    node.unplaced = other.unplaced := by
  obtain ⟨source, marked⟩ := spelled
  obtain ⟨otherSource, otherMarked⟩ := otherSpelled
  cases node with
  | expr inner =>
      cases other with
      | expr otherInner =>
          have belowSame : inner.children.map Expr.unplaced =
              otherInner.children.map Expr.unplaced := by
            have injective : Function.Injective Node.expr :=
              fun _ _ => Node.expr.inj
            refine injective.list_map ?_
            simpa [children, unplaced, Function.comp_def] using sameChildren
          exact congrArg Node.expr
            (unplaced_expr_eq marked otherMarked sameClass sameDetail belowSame)
      | stmt otherInner => cases inner <;> cases otherInner <;> cases sameClass
  | stmt inner =>
      cases other with
      | expr otherInner => cases inner <;> cases otherInner <;> cases sameClass
      | stmt otherInner =>
          exact congrArg Node.stmt
            (unplaced_stmt_eq marked otherMarked sameClass sameDetail sameChildren)

end Node

end Lox
