import Lox.Tree.Printer

namespace Lox

/-!
# Parts of a node

What the parts of a node are can be told in two ways: from the fields that it
consists of, and from the writing of its line, which asks for the lines of its
parts.  Either way they are its children, in their order.
-/

/-- What a field of a node holds. -/
inductive Field where
  | value (value : Value)
  | token (token : Token)
  | part (node : Node)
  /-- A part that is left out. -/
  | absent
  | parts (nodes : List Node)
  deriving Repr

/-- The nodes that a field holds. -/
def Field.nodes :
    Field → List Node
  | .value _ => []
  | .token _ => []
  | .part node => [node]
  | .absent => []
  | .parts nodes => nodes

namespace Node

/-- The fields of a node, as its class declares them. -/
def fields :
    Node → List Field
  | .expr (.literal value) => [.value value]
  | .expr (.grouping inner) => [.part (.expr inner)]
  | .expr (.unary operator operand) => [.token operator, .part (.expr operand)]
  | .expr (.binary left operator right) =>
      [.part (.expr left), .token operator, .part (.expr right)]
  | .expr (.logical left operator right) =>
      [.part (.expr left), .token operator, .part (.expr right)]
  | .expr (.reference name) => [.token name]
  | .expr (.assign name value) => [.token name, .part (.expr value)]
  | .stmt (.expression inner) => [.part (.expr inner)]
  | .stmt (.print inner) => [.part (.expr inner)]
  | .stmt (.var name none) => [.token name, .absent]
  | .stmt (.var name (some initial)) => [.token name, .part (.expr initial)]
  | .stmt (.block statements) => [.parts (statements.map .stmt)]
  | .stmt (.loopBody body increment) =>
      [.parts [.stmt body, .stmt (.expression increment)]]
  | .stmt (.ifThen condition thenPart) =>
      [.part (.expr condition), .part (.stmt thenPart), .absent]
  | .stmt (.ifElse condition thenPart elsePart) =>
      [.part (.expr condition), .part (.stmt thenPart), .part (.stmt elsePart)]
  | .stmt (.whileLoop condition body) =>
      [.part (.expr condition), .part (.stmt body)]
  | .stmt (.breakLoop keyword) => [.token keyword]
  | .stmt (.continueLoop keyword) => [.token keyword]

/-- The children are what the fields hold, one field after the other. -/
theorem children_eq_fields
    (node : Node) :
    node.children = node.fields.flatMap Field.nodes := by
  cases node with
  | expr inner => cases inner <;> rfl
  | stmt inner =>
      cases inner with
      | var name initial => cases initial <;> rfl
      | block statements => simp [children, Stmt.children, fields, Field.nodes]
      | _ => rfl

/-- The first word of a node. -/
def head :
    Node → String
  | .expr (.literal value) => value.literalText
  | .expr (.grouping _) => "group"
  | .expr (.unary operator _) => operator.lexeme
  | .expr (.binary _ operator _) => operator.lexeme
  | .expr (.logical _ operator _) => operator.lexeme
  | .expr (.reference name) => name.lexeme
  | .expr (.assign _ _) => "="
  | .stmt (.expression _) => ";"
  | .stmt (.print _) => "print"
  | .stmt (.var _ _) => "var"
  | .stmt (.block _) => "block"
  | .stmt (.loopBody _ _) => "block"
  | .stmt (.ifThen _ _) => "if"
  | .stmt (.ifElse _ _ _) => "if-else"
  | .stmt (.whileLoop _ _) => "while"
  | .stmt (.breakLoop _) => "break"
  | .stmt (.continueLoop _) => "continue"

/-- The name behind the first word, where something is bound. -/
def bound? :
    Node → Option String
  | .expr (.assign name _) => some name.lexeme
  | .stmt (.var name _) => some name.lexeme
  | _ => none

/-- The nodes that are one word, without parentheses. -/
def isWord
    (node : Node) :
    Bool :=
  node.nodeClass = .literal || node.nodeClass = .reference

theorem class_of_isWord
    {node : Node}
    (isWord : node.isWord = true) :
    (node.nodeClass = .literal ∨ node.nodeClass = .reference) ∧
      node.children = [] := by
  cases node with
  | expr inner =>
      cases inner with
      | literal => exact ⟨.inl rfl, rfl⟩
      | reference => exact ⟨.inr rfl, rfl⟩
      | _ => cases isWord
  | stmt inner => cases inner <;> cases isWord

/-- A head and some nodes between parentheses, where writing a node is left open. -/
def parenthesizedWith
    {m : Type → Type}
    [Monad m]
    (write : Node → m String)
    (head : String)
    (parts : List Node) :
    m String :=
  return parenthesized head (← parts.mapM write)

/-- The line of a node, where writing the nodes below it is left open. -/
def writeWith
    {m : Type → Type}
    [Monad m]
    (write : Node → m String) :
    Node → m String
  | .expr (.literal value) => return value.literalText
  | .expr (.grouping inner) => parenthesizedWith write "group" [.expr inner]
  | .expr (.unary operator operand) =>
      parenthesizedWith write operator.lexeme [.expr operand]
  | .expr (.binary left operator right) =>
      parenthesizedWith write operator.lexeme [.expr left, .expr right]
  | .expr (.logical left operator right) =>
      parenthesizedWith write operator.lexeme [.expr left, .expr right]
  | .expr (.reference name) => return name.lexeme
  | .expr (.assign name value) =>
      return "(= " ++ name.lexeme ++ " " ++ (← write (.expr value)) ++ ")"
  | .stmt (.expression inner) => parenthesizedWith write ";" [.expr inner]
  | .stmt (.print inner) => parenthesizedWith write "print" [.expr inner]
  | .stmt (.var name none) => return "(var " ++ name.lexeme ++ ")"
  | .stmt (.var name (some initial)) =>
      return "(var " ++ name.lexeme ++ " " ++ (← write (.expr initial)) ++ ")"
  | .stmt (.block statements) =>
      parenthesizedWith write "block" (statements.map .stmt)
  | .stmt (.loopBody body increment) =>
      parenthesizedWith write "block" [.stmt body, .stmt (.expression increment)]
  | .stmt (.ifThen condition thenPart) =>
      parenthesizedWith write "if" [.expr condition, .stmt thenPart]
  | .stmt (.ifElse condition thenPart elsePart) =>
      parenthesizedWith write "if-else"
        [.expr condition, .stmt thenPart, .stmt elsePart]
  | .stmt (.whileLoop condition body) =>
      parenthesizedWith write "while" [.expr condition, .stmt body]
  | .stmt (.breakLoop _) => return "(break)"
  | .stmt (.continueLoop _) => return "(continue)"

/-- A line is written by asking for the lines of other nodes. -/
theorem text_eq_writeWith
    (node : Node) :
    node.text =
      (node.writeWith fun below => (pure below.text : Id String)).run := by
  cases node with
  | expr inner => cases inner <;> rfl
  | stmt inner =>
      cases inner with
      | var name initial => cases initial <;> rfl
      | block statements =>
          simp [writeWith, parenthesizedWith, text, Stmt.text, Stmt.texts_eq_map,
            Function.comp_def]
      | _ => rfl

/-- The words of a node around the lines of its parts. -/
def frame
    (node : Node)
    (parts : List String) :
    String :=
  if node.isWord then
    node.head
  else
    match node.bound? with
    | none => parenthesized node.head parts
    | some name => "(" ++ " ".intercalate (node.head :: name :: parts) ++ ")"

/--
However nodes are written, the children are asked for and the words put around them.
-/
theorem writeWith_eq
    {m : Type → Type}
    [Monad m]
    [LawfulMonad m]
    (write : Node → m String)
    (node : Node) :
    node.writeWith write = node.frame <$> node.children.mapM write := by
  have binding (word name part : String) :
      "(" ++ word ++ " " ++ name ++ " " ++ part ++ ")" =
        "(" ++ " ".intercalate [word, name, part] ++ ")" :=
    String.toList_injective (by simp)
  cases node with
  | expr inner =>
      cases inner with
      | assign name value =>
          have line (part : String) :
              "(= " ++ name.lexeme ++ " " ++ part ++ ")" =
                (expr (.assign name value)).frame [part] :=
            binding "=" name.lexeme part
          simp [writeWith, line, children, Expr.children]
      | _ =>
          simp [writeWith, parenthesizedWith, frame, isWord, nodeClass,
            Expr.nodeClass, head, bound?, children, Expr.children]
  | stmt inner =>
      cases inner with
      | var name initial =>
          cases initial with
          | none =>
              have line :
                  "(var " ++ name.lexeme ++ ")" =
                    (stmt (.var name none)).frame [] :=
                String.toList_injective (by
                  simp [frame, isWord, nodeClass, Stmt.nodeClass, head, bound?])
              simp [writeWith, line, children, Stmt.children]
          | some initial =>
              have line (part : String) :
                  "(var " ++ name.lexeme ++ " " ++ part ++ ")" =
                    (stmt (.var name (some initial))).frame [part] :=
                binding "var" name.lexeme part
              simp [writeWith, line, children, Stmt.children]
      | block statements => exact bind_pure_comp ..
      | breakLoop keyword =>
          have line : "(break)" = (stmt (.breakLoop keyword)).frame [] := rfl
          simp [writeWith, line, children, Stmt.children]
      | continueLoop keyword =>
          have line : "(continue)" = (stmt (.continueLoop keyword)).frame [] := rfl
          simp [writeWith, line, children, Stmt.children]
      | _ =>
          simp [writeWith, parenthesizedWith, frame, isWord, nodeClass,
            Stmt.nodeClass, head, bound?, children, Stmt.children]

/-- So a line consists of the words of the node and of the lines of its children. -/
theorem text_eq_frame
    (node : Node) :
    node.text = node.frame (node.children.map text) := by
  rw [text_eq_writeWith, writeWith_eq, List.mapM_pure]
  rfl

/-- A node that is a word is written as it. -/
theorem text_of_isWord
    {node : Node}
    (isWord : node.isWord = true) :
    node.text = node.head := by
  rw [text_eq_frame, frame, if_pos isWord]

/-- The line of a node, and a note of the node behind earlier notes. -/
def noted
    (node : Node) :
    StateM (List Node) String := do
  modify (· ++ [node])
  return node.text

theorem run_mapM_noted
    (nodes before : List Node) :
    (nodes.mapM noted).run before = pure (nodes.map text, before ++ nodes) := by
  induction nodes generalizing before with
  | nil => simp
  | cons first rest inductionHypothesis => simp [noted, inductionHypothesis]

/-- What is asked for while a line is written are the children of the node. -/
theorem run_writeWith_noted
    (node : Node)
    (before : List Node) :
    (node.writeWith noted).run before =
      pure (node.text, before ++ node.children) := by
  rw [writeWith_eq, StateT.run_map, run_mapM_noted, map_pure, ← text_eq_frame]

/-- A part with the blank in front of it. -/
def partText
    (text : String) :
    List Char :=
  ' ' :: text.toList

/--
What stands in front of a part: a blank, unless there is nothing to be set apart.
-/
def gap
    (node : Node) :
    String :=
  if node.bound? = none ∧
    " ".intercalate (node.children.map text) = "" then "" else " "

end Node

/--
Texts behind blanks are the texts with blanks between them, behind one more blank.
-/
theorem flatMap_partText
    (first : String)
    (rest : List String) :
    (first :: rest).flatMap Node.partText =
      ' ' :: (" ".intercalate (first :: rest)).toList := by
  induction rest generalizing first with
  | nil => simp [Node.partText]
  | cons second rest inductionHypothesis =>
      rw [List.flatMap_cons, inductionHypothesis second,
        String.intercalate_cons_cons]
      simp [Node.partText]

theorem toList_intercalate_cons
    (head : String)
    (parts : List String) :
    (" ".intercalate (head :: parts)).toList =
      head.toList ++ parts.flatMap Node.partText := by
  cases parts with
  | nil => simp
  | cons first rest =>
      rw [flatMap_partText, String.intercalate_cons_cons]
      simp

/-- Texts that are nothing with blanks between them are nothing by themselves. -/
theorem flatMap_toList_of_intercalate
    {parts : List String}
    (nothing : " ".intercalate parts = "") :
    parts.flatMap String.toList = [] := by
  cases parts with
  | nil => rfl
  | cons first rest =>
      have characters := toList_intercalate_cons first rest
      rw [nothing, String.toList_empty, eq_comm,
        List.append_eq_nil_iff] at characters
      cases rest with
      | nil => simp [characters.1]
      | cons second rest => cases characters.2

theorem parenthesized_of_ne
    (head : String)
    {parts : List String}
    (something : " ".intercalate parts ≠ "") :
    parenthesized head parts = "(" ++ " ".intercalate (head :: parts) ++ ")" := by
  cases parts with
  | nil => exact (something rfl).elim
  | cons first rest =>
      rw [parenthesized, String.intercalate_cons_cons]
      simp [something, String.append_assoc]

namespace Node

/--
Every node but a word is written as its words and its children between parentheses.
-/
theorem toList_text_of_not_word
    {node : Node}
    (noWord : node.isWord = false) :
    node.text.toList =
      '(' :: (node.head.toList ++ (node.bound?.toList.flatMap partText ++
        (node.children.flatMap
          (fun child => node.gap.toList ++ child.text.toList) ++
          [')']))) := by
  rw [text_eq_frame, frame, if_neg (by simp [noWord]), gap]
  cases node.bound? with
  | some name =>
      have line :=
        toList_intercalate_cons node.head (name :: node.children.map text)
      rw [String.toList_append, String.toList_append, line,
        List.flatMap_cons, List.flatMap_map]
      simp [partText]
  | none =>
      by_cases nothing : " ".intercalate (node.children.map text) = ""
      · have empty := flatMap_toList_of_intercalate nothing
        rw [List.flatMap_map] at empty
        simp [nothing, parenthesized, empty]
      · have line := toList_intercalate_cons node.head (node.children.map text)
        rw [parenthesized_of_ne _ nothing, String.toList_append,
          String.toList_append, line, List.flatMap_map]
        simp [nothing, partText]

end Node

end Lox
