import Lox.Value
import Lox.Text.Position

namespace Lox

/-!
# Tokens

A token is a lexeme with its kind, the value it denotes and its place in the
text.  The end of a text is no token: a stream holds it beside its tokens.
-/

/-- The kinds of tokens. -/
inductive Kind where
  | leftParen
  | rightParen
  | leftBrace
  | rightBrace
  | comma
  | dot
  | minus
  | plus
  | semicolon
  | slash
  | star
  | bang
  | bangEqual
  | equal
  | equalEqual
  | greater
  | greaterEqual
  | less
  | lessEqual
  | identifier
  | string
  | number
  | andKeyword
  | breakKeyword
  | classKeyword
  | continueKeyword
  | elseKeyword
  | falseKeyword
  | funKeyword
  | forKeyword
  | ifKeyword
  | nilKeyword
  | orKeyword
  | printKeyword
  | returnKeyword
  | superKeyword
  | thisKeyword
  | trueKeyword
  | varKeyword
  | whileKeyword
  deriving Repr, DecidableEq

namespace Kind

/-- The name of a kind in token listings. -/
def name :
    Kind → String
  | .leftParen => "LEFT_PAREN"
  | .rightParen => "RIGHT_PAREN"
  | .leftBrace => "LEFT_BRACE"
  | .rightBrace => "RIGHT_BRACE"
  | .comma => "COMMA"
  | .dot => "DOT"
  | .minus => "MINUS"
  | .plus => "PLUS"
  | .semicolon => "SEMICOLON"
  | .slash => "SLASH"
  | .star => "STAR"
  | .bang => "BANG"
  | .bangEqual => "BANG_EQUAL"
  | .equal => "EQUAL"
  | .equalEqual => "EQUAL_EQUAL"
  | .greater => "GREATER"
  | .greaterEqual => "GREATER_EQUAL"
  | .less => "LESS"
  | .lessEqual => "LESS_EQUAL"
  | .identifier => "IDENTIFIER"
  | .string => "STRING"
  | .number => "NUMBER"
  | .andKeyword => "AND"
  | .breakKeyword => "BREAK"
  | .classKeyword => "CLASS"
  | .continueKeyword => "CONTINUE"
  | .elseKeyword => "ELSE"
  | .falseKeyword => "FALSE"
  | .funKeyword => "FUN"
  | .forKeyword => "FOR"
  | .ifKeyword => "IF"
  | .nilKeyword => "NIL"
  | .orKeyword => "OR"
  | .printKeyword => "PRINT"
  | .returnKeyword => "RETURN"
  | .superKeyword => "SUPER"
  | .thisKeyword => "THIS"
  | .trueKeyword => "TRUE"
  | .varKeyword => "VAR"
  | .whileKeyword => "WHILE"

/-- The words that are no identifiers. -/
def keywords :
    List (String × Kind) :=
  [("and", .andKeyword), ("break", .breakKeyword), ("class", .classKeyword),
    ("continue", .continueKeyword), ("else", .elseKeyword),
    ("false", .falseKeyword), ("for", .forKeyword), ("fun", .funKeyword),
    ("if", .ifKeyword), ("nil", .nilKeyword), ("or", .orKeyword),
    ("print", .printKeyword),
    ("return", .returnKeyword), ("super", .superKeyword), ("this", .thisKeyword),
    ("true", .trueKeyword), ("var", .varKeyword), ("while", .whileKeyword)]

/-- The kind of a whole word. -/
def ofWord
    (word : String) :
    Kind :=
  (keywords.lookup word).getD .identifier

/-- The kind of a character that is a token whatever follows it. -/
def ofPunctuation? :
    Char → Option Kind
  | '(' => some .leftParen
  | ')' => some .rightParen
  | '{' => some .leftBrace
  | '}' => some .rightBrace
  | ',' => some .comma
  | '.' => some .dot
  | '-' => some .minus
  | '+' => some .plus
  | ';' => some .semicolon
  | '*' => some .star
  | _ => none

/-- The kinds of a character alone and before an equals sign. -/
def ofComparison? :
    Char → Option (Kind × Kind)
  | '!' => some (.bang, .bangEqual)
  | '=' => some (.equal, .equalEqual)
  | '<' => some (.less, .lessEqual)
  | '>' => some (.greater, .greaterEqual)
  | _ => none

end Kind

/-- A lexeme with its place. -/
structure Token where
  kind : Kind
  lexeme : String
  /-- The value of a number or string, and nil for every other kind. -/
  literal : Value
  /-- The line on which the lexeme ends. -/
  line : Nat
  /-- How many characters stand before the lexeme. -/
  offset : Nat
  deriving Repr, DecidableEq

/-- The end of a text. -/
structure EndMark where
  line : Nat
  offset : Nat
  deriving Repr, DecidableEq

/-- The tokens of a text, and its end. -/
structure Stream where
  tokens : List Token
  finish : EndMark
  deriving Repr, DecidableEq

/-- A row of a token listing; the end of the text has one too. -/
structure Row where
  name : String
  lexeme : String
  literal : Value
  line : Nat
  offset : Nat
  deriving Repr, DecidableEq

namespace Row

/-- The row of a token. -/
def ofToken
    (token : Token) :
    Row where
  name :=
    token.kind.name
  lexeme :=
    token.lexeme
  literal :=
    token.literal
  line :=
    token.line
  offset :=
    token.offset

/-- The row of the end of a text. -/
def ofEnd
    (finish : EndMark) :
    Row where
  name :=
    "EOF"
  lexeme :=
    ""
  literal :=
    .nil
  line :=
    finish.line
  offset :=
    finish.offset

/-- Listings keep the point of whole numbers and write strings bare. -/
def literalText :
    Value → String
  | .nil => "None"
  | .boolean true => "True"
  | .boolean false => "False"
  | .number quantity => Decimal.render quantity
  | .string text => text

/-- The kind, the lexeme and the literal. -/
def text
    (row : Row) :
    String :=
  row.name ++ " " ++ row.lexeme ++ " " ++ literalText row.literal

/-- A row with its line number in front. -/
def numberedText
    (row : Row) :
    String :=
  String.ofList (Text.lineNumberField row.line) ++ "  " ++ row.text

end Row

namespace Stream

/-- All rows of a stream, the end last. -/
def rows
    (stream : Stream) :
    List Row :=
  stream.tokens.map Row.ofToken ++ [Row.ofEnd stream.finish]

/-- The listing of a stream, one row a line. -/
def listing
    (stream : Stream) :
    String :=
  "\n".intercalate (stream.rows.map Row.numberedText)

@[simp] theorem length_rows
    (stream : Stream) :
    stream.rows.length = stream.tokens.length + 1 := by
  simp [rows]

end Stream

end Lox
