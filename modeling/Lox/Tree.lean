import Lox.Token

namespace Lox

/-!
# Programs as trees

Expressions and statements keep the tokens of their operators and names, which
carry the lines that runtime errors report.
-/

/-- Expressions. -/
inductive Expr where
  | literal (value : Value)
  | grouping (inner : Expr)
  | unary (operator : Token) (operand : Expr)
  | binary (left : Expr) (operator : Token) (right : Expr)
  /-- The right side is evaluated only if the left one does not decide. -/
  | logical (left : Expr) (operator : Token) (right : Expr)
  | reference (name : Token)
  | assign (name : Token) (value : Expr)
  deriving Repr, DecidableEq

/-- Statements. -/
inductive Stmt where
  | expression (inner : Expr)
  | print (inner : Expr)
  | var (name : Token) (initial : Option Expr)
  | block (statements : List Stmt)
  /-- The increment runs after the body, also when the body is continued early. -/
  | loopBody (body : Stmt) (increment : Expr)
  | ifThen (condition : Expr) (thenPart : Stmt)
  | ifElse (condition : Expr) (thenPart elsePart : Stmt)
  | whileLoop (condition : Expr) (body : Stmt)
  | breakLoop (keyword : Token)
  | continueLoop (keyword : Token)
  deriving Repr

/-- A program runs its statements in order. -/
abbrev Program :=
  List Stmt

end Lox
