import Lox.Proofs.Grammar.Changed
import Lox.Proofs.Grammar.ExpressionReading
import Lox.Proofs.Token.Literal
import Lox.Evaluation.Expression

namespace Lox

/-!
# Arithmetic

A formula is a calculation with numbers.  It is written with the usual
precedences: products bind tighter than sums, a sign in front tighter than both,
and chains of either are grouped from the left.  An expression built from
arithmetic only evaluates to the value of the formula that its tokens are
written as, unless that divides by zero.
-/

/--
A calculation; a division keeps its token, which is blamed if the divisor is zero.
-/
inductive Formula where
  | number (quantity : Float)
  | negative (inner : Formula)
  | sum (left right : Formula)
  | difference (left right : Formula)
  | product (left right : Formula)
  | quotient (left : Formula) (slash : Token) (right : Formula)
  deriving Repr, DecidableEq

namespace Formula

/--
The value of a formula, with the quotient that
numbers have also where the divisor is zero.
-/
def value :
    Formula → Float
  | .number quantity => quantity
  | .negative inner => -inner.value
  | .sum left right => left.value + right.value
  | .difference left right => left.value - right.value
  | .product left right => left.value * right.value
  | .quotient left _ right => left.value / right.value

/--
The divisions of a formula with their divisors,
from the left and the innermost first.
-/
def divisions :
    Formula → List (Token × Float)
  | .number _ => []
  | .negative inner => inner.divisions
  | .sum left right => left.divisions ++ right.divisions
  | .difference left right => left.divisions ++ right.divisions
  | .product left right => left.divisions ++ right.divisions
  | .quotient left slash right =>
      left.divisions ++ right.divisions ++ [(slash, right.value)]

/-- The first division by a zero of either sign. -/
def zeroDivision?
    (formula : Formula) :
    Option Token :=
  (formula.divisions.find? fun division => division.2 == 0.0).map Prod.fst

section ZeroDivision

variable (left right : Formula)

@[simp] theorem zeroDivision?_number
    (quantity : Float) :
    (number quantity).zeroDivision? = none :=
  rfl

@[simp] theorem zeroDivision?_negative
    (inner : Formula) :
    inner.negative.zeroDivision? = inner.zeroDivision? :=
  rfl

@[simp] theorem zeroDivision?_sum :
    (left.sum right).zeroDivision? = left.zeroDivision?.or right.zeroDivision? := by
  simp [zeroDivision?, divisions, List.find?_append, Option.map_or]

@[simp] theorem zeroDivision?_difference :
    (left.difference right).zeroDivision? =
      left.zeroDivision?.or right.zeroDivision? := by
  simp [zeroDivision?, divisions, List.find?_append, Option.map_or]

@[simp] theorem zeroDivision?_product :
    (left.product right).zeroDivision? =
      left.zeroDivision?.or right.zeroDivision? := by
  simp [zeroDivision?, divisions, List.find?_append, Option.map_or]

/--
A quotient divides by zero where its operands do, or else at its own operator.
-/
@[simp] theorem zeroDivision?_quotient
    (slash : Token) :
    (left.quotient slash right).zeroDivision? =
      (left.zeroDivision?.or right.zeroDivision?).or
        (if right.value == 0.0 then some slash else none) := by
  simp only [zeroDivision?, divisions, List.find?_append, Option.map_or]
  split <;> simp [*]

end ZeroDivision

/-- A formula with the tokens of its divisions changed. -/
def map
    (change : Token → Token) :
    Formula → Formula
  | .number quantity => .number quantity
  | .negative inner => .negative (inner.map change)
  | .sum left right => .sum (left.map change) (right.map change)
  | .difference left right => .difference (left.map change) (right.map change)
  | .product left right => .product (left.map change) (right.map change)
  | .quotient left slash right =>
      .quotient (left.map change) (change slash) (right.map change)

/-- Changing the tokens of a formula keeps its value. -/
@[simp] theorem value_map
    (change : Token → Token)
    (formula : Formula) :
    (formula.map change).value = formula.value := by
  induction formula <;> simp_all [map, value]

/-- Changing the tokens of a formula changes its divisions in the same way. -/
theorem divisions_map
    (change : Token → Token)
    (formula : Formula) :
    (formula.map change).divisions =
      formula.divisions.map fun division => (change division.1, division.2) := by
  induction formula <;> simp_all [map, divisions]

/-- The first division by zero stays the first, with its token changed. -/
theorem zeroDivision?_map
    (change : Token → Token)
    (formula : Formula) :
    (formula.map change).zeroDivision? = formula.zeroDivision?.map change := by
  simp only [zeroDivision?, divisions_map, List.find?_map, Option.map_map,
    Function.comp_def]

end Formula

/-- How tightly the parts of a formula bind, the loosest first. -/
inductive Strength where
  | sum
  | product
  | signed
  | atom
  deriving Repr, DecidableEq

/-- Tokens are written as a formula. -/
inductive Formula.Written : Strength → List Token → Formula → Prop where
  | product
      {tokens : List Token}
      {formula : Formula} :
      Written .product tokens formula →
      Written .sum tokens formula
  | signed
      {tokens : List Token}
      {formula : Formula} :
      Written .signed tokens formula →
      Written .product tokens formula
  | atom
      {tokens : List Token}
      {formula : Formula} :
      Written .atom tokens formula →
      Written .signed tokens formula
  | sum
      {before after : List Token}
      {plus : Token}
      {left right : Formula} :
      Written .sum before left →
      plus.kind = .plus →
      Written .product after right →
      Written .sum (before ++ plus :: after) (.sum left right)
  | difference
      {before after : List Token}
      {minus : Token}
      {left right : Formula} :
      Written .sum before left →
      minus.kind = .minus →
      Written .product after right →
      Written .sum (before ++ minus :: after) (.difference left right)
  | multiplied
      {before after : List Token}
      {star : Token}
      {left right : Formula} :
      Written .product before left →
      star.kind = .star →
      Written .signed after right →
      Written .product (before ++ star :: after) (.product left right)
  | divided
      {before after : List Token}
      {slash : Token}
      {left right : Formula} :
      Written .product before left →
      slash.kind = .slash →
      Written .signed after right →
      Written .product (before ++ slash :: after) (.quotient left slash right)
  | negative
      {minus : Token}
      {tokens : List Token}
      {inner : Formula} :
      minus.kind = .minus →
      Written .signed tokens inner →
      Written .signed (minus :: tokens) (.negative inner)
  | number
      {token : Token}
      {quantity : Float} :
      token.kind = .number →
      token.literal = .number quantity →
      Written .atom [token] (.number quantity)
  | group
      {opening closing : Token}
      {tokens : List Token}
      {inner : Formula} :
      opening.kind = .leftParen →
      Written .sum tokens inner →
      closing.kind = .rightParen →
      Written .atom (opening :: (tokens ++ [closing])) inner

/-- Changed tokens are written as the changed formula. -/
theorem Formula.Written.map
    {change : Token → Token}
    (keeps : Grammar.KeepsReading change)
    {strength : Strength}
    {tokens : List Token}
    {formula : Formula}
    (written : Formula.Written strength tokens formula) :
    Formula.Written strength (tokens.map change) (formula.map change) := by
  induction written with
  | product _ inductionHypothesis => exact .product inductionHypothesis
  | signed _ inductionHypothesis => exact .signed inductionHypothesis
  | atom _ inductionHypothesis => exact .atom inductionHypothesis
  | sum _ plus _ left right =>
      simpa [Formula.map] using left.sum (keeps.kind_eq plus) right
  | difference _ minus _ left right =>
      simpa [Formula.map] using left.difference (keeps.kind_eq minus) right
  | multiplied _ star _ left right =>
      simpa [Formula.map] using left.multiplied (keeps.kind_eq star) right
  | divided _ slash _ left right =>
      simpa [Formula.map] using left.divided (keeps.kind_eq slash) right
  | negative minus _ inductionHypothesis =>
      exact .negative (keeps.kind_eq minus) inductionHypothesis
  | number kind literal =>
      exact .number (keeps.kind_eq kind) ((keeps.literal _).trans literal)
  | group opened _ closed inductionHypothesis =>
      simpa [Formula.map] using
        Formula.Written.group (keeps.kind_eq opened) inductionHypothesis
          (keeps.kind_eq closed)

/--
Expressions built from numbers, parentheses, minus signs and the four operations.
-/
inductive Expr.IsArithmetic : Expr → Prop where
  | number
      {quantity : Float} :
      IsArithmetic (.literal (.number quantity))
  | grouping
      {inner : Expr} :
      IsArithmetic inner →
      IsArithmetic (.grouping inner)
  | negative
      {minus : Token}
      {operand : Expr} :
      minus.kind = .minus →
      IsArithmetic operand →
      IsArithmetic (.unary minus operand)
  | binary
      {left right : Expr}
      {operator : Token} :
      IsArithmetic left →
      operator.kind ∈ [.plus, .minus, .star, .slash] →
      IsArithmetic right →
      IsArithmetic (.binary left operator right)

/-- The formula that an operation makes of two. -/
def Formula.joined?
    (operator : Token)
    (left right : Formula) :
    Option Formula :=
  match operator.kind with
  | .plus => some (.sum left right)
  | .minus => some (.difference left right)
  | .star => some (.product left right)
  | .slash => some (.quotient left operator right)
  | _ => none

/-- Only the four operations join formulas. -/
theorem Formula.cases_of_joined?
    {operator : Token}
    {left right formula : Formula}
    (joined : Formula.joined? operator left right = some formula) :
    operator.kind = .plus ∧ formula = .sum left right ∨
      operator.kind = .minus ∧ formula = .difference left right ∨
      operator.kind = .star ∧ formula = .product left right ∨
      operator.kind = .slash ∧ formula = .quotient left operator right := by
  unfold Formula.joined? at joined
  split at joined <;> simp_all

namespace Expr

/-- The formula of an expression; parentheses leave no trace in it. -/
def formula? :
    Expr → Option Formula
  | .literal (.number quantity) => some (.number quantity)
  | .grouping inner => inner.formula?
  | .unary operator operand =>
      if operator.kind = .minus then operand.formula?.map .negative else none
  | .binary left operator right =>
      left.formula?.bind fun leftFormula =>
        right.formula?.bind fun rightFormula =>
          Formula.joined? operator leftFormula rightFormula
  | _ => none

/-- Arithmetic expressions are those that have a formula. -/
theorem IsArithmetic.exists_formula
    {expr : Expr}
    (arithmetic : expr.IsArithmetic) :
    ∃ formula, expr.formula? = some formula := by
  induction arithmetic with
  | number => exact ⟨_, rfl⟩
  | grouping _ inductionHypothesis => exact inductionHypothesis
  | negative minus _ inductionHypothesis =>
      obtain ⟨formula, isFormula⟩ := inductionHypothesis
      exact ⟨.negative formula, by simp [formula?, minus, isFormula]⟩
  | @binary left right operator _ fits _ leftFormula rightFormula =>
      obtain ⟨first, isFirst⟩ := leftFormula
      obtain ⟨second, isSecond⟩ := rightFormula
      simp only [formula?, isFirst, isSecond, Option.bind_some]
      simp only [List.mem_cons, List.not_mem_nil, or_false] at fits
      rcases fits with kind | kind | kind | kind
      · exact ⟨.sum first second, by simp [Formula.joined?, kind]⟩
      · exact ⟨.difference first second, by simp [Formula.joined?, kind]⟩
      · exact ⟨.product first second, by simp [Formula.joined?, kind]⟩
      · exact ⟨.quotient first operator second, by simp [Formula.joined?, kind]⟩

end Expr

namespace Grammar

/-- The phrase that formulas of a strength derive from. -/
def phraseOf :
    Strength → Phrase
  | .sum => .term
  | .product => .factor
  | .signed => .unary
  | .atom => .primary

/-- The strength of the formulas that derive from a phrase. -/
def strengthOf :
    Phrase → Strength
  | .factor => .product
  | .unary => .signed
  | .primary => .atom
  | _ => .sum

/--
Tokens that are written as a formula derive as an expression with that formula.
-/
theorem derives_of_written
    {strength : Strength}
    {tokens : List Token}
    {formula : Formula}
    (written : Formula.Written strength tokens formula) :
    ∃ expr, Derives (phraseOf strength) tokens expr ∧
      expr.formula? = some formula := by
  induction written with
  | product _ inductionHypothesis =>
      obtain ⟨expr, derives, isFormula⟩ := inductionHypothesis
      exact ⟨expr, .single (by decide) derives, isFormula⟩
  | signed _ inductionHypothesis =>
      obtain ⟨expr, derives, isFormula⟩ := inductionHypothesis
      exact ⟨expr, .single (by decide) derives, isFormula⟩
  | atom _ inductionHypothesis =>
      obtain ⟨expr, derives, isFormula⟩ := inductionHypothesis
      exact ⟨expr, .single (by decide) derives, isFormula⟩
  | sum _ plus _ left right =>
      obtain ⟨first, firstDerives, isFirst⟩ := left
      obtain ⟨second, secondDerives, isSecond⟩ := right
      exact ⟨_,
        .chain firstDerives (by simp [phraseOf, Phrase.operators, plus])
          secondDerives,
          by simp [phraseOf, Phrase.node, Expr.formula?, isFirst, isSecond,
            Formula.joined?, plus]⟩
  | difference _ minus _ left right =>
      obtain ⟨first, firstDerives, isFirst⟩ := left
      obtain ⟨second, secondDerives, isSecond⟩ := right
      exact ⟨_,
        .chain firstDerives (by simp [phraseOf, Phrase.operators, minus])
          secondDerives,
          by simp [phraseOf, Phrase.node, Expr.formula?, isFirst, isSecond,
            Formula.joined?, minus]⟩
  | multiplied _ star _ left right =>
      obtain ⟨first, firstDerives, isFirst⟩ := left
      obtain ⟨second, secondDerives, isSecond⟩ := right
      exact ⟨_,
        .chain firstDerives (by simp [phraseOf, Phrase.operators, star])
          secondDerives,
          by simp [phraseOf, Phrase.node, Expr.formula?, isFirst, isSecond,
            Formula.joined?, star]⟩
  | divided _ slash _ left right =>
      obtain ⟨first, firstDerives, isFirst⟩ := left
      obtain ⟨second, secondDerives, isSecond⟩ := right
      exact ⟨_,
        .chain firstDerives (by simp [phraseOf, Phrase.operators, slash])
          secondDerives,
          by simp [phraseOf, Phrase.node, Expr.formula?, isFirst, isSecond,
            Formula.joined?, slash]⟩
  | negative minus _ inductionHypothesis =>
      obtain ⟨operand, derives, isFormula⟩ := inductionHypothesis
      exact ⟨_, .front (by simp [minus]) derives,
        by simp [Expr.formula?, minus, isFormula]⟩
  | number kind literal =>
      exact ⟨_, .literal (by simp [kind]), by simp [Expr.formula?, literal]⟩
  | group opened _ closed inductionHypothesis =>
      obtain ⟨inner, derives, isFormula⟩ := inductionHypothesis
      have whole : Derives .assignment _ inner :=
        .single (by decide)
          (.single (by decide)
            (.single (by decide)
              (.single (by decide) (.single (by decide) derives))))
      exact ⟨_, .group opened whole closed, isFormula⟩

/-- A sum is an expression like any other. -/
theorem exists_derives_of_written
    {tokens : List Token}
    {formula : Formula}
    (written : Formula.Written .sum tokens formula) :
    ∃ expr, Derives .assignment tokens expr ∧ expr.formula? = some formula := by
  obtain ⟨expr, derives, isFormula⟩ := derives_of_written written
  exact ⟨expr,
    .single (by decide)
      (.single (by decide)
        (.single (by decide) (.single (by decide) (.single (by decide) derives)))),
      isFormula⟩

/-- What is written in a tighter phrase is written in the phrase around it. -/
theorem written_single
    {phrase : Phrase}
    {tokens : List Token}
    {formula : Formula}
    (written : Formula.Written (strengthOf phrase.operand) tokens formula) :
    Formula.Written (strengthOf phrase) tokens formula := by
  cases phrase with
  | term => exact .product written
  | factor => exact .signed written
  | unary => exact .atom written
  | _ => exact written

/--
Chains are written as sums and products, where the operator joins formulas at all.
-/
theorem written_chain
    {phrase : Phrase}
    {before after : List Token}
    {operator : Token}
    {left right formula : Formula}
    (first : Formula.Written (strengthOf phrase) before left)
    (fits : operator.kind ∈ phrase.operators)
    (second : Formula.Written (strengthOf phrase.operand) after right)
    (joined : Formula.joined? operator left right = some formula) :
    Formula.Written (strengthOf phrase) (before ++ operator :: after) formula := by
  rcases Formula.cases_of_joined? joined with
    ⟨kind, rfl⟩ | ⟨kind, rfl⟩ | ⟨kind, rfl⟩ | ⟨kind, rfl⟩
  · cases phrase with
    | term => exact first.sum kind second
    | _ => simp [Phrase.operators, kind] at fits
  · cases phrase with
    | term => exact first.difference kind second
    | _ => simp [Phrase.operators, kind] at fits
  · cases phrase with
    | factor => exact first.multiplied kind second
    | _ => simp [Phrase.operators, kind] at fits
  · cases phrase with
    | factor => exact first.divided kind second
    | _ => simp [Phrase.operators, kind] at fits

/-- Only numbers are literals with a formula. -/
theorem exists_number_of_formula?
    {value : Value}
    {formula : Formula}
    (isFormula : (Expr.literal value).formula? = some formula) :
    ∃ quantity, value = .number quantity ∧ .number quantity = formula := by
  cases value with
  | number quantity => exact ⟨quantity, rfl, Option.some.inj isFormula⟩
  | _ => cases isFormula

/-- A token with a number for its literal is a number. -/
theorem kind_of_number
    {token : Token}
    {quantity : Float}
    (denotes : token.Denotes)
    (literal : token.literal = .number quantity) :
    token.kind = .number := by
  unfold Token.Denotes at denotes
  split at denotes
  · assumption
  · obtain ⟨text, -, isString⟩ := denotes
    rw [literal] at isString
    cases isString
  · rw [literal] at denotes
    cases denotes

/-- Tokens that derive as an arithmetic expression are written as its formula. -/
theorem written_of_derives
    {phrase : Phrase}
    {tokens : List Token}
    {expr : Expr}
    {formula : Formula}
    (derives : Derives phrase tokens expr)
    (denote : ∀ token ∈ tokens, token.Denotes)
    (isFormula : expr.formula? = some formula) :
    Formula.Written (strengthOf phrase) tokens formula := by
  induction derives generalizing formula with
  | single _ _ inductionHypothesis =>
      exact written_single (inductionHypothesis denote isFormula)
  | @chain phrase before after operator left right _ fits _ first second =>
      have beforeDenote : ∀ token ∈ before, token.Denotes := fun token member =>
        denote token (by simp [member])
      have afterDenote : ∀ token ∈ after, token.Denotes := fun token member =>
        denote token (by simp [member])
      obtain ⟨leftFormula, isLeft, rightFormula, isRight, joined⟩ :
          ∃ leftFormula, left.formula? = some leftFormula ∧
            ∃ rightFormula, right.formula? = some rightFormula ∧
              Formula.joined? operator leftFormula rightFormula = some formula := by
        cases phrase with
        | disjunction => cases isFormula
        | conjunction => cases isFormula
        | _ =>
            simpa [Phrase.node, Expr.formula?,
              Option.bind_eq_some_iff] using isFormula
      exact written_chain (first beforeDenote isLeft) fits
        (second afterDenote isRight) joined
  | assign => cases isFormula
  | @front operator tokens operand fits _ inductionHypothesis =>
      obtain ⟨kind, inner, isInner, rfl⟩ :
          operator.kind = .minus ∧ ∃ inner, operand.formula? = some inner ∧
            Formula.negative inner = formula := by
        simpa [Expr.formula?] using isFormula
      exact .negative kind
        (inductionHypothesis (List.forall_mem_cons.mp denote).2 isInner)
  | trueLiteral => cases isFormula
  | falseLiteral => cases isFormula
  | nilLiteral => cases isFormula
  | @literal token kinds =>
      obtain ⟨quantity, literal, rfl⟩ := exists_number_of_formula? isFormula
      exact .number
        (kind_of_number (denote token List.mem_cons_self) literal) literal
  | reference => cases isFormula
  | @group opening closing tokens inner opened _ closed inductionHypothesis =>
      have innerDenote : ∀ token ∈ tokens, token.Denotes := fun token member =>
        denote token (by simp [member])
      exact .group opened (inductionHypothesis innerDenote isFormula) closed

end Grammar

/-- What a formula evaluates to: the first division by zero, or else the value. -/
def Formula.outcome
    (formula : Formula) :
    Except RuntimeError Value :=
  match formula.zeroDivision? with
  | none => .ok (.number formula.value)
  | some slash => .error ⟨.divisionByZero, slash⟩

namespace Evaluation

/--
Joined formulas evaluate as their parts do, and then as the operation on their
values: where both parts have one, only this division can still be by zero.
-/
theorem outcome_of_joined?
    {operator : Token}
    {left right formula : Formula}
    (joined : Formula.joined? operator left right = some formula)
    (environment : Environment) :
    (formula.outcome, environment) =
      andThen (left.outcome, environment) fun leftValue between =>
        andThen (right.outcome, between) fun rightValue afterwards =>
          (applyBinary operator leftValue rightValue, afterwards) := by
  rcases Formula.cases_of_joined? joined with
    ⟨kind, rfl⟩ | ⟨kind, rfl⟩ | ⟨kind, rfl⟩ | ⟨kind, rfl⟩
  · rcases leftStops : left.zeroDivision? with _ | slash <;>
      rcases rightStops : right.zeroDivision? with _ | slash <;>
      simp [Formula.outcome, leftStops, rightStops, applyBinary, kind,
        sum, Formula.value]
  · rcases leftStops : left.zeroDivision? with _ | slash <;>
      rcases rightStops : right.zeroDivision? with _ | slash <;>
      simp [Formula.outcome, leftStops, rightStops, applyBinary, kind, arithmetic,
        numbers, Except.map, Formula.value]
  · rcases leftStops : left.zeroDivision? with _ | slash <;>
      rcases rightStops : right.zeroDivision? with _ | slash <;>
      simp [Formula.outcome, leftStops, rightStops, applyBinary, kind, arithmetic,
        numbers, Except.map, Formula.value]
  · rcases leftStops : left.zeroDivision? with _ | slash
    · rcases rightStops : right.zeroDivision? with _ | slash
      · simp only [Formula.outcome, Formula.zeroDivision?_quotient, leftStops,
          rightStops, andThen_ok, applyBinary, kind, quotient,
          numbers, Formula.value]
        cases right.value == 0.0 <;> rfl
      · simp [Formula.outcome, leftStops, rightStops]
    · simp [Formula.outcome, leftStops]

/--
An expression with a formula evaluates to what
the formula does, and assigns nothing.
-/
theorem eval_of_formula
    {expr : Expr}
    {formula : Formula}
    (isFormula : expr.formula? = some formula)
    (environment : Environment) :
    eval expr environment = (formula.outcome, environment) := by
  induction expr generalizing formula environment with
  | literal value =>
      obtain ⟨quantity, rfl, rfl⟩ := Grammar.exists_number_of_formula? isFormula
      rfl
  | grouping inner inductionHypothesis =>
      exact inductionHypothesis isFormula environment
  | unary operator operand inductionHypothesis =>
      obtain ⟨kind, inner, isInner, rfl⟩ :
          operator.kind = .minus ∧ ∃ inner, operand.formula? = some inner ∧
            Formula.negative inner = formula := by
        simpa [Expr.formula?] using isFormula
      rw [eval, inductionHypothesis isInner environment]
      unfold Formula.outcome
      rw [Formula.zeroDivision?_negative]
      rcases inner.zeroDivision? with _ | slash
      · simp [applyUnary, kind, negation, Formula.value]
      · rfl
  | binary left operator right first second =>
      obtain ⟨leftFormula, isLeft, rightFormula, isRight, joined⟩ :
          ∃ leftFormula, left.formula? = some leftFormula ∧
            ∃ rightFormula, right.formula? = some rightFormula ∧
              Formula.joined? operator leftFormula rightFormula = some formula := by
        simpa [Expr.formula?, Option.bind_eq_some_iff] using isFormula
      simp only [eval, first isLeft environment, outcome_of_joined? joined]
      congr 1
      funext leftValue between
      rw [second isRight between]
  | _ => cases isFormula

end Evaluation

end Lox
