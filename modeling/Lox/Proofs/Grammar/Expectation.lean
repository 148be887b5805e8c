import Lox.Proofs.Grammar.Relaxed

namespace Lox.Grammar.Relaxed

/-!
# What may come next

What may follow the tokens read so far is a list of symbols, each of which stands
for the tokens that are still to fill it, the nearest first; behind the last of
them there may be further declarations.  One token replaces the nearest symbol
that it fits, and a missing branch that it does not fit is left out.  Main
statements: tokens that are accepted are not blamed, a blamed token is one that
the symbols before it do not fit, and missing branches can be put in anywhere.
-/

/-- The tokens that close an expression. -/
inductive Closing where
  | rightParen
  | semicolon
  deriving Repr, DecidableEq

/-- The kind of a closing token. -/
def Closing.kind :
    Closing → Kind
  | .rightParen => .rightParen
  | .semicolon => .semicolon

/-- What is still to come. -/
inductive Symbol where
  | opening
  | close (closing : Closing)
  | name
  /-- An operand, what may stand behind it, and the closing token; fresh if a left
  side of an assignment starts with the operand. -/
  | operand (fresh : Bool) (closing : Closing)
  /--
  What may stand behind an operand, and the closing token; bare if the operand is
  a left side that is a name alone.
  -/
  | behind (bare : Bool) (closing : Closing)
  /-- An expression that may be missing, and the closing token. -/
  | clause (closing : Closing)
  /-- The initial value of a variable, which may be missing, and the semicolon. -/
  | value
  /-- The first clause of a for loop with its semicolon. -/
  | initial
  | statement
  /-- The other branch of an if statement, which may be missing. -/
  | otherwise
  | declaration
  /-- The declarations of a block and the brace that closes it. -/
  | block
  deriving Repr, DecidableEq

namespace Symbol

/-- Whether no token need fill a symbol. -/
def optional :
    Symbol → Bool
  | .otherwise => true
  | _ => false

/-- The only optional symbol is that of an else. -/
theorem eq_otherwise
    {symbol : Symbol}
    (isOptional : symbol.optional) :
    symbol = .otherwise := by
  cases symbol with
  | otherwise => rfl
  | _ => cases isOptional

/-- What is still to come behind the first token of an operand. -/
def operandTurn
    (fresh : Bool)
    (closing : Closing)
    (kind : Kind) :
    Option (List Symbol) :=
  if kind ∈ Parser.frontOperators then
    some [.operand false closing]
  else if kind = .leftParen then
    some [.operand true .rightParen, .behind false closing]
  else if kind ∈ leafKinds then
    some [.behind (fresh && decide (kind = .identifier)) closing]
  else
    none

/-- What is still to come behind the first token of a statement. -/
def statementTurn
    (kind : Kind) :
    Option (List Symbol) :=
  match kind with
  | .ifKeyword => some [.opening, .operand true .rightParen, .statement, .otherwise]
  | .whileKeyword => some [.opening, .operand true .rightParen, .statement]
  | .forKeyword =>
      some [.opening, .initial, .clause .semicolon, .clause .rightParen, .statement]
  | .printKeyword => some [.operand true .semicolon]
  | .breakKeyword | .continueKeyword => some [.close .semicolon]
  | .leftBrace => some [.block]
  | kind => operandTurn true .semicolon kind

/-- What is still to come behind the first token of a declaration. -/
def declarationTurn
    (kind : Kind) :
    Option (List Symbol) :=
  if kind = .varKeyword then some [.name, .value] else statementTurn kind

/-- What is still to fill a symbol behind a first token, if that fits the symbol. -/
def turn
    (kind : Kind) :
    Symbol → Option (List Symbol)
  | .opening => if kind = .leftParen then some [] else none
  | .close closing => if kind = closing.kind then some [] else none
  | .name => if kind = .identifier then some [] else none
  | .operand fresh closing => operandTurn fresh closing kind
  | .behind _ closing =>
      if kind = closing.kind then
        some []
      else if kind = .equal then
        some [.operand true closing]
      else if kind ∈ betweenOperators then
        some [.operand false closing]
      else
        none
  | .clause closing =>
      if kind = closing.kind then some [] else operandTurn true closing kind
  | .value =>
      if kind = .semicolon then
        some []
      else if kind = .equal then
        some [.operand true .semicolon]
      else
        none
  | .initial =>
      if kind = .semicolon then
        some []
      else if kind = .varKeyword then
        some [.name, .value]
      else
        operandTurn true .semicolon kind
  | .statement => statementTurn kind
  | .otherwise => if kind = .elseKeyword then some [.statement] else none
  | .declaration => declarationTurn kind
  | .block =>
      if kind = .rightBrace then
        some []
      else
        (declarationTurn kind).map (· ++ [.block])

/-- Whether a token is an equals sign behind a left side that is no name alone. -/
def misplaces
    (kind : Kind) :
    Symbol → Bool
  | .behind bare _ => kind = .equal && !bare
  | _ => false

end Symbol

/--
Whether a token is a misplaced equals sign, and what is still to come behind it.
-/
def advance
    (kind : Kind) :
    List Symbol → Option (Bool × List Symbol)
  | [] => (Symbol.declarationTurn kind).map (false, ·)
  | symbol :: expected =>
      match symbol.turn kind with
      | some inside => some (symbol.misplaces kind, inside ++ expected)
      | none => if symbol.optional then advance kind expected else none

/-- Marked tokens fill what is still to come. -/
def Accepts :
    List Symbol → List Marked → Prop
  | expected, [] => expected.all Symbol.optional
  | expected, marked :: rest =>
      ∃ next,
        advance marked.token.kind expected = some (marked.misplaced, next) ∧
          Accepts next rest

/-- What is still to come behind tokens, if all of them fit. -/
def behindTokens :
    List Symbol → List Token → Option (List Symbol)
  | expected, [] => some expected
  | expected, token :: rest =>
      match advance token.kind expected with
      | some (_, next) => behindTokens next rest
      | none => none

/--
The tokens from the first on that does not fit; the end is one that may not fit.
-/
def blamed :
    List Symbol → List Token → Option (List Token)
  | expected, [] => if expected.all Symbol.optional then none else some []
  | expected, token :: rest =>
      match advance token.kind expected with
      | some (_, next) => blamed next rest
      | none => some (token :: rest)

/-- The misplaced equals signs, each with the tokens from it on. -/
def misplaced :
    List Symbol → List Token → List (List Token)
  | _, [] => []
  | expected, token :: rest =>
      match advance token.kind expected with
      | some (true, next) => (token :: rest) :: misplaced next rest
      | some (false, next) => misplaced next rest
      | none => []

/-- The next token does not fit, nor does the end where there is none. -/
def Stuck
    (expected : List Symbol) :
    List Token → Prop
  | [] => expected.all Symbol.optional = false
  | token :: _ => advance token.kind expected = none

section Advance

variable {symbol : Symbol} {expected inside : List Symbol} {kind : Kind}

/-- A symbol that takes a turn is replaced by what it expects inside. -/
theorem advance_of_turn
    (symbol : Symbol)
    (turns : symbol.turn kind = some inside) :
    advance kind (symbol :: expected) =
      some (symbol.misplaces kind, inside ++ expected) := by
  simp [advance, turns]

/-- Another branch that does not come is passed over. -/
@[simp] theorem advance_otherwise
    (other : kind ≠ .elseKeyword) :
    advance kind (.otherwise :: expected) = advance kind expected := by
  simp [advance, Symbol.turn, Symbol.optional, other]

/-- A symbol that is required and takes no turn stops the tokens. -/
theorem advance_of_required
    (symbol : Symbol)
    (turns : symbol.turn kind = none)
    (required : symbol.optional = false) :
    advance kind (symbol :: expected) = none := by
  simp [advance, turns, required]

/-- Only the other branch of an if statement starts with its keyword. -/
theorem turn_elseKeyword
    (required : symbol.optional = false) :
    symbol.turn .elseKeyword = none := by
  cases symbol with
  | otherwise => cases required
  | close closing | operand fresh closing | behind fresh closing | clause closing =>
      cases closing <;> decide +revert
  | _ => decide

/-- An else is taken only where one is expected first. -/
theorem exists_of_advance_elseKeyword
    {turn : Bool × List Symbol}
    (turned : advance .elseKeyword expected = some turn) :
    ∃ below, expected = .otherwise :: below ∧
      turn = (false, .statement :: below) := by
  cases expected with
  | nil => cases turned
  | cons symbol below =>
      cases optional : symbol.optional with
      | true =>
          obtain rfl := Symbol.eq_otherwise optional
          cases turned
          exact ⟨below, rfl, rfl⟩
      | false =>
          rw [advance_of_required _ (turn_elseKeyword optional) optional] at turned
          cases turned

end Advance

section Blame

variable {expected next : List Symbol} {tokens before rest place : List Token}

/-- Tokens that fit are behind the search for the blamed one. -/
theorem blamed_append
    (fit : behindTokens expected before = some next) :
    blamed expected (before ++ rest) = blamed next rest := by
  induction before generalizing expected with
  | nil =>
      cases fit
      rfl
  | cons token before inductionHypothesis =>
      simp only [behindTokens] at fit
      simp only [List.cons_append, blamed]
      split at fit
      · exact inductionHypothesis fit
      · cases fit

/-- Where the tokens are stuck, they are blamed. -/
theorem blamed_of_stuck
    (stuck : Stuck expected place) :
    blamed expected place = some place := by
  cases place with
  | nil => simp_all [Stuck, blamed]
  | cons token rest =>
      simp only [blamed, show advance token.kind expected = none from stuck]

/-- The tokens before the blamed one fit, and it does not. -/
theorem exists_of_blamed
    (isBlamed : blamed expected tokens = some place) :
    ∃ before next,
      tokens = before ++ place ∧ behindTokens expected before = some next ∧
        Stuck next place := by
  induction tokens generalizing expected with
  | nil =>
      simp only [blamed] at isBlamed
      split at isBlamed
      · cases isBlamed
      · rename_i required
        cases isBlamed
        exact ⟨[], expected, rfl, rfl, by simpa [Stuck] using required⟩
  | cons token rest inductionHypothesis =>
      simp only [blamed] at isBlamed
      cases turned : advance token.kind expected with
      | none =>
          rw [turned] at isBlamed
          cases isBlamed
          exact ⟨[], expected, rfl, rfl, turned⟩
      | some turn =>
          rw [turned] at isBlamed
          obtain ⟨before, next, rfl, fit, stuck⟩ := inductionHypothesis isBlamed
          exact ⟨token :: before, next, rfl,
            by simpa [behindTokens, turned] using fit, stuck⟩

end Blame

section Accepts

variable {expected : List Symbol} {marked : List Marked}

/--
Tokens that are accepted fit all symbols, and their marks are where those say.
-/
theorem Accepts.unblamed
    (accepts : Accepts expected marked) :
    blamed expected (marked.map Marked.token) = none ∧
      misplaced expected (marked.map Marked.token) = misplacedIn marked := by
  induction marked generalizing expected with
  | nil => exact ⟨by simpa [blamed, Accepts] using accepts, rfl⟩
  | cons first rest inductionHypothesis =>
      obtain ⟨next, turned, later⟩ := accepts
      obtain ⟨none, places⟩ := inductionHypothesis later
      cases isMisplaced : first.misplaced with
      | true =>
          rw [isMisplaced] at turned
          simp [blamed, misplaced, misplacedIn, turned, isMisplaced, none, places]
      | false =>
          rw [isMisplaced] at turned
          simp [blamed, misplaced, misplacedIn, turned, isMisplaced, none, places]

/-- Tokens of which none is blamed are accepted with some marks. -/
theorem exists_accepts
    {tokens : List Token}
    (unblamed : blamed expected tokens = none) :
    ∃ marked, Accepts expected marked ∧ marked.map Marked.token = tokens := by
  induction tokens generalizing expected with
  | nil => exact ⟨[], by simpa [blamed, Accepts] using unblamed, rfl⟩
  | cons token rest inductionHypothesis =>
      simp only [blamed] at unblamed
      cases turned : advance token.kind expected with
      | none => simp [turned] at unblamed
      | some turn =>
          rw [turned] at unblamed
          obtain ⟨marked, accepts, tokensOf⟩ := inductionHypothesis unblamed
          exact ⟨⟨token, turn.1⟩ :: marked, ⟨turn.2, turned, accepts⟩,
            by simp [tokensOf]⟩

/-- A first token that fits the nearest symbol, and the rest behind it. -/
theorem Accepts.cons
    {symbol : Symbol}
    {first : Marked}
    (inside : List Symbol)
    (turns : symbol.turn first.token.kind = some inside)
    (marks : symbol.misplaces first.token.kind = first.misplaced)
    (accepts : Accepts (inside ++ expected) marked) :
    Accepts (symbol :: expected) (first :: marked) :=
  ⟨inside ++ expected, by rw [advance_of_turn _ turns, marks], accepts⟩

end Accepts

/-- The second list is the first with symbols put in that may be left empty. -/
inductive Widens : List Symbol → List Symbol → Prop where
  | nil :
      Widens [] []
  | keep
      {symbol : Symbol}
      {narrow wide : List Symbol} :
      Widens narrow wide →
      Widens (symbol :: narrow) (symbol :: wide)
  | insert
      {narrow wide : List Symbol} :
      Widens narrow wide →
      Widens narrow (.otherwise :: wide)

namespace Widens

variable {narrow wide : List Symbol}

theorem refl :
    (expected : List Symbol) →
    Widens expected expected
  | [] => .nil
  | _ :: expected => .keep (refl expected)

theorem append
    (widens : Widens narrow wide) :
    (inside : List Symbol) →
    Widens (inside ++ narrow) (inside ++ wide)
  | [] => widens
  | _ :: inside => .keep (append widens inside)

/-- A wider expectation is optional where the narrow one is. -/
theorem all_optional
    (widens : Widens narrow wide) :
    wide.all Symbol.optional = narrow.all Symbol.optional := by
  induction widens with
  | nil => rfl
  | keep inner inductionHypothesis => simp [inductionHypothesis]
  | insert inner inductionHypothesis =>
      simpa [Symbol.optional] using inductionHypothesis

/-- An other branch that was there may also have been put in. -/
theorem below_otherwise
    (widens : Widens (.otherwise :: narrow) wide) :
    ∃ below, wide = .otherwise :: below ∧ Widens narrow below := by
  generalize shape : Symbol.otherwise :: narrow = expected at widens
  induction widens with
  | nil => cases shape
  | keep inner inductionHypothesis =>
      cases shape
      exact ⟨_, rfl, inner⟩
  | insert inner inductionHypothesis =>
      obtain ⟨below, rfl, widens⟩ := inductionHypothesis shape
      exact ⟨_, rfl, .insert widens⟩

/-- A token that fits also fits more symbols, and what comes behind it is wider. -/
theorem advance
    (widens : Widens narrow wide)
    {kind : Kind}
    {turn : Bool × List Symbol}
    (turned : Relaxed.advance kind narrow = some turn) :
    ∃ next, Relaxed.advance kind wide = some (turn.1, next) ∧
      Widens turn.2 next := by
  by_cases isElse : kind = .elseKeyword
  · subst isElse
    obtain ⟨below, rfl, rfl⟩ := exists_of_advance_elseKeyword turned
    obtain ⟨wideBelow, rfl, inner⟩ := widens.below_otherwise
    exact ⟨.statement :: wideBelow, rfl, .keep inner⟩
  · induction widens with
    | nil => exact ⟨turn.2, turned, refl turn.2⟩
    | @keep symbol narrow wide inner inductionHypothesis =>
        cases turns : symbol.turn kind with
        | some inside =>
            rw [advance_of_turn _ turns] at turned
            cases turned
            exact ⟨inside ++ wide, advance_of_turn _ turns, inner.append inside⟩
        | none =>
            cases optional : symbol.optional with
            | true =>
                obtain rfl := Symbol.eq_otherwise optional
                rw [advance_otherwise isElse] at turned ⊢
                exact inductionHypothesis turned
            | false =>
                rw [advance_of_required _ turns optional] at turned
                cases turned
    | insert inner inductionHypothesis =>
        rw [advance_otherwise isElse]
        exact inductionHypothesis turned

/--
What fills fewer symbols also fills them with more put in that may be left empty.
-/
theorem accepts
    (widens : Widens narrow wide)
    {marked : List Marked}
    (fills : Accepts narrow marked) :
    Accepts wide marked := by
  induction marked generalizing narrow wide with
  | nil =>
      rw [Accepts, widens.all_optional]
      exact fills
  | cons first rest inductionHypothesis =>
      obtain ⟨next, turned, later⟩ := fills
      obtain ⟨wideNext, wideTurned, wider⟩ := widens.advance turned
      exact ⟨wideNext, wideTurned, inductionHypothesis wider later⟩

end Widens

end Lox.Grammar.Relaxed
