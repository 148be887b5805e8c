import Lox.Proofs.Grammar.Filling

namespace Lox.Grammar.Relaxed

/-!
# Viable prefixes of programs

The tokens of each part of the relaxed grammar are accepted where its symbol is
expected.  Main statements: a list of marked tokens is a program of the relaxed
grammar exactly if it is accepted from the start, whatever is still to come can be
completed, and a blamed token is one that ends the viable prefixes of programs.
-/

section Complete

variable {expected : List Symbol} {tokens later : List Marked} {closing : Closing}

/-- A token that closes an expression is accepted behind any operand. -/
theorem Accepts.closed
    {bare : Bool}
    {last : Marked}
    (closes : last.Fits [closing.kind])
    (accepts : Accepts expected later) :
    Accepts (.behind bare closing :: expected) (last :: later) := by
  have isClosing := List.mem_singleton.mp closes.1
  refine .cons [] (by simp [Symbol.turn, isClosing]) ?_ accepts
  rw [closes.2, isClosing]
  cases closing <;> rfl

/-- Behind an operand, every operator between operands is taken. -/
theorem turn_behind_operator
    {kind : Kind}
    (bare : Bool)
    (closing : Closing)
    (isOperator : kind ∈ betweenOperators) :
    (Symbol.behind bare closing).turn kind = some [.operand false closing] ∧
      (Symbol.behind bare closing).misplaces kind = false := by
  have others : kind ≠ closing.kind ∧ kind ≠ .equal := by
    revert kind
    cases closing <;> decide
  simp [Symbol.turn, Symbol.misplaces, others, isOperator]

/-- An operator between operands is accepted behind any operand. -/
theorem Accepts.operated
    {bare : Bool}
    {operator : Marked}
    (fits : operator.Fits betweenOperators)
    (accepts : Accepts (.operand false closing :: expected) later) :
    Accepts (.behind bare closing :: expected) (operator :: later) := by
  obtain ⟨turns, marks⟩ := turn_behind_operator bare closing fits.1
  exact .cons _ turns (by rw [marks, fits.2]) accepts

/-- Tokens are accepted as an operand, whatever stands behind them. -/
def AcceptedAsOperand
    (tokens : List Marked) :
    Prop :=
  ∀ {fresh : Bool} {closing : Closing} {expected : List Symbol}
    {later : List Marked},
    Accepts (.behind (fresh && isName tokens) closing :: expected) later →
      Accepts (.operand fresh closing :: expected) (tokens ++ later)

/-- Tokens are accepted as an expression up to the token that closes it. -/
def AcceptedAsExpression
    (tokens : List Marked) :
    Prop :=
  ∀ (closing : Closing) {expected : List Symbol} {last : Marked}
    {later : List Marked},
    last.Fits [closing.kind] →
      Accepts expected later →
        Accepts (.operand true closing :: expected) (tokens ++ last :: later)

/-- What is accepted as an operand is accepted as an expression. -/
theorem AcceptedAsOperand.asExpression
    (operand : AcceptedAsOperand tokens) :
    AcceptedAsExpression tokens :=
  fun _ _ _ _ closes accepts => operand (.closed closes accepts)

/-- The operators of every phrase stand between operands. -/
theorem operators_subset
    (phrase : Phrase) :
    ∀ kind ∈ phrase.operators, kind ∈ betweenOperators := by
  cases phrase <;> decide

/--
An operation is accepted as an operand, and an assignment up to its closing token.
-/
theorem Derives.accepted
    {phrase : Phrase}
    (derives : Derives phrase tokens) :
    (phrase ≠ .assignment → AcceptedAsOperand tokens) ∧
      AcceptedAsExpression tokens := by
  suffices whole :
      (phrase ≠ .assignment → AcceptedAsOperand tokens) ∧
        (phrase = .assignment → AcceptedAsExpression tokens) by
    refine ⟨whole.1, ?_⟩
    by_cases isAssignment : phrase = .assignment
    · exact whole.2 isAssignment
    · exact AcceptedAsOperand.asExpression (whole.1 isAssignment)
  induction derives with
  | @single phrase tokens below inner inductionHypothesis =>
      have operand : AcceptedAsOperand tokens :=
        inductionHypothesis.1 (by cases phrase <;> decide)
      exact ⟨fun _ => operand, fun _ => operand.asExpression⟩
  | @chain phrase before after operator first fits second firstHypothesis
      secondHypothesis =>
      have isOperation : phrase ≠ .assignment := by
        rintro rfl
        cases fits.1
      refine ⟨fun _ fresh closing expected later accepts => ?_,
        fun isAssignment => (isOperation isAssignment).elim⟩
      have more : isName (before ++ operator :: after) = false :=
        isName_append first.ne_nil (by simp)
      rw [more] at accepts
      rw [List.append_assoc, List.cons_append]
      refine firstHypothesis.1 isOperation
        (.operated ⟨operators_subset phrase _ fits.1, fits.2⟩ ?_)
      exact secondHypothesis.1 (by cases phrase <;> decide) (by simpa using accepts)
  | @assign left value equals operation isEqual assigned leftHypothesis
      valueHypothesis =>
      refine ⟨fun others => (others rfl).elim, fun _ => ?_⟩
      intro closing expected last later closes accepts
      rw [List.append_assoc, List.cons_append]
      refine leftHypothesis.1 (by decide) (.cons [.operand true closing] ?_ ?_ ?_)
      · cases closing <;> simp [Symbol.turn, isEqual, Closing.kind]
      · simp [Symbol.misplaces, isEqual]
      · exact valueHypothesis.2 rfl closing closes accepts
  | @front operator tokens fits inner inductionHypothesis =>
      refine ⟨fun _ fresh closing expected later accepts =>
        ?_, fun isAssignment => by
        cases isAssignment⟩
      rw [isName_cons inner.ne_nil] at accepts
      refine .cons [.operand false closing] ?_ (by rw [fits.2]; rfl) ?_
      · simp [Symbol.turn, Symbol.operandTurn, fits.1]
      · exact inductionHypothesis.1 (by decide) (by simpa using accepts)
  | @leaf token fits =>
      refine ⟨fun _ fresh closing expected later accepts =>
        ?_, fun isAssignment => by
        cases isAssignment⟩
      refine .cons [.behind (fresh && isName [token]) closing] ?_
        (by rw [fits.2]; rfl) accepts
      have others : token.token.kind ∉ Parser.frontOperators ∧
          token.token.kind ≠ .leftParen := by
        have isLeaf := fits.1
        generalize token.token.kind = kind at isLeaf
        revert kind
        decide
      simp [Symbol.turn, Symbol.operandTurn, others, fits.1, isName]
  | @group opening last tokens opens inner closes inductionHypothesis =>
      refine ⟨fun _ fresh closing expected later accepts =>
        ?_, fun isAssignment => by
        cases isAssignment⟩
      rw [isName_cons (by simp)] at accepts
      have isOpening := List.mem_singleton.mp opens.1
      rw [List.cons_append, List.append_assoc, List.singleton_append]
      refine .cons [.operand true .rightParen, .behind false closing] ?_
        (by rw [opens.2]; rfl) ?_
      · rw [isOpening]
        rfl
      · exact inductionHypothesis.2 rfl .rightParen closes (by simpa using accepts)

/-- Tokens are accepted in front of any that fill the rest. -/
def AcceptedFor
    (symbol : Symbol)
    (tokens : List Marked) :
    Prop :=
  ∀ {expected : List Symbol} {later : List Marked},
    Accepts expected later → Accepts (symbol :: expected) (tokens ++ later)

/-- A token that fits a symbol is accepted in front of what fills the rest. -/
theorem Marked.Fits.accepts
    {kind : Kind}
    {token : Marked}
    (fits : token.Fits [kind])
    (symbol : Symbol)
    (inside : List Symbol)
    (turns : symbol.turn kind = some inside)
    (marks : symbol.misplaces kind = false)
    (accepts : Accepts (inside ++ expected) later) :
    Accepts (symbol :: expected) (token :: later) := by
  have isKind := List.mem_singleton.mp fits.1
  exact .cons _ (by rw [isKind, turns]) (by rw [isKind, marks, fits.2]) accepts

/-- No other token starts an operand. -/
theorem operandTurn_of_not_mem
    {fresh : Bool}
    {kind : Kind}
    (others : kind ∉ firstKinds) :
    Symbol.operandTurn fresh closing kind = none := by
  simp only [firstKinds, List.mem_cons, List.not_mem_nil,
    or_false, not_or] at others
  simp [Symbol.operandTurn, Parser.frontOperators, leafKinds, others]

/--
A symbol gives way to one that goes on in the same way behind every first token.
-/
theorem Accepts.exchange
    {symbol other : Symbol}
    {below otherBelow : List Symbol}
    (accepts : Accepts (symbol :: below) tokens)
    (turns : ∀ {kind inside}, symbol.turn kind = some inside →
      ∃ otherInside, other.turn kind = some otherInside ∧
        otherInside ++ otherBelow = inside ++ below)
    (marks : ∀ kind, other.misplaces kind = symbol.misplaces kind)
    (required : symbol.optional = false) :
    Accepts (other :: otherBelow) tokens := by
  cases tokens with
  | nil => simp [Accepts, required] at accepts
  | cons token rest =>
      obtain ⟨next, turned, later⟩ := accepts
      cases symbolTurns : symbol.turn token.token.kind with
      | none =>
          rw [advance_of_required _ symbolTurns required] at turned
          cases turned
      | some inside =>
          rw [advance_of_turn _ symbolTurns] at turned
          obtain ⟨marksToken, rfl⟩ := Prod.mk.inj (Option.some.inj turned)
          obtain ⟨otherInside, otherTurns, same⟩ := turns symbolTurns
          exact .cons _ otherTurns (by rw [marks, marksToken]) (by rwa [same])

/-- Where an operand may stand among others, it goes on as an operand. -/
def StartsOperand
    (closing : Closing)
    (symbol : Symbol) :
    Prop :=
  (∀ kind ∈ firstKinds, symbol.turn kind = Symbol.operandTurn true closing kind) ∧
    ∀ kind, symbol.misplaces kind = false

/-- An expression and its closing token are accepted where an operand may stand. -/
theorem Derives.acceptedFor
    {symbol : Symbol}
    {last : Marked}
    (derives : Derives .assignment tokens)
    (closing : Closing)
    (closes : last.Fits [closing.kind])
    (starts : StartsOperand closing symbol) :
    AcceptedFor symbol (tokens ++ [last]) := by
  intro expected later accepts
  rw [List.append_assoc, List.singleton_append]
  refine (derives.accepted.2 closing closes accepts).exchange
    (fun {kind inside} turns => ?_) starts.2 rfl
  have isFirst : kind ∈ firstKinds := by
    refine Decidable.byContradiction fun others => ?_
    cases (operandTurn_of_not_mem others).symm.trans turns
  exact ⟨inside, (starts.1 kind isFirst).trans turns, rfl⟩

/-- A condition in parentheses is accepted behind its keyword. -/
theorem Derives.acceptedCondition
    {opening last : Marked}
    (derives : Derives .assignment tokens)
    (opens : opening.Fits [.leftParen])
    (closes : last.Fits [.rightParen])
    (accepts : Accepts expected later) :
    Accepts (.opening :: .operand true .rightParen :: expected)
      (opening :: (tokens ++ last :: later)) :=
  opens.accepts _ [] rfl rfl (derives.accepted.2 .rightParen closes accepts)

/-- Behind its keyword, a variable is accepted as a name and a value. -/
theorem VarDeclaration.exists_behind
    (derives : VarDeclaration tokens) :
    ∃ keyword rest, tokens = keyword :: rest ∧ keyword.Fits [.varKeyword] ∧
      ∀ {expected later}, Accepts expected later →
        Accepts (.name :: .value :: expected) (rest ++ later) := by
  cases derives with
  | plain isVar named ends =>
      refine ⟨_, _, rfl, isVar, fun accepts => ?_⟩
      exact named.accepts _ [] rfl rfl (ends.accepts _ [] rfl rfl accepts)
  | initialized isVar named isEqual initial ends =>
      refine ⟨_, _, rfl, isVar, fun accepts => ?_⟩
      refine named.accepts _ [] rfl rfl
        (isEqual.accepts _ [.operand true .semicolon] rfl rfl ?_)
      simpa using initial.accepted.2 .semicolon ends accepts

/-- An expression statement is accepted wherever an operand starts one. -/
theorem ExpressionStatement.acceptedFor
    {symbol : Symbol}
    (derives : ExpressionStatement tokens)
    (starts : StartsOperand .semicolon symbol) :
    AcceptedFor symbol tokens := by
  cases derives with
  | mk inner ends => exact inner.acceptedFor .semicolon ends starts

/-- The first clause of a loop is accepted as one. -/
theorem ForInitial.acceptedFor
    (derives : ForInitial tokens) :
    AcceptedFor .initial tokens := by
  intro expected later accepts
  cases derives with
  | missing ends => exact ends.accepts _ [] rfl rfl accepts
  | declaration declares =>
      obtain ⟨keyword, rest, rfl, isVar, behind⟩ := declares.exists_behind
      exact isVar.accepts _ [.name, .value] rfl rfl (behind accepts)
  | expression inner => exact inner.acceptedFor ⟨by decide, fun _ => rfl⟩ accepts

/-- A clause of a loop is accepted with the token that closes it. -/
theorem ForClause.acceptedFor
    {last : Marked}
    (derives : ForClause tokens)
    (closing : Closing)
    (closes : last.Fits [closing.kind]) :
    AcceptedFor (.clause closing) (tokens ++ [last]) := by
  intro expected later accepts
  cases derives with
  | missing => exact closes.accepts _ [] (by simp [Symbol.turn]) rfl accepts
  | given inner =>
      exact inner.acceptedFor closing closes
        ⟨by cases closing <;> decide, fun _ => rfl⟩ accepts

/-- One declaration after the other may come first. -/
def Repeats
    (expected : List Symbol) :
    Prop :=
  ∀ {kind inside}, Symbol.declarationTurn kind = some inside →
    advance kind expected = some (false, inside ++ expected)

/-- The inside of a block may go on for ever. -/
theorem repeats_block :
    Repeats (.block :: expected) := by
  intro kind inside turns
  have others : kind ≠ .rightBrace := by
    rintro rfl
    cases turns
  simp [advance, Symbol.turn, Symbol.misplaces, others, turns]

/-- At the end of all that is expected there may be more declarations. -/
theorem repeats_nil :
    Repeats [] := by
  intro kind inside turns
  simp [advance, turns]

/-- A statement may come first where declarations may. -/
theorem Repeats.accepts
    (repeated : Repeats expected)
    (accepts : Accepts (.statement :: expected) tokens) :
    Accepts expected tokens := by
  cases tokens with
  | nil => simp [Accepts, Symbol.optional] at accepts
  | cons token rest =>
      obtain ⟨next, turned, later⟩ := accepts
      cases turns : Symbol.statementTurn token.token.kind with
      | none =>
          rw [advance_of_required .statement turns rfl] at turned
          cases turned
      | some inside =>
          rw [advance_of_turn .statement turns] at turned
          obtain ⟨marks, rfl⟩ := Prod.mk.inj (Option.some.inj turned)
          have others : token.token.kind ≠ .varKeyword := by
            intro isVar
            rw [isVar] at turns
            cases turns
          have declares :
              Symbol.declarationTurn token.token.kind = some inside := by
            simp [Symbol.declarationTurn, others, turns]
          exact ⟨inside ++ expected, by rw [repeated declares, ← marks]; rfl, later⟩

mutual

/--
A statement is accepted in front of all that may follow it. Where that starts with
an else, the else goes to the if of this statement.
-/
theorem Statement.acceptedFor :
    ∀ {tokens : List Marked}, Statement tokens → AcceptedFor .statement tokens
  | _, .expression inner => inner.acceptedFor ⟨by decide, fun _ => rfl⟩
  | _, .print isPrint inner ends => by
      intro accepts
      refine isPrint.accepts _ [.operand true .semicolon] rfl rfl ?_
      simpa using inner.accepted.2 .semicolon ends accepts
  | _, .jump isJump ends => by
      intro accepts
      refine .cons [.close .semicolon] ?_ (by rw [isJump.2]; rfl)
        (ends.accepts _ [] rfl rfl accepts)
      have kinds := isJump.1
      simp only [List.mem_cons, List.not_mem_nil, or_false] at kinds
      rcases kinds with isBreak | isContinue
      · rw [isBreak]
        rfl
      · rw [isContinue]
        rfl
  | _, .block opens declarations closes => by
      intro accepts
      refine opens.accepts _ [.block] rfl rfl ?_
      have closed := closes.accepts .block [] rfl rfl accepts
      simpa using declarations.accepted repeats_block closed
  | _, .ifThen isIf opens condition closes thenPart => by
      intro accepts
      refine isIf.accepts _
        [.opening, .operand true .rightParen, .statement, .otherwise] rfl rfl ?_
      have withoutElse := (Widens.insert (.refl _)).accepts accepts
      simpa using condition.acceptedCondition opens closes
        (thenPart.acceptedFor withoutElse)
  | _, .ifElse isIf opens condition closes thenPart alternative elsePart => by
      intro accepts
      refine isIf.accepts _
        [.opening, .operand true .rightParen, .statement, .otherwise] rfl rfl ?_
      have withElse := alternative.accepts .otherwise [.statement] rfl rfl
        (elsePart.acceptedFor accepts)
      simpa using condition.acceptedCondition opens closes
        (thenPart.acceptedFor withElse)
  | _, .whileLoop isWhile opens condition closes body => by
      intro accepts
      refine isWhile.accepts _ [.opening, .operand true .rightParen, .statement]
        rfl rfl ?_
      simpa using condition.acceptedCondition opens closes
        (body.acceptedFor accepts)
  | _, .forLoop isFor opens initial condition ends increment closes body => by
      intro accepts
      refine isFor.accepts _
        [.opening, .initial, .clause .semicolon, .clause .rightParen, .statement]
        rfl rfl ?_
      have round := increment.acceptedFor .rightParen closes
        (body.acceptedFor accepts)
      have clauses := initial.acceptedFor
        (condition.acceptedFor .semicolon ends round)
      refine opens.accepts _ [] rfl rfl ?_
      simpa using clauses

/--
Declarations are accepted in front of what more declarations may stand before.
-/
theorem Declarations.accepted :
    ∀ {tokens : List Marked}, Declarations tokens →
      ∀ {expected : List Symbol}, Repeats expected →
        ∀ {later : List Marked},
          Accepts expected later → Accepts expected (tokens ++ later)
  | _, .nil, _, _, _, accepts => accepts
  | _, .var declares others, expected, repeated, _, accepts => by
      obtain ⟨keyword, rest, rfl, isVar, behind⟩ := declares.exists_behind
      have turns :
          Symbol.declarationTurn keyword.token.kind = some [.name, .value] := by
        rw [List.mem_singleton.mp isVar.1]
        rfl
      refine ⟨[.name, .value] ++ expected, by rw [repeated turns, isVar.2], ?_⟩
      simpa using behind (others.accepted repeated accepts)
  | _, .statement first others, _, repeated, _, accepts => by
      rw [List.append_assoc]
      exact repeated.accepts (first.acceptedFor (others.accepted repeated accepts))

end

/--
Tokens are a program with some marks exactly if they are accepted from the start.
-/
theorem declarations_iff_accepts :
    Declarations tokens ↔ Accepts [] tokens := by
  constructor
  · intro declarations
    have atEnd : Accepts [] [] := rfl
    have accepts := declarations.accepted repeats_nil atEnd
    rwa [List.append_nil] at accepts
  · intro accepts
    obtain ⟨first, later, rfl, fills, declarations⟩ := accepts.completes
    rw [fills.eq_nil]
    exact declarations

end Complete

/-- A token of a kind. -/
def sample
    (kind : Kind) :
    Marked :=
  ⟨⟨kind, "", .nil, 1, 0⟩, false⟩

/-- The sample of a kind fits the kind. -/
theorem sample_fits
    (kind : Kind) :
    (sample kind).Fits [kind] :=
  ⟨by simp [sample], rfl⟩

/-- A symbol can be filled in front of all that may follow it. -/
theorem exists_acceptedFor
    (symbol : Symbol) :
    ∃ tokens, AcceptedFor symbol tokens := by
  cases symbol with
  | opening => exact ⟨[sample .leftParen], (sample_fits _).accepts _ [] rfl rfl⟩
  | close closing =>
      exact ⟨[sample closing.kind],
        (sample_fits _).accepts _ [] (by simp [Symbol.turn]) rfl⟩
  | name => exact ⟨[sample .identifier], (sample_fits _).accepts _ [] rfl rfl⟩
  | operand fresh closing =>
      have name : Derives .primary [sample .identifier] := .leaf ⟨by decide, rfl⟩
      exact ⟨[sample .identifier, sample closing.kind], fun accepts =>
        name.accepted.1 (by decide) (.closed (sample_fits _) accepts)⟩
  | behind bare closing =>
      exact ⟨[sample closing.kind], Accepts.closed (sample_fits _)⟩
  | clause closing =>
      exact ⟨[sample closing.kind],
        ForClause.missing.acceptedFor closing (sample_fits _)⟩
  | value => exact ⟨[sample .semicolon], (sample_fits _).accepts _ [] rfl rfl⟩
  | initial =>
      exact ⟨[sample .semicolon], (ForInitial.missing (sample_fits _)).acceptedFor⟩
  | statement =>
      have jump : Statement [sample .breakKeyword, sample .semicolon] :=
        .jump ⟨by decide, rfl⟩ (sample_fits _)
      exact ⟨_, jump.acceptedFor⟩
  | otherwise => exact ⟨[], (Widens.insert (.refl _)).accepts⟩
  | declaration =>
      refine ⟨[sample .varKeyword, sample .identifier, sample .semicolon],
        fun accepts => ?_⟩
      have behind := (sample_fits .semicolon).accepts .value [] rfl rfl
        accepts
      exact (sample_fits _).accepts _ [.name, .value] rfl rfl
        ((sample_fits _).accepts _ [] rfl rfl behind)
  | block => exact ⟨[sample .rightBrace], (sample_fits _).accepts _ [] rfl rfl⟩

/-- Whatever is still to come can be completed. -/
theorem exists_accepts_of_expected
    (expected : List Symbol) :
    ∃ tokens, Accepts expected tokens := by
  induction expected with
  | nil => exact ⟨[], rfl⟩
  | cons symbol expected inductionHypothesis =>
      obtain ⟨later, accepts⟩ := inductionHypothesis
      obtain ⟨tokens, accepted⟩ := exists_acceptedFor symbol
      exact ⟨tokens ++ later, accepted accepts⟩

section Prefix

variable {tokens place : List Token}

/-- Tokens are a program exactly if none of them is blamed. -/
theorem isProgram_iff :
    IsProgram tokens ↔ blamed [] tokens = none := by
  constructor
  · rintro ⟨marked, declarations, rfl⟩
    exact (declarations_iff_accepts.mp declarations).unblamed.1
  · intro unblamed
    obtain ⟨marked, accepts, tokensOf⟩ := exists_accepts unblamed
    exact ⟨marked, declarations_iff_accepts.mpr accepts, tokensOf⟩

/--
Tokens start some program, and no program goes on from them with the next token of
a place; where that is the end, the tokens are no program as they are.
-/
structure BreaksOff
    (before place : List Token) :
    Prop where
  viable :
    ∃ later, IsProgram (before ++ later)
  misfit :
    match place with
    | [] => ¬ IsProgram before
    | misfit :: _ => ∀ later, ¬ IsProgram (before ++ misfit :: later)

/-- A token that is blamed is where the tokens before it break off. -/
theorem breaksOff_of_blamed
    (isBlamed : blamed [] tokens = some place) :
    ∃ before, tokens = before ++ place ∧ BreaksOff before place := by
  obtain ⟨before, next, rfl, fit, stuck⟩ := exists_of_blamed isBlamed
  obtain ⟨later, accepts⟩ := exists_accepts_of_expected next
  refine ⟨before, rfl, ⟨later.map Marked.token, ?_⟩, ?_⟩
  · rw [isProgram_iff, blamed_append fit]
    exact accepts.unblamed.1
  · cases place with
    | nil =>
        intro isProgram
        rw [isProgram_iff, ← List.append_nil before, blamed_append fit,
          blamed_of_stuck stuck] at isProgram
        cases isProgram
    | cons misfit rest =>
        intro others isProgram
        have stuck : Stuck next (misfit :: others) := stuck
        rw [isProgram_iff, blamed_append fit, blamed_of_stuck stuck] at isProgram
        cases isProgram

end Prefix

end Lox.Grammar.Relaxed
