import Lox.Proofs.Grammar.Reads
import Lox.Proofs.Grammar.Viable

namespace Lox.Grammar.Relaxed

/-!
# Parsers and what they expect

A parser reads tokens with some symbols in front of all that is still to come, and
where it accepts a value other symbols are left.  Until it records an error that is
not about the target of an assignment, it goes through the tokens as the symbols
say; at that error it blames the token that does not fit.  Main statement: so does
the parser of expressions, up to the token that closes the expression.
-/

open Lox.Parser (ReadsForward StartsIn)

/-- The place of an error that is not about the target of an assignment. -/
def misfit? :
    Note → Option (List Token)
  | .failed error =>
      if error.cause = .invalidAssignmentTarget then none else some error.remaining
  | .parsed .. => none

/-- The place of an error about the target of an assignment. -/
def target? :
    Note → Option (List Token)
  | .failed error =>
      if error.cause = .invalidAssignmentTarget then some error.remaining else none
  | .parsed .. => none

/-- The place of the first error that is not about the target of an assignment. -/
def firstMisfit
    (notes : List Note) :
    Option (List Token) :=
  notes.findSome? misfit?

/-- The places of the errors about targets of assignments. -/
def targets
    (notes : List Note) :
    List (List Token) :=
  notes.filterMap target?

section Notes

variable {earlier later : List Note}

/-- The first misfit of notes is that of the earlier ones, if they have one. -/
@[simp] theorem firstMisfit_append :
    firstMisfit (earlier ++ later) =
      (firstMisfit earlier).or (firstMisfit later) := by
  simp [firstMisfit, List.findSome?_append]

/-- The misplaced signs of notes are those of the earlier and of the later ones. -/
@[simp] theorem targets_append :
    targets (earlier ++ later) = targets earlier ++ targets later := by
  simp [targets]

end Notes

/--
With some symbols in front of all that is still to come,
tokens lead to other symbols and the rest of the tokens;
equals signs are misplaced at some places between.
-/
structure Leads
    (before : List Symbol)
    (tokens : List Token)
    (places : List (List Token))
    (after : List Symbol)
    (rest : List Token) :
    Prop where
  blamed (below : List Symbol) :
    blamed (before ++ below) tokens = blamed (after ++ below) rest
  misplaced (below : List Symbol) :
    (misplaced (before ++ below) tokens).Perm
      (places ++ misplaced (after ++ below) rest)

/-- With some symbols in front of all that is still to come, a place is blamed. -/
def Breaks
    (before : List Symbol)
    (tokens place : List Token) :
    Prop :=
  ∀ below, blamed (before ++ below) tokens = some place

section Leads

variable {before between after : List Symbol}
  {tokens middle rest place : List Token} {places others : List (List Token)}
  {symbol other : Symbol} {inside : List Symbol} {token : Token}

/-- Where nothing is read, what is expected stays as it is. -/
theorem Leads.refl
    (expected : List Symbol)
    (tokens : List Token) :
    Leads expected tokens [] expected tokens :=
  ⟨fun _ => rfl, fun _ => .refl _⟩

/-- What is read in two steps leads from the first expectation to the last. -/
theorem Leads.trans
    (first : Leads before tokens places between middle)
    (second : Leads between middle others after rest) :
    Leads before tokens (places ++ others) after rest := by
  refine ⟨fun below =>
    (first.blamed below).trans (second.blamed below), fun below => ?_⟩
  rw [List.append_assoc]
  exact (first.misplaced below).trans ((second.misplaced below).append_left places)

/-- What is expected further behind is not touched. -/
theorem Leads.frame
    (leads : Leads before tokens places after rest)
    (further : List Symbol) :
    Leads (before ++ further) tokens places (after ++ further) rest :=
  ⟨fun below => by simpa using leads.blamed (further ++ below),
    fun below => by simpa using leads.misplaced (further ++ below)⟩

/-- The order in which misplaced signs are listed does not matter. -/
theorem Leads.perm
    (leads : Leads before tokens places after rest)
    (same : places.Perm others) :
    Leads before tokens others after rest :=
  ⟨leads.blamed, fun below => (leads.misplaced below).trans (same.append_right _)⟩

/-- A token that fits a symbol leads to the symbols inside. -/
theorem leads_of_turn
    (rest : List Token)
    (turns : symbol.turn token.kind = some inside) :
    Leads [symbol] (token :: rest)
      (if symbol.misplaces token.kind then [token :: rest] else [])
      inside rest := by
  have turned : ∀ below, advance token.kind ([symbol] ++ below) =
      some (symbol.misplaces token.kind, inside ++ below) :=
        fun below => advance_of_turn _ turns
  refine ⟨fun below => by simp only [Relaxed.blamed, turned], fun below => ?_⟩
  cases marks : symbol.misplaces token.kind with
  | true =>
      simp only [Relaxed.misplaced, turned, marks]
      exact .refl _
  | false =>
      simp only [Relaxed.misplaced, turned, marks]
      exact .refl _

theorem leads_of_plain_turn
    (turns : symbol.turn token.kind = some inside)
    (plain : symbol.misplaces token.kind = false) :
    Leads [symbol] (token :: rest) [] inside rest := by
  simpa [plain] using leads_of_turn rest turns

/-- A token that fits no required symbol is blamed. -/
theorem breaks_of_turn
    (turns : symbol.turn token.kind = none)
    (required : symbol.optional = false) :
    Breaks [symbol] (token :: rest) (token :: rest) := by
  intro below
  exact blamed_of_stuck (advance_of_required _ turns required)

/-- The end of the tokens breaks what requires a token. -/
theorem breaks_nil
    (required : symbol.optional = false) :
    Breaks [symbol] [] [] :=
  fun below => blamed_of_stuck (by simp [Stuck, required])

theorem Breaks.frame
    (breaks : Breaks before tokens place)
    (further : List Symbol) :
    Breaks (before ++ further) tokens place :=
  fun below => by simpa using breaks (further ++ below)

/-- What breaks behind what was read breaks what was expected before. -/
theorem Breaks.of_leads
    (leads : Leads before tokens places after rest)
    (breaks : Breaks after rest place) :
    Breaks before tokens place :=
  fun below => (leads.blamed below).trans (breaks below)

/-- A required symbol leads to another that goes on in the same way. -/
theorem leads_of_same
    (other : Symbol)
    (turns : ∀ token ∈ tokens.head?,
      symbol.turn token.kind = other.turn token.kind ∧
        symbol.misplaces token.kind = other.misplaces token.kind)
    (required : symbol.optional = false)
    (otherRequired : other.optional = false) :
    Leads [symbol] tokens [] [other] tokens := by
  cases tokens with
  | nil =>
      refine ⟨fun below => ?_, fun below => .refl _⟩
      exact (breaks_nil required below).trans (breaks_nil otherRequired below).symm
  | cons token rest =>
      obtain ⟨sameTurn, sameMark⟩ := turns token rfl
      have same : ∀ below, advance token.kind ([symbol] ++ below) =
          advance token.kind ([other] ++ below) := by
        intro below
        simp [advance, sameTurn, sameMark, required, otherRequired]
      refine ⟨fun below => by simp only [Relaxed.blamed, same], fun below => ?_⟩
      simp only [Relaxed.misplaced, same, List.nil_append]
      exact .refl _

/-- Where no else comes, nothing is expected of the other branch. -/
theorem leads_otherwise
    (ends : ¬ StartsIn [.elseKeyword] tokens) :
    Leads [.otherwise] tokens [] [] tokens := by
  cases tokens with
  | nil =>
      refine ⟨fun below => ?_, fun below => .refl _⟩
      simp [Relaxed.blamed, Symbol.optional]
  | cons token rest =>
      have other : token.kind ≠ .elseKeyword := by simpa using ends
      have same : ∀ below, advance token.kind ([.otherwise] ++ below) =
          advance token.kind ([] ++ below) := fun below => advance_otherwise other
      refine ⟨fun below => by simp only [Relaxed.blamed, same], fun below => ?_⟩
      simp only [Relaxed.misplaced, same]
      exact .refl _

end Leads

/--
An outcome goes through tokens as the symbols
say, or blames the one that does not fit.
-/
inductive Follows
    (before : List Symbol)
    (after : α → List Symbol)
    (tokens : List Token) :
    Outcome α → Prop where
  | passed
      {value : α}
      {rest : List Token}
      {notes : List Note} :
      firstMisfit notes = none →
      Leads before tokens (targets notes) (after value) rest →
      Follows before after tokens (.accepted value rest notes)
  | broken
      {outcome : Outcome α}
      {place : List Token} :
      firstMisfit outcome.recorded = some place →
      Breaks before tokens place →
      Follows before after tokens outcome

namespace Follows

variable {before between : List Symbol} {after : α → List Symbol}
  {tokens : List Token} {outcome : Outcome α}

/--
A rejection for any other cause than a target follows where the expectation breaks.
-/
theorem rejected
    {cause : GrammarCause}
    {place : List Token}
    (others : cause ≠ .invalidAssignmentTarget)
    (breaks : Breaks before tokens place) :
    Follows before after tokens (.rejected ⟨cause, place⟩ []) :=
  .broken (by simp [Outcome.recorded, firstMisfit, misfit?, others]) breaks

/-- A value read at no error. -/
theorem accepted
    {value : α}
    {rest : List Token}
    (leads : Leads before tokens [] (after value) rest) :
    Follows before after tokens (.accepted value rest []) :=
  .passed rfl leads

/-- What is expected further behind follows, too. -/
theorem frame
    (follows : Follows before after tokens outcome)
    (further : List Symbol) :
    Follows (before ++ further) (fun value => after value ++ further)
      tokens outcome := by
  cases follows with
  | passed clean leads => exact .passed clean (leads.frame further)
  | broken misfit breaks => exact .broken misfit (breaks.frame further)

/-- What leads to the tokens may stand in front. -/
theorem of_leads
    {middle : List Token}
    (leads : Leads before tokens [] between middle)
    (follows : Follows between after middle outcome) :
    Follows before after tokens outcome := by
  cases follows with
  | passed clean later => exact .passed clean (leads.trans later)
  | broken misfit breaks => exact .broken misfit (.of_leads leads breaks)

/-- Changing the value of an outcome keeps that it follows. -/
theorem map
    {change : α → β}
    {after : β → List Symbol}
    (follows : Follows before (fun value => after (change value)) tokens outcome) :
    Follows before after tokens (outcome.map change) := by
  cases follows with
  | passed clean leads => exact .passed clean leads
  | broken misfit breaks =>
      refine .broken ?_ breaks
      cases outcome <;> exact misfit

/-- Notes without a first error come in front of what is read behind them. -/
theorem behindNotes
    {notes : List Note}
    {middle : List Token}
    {after : α → List Symbol}
    (clean : firstMisfit notes = none)
    (leads : Leads before tokens (targets notes) between middle)
    (follows : Follows between after middle outcome) :
    Follows before after tokens (outcome.after notes) := by
  cases follows with
  | passed laterClean later =>
      refine .passed (by simp [clean, laterClean]) ?_
      rw [targets_append]
      exact leads.trans later
  | broken misfit breaks =>
      refine .broken ?_ (.of_leads leads breaks)
      rw [Outcome.recorded_after, firstMisfit_append, clean]
      exact misfit

/-- Behind a first error nothing else is told of the tokens. -/
theorem behindMisfit
    {notes : List Note}
    {place : List Token}
    (misfit : firstMisfit notes = some place)
    (breaks : Breaks before tokens place) :
    Follows before after tokens (outcome.after notes) := by
  refine .broken ?_ breaks
  rw [Outcome.recorded_after, firstMisfit_append, misfit]
  rfl

/-- What stands behind an accepted part is read as the symbols left there say. -/
theorem andThen
    {first : Parser α}
    {next : α → Parser β}
    {between : α → List Symbol}
    {after : β → List Symbol}
    (firstFollows : Follows before between tokens (first tokens))
    (nextFollows : ∀ {value rest notes}, first tokens = .accepted value rest notes →
      Follows (between value) after rest (next value rest)) :
    Follows before after tokens (Parser.andThen first next tokens) := by
  cases outcome : first tokens with
  | rejected error notes =>
      rw [Parser.andThen_of_rejected outcome]
      rw [outcome] at firstFollows
      cases firstFollows with
      | broken misfit breaks => exact .broken misfit breaks
  | accepted value rest notes =>
      rw [Parser.andThen_of_accepted outcome]
      rw [outcome] at firstFollows
      cases firstFollows with
      | broken misfit breaks => exact behindMisfit misfit breaks
      | passed clean leads => exact .behindNotes clean leads (nextFollows outcome)

end Follows

/-- A parser follows symbols on all lists of fewer tokens. -/
def FollowsBelow
    (length : Nat)
    (parser : Parser α)
    (before : List Symbol)
    (after : α → List Symbol) :
    Prop :=
  ∀ tokens, tokens.length < length → Follows before after tokens (parser tokens)

section FollowsBelow

variable {length : Nat} {before : List Symbol} {cause : GrammarCause}
  {closing : Closing}

/-- A parser that follows an expectation does so in front of anything further. -/
theorem FollowsBelow.frame
    {parser : Parser α}
    {after : α → List Symbol}
    (follows : FollowsBelow length parser before after)
    (further : List Symbol) :
    FollowsBelow length parser (before ++ further)
      (fun value => after value ++ further) :=
  fun tokens short => (follows tokens short).frame further

/-- Sequences of parts follow the symbols that the parts follow. -/
theorem FollowsBelow.andThen
    {first : Parser α}
    {next : α → Parser β}
    {between : α → List Symbol}
    {after : β → List Symbol}
    (firstFollows : FollowsBelow length first before between)
    (forward : ReadsForward first)
    (nextFollows :
      ∀ value, FollowsBelow length (next value) (between value) after) :
    FollowsBelow length (Parser.andThen first next) before after := by
  intro tokens short
  refine (firstFollows tokens short).andThen fun {value rest notes} accepted => ?_
  have shorter := Parser.length_le_of_accepted forward accepted
  exact nextFollows value rest (by omega)

/-- A value that is given back at once follows its own expectation. -/
theorem followsBelow_accept
    (value : α)
    (after : α → List Symbol) :
    FollowsBelow length (Parser.accept value) (after value) after :=
  fun tokens _ => .accepted (.refl _ tokens)

/-- A token of a kind is read where exactly that is expected. -/
theorem followsBelow_expect
    {symbol : Symbol}
    {kind : Kind}
    (turns : ∀ other, symbol.turn other = if other = kind then some [] else none)
    (required : symbol.optional = false)
    (plain : symbol.misplaces kind = false)
    (others : cause ≠ .invalidAssignmentTarget) :
    FollowsBelow length (Parser.expect kind cause) [symbol] (fun _ => []) := by
  intro tokens _
  cases tokens with
  | nil => exact .rejected others (breaks_nil required)
  | cons token rest =>
      simp only [Parser.expect]
      split
      · rename_i fits
        exact .accepted
          (leads_of_plain_turn (by simp [turns, fits]) (by rw [fits, plain]))
      · rename_i misfit
        exact .rejected others (breaks_of_turn (by simp [turns, misfit]) required)

/-- An expected closing token is taken, or the expectation breaks. -/
theorem followsBelow_expect_closing
    (closing : Closing)
    (others : cause ≠ .invalidAssignmentTarget) :
    FollowsBelow length (Parser.expect closing.kind cause)
      [.close closing] (fun _ => []) :=
  followsBelow_expect (fun _ => rfl) rfl rfl others

/-- An expected opening parenthesis is taken, or the expectation breaks. -/
theorem followsBelow_expect_opening
    (others : cause ≠ .invalidAssignmentTarget) :
    FollowsBelow length (Parser.expect .leftParen cause) [.opening] (fun _ => []) :=
  followsBelow_expect (fun _ => rfl) rfl rfl others

/-- A token that may be missing is read where that may come first. -/
theorem followsBelow_acceptAny
    {kinds : List Kind}
    {after : Option Token → List Symbol}
    (found : ∀ token rest, token.kind ∈ kinds →
      Leads before (token :: rest) [] (after (some token)) rest)
    (missing : ∀ tokens, ¬ StartsIn kinds tokens →
      Leads before tokens [] (after none) tokens) :
    FollowsBelow length (Parser.acceptAny kinds) before after := by
  intro tokens _
  cases tokens with
  | nil => exact .accepted (missing [] Parser.not_startsIn_nil)
  | cons token rest =>
      simp only [Parser.acceptAny]
      split
      · rename_i fits
        exact .accepted (found token rest fits)
      · rename_i misfit
        exact .accepted (missing (token :: rest) misfit)

end FollowsBelow

section Operations

variable {length : Nat}

/-- Whether an expression is a name. -/
def isReference :
    Expr → Bool
  | .reference _ => true
  | _ => false

/-- A parser follows the symbol of operands, on all lists of fewer tokens. -/
def FollowsOperand
    (length : Nat)
    (parser : Parser Expr) :
    Prop :=
  ∀ fresh closing,
    FollowsBelow length parser [.operand fresh closing]
      fun value => [.behind (fresh && isReference value) closing]

/--
A parser follows the symbol of operands up to the token that closes an expression.
-/
def FollowsExpression
    (length : Nat)
    (parser : Parser Expr) :
    Prop :=
  ∀ closing, FollowsBelow length parser [.operand true closing] fun _ =>
    [.close closing]

/-- Where a parser accepts a value, the next token has none of the kinds. -/
def StopsBefore
    (parser : Parser α)
    (kinds : List Kind) :
    Prop :=
  ∀ {tokens value rest notes}, parser tokens = .accepted value rest notes →
    ¬ StartsIn kinds rest

/-- A chain does not stop in front of its own operators. -/
theorem not_startsIn_chainFrom
    {level : Parser.Level}
    {operand : Parser Expr}
    {kinds : List Kind}
    (forward : ReadsForward operand)
    (stops : StopsBefore operand kinds)
    {count : Nat}
    {left value : Expr}
    {tokens rest : List Token}
    {notes : List Note}
    (enough : tokens.length ≤ count)
    (starts : ¬ StartsIn kinds tokens)
    (accepted : Parser.chainFrom level operand count left tokens =
      .accepted value rest notes) :
    ¬ StartsIn (level.operators ++ kinds) rest := by
  induction count generalizing left tokens notes with
  | zero =>
      obtain rfl : tokens = [] := List.length_eq_zero_iff.mp (by omega)
      cases accepted
      exact Parser.not_startsIn_nil
  | succ count inductionHypothesis =>
      cases tokens with
      | nil =>
          cases accepted
          exact Parser.not_startsIn_nil
      | cons token behind =>
          rw [Parser.chainFrom_succ_cons] at accepted
          split at accepted
          · obtain ⟨right, between, firstNotes, nextNotes, read, later, -⟩ :=
              Parser.accepted_of_andThen accepted
            have shorter := Parser.length_le_of_accepted forward read
            simp only [List.length_cons] at enough
            exact inductionHypothesis (by omega) (stops read) later
          · rename_i other
            cases accepted
            simp only [Parser.startsIn_cons] at starts ⊢
            simp [other, starts]

/-- Behind a chain stands no operator of its level. -/
theorem stopsBefore_chain
    {level : Parser.Level}
    {operand : Parser Expr}
    {kinds : List Kind}
    (forward : ReadsForward operand)
    (stops : StopsBefore operand kinds) :
    StopsBefore (Parser.chain level operand) (level.operators ++ kinds) := by
  intro tokens value rest notes accepted
  obtain ⟨left, between, firstNotes, nextNotes, read, later, -⟩ :=
    Parser.accepted_of_andThen accepted
  exact not_startsIn_chainFrom forward stops
    (Parser.length_le_of_accepted forward read) (stops read) later

/-- Behind the operands of some levels stands no operator of theirs. -/
theorem stopsBefore_levels
    {operand : Parser Expr}
    (forward : ReadsForward operand) :
    (levels : List Parser.Level) →
    ReadsForward (levels.foldr Parser.chain operand) ∧
      StopsBefore (levels.foldr Parser.chain operand)
        (levels.flatMap Parser.Level.operators)
  | [] => ⟨forward, fun {_ _ rest _} _ => by cases rest <;> simp⟩
  | level :: levels => by
      have ⟨innerForward, innerStops⟩ := stopsBefore_levels forward levels
      exact ⟨Parser.readsForward_chain level innerForward,
        stopsBefore_chain innerForward innerStops⟩

/--
The operators of a level stand between operands, and what they build is no name.
-/
structure Between
    (level : Parser.Level) :
    Prop where
  operators :
    ∀ kind ∈ level.operators, kind ∈ betweenOperators
  node (left right : Expr) (operator : Token) :
    isReference (level.node left operator right) = false

/-- The operators of every level stand between operands. -/
theorem between_of_mem_levels :
    ∀ level ∈ Parser.levels, Between level := by
  simp only [Parser.levels, List.forall_mem_cons]
  refine ⟨?_, ?_, ?_, ?_, ?_, ?_, by simp⟩
  all_goals exact ⟨by decide, fun _ _ _ => rfl⟩

/-- Behind an operand, an operator leads to another operand. -/
theorem leads_of_operator
    {token : Token}
    {rest : List Token}
    {bare : Bool}
    {closing : Closing}
    (isOperator : token.kind ∈ betweenOperators) :
    Leads [.behind bare closing] (token :: rest) [] [.operand false closing] rest :=
  have ⟨turns, plain⟩ := turn_behind_operator bare closing isOperator
  leads_of_plain_turn turns plain

/-- A chain follows the expectation behind its first operand. -/
theorem followsBelow_chainFrom
    {level : Parser.Level}
    {operand : Parser Expr}
    (between : Between level)
    (forward : ReadsForward operand)
    (follows : FollowsOperand length operand)
    (fresh : Bool)
    (closing : Closing)
    (count : Nat)
    (left : Expr) :
    FollowsBelow length (Parser.chainFrom level operand count left)
      [.behind (fresh && isReference left) closing]
      fun value => [.behind (fresh && isReference value) closing] := by
  induction count generalizing left with
  | zero => exact followsBelow_accept _ fun value => [.behind (fresh && _) closing]
  | succ count inductionHypothesis =>
      have operator : FollowsBelow length (Parser.acceptAny level.operators)
          [.behind (fresh && isReference left) closing] fun found =>
            found.elim [.behind (fresh && isReference left) closing]
              fun _ => [.operand false closing] :=
        followsBelow_acceptAny
          (fun token rest fits => leads_of_operator (between.operators _ fits))
          fun tokens _ => .refl _ tokens
      refine operator.andThen (Parser.readsForward_acceptAny _) fun found => ?_
      · cases found with
        | none =>
            exact followsBelow_accept _ fun value => [.behind (fresh && _) closing]
        | some operator =>
            refine (follows false closing).andThen forward fun right => ?_
            have behind := inductionHypothesis (level.node left operator right)
            rw [between.node, Bool.and_false] at behind
            rw [Bool.false_and]
            exact behind

/-- A chain of operands is an operand with what may stand behind it. -/
theorem followsOperand_chain
    {level : Parser.Level}
    {operand : Parser Expr}
    (between : Between level)
    (forward : ReadsForward operand)
    (follows : FollowsOperand length operand) :
    FollowsOperand length (Parser.chain level operand) := by
  intro fresh closing tokens short
  exact (follows fresh closing).andThen forward
    (followsBelow_chainFrom between forward follows fresh closing
      tokens.length) tokens short

/-- Levels of operators on an operand follow the expectation of an operand. -/
theorem followsOperand_levels
    {operand : Parser Expr}
    (forward : ReadsForward operand)
    (follows : FollowsOperand length operand) :
    (levels : List Parser.Level) →
    (∀ level ∈ levels, Between level) →
    FollowsOperand length (levels.foldr Parser.chain operand)
  | [], _ => follows
  | level :: levels, between =>
      followsOperand_chain (between level List.mem_cons_self)
        (stopsBefore_levels forward levels).1
        (followsOperand_levels forward follows levels
          fun other member => between other (List.mem_cons_of_mem level member))

/-- Operators in front lead to a further operand. -/
theorem followsOperand_unaryWith
    {primary : Parser Expr}
    (follows : ∀ fresh closing tokens, tokens.length < length →
      ¬ StartsIn Parser.frontOperators tokens →
        Follows [.operand fresh closing]
          (fun value => [.behind (fresh && isReference value) closing]) tokens
            (primary tokens)) :
    FollowsOperand length (Parser.unaryWith primary) := by
  intro fresh closing tokens
  induction tokens generalizing fresh with
  | nil => exact fun short => follows fresh closing [] short Parser.not_startsIn_nil
  | cons token rest inductionHypothesis =>
      intro short
      rw [Parser.unaryWith]
      split
      · rename_i isFront
        have turns : (Symbol.operand fresh closing).turn token.kind =
            some [.operand false closing] := by
          simp [Symbol.turn, Symbol.operandTurn, isFront]
        refine .of_leads (leads_of_plain_turn turns rfl) (.map ?_)
        have operand :=
          inductionHypothesis false
            (by simp only [List.length_cons] at short; omega)
        simpa [isReference] using operand
      · rename_i others
        exact follows fresh closing (token :: rest) short others

/-- A group is no name, whatever stands behind it. -/
theorem followsBelow_groupWith
    {expression : Parser Expr}
    (follows : FollowsExpression length expression)
    (forward : ReadsForward expression)
    (fresh : Bool)
    (closing : Closing) :
    FollowsBelow length (Parser.groupWith expression)
      [.operand true .rightParen, .behind false closing]
      fun value => [.behind (fresh && isReference value) closing] := by
  refine ((follows .rightParen).frame [.behind false closing]).andThen
    forward fun inner => ?_
  have closes : FollowsBelow length
      (Parser.expect .rightParen .expectedParenAfterExpression)
        [.close .rightParen] fun _ => [] :=
    followsBelow_expect_closing .rightParen (by decide)
  refine (closes.frame [.behind false closing]).andThen
    (Parser.readsForward_expect _ _) fun _ => ?_
  have group : FollowsBelow length (Parser.accept (Expr.grouping inner)) _ _ :=
    followsBelow_accept _ fun value =>
      [.behind (fresh && isReference value) closing]
  simpa [isReference] using group

/-- A literal, a name or a group is an operand. -/
theorem follows_primaryWith
    {expression : Parser Expr}
    (follows : FollowsExpression length expression)
    (forward : ReadsForward expression)
    (fresh : Bool)
    (closing : Closing)
    (tokens : List Token)
    (short : tokens.length < length + 1)
    (others : ¬ StartsIn Parser.frontOperators tokens) :
    Follows [.operand fresh closing]
      (fun value => [.behind (fresh && isReference value) closing]) tokens
      (Parser.primaryWith expression tokens) := by
  cases tokens with
  | nil => exact .rejected (by decide) (breaks_nil rfl)
  | cons token rest =>
      have leaf : ∀ {value : Expr}, token.kind ∈ leafKinds →
          isReference value = decide (token.kind = .identifier) →
          Follows [.operand fresh closing]
            (fun value =>
              [.behind (fresh && isReference value) closing]) (token :: rest)
            (.accepted value rest []) := by
        intro value isLeaf same
        refine .accepted (leads_of_plain_turn ?_ rfl)
        have notOpening : token.kind ≠ .leftParen := by
          intro isOpening
          rw [isOpening] at isLeaf
          exact absurd isLeaf (by decide)
        simp only [Parser.startsIn_cons] at others
        simp [Symbol.turn, Symbol.operandTurn, others, notOpening, isLeaf, same]
      simp only [Parser.primaryWith]
      split
      case h_7 isOpening =>
        have turns : (Symbol.operand fresh closing).turn token.kind =
            some [.operand true .rightParen, .behind false closing] := by
          rw [isOpening]
          rfl
        refine .of_leads (leads_of_plain_turn turns rfl) ?_
        exact followsBelow_groupWith follows forward fresh closing rest
          (by simp only [List.length_cons] at short; omega)
      case h_8 notFalse notTrue notNil notNumber notString
        notIdentifier notOpening =>
        have notLeaf : token.kind ∉ leafKinds := by
          simp only [leafKinds, List.mem_cons, List.not_mem_nil, or_false, not_or]
          exact ⟨notTrue, notFalse, notNil, notNumber, notString, notIdentifier⟩
        refine .rejected (by decide) (breaks_of_turn ?_ rfl)
        simp only [Parser.startsIn_cons] at others
        simp only [Symbol.turn, Symbol.operandTurn, if_neg others,
          if_neg notOpening, if_neg notLeaf]
      all_goals
        rename_i isKind
        exact leaf (by rw [isKind]; decide) (by rw [isKind]; rfl)

/-- An operation is an operand, and behind it stands no operator. -/
theorem follows_operationWith
    {expression : Parser Expr}
    (follows : FollowsExpression length expression)
    (forward : ReadsForward expression) :
    FollowsOperand (length + 1) (Parser.operationWith expression Parser.levels) ∧
      StopsBefore (Parser.operationWith expression Parser.levels)
        betweenOperators := by
  have unaryForward :=
    Parser.readsForward_unaryWith (Parser.readsForward_primaryWith forward)
  have unary :
      FollowsOperand (length + 1)
        (Parser.unaryWith (Parser.primaryWith expression)) :=
    followsOperand_unaryWith (follows_primaryWith follows forward)
  exact ⟨followsOperand_levels unaryForward unary Parser.levels
    between_of_mem_levels, (stopsBefore_levels unaryForward Parser.levels).2⟩

/--
Where neither an operator nor an equals sign stands behind an operand, it is closed.
-/
theorem leads_of_closed
    {tokens : List Token}
    {bare : Bool}
    {closing : Closing}
    (notOperator : ¬ StartsIn betweenOperators tokens)
    (notEqual : ¬ StartsIn [.equal] tokens) :
    Leads [.behind bare closing] tokens [] [.close closing] tokens := by
  refine leads_of_same _ (fun token first => ?_) rfl rfl
  cases tokens with
  | nil => cases first
  | cons head rest =>
      cases first
      simp only [Parser.startsIn_cons, List.mem_singleton] at notOperator notEqual
      simp [Symbol.turn, Symbol.misplaces, notOperator, notEqual]

/--
What is done with the value of an assignment, whose equals sign stands at a place.
-/
def assigned
    (place : List Token)
    (target value : Expr) :
    Parser Expr :=
  match target with
  | .reference name => Parser.accept (.assign name value)
  | _ =>
      Parser.andThen (Parser.recordError ⟨.invalidAssignmentTarget, place⟩)
        fun _ => Parser.accept target

/-- Behind a target, an equals sign is followed by a value. -/
theorem assignmentBehind_cons
    {expression : Parser Expr}
    {target : Expr}
    {token : Token}
    {rest : List Token}
    (isEqual : token.kind = .equal) :
    Parser.assignmentBehind expression target (token :: rest) =
      Parser.andThen expression (assigned (token :: rest) target) rest := by
  rw [Parser.assignmentBehind, Parser.bind_eq_andThen,
    Parser.andThen_of_accepted (show Parser.remaining (token :: rest) = _ from rfl),
    Outcome.after_nil, Parser.bind_eq_andThen,
    Parser.andThen_of_accepted
      (show Parser.acceptAny [.equal] (token :: rest) = _ by
      simp only [Parser.acceptAny, isEqual, List.mem_singleton, ↓reduceIte]; rfl),
    Outcome.after_nil]
  rfl

/-- Without an equals sign, the target is all that is read. -/
theorem assignmentBehind_of_not_startsIn
    {expression : Parser Expr}
    {target : Expr}
    {tokens : List Token}
    (notEqual : ¬ StartsIn [.equal] tokens) :
    Parser.assignmentBehind expression target tokens =
      .accepted target tokens [] := by
  cases tokens with
  | nil => rfl
  | cons token rest =>
      have other : token.kind ≠ .equal := by simpa using notEqual
      rw [Parser.assignmentBehind, Parser.bind_eq_andThen,
        Parser.andThen_of_accepted
          (show Parser.remaining (token :: rest) = _ from rfl),
        Outcome.after_nil, Parser.bind_eq_andThen,
        Parser.andThen_of_accepted
          (show Parser.acceptAny [.equal] (token :: rest) = _ by
          simp only [Parser.acceptAny, List.mem_singleton, other, ↓reduceIte]; rfl)]
      rfl

/-- An error about the target is recorded exactly if that is no name. -/
theorem exists_of_assigned
    (place rest : List Token)
    (target value : Expr) :
    ∃ found,
      assigned place target value rest =
        .accepted found rest
          (if isReference target then
            []
          else
            [.failed ⟨.invalidAssignmentTarget, place⟩]) := by
  cases target <;> exact ⟨_, rfl⟩

/--
Behind an operation an equals sign and a value may come, and then the closing token.
The errors of the value are recorded before the one about the target.
-/
theorem follows_assignmentBehind
    {expression : Parser Expr}
    (follows : FollowsExpression length expression)
    (target : Expr)
    (closing : Closing)
    (tokens : List Token)
    (short : tokens.length < length + 1)
    (stops : ¬ StartsIn betweenOperators tokens) :
    Follows [.behind (isReference target) closing] (fun _ => [.close closing])
      tokens (Parser.assignmentBehind expression target tokens) := by
  by_cases isEqual : StartsIn [.equal] tokens
  · cases tokens with
    | nil => exact (Parser.not_startsIn_nil isEqual).elim
    | cons token rest =>
        have isEqual : token.kind = .equal := by simpa using isEqual
        have turns : (Symbol.behind (isReference target) closing).turn token.kind =
            some [.operand true closing] := by
          cases closing <;> simp [Symbol.turn, isEqual, Closing.kind]
        have leads := leads_of_turn rest turns
        have inner :=
          follows closing rest (by simp only [List.length_cons] at short; omega)
        rw [assignmentBehind_cons isEqual]
        cases outcome : expression rest with
        | rejected error notes =>
            rw [Parser.andThen_of_rejected outcome]
            rw [outcome] at inner
            cases inner with
            | broken misfit breaks => exact .broken misfit (.of_leads leads breaks)
        | accepted value behind notes =>
            obtain ⟨found, assigns⟩ :=
              exists_of_assigned (token :: rest) behind target value
            rw [Parser.andThen_of_accepted outcome, assigns]
            rw [outcome] at inner
            cases inner with
            | broken misfit breaks =>
                refine .broken ?_ (.of_leads leads breaks)
                rw [Outcome.recorded_after, firstMisfit_append,
                  show firstMisfit notes = some _ from misfit]
                rfl
            | passed clean later =>
                have whole := leads.trans later
                cases isName : isReference target with
                | true =>
                    simp only [isName, Symbol.misplaces] at whole
                    exact .passed (by simp [clean]) (by simpa using whole)
                | false =>
                    simp only [isName, Symbol.misplaces, isEqual] at whole
                    refine .passed
                      (by rw [firstMisfit_append, clean]; rfl) (whole.perm ?_)
                    rw [targets_append]
                    exact List.perm_append_comm
  · rw [assignmentBehind_of_not_startsIn isEqual]
    exact .accepted (leads_of_closed stops isEqual)

/-- An assignment follows the expectation of an expression. -/
theorem followsExpression_assignmentWith
    {expression : Parser Expr}
    (follows : FollowsExpression length expression)
    (forward : ReadsForward expression) :
    FollowsExpression (length + 1) (Parser.assignmentWith expression) := by
  obtain ⟨operand, stops⟩ := follows_operationWith follows forward
  have operationForward := Parser.readsForward_operationWith forward Parser.levels
  intro closing tokens short
  refine (operand true closing tokens short).andThen
    fun {target rest notes} accepted => ?_
  have shorter := Parser.length_le_of_accepted operationForward accepted
  rw [Bool.true_and]
  exact follows_assignmentBehind follows target closing rest
    (by omega) (stops accepted)

/-- The parser of expressions follows the symbol of expressions. -/
theorem followsExpression_expression
    (length : Nat) :
    FollowsExpression length Parser.expression := by
  induction length with
  | zero => exact fun closing tokens short => (Nat.not_lt_zero _ short).elim
  | succ length inductionHypothesis =>
      rw [Parser.expression_eq]
      exact followsExpression_assignmentWith inductionHypothesis
        Parser.readsForward_expression

end Operations

end Lox.Grammar.Relaxed
