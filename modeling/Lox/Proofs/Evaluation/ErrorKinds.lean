import Lox.Analysis
import Lox.Proofs.Evaluation.Failure
import Lox.Proofs.Grammar.Built
import Lox.Proofs.Token.Literal

namespace Lox

/-!
# Errors of the known kinds only

Main statement: nothing goes wrong with a text but what is reported.  Reading it
stays within its tokens and builds well-formed trees only, and a program that was
read without errors runs to its end or stops with one error, of one of the kinds
that a program can cause.  No operator is applied to operands that do not fit it.
-/

/-- The kinds of errors that an expression can fail with. -/
def RuntimeKind.ofExpressions :
    List RuntimeKind :=
  [.typeError, .divideByZero, .undefinedVariable, .nilAccess]

/-- The kinds of errors that a program can fail with. -/
def RuntimeKind.ofPrograms :
    List RuntimeKind :=
  .illegalControlSignal :: ofExpressions

/-- The kinds of values. -/
def Value.kindNames :
    List String :=
  ["nil", "boolean", "number", "string"]

theorem Value.kindName_mem
    (value : Value) :
    value.kindName ∈ kindNames := by
  cases value <;> simp [kindName, kindNames]

/-- Every cause of an error but one is of a kind that programs have. -/
theorem RuntimeError.kind_mem_ofPrograms
    {error : RuntimeError}
    (known : error.cause ≠ .unknownOperator) :
    error.kind ∈ RuntimeKind.ofPrograms := by
  obtain ⟨cause, token⟩ := error
  cases cause <;> simp_all [kind, RuntimeKind.ofPrograms, RuntimeKind.ofExpressions]

/-- Every cause of an error in an expression is of a kind that expressions have. -/
theorem RuntimeError.kind_mem_ofExpressions
    {error : RuntimeError}
    (known : error.cause ≠ .unknownOperator)
    (noSignal : error.cause ≠ .signalOutsideLoop) :
    error.kind ∈ RuntimeKind.ofExpressions := by
  obtain ⟨cause, token⟩ := error
  cases cause <;> simp_all [kind, RuntimeKind.ofExpressions]

/--
In a well-formed tree no operator is unknown,
and what is blamed is one of the tokens.
-/
theorem Node.Raises.known
    {tokens : List Token}
    {node : Node}
    {error : RuntimeError}
    (raises : node.Raises error)
    (formed : node.Everywhere (Node.Formed tokens)) :
    error.token ∈ tokens ∧ error.cause ≠ .unknownOperator := by
  induction raises with
  | operand => exact ⟨formed.here.marked.member, by simp⟩
  | @operands left right operator cause blamed =>
      have fits : operator.kind ∈ Kind.binaryOperators := formed.here.marked.kind
      refine ⟨formed.here.marked.member, ?_⟩
      generalize operator.kind = kind at blamed fits
      cases blamed with
      | operands => simp
      | addition => simp
      | division => simp
      | unknown other => exact (other fits).elim
  | undefined => exact ⟨formed.here.marked.member, by simp⟩
  | withoutValue => exact ⟨formed.here.marked.member, by simp⟩
  | undeclared => exact ⟨formed.here.marked.member, by simp⟩
  | broken => exact ⟨formed.here.marked.member, by simp⟩
  | continued => exact ⟨formed.here.marked.member, by simp⟩
  | inside member _ inductionHypothesis =>
      exact inductionHypothesis (formed.child member)

namespace Evaluation

/--
An evaluation with a value of a known kind, or
with an error of a kind of expressions.
-/
def Settles
    (tokens : List Token) :
    Except RuntimeError Value → Prop
  | .ok value => value.kindName ∈ Value.kindNames
  | .error error => error.kind ∈ RuntimeKind.ofExpressions ∧ error.token ∈ tokens

/-- A formed expression has a value or fails with an error that is known. -/
theorem settles_eval
    {tokens : List Token}
    {expr : Expr}
    (formed : expr.Formed tokens)
    (environment : Environment) :
    Settles tokens (eval expr environment).1 := by
  rcases outcome : (eval expr environment).1 with error | value
  · have raises := raises_of_eval outcome
    obtain ⟨member, known⟩ := raises.known formed
    exact ⟨RuntimeError.kind_mem_ofExpressions known raises.cause_of_expr, member⟩
  · exact value.kindName_mem

/--
How programs end: whole, or stopped by one
error that is reported as one of the kinds.
-/
def EndsKnown
    (tokens : List Token)
    (state : State)
    (finished : Bool)
    (after : State) :
    Prop :=
  (finished = true ∧ after.faults = state.faults) ∨
    ∃ error : RuntimeError,
      finished = false ∧
        after.faults = state.faults ++ [error.fault] ∧
        error.kind ∈ RuntimeKind.ofPrograms ∧
        error.token ∈ tokens

/-- A run of a formed program ends with errors that are known. -/
theorem endsKnown_of_interpret
    {tokens : List Token}
    {settings : Settings}
    {budget : Nat}
    {program : Program}
    {state after : State}
    {finished : Bool}
    (formed : ∀ stmt ∈ program, stmt.Formed tokens)
    (ended : interpret settings budget program state = some (finished, after)) :
    EndsKnown tokens state finished after := by
  obtain ⟨progress, run, outcome⟩ := interpret_cases ended
  have keeps := faults_execProgram run
  rcases outcome with ⟨-, rfl, rfl⟩ | ⟨error, stopped, rfl, rfl⟩
  · exact .inl ⟨rfl, keeps⟩
  · obtain ⟨stmt, member, raises⟩ := raises_of_execProgram run stopped
    obtain ⟨among, known⟩ := raises.known (formed stmt member).nodes
    refine .inr ⟨error, rfl, ?_, RuntimeError.kind_mem_ofPrograms known, among⟩
    rw [faults_recordError, keeps, faults_atGlobals]

end Evaluation

namespace Analysis

/-- The tokens that a text is read as. -/
def tokens
    (analysis : Analysis) :
    List Token :=
  analysis.scan.stream.tokens

/-- All nodes of the trees that a text is read as, also where it has errors. -/
def Builds
    (analysis : Analysis)
    (node : Node) :
    Prop :=
  ∃ stmt ∈ analysis.reading.found, ∃ depth, (depth, node) ∈ (Node.stmt stmt).walk 0

/-- A text that is read within its tokens. -/
structure Confined
    (analysis : Analysis) :
    Prop where
  literals : ∀ token ∈ analysis.tokens, token.Denotes
  places : ∀ outcome ∈ Parser.declarations analysis.tokens,
    outcome.remaining <:+ analysis.tokens
  notes : ∀ note ∈ analysis.reading.notes, note.Within analysis.tokens
  roots : ∀ stmt ∈ analysis.reading.found, stmt.nodeClass ≠ .loopBody
  nodes : ∀ node, analysis.Builds node → node.Formed analysis.tokens
  pairs : ∀ node, analysis.Builds node → node.nodeClass = .loopBody →
    node.children.length = 2

theorem everywhere_of_builds
    {source : String}
    {node : Node}
    (builds : (ofSource source).Builds node) :
    node.Everywhere (Node.Formed (ofSource source).tokens) := by
  obtain ⟨stmt, member, depth, visited⟩ := builds
  have formed : stmt.Formed (ofSource source).tokens := formed_of_mem_found member
  exact formed.nodes.of_mem_walk visited

/-- Everything built of a source is confined to its tokens. -/
theorem confined_ofSource
    (source : String) :
    (ofSource source).Confined where
  literals _ member := Lexer.denotes_of_mem_scan member
  places _ tried := (Parser.builds_declarations _ _ tried).remaining
  notes _ member := within_of_mem_notes member
  roots _ member := (formed_of_mem_found member).noRound
  nodes _ builds := (everywhere_of_builds builds).here
  pairs node _ round := by
    cases node with
    | expr inner => cases inner <;> cases round
    | stmt inner => cases inner <;> first | rfl | cases round

theorem found_of_program?
    {analysis : Analysis}
    {program : Program}
    (accepted : analysis.program? = some program) :
    analysis.reading.found = program := by
  unfold program? at accepted
  split at accepted
  · exact Option.some.inj accepted
  · cases accepted

end Analysis

namespace Evaluation

/--
Reading a text stays within its tokens and builds well-formed trees only.  Every
expression in them has a value of a known kind or an error of a known kind, in
every environment: an operator is applied to operands that fit it, and fails for
all others.  A program that was read without errors runs whole, without a fault,
or stops with one fault of a known kind.
-/
theorem only_known_errors
    (source : String) :
    (Analysis.ofSource source).Confined ∧
      (∀ expr,
        (Analysis.ofSource source).Builds (.expr expr) →
          ∀ environment,
            Settles (Analysis.ofSource source).tokens (eval expr environment).1) ∧
      (∀ operator left right,
        (∃ value, applyBinary operator left right = .ok value) ↔
          OperandsFit operator.kind left right) ∧
      (∀ operator operand,
        (∃ value, applyUnary operator operand = .ok value) ↔
          operator.kind = .bang ∨ operand.isNumber = true) ∧
      ∀ program,
        (Analysis.ofSource source).program? = some program →
          ∀ settings budget state finished after,
            interpret settings budget program state = some (finished, after) →
              EndsKnown (Analysis.ofSource source).tokens state finished after := by
  refine ⟨Analysis.confined_ofSource source, ?_, ?_, ?_, ?_⟩
  · intro expr builds environment
    exact settles_eval (Analysis.everywhere_of_builds builds) environment
  · intro operator left right
    exact exists_applyBinary_iff
  · intro operator operand
    exact exists_applyUnary_iff
  · intro program accepted settings budget state finished after ended
    refine endsKnown_of_interpret ?_ ended
    intro stmt member
    rw [← Analysis.found_of_program? accepted] at member
    exact formed_of_mem_found member

/--
A text that is read without errors, and that stops at a name that is not defined.
-/
theorem undefinedName_endsKnown :
    let state := State.start ⟨[], .empty, []⟩ 0
    ∃ program after,
      (Analysis.ofSource "print a;").program? = some program ∧
        interpret ⟨false, false⟩ 1 program state = some (false, after) ∧
        EndsKnown (Analysis.ofSource "print a;").tokens state false after := by
  intro state
  have stops : ((Analysis.ofSource "print a;").program?.any fun program =>
      (interpret ⟨false, false⟩ 1 program state).any fun ending => !ending.1) =
        true := by
    decide +kernel
  obtain ⟨program, accepted, runs⟩ := (Option.any_eq_true _ _).mp stops
  obtain ⟨⟨finished, after⟩, ended, unfinished⟩ := (Option.any_eq_true _ _).mp runs
  obtain rfl : finished = false := by simpa using unfinished
  obtain ⟨-, -, -, -, ends⟩ := only_known_errors "print a;"
  exact ⟨program, after, accepted, ended,
    ends program accepted ⟨false, false⟩ 1 state false after ended⟩

end Evaluation

end Lox
