import Lox.Evaluation.Expression
import Lox.Tree.Node

namespace Lox.Evaluation

/-!
# Running statements

A statement completes normally or with a signal for the loop around it, or it
stops with a runtime error.  Scopes opened and loops entered on the way are left
again however it ends.  A run that exceeds its budget of loop iterations has no
result.
-/

/-- How a statement completes. -/
inductive Completion where
  | normal
  | broke
  | continued
  deriving Repr, DecidableEq

namespace Completion

/-- The name of a completion. -/
def name :
    Completion → String
  | .normal => "NORMAL"
  | .broke => "BREAK"
  | .continued => "CONTINUE"

end Completion

/-- What a run shows besides the printed texts. -/
structure Settings where
  /-- Print the values of expression statements. -/
  echo : Bool
  /-- Trace every statement. -/
  tracing : Bool
  deriving Repr, DecidableEq

/-- The state of a run. -/
structure State where
  environment : Environment
  /-- How many loops are being run, one inside the other. -/
  loopDepth : Nat
  /-- What happened so far, the latest first. -/
  log : List Event
  deriving Repr, DecidableEq

namespace State

/-- A state before anything happened. -/
def start
    (environment : Environment)
    (loopDepth : Nat) :
    State :=
  ⟨environment, loopDepth, []⟩

/-- What happened so far, in order. -/
def events
    (state : State) :
    List Event :=
  state.log.reverse

/-- Record an event. -/
def record
    (state : State)
    (event : Event) :
    State :=
  { state with log := event :: state.log }

/-- Record an event of a trace. -/
def trace
    (state : State)
    (settings : Settings)
    (text : String) :
    State :=
  if settings.tracing then state.record (.traced text) else state

/-- Trace that a statement is run. -/
def begin
    (state : State)
    (settings : Settings)
    (nodeClass : NodeClass) :
    State :=
  state.trace settings ("Executing: " ++ nodeClass.name)

/-- Open a scope. -/
def openScope
    (state : State) :
    State :=
  { state with environment := state.environment.enter }

/-- Close a scope. -/
def closeScope
    (state : State) :
    State :=
  { state with environment := state.environment.leave }

/-- Enter a loop. -/
def enterLoop
    (state : State) :
    State :=
  { state with loopDepth := state.loopDepth + 1 }

/-- Leave a loop. -/
def leaveLoop
    (state : State) :
    State :=
  { state with loopDepth := state.loopDepth - 1 }

/-- Evaluate an expression in the environment of a state. -/
def evaluate
    (state : State)
    (expr : Expr) :
    Except RuntimeError Value × State :=
  let (result, environment) := eval expr state.environment
  (result, { state with environment := environment })

end State

/--
How a statement ends, with the state afterwards; nothing if the budget is spent.
-/
abbrev Run :=
  Option (Except RuntimeError Completion × State)

/-- Change the final state, however a run ends. -/
def restoring
    (restore : State → State)
    (run : Run) :
    Run :=
  run.map fun (result, state) => (result, restore state)

/-- Go on after a completion, but not after an error. -/
def proceed
    (first : Run)
    (next : Completion → State → Run) :
    Run :=
  match first with
  | none => none
  | some (.error error, state) => some (.error error, state)
  | some (.ok completion, state) => next completion state

/-- Evaluate an expression and go on with its value. -/
def withValue
    (state : State)
    (expr : Expr)
    (next : Value → State → Run) :
    Run :=
  match state.evaluate expr with
  | (.ok value, afterwards) => next value afterwards
  | (.error error, afterwards) => some (.error error, afterwards)

/-- Run an expression statement. -/
def runExpression
    (settings : Settings)
    (inner : Expr)
    (state : State) :
    Run :=
  withValue state inner fun value afterwards =>
    some (.ok .normal,
      if settings.echo then
        afterwards.record (.printed value.display)
      else
        afterwards)

/-- Run a print statement. -/
def runPrint
    (inner : Expr)
    (state : State) :
    Run :=
  withValue state inner fun value afterwards =>
    some (.ok .normal, afterwards.record (.printed value.display))

/-- Bind a name in the active scope. -/
def runDefinition
    (name : Token)
    (value : Value)
    (state : State) :
    Run :=
  some (.ok .normal,
    { state with environment := state.environment.define name.lexeme value })

/-- Run a variable declaration; a name without a value is bound to nil. -/
def runVar
    (name : Token)
    (initial : Option Expr)
    (state : State) :
    Run :=
  match initial with
  | none => runDefinition name .nil state
  | some initial => withValue state initial (runDefinition name)

/-- Signal the loop around a statement; outside of loops that is an error. -/
def runSignal
    (keyword : Token)
    (signal : Completion)
    (state : State) :
    Run :=
  if state.loopDepth = 0 then
    some (.error ⟨.signalOutsideLoop, keyword⟩, state)
  else
    some (.ok signal, state)

/-- Repeat a body while a condition holds, at most so many times. -/
def iterate
    (condition : Expr)
    (body : State → Run) :
    Nat → State → Run
  | 0, _ => none
  | budget + 1, state =>
      match state.evaluate condition with
      | (.error error, tested) => some (.error error, tested)
      | (.ok value, tested) =>
          if value.isTruthy then
            match body tested with
            | none => none
            | some (.error error, afterwards) => some (.error error, afterwards)
            | some (.ok .broke, afterwards) => some (.ok .normal, afterwards)
            | some (.ok _, afterwards) => iterate condition body budget afterwards
          else
            some (.ok .normal, tested)

mutual

/-- Run a statement; each loop in it iterates fewer times than the budget. -/
def exec
    (settings : Settings)
    (budget : Nat) :
    Stmt → State → Run
  | .expression inner, state =>
      runExpression settings inner (state.begin settings .expression)
  | .print inner, state =>
      runPrint inner (state.begin settings .print)
  | .var name initial, state =>
      runVar name initial (state.begin settings .var)
  | .block statements, state =>
      restoring State.closeScope
        (execAll settings budget statements (state.begin settings .block).openScope)
  | .loopBody body increment, state =>
      restoring State.closeScope
        (proceed
          (exec settings budget body (state.begin settings .loopBody).openScope) fun
            | .broke, afterwards => some (.ok .broke, afterwards)
            | _, afterwards =>
                runExpression settings increment
                  (afterwards.begin settings .expression))
  | .ifThen condition thenPart, state =>
      withValue (state.begin settings .branch) condition fun value tested =>
        if value.isTruthy then
          exec settings budget thenPart tested
        else
          some (.ok .normal, tested)
  | .ifElse condition thenPart elsePart, state =>
      withValue (state.begin settings .branch) condition fun value tested =>
        if value.isTruthy then
          exec settings budget thenPart tested
        else
          exec settings budget elsePart tested
  | .whileLoop condition body, state =>
      restoring State.leaveLoop
        (iterate condition (fun tested => exec settings budget body tested) budget
          (state.begin settings .whileLoop).enterLoop)
  | .breakLoop keyword, state =>
      runSignal keyword .broke (state.begin settings .breakLoop)
  | .continueLoop keyword, state =>
      runSignal keyword .continued (state.begin settings .continueLoop)

/-- Run statements in order, up to the first that does not complete normally. -/
def execAll
    (settings : Settings)
    (budget : Nat) :
    List Stmt → State → Run
  | [], state => some (.ok .normal, state)
  | first :: rest, state =>
      proceed (exec settings budget first state) fun
        | .normal, afterwards => execAll settings budget rest afterwards
        | signal, afterwards => some (.ok signal, afterwards)

end

/-- More iterations of one loop than any run that ends can last. -/
def ampleBudget :
    Nat :=
  Nat.pow 2 62

end Lox.Evaluation
