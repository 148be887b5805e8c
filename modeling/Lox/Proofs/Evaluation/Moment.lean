import Lox.Proofs.Evaluation.Run
import Lox.Proofs.Tree.Trail

namespace Lox.Evaluation

/-!
# The moments of a run

A run comes to its statements and to the names in its expressions one after the
other, to those inside of loops again and again.  The moments of a run list this,
each with the state that the run has come to; a run that exceeds its budget has
its moments up to then.
-/

/--
A place in a program: a position at the top level and the way down from there.
-/
structure Place where
  position : Nat
  trail : Trail
  deriving Repr

/-- The place of a child. -/
def Place.inside
    (place : Place)
    (parent : Node)
    (index : Nat) :
    Place :=
  { place with trail := ⟨parent, index⟩ :: place.trail }

/-- A node that a run comes to, its place and the state then. -/
structure Moment where
  place : Place
  node : Node
  state : State
  deriving Repr

/-- What comes after an expression that has a value. -/
def whenValue
    (state : State)
    (expr : Expr)
    (next : Value → State → List Moment) :
    List Moment :=
  match state.evaluate expr with
  | (.ok value, afterwards) => next value afterwards
  | (.error _, _) => []

/-- What comes after a statement that completes. -/
def whenCompleted
    (run : Run)
    (next : Completion → State → List Moment) :
    List Moment :=
  match run with
  | some (.ok completion, afterwards) => next completion afterwards
  | _ => []

/--
The moments at which an expression looks up a name; an assignment does so last.
-/
def lookups
    (place : Place) :
    Expr → State → List Moment
  | .literal _, _ => []
  | .grouping inner, state =>
      lookups (place.inside (.expr (.grouping inner)) 0) inner state
  | .unary operator operand, state =>
      lookups (place.inside (.expr (.unary operator operand)) 0) operand state
  | .binary left operator right, state =>
      lookups (place.inside (.expr (.binary left operator right)) 0) left state ++
        whenValue state left fun _ between =>
          lookups
            (place.inside (.expr (.binary left operator right)) 1) right between
  | .logical left operator right, state =>
      lookups (place.inside (.expr (.logical left operator right)) 0) left state ++
        whenValue state left fun value between =>
          if decides operator value then
            []
          else
            lookups
              (place.inside (.expr (.logical left operator right)) 1) right between
  | .reference name, state => [⟨place, .expr (.reference name), state⟩]
  | .assign name value, state =>
      lookups (place.inside (.expr (.assign name value)) 0) value state ++
        whenValue state value fun _ afterwards =>
          [⟨place, .expr (.assign name value), afterwards⟩]

/--
The moments of a loop: of the tests of its condition and of the rounds of its body.
-/
def loopMoments
    (condition : Expr)
    (test : State → List Moment)
    (round : State → List Moment)
    (body : State → Run) :
    Nat → State → List Moment
  | 0, _ => []
  | budget + 1, state =>
      test state ++
        whenValue state condition fun value tested =>
          if value.isTruthy then
            round tested ++
              whenCompleted (body tested) fun
                | .broke, _ => []
                | _, afterwards =>
                    loopMoments condition test round body budget afterwards
          else
            []

mutual

/-- The moments of a statement, the first being that the run comes to it. -/
def moments
    (settings : Settings)
    (budget : Nat)
    (place : Place) :
    Stmt → State → List Moment
  | .expression inner, state =>
      ⟨place, .stmt (.expression inner), state⟩ ::
        lookups (place.inside (.stmt (.expression inner)) 0) inner
          (state.begin settings .expression)
  | .print inner, state =>
      ⟨place, .stmt (.print inner), state⟩ ::
        lookups (place.inside (.stmt (.print inner)) 0) inner
          (state.begin settings .print)
  | .var name none, state =>
      [⟨place, .stmt (.var name none), state⟩]
  | .var name (some initial), state =>
      ⟨place, .stmt (.var name (some initial)), state⟩ ::
        lookups (place.inside (.stmt (.var name (some initial))) 0) initial
          (state.begin settings .var)
  | .block statements, state =>
      ⟨place, .stmt (.block statements), state⟩ ::
        momentsAll settings budget (place.inside (.stmt (.block statements))) 0
          statements (state.begin settings .block).openScope
  | .loopBody body increment, state =>
      ⟨place, .stmt (.loopBody body increment), state⟩ ::
        (moments settings budget
          (place.inside (.stmt (.loopBody body increment)) 0) body
            (state.begin settings .loopBody).openScope ++
          whenCompleted
            (exec settings budget body
              (state.begin settings .loopBody).openScope) fun
              | .broke, _ => []
              | _, afterwards =>
                  let behind := place.inside (.stmt (.loopBody body increment)) 1
                  ⟨behind, .stmt (.expression increment), afterwards⟩ ::
                    lookups
                      (behind.inside (.stmt (.expression increment)) 0) increment
                      (afterwards.begin settings .expression))
  | .ifThen condition thenPart, state =>
      ⟨place, .stmt (.ifThen condition thenPart), state⟩ ::
        (lookups (place.inside (.stmt (.ifThen condition thenPart)) 0) condition
            (state.begin settings .branch) ++
          whenValue (state.begin settings .branch) condition fun value tested =>
            if value.isTruthy then
              moments settings budget
                (place.inside (.stmt (.ifThen condition thenPart)) 1)
                thenPart tested
            else
              [])
  | .ifElse condition thenPart elsePart, state =>
      ⟨place, .stmt (.ifElse condition thenPart elsePart), state⟩ ::
        (lookups
            (place.inside (.stmt (.ifElse condition thenPart elsePart)) 0) condition
            (state.begin settings .branch) ++
          whenValue (state.begin settings .branch) condition fun value tested =>
            if value.isTruthy then
              moments settings budget
                (place.inside (.stmt (.ifElse condition thenPart elsePart)) 1)
                thenPart tested
            else
              moments settings budget
                (place.inside (.stmt (.ifElse condition thenPart elsePart)) 2)
                elsePart tested)
  | .whileLoop condition body, state =>
      ⟨place, .stmt (.whileLoop condition body), state⟩ ::
        loopMoments condition
          (lookups (place.inside (.stmt (.whileLoop condition body)) 0) condition)
          (fun tested =>
            moments settings budget
              (place.inside (.stmt (.whileLoop condition body)) 1) body tested)
          (fun tested => exec settings budget body tested) budget
          (state.begin settings .whileLoop).enterLoop
  | .breakLoop keyword, state =>
      [⟨place, .stmt (.breakLoop keyword), state⟩]
  | .continueLoop keyword, state =>
      [⟨place, .stmt (.continueLoop keyword), state⟩]

/--
The moments of statements in order, up to the first that does not complete normally.
-/
def momentsAll
    (settings : Settings)
    (budget : Nat)
    (place : Nat → Place) :
    Nat → List Stmt → State → List Moment
  | _, [], _ => []
  | index, first :: rest, state =>
      moments settings budget (place index) first state ++
        whenCompleted (exec settings budget first state) fun
          | .normal, afterwards =>
              momentsAll settings budget place (index + 1) rest afterwards
          | _, _ => []

end

/-- The moments of the statements of a program, up to the first error. -/
def programMoments
    (settings : Settings)
    (budget : Nat) :
    Nat → Program → State → List Moment
  | _, [], _ => []
  | position, first :: rest, state =>
      moments settings budget ⟨position, []⟩ first state ++
        whenCompleted (exec settings budget first state) fun _ afterwards =>
          programMoments settings budget (position + 1) rest afterwards

/-- The moments of a program that is run from a state. -/
def interpretMoments
    (settings : Settings)
    (budget : Nat)
    (program : Program)
    (state : State) :
    List Moment :=
  programMoments settings budget 0 program state.atGlobals

@[simp] theorem whenValue_nothing
    (state : State)
    (expr : Expr) :
    (whenValue state expr fun _ _ => []) = [] := by
  unfold whenValue
  split <;> rfl

/-- The increment behind the body of a loop is a statement of its own. -/
theorem moments_loopBody
    (settings : Settings)
    (budget : Nat)
    (place : Place)
    (body : Stmt)
    (increment : Expr)
    (state : State) :
    moments settings budget place (.loopBody body increment) state =
      ⟨place, .stmt (.loopBody body increment), state⟩ ::
        (moments settings budget
          (place.inside (.stmt (.loopBody body increment)) 0) body
            (state.begin settings .loopBody).openScope ++
          whenCompleted
            (exec settings budget body
              (state.begin settings .loopBody).openScope) fun
              | .broke, _ => []
              | _, after =>
                  moments settings budget
                    (place.inside (.stmt (.loopBody body increment)) 1)
                    (.expression increment) after) :=
  rfl

end Lox.Evaluation
