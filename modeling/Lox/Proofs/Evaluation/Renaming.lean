import Lox.Proofs.Evaluation.Blame
import Lox.Proofs.Evaluation.Simulation
import Lox.Proofs.Scoping.Renaming
import Lox.Proofs.Tree.Renaming

namespace Lox

/-!
# Programs under other names

Main statement: if the names in a program and in the scopes that it starts in are
changed alike, and no two names become one, then the program runs as before.  It
prints the same texts and ends in the same way, in scopes with the names changed.
Only the message of an error that blames a name quotes the changed name.
-/

variable {change : String → String}

/-- An error with its name changed, if it blames one. -/
def RuntimeError.rename
    (change : String → String)
    (error : RuntimeError) :
    RuntimeError :=
  if error.cause.blamesName then
    { error with token := error.token.rename change }
  else
    error

/-- An error that is reported as another, but for the name that is quoted. -/
structure RuntimeError.Renamed
    (change : String → String)
    (error other : RuntimeError) :
    Prop where
  kind : other.kind = error.kind
  line : other.line = error.line
  offset : other.fault.offset = error.fault.offset
  message :
    other.message =
      match error.cause with
      | .undefinedVariable => s!"Undefined variable '{change error.token.lexeme}'."
      | .nilVariable =>
          s!"Accessing variable '{change error.token.lexeme}' whose value is nil."
      | _ => error.message

theorem RuntimeError.renamed_rename
    (change : String → String)
    (error : RuntimeError) :
    RuntimeError.Renamed change error (error.rename change) := by
  obtain ⟨cause, token⟩ := error
  cases cause with
  | undefinedVariable => exact ⟨rfl, rfl, rfl, rfl⟩
  | nilVariable => exact ⟨rfl, rfl, rfl, rfl⟩
  | operandIsNoNumber => exact ⟨rfl, rfl, rfl, rfl⟩
  | operandsAreNoNumbers => exact ⟨rfl, rfl, rfl, rfl⟩
  | operandsCannotBeAdded left right => exact ⟨rfl, rfl, rfl, rfl⟩
  | divisionByZero => exact ⟨rfl, rfl, rfl, rfl⟩
  | signalOutsideLoop => exact ⟨rfl, rfl, rfl, rfl⟩
  | unknownOperator => exact ⟨rfl, rfl, rfl, rfl⟩

namespace Evaluation

theorem Matches.eq_rename
    {error other : RuntimeError}
    (matched : Matches (.renamed change) error other) :
    other = error.rename change := by
  obtain ⟨cause, token⟩ := error
  obtain ⟨cause', token'⟩ := other
  obtain ⟨sameCause, sameToken⟩ := matched
  cases sameCause
  unfold RuntimeError.rename
  by_cases named : cause.blamesName = true
  · simp only [named, ↓reduceIte] at sameToken ⊢
    rw [sameToken]
  · simp only [named, Bool.false_eq_true, ↓reduceIte] at sameToken ⊢
    rw [sameToken]

/-- The state with the names of its scopes changed. -/
def State.rename
    (change : String → String)
    (state : State) :
    State :=
  { state with environment := state.environment.rename change }

/--
Names that stay apart are found, assigned and defined alike under both spellings.
-/
theorem simulation_renamed
    (apart : Function.Injective change) :
    Simulation (.renamed change) (fun _ => True)
      (fun _ environment other => other = environment.rename change) Eq where
  kinds := by
    intro mark other same
    exact congrArg Token.kind same
  sameValues _ :=
    { found := by
        rintro environment _ name _ rfl rfl
        rw [Environment.chain_rename]
        exact Chain.get?_rename apart environment.chain name.lexeme
      assigned := by
        rintro environment _ name _ rfl rfl value
        have assigned := environment.assign?_rename apart name.lexeme value
        generalize environment.assign? name.lexeme value = changed at assigned ⊢
        rw [Token.rename, assigned]
        cases changed with
        | none => exact .none
        | some changed => exact .some rfl }
  defined := by
    rintro _ environment _ name _ _ rfl rfl value
    exact environment.define_rename apart name.lexeme value
  entered := by
    rintro _ environment _ rfl
    rfl
  left := by
    rintro _ environment _ rfl
    simp [Environment.leave, Environment.rename]
  recorded := by
    rintro log _ event rfl
    rfl

/-- What a run leaves behind, and what it leaves behind under other names. -/
structure RenamedEnd
    (change : String → String)
    (finished : Bool)
    (after other : State) :
    Prop where
  environment : other.environment = after.environment.rename change
  loopDepth : other.loopDepth = after.loopDepth
  printed :
    other.events.filterMap Event.printedText? =
      after.events.filterMap Event.printedText?
  whole : finished = true → other.log = after.log
  stopped :
    finished = false →
      ∃ error earlier,
        after.log = .faulted error.fault :: earlier ∧
          other.log = .faulted (error.rename change).fault :: earlier ∧
          RuntimeError.Renamed change error (error.rename change)

/--
Runs that correspond by a renaming end renamed: the trace of an error tells its kind
and its line, which are the same.
-/
theorem Interpreted.renamedEnd
    {settings : Settings}
    {finished : Bool}
    {after other : State}
    (interpreted :
      Interpreted settings (.renamed change)
        (State.Paired (fun environment other =>
            other = environment.rename change) Eq)
        finished after other) :
    RenamedEnd change finished after other := by
  cases interpreted with
  | finished paired =>
      constructor
      case environment => exact paired.environment
      case loopDepth => exact paired.loopDepth
      case printed => rw [State.events, State.events, paired.log]
      case whole =>
        intro _
        exact paired.log.symm
      case stopped =>
        intro stopped
        cases stopped
  | @stopped before before' error error' paired matched =>
      obtain rfl := matched.eq_rename
      have renamed := error.renamed_rename change
      constructor
      case environment => simpa using paired.environment
      case loopDepth => simpa using paired.loopDepth
      case printed =>
        rw [printedText?_recordError, printedText?_recordError, State.events,
          State.events, paired.log]
      case whole =>
        intro whole
        cases whole
      case stopped =>
        intro _
        let text := s!"Runtime error ({error.kind.name}) at line {error.line}"
        refine ⟨error, (before.trace settings text).log, rfl, ?_, renamed⟩
        have traced :
            (before'.trace settings text).log =
              (before.trace settings text).log := by
          unfold State.trace
          split
          · exact congrArg (_ :: ·) paired.log.symm
          · exact paired.log.symm
        unfold State.recordError
        rw [renamed.kind, renamed.line]
        exact congrArg (_ :: ·) traced

/--
A program with its names changed, started in scopes with their names changed
likewise, ends if and only if the program as it was does, and within the
same budgets.  Whether it ran to its end is the same then, and so is all
that it leaves behind, but for the names.
-/
theorem interpret_rename
    (apart : Function.Injective change)
    (settings : Settings)
    (program : Program)
    (state : State) :
    (∀ budget,
        interpret settings budget (program.rename change) (state.rename change) =
          none ↔
          interpret settings budget program state = none) ∧
      ∀ budget finished after,
        interpret settings budget program state = some (finished, after) →
          ∃ after',
            interpret settings budget (program.rename change)
              (state.rename change) =
                some (finished, after') ∧
              RenamedEnd change finished after after' := by
  have alike := fun budget =>
    (simulation_renamed apart).interpretedAlike settings budget
      (Stmt.correspond_renameAll 0 program)
      (⟨rfl, rfl, rfl⟩ :
        State.Paired _ _ state.atGlobals (state.rename change).atGlobals)
  constructor
  · intro budget
    exact (alike budget).eq_none_iff
  · intro budget finished after ended
    obtain ⟨after', ended', interpreted⟩ := (alike budget).exists_interpreted ended
    exact ⟨after', ended', interpreted.renamedEnd⟩

/--
A block that hides a name, rebinds another around it and reads one without a value.
-/
def shadowingBlock :
    Program :=
  let hidden : Token := ⟨.identifier, "a", .nil, 1, 6⟩
  let rebound : Token := ⟨.identifier, "b", .nil, 2, 20⟩
  let missing : Token := ⟨.identifier, "c", .nil, 3, 30⟩
  [.block
    [.var hidden (some (.assign rebound (.literal (.string "inner")))),
      .print (.reference hidden),
      .var missing none,
      .print (.reference missing)]]

/--
The block fails on the one name as on the other, and rebinds what the scopes had.
-/
theorem shadowingBlock_renamed :
    let change : String → String := (· ++ "_")
    let state :=
      State.start ⟨[], ⟨[("a", .string "outer"), ("b", .nil)]⟩, [⟨[("c", .nil)]⟩]⟩ 0
    ∃ after after',
      interpret ⟨true, false⟩ 1 shadowingBlock state = some (false, after) ∧
        interpret ⟨true, false⟩ 1 (shadowingBlock.rename change)
          (state.rename change) =
          some (false, after') ∧
        RenamedEnd change false after after' ∧
        after'.environment.globals =
          ⟨[("a_", .string "outer"), ("b_", .string "inner")]⟩ ∧
        after'.faults.map Fault.message =
          ["Accessing variable 'c_' whose value is nil."] := by
  intro change state
  have apart : Function.Injective change := by
    intro name other same
    exact String.append_left_inj "_" |>.mp same
  obtain ⟨after', ended, renamed⟩ :=
    (interpret_rename apart ⟨true, false⟩ shadowingBlock state).2 1 false _ rfl
  refine ⟨_, after', rfl, ended, renamed, ?_, ?_⟩
  · rw [renamed.environment]
    rfl
  · cases ended
    rfl

end Evaluation

end Lox
