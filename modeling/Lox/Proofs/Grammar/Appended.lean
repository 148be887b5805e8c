import Lox.Proofs.Grammar.Course
import Lox.Proofs.Grammar.StatementReading

namespace Lox.Parser

/-!
# Programs one behind the other

No rule looks past the end of what it reads, but for the `else` that may stand
behind an `if`, and no rule looks back.  Main statement: behind tokens that are read
without an error, other tokens are read as on their own, with their errors and
recoveries, unless they start with an `else`.
-/

open Grammar (Declaration Declarations)

/-- Behind a declaration that is read without an error, a program is read on. -/
theorem readProgram_of_reads
    {tokens rest : List Token}
    {stmt : Stmt}
    (reads : Reads declaration tokens stmt rest) :
    (readProgram tokens).found = stmt :: (readProgram rest).found ∧
      (readProgram tokens).errors = (readProgram rest).errors := by
  obtain ⟨notes, accepted, clean⟩ := reads
  cases tokens with
  | nil => cases accepted
  | cons token behind =>
      have noErrors : notes.filterMap Note.error? = [] := clean
      rw [readProgram_cons, accepted]
      simp [Reading.errors, Outcome.value?, Outcome.recorded, resume, noErrors]

/-- Programs that are read one behind the other are read as on their own. -/
structure ReadsApart
    (first second : List Token) :
    Prop where
  found :
    (readProgram (first ++ second)).found =
      (readProgram first).found ++ (readProgram second).found
  errors :
    (readProgram (first ++ second)).errors = (readProgram second).errors

/-- Declarations that derive are read in front of any tokens but an else. -/
theorem readProgram_append_of_derive
    {first second : List Token}
    {program : Program}
    (derive : Declarations .nearest first program)
    (noElse : ¬ StartsIn [.elseKeyword] second) :
    (readProgram (first ++ second)).found = program ++ (readProgram second).found ∧
      (readProgram (first ++ second)).errors = (readProgram second).errors := by
  induction program generalizing first with
  | nil =>
      cases derive
      exact ⟨rfl, rfl⟩
  | cons stmt statements inductionHypothesis =>
      cases derive with
      | cons firstDerives laterDerive =>
          have noElseBehind := not_startsIn_else_of_declarations laterDerive noElse
          obtain ⟨found, errors⟩ :=
            readProgram_of_reads
              (reads_declaration_of_derives firstDerives noElseBehind)
          obtain ⟨laterFound, laterErrors⟩ := inductionHypothesis laterDerive
          rw [List.append_assoc, found, errors, laterFound, laterErrors]
          exact ⟨rfl, rfl⟩

/--
Behind tokens without an error, all tokens but an else are read as on their own.
-/
theorem readsApart_of_clean
    {first second : List Token}
    (clean : (readProgram first).errors = [])
    (noElse : ¬ StartsIn [.elseKeyword] second) :
    ReadsApart first second := by
  have derive := readProgram_found_iff.mp ⟨clean, rfl⟩
  obtain ⟨found, errors⟩ := readProgram_append_of_derive derive noElse
  exact ⟨found, errors⟩

/--
An if that might go on with an else, and behind it statements that are given up: the
tokens of `if (true) break;` in front of those of `print; var; continue;`.
-/
theorem readsApart_if_before_errors :
    ∃ first second,
      (readProgram first).errors = [] ∧
        ¬ StartsIn [.elseKeyword] second ∧
          (readProgram second).errors.length = 2 ∧
            (readProgram second).found.length = 1 ∧ ReadsApart first second := by
  let first : List Token :=
    [⟨.ifKeyword, "if", .nil, 1, 0⟩, ⟨.leftParen, "(", .nil, 1, 3⟩,
      ⟨.trueKeyword, "true", .nil, 1, 4⟩, ⟨.rightParen, ")", .nil, 1, 8⟩,
      ⟨.breakKeyword, "break", .nil, 1, 10⟩, ⟨.semicolon, ";", .nil, 1, 15⟩]
  let second : List Token :=
    [⟨.printKeyword, "print", .nil, 2, 17⟩, ⟨.semicolon, ";", .nil, 2, 22⟩,
      ⟨.varKeyword, "var", .nil, 2, 24⟩, ⟨.semicolon, ";", .nil, 2, 27⟩,
      ⟨.continueKeyword, "continue", .nil, 2, 29⟩, ⟨.semicolon, ";", .nil, 2, 37⟩]
  have clean : (readProgram first).errors = [] := by decide
  have noElse : ¬ StartsIn [.elseKeyword] second := by simp [second]
  exact ⟨first, second, clean, noElse, by decide, by decide,
    readsApart_of_clean clean noElse⟩

end Lox.Parser
