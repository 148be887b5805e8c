import Lox.Proofs.Decimal.Display
import Lox.Proofs.Session.Arithmetic

namespace Lox

/-!
# Printed numbers

A display without an exponent is scanned as one number, behind a minus sign if the
number has one.  Main statement: what is displayed for a finite number in this way
is scanned as that number, and printing it in a program displays it again.
-/

namespace Lexer

/--
A run ends where the text does, or in front of a character that fails the test.
-/
theorem runLength_append_of_head?
    {test : Char → Bool}
    {body behind : List Char}
    (inside : ∀ character ∈ body, test character = true)
    (stops : ∀ next ∈ behind.head?, test next = false) :
    runLength test (body ++ behind) = body.length := by
  cases behind with
  | nil => rw [List.append_nil, runLength_of_forall inside]
  | cons next after => exact runLength_of_stop inside (stops next rfl) after

/-- A number text is taken up whole, unless it is continued behind. -/
theorem numberLength_of_text
    {first : Char}
    {more behind tail : List Char}
    (text : NumberText (first :: more) behind)
    (further : behind ≠ ['.'])
    (stops : ∀ next ∈ tail.head?, next.isDigit = false ∧ next ≠ '.') :
    numberLength (more ++ behind ++ tail) = (more ++ behind).length := by
  have digits := (List.forall_mem_cons.mp text.digits).2
  have noDigit : ∀ next ∈ tail.head?, next.isDigit = false :=
    fun next member => (stops next member).1
  rw [List.append_assoc]
  rcases text.fraction with rfl | ⟨fraction, rfl, fractionDigits⟩
  · have run : runLength Char.isDigit (more ++ tail) = more.length :=
      runLength_append_of_head? digits noDigit
    have noPoint : fractionLength tail = 0 := by
      cases tail with
      | nil => rfl
      | cons next after => exact fractionLength_cons_of_ne (stops next rfl).2 after
    rw [List.nil_append, List.append_nil, numberLength, run, List.drop_left,
      noPoint, Nat.add_zero]
  · cases fraction with
    | nil => exact (further rfl).elim
    | cons next others =>
        obtain ⟨isDigit, otherDigits⟩ := List.forall_mem_cons.mp fractionDigits
        have run :
            runLength Char.isDigit (more ++ ('.' :: next :: others ++ tail)) =
            more.length :=
          runLength_of_stop digits rfl _
        have runFurther : runLength Char.isDigit (others ++ tail) = others.length :=
          runLength_append_of_head? otherDigits noDigit
        rw [numberLength, run, List.drop_left, List.cons_append, List.cons_append,
          fractionLength, if_pos isDigit, runFurther, List.length_append,
          List.length_cons, List.length_cons]
        omega

/-- A number text is cut off as a number. -/
theorem pieces_number
    {whole behind tail : List Char}
    (text : NumberText whole behind)
    (further : behind ≠ ['.'])
    (stops : ∀ next ∈ tail.head?, next.isDigit = false ∧ next ≠ '.') :
    pieces (whole ++ behind ++ tail) =
      ⟨.token .number, whole ++ behind⟩ :: pieces tail := by
  obtain ⟨first, more, rfl⟩ := List.exists_cons_of_ne_nil text.nonempty
  have rule : Rule first (more ++ behind ++ tail) (.token .number) _ :=
    .number (text.digits first List.mem_cons_self)
  rw [numberLength_of_text text further stops] at rule
  exact pieces_append_of_rule rule

/-- A mark of punctuation is cut off on its own. -/
theorem pieces_punctuation
    {mark : Char}
    {kind : Kind}
    (punctuation : Kind.ofPunctuation? mark = some kind)
    (tail : List Char) :
    pieces (mark :: tail) = ⟨.token kind, [mark]⟩ :: pieces tail :=
  @pieces_append_of_rule mark [] tail _ (.punctuation punctuation)

section Scans

variable {whole behind : List Char}

/-- The literal of a number text is the number that it spells. -/
theorem literalOf_number
    (text : NumberText whole behind)
    (further : behind ≠ ['.']) :
    literalOf .number (whole ++ behind) =
      .number (Decimal.Numeral.mk whole (behind.drop 1) 0).value := by
  obtain ⟨numeral, read, literal⟩ := text.denotes
  rw [(Decimal.Spells.plain text further).numeral?_eq] at read
  cases read
  exact literal

theorem lineFeeds_number
    (text : NumberText whole behind)
    (further : behind ≠ ['.']) :
    Text.lineFeeds (whole ++ behind) = 0 := by
  refine List.count_eq_zero.mpr fun member => ?_
  rcases (Decimal.Spells.plain text further).mem_cases _ member with digit | sign
  · exact absurd digit (by decide)
  · exact absurd sign (by decide)

/-- A number text is scanned as one number. -/
theorem scan_number
    (text : NumberText whole behind)
    (further : behind ≠ ['.']) :
    scan (String.ofList (whole ++ behind)) =
      { stream :=
          { tokens :=
              [⟨.number, String.ofList (whole ++ behind),
                .number (Decimal.Numeral.mk whole (behind.drop 1) 0).value, 1, 0⟩]
            finish := ⟨1, (whole ++ behind).length⟩ }
        errors := [] } := by
  have cut := @pieces_number whole behind [] text further (by simp)
  rw [List.append_nil, pieces_nil] at cut
  simp only [scan, String.toList_ofList, cut, place, lineFeeds_number text further]
  rw [← literalOf_number text further]
  rfl

/-- A number text in front of a semicolon is a formula. -/
theorem endsFormula_number
    (text : NumberText whole behind)
    (further : behind ≠ ['.'])
    {source : String}
    (isSource : source.toList = whole ++ behind ++ [';']) :
    EndsFormula source
      (.number (Decimal.Numeral.mk whole (behind.drop 1) 0).value) := by
  have cut := @pieces_number whole behind [';'] text further (by simp)
  rw [@pieces_punctuation ';' .semicolon rfl [], pieces_nil, ← isSource] at cut
  refine ⟨errors_eq_nil_of_sound (by rw [cut]; simp [Shape.Sound]), ?_⟩
  have tokens := unplaced_tokens_scan source
  rw [cut] at tokens
  obtain ⟨number, rest, split, isNumber, later⟩ := List.map_eq_cons_iff.mp tokens
  obtain ⟨semicolon, none, rfl, isSemicolon, nothing⟩ :=
    List.map_eq_cons_iff.mp later
  obtain rfl := List.map_eq_nil_iff.mp nothing
  have literal :=
    (congrArg Token.literal isNumber).trans (literalOf_number text further)
  exact ⟨[number], semicolon, split,
    .product (.signed (.atom (.number (congrArg Token.kind isNumber) literal))),
    congrArg Token.kind isSemicolon⟩

/--
A number text between a minus sign and a semicolon is the negative of its formula.
-/
theorem endsFormula_negative
    (text : NumberText whole behind)
    (further : behind ≠ ['.'])
    {source : String}
    (isSource : source.toList = '-' :: (whole ++ behind ++ [';'])) :
    EndsFormula source
      (.negative (.number (Decimal.Numeral.mk whole (behind.drop 1) 0).value)) := by
  have cut := @pieces_punctuation '-' .minus rfl (whole ++ behind ++ [';'])
  rw [@pieces_number whole behind [';'] text further (by simp),
    @pieces_punctuation ';' .semicolon rfl [], pieces_nil, ← isSource] at cut
  refine ⟨errors_eq_nil_of_sound (by rw [cut]; simp [Shape.Sound]), ?_⟩
  have tokens := unplaced_tokens_scan source
  rw [cut] at tokens
  obtain ⟨minus, rest, split, isMinus, later⟩ := List.map_eq_cons_iff.mp tokens
  obtain ⟨number, rest, rfl, isNumber, later⟩ := List.map_eq_cons_iff.mp later
  obtain ⟨semicolon, none, rfl, isSemicolon, nothing⟩ :=
    List.map_eq_cons_iff.mp later
  obtain rfl := List.map_eq_nil_iff.mp nothing
  have literal :=
    (congrArg Token.literal isNumber).trans (literalOf_number text further)
  exact ⟨[minus, number], semicolon, split,
    .product (.signed (.negative (congrArg Token.kind isMinus)
      (.atom (.number (congrArg Token.kind isNumber) literal)))),
    congrArg Token.kind isSemicolon⟩

end Scans

end Lexer

/-- The display of a number is a text of a program that stands for the number. -/
structure PrintsBack
    (quantity : Float) :
    Prop where
  /-- Without a sign, the display is one token and nothing else. -/
  scanned :
    Decimal.Notation.isNegative quantity.toBits = false →
      Lexer.scan (Value.number quantity).display =
        { stream :=
            { tokens :=
                [⟨.number, (Value.number quantity).display, .number quantity, 1, 0⟩]
              finish := ⟨1, (Value.number quantity).display.length⟩ }
          errors := [] }
  printed :
    ∀ (session : Session) (budget : Nat),
      ∃ run,
        session.run? budget ("print " ++ (Value.number quantity).display ++ ";") =
          some run ∧
          run.status = .ok ∧
            run.output = [(Value.number quantity).display] ∧
              run.faults = []

/--
A finite number that is displayed without an exponent prints back. A sign in front
is an operation, which gives the sign back.
-/
theorem printsBack_of_no_exponent
    {quantity : Float}
    (finite : quantity.isFinite = true)
    (noExponent : 'e' ∉ (Value.number quantity).display.toList) :
    PrintsBack quantity := by
  obtain ⟨text, numeral, displays⟩ := Decimal.exists_displays finite
  have display := displays.display
  have value := displays.value
  have plainText : 'e' ∉ text := by
    intro letter
    rw [display] at noExponent
    split at noExponent
    · exact noExponent (List.mem_cons_of_mem _ letter)
    · exact noExponent letter
  cases displays.spells with
  | scientific => exact (plainText (by simp)).elim
  | @plain whole behind isText further =>
      constructor
      · intro positive
        rw [positive] at display value
        have isDisplay :
            (Value.number quantity).display = String.ofList (whole ++ behind) :=
          String.toList_injective (by rw [display, String.toList_ofList]; rfl)
        have scanned := Lexer.scan_number isText further
        have same : (Decimal.Numeral.mk whole (behind.drop 1) 0).value = quantity :=
          value.symm
        rw [same, ← isDisplay] at scanned
        rw [scanned, ← String.length_toList, display]
        rfl
      · intro session budget
        have ends :
            ∃ formula,
              EndsFormula ((Value.number quantity).display ++ ";") formula ∧
                formula.zeroDivision? = none ∧ formula.value = quantity := by
          split at value
          · next negative =>
              rw [if_pos negative] at display
              exact ⟨_, Lexer.endsFormula_negative isText further
                (by rw [String.toList_append, display]; rfl), rfl, value.symm⟩
          · next positive =>
              rw [if_neg positive] at display
              exact ⟨_, Lexer.endsFormula_number isText further
                (by rw [String.toList_append, display]; rfl), rfl, value.symm⟩
        obtain ⟨formula, holds, noDivision, same⟩ := ends
        obtain ⟨run, ran, calculates⟩ := holds.exists_run session budget
        have finished := calculates.finished noDivision
        rw [same] at finished
        exact ⟨run, by rwa [String.append_assoc], finished⟩

/-- Zero with a sign, which is displayed with it. -/
theorem printsBack_of_negative_zero :
    (Value.number (-0.0)).display = "-0" ∧ PrintsBack (-0.0) := by
  have display : (Value.number (-0.0)).display = "-0" := by decide +kernel
  refine ⟨display, printsBack_of_no_exponent (by decide +kernel) ?_⟩
  rw [display]
  decide

end Lox
