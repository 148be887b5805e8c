import Lox.Proofs.Decimal.Notation
import Lox.Proofs.Decimal.Shortest
import Lox.Proofs.Text.Atom

namespace Lox.Decimal

/-!
# Displayed numbers are read back

The text of a number is that of its magnitude with a sign in front.  Main
statement: reading the text of a number gives that number again, so
different numbers have different texts.
-/

open Float.Model.UnpackedFloat (Sign)

/-- The decimal that is written for a stored number is rounded to that number. -/
theorem Binary.Stored.value_of_shortest
    {number : Binary}
    (stored : number.Stored)
    {numeral : Numeral}
    (exact : numeral.exact = number.shortest.value) :
    numeral.value =
      .ofModel (.pack
        (.finite .positive number.significand number.exponent
          stored.positive)) := by
  have reads := number.readsBack_shortest
  rw [← exact, Numeral.exact] at reads
  have more := pos_of_readsBack stored.positive reads
  have positive : 0 < wholeNumber (numeral.whole ++ numeral.fraction) := by
    refine Nat.pos_of_ne_zero fun none => ?_
    rw [none, Nat.cast_zero, zero_mul] at more
    exact more.false
  exact stored.ofScientific_eq positive reads

/-- What a finite number is displayed as: a numeral, with the sign in front. -/
structure Displays
    (quantity : Float)
    (text : List Char)
    (numeral : Numeral) :
    Prop where
  spells : Spells text numeral
  display :
    (Value.number quantity).display.toList =
      if Notation.isNegative quantity.toBits then '-' :: text else text
  value :
    quantity =
      if Notation.isNegative quantity.toBits then -numeral.value else numeral.value

/-- The display of a number that is neither undefined nor infinite. -/
theorem display_of_finite
    {quantity : Float}
    (isNumber : quantity.isNaN = false)
    (bounded : quantity.isInf = false) :
    (Value.number quantity).display.toList =
      if Notation.isNegative quantity.toBits then
        '-' :: Value.wholeText (standard.magnitudeText quantity.toBits)
      else
        Value.wholeText (standard.magnitudeText quantity.toBits) := by
  rw [Value.display, String.toList_ofList, Notation.characters, isNumber, bounded]
  split
  · next undefined => cases undefined
  · dsimp only
    split
    · exact wholeText_negative _
    · rfl

/-- Every finite number is displayed as a numeral that is read as its magnitude. -/
theorem exists_displays
    {quantity : Float}
    (finite : quantity.isFinite = true) :
    ∃ text numeral, Displays quantity text numeral := by
  obtain ⟨unpacked, canonical, rfl⟩ := exists_canonical quantity
  have found := canonical.unpack_pack
  have isNumber : (Float.ofModel (.pack unpacked)).isNaN = unpacked.isNaN :=
    congrArg _ found
  have bounded : (Float.ofModel (.pack unpacked)).isInf = unpacked.isInf :=
    congrArg _ found
  have isFinite : unpacked.isFinite = true := (congrArg _ found).symm.trans finite
  cases canonical with
  | undefined => cases isFinite
  | infinite => cases isFinite
  | zero sign =>
      have zero : Spells ['0'] ⟨['0'], [], 0⟩ :=
        @Spells.plain ['0'] [] ⟨by simp, by simp, .inl rfl⟩ (by simp)
      refine ⟨['0'], ⟨['0'], [], 0⟩, zero, ?_, ?_⟩
      · rw [display_of_finite isNumber bounded]
        cases sign <;> decide +kernel
      · cases sign <;> decide +kernel
  | @stored sign number stored =>
      have formed := @Digits.formed_ofMultiple number.shortest
      obtain ⟨numeral, spells, exact⟩ := exists_spells_layOut formed
      rw [Digits.value_ofMultiple] at exact
      have value := stored.value_of_shortest exact
      refine ⟨_, numeral, spells, ?_, ?_⟩
      · rw [display_of_finite isNumber bounded, Notation.magnitudeText,
          stored.ofBits_pack sign, if_neg stored.positive.ne']
      · cases sign with
        | positive =>
            rw [if_neg (by simp [stored.isNegative_pack]), value]
        | negative =>
            rw [if_pos (by simp [stored.isNegative_pack]), value,
              (Canonical.stored .positive stored).neg_pack]
            rfl

/-- A number that is not finite is displayed as a word. -/
theorem display_of_not_finite
    {quantity : Float}
    (notFinite : quantity.isFinite = false) :
    (Value.number quantity).display ∈ ["nan", "inf", "-inf"] ∧
      read? (Value.number quantity).display = some quantity := by
  obtain ⟨unpacked, canonical, rfl⟩ := exists_canonical quantity
  have found := canonical.unpack_pack
  have isFinite : unpacked.isFinite = false :=
    (congrArg _ found).symm.trans notFinite
  cases canonical with
  | undefined => decide +kernel
  | infinite sign => cases sign <;> decide +kernel
  | zero => cases isFinite
  | stored => cases isFinite

/-- A text that starts with a digit is read as a numeral. -/
theorem magnitude?_of_spells
    {text : List Char}
    {numeral : Numeral}
    (spells : Spells text numeral) :
    magnitude? text = some numeral.value := by
  obtain ⟨first, rest, rfl, digit⟩ := spells.exists_first
  have notWord {word : List Char} (letter : word.head?.any Char.isDigit = false) :
      first :: rest ≠ word := by
    rintro rfl
    rw [List.head?_cons, Option.any_some, digit] at letter
    cases letter
  rw [magnitude?, if_neg (notWord (by decide)), if_neg (notWord (by decide)),
    spells.numeral?_eq, Option.map_some]

/--
Reading the text of a number gives that number again: a digit in front is not taken
for a sign.
-/
theorem read?_display
    (quantity : Float) :
    read? (Value.number quantity).display = some quantity := by
  cases finite : quantity.isFinite with
  | false => exact (display_of_not_finite finite).2
  | true =>
      obtain ⟨text, numeral, displays⟩ := exists_displays finite
      have magnitude := magnitude?_of_spells displays.spells
      have value := displays.value
      unfold read?
      rw [displays.display]
      split at value
      · next negative =>
          rw [if_pos negative, value]
          exact congrArg (Option.map fun number => -number) magnitude
      · next positive =>
          rw [if_neg positive]
          obtain ⟨first, rest, rfl, digit⟩ := displays.spells.exists_first
          split
          · next shape =>
              obtain ⟨rfl, -⟩ := List.cons_eq_cons.mp shape
              exact absurd digit (by decide)
          · rw [magnitude, ← value]

end Lox.Decimal

namespace Lox.Value

open Lox.Decimal

/-- Different numbers are displayed differently. -/
theorem display_number_injective
    {quantity other : Float}
    (same : (Value.number quantity).display = (Value.number other).display) :
    quantity = other := by
  have reads := read?_display quantity
  rw [same, read?_display other] at reads
  exact (Option.some.inj reads).symm

/-- The display of a finite number starts with a digit or with its sign. -/
theorem startsName_display_number
    {quantity : Float}
    (finite : quantity.isFinite = true) :
    ∃ first rest, (Value.number quantity).display.toList = first :: rest ∧
      (first.isDigit = true ∨ first = '-') := by
  obtain ⟨text, numeral, displays⟩ := exists_displays finite
  rw [displays.display]
  split
  · exact ⟨_, _, rfl, .inr rfl⟩
  · obtain ⟨first, rest, shape, digit⟩ := displays.spells.exists_first
    exact ⟨first, rest, shape, .inl digit⟩

/-- The display of a number is not empty and holds no delimiter. -/
theorem bare_display_number
    (quantity : Float) :
    Text.Bare (Value.number quantity).display.toList := by
  cases finite : quantity.isFinite with
  | false =>
      have words : ∀ word ∈ ["nan", "inf", "-inf"], Text.Bare word.toList := by
        decide
      exact words _ (display_of_not_finite finite).1
  | true =>
      obtain ⟨first, rest, shape, -⟩ := startsName_display_number finite
      obtain ⟨text, numeral, displays⟩ := exists_displays finite
      have inside : ∀ character ∈ text, character ∉ Text.delimiters := by
        intro character member delimits
        have sign := displays.spells.mem_cases character member
        simp only [Text.delimiters, List.mem_cons, List.not_mem_nil,
          or_false] at delimits
        rcases delimits with rfl | rfl | rfl | rfl | rfl
        all_goals exact absurd sign (by decide)
      refine ⟨by rw [shape]; exact List.cons_ne_nil _ _, ?_⟩
      rw [displays.display]
      split
      · exact List.forall_mem_cons.mpr ⟨by decide, inside⟩
      · exact inside

/-- No number is displayed as a word for another value. -/
theorem display_number_not_mem
    (quantity : Float) :
    (Value.number quantity).display ∉ ["nil", "true", "false"] := by
  intro listed
  cases finite : quantity.isFinite with
  | false =>
      have words :
          ∀ word ∈ ["nan", "inf", "-inf"], word ∉ ["nil", "true", "false"] := by
        decide
      exact words _ (display_of_not_finite finite).1 listed
  | true =>
      obtain ⟨first, rest, shape, start⟩ := startsName_display_number finite
      have letters : ∀ word ∈ ["nil", "true", "false"],
          word.toList.head?.any (fun first => first.isDigit || first == '-') =
            false := by
        decide
      have letter := letters _ listed
      rw [shape, List.head?_cons, Option.any_some] at letter
      rcases start with digit | rfl
      · rw [digit, Bool.true_or] at letter
        cases letter
      · rw [beq_self_eq_true, Bool.or_true] at letter
        cases letter

end Lox.Value
