import Lox.Decimal.Numeral
import Lox.Proofs.Token.Literal
import Lox.Value
import Mathlib.Algebra.Order.Field.Rat
import Mathlib.Tactic.Linarith
import Mathlib.Tactic.NormNum
import Mathlib.Tactic.Ring

namespace Lox.Decimal

/-!
# Notations keep the value

Digits are laid out with a point or with an exponent, and a point with
a zero behind it is left out.  Main statement: what is laid out is
read as a numeral of the same exact value.
-/

theorem wholeNumber_eq
    (digits : List Char) :
    wholeNumber digits = Nat.ofDigitChars 10 digits 0 :=
  Nat.ofDigitChars_eq_foldl.symm

/--
The number of digits in a row is that of the front ones, shifted, and of the others.
-/
theorem wholeNumber_append
    (front back : List Char) :
    wholeNumber (front ++ back) =
      10 ^ back.length * wholeNumber front + wholeNumber back := by
  rw [wholeNumber_eq, wholeNumber_eq, wholeNumber_eq, Nat.ofDigitChars_append,
    Nat.ofDigitChars_eq_ofDigitChars_zero]

/-- Zeros in a row make zero. -/
@[simp] theorem wholeNumber_zeros
    (count : Nat) :
    wholeNumber (List.replicate count '0') = 0 := by
  rw [wholeNumber_eq, Nat.ofDigitChars_replicate_zero, mul_zero]

/-- Zeros behind the digits multiply by ten. -/
theorem wholeNumber_append_zeros
    (digits : List Char)
    (count : Nat) :
    wholeNumber (digits ++ List.replicate count '0') =
      10 ^ count * wholeNumber digits := by
  rw [wholeNumber_append, wholeNumber_zeros, List.length_replicate, Nat.add_zero]

/-- Zeros in front of the digits do not count. -/
theorem wholeNumber_zeros_append
    (count : Nat)
    (digits : List Char) :
    wholeNumber (List.replicate count '0' ++ digits) = wholeNumber digits := by
  rw [wholeNumber_append, wholeNumber_zeros, mul_zero, Nat.zero_add]

/-- The digits of a number make the number. -/
@[simp] theorem wholeNumber_toDigits
    (number : Nat) :
    wholeNumber (Nat.toDigits 10 number) = number := by
  rw [wholeNumber_eq, Nat.ofDigitChars_ten_toDigits]

/-- The exact value of a numeral, before it is rounded. -/
def Numeral.exact
    (numeral : Numeral) :
    Rat :=
  wholeNumber (numeral.whole ++ numeral.fraction) *
    (10 : Rat) ^ (numeral.exponent - numeral.fraction.length)

/--
A text of digits, a point with digits or none, and an exponent with a sign or none.
-/
inductive Spells : List Char → Numeral → Prop where
  | plain
      {whole behind : List Char} :
      Lexer.NumberText whole behind →
      behind ≠ ['.'] →
      Spells (whole ++ behind) ⟨whole, behind.drop 1, 0⟩
  | scientific
      {whole behind power : List Char}
      {exponent : Int} :
      Lexer.NumberText whole behind →
      power ≠ [] →
      (∀ character ∈ power, character.isDigit = true) →
      wholeNumber power = exponent.natAbs →
      Spells
        (whole ++ (behind ++ 'e' :: (if exponent < 0 then '-' else '+') :: power))
        ⟨whole, behind.drop 1, exponent⟩

/--
A number text is taken apart where it ends, in front of nothing or an exponent. The
digits in front stop at the point, or without one at the tail.
-/
theorem numeral?_append
    {whole behind : List Char}
    (text : Lexer.NumberText whole behind)
    (tail : List Char) :
    tail = [] ∨ tail.head? = some 'e' → numeral? (whole ++ (behind ++ tail)) =
      match tail with
      | [] => some ⟨whole, behind.drop 1, 0⟩
      | 'e' :: exponent =>
          (signedWhole? exponent).map fun power => ⟨whole, behind.drop 1, power⟩
      | _ => none := by
  intro stops
  have nonempty : whole.isEmpty = false := by simpa using text.nonempty
  have stopped :
      tail.takeWhile Char.isDigit = [] ∧ tail.dropWhile Char.isDigit = tail := by
    rcases stops with rfl | starts
    · simp
    · obtain ⟨rest, rfl⟩ := List.head?_eq_some_iff.mp starts
      exact ⟨rfl, rfl⟩
  have noPoint : (behind ++ tail).takeWhile Char.isDigit = [] ∧
      (behind ++ tail).dropWhile Char.isDigit = behind ++ tail := by
    rcases text.fraction with rfl | ⟨fraction, rfl, -⟩
    · exact stopped
    · exact ⟨rfl, rfl⟩
  have taken : (whole ++ (behind ++ tail)).takeWhile Char.isDigit = whole := by
    rw [List.takeWhile_append_of_pos text.digits, noPoint.1, List.append_nil]
  have dropped :
      (whole ++ (behind ++ tail)).dropWhile Char.isDigit = behind ++ tail := by
    rw [List.dropWhile_append_of_pos text.digits, noPoint.2]
  unfold numeral?
  dsimp only
  rw [taken, dropped, nonempty]
  rcases text.fraction with rfl | ⟨fraction, rfl, digits⟩
  · rcases stops with rfl | starts
    · rfl
    · obtain ⟨rest, rfl⟩ := List.head?_eq_some_iff.mp starts
      rfl
  · have further : (fraction ++ tail).takeWhile Char.isDigit = fraction := by
      rw [List.takeWhile_append_of_pos digits, stopped.1, List.append_nil]
    have left : (fraction ++ tail).dropWhile Char.isDigit = tail := by
      rw [List.dropWhile_append_of_pos digits, stopped.2]
    simp only [List.cons_append, further, left]
    rcases stops with rfl | starts
    · rfl
    · obtain ⟨rest, rfl⟩ := List.head?_eq_some_iff.mp starts
      rfl

namespace Spells

variable {text : List Char} {numeral : Numeral}

/-- What spells a numeral is read as that numeral. -/
theorem numeral?_eq
    (spells : Spells text numeral) :
    numeral? text = some numeral := by
  cases spells with
  | @plain whole behind isText _ =>
      have read := numeral?_append isText [] (.inl rfl)
      rwa [List.append_nil] at read
  | @scientific whole behind power exponent isText nonempty digits size =>
      have run : (!power.isEmpty && power.all Char.isDigit) = true := by
        rw [Bool.and_eq_true, List.all_eq_true]
        exact ⟨by simpa using nonempty, digits⟩
      have read :
          signedWhole? ((if exponent < 0 then '-' else '+') :: power) =
            some exponent := by
        split
        · simp only [signedWhole?, run, if_true, size]
          exact congrArg some (show -(exponent.natAbs : Int) = exponent by omega)
        · simp only [signedWhole?, run, if_true, size]
          exact congrArg some (show (exponent.natAbs : Int) = exponent by omega)
      rw [numeral?_append isText _ (.inr rfl)]
      exact congrArg
        (Option.map fun power => Numeral.mk whole (behind.drop 1) power) read

/-- A numeral starts with a digit. -/
theorem exists_first
    (spells : Spells text numeral) :
    ∃ first rest, text = first :: rest ∧ first.isDigit = true := by
  have starts {whole behind : List Char}
      (isText : Lexer.NumberText whole behind)
      (rest : List Char) :
      ∃ first more, whole ++ rest = first :: more ∧ first.isDigit = true := by
    obtain ⟨first, others, rfl⟩ := List.exists_cons_of_ne_nil isText.nonempty
    exact ⟨first, others ++ rest, rfl, isText.digits first List.mem_cons_self⟩
  cases spells with
  | plain isText _ => exact starts isText _
  | scientific isText _ _ _ => exact starts isText _

/--
A numeral holds digits, a point, the sign of an exponent and the letter for it.
-/
theorem mem_cases
    (spells : Spells text numeral) :
    ∀ character ∈ text,
      character.isDigit = true ∨ character ∈ ['.', 'e', '-', '+'] := by
  have inside {whole behind : List Char}
      (isText : Lexer.NumberText whole behind)
      {character : Char}
      (member : character ∈ whole ++ behind) :
      character.isDigit = true ∨ character = '.' := by
    rcases List.mem_append.mp member with inWhole | inBehind
    · exact .inl (isText.digits character inWhole)
    · rcases isText.fraction with rfl | ⟨fraction, rfl, digits⟩
      · cases inBehind
      · rcases List.mem_cons.mp inBehind with point | inFraction
        · exact .inr point
        · exact .inl (digits character inFraction)
  intro character member
  cases spells with
  | plain isText _ =>
      rcases inside isText member with digit | point
      · exact .inl digit
      · exact .inr (by simp [point])
  | @scientific whole behind power exponent isText _ digits _ =>
      rw [← List.append_assoc, List.mem_append, List.mem_cons,
        List.mem_cons] at member
      rcases member with inText | letter | sign | inPower
      · rcases inside isText inText with digit | point
        · exact .inl digit
        · exact .inr (by simp [point])
      · exact .inr (by simp [letter])
      · refine .inr ?_
        rw [sign]
        split <;> decide
      · exact .inl (digits character inPower)

end Spells

namespace Digits

/-- Digits hold digits only. -/
structure Formed
    (digits : Digits) :
    Prop where
  first : digits.first.isDigit = true
  others : ∀ character ∈ digits.others, character.isDigit = true

/-- The exact value of digits. -/
def value
    (digits : Digits) :
    Rat :=
  wholeNumber (digits.first :: digits.others) *
    (10 : Rat) ^ (digits.leading - digits.others.length)

/-- Digits without the zeros at their end, and those zeros. -/
theorem exists_trailing_zeros
    (digits : List Char) :
    ∃ count,
      digits = (digits.reverse.dropWhile (· == '0')).reverse ++
        List.replicate count '0' := by
  refine ⟨(digits.reverse.takeWhile (· == '0')).length, ?_⟩
  have zeros :
      digits.reverse.takeWhile (· == '0') =
        List.replicate (digits.reverse.takeWhile (· == '0')).length '0' := by
    refine List.eq_replicate_of_mem fun character member => ?_
    simpa using List.mem_takeWhile_imp member
  rw [← List.reverse_replicate, ← zeros, ← List.reverse_append,
    List.takeWhile_append_dropWhile, List.reverse_reverse]

variable {multiple : Multiple}

/-- The digits of a multiple are formed. -/
theorem formed_ofMultiple :
    (ofMultiple multiple).Formed := by
  have digits :
      ∀ character ∈ Nat.toDigits 10 multiple.count, character.isDigit = true :=
    fun character member => Nat.isDigit_of_mem_toDigits (by decide) le_rfl member
  unfold ofMultiple
  split
  · exact ⟨rfl, nofun⟩
  · next first others written =>
      rw [written] at digits
      obtain ⟨firstDigit, otherDigits⟩ := List.forall_mem_cons.mp digits
      refine ⟨firstDigit, fun character member => otherDigits character ?_⟩
      rw [List.mem_reverse] at member
      exact List.mem_reverse.mp ((List.dropWhile_suffix _).subset member)

/--
Leaving out zeros at the end keeps the value: they come back as a power of ten.
-/
theorem value_ofMultiple :
    (ofMultiple multiple).value = multiple.value := by
  have whole := wholeNumber_toDigits multiple.count
  unfold ofMultiple
  split
  · next written => exact (Nat.toDigits_ne_nil written).elim
  · next first others written =>
      obtain ⟨count, zeros⟩ := exists_trailing_zeros others
      obtain ⟨kept, isKept⟩ :
          ∃ kept, kept = (others.reverse.dropWhile (· == '0')).reverse :=
        ⟨_, rfl⟩
      rw [← isKept] at zeros
      rw [written, zeros, ← List.cons_append, wholeNumber_append_zeros] at whole
      rw [value, Multiple.value, ← isKept, ← whole, zeros, List.length_append,
        List.length_replicate, Nat.cast_mul, Nat.cast_pow,
        Nat.cast_add, ← zpow_natCast]
      have power :
          (10 : Rat) ^ (multiple.unit + (kept.length + count : Int) - kept.length) =
            10 ^ (count : Int) * 10 ^ multiple.unit := by
        rw [← zpow_add₀ (by norm_num)]
        congr 1
        omega
      rw [power]
      push_cast
      ring

variable {digits : Digits}

/-- A text with a point and a fraction behind it that has the value of digits. -/
def HasPoint
    (digits : Digits)
    (text : List Char) :
    Prop :=
  ∃ whole fraction,
    text = whole ++ '.' :: fraction ∧
      Lexer.NumberText whole ('.' :: fraction) ∧ fraction ≠ [] ∧
      (wholeNumber (whole ++ fraction) * (10 : Rat) ^ (-(fraction.length : Int))) =
        digits.value

/-- The digits do not reach the point: zeros stand in between. -/
theorem hasPoint_of_long
    (formed : digits.Formed)
    (nonnegative : 0 ≤ digits.leading)
    (long : digits.others.length ≤ digits.leading.toNat) :
    digits.HasPoint digits.positional := by
  refine ⟨digits.first :: digits.others ++
    List.replicate (digits.leading.toNat - digits.others.length) '0',
    ['0'], ?_, ⟨by simp, ?_,
      .inr ⟨_, rfl, by simp⟩⟩, by simp, ?_⟩
  · rw [positional, if_pos nonnegative]
    simp only [splitWhole, List.take_of_length_le long, List.drop_of_length_le long]
    rfl
  · intro character member
    simp only [List.cons_append, List.mem_cons, List.mem_append,
      List.mem_replicate] at member
    rcases member with rfl | inOthers | ⟨-, rfl⟩
    · exact formed.first
    · exact formed.others character inOthers
    · rfl
  · have power :
        (10 : Rat) ^ (digits.leading - digits.others.length) =
          10 ^ (digits.leading.toNat - digits.others.length) := by
      rw [← zpow_natCast]
      congr 1
      omega
    rw [wholeNumber_append, wholeNumber_append_zeros, value, power]
    simp only [List.length_cons, List.length_nil,
      show wholeNumber ['0'] = 0 from rfl]
    push_cast
    ring

/-- The point stands between the digits. -/
theorem hasPoint_of_short
    (formed : digits.Formed)
    (nonnegative : 0 ≤ digits.leading)
    (short : digits.leading.toNat < digits.others.length) :
    digits.HasPoint digits.positional := by
  have nonempty : digits.others.drop digits.leading.toNat ≠ [] := by
    simpa using short
  refine ⟨digits.first :: digits.others.take digits.leading.toNat,
    digits.others.drop digits.leading.toNat, ?_,
    ⟨by simp, ?_, .inr ⟨_, rfl, ?_⟩⟩, nonempty, ?_⟩
  · rw [positional, if_pos nonnegative]
    simp only [splitWhole, Nat.sub_eq_zero_of_le short.le, List.replicate_zero,
      List.append_nil, fractionText]
    rw [if_neg (by simpa using nonempty)]
  · intro character member
    rcases List.mem_cons.mp member with rfl | inOthers
    · exact formed.first
    · exact formed.others character (List.mem_of_mem_take inOthers)
  · exact fun character member =>
      formed.others character (List.mem_of_mem_drop member)
  · rw [List.cons_append, List.take_append_drop, value, List.length_drop]
    congr 2
    omega

/-- Zeros stand between the point and the digits. -/
theorem hasPoint_of_small
    (formed : digits.Formed)
    (negative : digits.leading < 0) :
    digits.HasPoint digits.positional := by
  refine ⟨['0'], List.replicate (-digits.leading - 1).toNat '0' ++
    digits.first :: digits.others, ?_,
    ⟨by simp, by simp, .inr ⟨_, rfl, ?_⟩⟩, by simp, ?_⟩
  · rw [positional, if_neg negative.not_ge]
    rfl
  · intro character member
    simp only [List.mem_append, List.mem_replicate, List.mem_cons] at member
    rcases member with ⟨-, rfl⟩ | rfl | inOthers
    · rfl
    · exact formed.first
    · exact formed.others character inOthers
  · have zeros := wholeNumber_zeros_append ((-digits.leading - 1).toNat + 1)
      (digits.first :: digits.others)
    rw [List.replicate_succ, List.cons_append] at zeros
    rw [List.singleton_append, zeros, value]
    congr 2
    simp only [List.length_append, List.length_replicate, List.length_cons]
    omega

/-- The positional form of digits has a point. -/
theorem hasPoint_positional
    (formed : digits.Formed) :
    digits.HasPoint digits.positional := by
  by_cases nonnegative : 0 ≤ digits.leading
  · obtain long | short := le_or_gt digits.others.length digits.leading.toNat
    · exact hasPoint_of_long formed nonnegative long
    · exact hasPoint_of_short formed nonnegative short
  · exact hasPoint_of_small formed (not_le.mp nonnegative)

theorem mem_exponentText
    {width exponent : Nat} :
    ∀ character ∈ exponentText width exponent, character.isDigit = true := by
  intro character member
  rw [exponentText, List.mem_append, List.mem_replicate] at member
  rcases member with ⟨-, rfl⟩ | written
  · rfl
  · exact Nat.isDigit_of_mem_toDigits (by decide) le_rfl written

/-- The text of an exponent makes the exponent, however wide it is. -/
theorem wholeNumber_exponentText
    (width exponent : Nat) :
    wholeNumber (exponentText width exponent) = exponent := by
  rw [exponentText, wholeNumber_zeros_append, wholeNumber_toDigits]

/-- The text of an exponent is as wide as it has to be. -/
theorem length_exponentText
    (width exponent : Nat) :
    width ≤ (exponentText width exponent).length := by
  rw [exponentText, List.length_append, List.length_replicate]
  omega

/-- Scientific notation keeps the value. -/
theorem spells_scientific
    (formed : digits.Formed)
    (width : Nat) :
    ∃ numeral, Spells (digits.scientific width) numeral ∧
      numeral.exact = digits.value := by
  obtain ⟨behind, isBehind⟩ :
      ∃ behind,
        behind = if digits.others.isEmpty then [] else '.' :: digits.others :=
    ⟨_, rfl⟩
  have text : Lexer.NumberText [digits.first] behind := by
    refine ⟨by simp, by simpa using formed.first, ?_⟩
    rw [isBehind]
    split
    · exact .inl rfl
    · exact .inr ⟨_, rfl, formed.others⟩
  have fraction : behind.drop 1 = digits.others := by
    rw [isBehind]
    split
    · next empty => exact (List.isEmpty_iff.mp empty).symm
    · rfl
  have nonempty : exponentText width digits.leading.natAbs ≠ [] := by
    simp [exponentText, Nat.toDigits_ne_nil]
  refine ⟨⟨[digits.first], behind.drop 1, digits.leading⟩, ?_, ?_⟩
  · have spells := Spells.scientific text nonempty mem_exponentText
      (wholeNumber_exponentText width digits.leading.natAbs)
    rw [isBehind] at spells ⊢
    exact spells
  · rw [Numeral.exact, value, fraction]
    rfl

end Digits

/-- A text that does not end in a point and a zero is left whole. -/
theorem wholeText_eq_self
    {text : List Char}
    (keeps : ∀ rest, text.reverse ≠ '0' :: '.' :: rest) :
    Value.wholeText text = text := by
  unfold Value.wholeText
  split
  · next rest shape => exact (keeps rest shape).elim
  · rfl

/-- The sign stays in front of what is left out at the end. -/
theorem wholeText_negative
    (text : List Char) :
    Value.wholeText ('-' :: text) = '-' :: Value.wholeText text := by
  by_cases ends : ∃ rest, text.reverse = '0' :: '.' :: rest
  · obtain ⟨rest, shape⟩ := ends
    simp [Value.wholeText, shape]
  · rw [not_exists] at ends
    rw [wholeText_eq_self ends, wholeText_eq_self]
    intro rest shape
    rw [List.reverse_cons] at shape
    match reversed : text.reverse with
    | [] => simp [reversed] at shape
    | [_] => simp [reversed] at shape
    | first :: second :: more =>
        rw [reversed, List.cons_append, List.cons_append] at shape
        obtain ⟨isZero, behindZero⟩ := List.cons_eq_cons.mp shape
        obtain ⟨isPoint, -⟩ := List.cons_eq_cons.mp behindZero
        exact ends more (by rw [reversed, isZero, isPoint])

/-- A text that ends in two digits has no point to leave out. -/
theorem wholeText_append_digits
    (front : List Char)
    {digits : List Char}
    (several : 2 ≤ digits.length)
    (inside : ∀ character ∈ digits, character.isDigit = true) :
    Value.wholeText (front ++ digits) = front ++ digits := by
  refine wholeText_eq_self fun rest shape => ?_
  match reversed : digits.reverse with
  | [] =>
      rw [List.reverse_eq_nil_iff.mp reversed] at several
      exact absurd several (by decide)
  | [last] =>
      have length := congrArg List.length reversed
      rw [List.length_reverse, List.length_singleton] at length
      omega
  | last :: next :: more =>
      rw [List.reverse_append, reversed, List.cons_append,
        List.cons_append] at shape
      obtain ⟨-, behindLast⟩ := List.cons_eq_cons.mp shape
      obtain ⟨isPoint, -⟩ := List.cons_eq_cons.mp behindLast
      have isDigit : next.isDigit = true := inside next (by
        rw [← List.mem_reverse, reversed]
        simp)
      rw [isPoint] at isDigit
      exact absurd isDigit (by decide)

/-- A fraction of one zero is left out together with its point. -/
theorem wholeText_point
    {whole fraction : List Char}
    (nonempty : fraction ≠ [])
    (digits : ∀ character ∈ fraction, character.isDigit = true) :
    Value.wholeText (whole ++ '.' :: fraction) =
      if fraction = ['0'] then whole else whole ++ '.' :: fraction := by
  split
  · next zero =>
      subst zero
      simp [Value.wholeText]
  · next notZero =>
      match fraction with
      | [] => exact (nonempty rfl).elim
      | [last] =>
          refine wholeText_eq_self fun rest shape => ?_
          rw [List.reverse_append] at shape
          obtain ⟨rfl, -⟩ := List.cons_eq_cons.mp shape
          exact notZero rfl
      | first :: second :: more =>
          have kept := wholeText_append_digits (whole ++ ['.']) (by simp) digits
          rwa [List.append_assoc] at kept

/-- The exponent is not taken for a point and a zero. -/
theorem wholeText_scientific
    (digits : Digits)
    {width : Nat}
    (wide : 2 ≤ width) :
    Value.wholeText (digits.scientific width) = digits.scientific width := by
  have long := Digits.length_exponentText width digits.leading.natAbs
  have shape :
      digits.scientific width =
        (digits.first ::
          ((if digits.others.isEmpty then [] else '.' :: digits.others) ++
          ['e', if digits.leading < 0 then '-' else '+'])) ++
            Digits.exponentText width digits.leading.natAbs := by
    simp [Digits.scientific]
  rw [shape]
  exact wholeText_append_digits _ (by omega) Digits.mem_exponentText

/-- What is displayed for digits spells a numeral of their value. -/
theorem exists_spells_layOut
    {digits : Digits}
    (formed : digits.Formed) :
    ∃ numeral,
      Spells (Value.wholeText (standard.layOut digits)) numeral ∧
        numeral.exact = digits.value := by
  unfold Notation.layOut
  split
  · obtain ⟨whole, fraction, shape, text, nonempty, keeps⟩ :=
      Digits.hasPoint_positional formed
    have inside : ∀ character ∈ fraction, character.isDigit = true := by
      rcases text.fraction with none | ⟨_, same, digits⟩
      · cases none
      · cases same
        exact digits
    rw [shape, wholeText_point nonempty inside]
    split
    · next zero =>
        have plain : Lexer.NumberText whole [] :=
          ⟨text.nonempty, text.digits, .inl rfl⟩
        refine ⟨⟨whole, [], 0⟩, by simpa using Spells.plain plain (by simp), ?_⟩
        rw [← keeps, zero, wholeNumber_append, Numeral.exact]
        simp [show wholeNumber ['0'] = 0 from rfl]
        ring
    · refine ⟨⟨whole, fraction, 0⟩, .plain text (by simpa using nonempty), ?_⟩
      rw [← keeps, Numeral.exact, zero_sub]
  · rw [wholeText_scientific digits (by decide)]
    exact Digits.spells_scientific formed _

end Lox.Decimal
