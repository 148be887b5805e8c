import Mathlib.Data.List.Basic

namespace Lox.Text

/-!
# Texts that are read back

An atom ends where it is clear that it does: behind its closing quote, or in
front of the first character that it cannot hold.  So a text can only be
taken apart in one way into an atom and what stands behind it, and by
induction also into a row of such pieces.
-/

/-- What delimits bare atoms. -/
def delimiters :
    List Char :=
  [' ', '(', ')', '"', '\n']

/-- A text that holds something, but no delimiter. -/
def Bare
    (text : List Char) :
    Prop :=
  text ≠ [] ∧ ∀ character ∈ text, character ∉ delimiters

/-- The characters of the text are tried, not all there are. -/
instance decidableBare
    (text : List Char) :
    Decidable (Bare text) :=
  decidable_of_iff (text ≠ [] ∧ text.all (· ∉ delimiters) = true) (by simp [Bare])

/-- A quoted text without a quote inside, or a bare one. -/
inductive Atom : List Char → Prop where
  | quoted
      {body : List Char} :
      '"' ∉ body →
      Atom ('"' :: (body ++ ['"']))
  | bare
      {text : List Char} :
      Bare text →
      Atom text

/-- What stands behind an atom: nothing, or a delimiter. -/
def Delimited
    (behind : List Char) :
    Prop :=
  ∀ character ∈ behind.head?, character ∈ delimiters

theorem delimited_cons
    {delimiter : Char}
    (delimits : delimiter ∈ delimiters)
    (behind : List Char) :
    Delimited (delimiter :: behind) := by
  simpa [Delimited] using delimits

/--
Texts up to the first character of a kind are
equal if texts with more behind them are.
-/
theorem append_cancel_of_stop
    (test : Char → Prop)
    {text other behind behind' : List Char}
    (inside : ∀ character ∈ text, ¬ test character)
    (otherInside : ∀ character ∈ other, ¬ test character)
    (stops : ∀ character ∈ behind.head?, test character)
    (stops' : ∀ character ∈ behind'.head?, test character)
    (same : text ++ behind = other ++ behind') :
    text = other ∧ behind = behind' := by
  induction text generalizing other with
  | nil =>
      cases other with
      | nil => exact ⟨rfl, same⟩
      | cons first rest =>
          have starts : behind.head? = some first := by
            rw [List.nil_append] at same
            rw [same]
            rfl
          exact (otherInside first List.mem_cons_self (stops first starts)).elim
  | cons first rest inductionHypothesis =>
      cases other with
      | nil =>
          have starts : behind'.head? = some first := by
            rw [List.nil_append] at same
            rw [← same]
            rfl
          exact (inside first List.mem_cons_self (stops' first starts)).elim
      | cons otherFirst otherRest =>
          obtain ⟨rfl, more⟩ := List.cons_eq_cons.mp same
          obtain ⟨rfl, sameBehind⟩ := inductionHypothesis
            (List.forall_mem_cons.mp inside).2
              (List.forall_mem_cons.mp otherInside).2 more
          exact ⟨rfl, sameBehind⟩

namespace Atom

variable {text other behind behind' : List Char}

theorem ne_nil
    (atom : Atom text) :
    text ≠ [] := by
  cases atom with
  | quoted => exact List.cons_ne_nil _ _
  | bare isBare => exact isBare.1

/--
The first character of a bare atom is no
delimiter, and that of a quoted one a quote.
-/
theorem head_ne
    (atom : Atom text)
    {delimiter : Char}
    (delimits : delimiter ∈ delimiters)
    (noQuote : delimiter ≠ '"')
    (same : text ++ behind = delimiter :: behind') :
    False := by
  cases atom with
  | quoted => exact noQuote (List.cons_eq_cons.mp same).1.symm
  | bare isBare =>
      obtain ⟨first, rest, rfl⟩ := List.exists_cons_of_ne_nil isBare.1
      obtain ⟨rfl, -⟩ := List.cons_eq_cons.mp same
      exact isBare.2 first List.mem_cons_self delimits

/-- A text starts with one atom in front of a delimiter. -/
theorem cut
    (atom : Atom text)
    (otherAtom : Atom other)
    (delimited : Delimited behind)
    (delimited' : Delimited behind')
    (same : text ++ behind = other ++ behind') :
    text = other ∧ behind = behind' := by
  cases atom with
  | @quoted body noQuote =>
      cases otherAtom with
      | @quoted otherBody otherNoQuote =>
          have inner : body ++ '"' :: behind = otherBody ++ '"' :: behind' := by
            simpa using same
          obtain ⟨rfl, sameBehind⟩ := append_cancel_of_stop (· = '"')
            (fun character member quote => noQuote (quote ▸ member))
            (fun character member quote => otherNoQuote (quote ▸ member))
              (by simp) (by simp) inner
          exact ⟨rfl, (List.cons_eq_cons.mp sameBehind).2⟩
      | bare isBare =>
          obtain ⟨first, rest, rfl⟩ := List.exists_cons_of_ne_nil isBare.1
          obtain ⟨rfl, -⟩ := List.cons_eq_cons.mp same
          exact (isBare.2 '"' List.mem_cons_self (by decide)).elim
  | bare isBare =>
      cases otherAtom with
      | quoted =>
          obtain ⟨first, rest, rfl⟩ := List.exists_cons_of_ne_nil isBare.1
          obtain ⟨rfl, -⟩ := List.cons_eq_cons.mp same
          exact (isBare.2 '"' List.mem_cons_self (by decide)).elim
      | bare otherIsBare =>
          exact append_cancel_of_stop (· ∈ delimiters) isBare.2 otherIsBare.2
            delimited delimited' same

end Atom

section Rows

variable {α β : Type} {piece : α → List Char} {key : α → β}
  {Inner End : List Char → Prop} {items others : List α}
    {behind behind' : List Char}

/--
Rows of pieces are taken apart in one way if each piece is, in front of what can
stand behind it: another piece of its row, or what ends a row, which is no piece. In
a row, that is the rest of the row.
-/
theorem append_cancel_of_pieces
    (ends : ∀ {behind}, End behind → Inner behind)
    (starts : ∀ item ∈ items ++ others, ∀ behind, Inner (piece item ++ behind))
    (apart : ∀ item ∈ items ++ others, ∀ behind, ¬ End (piece item ++ behind))
    (cut : ∀ item ∈ items, ∀ other ∈ others, ∀ behind behind',
      Inner behind → Inner behind' → piece item ++ behind = piece other ++ behind' →
        key item = key other ∧ behind = behind')
    (isEnd : End behind)
    (isEnd' : End behind')
    (same : items.flatMap piece ++ behind = others.flatMap piece ++ behind') :
    items.map key = others.map key ∧ behind = behind' := by
  have inner (row : List α) (within : ∀ item ∈ row, item ∈ items ++ others)
      {behind : List Char} (isEnd : End behind) :
        Inner (row.flatMap piece ++ behind) := by
    cases row with
    | nil => exact ends isEnd
    | cons item rest =>
        rw [List.flatMap_cons, List.append_assoc]
        exact starts item (within item List.mem_cons_self) _
  induction items generalizing others with
  | nil =>
      cases others with
      | nil => exact ⟨rfl, same⟩
      | cons other rest =>
          rw [List.flatMap_nil, List.nil_append, List.flatMap_cons,
            List.append_assoc] at same
          exact (apart other (by simp) _ (same ▸ isEnd)).elim
  | cons item rest inductionHypothesis =>
      cases others with
      | nil =>
          rw [List.flatMap_nil, List.nil_append, List.flatMap_cons,
            List.append_assoc] at same
          exact (apart item (by simp) _ (same ▸ isEnd')).elim
      | cons other otherRest =>
          rw [List.flatMap_cons, List.flatMap_cons, List.append_assoc,
            List.append_assoc] at same
          obtain ⟨sameKey, sameRest⟩ :=
            cut item List.mem_cons_self other List.mem_cons_self _ _
            (inner rest (by simp +contextual) isEnd)
            (inner otherRest (by simp +contextual) isEnd') same
          have within : ∀ inRow ∈ rest ++ otherRest,
              inRow ∈ item :: rest ++ other :: otherRest := by
            simp only [List.mem_append, List.mem_cons]
            tauto
          obtain ⟨sameKeys, sameBehind⟩ := inductionHypothesis
            (fun inRow member => starts inRow (within inRow member))
            (fun inRow member => apart inRow (within inRow member))
            (fun inRow member other otherMember =>
              cut inRow (List.mem_cons_of_mem item member) other
                (List.mem_cons_of_mem _ otherMember))
            sameRest
            (fun row inRest => inner row fun inRow member =>
              within inRow (inRest inRow member))
          refine ⟨?_, sameBehind⟩
          rw [List.map_cons, List.map_cons, sameKey, sameKeys]

end Rows

end Lox.Text
