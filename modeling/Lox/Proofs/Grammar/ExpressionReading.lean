import Lox.Proofs.Grammar.Expression

namespace Lox

namespace Parser

/-!
# Reading expressions

Main statement: exactly the tokens that derive from the grammar of expressions
are read as an expression, and what is read is the tree that they derive as.

Soundness goes up the bound on the depth, one parser at a time.  Completeness
follows the derivation: a phrase is read in front of any token that cannot belong
to it, and for a chain also in front of whatever its last operand goes on with.
-/

open Grammar (Phrase Derives)

section Reading

variable {tokens rest : List Token} {expr : Expr} {operand : Parser Expr}

/-- Go on with a chain behind an operand, as far as there are operators. -/
def chainBehind
    (level : Level)
    (operand : Parser Expr)
    (left : Expr) :
    Parser Expr :=
  fun tokens => chainFrom level operand tokens.length left tokens

/-- A chain stops where no operator follows, or goes on behind one more operand. -/
theorem reads_chainFrom_succ
    {level : Level}
    {count : Nat}
    {left : Expr} :
    Reads (chainFrom level operand (count + 1) left) tokens expr rest ↔
      (¬ StartsIn level.operators tokens ∧ left = expr ∧ tokens = rest) ∨
        ∃ operator behind right between,
          tokens = operator :: behind ∧ operator.kind ∈ level.operators ∧
            Reads operand behind right between ∧
              Reads (chainFrom level operand count (level.node left operator right))
                between expr rest := by
  rw [chainFrom, reads_bind]
  constructor
  · rintro ⟨found, behind, foundReads, nextReads⟩
    cases found with
    | none =>
        obtain ⟨rfl, other⟩ := reads_acceptAny_none.mp foundReads
        obtain ⟨rfl, rfl⟩ := reads_accept.mp nextReads
        exact Or.inl ⟨other, rfl, rfl⟩
    | some operator =>
        obtain ⟨rfl, fits⟩ := reads_acceptAny_some.mp foundReads
        obtain ⟨right, between, operandReads, chainReads⟩ := reads_bind.mp nextReads
        exact Or.inr
          ⟨operator, behind, right, between, rfl, fits, operandReads, chainReads⟩
  · rintro (⟨other, rfl, rfl⟩ | ⟨operator, behind, right, between, rfl, fits,
      operandReads, chainReads⟩)
    · exact ⟨none, tokens, reads_acceptAny_none.mpr ⟨rfl, other⟩,
        reads_accept.mpr ⟨rfl, rfl⟩⟩
    · exact ⟨some operator, behind, reads_acceptAny_some.mpr ⟨rfl, fits⟩,
        reads_bind.mpr ⟨right, between, operandReads, chainReads⟩⟩

/-- All counts of operands beyond the count of tokens read alike. -/
theorem reads_chainFrom_of_enough
    {level : Level}
    (forward : ReadsForward operand)
    {count : Nat}
    (enough : tokens.length ≤ count)
    {left : Expr} :
    Reads (chainFrom level operand count left) tokens expr rest ↔
      Reads (chainBehind level operand left) tokens expr rest :=
  reads_congr
    (agreeBelow_chainFrom level (agreeBelow_refl (tokens.length + 1) operand)
      forward left tokens (Nat.lt_succ_self _) enough (Nat.le_refl _))

/-- A chain is an operand and what is chained behind it. -/
theorem reads_chain
    {level : Level}
    (forward : ReadsForward operand) :
    Reads (chain level operand) tokens expr rest ↔
      ∃ left between, Reads operand tokens left between ∧
        Reads (chainBehind level operand left) between expr rest := by
  have unfolded :
      Reads (chain level operand) tokens expr rest ↔
        Reads (andThen operand (chainFrom level operand tokens.length))
          tokens expr rest :=
    Iff.rfl
  rw [unfolded, reads_andThen]
  refine exists_congr fun left => exists_congr fun between => ?_
  refine and_congr_right fun operandReads => ?_
  exact reads_chainFrom_of_enough forward (operandReads.suffix forward).length_le

/-- In front of a token that is no operator of its level a chain ends. -/
theorem reads_chainBehind_end
    {level : Level}
    {left : Expr}
    (other : ¬ StartsIn level.operators rest) :
    Reads (chainBehind level operand left) rest left rest := by
  cases rest with
  | nil => exact reads_accept.mpr ⟨rfl, rfl⟩
  | cons token behind =>
      exact reads_chainFrom_succ.mpr (Or.inl ⟨other, rfl, rfl⟩)

/-- An operator with its right operand becomes the left operand of what follows. -/
theorem reads_chainBehind_operator
    {level : Level}
    (forward : ReadsForward operand)
    {operator : Token}
    {behind between : List Token}
    {left right : Expr}
    (fits : operator.kind ∈ level.operators)
    (operandReads : Reads operand behind right between)
    (chainReads :
      Reads (chainBehind level operand (level.node left operator right))
        between expr rest) :
    Reads (chainBehind level operand left) (operator :: behind) expr rest := by
  have shorter : between.length ≤ behind.length :=
    (operandReads.suffix forward).length_le
  refine reads_chainFrom_succ.mpr
    (Or.inr ⟨operator, behind, right, between, rfl, fits, operandReads, ?_⟩)
  exact (reads_chainFrom_of_enough forward shorter).mpr chainReads

/-- A sign is read in front of what it applies to. -/
theorem reads_unaryWith_front
    {primary : Parser Expr}
    {operator : Token} :
    operator.kind ∈ frontOperators →
      (Reads (unaryWith primary) (operator :: tokens) expr rest ↔
        ∃ inner, Reads (unaryWith primary) tokens inner rest ∧
          .unary operator inner = expr) := by
  intro fits
  have unfolded :
      unaryWith primary (operator :: tokens) =
        (unaryWith primary tokens).map (.unary operator) := by
    simp [unaryWith, fits]
  constructor
  · rintro ⟨notes, accepted, clean⟩
    rw [unfolded] at accepted
    cases inner : unaryWith primary tokens with
    | rejected error earlier =>
        rw [inner] at accepted
        cases accepted
    | accepted operand behind earlier =>
        rw [inner] at accepted
        cases accepted
        exact ⟨operand, ⟨notes, inner, clean⟩, rfl⟩
  · rintro ⟨inner, ⟨notes, accepted, clean⟩, rfl⟩
    exact ⟨notes, by rw [unfolded, accepted]; rfl, clean⟩

/-- Where no sign stands in front, the operand is read. -/
theorem reads_unaryWith_other
    {primary : Parser Expr}
    (other : ¬ StartsIn frontOperators tokens) :
    Reads (unaryWith primary) tokens expr rest ↔
      Reads primary tokens expr rest := by
  refine reads_congr ?_
  cases tokens with
  | nil => rfl
  | cons token behind =>
      have fits : token.kind ∉ frontOperators := other
      simp [unaryWith, fits]

/-- A grouping is an expression in front of a closing parenthesis. -/
theorem reads_groupWith
    {expression : Parser Expr} :
    Reads (groupWith expression) tokens expr rest ↔
      ∃ inner closing, Reads expression tokens inner (closing :: rest) ∧
        closing.kind = .rightParen ∧ .grouping inner = expr := by
  simp only [groupWith, reads_bind, reads_expect, reads_accept]
  constructor
  · rintro ⟨inner, between, innerReads, closing, behind, ⟨rfl, closes⟩, rfl, rfl⟩
    exact ⟨inner, closing, innerReads, closes, rfl⟩
  · rintro ⟨inner, closing, innerReads, closes, rfl⟩
    exact ⟨inner, closing :: rest, innerReads, closing, rest,
      ⟨rfl, closes⟩, rfl, rfl⟩

/-- Behind a target, either nothing is read or an equals sign and a value. -/
theorem reads_assignmentBehind
    {expression : Parser Expr}
    {target : Expr} :
    Reads (assignmentBehind expression target) tokens expr rest ↔
      (¬ StartsIn [.equal] tokens ∧ target = expr ∧ tokens = rest) ∨
        ∃ equals behind value name,
          tokens = equals :: behind ∧ equals.kind = .equal ∧
            Reads expression behind value rest ∧
              target = .reference name ∧ .assign name value = expr := by
  simp only [assignmentBehind, reads_bind, reads_remaining]
  constructor
  · rintro ⟨place, behind, ⟨rfl, rfl⟩, found, between, foundReads, nextReads⟩
    cases found with
    | none =>
        obtain ⟨rfl, other⟩ := reads_acceptAny_none.mp foundReads
        exact Or.inl ⟨other, reads_accept.mp nextReads⟩
    | some equals =>
        obtain ⟨rfl, fits⟩ := reads_acceptAny_some.mp foundReads
        obtain ⟨value, after, valueReads, finalReads⟩ := reads_bind.mp nextReads
        cases target with
        | reference name =>
            obtain ⟨rfl, rfl⟩ := reads_accept.mp finalReads
            exact Or.inr ⟨equals, between, value, name, rfl,
              List.mem_singleton.mp fits, valueReads, rfl, rfl⟩
        | _ =>
            obtain ⟨_, _, recorded, -⟩ := reads_bind.mp finalReads
            exact (not_reads_recordError recorded).elim
  · rintro (⟨other, rfl, rfl⟩ | ⟨equals, behind, value, name, rfl, fits, valueReads,
      rfl, rfl⟩)
    · exact ⟨tokens, tokens, ⟨rfl, rfl⟩, none, tokens,
        reads_acceptAny_none.mpr ⟨rfl, other⟩, reads_accept.mpr ⟨rfl, rfl⟩⟩
    · exact ⟨equals :: behind, equals :: behind, ⟨rfl, rfl⟩, some equals, behind,
        reads_acceptAny_some.mpr ⟨rfl, List.mem_singleton.mpr fits⟩,
        reads_bind.mpr ⟨value, rest, valueReads, reads_accept.mpr ⟨rfl, rfl⟩⟩⟩

end Reading

/-- What a parser reads without an error derives by a rule. -/
def ReadsOnly
    (parser : Parser α)
    (rule : List Token → α → Prop) :
    Prop :=
  ∀ ⦃tokens value rest⦄, Reads parser tokens value rest →
    ∃ consumed, tokens = consumed ++ rest ∧ rule consumed value

section Soundness

variable {phrase : Phrase} {expression operand : Parser Expr}

/-- The level of a phrase with operators. -/
def levelOf
    (phrase : Phrase) :
    Level :=
  ⟨phrase.operators, phrase.node⟩

/-- A chain lengthens what derives already. -/
theorem derives_of_reads_chainFrom
    (sound : ReadsOnly operand (Derives phrase.operand))
    {count : Nat}
    {before tokens rest : List Token}
    {left expr : Expr}
    (derives : Derives phrase before left)
    (reads :
      Reads (chainFrom (levelOf phrase) operand count left) tokens expr rest) :
    ∃ consumed, tokens = consumed ++ rest ∧
      Derives phrase (before ++ consumed) expr := by
  induction count generalizing before left tokens with
  | zero =>
      obtain ⟨rfl, rfl⟩ := reads_accept.mp reads
      exact ⟨[], rfl, by simpa using derives⟩
  | succ count inductionHypothesis =>
      rcases reads_chainFrom_succ.mp reads with
        ⟨_, rfl, rfl⟩ |
        ⟨operator, behind, right, between, rfl, fits, operandReads, chainReads⟩
      · exact ⟨[], rfl, by simpa using derives⟩
      · obtain ⟨after, rfl, rightDerives⟩ := sound operandReads
        have longer : Derives phrase (before ++ operator :: after)
            (phrase.node left operator right) :=
          .chain derives fits rightDerives
        obtain ⟨consumed, rfl, whole⟩ := inductionHypothesis longer chainReads
        exact ⟨operator :: (after ++ consumed), by simp, by simpa using whole⟩

/--
A chain reads what its phrase derives if its operands read what theirs derive.
-/
theorem readsOnly_chain
    (phrase : Phrase)
    (forward : ReadsForward operand)
    (sound : ReadsOnly operand (Derives phrase.operand))
    (below : phrase ≠ .primary) :
    ReadsOnly (chain (levelOf phrase) operand) (Derives phrase) := by
  intro tokens expr rest reads
  obtain ⟨left, between, operandReads, chainReads⟩ := (reads_chain forward).mp reads
  obtain ⟨before, rfl, leftDerives⟩ := sound operandReads
  obtain ⟨consumed, rfl, derives⟩ :=
    derives_of_reads_chainFrom sound (.single below leftDerives) chainReads
  exact ⟨before ++ consumed, by simp, derives⟩

/-- A primary expression that is read derives. -/
theorem readsOnly_primaryWith
    (sound : ReadsOnly expression (Derives .assignment)) :
    ReadsOnly (primaryWith expression) (Derives .primary) := by
  intro tokens expr rest reads
  obtain ⟨notes, accepted, clean⟩ := reads
  cases tokens with
  | nil => cases accepted
  | cons token behind =>
      simp only [primaryWith] at accepted
      split at accepted
      case h_1 kind =>
        cases accepted
        exact ⟨[token], rfl, .falseLiteral kind⟩
      case h_2 kind =>
        cases accepted
        exact ⟨[token], rfl, .trueLiteral kind⟩
      case h_3 kind =>
        cases accepted
        exact ⟨[token], rfl, .nilLiteral kind⟩
      case h_4 kind =>
        cases accepted
        exact ⟨[token], rfl, .literal (by simp [kind])⟩
      case h_5 kind =>
        cases accepted
        exact ⟨[token], rfl, .literal (by simp [kind])⟩
      case h_6 kind =>
        cases accepted
        exact ⟨[token], rfl, .reference kind⟩
      case h_7 kind =>
        obtain ⟨inner, closing, innerReads, closes, rfl⟩ :=
          reads_groupWith.mp ⟨notes, accepted, clean⟩
        obtain ⟨consumed, rfl, derives⟩ := sound innerReads
        exact ⟨token :: (consumed ++ [closing]), by simp,
          .group kind derives closes⟩
      case h_8 => cases accepted

/-- An expression that is read behind its signs derives. -/
theorem readsOnly_unaryWith
    {primary : Parser Expr}
    (sound : ReadsOnly primary (Derives .primary)) :
    ReadsOnly (unaryWith primary) (Derives .unary) := by
  intro tokens expr rest reads
  induction tokens generalizing expr with
  | nil =>
      have primaryReads := (reads_unaryWith_other not_startsIn_nil).mp reads
      obtain ⟨consumed, shape, derives⟩ := sound primaryReads
      exact ⟨consumed, shape, .single (by decide) derives⟩
  | cons token behind inductionHypothesis =>
      by_cases fits : token.kind ∈ frontOperators
      · obtain ⟨inner, innerReads, rfl⟩ := (reads_unaryWith_front fits).mp reads
        obtain ⟨consumed, rfl, derives⟩ := inductionHypothesis innerReads
        exact ⟨token :: consumed, rfl, .front fits derives⟩
      · have other : ¬ StartsIn frontOperators (token :: behind) := fits
        have primaryReads := (reads_unaryWith_other other).mp reads
        obtain ⟨consumed, shape, derives⟩ := sound primaryReads
        exact ⟨consumed, shape, .single (by decide) derives⟩

/-- All levels read only what derives, the tighter ones first. -/
theorem readsOnly_operationWith
    (forward : ReadsForward expression)
    (sound : ReadsOnly expression (Derives .assignment)) :
    ReadsOnly (operationWith expression levels) (Derives .disjunction) := by
  have ahead := readsForward_operationWith forward
  have unary : ReadsOnly (operationWith expression []) (Derives .unary) :=
    readsOnly_unaryWith (readsOnly_primaryWith sound)
  have factor := readsOnly_chain .factor (ahead _) unary (by decide)
  have term := readsOnly_chain .term (ahead (levels.drop 5)) factor (by decide)
  have comparison :=
    readsOnly_chain .comparison (ahead (levels.drop 4)) term (by decide)
  have equality :=
    readsOnly_chain .equality (ahead (levels.drop 3)) comparison (by decide)
  have conjunction :=
    readsOnly_chain .conjunction (ahead (levels.drop 2)) equality (by decide)
  exact readsOnly_chain .disjunction (ahead (levels.drop 1)) conjunction (by decide)

end Soundness

/-- An assignment that is read derives. -/
theorem readsOnly_assignmentWith
    {expression : Parser Expr}
    (forward : ReadsForward expression)
    (sound : ReadsOnly expression (Derives .assignment)) :
    ReadsOnly (assignmentWith expression) (Derives .assignment) := by
  intro tokens expr rest reads
  obtain ⟨target, between, targetReads, behindReads⟩ := reads_andThen.mp reads
  obtain ⟨before, rfl, targetDerives⟩ :=
    readsOnly_operationWith forward sound targetReads
  rcases reads_assignmentBehind.mp behindReads with
    ⟨_, rfl, rfl⟩ | ⟨equals, behind, value, name, rfl, equal, valueReads, rfl, rfl⟩
  · exact ⟨before, rfl, .single (by decide) targetDerives⟩
  · obtain ⟨after, rfl, valueDerives⟩ := sound valueReads
    obtain ⟨rfl, named⟩ := targetDerives.eq_name
    exact ⟨name :: equals :: after, by simp, .assign named equal valueDerives⟩

/-- An expression that is read derives from the tokens that it takes up. -/
theorem readsOnly_expression :
    ReadsOnly expression (Derives .assignment) := by
  have within :
      ∀ depth, ReadsOnly (expressionWithin depth) (Derives .assignment) := by
    intro depth
    induction depth with
    | zero =>
        intro tokens expr rest reads
        exact (not_reads_reject reads).elim
    | succ depth inductionHypothesis =>
        exact readsOnly_assignmentWith (readsForward_expressionWithin depth)
          inductionHypothesis
  intro tokens expr rest reads
  exact within (tokens.length + 1) reads

/-- The levels of a phrase, the loosest first. -/
def levelsOf :
    Phrase → List Level
  | .assignment | .disjunction => levels
  | .conjunction => levels.drop 1
  | .equality => levels.drop 2
  | .comparison => levels.drop 3
  | .term => levels.drop 4
  | .factor => levels.drop 5
  | .unary | .primary => []

/-- The parser of a phrase. -/
def phraseParser :
    Phrase → Parser Expr
  | .assignment => expression
  | .primary => primaryWith expression
  | phrase => operationWith expression (levelsOf phrase)

/-- The kinds of the tokens that a phrase goes on with. -/
def continuations :
    Phrase → List Kind
  | .assignment => .equal :: levels.flatMap Level.operators
  | phrase => (levelsOf phrase).flatMap Level.operators

/-- The kinds of the tokens that the last part of a phrase goes on with. -/
def innerContinuations :
    Phrase → List Kind
  | .assignment => continuations .assignment
  | phrase => continuations phrase.operand

/-- What is read of a phrase behind its last part. -/
def phraseBehind
    (phrase : Phrase)
    (expr : Expr) :
    Parser Expr :=
  if phrase.operators = [] then
    accept expr
  else
    chainBehind (levelOf phrase) (phraseParser phrase.operand) expr

section Completeness

variable {phrase : Phrase} {tokens rest : List Token} {expr : Expr}

/-- The parser of every phrase reads forward. -/
theorem readsForward_phraseParser
    (phrase : Phrase) :
    ReadsForward (phraseParser phrase) := by
  cases phrase
  case assignment => exact readsForward_expression
  case primary => exact readsForward_primaryWith readsForward_expression
  all_goals exact readsForward_operationWith readsForward_expression _

/-- A phrase with operators is a chain of its operands. -/
theorem phraseParser_of_operators
    (proper : phrase.operators ≠ []) :
    phraseParser phrase = chain (levelOf phrase) (phraseParser phrase.operand) := by
  cases phrase <;> first | rfl | exact (proper rfl).elim

/-- An operator of a phrase does not belong to an operand in front of it. -/
theorem operator_not_mem_innerContinuations
    {kind : Kind}
    (fits : kind ∈ phrase.operators) :
    kind ∉ innerContinuations phrase := by
  have apart :
      ∀ kind ∈ phrase.operators, kind ∉ innerContinuations phrase := by
    cases phrase <;> decide
  exact apart kind fits

/-- What may follow inside a phrase may follow the phrase. -/
theorem innerContinuations_subset
    (phrase : Phrase) :
    ∀ kind ∈ innerContinuations phrase, kind ∈ continuations phrase := by
  cases phrase <;> decide

/-- The operators of a phrase are among the tokens that may follow it. -/
theorem operators_subset_continuations
    (phrase : Phrase) :
    ∀ kind ∈ phrase.operators, kind ∈ continuations phrase := by
  cases phrase <;> decide

/--
In front of tokens that its last part does not go on with, the phrase reads all
that can be read behind that part.
-/
def ReadsAlong
    (phrase : Phrase)
    (tokens : List Token)
    (expr : Expr) :
    Prop :=
  ∀ ⦃next rest : List Token⦄ ⦃whole : Expr⦄,
    ¬ StartsIn (innerContinuations phrase) next →
      Reads (phraseBehind phrase expr) next whole rest →
        Reads (phraseParser phrase) (tokens ++ next) whole rest

/-- In front of tokens that it does not go on with, the phrase ends. -/
theorem ReadsAlong.reads
    (along : ReadsAlong phrase tokens expr)
    (ends : ¬ StartsIn (continuations phrase) rest) :
    Reads (phraseParser phrase) (tokens ++ rest) expr rest := by
  refine along (not_startsIn_of_subset (innerContinuations_subset phrase) ends) ?_
  unfold phraseBehind
  split
  · exact reads_accept.mpr ⟨rfl, rfl⟩
  · exact reads_chainBehind_end
      (not_startsIn_of_subset (operators_subset_continuations phrase) ends)

/-- An assignment without an equals sign is an operation. -/
theorem readsAlong_assignment
    (along : ReadsAlong .disjunction tokens expr) :
    ReadsAlong .assignment tokens expr := by
  intro next rest whole ends reads
  obtain ⟨rfl, rfl⟩ := reads_accept.mp reads
  have noOperator : ¬ StartsIn (continuations .disjunction) next :=
    not_startsIn_of_subset (fun kind member => List.mem_cons_of_mem _ member) ends
  have noEquals : ¬ StartsIn [.equal] next :=
    not_startsIn_of_subset (by simp [innerContinuations, continuations]) ends
  rw [phraseParser, expression_eq]
  exact reads_andThen.mpr ⟨expr, next, along.reads noOperator,
    reads_assignmentBehind.mpr (Or.inl ⟨noEquals, rfl, rfl⟩)⟩

/-- A chain of one operand goes on behind it. -/
theorem readsAlong_operand
    (phrase : Phrase)
    (proper : phrase.operators ≠ [])
    (along : ReadsAlong phrase.operand tokens expr) :
    ReadsAlong phrase tokens expr := by
  intro next rest whole ends reads
  have isOperand : innerContinuations phrase = continuations phrase.operand := by
    cases phrase <;> first | rfl | exact (proper rfl).elim
  simp only [phraseBehind, proper, ↓reduceIte] at reads
  rw [phraseParser_of_operators proper]
  exact (reads_chain (readsForward_phraseParser _)).mpr
    ⟨expr, next, along.reads (isOperand ▸ ends), reads⟩

/-- A chain goes on behind an operator and the operand that follows it. -/
theorem readsAlong_chain
    {before after : List Token}
    {operator : Token}
    {left right : Expr}
    (fits : operator.kind ∈ phrase.operators)
    (leftAlong : ReadsAlong phrase before left)
    (rightAlong : ReadsAlong phrase.operand after right) :
    ReadsAlong phrase (before ++ operator :: after)
      (phrase.node left operator right) := by
  intro next rest whole ends reads
  have proper : phrase.operators ≠ [] := List.ne_nil_of_mem fits
  have isOperand : innerContinuations phrase = continuations phrase.operand := by
    cases phrase <;> first | rfl | exact (proper rfl).elim
  have leftEnds :
      ¬ StartsIn (innerContinuations phrase) (operator :: (after ++ next)) :=
    operator_not_mem_innerContinuations fits
  rw [List.append_assoc, List.cons_append]
  refine leftAlong leftEnds ?_
  simp only [phraseBehind, proper, ↓reduceIte] at reads ⊢
  exact reads_chainBehind_operator (readsForward_phraseParser _) fits
    (rightAlong.reads (isOperand ▸ ends)) reads

/-- A primary is read behind no operator. -/
theorem readsAlong_unary
    (derives : Derives .primary tokens expr)
    (along : ReadsAlong .primary tokens expr) :
    ReadsAlong .unary tokens expr := by
  intro next rest whole ends reads
  have other : ¬ StartsIn frontOperators (tokens ++ next) :=
    derives.not_startsIn_front
  exact (reads_unaryWith_other other).mpr (along ends reads)

/-- A phrase without an operator of its own is read like its one operand. -/
theorem readsAlong_single
    (below : phrase ≠ .primary)
    (derives : Derives phrase.operand tokens expr)
    (along : ReadsAlong phrase.operand tokens expr) :
    ReadsAlong phrase tokens expr := by
  cases phrase
  case primary => exact (below rfl).elim
  case assignment => exact readsAlong_assignment along
  case unary => exact readsAlong_unary derives along
  all_goals exact readsAlong_operand _ (by decide) along

/-- A primary of one token is read with that token. -/
theorem readsAlong_token
    {token : Token}
    (accepts :
      ∀ rest, primaryWith expression (token :: rest) = .accepted expr rest []) :
    ReadsAlong .primary [token] expr := by
  intro next rest whole ends reads
  obtain ⟨rfl, rfl⟩ := reads_accept.mp reads
  exact ⟨[], accepts next, clean_nil⟩

/-- A name alone is an operation, and so may be the target of an assignment. -/
theorem readsAlong_name
    {name : Token}
    (named : name.kind = .identifier) :
    ReadsAlong .disjunction [name] (.reference name) := by
  have primary : ReadsAlong .primary [name] (.reference name) :=
    readsAlong_token fun rest => by simp [primaryWith, named]
  have unary : ReadsAlong .unary [name] (.reference name) :=
    readsAlong_unary (.reference named) primary
  have factor := readsAlong_operand .factor (by decide) unary
  have term := readsAlong_operand .term (by decide) factor
  have comparison := readsAlong_operand .comparison (by decide) term
  have equality := readsAlong_operand .equality (by decide) comparison
  have conjunction := readsAlong_operand .conjunction (by decide) equality
  exact readsAlong_operand .disjunction (by decide) conjunction

/-- An assignment is read along its value. -/
theorem readsAlong_assign
    {name equals : Token}
    {value : Expr}
    (named : name.kind = .identifier)
    (equal : equals.kind = .equal)
    (along : ReadsAlong .assignment tokens value) :
    ReadsAlong .assignment (name :: equals :: tokens) (.assign name value) := by
  intro next rest whole ends reads
  obtain ⟨rfl, rfl⟩ := reads_accept.mp reads
  have noOperator :
      ¬ StartsIn (continuations .disjunction) (equals :: (tokens ++ next)) := by
    rw [startsIn_cons, equal]
    decide
  have target := (readsAlong_name named).reads noOperator
  rw [phraseParser, expression_eq]
  exact reads_andThen.mpr ⟨_, _, target,
    reads_assignmentBehind.mpr
      (Or.inr ⟨equals, tokens ++ next, value, name, rfl, equal,
        along.reads ends, rfl, rfl⟩)⟩

/-- A sign is read along what it applies to. -/
theorem readsAlong_front
    {operator : Token}
    (fits : operator.kind ∈ frontOperators)
    (along : ReadsAlong .unary tokens expr) :
    ReadsAlong .unary (operator :: tokens) (.unary operator expr) := by
  intro next rest whole ends reads
  obtain ⟨rfl, rfl⟩ := reads_accept.mp reads
  exact (reads_unaryWith_front fits).mpr
    ⟨expr, along ends (reads_accept.mpr ⟨rfl, rfl⟩), rfl⟩

/-- A grouping is read along the expression inside it. -/
theorem readsAlong_group
    {opening closing : Token}
    (opens : opening.kind = .leftParen)
    (closes : closing.kind = .rightParen)
    (along : ReadsAlong .assignment tokens expr) :
    ReadsAlong .primary (opening :: (tokens ++ [closing])) (.grouping expr) := by
  intro next rest whole ends reads
  obtain ⟨rfl, rfl⟩ := reads_accept.mp reads
  have unfolded :
      primaryWith expression (opening :: (tokens ++ [closing]) ++ next) =
        groupWith expression (tokens ++ closing :: next) := by
    simp [primaryWith, opens]
  have noContinuation :
      ¬ StartsIn (continuations .assignment) (closing :: next) := by
    rw [startsIn_cons, closes]
    decide
  exact (reads_congr unfolded).mpr
    (reads_groupWith.mpr ⟨expr, closing, along.reads noContinuation, closes, rfl⟩)

/-- What derives from a phrase is read along it. -/
theorem readsAlong_of_derives
    (derives : Derives phrase tokens expr) :
    ReadsAlong phrase tokens expr := by
  induction derives with
  | single below inner along => exact readsAlong_single below inner along
  | chain first fits second leftAlong rightAlong =>
      exact readsAlong_chain fits leftAlong rightAlong
  | assign named equal inner along => exact readsAlong_assign named equal along
  | front fits inner along => exact readsAlong_front fits along
  | trueLiteral kind =>
      exact readsAlong_token fun rest => by simp [primaryWith, kind]
  | falseLiteral kind =>
      exact readsAlong_token fun rest => by simp [primaryWith, kind]
  | nilLiteral kind =>
      exact readsAlong_token fun rest => by simp [primaryWith, kind]
  | literal fits =>
      rcases List.mem_cons.mp fits with isNumber | others
      · exact readsAlong_token fun rest => by simp [primaryWith, isNumber]
      · have isString : _ = Kind.string := List.mem_singleton.mp others
        exact readsAlong_token fun rest => by simp [primaryWith, isString]
  | reference kind => exact readsAlong_token fun rest => by simp [primaryWith, kind]
  | group opens inner closes along => exact readsAlong_group opens closes along

/-- An expression is read in front of any token that it does not go on with. -/
theorem reads_expression_of_derives
    (derives : Derives .assignment tokens expr)
    (ends : ¬ StartsIn (continuations .assignment) rest) :
    Reads expression (tokens ++ rest) expr rest :=
  (readsAlong_of_derives derives).reads ends

end Completeness

section Whole

variable {tokens : List Token} {expr : Expr}

/-- A whole expression is one with no tokens left behind it. -/
theorem reads_wholeExpression
    {rest : List Token} :
    Reads wholeExpression tokens expr rest ↔
      Reads expression tokens expr [] ∧ rest = [] := by
  simp only [wholeExpression, reads_bind, reads_remaining]
  constructor
  · rintro ⟨whole, between, wholeReads, left, behind, ⟨rfl, rfl⟩, endReads⟩
    cases between with
    | nil =>
        obtain ⟨rfl, rfl⟩ := reads_accept.mp endReads
        exact ⟨wholeReads, rfl⟩
    | cons token behind => exact (not_reads_reject endReads).elim
  · rintro ⟨wholeReads, rfl⟩
    exact ⟨expr, [], wholeReads, [], [], ⟨rfl, rfl⟩, reads_accept.mpr ⟨rfl, rfl⟩⟩

/--
The whole of some tokens is read as the tree that they derive as, and else not.
-/
theorem reads_wholeExpression_iff_derives :
    Reads wholeExpression tokens expr [] ↔ Derives .assignment tokens expr := by
  rw [reads_wholeExpression]
  constructor
  · rintro ⟨reads, -⟩
    obtain ⟨consumed, shape, derives⟩ := readsOnly_expression reads
    rw [List.append_nil] at shape
    exact shape ▸ derives
  · intro derives
    have reads := reads_expression_of_derives derives not_startsIn_nil
    rw [List.append_nil] at reads
    exact ⟨reads, rfl⟩

end Whole

end Parser

open Lox.Parser (Clean Reads)
open Grammar (Derives)

/-- A reading without errors accepts what it found, and one with errors nothing. -/
theorem Reading.accepted?_eq
    (reading : Reading α) :
    reading.errors = [] ∧ reading.accepted? = some reading.found ∨
      reading.errors ≠ [] ∧ reading.accepted? = none := by
  by_cases clean : reading.errors = []
  · exact Or.inl ⟨clean, by simp [Reading.accepted?, clean]⟩
  · exact Or.inr ⟨clean, by simp [Reading.accepted?, clean]⟩

/-- An expression is read without errors if its tokens derive it. -/
theorem readExpression_errors_eq_nil_iff
    {tokens : List Token} :
    (readExpression tokens).errors = [] ↔
      ∃ expr, (readExpression tokens).found = some expr ∧
        Derives .assignment tokens expr := by
  constructor
  · intro clean
    obtain ⟨expr, rest, notes, accepted, notesClean⟩ :=
      Parser.clean_recorded_iff.mp clean
    have reads : Reads Parser.wholeExpression tokens expr rest :=
      ⟨notes, accepted, notesClean⟩
    obtain ⟨-, rfl⟩ := Parser.reads_wholeExpression.mp reads
    exact ⟨expr, congrArg Outcome.value? accepted,
      Parser.reads_wholeExpression_iff_derives.mp reads⟩
  · rintro ⟨expr, -, derives⟩
    obtain ⟨notes, accepted, clean⟩ :=
      Parser.reads_wholeExpression_iff_derives.mpr derives
    exact Parser.clean_recorded_iff.mpr ⟨expr, [], notes, accepted, clean⟩

/-- The expression found is the one that the tokens derive. -/
theorem readExpression_found_of_derives
    {tokens : List Token}
    {expr : Expr}
    (derives : Derives .assignment tokens expr) :
    (readExpression tokens).found = some expr := by
  obtain ⟨notes, accepted, -⟩ :=
    Parser.reads_wholeExpression_iff_derives.mpr derives
  exact congrArg Outcome.value? accepted

/-- Tokens derive as at most one tree. -/
theorem Grammar.Derives.unique
    {tokens : List Token}
    {expr other : Expr}
    (derives : Derives .assignment tokens expr)
    (otherwise : Derives .assignment tokens other) :
    expr = other := by
  have found := readExpression_found_of_derives derives
  rw [readExpression_found_of_derives otherwise] at found
  exact (Option.some.inj found).symm

/--
Reading one expression accepts exactly the tokens that derive from the grammar,
each as the one tree that they derive as.  All other tokens are refused with an
error.
-/
theorem readExpression_iff_derives
    (tokens : List Token) :
    (∀ expr,
        (readExpression tokens).accepted? = some (some expr) ∧
            (readExpression tokens).errors = [] ↔
          Derives .assignment tokens expr) ∧
      (∀ expr other,
        Derives .assignment tokens expr → Derives .assignment tokens other →
          expr = other) ∧
      ((∃ expr, Derives .assignment tokens expr) ∨
        (readExpression tokens).accepted? = none ∧
          (readExpression tokens).errors ≠ []) := by
  refine ⟨?_, fun expr other => Derives.unique, ?_⟩
  · intro expr
    constructor
    · rintro ⟨accepted, clean⟩
      obtain ⟨read, found, derives⟩ := readExpression_errors_eq_nil_iff.mp clean
      rcases (readExpression tokens).accepted?_eq with ⟨_, whole⟩ | ⟨errors, _⟩
      · rw [accepted, found] at whole
        cases whole
        exact derives
      · exact (errors clean).elim
    · intro derives
      have found := readExpression_found_of_derives derives
      have clean := readExpression_errors_eq_nil_iff.mpr ⟨expr, found, derives⟩
      rcases (readExpression tokens).accepted?_eq with ⟨_, whole⟩ | ⟨errors, _⟩
      · exact ⟨found ▸ whole, clean⟩
      · exact (errors clean).elim
  · rcases (readExpression tokens).accepted?_eq with ⟨clean, _⟩ | ⟨errors, refused⟩
    · obtain ⟨expr, _, derives⟩ := readExpression_errors_eq_nil_iff.mp clean
      exact Or.inl ⟨expr, derives⟩
    · exact Or.inr ⟨refused, errors⟩

end Lox
