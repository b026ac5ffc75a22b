import Formula.Proofs.Follow

set_option autoImplicit false

/-! # An expression in parentheses

Whatever derives an expression from all of some tokens derives it from the same tokens in
parentheses: the closing parenthesis changes nothing that the derivation looked at. The parenthesis
is a conversion only if the tokens are a type, and of those that derive an expression the predefined
types without a `?` are the only ones behind which a sign would be taken for the operand's. -/

namespace Formula.Grammar

open Token (Kind)

variable {phrase : Phrase} {input rest : List Kind}

/-! ## What a derivation without parentheses passes over -/

/-- Arguments that do not end with a parenthesis. -/
def Phrase.Bracketed : Phrase → Prop
  | .arguments close _ => close = .closeBracket
  | .items close _ => close = .closeBracket
  | _ => True

theorem Members.carries {P : List Kind → Prop}
    (htail : ∀ kind behind, P (kind :: behind) → kind ≠ .symbol .closeParen →
      kind ≠ .symbol .question → P behind)
    {names : List String} (dotted : Members input names rest) (h : P input) : P rest := by
  induction dotted with
  | done => exact h
  | more name others ih =>
    have hname := htail _ _ h (by simp) (by simp)
    exact ih (htail _ _ hname (by simp) (by simp))

/-- What holds of no tokens that start with a parenthesis and goes over from any others
    to those behind the first goes over to what a derivation leaves. Behind a question
    mark an expression stands. -/
theorem Derivation.carries {P : List Kind → Prop}
    (hopen : ∀ behind, ¬ P (.symbol .openParen :: behind))
    (htail : ∀ kind behind, P (kind :: behind) → kind ≠ .symbol .closeParen →
      kind ≠ .symbol .question → P behind)
    (hmark : ∀ {t : Expr} {behind afterColon : List Kind}, P (.symbol .question :: behind) →
      Derivation (.expression t) behind (.symbol .colon :: afterColon) → P behind)
    (d : Derivation phrase input rest) (hphrase : phrase.Bracketed)
    (h : P input) : P rest := by
  induction d with
  | plain _ ih => exact ih trivial h
  | conditional _ t _ ihc iht ihf =>
    have hcondition := ihc trivial h
    have htrue := iht trivial (hmark hcondition t)
    exact ihf trivial (htail _ _ htrue (by simp) (by simp))
  | chain _ _ _ ihfirst ihothers => exact ihothers trivial (ihfirst trivial h)
  | operand _ ih => exact ih trivial h
  | last => exact h
  | link operator binds _ _ ihnext ihothers =>
    have hoperator : operator ≠ .closeParen ∧ operator ≠ .question := by
      constructor <;> (rintro rfl; cases binds)
    have hnext := htail _ _ h (by simpa using hoperator.1) (by simpa using hoperator.2)
    exact ihothers trivial (ihnext trivial hnext)
  | prefixed operator sign _ ih =>
    have hoperator : operator ≠ .closeParen ∧ operator ≠ .question := by
      constructor <;> (rintro rfl; revert sign; decide)
    exact ih trivial (htail _ _ h (by simpa using hoperator.1) (by simpa using hoperator.2))
  | conversion type _ ih =>
    obtain ⟨_, _, _, -, rfl, -⟩ := conversion_iff.1 type
    exact absurd h (hopen _)
  | value _ _ _ ihprimary ihsuffixes => exact ihsuffixes trivial (ihprimary trivial h)
  | number | string | character | trueLiteral | falseLiteral | nullLiteral | parameter =>
    exact htail _ _ h (by simp) (by simp)
  | member _ _ dotted => exact dotted.carries htail (htail _ _ h (by simp) (by simp))
  | call _ _ dotted _ _ =>
    exact absurd (dotted.carries htail (htail _ _ h (by simp) (by simp))) (hopen _)
  | parenthesis _ _ => exact absurd h (hopen _)
  | bare => exact h
  | invocation _ _ _ _ => exact absurd h (hopen _)
  | element _ _ iharguments ihothers =>
    exact ihothers trivial (iharguments rfl (htail _ _ h (by simp) (by simp)))
  | access _ _ ih =>
    have hname := htail _ _ h (by simp) (by simp)
    exact ih trivial (htail _ _ hname (by simp) (by simp))
  | empty =>
    obtain rfl := hphrase
    exact htail _ _ h (by simp) (by simp)
  | listed _ ih => exact ih hphrase h
  | only _ ih =>
    obtain rfl := hphrase
    exact htail _ _ (ih trivial h) (by simp) (by simp)
  | comma _ _ ih ihothers =>
    exact ihothers hphrase (htail _ _ (ih trivial h) (by simp) (by simp))

/-- No derivation takes a closing parenthesis that has no opening one. -/
theorem Derivation.unmatched_close (d : Derivation phrase input rest) (hphrase : phrase.Bracketed)
    {front behind : List Kind} (hinput : input = front ++ .symbol .closeParen :: behind)
    (hfront : Kind.symbol .openParen ∉ front) : Kind.symbol .closeParen ∈ rest := by
  have h := d.carries (P := fun kinds => ∃ front, kinds = front ++ .symbol .closeParen :: behind ∧
    Kind.symbol .openParen ∉ front) ?_ ?_ ?_ hphrase ⟨front, hinput, hfront⟩
  · obtain ⟨left, rfl, -⟩ := h
    simp
  · rintro _ ⟨_ | ⟨kind, front⟩, heq, hnot⟩
    · cases heq
    · obtain ⟨rfl, -⟩ := List.cons.inj heq
      simp at hnot
  · rintro kind _ ⟨_ | ⟨_, front⟩, heq, hnot⟩ hclose -
    · exact absurd (List.cons.inj heq).1 hclose
    · obtain ⟨rfl, rfl⟩ := List.cons.inj heq
      exact ⟨front, rfl, fun hmem => hnot (List.mem_cons_of_mem _ hmem)⟩
  · rintro _ _ _ ⟨_ | ⟨_, front⟩, heq, hnot⟩ -
    · cases heq
    · obtain ⟨rfl, rfl⟩ := List.cons.inj heq
      exact ⟨front, rfl, fun hmem => hnot (List.mem_cons_of_mem _ hmem)⟩

/-- No derivation takes a question mark that no expression stands behind, if no
    parenthesis stands in front of it. -/
theorem Derivation.dangling_mark (d : Derivation phrase input rest) (hphrase : phrase.Bracketed)
    {front behind : List Kind} (hinput : input = front ++ .symbol .question :: behind)
    (hfront : Kind.symbol .openParen ∉ front)
    (hbehind : ∀ first ∈ behind.head?, (first.startsOperand || first.isSign) = false) :
    ∃ left, left <:+ front ∧ rest = left ++ .symbol .question :: behind := by
  refine d.carries (P := fun kinds => ∃ left, left <:+ front ∧
    kinds = left ++ .symbol .question :: behind) ?_ ?_ ?_ hphrase ⟨front, List.suffix_rfl, hinput⟩
  · rintro _ ⟨_ | ⟨kind, left⟩, hsuffix, heq⟩
    · cases heq
    · obtain ⟨rfl, -⟩ := List.cons.inj heq
      exact hfront (hsuffix.subset (List.mem_cons_self ..))
  · rintro kind _ ⟨_ | ⟨_, left⟩, hsuffix, heq⟩ - hkind
    · exact absurd (List.cons.inj heq).1 hkind
    · obtain ⟨rfl, rfl⟩ := List.cons.inj heq
      exact ⟨left, suffix_of_cons_suffix hsuffix, rfl⟩
  · rintro t _ _ ⟨_ | ⟨_, left⟩, hsuffix, heq⟩ ifTrue
    · obtain ⟨-, rfl⟩ := List.cons.inj heq
      obtain ⟨first, tail, rfl, hfirst⟩ := ifTrue.opens
      rw [hbehind first rfl] at hfirst
      cases hfirst
    · obtain ⟨rfl, rfl⟩ := List.cons.inj heq
      exact ⟨left, suffix_of_cons_suffix hsuffix, rfl⟩

/-- No expression starts with a bracket of a type. -/
theorem Brackets.head?_not {input rest : List Kind} (h : Brackets input rest)
    (hrest : ∀ first ∈ rest.head?, (first.startsOperand || first.isSign) = false) :
    ∀ first ∈ input.head?, (first.startsOperand || first.isSign) = false := by
  intro first hfirst
  cases h with
  | done => exact hrest first hfirst
  | more =>
    obtain rfl := Option.some.inj hfirst
    rfl

/-! ## Parentheses -/

variable {e : Expr} {inner behind : List Kind}

/-- A closing parenthesis can follow an expression. -/
theorem Derivation.exists_closed (d : Derivation (.expression e) inner []) (behind : List Kind) :
    ∃ d' : Derivation (.expression e) (inner ++ .symbol .closeParen :: behind)
      (.symbol .closeParen :: behind), d'.nesting = d.nesting := by
  obtain ⟨taken, hinner, hmove⟩ := d.exists_moved
  have hclose : StandsIn [] (.symbol .closeParen :: behind) := standsIn_symbol _ _ (by decide)
  obtain rfl : inner = taken := by simpa using hinner
  exact hmove _ hclose

/-- An expression in parentheses is a primary expression. -/
theorem Derivation.nonempty_parenthesis (d : Derivation (.expression e) inner [])
    (behind : List Kind) :
    Nonempty (Derivation (.primary e)
      (.symbol .openParen :: (inner ++ .symbol .closeParen :: behind)) behind) := by
  obtain ⟨d', -⟩ := d.exists_closed behind
  exact ⟨.parenthesis d'⟩

/-- It is no conversion if what follows cannot be the operand of one. -/
theorem Derivation.not_conversion_parenthesis (d : Derivation (.expression e) inner [])
    (hbehind : ∀ kind ∈ behind.head?, ¬ StartsConverted inner kind) (operand : List Kind) :
    ¬ Conversion (.symbol .openParen :: (inner ++ .symbol .closeParen :: behind)) operand := by
  rw [conversion_iff]
  rintro ⟨type, first, after, rfl, heq, htype, hstarts⟩
  rcases eq_or_exists_of_append_close (List.cons.inj heq).2 htype.closeParen_not_mem with
    ⟨rfl, rfl⟩ | ⟨middle, rfl, -⟩
  · exact hbehind first rfl hstarts
  · have hmem := d.unmatched_close trivial rfl htype.openParen_not_mem
    simp at hmem

/-- Then it is an operand. -/
theorem Derivation.exists_operand (d : Derivation (.expression e) inner [])
    (hbehind : ∀ kind ∈ behind.head?, ¬ StartsConverted inner kind) :
    ∃ d' : Derivation (.unary e)
      (.symbol .openParen :: (inner ++ .symbol .closeParen :: behind)) behind,
      d'.nesting = d.nesting := by
  obtain ⟨d', hnesting⟩ := d.exists_closed behind
  exact ⟨.value (d.not_conversion_parenthesis hbehind) (.parenthesis d') (.bare e behind),
    by simp [hnesting]⟩

theorem Derivation.nonempty_operand (d : Derivation (.expression e) inner [])
    (hbehind : ∀ kind ∈ behind.head?, ¬ StartsConverted inner kind) :
    Nonempty (Derivation (.unary e) (.symbol .openParen :: (inner ++ .symbol .closeParen :: behind))
      behind) := by
  obtain ⟨d', -⟩ := d.exists_operand hbehind
  exact ⟨d'⟩

/-- The tokens of a predefined type and any number of `[]` behind it. -/
def IsPredefinedArray (kinds : List Kind) : Prop :=
  ∃ name input, kinds = .name name :: input ∧ name ∈ predefinedTypes ∧ Brackets input []

/-- The only predefined types that are expressions have no `?`. -/
theorem Derivation.isPredefinedArray (d : Derivation (.expression e) inner [])
    (h : IsPredefined inner) : IsPredefinedArray inner := by
  obtain ⟨name, input, afterMark, rfl, hname, mark, brackets⟩ := h
  cases mark with
  | absent => exact ⟨name, input, rfl, hname, brackets⟩
  | present =>
    have hinput : Kind.name name :: .symbol .question :: afterMark =
        [.name name] ++ .symbol .question :: afterMark := rfl
    obtain ⟨left, -, hleft⟩ :=
      d.dangling_mark trivial hinput (by simp) (brackets.head?_not (by simp))
    simp at hleft

end Formula.Grammar
