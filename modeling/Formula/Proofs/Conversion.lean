import Formula.Proofs.Grammar

set_option autoImplicit false

/-! # The shape of a conversion

A conversion is a type in parentheses and the first token of its operand. The tokens of a type are
none of the parentheses, so the type ends at the first closing one, and whether a parenthesis is a
conversion is decided by what stands up to there and by the one token behind. -/

namespace Formula.Grammar

open Token (Kind)

/-! ## Types -/

/-- The tokens that can stand behind the first name of a type. -/
def isTypeWord : Kind → Bool
  | .name _ => true
  | .symbol s => s == .dot || s == .question || s == .openBracket || s == .closeBracket
  | _ => false

/-- The tokens of a type. -/
def IsType (kinds : List Kind) : Prop :=
  ∃ name input members afterName afterMark, kinds = .name name :: input ∧ isKeyword name = false ∧
    Members input members afterName ∧ Question afterName afterMark ∧ Brackets afterMark []

/-- The tokens of a predefined type. -/
def IsPredefined (kinds : List Kind) : Prop :=
  ∃ name input afterMark, kinds = .name name :: input ∧ name ∈ predefinedTypes ∧
    Question input afterMark ∧ Brackets afterMark []

theorem isKeyword_of_mem_predefinedTypes {name : String} (h : name ∈ predefinedTypes) :
    isKeyword name = false := by
  have hall : ∀ name ∈ predefinedTypes, isKeyword name = false := by decide
  exact hall name h

theorem IsPredefined.isType {kinds : List Kind} (h : IsPredefined kinds) : IsType kinds := by
  obtain ⟨name, input, afterMark, rfl, hname, mark, brackets⟩ := h
  exact ⟨name, input, [], input, afterMark, rfl, isKeyword_of_mem_predefinedTypes hname, .done _,
    mark, brackets⟩

/-! ## What a part of a type takes

Each part takes type words, and it does so whatever follows. -/

theorem Members.exists_taken {input rest : List Kind} {names : List String}
    (h : Members input names rest) :
    ∃ taken, input = taken ++ rest ∧ (∀ kind ∈ taken, isTypeWord kind = true) ∧
      ∀ other, Members (taken ++ other) names other := by
  induction h with
  | done rest => exact ⟨[], rfl, by simp, fun other => .done other⟩
  | @more input rest names name others ih =>
    obtain ⟨taken, rfl, hwords, hother⟩ := ih
    refine ⟨.symbol .dot :: .name name :: taken, rfl, ?_, fun other => .more name (hother other)⟩
    simpa [isTypeWord] using hwords

theorem Members.eq_of_nil {input rest : List Kind} (h : Members input [] rest) : input = rest := by
  cases h
  rfl

theorem Question.exists_taken {input rest : List Kind} (h : Question input rest) :
    ∃ taken, input = taken ++ rest ∧ (∀ kind ∈ taken, isTypeWord kind = true) ∧
      ∀ other, Question (taken ++ other) other := by
  cases h with
  | absent => exact ⟨[], rfl, by simp, .absent⟩
  | present => exact ⟨[.symbol .question], rfl, by simp [isTypeWord], .present⟩

theorem Brackets.exists_taken {input rest : List Kind} (h : Brackets input rest) :
    ∃ taken, input = taken ++ rest ∧ (∀ kind ∈ taken, isTypeWord kind = true) ∧
      ∀ other, Brackets (taken ++ other) other := by
  induction h with
  | done rest => exact ⟨[], rfl, by simp, .done⟩
  | @more input rest others ih =>
    obtain ⟨taken, rfl, hwords, hother⟩ := ih
    refine ⟨.symbol .openBracket :: .symbol .closeBracket :: taken, rfl, ?_,
      fun other => .more (hother other)⟩
    simpa [isTypeWord] using hwords

theorem IsType.isTypeWord {kinds : List Kind} (h : IsType kinds) :
    ∀ kind ∈ kinds, Grammar.isTypeWord kind = true := by
  obtain ⟨name, input, members, afterName, afterMark, rfl, -, dotted, mark, brackets⟩ := h
  obtain ⟨taken, rfl, hdotted, -⟩ := dotted.exists_taken
  obtain ⟨taken', rfl, hmark, -⟩ := mark.exists_taken
  obtain ⟨taken'', rfl, hbrackets, -⟩ := brackets.exists_taken
  intro kind hkind
  simp only [List.append_nil, List.mem_cons, List.mem_append] at hkind
  rcases hkind with rfl | hkind | hkind | hkind
  · rfl
  · exact hdotted kind hkind
  · exact hmark kind hkind
  · exact hbrackets kind hkind

theorem IsType.openParen_not_mem {kinds : List Kind} (h : IsType kinds) :
    Kind.symbol .openParen ∉ kinds := by
  intro hmem
  exact absurd (h.isTypeWord _ hmem) (by decide)

theorem IsType.closeParen_not_mem {kinds : List Kind} (h : IsType kinds) :
    Kind.symbol .closeParen ∉ kinds := by
  intro hmem
  exact absurd (h.isTypeWord _ hmem) (by decide)

/-! ## Conversions -/

/-- A token that can stand behind the parenthesis of a conversion to this type. -/
def StartsConverted (type : List Kind) (first : Kind) : Prop :=
  first.startsOperand = true ∨ first.isSign = true ∧ IsPredefined type

/-- A conversion is a type in parentheses with a token behind it that starts an operand. -/
theorem conversion_iff {input operand : List Kind} :
    Conversion input operand ↔ ∃ type first behind, operand = first :: behind ∧
      input = .symbol .openParen :: (type ++ .symbol .closeParen :: operand) ∧ IsType type ∧
        StartsConverted type first := by
  constructor
  · rintro ⟨word, dotted, mark, brackets, starts⟩
    next input afterName afterMark behind name members first =>
    obtain ⟨taken, rfl, -, hdotted⟩ := dotted.exists_taken
    obtain ⟨taken', rfl, -, hmark⟩ := mark.exists_taken
    obtain ⟨taken'', rfl, -, hbrackets⟩ := brackets.exists_taken
    have hbracketsNil : Brackets taken'' [] := by simpa using hbrackets []
    have htype : IsType (.name name :: (taken ++ (taken' ++ taken''))) :=
      ⟨name, _, members, taken' ++ taken'', taken'', rfl, word, hdotted _, hmark _, hbracketsNil⟩
    refine ⟨.name name :: (taken ++ (taken' ++ taken'')), first, behind, rfl, by simp, htype, ?_⟩
    rcases starts with hstarts | ⟨hsign, rfl, hname⟩
    · exact .inl hstarts
    · -- the name has one part, so the mark comes next
      refine .inr ⟨hsign, name, taken ++ (taken' ++ taken''), taken'', rfl, hname, ?_, hbracketsNil⟩
      have hnone : taken = [] := by simpa using (hdotted []).eq_of_nil
      rw [hnone]
      exact hmark taken''
  · rintro ⟨type, first, behind, rfl, rfl, htype, hstarts | ⟨hsign, hpredefined⟩⟩
    · obtain ⟨name, input, members, afterName, afterMark, rfl, word, dotted, mark, brackets⟩ :=
        htype
      obtain ⟨taken, rfl, -, hdotted⟩ := dotted.exists_taken
      obtain ⟨taken', rfl, -, hmark⟩ := mark.exists_taken
      obtain ⟨taken'', rfl, -, hbrackets⟩ := brackets.exists_taken
      simp only [List.append_nil, List.cons_append, List.append_assoc]
      exact .intro word (hdotted _) (hmark _) (hbrackets _) (.inl hstarts)
    · obtain ⟨name, input, afterMark, rfl, hname, mark, brackets⟩ := hpredefined
      obtain ⟨taken', rfl, -, hmark⟩ := mark.exists_taken
      obtain ⟨taken'', rfl, -, hbrackets⟩ := brackets.exists_taken
      simp only [List.append_nil, List.cons_append, List.append_assoc]
      exact .intro (isKeyword_of_mem_predefinedTypes hname) (.done _) (hmark _) (hbrackets _)
        (.inr ⟨hsign, rfl, hname⟩)

/-- Two texts with a closing parenthesis, of which the second has none before: the first one's
    is the same or comes later. -/
theorem eq_or_exists_of_append_close {front behind front' behind' : List Kind}
    (h : front ++ .symbol .closeParen :: behind = front' ++ .symbol .closeParen :: behind')
    (hfront : Kind.symbol .closeParen ∉ front') :
    (front = front' ∧ behind = behind') ∨
      ∃ middle, front = front' ++ .symbol .closeParen :: middle ∧
        behind' = middle ++ .symbol .closeParen :: behind := by
  rcases List.append_eq_append_iff.1 h with ⟨between, hbetween, hrest⟩ | ⟨between, hbetween, hrest⟩
  · cases between with
    | nil => exact .inl ⟨by simpa using hbetween.symm, by simpa using hrest⟩
    | cons kind between =>
      obtain ⟨rfl, -⟩ := List.cons.inj hrest
      exact absurd (by simp [hbetween]) hfront
  · cases between with
    | nil => exact .inl ⟨by simpa using hbetween, by simpa using hrest.symm⟩
    | cons kind between =>
      obtain ⟨rfl, hbehind⟩ := List.cons.inj hrest
      exact .inr ⟨between, hbetween, hbehind⟩

end Formula.Grammar
