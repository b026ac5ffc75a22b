import Formula.Proofs.Height
import Formula.Proofs.Parenthesis
import Formula.Proofs.Readability
import Formula.Proofs.Recognition
import Formula.Proofs.Spacing

set_option autoImplicit false

/-! # Names with an `@` in front

An `@` in front of a name is taken with the name and then forgotten. So the spelling decides what
the name is, as it does without the `@`: a keyword is a literal, which cannot be called, and a
predefined type in parentheses is converted to. -/

namespace Formula

open Grammar Token
open Token (Kind)

/-! ## What a name is read as -/

/-- What a name is by itself. -/
def nameReading (name : String) : Expr :=
  if name = "null" then .unsupported Construct.nullLiteral.explanation else .word name

/-- What a name is with one argument. -/
def callReading (name : String) (argument : Expr) : Expr :=
  if isKeyword name then .unsupported Construct.computedInvocation.explanation
  else .call name [argument]

/-- What a name in parentheses is in front of a minus and an operand. -/
def differenceReading (name : String) (operand : Expr) : Expr :=
  if name ∈ predefinedTypes then .unsupported Construct.typeConversion.explanation
  else .binary "-" (nameReading name) operand

section Reading

variable {name : String} {e : Expr}

theorem keyword_cases (h : isKeyword name = true) :
    name = "true" ∨ name = "false" ∨ name = "null" := by
  simpa [isKeyword, or_assoc] using h

theorem nameReading_eq_iff : nameReading name = .parameter name ↔ isKeyword name = false := by
  constructor
  · intro heq
    by_contra hkeyword
    rcases keyword_cases (eq_true_of_ne_false hkeyword) with rfl | rfl | rfl
    all_goals exact absurd heq (by simp [nameReading, Expr.word])
  · intro hname
    have hnull : name ≠ "null" := by
      rintro rfl
      exact absurd hname (by decide)
    rw [nameReading, if_neg hnull, Expr.word_of_not_keyword hname]

theorem callReading_eq_iff : callReading name e = .call name [e] ↔ isKeyword name = false := by
  cases h : isKeyword name <;> simp [callReading, h]

theorem differenceReading_eq_iff :
    differenceReading name e = .binary "-" (.parameter name) e ↔
      isKeyword name = false ∧ name ∉ predefinedTypes := by
  rw [← nameReading_eq_iff]
  by_cases h : name ∈ predefinedTypes <;> simp [differenceReading, h]

end Reading

/-! ## Derivations -/

namespace Grammar

variable {name : String} {e : Expr} {inner : List Kind}

theorem not_conversion_name (rest operand : List Kind) :
    ¬ Conversion (.name name :: rest) operand := by
  intro hconversion
  exact absurd hconversion.head?_eq (by simp)

/-- A keyword is a literal whatever follows. -/
theorem exists_literal (h : isKeyword name = true) (rest : List Kind) :
    ∃ d : Derivation (.primary (nameReading name)) (.name name :: rest) rest, d.nesting = 0 := by
  rcases keyword_cases h with rfl | rfl | rfl
  · exact ⟨.trueLiteral rest, rfl⟩
  · exact ⟨.falseLiteral rest, rfl⟩
  · exact ⟨.nullLiteral rest, rfl⟩

/-- A name by itself. -/
theorem exists_name (name : String) :
    ∃ d : Derivation (.expression (nameReading name)) [.name name] [], d.nesting = 1 := by
  have hunary : ∃ d : Derivation (.unary (nameReading name)) [.name name] [], d.nesting = 0 := by
    cases h : isKeyword name with
    | false =>
      rw [nameReading_eq_iff.2 h]
      exact exists_leaf h (stops_nil 0)
    | true =>
      obtain ⟨d, hd⟩ := exists_literal h []
      exact ⟨.value (not_conversion_name []) d (.bare _ []), by simp [hd]⟩
  obtain ⟨unary, hunary⟩ := hunary
  obtain ⟨d, hd⟩ := unary.exists_expression
  exact ⟨d, by rw [hd, hunary]⟩

/-- A name with an argument. -/
theorem Derivation.exists_called (d : Derivation (.expression e) inner []) (name : String) :
    ∃ d' : Derivation (.expression (callReading name e))
      (.name name :: .symbol .openParen :: (inner ++ [.symbol .closeParen])) [],
      d'.nesting = d.nesting + 1 := by
  obtain ⟨argument, hargument⟩ := d.exists_closed []
  let arguments : Derivation (.arguments .closeParen [e]) (inner ++ [.symbol .closeParen]) [] :=
    .listed (.only argument)
  have hunary : ∃ d' : Derivation (.unary (callReading name e))
      (.name name :: .symbol .openParen :: (inner ++ [.symbol .closeParen])) [],
      d'.nesting = d.nesting := by
    cases h : isKeyword name with
    | false =>
      rw [callReading_eq_iff.2 h]
      let called := Derivation.call name h (.done _) arguments
      exact ⟨.value (not_conversion_name _) called (.bare _ []),
        by simp [called, arguments, hargument]⟩
    | true =>
      -- what is called is the literal
      obtain ⟨literal, hliteral⟩ := exists_literal h
        (.symbol .openParen :: (inner ++ [.symbol .closeParen]))
      rw [callReading, if_pos h]
      exact ⟨.value (not_conversion_name _) literal (.invocation arguments (.bare _ [])),
        by simp [arguments, hliteral, hargument]⟩
  obtain ⟨unary, hunary⟩ := hunary
  obtain ⟨d', hd'⟩ := unary.exists_expression
  exact ⟨d', by rw [hd', hunary]⟩

theorem isPredefined_name_iff : IsPredefined [.name name] ↔ name ∈ predefinedTypes := by
  constructor
  · rintro ⟨other, input, afterMark, heq, hother, -, -⟩
    obtain ⟨hname, -⟩ := List.cons.inj heq
    rwa [Kind.name.inj hname]
  · intro hname
    exact ⟨name, [], [], rfl, hname, .absent [], .done []⟩

/-- A name in parentheses in front of a minus and an operand. -/
theorem Derivation.exists_difference (d : Derivation (.unary e) inner []) (name : String) :
    ∃ d' : Derivation (.expression (differenceReading name e))
      (.symbol .openParen :: .name name :: .symbol .closeParen :: .symbol .minus :: inner) [],
      d'.nesting ≤ d.nesting + 3 := by
  by_cases htype : name ∈ predefinedTypes
  · have hconversion : Conversion
        (.symbol .openParen :: .name name :: .symbol .closeParen :: .symbol .minus :: inner)
        (.symbol .minus :: inner) :=
      .intro (isKeyword_of_mem_predefinedTypes htype) (.done _) (.absent _) (.done _)
        (.inr ⟨rfl, rfl, htype⟩)
    obtain ⟨d', hd'⟩ := (Derivation.conversion hconversion
      (.prefixed .minus (by decide) d)).exists_expression
    rw [differenceReading, if_pos htype]
    exact ⟨d', by simp [hd']⟩
  · obtain ⟨left, hleft⟩ := exists_name name
    have hminus : ∀ kind ∈ (Kind.symbol .minus :: inner).head?,
        ¬ StartsConverted [.name name] kind := by
      intro kind hkind
      obtain rfl := Option.some.inj hkind
      rintro (hoperand | ⟨-, hpredefined⟩)
      · exact absurd hoperand (by decide)
      · exact htype (isPredefined_name_iff.1 hpredefined)
    obtain ⟨operand, hoperand⟩ := left.exists_operand hminus
    have binds : Symbol.minus.level? = some 8 := rfl
    obtain ⟨d', hd'⟩ := operand.exists_binary binds d
    rw [differenceReading, if_neg htype]
    have hbound : d'.nesting ≤ d.nesting + 3 := by omega
    exact ⟨d', hbound⟩

end Grammar

/-! ## Texts -/

section Texts

variable {name e : String} {s : Expr} {kinds : List Kind} {limit limit' : Nat}

/-- A text is read as what its tokens derive, under every limit that covers the nesting. -/
theorem parseWith_of_lexes {text : String} (hlexes : Lexes text.toList kinds)
    (d : Derivation (.expression s) kinds []) (hlimit : d.nesting ≤ limit) :
    parseWith ⟨limit⟩ text = .ok s := by
  obtain ⟨tokens, htokens, rfl⟩ := exists_tokens_of_lexes hlexes
  exact (parseWith_eq_ok_iff_nesting htokens limit s).2 ⟨d, hlimit⟩

theorem parseWith_verbatim_name (hname : isIdentifier name.toList = true) (hlimit : 0 < limit) :
    parseWith ⟨limit⟩ ("@" ++ name) = .ok (nameReading name) := by
  have hlexes : Lexes ("@" ++ name).toList [.name name] := by simpa using lexes_verbatim hname
  obtain ⟨d, hd⟩ := exists_name name
  exact parseWith_of_lexes hlexes d (by omega)

variable (hname : isIdentifier name.toList = true) (hparse : parseWith ⟨limit'⟩ e = .ok s)
include hname hparse

theorem parseWith_verbatim_call (hlimit : limit' + 1 ≤ limit) :
    parseWith ⟨limit⟩ ("@" ++ name ++ "(" ++ e ++ ")") = .ok (callReading name s) := by
  obtain ⟨inner, hinner⟩ := exists_tokens_of_parseWith hparse
  obtain ⟨d, hd⟩ := (parseWith_eq_ok_iff_nesting hinner limit' s).1 hparse
  have he : Lexes e.toList (inner.map Token.kind) := ⟨inner, hinner, rfl⟩
  have hlexes : Lexes ("@" ++ name ++ "(" ++ e ++ ")").toList
      (.name name :: .symbol .openParen :: (inner.map Token.kind ++ [.symbol .closeParen])) := by
    simpa using (lexes_verbatim hname).append (separated_cons.2 rfl) (he.parenthesis lexes_nil)
  obtain ⟨d', hd'⟩ := d.exists_called name
  exact parseWith_of_lexes hlexes d' (by omega)

theorem parseWith_verbatim_difference (hlimit : limit' + 3 ≤ limit) :
    parseWith ⟨limit⟩ ("(@" ++ name ++ ")-(" ++ e ++ ")") = .ok (differenceReading name s) := by
  obtain ⟨inner, hinner⟩ := exists_tokens_of_parseWith hparse
  obtain ⟨d, hd⟩ := (parseWith_eq_ok_iff_nesting hinner limit' s).1 hparse
  have he : Lexes e.toList (inner.map Token.kind) := ⟨inner, hinner, rfl⟩
  have hlexes : Lexes ("(@" ++ name ++ ")-(" ++ e ++ ")").toList
      (.symbol .openParen :: .name name :: .symbol .closeParen :: .symbol .minus ::
        .symbol .openParen :: (inner.map Token.kind ++ [.symbol .closeParen])) := by
    simpa using (lexes_verbatim hname).parenthesis
      (.single (c := '-') rfl (he.parenthesis lexes_nil))
  have hnothing : ∀ kind ∈ ([] : List Kind).head?,
      ¬ StartsConverted (inner.map Token.kind) kind := by
    simp
  obtain ⟨operand, hoperand⟩ := d.exists_operand hnothing
  obtain ⟨d', hd'⟩ := operand.exists_difference name
  exact parseWith_of_lexes hlexes d' (by omega)

end Texts

/-- **An `@` does not make a name of every word.** By itself a word with an `@` is a parameter
    exactly if it is no keyword, and just then it can be called. In parentheses and in front of a
    minus it is a parameter exactly if it is no predefined type either. A keyword is a literal, and
    a predefined type is converted to. -/
theorem parseWith_verbatim {name e : String} {s : Expr} {limit' : Nat}
    (hname : isIdentifier name.toList = true) (hparse : parseWith ⟨limit'⟩ e = .ok s) :
    (∀ limit, 0 < limit →
      parseWith ⟨limit⟩ ("@" ++ name) = .ok (nameReading name) ∧
      (parseWith ⟨limit⟩ ("@" ++ name) = .ok (.parameter name) ↔ isKeyword name = false)) ∧
    (∀ limit, limit' + 1 ≤ limit →
      parseWith ⟨limit⟩ ("@" ++ name ++ "(" ++ e ++ ")") = .ok (callReading name s) ∧
      (parseWith ⟨limit⟩ ("@" ++ name ++ "(" ++ e ++ ")") = .ok (.call name [s]) ↔
        isKeyword name = false)) ∧
    ∀ limit, limit' + 3 ≤ limit →
      parseWith ⟨limit⟩ ("(@" ++ name ++ ")-(" ++ e ++ ")") = .ok (differenceReading name s) ∧
      (parseWith ⟨limit⟩ ("(@" ++ name ++ ")-(" ++ e ++ ")") =
        .ok (.binary "-" (.parameter name) s) ↔
        isKeyword name = false ∧ name ∉ predefinedTypes) := by
  -- what is read decides whether it is what a name would be
  have hexactly {text : String} {limit : Nat} {read wanted : Expr} {condition : Prop}
      (hread : parseWith ⟨limit⟩ text = .ok read) (hwanted : read = wanted ↔ condition) :
      parseWith ⟨limit⟩ text = .ok read ∧ (parseWith ⟨limit⟩ text = .ok wanted ↔ condition) := by
    refine ⟨hread, ?_⟩
    rw [hread, Except.ok.injEq, hwanted]
  exact ⟨fun _ hlimit => hexactly (parseWith_verbatim_name hname hlimit) nameReading_eq_iff,
    fun _ hlimit => hexactly (parseWith_verbatim_call hname hparse hlimit) callReading_eq_iff,
    fun _ hlimit =>
      hexactly (parseWith_verbatim_difference hname hparse hlimit) differenceReading_eq_iff⟩

/-- A predefined type with an `@` is a parameter and a function, and is still converted to. -/
theorem parseWith_verbatim_int :
    parse "@int" = .ok (.parameter "int") ∧
      parse "@int(a * b)" = .ok (.call "int" [.binary "*" (.parameter "a") (.parameter "b")]) ∧
      parse "(@int)-(a * b)" = .ok (.unsupported Construct.typeConversion.explanation) := by
  have hparse : parseWith ⟨2⟩ "a * b" = .ok (.binary "*" (.parameter "a") (.parameter "b")) := by
    decide +kernel
  have hint : isIdentifier "int".toList = true := by decide
  obtain ⟨hname, hcall, hdifference⟩ := parseWith_verbatim hint hparse
  exact ⟨(hname 256 (by decide)).2.2 (by decide), (hcall 256 (by decide)).2.2 (by decide),
    (hdifference 256 (by decide)).1⟩

/-- A keyword with an `@` in front is a name and is read as a literal. -/
theorem parse_verbatim_true :
    isIdentifier "true".toList = true ∧ parse "@true" = .ok (.constant (.boolean true)) ∧
      parse "@true" ≠ .ok (.parameter "true") := by
  have hread : parse "@true" = .ok (.constant (.boolean true)) := by
    decide +kernel
  refine ⟨by decide, hread, ?_⟩
  rw [hread]
  simp

end Formula
