import Formula.Proofs.Recognition
import Formula.Proofs.Spacing
import Formula.Proofs.WrittenType

set_option autoImplicit false

/-! # A type in parentheses in front of an operand

What `(T)` is depends on the token behind it alone. In front of another parenthesis it is a
conversion. In front of a sign it is one only for a predefined type; otherwise the sign joins two
operands, and there is no formula at all if `T` is no expression. -/

namespace Formula

open Grammar Token
open Token (Kind)

namespace Grammar

variable {e : Expr} {input rest : List Kind}

/-! ## The first operand -/

theorem Derivation.exists_unary_of_chain {level : Nat} {e : Expr} {input rest : List Kind} :
    Derivation (.chain level e) input rest →
      ∃ first middle, Nonempty (Derivation (.unary first) input middle)
  | .chain _ d _ => d.exists_unary_of_chain
  | .operand d => ⟨_, _, ⟨d⟩⟩

/-- Every expression starts with a unary one. -/
theorem Derivation.exists_unary (d : Derivation (.expression e) input rest) :
    ∃ first middle, Nonempty (Derivation (.unary first) input middle) := by
  cases d with
  | plain d => exact d.exists_unary_of_chain
  | conditional d => exact d.exists_unary_of_chain

/-- An expression that starts with a parenthesis which is no conversion has
    another expression in it. -/
theorem Derivation.exists_parenthesis
    (d : Derivation (.expression e) (.symbol .openParen :: input) rest)
    (unconverted : ∀ operand, ¬ Conversion (.symbol .openParen :: input) operand) :
    ∃ inner behind,
      Nonempty (Derivation (.expression inner) input (.symbol .closeParen :: behind)) := by
  obtain ⟨first, middle, ⟨unary⟩⟩ := d.exists_unary
  cases unary with
  | prefixed operator sign => exact absurd sign (by decide)
  | conversion type => exact absurd type (unconverted _)
  | value _ primary =>
    cases primary with
    | parenthesis inner => exact ⟨_, _, ⟨inner⟩⟩

/-- Whether a type in parentheses is a conversion is decided by the token behind. -/
theorem IsType.not_conversion {type behind : List Kind} {first : Kind} (h : IsType type)
    (hfirst : ¬ StartsConverted type first) (operand : List Kind) :
    ¬ Conversion
      (.symbol .openParen :: (type ++ .symbol .closeParen :: first :: behind)) operand := by
  rw [conversion_iff]
  rintro ⟨other, first', behind', rfl, heq, hother, hstarts⟩
  rcases eq_or_exists_of_append_close (List.cons.inj heq).2 hother.closeParen_not_mem with
    ⟨rfl, hbehind⟩ | ⟨middle, rfl, -⟩
  · obtain ⟨rfl, -⟩ := List.cons.inj hbehind
    exact hfirst hstarts
  · exact h.closeParen_not_mem (by simp)

end Grammar

/-! ## Derivations -/

namespace WrittenType

variable (type : WrittenType) {e : Expr} {first : Kind} {behind : List Kind}

/-- A sign makes a conversion of a predefined type only. -/
theorem startsConverted_sign_iff {sign : Symbol} (hsign : sign = .plus ∨ sign = .minus) :
    StartsConverted type.kinds (.symbol sign) ↔ type.IsPredefined := by
  rw [← type.isPredefined_kinds_iff]
  rcases hsign with rfl | rfl <;> simp [StartsConverted, Kind.startsOperand, Kind.isSign]

/-- In front of a token that makes a conversion of it, the type and what it converts are one. -/
theorem nonempty_conversion (hstarts : StartsConverted type.kinds first)
    (operand : Derivation (.unary e) (first :: behind) []) :
    Nonempty (Derivation (.expression (.unsupported Construct.typeConversion.explanation))
      (.symbol .openParen :: (type.kinds ++ .symbol .closeParen :: first :: behind)) []) := by
  have hconversion := conversion_iff.2
    ⟨type.kinds, first, behind, rfl, rfl, type.isType_kinds, hstarts⟩
  exact Derivation.nonempty_expression (.conversion hconversion operand)

/-- In front of another one, a type with a `?` is not taken. -/
theorem not_expression_optional (hoptional : type.optional = true)
    (hfirst : ¬ StartsConverted type.kinds first) {rest : List Kind}
    (d : Derivation (.expression e)
      (.symbol .openParen :: (type.kinds ++ .symbol .closeParen :: first :: behind)) rest) :
    False := by
  obtain ⟨inner, after, ⟨d'⟩⟩ := d.exists_parenthesis (type.isType_kinds.not_conversion hfirst)
  exact type.not_expression hoptional inner _ _ d'

/-- In front of a sign a type that is not predefined is an operand if it is an expression. -/
theorem exists_operation {sign : Symbol} (hsign : sign = .plus ∨ sign = .minus)
    (hother : ¬ type.IsPredefined) (hoptional : type.optional = false)
    (right : Derivation (.unary e) behind []) :
    ∃ t, Nonempty (Derivation (.expression t) type.kinds []) ∧
      Nonempty (Derivation (.expression (.binary sign.text t e))
        (.symbol .openParen :: (type.kinds ++ .symbol .closeParen :: .symbol sign :: behind))
        []) := by
  have binds : sign.level? = some 8 := by
    rcases hsign with rfl | rfl <;> rfl
  obtain ⟨t, ⟨d⟩⟩ := type.exists_expression hoptional
  have hsigned : ∀ kind ∈ (Kind.symbol sign :: behind).head?,
      ¬ StartsConverted type.kinds kind := by
    intro kind hkind
    obtain rfl := Option.some.inj hkind
    rwa [type.startsConverted_sign_iff hsign]
  obtain ⟨left⟩ := d.nonempty_operand hsigned
  exact ⟨t, ⟨d⟩, left.nonempty_binary binds right⟩

/-! ## Texts -/

/-- The type in parentheses, a sign or nothing, and another text in parentheses. -/
def before (sign text : String) : String :=
  "(" ++ type.text ++ ")" ++ sign ++ "(" ++ text ++ ")"

theorem lexes_before {sign text : String} {kinds : List Kind}
    (h : Lexes (sign ++ ("(" ++ text ++ ")")).toList kinds) :
    Lexes (type.before sign text).toList
      (.symbol .openParen :: (type.kinds ++ .symbol .closeParen :: kinds)) := by
  simpa [before] using type.lexes_text.parenthesis h

end WrittenType

theorem lexes_enclosed {text : String} {tokens : List Token} (h : tokenize text = .ok tokens) :
    Lexes ("(" ++ text ++ ")").toList
      (.symbol .openParen :: (tokens.map Token.kind ++ [.symbol .closeParen])) := by
  have htext : Lexes text.toList (tokens.map Token.kind) := ⟨tokens, h, rfl⟩
  simpa using htext.parenthesis lexes_nil

/-- A sign is a token whatever follows. -/
theorem lexes_sign {sign : Symbol} (hsign : sign = .plus ∨ sign = .minus) {text : String}
    {kinds : List Kind} (h : Lexes text.toList kinds) :
    Lexes (sign.text ++ text).toList (.symbol sign :: kinds) := by
  rw [String.toList_append]
  rcases hsign with rfl | rfl
  · exact .single (c := '+') rfl h
  · exact .single (c := '-') rfl h

/-! ## Conversion, operation or neither -/

section Reading

variable {type : WrittenType} {e : Expr} {sign : Symbol} {first : Kind} {behind : List Kind}
  {text : String} {tokens : List Token} {limit : Nat}

theorem parseWith_conversion (htokens : tokenize text = .ok tokens) (hlimit : tokens.length ≤ limit)
    (hkinds : tokens.map Token.kind =
      .symbol .openParen :: (type.kinds ++ .symbol .closeParen :: first :: behind))
    (hstarts : StartsConverted type.kinds first)
    (operand : Derivation (.unary e) (first :: behind) []) :
    parseWith ⟨limit⟩ text = .ok (.unsupported "Type conversion is not supported") := by
  obtain ⟨d⟩ := type.nonempty_conversion hstarts operand
  rw [← hkinds] at d
  exact parseWith_of_derivation htokens hlimit d

theorem exists_parseWith_operation (htokens : tokenize text = .ok tokens)
    (hlimit : tokens.length ≤ limit)
    (hkinds : tokens.map Token.kind =
      .symbol .openParen :: (type.kinds ++ .symbol .closeParen :: .symbol sign :: behind))
    (hsign : sign = .plus ∨ sign = .minus) (hother : ¬ type.IsPredefined)
    (hoptional : type.optional = false) (operand : Derivation (.unary e) behind []) :
    ∃ t, parseWith ⟨limit⟩ type.text = .ok t ∧
      parseWith ⟨limit⟩ text = .ok (.binary sign.text t e) := by
  obtain ⟨t, ⟨dtype⟩, ⟨d⟩⟩ := type.exists_operation hsign hother hoptional operand
  obtain ⟨typeTokens, htype, htypeKinds⟩ := exists_tokens_of_lexes type.lexes_text
  have hlength : typeTokens.length ≤ tokens.length := by
    have hwhole := congrArg List.length hkinds
    have hpart := congrArg List.length htypeKinds
    simp only [List.length_map, List.length_cons, List.length_append] at hwhole hpart
    omega
  rw [← htypeKinds] at dtype
  rw [← hkinds] at d
  exact ⟨t, parseWith_of_derivation htype (Nat.le_trans hlength hlimit) dtype,
    parseWith_of_derivation htokens hlimit d⟩

theorem exists_error_of_optional (htokens : tokenize text = .ok tokens)
    (hkinds : tokens.map Token.kind =
      .symbol .openParen :: (type.kinds ++ .symbol .closeParen :: first :: behind))
    (hfirst : ¬ StartsConverted type.kinds first) (hoptional : type.optional = true) :
    ∃ error, parseWith ⟨limit⟩ text = .error error := by
  cases hparse : parseWith ⟨limit⟩ text with
  | error error => exact ⟨error, rfl⟩
  | ok found =>
    obtain ⟨d, -⟩ := (parseWith_eq_ok_iff_nesting htokens limit found).1 hparse
    rw [hkinds] at d
    exact (type.not_expression_optional hoptional hfirst d).elim

end Reading

/-- **A type in parentheses is a conversion or an operand.** In front of another parenthesis it is
    a conversion, and nothing of what is converted is kept. In front of a sign it is one exactly if
    the type is predefined. Any other type without a `?` is an operand of the sign there, and with
    a `?` there is no formula. -/
theorem parseWith_before (type : WrittenType) {e : String} {s : Expr} {limit' : Nat}
    (hparse : parseWith ⟨limit'⟩ e = .ok s) :
    (∃ tokens, tokenize (type.before "" e) = .ok tokens ∧ ∀ limit, tokens.length ≤ limit →
      parseWith ⟨limit⟩ (type.before "" e) =
        .ok (.unsupported "Type conversion is not supported")) ∧
    ∀ sign : Symbol, sign = .plus ∨ sign = .minus →
      ∃ tokens, tokenize (type.before sign.text e) = .ok tokens ∧ ∀ limit, tokens.length ≤ limit →
        (parseWith ⟨limit⟩ (type.before sign.text e) =
            .ok (.unsupported "Type conversion is not supported") ↔ type.IsPredefined) ∧
        (¬ type.IsPredefined → type.optional = false →
          ∃ t, parseWith ⟨limit⟩ type.text = .ok t ∧
            parseWith ⟨limit⟩ (type.before sign.text e) = .ok (.binary sign.text t s)) ∧
        (¬ type.IsPredefined → type.optional = true →
          ∃ error, parseWith ⟨limit⟩ (type.before sign.text e) = .error error) := by
  obtain ⟨inner, hinner⟩ := exists_tokens_of_parseWith hparse
  obtain ⟨d, -⟩ := (parseWith_eq_ok_iff_nesting hinner limit' s).1 hparse
  have hnothing : ∀ kind ∈ ([] : List Kind).head?,
      ¬ StartsConverted (inner.map Token.kind) kind := by
    simp
  obtain ⟨operand⟩ := d.nonempty_operand hnothing
  refine ⟨?_, fun sign hsign => ?_⟩
  · have hlexes : Lexes (type.before "" e).toList _ :=
      type.lexes_before (by simpa using lexes_enclosed hinner)
    obtain ⟨tokens, htokens, hkinds⟩ := exists_tokens_of_lexes hlexes
    exact ⟨tokens, htokens, fun limit hlimit =>
      parseWith_conversion htokens hlimit hkinds (.inl rfl) operand⟩
  · have hlexes := type.lexes_before (lexes_sign hsign (lexes_enclosed hinner))
    obtain ⟨tokens, htokens, hkinds⟩ := exists_tokens_of_lexes hlexes
    have hstarts := type.startsConverted_sign_iff hsign
    have signed : Derivation (.unary (.unary sign.text s)) _ [] :=
      .prefixed sign (by rcases hsign with rfl | rfl <;> decide) operand
    refine ⟨tokens, htokens, fun limit hlimit => ?_⟩
    have hoperation (hother : ¬ type.IsPredefined) (hoptional : type.optional = false) :=
      exists_parseWith_operation htokens hlimit hkinds hsign hother hoptional operand
    have hrefusal (hother : ¬ type.IsPredefined) (hoptional : type.optional = true) :
        ∃ error, parseWith ⟨limit⟩ (type.before sign.text e) = .error error :=
      exists_error_of_optional htokens hkinds (mt hstarts.1 hother) hoptional
    refine ⟨⟨fun h => ?_, fun hpredefined =>
      parseWith_conversion htokens hlimit hkinds (hstarts.2 hpredefined) signed⟩,
      hoperation, hrefusal⟩
    -- what is no conversion is read as something else, or not at all
    by_contra hother
    cases hoptional : type.optional with
    | false =>
      obtain ⟨t, -, hbinary⟩ := hoperation hother hoptional
      rw [h] at hbinary
      cases hbinary
    | true =>
      obtain ⟨error, herror⟩ := hrefusal hother hoptional
      rw [h] at herror
      cases herror

/-- The type `unit.kind[]`. -/
def WrittenType.unitKinds : WrittenType :=
  ⟨"unit", ["kind"], false, 1, by decide, by decide, by decide⟩

/-- An array of members is subtracted from, and converted to. Each of the predefined types is
    converted to in front of a minus sign. -/
theorem parseWith_before_unitKinds :
    parseWith ⟨99⟩ (WrittenType.unitKinds.before "" "a ? int : b") =
        .ok (.unsupported "Type conversion is not supported") ∧
      (∃ t, parseWith ⟨99⟩ "unit.kind[]" = .ok t ∧
        parseWith ⟨99⟩ (WrittenType.unitKinds.before "-" "a ? int : b") =
          .ok (.binary "-" t
            (.conditional (.parameter "a") (.parameter "int") (.parameter "b")))) ∧
      ∀ name ∈ ["bool", "byte", "char", "decimal", "double", "float", "int", "long", "object",
          "sbyte", "short", "string", "uint", "ulong", "ushort"],
        parseWith ⟨99⟩ ("(" ++ name ++ ")-(a ? int : b)") =
          .ok (.unsupported "Type conversion is not supported") := by
  have hparse : parseWith ⟨9⟩ "a ? int : b" =
      .ok (.conditional (.parameter "a") (.parameter "int") (.parameter "b")) := by
    decide +kernel
  have hlimit {text : String} {tokens : List Token} (h : tokenize text = .ok tokens)
      (htext : text.length ≤ 99) : tokens.length ≤ 99 := by
    have hlength := length_le_of_lex _ h
    rw [String.length_toList] at hlength
    omega
  have hother : ¬ WrittenType.unitKinds.IsPredefined := by
    rintro ⟨hmembers, -⟩
    cases hmembers
  have hshape : ∀ name ∈ predefinedTypes,
      isIdentifier name.toList = true ∧ isKeyword name = false ∧ name.length ≤ 9 := by
    decide
  obtain ⟨⟨tokens, htokens, hconversion⟩, hsigns⟩ :=
    parseWith_before WrittenType.unitKinds hparse
  obtain ⟨tokens', htokens', hminus⟩ := hsigns .minus (.inr rfl)
  refine ⟨hconversion 99 (hlimit htokens (by decide)),
    (hminus 99 (hlimit htokens' (by decide))).2.1 hother rfl, fun name hname => ?_⟩
  obtain ⟨hidentifier, hkeyword, hlength⟩ := hshape name hname
  let type : WrittenType := ⟨name, [], false, 0, hidentifier, hkeyword, by simp⟩
  have htext : type.before "-" "a ? int : b" = "(" ++ name ++ ")-(a ? int : b)" := by
    simp [WrittenType.before, WrittenType.text, type, String.append_assoc]
  obtain ⟨-, hpredefined⟩ := parseWith_before type hparse
  obtain ⟨tokens'', htokens'', hconverted⟩ := hpredefined .minus (.inr rfl)
  rw [show Symbol.minus.text = "-" from rfl, htext] at htokens'' hconverted
  refine (hconverted 99 (hlimit htokens'' ?_)).1.2 ⟨rfl, hname⟩
  have hopen : "(".length = 1 := by decide
  have hbehind : ")-(a ? int : b)".length = 15 := by decide
  simp only [String.length_append]
  omega

end Formula
