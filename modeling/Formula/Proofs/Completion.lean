import Formula.Proofs.Advance
import Formula.Proofs.Limit
import Formula.Proofs.Parenthesis
import Formula.Proofs.Recognition
import Formula.Proofs.Spacing

set_option autoImplicit false

/-! # Errors come in time

What stands in front of a reported error is still the beginning of a formula: a name can stand where
an operand or a member is missing, and what is open can be closed. The words that complete it depend
on the parser that fails; every parser around it puts what it has read in front of them and closes
what it has opened itself. What it has read is read in the same way again, since what now follows it
starts like what followed it before, or with a mark. -/

namespace Formula

open Grammar Token
open Token (Kind)

/-- The name that stands for a missing operand or member. -/
def missing : Word := .name "x" (by decide)

/-- Some phrase is derived from all of the kinds. -/
def Grammar.Whole {α : Type} (phrase : α → Phrase) (kinds : List Kind) : Prop :=
  ∃ a, Nonempty (Derivation (phrase a) kinds [])

/-- A whole phrase in front of other tokens that end it. -/
theorem Grammar.Whole.exists_derivation {α : Type} {phrase : α → Phrase} {kinds : List Kind}
    (h : Whole phrase kinds) (other : List Kind) (hmoves : ∀ a, Moves (phrase a) [] other) :
    ∃ a, Nonempty (Derivation (phrase a) (kinds ++ other) other) := by
  obtain ⟨a, ⟨d⟩⟩ := h
  obtain ⟨taken, rfl, hmove⟩ := d.exists_taken
  rw [List.append_nil]
  exact ⟨a, hmove other (hmoves a)⟩

namespace Parser

variable {α : Type}

/-! ## Completing the tokens in front of an error -/

section Resumes

variable {setting : Setting} {tokens rest : List Token} {error : ParseError}
  {P Q : List Kind → Prop}

/-- The error is reported at one of the tokens or behind them, and the tokens in front of it can be
    completed to such kinds. -/
def Resumes (setting : Setting) (tokens : List Token) (error : ParseError) (P : List Kind → Prop) :
    Prop :=
  ∃ before left added cause, tokens = before ++ left ∧ error = setting.errorAt left cause ∧
    P (before.map Token.kind ++ List.map Word.kind added)

theorem Resumes.mono (h : Resumes setting tokens error P) (hPQ : ∀ kinds, P kinds → Q kinds) :
    Resumes setting tokens error Q := by
  obtain ⟨before, left, added, cause, htokens, herror, hP⟩ := h
  exact ⟨before, left, added, cause, htokens, herror, hPQ _ hP⟩

/-- Tokens in front and words behind. -/
theorem Resumes.extend (taken : List Token) (h : Resumes setting rest error P)
    (hPQ : ∀ kinds, P kinds →
      ∃ added, Q (taken.map Token.kind ++ (kinds ++ List.map Word.kind added))) :
    Resumes setting (taken ++ rest) error Q := by
  obtain ⟨before, left, added, cause, rfl, herror, hP⟩ := h
  obtain ⟨closing, hQ⟩ := hPQ _ hP
  refine ⟨taken ++ before, left, added ++ closing, cause, by simp, herror, ?_⟩
  simpa using hQ

/-- Tokens in front. -/
theorem Resumes.prepend (taken : List Token) (h : Resumes setting rest error P)
    (hPQ : ∀ kinds, P kinds → Q (taken.map Token.kind ++ kinds)) :
    Resumes setting (taken ++ rest) error Q :=
  h.extend taken fun kinds hP => ⟨[], by simpa using hPQ kinds hP⟩

end Resumes

/-- Unless it fails for its nesting, the parser fails behind tokens that can be completed to the
    phrase. -/
def Completes (p : Parser α) (phrase : α → Phrase) : Prop :=
  ∀ ⦃setting : Setting⦄ ⦃tokens : List Token⦄ ⦃error : ParseError⦄, p.Fails setting tokens error →
    (∀ limit, error.cause ≠ .tooDeep limit) → Resumes setting tokens error (Whole phrase)

/-- What a parser has read is derived in front of other tokens, too. -/
theorem Reads.exists_taken {p : Parser α} {phrase : α → Phrase} {bound : Nat}
    (hsound : Sound p phrase bound) (hadvances : Advances p) {setting : Setting}
    {tokens rest : List Token} {folds : List Fold} {a : α}
    (h : p.Reads setting tokens folds a rest) :
    ∃ taken, tokens = taken ++ rest ∧ ∀ other, Moves (phrase a) (rest.map Token.kind) other →
      Nonempty (Derivation (phrase a) (taken.map Token.kind ++ other) other) := by
  obtain ⟨taken, rfl⟩ := hadvances h
  obtain ⟨d, -, -⟩ := hsound h
  obtain ⟨kinds, hkinds, hmove⟩ := d.exists_taken
  rw [List.map_append] at hkinds
  obtain rfl := List.append_cancel_right hkinds
  exact ⟨taken, rfl, hmove⟩

theorem cons_of_head? {tokens : List Token} {kind : Kind}
    (h : tokens.head?.map Token.kind = some kind) :
    ∃ start, tokens = ⟨kind, start⟩ :: tokens.drop 1 := by
  match tokens, h with
  | ⟨_, start⟩ :: tail, h =>
    obtain rfl := Option.some.inj h
    exact ⟨start, rfl⟩

variable {item : Parser Expr} {bound : Nat} (hsound : Sound item .expression bound)
  (hadvances : Advances item) (hitem : Completes item .expression)

/-! ## Arguments -/

section Arguments

include hsound hadvances hitem

theorem completes_argumentsFrom_of_fewer {close : Symbol}
    (hclose : close = .closeParen ∨ close = .closeBracket) {commas : Nat}
    (hfewer : ∀ fewer, commas = fewer + 1 →
      Completes (argumentsFrom item close fewer) (.items close)) :
    Completes (argumentsFrom item close commas) (.items close) := by
  intro setting tokens error h hcause
  rcases fails_argumentsFrom h with
    hfails | ⟨before, first, middle, hfirst, -, herror | ⟨fewer, rfl, hcomma, hfails⟩⟩
  · refine (hitem hfails hcause).extend [] fun kinds hwhole => ⟨[.mark close], ?_⟩
    obtain ⟨e, ⟨d⟩⟩ := hwhole.exists_derivation _ fun e => standsIn_close [] [] hclose
    exact ⟨[e], ⟨.only d⟩⟩
  · obtain ⟨taken, rfl, hmove⟩ := hfirst.exists_taken hsound hadvances
    obtain ⟨d⟩ := hmove _ (standsIn_close _ [] hclose)
    exact ⟨taken, middle, [.mark close], _, rfl, herror, [first], ⟨.only d⟩⟩
  · obtain ⟨taken, rfl, hmove⟩ := hfirst.exists_taken hsound hadvances
    obtain ⟨start, hmiddle⟩ := cons_of_head? hcomma
    rw [hmiddle, List.append_cons]
    refine (hfewer fewer rfl hfails hcause).prepend _ fun kinds hwhole => ?_
    obtain ⟨es, ⟨others⟩⟩ := hwhole
    obtain ⟨d⟩ := hmove (.symbol .comma :: kinds) (standsIn_symbol _ _ (by decide))
    simpa using ⟨first :: es, ⟨.comma d others⟩⟩

theorem completes_arguments {close : Symbol}
    (hclose : close = .closeParen ∨ close = .closeBracket) :
    Completes (arguments item close) (.arguments close) := by
  have hitems (commas : Nat) : Completes (argumentsFrom item close commas) (.items close) := by
    induction commas with
    | zero =>
      exact completes_argumentsFrom_of_fewer hsound hadvances hitem hclose fun fewer h => by cases h
    | succ commas ih =>
      refine completes_argumentsFrom_of_fewer hsound hadvances hitem hclose fun fewer h => ?_
      obtain rfl := Nat.succ.inj h
      exact ih
  intro setting tokens error h hcause
  refine (hitems _ (fails_arguments h) hcause).mono fun kinds hwhole => ?_
  obtain ⟨es, ⟨d⟩⟩ := hwhole
  exact ⟨es, ⟨.listed d⟩⟩

end Arguments

/-! ## Primary expressions -/

/-- The kinds start with a missing operand or as the tokens do. -/
def Begins (tokens : List Token) (kinds : List Kind) : Prop :=
  kinds.head? = some missing.kind ∨ kinds.head? = tokens.head?.map Token.kind

/-- Without a parenthesis in front there is no conversion. -/
theorem whole_value {base : Expr} {first : Kind} {others : List Kind}
    (hfirst : first ≠ .symbol .openParen)
    (primary : Derivation (.primary base) (first :: others) []) :
    Whole .unary (first :: others) := by
  have hunconverted : ∀ operand, ¬ Conversion (first :: others) operand := by
    intro operand htype
    exact hfirst (Option.some.inj htype.head?_eq)
  exact ⟨base, ⟨.value hunconverted primary (.bare base [])⟩⟩

theorem whole_missing : Whole .unary [missing.kind] := by
  obtain ⟨d, -⟩ := exists_leaf (show isKeyword "x" = false by decide) (stops_nil levelCount)
  exact ⟨_, ⟨d⟩⟩

theorem whole_parenthesis {inner : List Kind} (h : Whole .expression inner) :
    Whole .unary (.symbol .openParen :: (inner ++ [.symbol .closeParen])) := by
  obtain ⟨e, ⟨d⟩⟩ := h
  exact ⟨e, d.nonempty_operand (by simp)⟩

/-- Where an operand is missing, a name completes the tokens in front. -/
theorem resumes_missing {setting : Setting} {tokens : List Token} {error : ParseError}
    {cause : ParseError.Cause} (h : error = setting.errorAt tokens cause) :
    Resumes setting tokens error fun kinds => Begins tokens kinds ∧ Whole .unary kinds :=
  ⟨[], tokens, [missing], cause, rfl, h, .inl rfl, whole_missing⟩

/-- The members of a dotted name, in front of any other tokens. -/
theorem exists_members (tokens : List Token) :
    ∃ dotted, tokens = dotted ++ tokens.drop (2 * (memberNames tokens).length) ∧
      ∀ other, Members (dotted.map Token.kind ++ other) (memberNames tokens) other := by
  obtain ⟨taken, htaken, -, hmembers⟩ := (members_memberNames tokens).exists_taken
  refine ⟨tokens.take (2 * (memberNames tokens).length), (List.take_append_drop _ _).symm, ?_⟩
  have hkinds : (tokens.take (2 * (memberNames tokens).length)).map Token.kind = taken := by
    refine List.append_cancel_right (Eq.trans ?_ htaken)
    rw [← List.map_append, List.take_append_drop]
  rw [hkinds]
  exact hmembers

section Primary

include hsound hadvances hitem

/-- Behind the name and the members of a call, its arguments can be completed. -/
theorem resumes_named {setting : Setting} {tokens : List Token} {error : ParseError}
    {start position : Nat} {name : String}
    (h : (named item position name).Fails setting tokens error)
    (hcause : ∀ limit, error.cause ≠ .tooDeep limit) :
    Resumes setting (⟨.name name, start⟩ :: tokens) error fun kinds =>
      Begins (⟨.name name, start⟩ :: tokens) kinds ∧ Whole .unary kinds := by
  obtain ⟨hword, hcall, hfails⟩ := fails_named h
  obtain ⟨opening, hbehind⟩ := cons_of_head? hcall
  obtain ⟨dotted, htokens, hdotted⟩ := exists_members tokens
  rw [hbehind, List.append_cons] at htokens
  have hresumes := completes_arguments hsound hadvances hitem (.inl rfl) hfails hcause
  have hcalled (es : List Expr) (kinds : List Kind)
      (arguments : Derivation (.arguments .closeParen es) kinds []) :
      Derivation (.primary (.call (String.intercalate "." (name :: memberNames tokens)) es))
        (.name name :: (dotted.map Token.kind ++ .symbol .openParen :: kinds)) [] :=
    .call name hword (hdotted _) arguments
  generalize memberNames tokens = names at htokens hresumes hcalled
  rw [htokens, ← List.cons_append]
  refine hresumes.prepend _ fun kinds ⟨es, ⟨arguments⟩⟩ => ⟨.inr rfl, ?_⟩
  simpa using whole_value (by simp) (hcalled es kinds arguments)

theorem resumes_primary {setting : Setting} {tokens : List Token} {error : ParseError}
    (h : (primary item).Fails setting tokens error)
    (hcause : ∀ limit, error.cause ≠ .tooDeep limit) :
    Resumes setting tokens error fun kinds => Begins tokens kinds ∧ Whole .unary kinds := by
  match tokens with
  | [] => exact resumes_missing (fails_primary_nil h)
  | ⟨kind, start⟩ :: tail =>
    rcases fails_primary_cons h with
      ⟨name, rfl, hfails⟩ | ⟨rfl, hfails | ⟨before, inner, middle, hinner, herror⟩⟩ |
      ⟨symbol, -, -, herror⟩
    · exact resumes_named hsound hadvances hitem hfails hcause
    · refine (hitem hfails hcause).extend [_] fun kinds hwhole => ⟨[.mark .closeParen], ?_⟩
      exact ⟨.inr rfl, whole_parenthesis hwhole⟩
    · obtain ⟨taken, rfl, hmove⟩ := hinner.exists_taken hsound hadvances
      obtain ⟨d⟩ := hmove [] (standsIn_nil _)
      rw [List.append_nil] at d
      refine ⟨⟨.symbol .openParen, start⟩ :: taken, middle, [.mark .closeParen], _, rfl, herror,
        .inr rfl, ?_⟩
      exact whole_parenthesis ⟨inner, ⟨d⟩⟩
    · exact resumes_missing herror

end Primary

/-! ## Suffixes -/

/-- The kinds are suffixes of any primary expression. They can stand where the tokens did, or are a
    missing member. -/
def Suffixed (tokens : List Token) (kinds : List Kind) : Prop :=
  (StandsIn (tokens.map Token.kind) kinds ∨ kinds = [.symbol .dot, missing.kind]) ∧
    ∀ operand, Whole (.suffixes operand) kinds

section Suffixes

include hsound hadvances hitem

/-- A suffix in brackets: an invocation or an access to an element. -/
theorem resumes_bracketed {opening close : Symbol} {folded : Expr} {count start : Nat}
    {setting : Setting} {tail : List Token} {error : ParseError} (hdot : opening ≠ .dot)
    (hclose : close = .closeParen ∨ close = .closeBracket)
    (hfold : ∀ {operand e : Expr} {es : List Expr} {input middle : List Kind},
      Derivation (.arguments close es) input middle → Derivation (.suffixes folded e) middle [] →
      Derivation (.suffixes operand e) (.symbol opening :: input) [])
    (hothers : ∀ {middle : List Token}, (suffixes item count folded).Fails setting middle error →
      Resumes setting middle error (Suffixed middle))
    (h : (arguments item close).Fails setting tail error ∨ ∃ before es middle,
      (arguments item close).Reads setting tail before es middle ∧
        (suffixes item count folded).Fails setting middle error)
    (hcause : ∀ limit, error.cause ≠ .tooDeep limit) :
    Resumes setting (⟨.symbol opening, start⟩ :: tail) error
      (Suffixed (⟨.symbol opening, start⟩ :: tail)) := by
  have hstands (kinds : List Kind) :
      StandsIn (.symbol opening :: tail.map Token.kind) (.symbol opening :: kinds) :=
    standsIn_cons (by simpa using hdot) _ _
  rcases h with h | ⟨before, es, middle, hread, h⟩
  · refine (completes_arguments hsound hadvances hitem hclose h hcause).prepend [_]
      fun kinds hwhole => ⟨.inl (hstands kinds), fun operand => ?_⟩
    obtain ⟨es, ⟨arguments⟩⟩ := hwhole
    exact ⟨folded, ⟨hfold arguments (.bare folded [])⟩⟩
  · obtain ⟨taken, rfl, hmove⟩ := hread.exists_taken (sound_arguments hsound close)
      (advances_arguments hadvances close)
    rw [← List.cons_append]
    refine (hothers h).prepend _ fun kinds ⟨_, hwhole⟩ => ⟨.inl (hstands _), fun operand => ?_⟩
    obtain ⟨e, ⟨others⟩⟩ := hwhole folded
    obtain ⟨arguments⟩ := hmove kinds hclose
    exact ⟨e, ⟨hfold arguments others⟩⟩

theorem resumes_suffixes {setting : Setting} {error : ParseError}
    (hcause : ∀ limit, error.cause ≠ .tooDeep limit) (count : Nat) (operand : Expr)
    {tokens : List Token} (h : (suffixes item count operand).Fails setting tokens error) :
    Resumes setting tokens error (Suffixed tokens) := by
  induction count generalizing operand tokens with
  | zero => exact absurd h not_fails_suffixes_zero
  | succ count ih =>
    match tokens with
    | [] => exact absurd h not_fails_suffixes_nil
    | ⟨kind, start⟩ :: tail =>
      rcases fails_suffixes_cons h with
        ⟨rfl, hfails⟩ | ⟨rfl, hfails⟩ | ⟨rfl, ⟨-, herror⟩ | ⟨name, hname, hfails⟩⟩
      · exact resumes_bracketed hsound hadvances hitem (by decide) (.inl rfl) .invocation (ih _)
          hfails hcause
      · exact resumes_bracketed hsound hadvances hitem (by decide) (.inr rfl) .element (ih _) hfails
          hcause
      · -- this may turn the name in front into a dotted one, so it does not stand where the dot did
        refine ⟨[⟨.symbol .dot, start⟩], tail, [missing], _, rfl, herror, .inr rfl,
          fun operand => ?_⟩
        exact ⟨_, ⟨.access "x" (.bare _ [])⟩⟩
      · obtain ⟨position, htail⟩ := cons_of_head? hname
        rw [htail]
        refine (ih _ hfails).prepend [_, _] fun kinds ⟨_, hwhole⟩ =>
          ⟨.inl (standsIn_member name _ _), fun operand => ?_⟩
        obtain ⟨e, ⟨others⟩⟩ := hwhole (.unsupported Construct.memberAccess.explanation)
        exact ⟨e, ⟨.access name others⟩⟩

end Suffixes

/-! ## Unary expressions -/

/-- A missing member goes on with a dotted name, or accesses any other primary expression. -/
theorem whole_member {base : Expr} {taken rest : List Kind}
    (primary : Derivation (.primary base) (taken ++ rest) rest)
    (unconverted : ∀ operand, ¬ Conversion (taken ++ rest) operand) :
    Whole .unary (taken ++ [.symbol .dot, missing.kind]) := by
  rcases primary.dotted_or_moves with
    ⟨name, names, behind, hinput, hword, dotted⟩ | ⟨front, hinput, hmove⟩
  · obtain ⟨members, rfl, -, hmembers⟩ := dotted.exists_taken
    obtain rfl : taken = .name name :: members := by
      rw [← List.cons_append] at hinput
      exact List.append_cancel_right hinput
    have hdotted := (hmembers [.symbol .dot, missing.kind]).snoc
    exact whole_value (by simp)
      (.member name hword hdotted (by simp) rfl (by simp))
  · obtain rfl := List.append_cancel_right hinput
    obtain ⟨primary'⟩ := hmove [.symbol .dot, missing.kind]
    have hunconverted : ∀ operand, ¬ Conversion (taken ++ [.symbol .dot, missing.kind]) operand :=
      not_conversion_of_head primary unconverted (operand_dot rest [missing.kind])
    exact ⟨_, ⟨.value hunconverted primary' (.access "x" (.bare _ []))⟩⟩

/-- A primary expression with the suffixes that complete it. -/
theorem whole_suffixed {base : Expr} {taken kinds : List Kind} {rest : List Token}
    (primary : Derivation (.primary base) (taken ++ rest.map Token.kind) (rest.map Token.kind))
    (unconverted : ∀ operand, ¬ Conversion (taken ++ rest.map Token.kind) operand)
    (h : Suffixed rest kinds) : Whole .unary (taken ++ kinds) := by
  obtain ⟨hstands | rfl, hwhole⟩ := h
  · obtain ⟨front, hfront, hmove⟩ := primary.exists_taken
    obtain rfl := List.append_cancel_right hfront
    obtain ⟨primary'⟩ := hmove kinds hstands
    obtain ⟨e, ⟨suffixes⟩⟩ := hwhole base
    exact ⟨e,
      ⟨.value (not_conversion_of_head primary unconverted hstands.operand) primary' suffixes⟩⟩
  · exact whole_member primary unconverted

theorem begins_append {taken rest : List Token} {kinds : List Kind} (h : taken ≠ []) :
    Begins (taken ++ rest) (taken.map Token.kind ++ kinds) := by
  obtain ⟨first, others, rfl⟩ := List.exists_cons_of_ne_nil h
  exact .inr rfl

/-- A type in parentheses in front of an operand that starts as the one behind
    it did, or is a name. -/
theorem begins_and_whole_conversion {taken operand : List Token} {kinds : List Kind}
    (typed : Conversion ((taken ++ operand).map Token.kind) (operand.map Token.kind))
    (hbegins : Begins operand kinds) (h : Whole .unary kinds) :
    Begins (taken ++ operand) (taken.map Token.kind ++ kinds) ∧
      Whole .unary (taken.map Token.kind ++ kinds) := by
  obtain ⟨type, first, behind, hoperand, hinput, htype, hstarts⟩ := conversion_iff.1 typed
  have htaken : taken.map Token.kind = .symbol .openParen :: (type ++ [.symbol .closeParen]) := by
    rw [List.map_append] at hinput
    refine List.append_cancel_right (hinput.trans ?_)
    simp
  obtain ⟨e, ⟨d⟩⟩ := h
  obtain ⟨next, others, rfl, -⟩ := d.opens
  have hnext : StartsConverted type next := by
    rcases hbegins with hmissing | hsame
    · obtain rfl := Option.some.inj hmissing
      exact .inl rfl
    · rw [← List.head?_map, hoperand] at hsame
      obtain rfl := Option.some.inj hsame
      exact hstarts
  refine ⟨begins_append ?_, ?_⟩
  · rintro rfl
    cases htaken
  · have hconversion : Conversion (taken.map Token.kind ++ next :: others) (next :: others) :=
      conversion_iff.2 ⟨type, next, others, rfl, by simp [htaken], htype, hnext⟩
    exact ⟨_, ⟨.conversion hconversion d⟩⟩

/-! ## The levels of the grammar -/

/-- What `Completes` says of a unary expression, and how its completion begins. -/
def CompletesUnary (budget : Nat) : Prop :=
  ∀ ⦃setting : Setting⦄ ⦃tokens : List Token⦄ ⦃error : ParseError⦄,
    (unary budget).Fails setting tokens error → (∀ limit, error.cause ≠ .tooDeep limit) →
      Resumes setting tokens error fun kinds => Begins tokens kinds ∧ Whole .unary kinds

/-- What `Completes` says of the further operands of a chain; the completion can stand where they
    did. -/
def CompletesChain (level budget : Nat) (left : Expr) : Prop :=
  ∀ ⦃setting : Setting⦄ ⦃tokens : List Token⦄ ⦃error : ParseError⦄,
    (chain level budget left).Fails setting tokens error → (∀ limit, error.cause ≠ .tooDeep limit) →
      Resumes setting tokens error fun kinds =>
        StandsIn (tokens.map Token.kind) kinds ∧ Whole (.links level left) kinds

theorem completes_unary {budget : Nat} (hlower : ∀ lower, budget = lower + 1 → CompletesUnary lower)
    (hitem : Completes (expression budget) .expression) : CompletesUnary budget := by
  intro setting tokens error h hcause
  have hsound := (sound budget).1
  have hadvances := (advances budget).1
  cases tokens with
  | nil => exact resumes_missing (fails_unary_nil h)
  | cons token tail =>
    obtain ⟨kind, start⟩ := token
    replace h := fails_unary_cons h
    split at h
    · next operator hoperator =>
      obtain ⟨-, herror⟩ | ⟨lower, rfl, hfails⟩ := h
      · exact absurd (cause_errorAt herror) (hcause _)
      · obtain ⟨rfl, hsign⟩ := symbol_of_unaryOperator? hoperator
        refine (hlower lower rfl hfails hcause).prepend [_] fun kinds hwhole => ⟨.inr rfl, ?_⟩
        obtain ⟨-, e, ⟨d⟩⟩ := hwhole
        exact ⟨_, ⟨.prefixed operator hsign d⟩⟩
    · split at h
      · next operand hconversion =>
        obtain ⟨-, herror⟩ | ⟨lower, rfl, hfails⟩ := h
        · exact absurd (cause_errorAt herror) (hcause _)
        · have typed := conversion_of_conversionAt? hconversion
          obtain ⟨taken, htaken⟩ := conversionAt?_suffix hconversion
          rw [← htaken] at typed ⊢
          exact (hlower lower rfl hfails hcause).prepend _ fun kinds hwhole =>
            begins_and_whole_conversion typed hwhole.1 hwhole.2
      · next hnone =>
        obtain hfails | ⟨_, base, middle, hread, hfails⟩ := h
        · exact resumes_primary hsound hadvances hitem hfails hcause
        · have hunconverted := conversionAt?_eq_none_iff.1 hnone
          have hlength := (sound_primary hsound).length_le hread
          obtain ⟨primary, -, -⟩ := sound_primary hsound hread
          obtain ⟨taken, htaken⟩ := advances_primary hadvances hread
          rw [← htaken] at hunconverted hlength primary ⊢
          rw [List.map_append] at hunconverted primary
          have hne : taken ≠ [] := by
            rintro rfl
            simp only [List.nil_append, Phrase.least] at hlength
            omega
          have hresumes := resumes_suffixes hsound hadvances hitem hcause _ _ hfails
          exact hresumes.prepend _ fun kinds hsuffixed =>
            ⟨begins_append hne, whole_suffixed primary hunconverted hsuffixed⟩

theorem completes_chain {level budget : Nat} (hlevel : level < levelCount)
    (hright : ∀ lower, budget = lower + 1 →
      Completes (binary (level + 1) lower) (.chain (level + 1)))
    (hothers : ∀ lower, budget = lower + 1 → ∀ left, CompletesChain level lower left)
    (left : Expr) : CompletesChain level budget left := by
  intro setting tokens error h hcause
  match tokens with
  | [] => exact absurd h not_fails_chain_nil
  | ⟨kind, start⟩ :: tail =>
    obtain ⟨operator, hoperator, ⟨-, herror⟩ | ⟨lower, rfl, hfails⟩⟩ := fails_chain_cons h
    · exact absurd (cause_errorAt herror) (hcause _)
    · obtain ⟨rfl, binds⟩ := symbol_of_operatorAt? hoperator
      have hstands (kinds : List Kind) :
          StandsIn (.symbol operator :: tail.map Token.kind) (.symbol operator :: kinds) := by
        refine standsIn_cons ?_ _ _
        rintro ⟨⟩
        cases binds
      rcases hfails with hfails | ⟨_, right, middle, hread, hfails⟩
      · refine (hright lower rfl hfails hcause).prepend [_]
          fun kinds ⟨right, ⟨d⟩⟩ => ⟨hstands kinds, ?_⟩
        exact ⟨_, ⟨.link operator binds d (.last _ _ _)⟩⟩
      · obtain ⟨taken, rfl, hmove⟩ := hread.exists_taken (sound_level lower (level + 1) hlevel)
          (advances_level lower (level + 1) hlevel)
        rw [← List.cons_append]
        refine (hothers lower rfl _ hfails hcause).prepend _ fun kinds ⟨hmiddle, e, ⟨others⟩⟩ =>
          ⟨hstands _, ?_⟩
        obtain ⟨next⟩ := hmove kinds hmiddle
        exact ⟨e, ⟨.link operator binds next others⟩⟩

theorem completes_binary_last {budget : Nat} (hunary : CompletesUnary budget) :
    Completes (binary levelCount budget) (.chain levelCount) := by
  intro setting tokens error h hcause
  refine (hunary (fails_binary_last h) hcause).mono fun kinds ⟨_, e, ⟨d⟩⟩ => ?_
  exact ⟨e, ⟨.operand d⟩⟩

theorem completes_binary {level budget : Nat} (hlevel : level < levelCount)
    (hfirst : Completes (binary (level + 1) budget) (.chain (level + 1)))
    (hchain : ∀ left, CompletesChain level budget left) :
    Completes (binary level budget) (.chain level) := by
  intro setting tokens error h hcause
  rcases fails_binary hlevel h with hfails | ⟨_, left, middle, hread, hfails⟩
  · refine (hfirst hfails hcause).mono fun kinds ⟨e, ⟨d⟩⟩ => ?_
    exact ⟨e, ⟨.chain hlevel d (.last _ _ _)⟩⟩
  · obtain ⟨taken, rfl, hmove⟩ := hread.exists_taken (sound_level budget (level + 1) hlevel)
      (advances_level budget (level + 1) hlevel)
    refine (hchain left hfails hcause).prepend _ fun kinds ⟨hmiddle, e, ⟨others⟩⟩ => ?_
    obtain ⟨first⟩ := hmove kinds hmiddle
    exact ⟨e, ⟨.chain hlevel first others⟩⟩

/-! ## Expressions -/

theorem whole_missing_expression : Whole .expression [missing.kind] := by
  obtain ⟨e, ⟨d⟩⟩ := whole_missing
  exact ⟨e, d.nonempty_expression⟩

/-- A condition in front of its branches. -/
theorem whole_conditional {c t : Expr} {condition ifTrue ifFalse : List Kind}
    (hc : Nonempty (Derivation (.chain 0 c)
      (condition ++ .symbol .question :: (ifTrue ++ .symbol .colon :: ifFalse))
      (.symbol .question :: (ifTrue ++ .symbol .colon :: ifFalse))))
    (ht : Nonempty (Derivation (.expression t) (ifTrue ++ .symbol .colon :: ifFalse)
      (.symbol .colon :: ifFalse)))
    (hf : Whole .expression ifFalse) :
    Whole .expression
      (condition ++ .symbol .question :: (ifTrue ++ .symbol .colon :: ifFalse)) := by
  obtain ⟨c⟩ := hc
  obtain ⟨t⟩ := ht
  obtain ⟨f, ⟨d⟩⟩ := hf
  exact ⟨_, ⟨.conditional c t d⟩⟩

theorem completes_expression_succ {budget : Nat}
    (hcondition : Completes (binary 0 budget) (.chain 0))
    (hbranch : Completes (expression budget) .expression) :
    Completes (expression (budget + 1)) .expression := by
  intro setting tokens error h hcause
  rcases fails_expression_succ h with hfails | ⟨_, condition, middle, hread, hmark, hbranches⟩
  · refine (hcondition hfails hcause).mono fun kinds ⟨e, ⟨d⟩⟩ => ?_
    exact ⟨e, ⟨.plain d⟩⟩
  obtain ⟨first, rfl, hfirst⟩ := hread.exists_taken (sound_level budget 0 (Nat.zero_le _))
    (advances_level budget 0 (Nat.zero_le _))
  obtain ⟨start, hmiddle⟩ := cons_of_head? hmark
  have hmark (behind : List Kind) :=
    hfirst (.symbol .question :: behind) (standsIn_symbol _ _ (by decide))
  rcases hbranches with hfails | ⟨_, ifTrue, between, htrue, hbehind⟩
  · rw [hmiddle, List.append_cons]
    refine (hbranch hfails hcause).extend _ fun kinds hwhole => ⟨[.mark .colon, missing], ?_⟩
    obtain ⟨t, ht⟩ := hwhole.exists_derivation [.symbol .colon, missing.kind] fun e =>
      standsIn_symbol _ _ (by decide)
    simpa [Word.kind] using whole_conditional (hmark _) ht whole_missing_expression
  obtain ⟨second, hbetween, hsecond⟩ := htrue.exists_taken (sound budget).1 (advances budget).1
  have hcolon (behind : List Kind) :=
    hsecond (.symbol .colon :: behind) (standsIn_symbol _ _ (by decide))
  rcases hbehind with herror | ⟨hcolonNext, hfails⟩
  · refine ⟨first ++ ⟨.symbol .question, start⟩ :: second, between, [.mark .colon, missing], _, ?_,
      herror, ?_⟩
    · rw [List.append_assoc, List.cons_append, ← hbetween, ← hmiddle]
    · simpa [Word.kind] using
        whole_conditional (hmark _) (hcolon [missing.kind]) whole_missing_expression
  · obtain ⟨position, hnext⟩ := cons_of_head? hcolonNext
    have htokens : first ++ middle = (first ++ ⟨.symbol .question, start⟩ ::
        (second ++ [⟨.symbol .colon, position⟩])) ++ between.drop 1 := by
      rw [hmiddle, hbetween, hnext]
      simp
    rw [htokens]
    refine (hbranch hfails hcause).prepend _ fun kinds hwhole => ?_
    simpa using whole_conditional (hmark _) (hcolon kinds) hwhole

/-- Every parser of the grammar fails behind tokens that can be completed. -/
theorem completes (budget : Nat) :
    Completes (expression budget) .expression ∧ CompletesUnary budget ∧
      (∀ level, level < levelCount → ∀ left, CompletesChain level budget left) ∧
      ∀ level, level ≤ levelCount → Completes (binary level budget) (.chain level) := by
  have hzero : Completes (expression 0) .expression := by
    intro setting tokens error h hcause
    exact absurd (cause_errorAt (fails_expression_zero h)) (hcause _)
  exact levels_induction (C := fun level budget => ∀ left, CompletesChain level budget left)
    (B := fun level budget => Completes (binary level budget) (.chain level))
    hzero (fun _ => completes_unary) (fun _ _ => completes_chain)
    (fun _ => completes_binary_last) (fun _ _ => completes_binary)
    (fun _ => completes_expression_succ) budget

theorem completes_formula (budget : Nat) : Completes (formula budget) .expression := by
  intro setting tokens error h hcause
  rcases fails_formula h with hfails | ⟨_, e, middle, cause, hread, -, herror, -⟩
  · exact (completes budget).1 hfails hcause
  · obtain ⟨taken, rfl, hmove⟩ := hread.exists_taken (sound budget).1 (advances budget).1
    obtain ⟨d⟩ := hmove [] (standsIn_nil _)
    exact ⟨taken, middle, [], cause, rfl, herror, e, ⟨d⟩⟩

end Parser

/-! ## The text in front of an error -/

/-- The text up to a token, or all of it, has the tokens in front of that one. -/
theorem exists_front {text : String} {before left : List Token}
    (h : tokenize text = .ok (before ++ left)) :
    ∃ front behind : String, text = front ++ behind ∧
      front.utf8ByteSize = (left.head?.map Token.position).getD text.utf8ByteSize ∧
      Lexes front.toList (before.map Token.kind) := by
  obtain ⟨front, behind, htext, hposition, -, hfront⟩ := exists_split h
  have hbefore : lex 0 front = .ok before := by
    have hend := hfront [] [] (by simp [Separated]) (lex_nil _)
    rwa [List.append_nil, List.append_nil] at hend
  rw [Nat.zero_add, Nat.zero_add, byteLength_toList] at hposition
  refine ⟨String.ofList front, String.ofList behind, eq_ofList_append htext, ?_, before, ?_, rfl⟩
  · rw [utf8ByteSize_ofList]
    exact hposition
  · rw [String.toList_ofList]
    exact hbefore

/-- No error comes too late: under a limit of at least the number of the tokens with the end of the
    text counted as one, what stands in front of the position of an error is the beginning of a text
    that is parsed under any limit from some on. -/
theorem exists_completion {text : String} {tokens : List Token} {limit : Nat} {error : ParseError}
    (htokens : tokenize text = .ok tokens) (hlimit : tokens.length + 1 ≤ limit)
    (h : parseWith ⟨limit⟩ text = .error error) :
    ∃ front behind : String, text = front ++ behind ∧ front.utf8ByteSize = error.position ∧
      ∃ completion e enough, ∀ depth, enough ≤ depth →
        parseWith ⟨depth⟩ (front ++ completion) = .ok e := by
  have hfails := fails_formula_of_parseWith htokens h
  have hcause := Parser.spared_formula limit hfails hlimit
  obtain ⟨before, left, added, cause, rfl, rfl, e, ⟨d⟩⟩ :=
    Parser.completes_formula limit hfails hcause
  obtain ⟨front, behind, htext, hposition, hfront⟩ := exists_front htokens
  obtain ⟨completion, hbehind⟩ := exists_behind added
  have hlexes : Lexes (front ++ String.ofList completion).toList
      (before.map Token.kind ++ added.map Word.kind) := by
    rw [String.toList_append, String.toList_ofList]
    exact hfront.append hbehind.separated hbehind.lexes
  obtain ⟨completed, hcompleted, hkinds⟩ := exists_tokens_of_lexes hlexes
  rw [← hkinds] at d
  refine ⟨front, behind, htext, hposition, String.ofList completion, e, completed.length, ?_⟩
  intro depth hdepth
  exact parseWith_of_derivation hcompleted hdepth d

/-- The operand that is missing behind the sign is the first thing that is wrong. -/
theorem exists_completion_of_call :
    parseWith ⟨9⟩ "max(a, -) + b" = .error ⟨8, .expectedExpression (.symbol .closeParen)⟩ ∧
    ∃ front behind : String, "max(a, -) + b" = front ++ behind ∧ front.utf8ByteSize = 8 ∧
      ∃ completion e enough, ∀ depth, enough ≤ depth →
        parseWith ⟨depth⟩ (front ++ completion) = .ok e := by
  have htokens : tokenize "max(a, -) + b" = .ok [⟨.name "max", 0⟩, ⟨.symbol .openParen, 3⟩,
      ⟨.name "a", 4⟩, ⟨.symbol .comma, 5⟩, ⟨.symbol .minus, 7⟩, ⟨.symbol .closeParen, 8⟩,
      ⟨.symbol .plus, 10⟩, ⟨.name "b", 12⟩] := by
    decide +kernel
  have herror : parseWith ⟨9⟩ "max(a, -) + b" =
      .error ⟨8, .expectedExpression (.symbol .closeParen)⟩ := by
    decide +kernel
  exact ⟨herror, exists_completion htokens (by decide) herror⟩

end Formula
