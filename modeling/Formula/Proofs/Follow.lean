import Formula.Proofs.Conversion
import Formula.Proofs.Completeness
import Mathlib.Logic.Nonempty

set_option autoImplicit false

/-! # What may follow a derivation

A derivation takes the front of its input, and it looks at what it leaves in two places
only: a name must not go on there as a dotted name or a call, and no operand may start there
that would turn a type in parentheses into a conversion. So it goes through in front of any
other tokens that do neither. -/

namespace Formula.Grammar

open Token (Kind)

variable {phrase : Phrase} {input rest other : List Kind}

/-! ## What a derivation leaves -/

theorem suffix_of_cons_suffix {kind : Kind} (h : kind :: rest <:+ input) : rest <:+ input :=
  (List.suffix_cons kind rest).trans h

theorem Members.suffix {names : List String} (h : Members input names rest) : rest <:+ input := by
  obtain ⟨taken, rfl, -⟩ := h.exists_taken
  exact List.suffix_append taken rest

theorem Conversion.suffix {operand : List Kind} (h : Conversion input operand) :
    operand <:+ input := by
  obtain ⟨type, first, behind, rfl, rfl, -⟩ := conversion_iff.1 h
  exact ⟨.symbol .openParen :: (type ++ [.symbol .closeParen]), by simp⟩

theorem Derivation.suffix (d : Derivation phrase input rest) : rest <:+ input := by
  induction d with
  | plain _ ih => exact ih
  | conditional _ _ _ ihc iht ihf =>
    exact ihf.trans ((suffix_of_cons_suffix iht).trans (suffix_of_cons_suffix ihc))
  | chain _ _ _ ihfirst ihothers => exact ihothers.trans ihfirst
  | operand _ ih => exact ih
  | last => exact List.suffix_rfl
  | link _ _ _ _ ihnext ihothers => exact (ihothers.trans ihnext).trans (List.suffix_cons _ _)
  | prefixed _ _ _ ih => exact ih.trans (List.suffix_cons _ _)
  | conversion type _ ih => exact ih.trans type.suffix
  | value _ _ _ ihprimary ihsuffixes => exact ihsuffixes.trans ihprimary
  | number | string | character | trueLiteral | falseLiteral | nullLiteral | parameter =>
    exact List.suffix_cons _ _
  | member _ _ dotted => exact dotted.suffix.trans (List.suffix_cons _ _)
  | call _ _ dotted _ ih =>
    exact (ih.trans (suffix_of_cons_suffix dotted.suffix)).trans (List.suffix_cons _ _)
  | parenthesis _ ih => exact (suffix_of_cons_suffix ih).trans (List.suffix_cons _ _)
  | bare => exact List.suffix_rfl
  | invocation _ _ iharguments ihothers =>
    exact (ihothers.trans iharguments).trans (List.suffix_cons _ _)
  | element _ _ iharguments ihothers =>
    exact (ihothers.trans iharguments).trans (List.suffix_cons _ _)
  | access _ _ ih => exact (ih.trans (List.suffix_cons _ _)).trans (List.suffix_cons _ _)
  | empty => exact List.suffix_cons _ _
  | listed _ ih => exact ih
  | only _ ih => exact suffix_of_cons_suffix ih
  | comma _ _ ih ihothers => exact ihothers.trans (suffix_of_cons_suffix ih)

/-! ## Other tokens behind -/

/-- The tokens `other` can stand where `rest` did: no member starts there that did not, and only a
    token that was there before starts an operand. -/
structure StandsIn (rest other : List Kind) : Prop where
  member : startsMember rest = false → startsMember other = false
  operand : ∀ first ∈ other.head?,
    (first.startsOperand || first.isSign) = true → rest.head? = some first

/-- Nothing that starts an operand or a member can stand in for anything. -/
theorem standsIn_of_head {rest other : List Kind}
    (h : ∀ first ∈ other.head?, (first.startsOperand || first.isSign) = false ∧
      first ≠ .symbol .dot) :
    StandsIn rest other where
  member _ := by
    unfold startsMember
    split
    · exact absurd rfl (h _ rfl).2
    · rfl
  operand first hfirst hstarts := by
    rw [(h first hfirst).1] at hstarts
    cases hstarts

theorem standsIn_nil (rest : List Kind) : StandsIn rest [] :=
  standsIn_of_head (by simp)

theorem standsIn_symbol {mark : Symbol} (rest behind : List Kind)
    (hmark : mark ∈ [.question, .colon, .comma, .closeParen, .closeBracket]) :
    StandsIn rest (.symbol mark :: behind) := by
  refine standsIn_of_head ?_
  intro first hfirst
  obtain rfl : Kind.symbol mark = first := by simpa using hfirst
  clear hfirst
  revert mark
  decide

theorem standsIn_close {close : Symbol} (rest behind : List Kind)
    (hclose : close = .closeParen ∨ close = .closeBracket) :
    StandsIn rest (.symbol close :: behind) := by
  rcases hclose with rfl | rfl
  · exact standsIn_symbol rest behind (by decide)
  · exact standsIn_symbol rest behind (by decide)

/-- The same token stands in for itself, unless it is the dot of a member. -/
theorem standsIn_cons {kind : Kind} (hdot : kind ≠ .symbol .dot) (behind behind' : List Kind) :
    StandsIn (kind :: behind) (kind :: behind') where
  member _ := by
    unfold startsMember
    split
    · next heq => exact absurd (List.cons.inj heq).1 hdot
    · rfl
  operand first hfirst _ := hfirst

/-- No operand starts at a dot. -/
theorem operand_dot (rest behind : List Kind) : ∀ first ∈ (Kind.symbol .dot :: behind).head?,
    (first.startsOperand || first.isSign) = true → rest.head? = some first := by
  intro first hfirst hstarts
  obtain rfl := Option.some.inj hfirst
  cases hstarts

/-- Where a member was, anything may follow the dot. -/
theorem standsIn_member (name : String) (behind behind' : List Kind) :
    StandsIn (.symbol .dot :: .name name :: behind) (.symbol .dot :: behind') where
  member hmember := by cases hmember
  operand := operand_dot _ _

theorem StandsIn.uncalled (h : StandsIn rest other)
    (hrest : rest.head? ≠ some (.symbol .openParen)) :
    other.head? ≠ some (.symbol .openParen) :=
  fun hother => hrest (h.operand _ hother rfl)

/-- More tokens in front change nothing. -/
theorem StandsIn.append (h : StandsIn rest other) (taken : List Kind) :
    StandsIn (taken ++ rest) (taken ++ other) := by
  match taken with
  | [] => exact h
  | [kind] =>
    refine ⟨fun hmember => ?_, fun first hfirst _ => hfirst⟩
    unfold startsMember at hmember ⊢
    split
    · next name tail heq =>
      obtain ⟨rfl, rfl⟩ := List.cons.inj heq
      -- the name behind the dot was there before
      have hhead : rest.head? = some (.name name) := h.operand _ rfl rfl
      match rest, hhead with
      | .name _ :: _, _ => exact hmember
    · rfl
  | first :: second :: taken =>
    refine ⟨fun hmember => ?_, fun first hfirst _ => hfirst⟩
    unfold startsMember at hmember ⊢
    split
    · next name tail heq =>
      simp only [List.cons_append, List.cons.injEq] at heq
      obtain ⟨rfl, rfl, -⟩ := heq
      exact hmember
    · rfl

/-- What must hold of other tokens behind a phrase. Arguments end by themselves. -/
def Moves : Phrase → List Kind → List Kind → Prop
  | .arguments close _, _, _ => close = .closeParen ∨ close = .closeBracket
  | .items close _, _, _ => close = .closeParen ∨ close = .closeBracket
  | _, rest, other => StandsIn rest other

/-- A parenthesis that is no conversion does not become one when other tokens follow its primary
    expression, unless an operand starts there that did not before. -/
theorem not_conversion_of_head {base : Expr} {taken : List Kind}
    (primary : Derivation (.primary base) (taken ++ rest) rest)
    (unconverted : ∀ operand, ¬ Conversion (taken ++ rest) operand)
    (h : ∀ first ∈ other.head?, (first.startsOperand || first.isSign) = true →
      rest.head? = some first)
    (operand : List Kind) : ¬ Conversion (taken ++ other) operand := by
  rw [conversion_iff]
  rintro ⟨type, first, behind, rfl, heq, htype, hstarts⟩
  have hlength := primary.nesting_add_length_le
  cases taken with
  | nil =>
    simp only [List.nil_append, Phrase.least] at hlength
    omega
  | cons kind taken =>
    obtain ⟨rfl, htaken⟩ := List.cons.inj heq
    cases primary with
    | parenthesis inner =>
      -- the primary expression goes on to a closing parenthesis, and so does the type
      obtain ⟨front, hfront⟩ := inner.suffix
      obtain rfl : taken = front ++ [.symbol .closeParen] := by
        have hcancel : taken ++ rest = (front ++ [.symbol .closeParen]) ++ rest := by
          simpa using hfront.symm
        exact List.append_cancel_right hcancel
      replace htaken : front ++ .symbol .closeParen :: other =
          type ++ .symbol .closeParen :: first :: behind := by
        simpa using htaken
      rcases eq_or_exists_of_append_close htaken htype.closeParen_not_mem with
        ⟨rfl, rfl⟩ | ⟨middle, rfl, hmiddle⟩
      · have hhead : rest.head? = some first := h first rfl (by
          rcases hstarts with hstarts | ⟨hstarts, -⟩ <;> simp [hstarts])
        obtain ⟨behind', rfl⟩ := List.head?_eq_some_iff.1 hhead
        exact unconverted _ (conversion_iff.2 ⟨_, first, behind', rfl, by simp, htype, hstarts⟩)
      · cases middle with
        | nil =>
          obtain ⟨rfl, -⟩ := List.cons.inj hmiddle
          rcases hstarts with hstarts | ⟨hstarts, -⟩ <;> cases hstarts
        | cons next middle =>
          obtain ⟨rfl, -⟩ := List.cons.inj hmiddle
          exact unconverted _ (conversion_iff.2
            ⟨type, first, middle ++ .symbol .closeParen :: rest, rfl, by simp, htype, hstarts⟩)

/-- A derivation goes through, no deeper, in front of any tokens that can stand
    where its rest did. -/
theorem Derivation.exists_moved (d : Derivation phrase input rest) :
    ∃ taken, input = taken ++ rest ∧ ∀ other, Moves phrase rest other →
      ∃ d' : Derivation phrase (taken ++ other) other, d'.nesting = d.nesting := by
  induction d with
  | plain _ ih =>
    obtain ⟨taken, rfl, hmove⟩ := ih
    refine ⟨taken, rfl, fun other h => ?_⟩
    obtain ⟨d, hd⟩ := hmove other h
    exact ⟨.plain d, by simp [hd]⟩
  | conditional _ _ _ ihc iht ihf =>
    obtain ⟨first, rfl, hc⟩ := ihc
    obtain ⟨second, rfl, ht⟩ := iht
    obtain ⟨third, rfl, hf⟩ := ihf
    refine ⟨first ++ .symbol .question :: (second ++ .symbol .colon :: third), by simp,
      fun other h => ?_⟩
    obtain ⟨c, hcNesting⟩ :=
      hc (.symbol .question :: (second ++ .symbol .colon :: (third ++ other)))
      (standsIn_symbol _ _ (by decide))
    obtain ⟨t, htNesting⟩ :=
      ht (.symbol .colon :: (third ++ other)) (standsIn_symbol _ _ (by decide))
    obtain ⟨f, hfNesting⟩ := hf other h
    rw [List.append_assoc, List.cons_append, List.append_assoc, List.cons_append]
    exact ⟨.conditional c t f, by simp [hcNesting, htNesting, hfNesting]⟩
  | chain inner _ _ ihfirst ihothers =>
    obtain ⟨taken, rfl, hfirst⟩ := ihfirst
    obtain ⟨taken', rfl, hothers⟩ := ihothers
    refine ⟨taken ++ taken', by simp, fun other h => ?_⟩
    obtain ⟨first, hfirstNesting⟩ := hfirst (taken' ++ other) (StandsIn.append h taken')
    obtain ⟨others, hothersNesting⟩ := hothers other h
    rw [List.append_assoc]
    exact ⟨.chain inner first others, by simp [hfirstNesting, hothersNesting]⟩
  | operand _ ih =>
    obtain ⟨taken, rfl, hmove⟩ := ih
    refine ⟨taken, rfl, fun other h => ?_⟩
    obtain ⟨d, hd⟩ := hmove other h
    exact ⟨.operand d, by simp [hd]⟩
  | last level e rest => exact ⟨[], rfl, fun other _ => ⟨.last _ _ _, rfl⟩⟩
  | link operator binds _ _ ihnext ihothers =>
    obtain ⟨taken, rfl, hnext⟩ := ihnext
    obtain ⟨taken', rfl, hothers⟩ := ihothers
    refine ⟨.symbol operator :: (taken ++ taken'), by simp, fun other h => ?_⟩
    obtain ⟨next, hnextNesting⟩ := hnext (taken' ++ other) (StandsIn.append h taken')
    obtain ⟨others, hothersNesting⟩ := hothers other h
    rw [List.cons_append, List.append_assoc]
    exact ⟨.link operator binds next others, by simp [hnextNesting, hothersNesting]⟩
  | prefixed operator sign _ ih =>
    obtain ⟨taken, rfl, hmove⟩ := ih
    refine ⟨.symbol operator :: taken, rfl, fun other h => ?_⟩
    obtain ⟨d, hd⟩ := hmove other h
    exact ⟨.prefixed operator sign d, by simp [hd]⟩
  | conversion typed converted ih =>
    obtain ⟨type, first, behind, rfl, rfl, htype, hstarts⟩ := conversion_iff.1 typed
    obtain ⟨taken, htaken, hmove⟩ := ih
    have hlength := converted.nesting_add_length_le
    -- the operand is not empty, so its first token stays
    match taken, htaken with
    | [], htaken =>
      simp only [htaken, List.nil_append, Phrase.least] at hlength
      omega
    | kind :: taken, htaken =>
      obtain ⟨rfl, rfl⟩ := List.cons.inj htaken
      refine ⟨.symbol .openParen :: (type ++ .symbol .closeParen :: first :: taken), by simp,
        fun other h => ?_⟩
      obtain ⟨d, hd⟩ := hmove other h
      exact ⟨.conversion (conversion_iff.2
        ⟨type, first, taken ++ other, rfl, by simp, htype, hstarts⟩) d, by simp [hd]⟩
  | value unconverted primary _ ihprimary ihsuffixes =>
    obtain ⟨taken, rfl, hprimary⟩ := ihprimary
    obtain ⟨taken', rfl, hsuffixes⟩ := ihsuffixes
    refine ⟨taken ++ taken', by simp, fun other h => ?_⟩
    have hmiddle := StandsIn.append h taken'
    obtain ⟨primary', hprimaryNesting⟩ := hprimary (taken' ++ other) hmiddle
    obtain ⟨suffixes, hsuffixesNesting⟩ := hsuffixes other h
    rw [List.append_assoc]
    exact ⟨.value (not_conversion_of_head primary unconverted hmiddle.operand) primary' suffixes,
      by simp [hprimaryNesting, hsuffixesNesting]⟩
  | number value => exact ⟨[_], rfl, fun other _ => ⟨.number value other, rfl⟩⟩
  | string value => exact ⟨[_], rfl, fun other _ => ⟨.string value other, rfl⟩⟩
  | character => exact ⟨[_], rfl, fun other _ => ⟨.character other, rfl⟩⟩
  | trueLiteral => exact ⟨[_], rfl, fun other _ => ⟨.trueLiteral other, rfl⟩⟩
  | falseLiteral => exact ⟨[_], rfl, fun other _ => ⟨.falseLiteral other, rfl⟩⟩
  | nullLiteral => exact ⟨[_], rfl, fun other _ => ⟨.nullLiteral other, rfl⟩⟩
  | parameter name word whole uncalled =>
    exact ⟨[.name name], rfl, fun other h =>
      ⟨.parameter name word (h.member whole) (h.uncalled uncalled), rfl⟩⟩
  | member name word dotted several whole uncalled =>
    obtain ⟨taken, rfl, -, hdotted⟩ := dotted.exists_taken
    exact ⟨.name name :: taken, rfl, fun other h =>
      ⟨.member name word (hdotted other) several (h.member whole) (h.uncalled uncalled), rfl⟩⟩
  | call name word dotted _ ih =>
    obtain ⟨taken, rfl, -, hdotted⟩ := dotted.exists_taken
    obtain ⟨inside, rfl, harguments⟩ := ih
    refine ⟨.name name :: (taken ++ .symbol .openParen :: inside), by simp, fun other _ => ?_⟩
    obtain ⟨arguments, hargumentsNesting⟩ := harguments other (.inl rfl)
    rw [List.cons_append, List.append_assoc, List.cons_append]
    exact ⟨.call name word (hdotted _) arguments, by simp [hargumentsNesting]⟩
  | parenthesis _ ih =>
    obtain ⟨taken, rfl, hinner⟩ := ih
    refine ⟨.symbol .openParen :: (taken ++ [.symbol .closeParen]), by simp, fun other _ => ?_⟩
    obtain ⟨inner, hinnerNesting⟩ :=
      hinner (.symbol .closeParen :: other) (standsIn_symbol _ _ (by decide))
    rw [List.cons_append, List.append_assoc, List.cons_append, List.nil_append]
    exact ⟨.parenthesis inner, by simp [hinnerNesting]⟩
  | bare e rest => exact ⟨[], rfl, fun other _ => ⟨.bare e other, rfl⟩⟩
  | invocation _ _ iharguments ihothers =>
    obtain ⟨taken, rfl, harguments⟩ := iharguments
    obtain ⟨taken', rfl, hothers⟩ := ihothers
    refine ⟨.symbol .openParen :: (taken ++ taken'), by simp, fun other h => ?_⟩
    obtain ⟨arguments, hargumentsNesting⟩ := harguments (taken' ++ other) (.inl rfl)
    obtain ⟨others, hothersNesting⟩ := hothers other h
    rw [List.cons_append, List.append_assoc]
    exact ⟨.invocation arguments others, by simp [hargumentsNesting, hothersNesting]⟩
  | element _ _ iharguments ihothers =>
    obtain ⟨taken, rfl, harguments⟩ := iharguments
    obtain ⟨taken', rfl, hothers⟩ := ihothers
    refine ⟨.symbol .openBracket :: (taken ++ taken'), by simp, fun other h => ?_⟩
    obtain ⟨arguments, hargumentsNesting⟩ := harguments (taken' ++ other) (.inr rfl)
    obtain ⟨others, hothersNesting⟩ := hothers other h
    rw [List.cons_append, List.append_assoc]
    exact ⟨.element arguments others, by simp [hargumentsNesting, hothersNesting]⟩
  | access name _ ih =>
    obtain ⟨taken, rfl, hmove⟩ := ih
    refine ⟨.symbol .dot :: .name name :: taken, rfl, fun other h => ?_⟩
    obtain ⟨d, hd⟩ := hmove other h
    exact ⟨.access name d, by simp [hd]⟩
  | empty close rest => exact ⟨[.symbol close], rfl, fun other _ => ⟨.empty close other, rfl⟩⟩
  | listed _ ih =>
    obtain ⟨taken, rfl, hmove⟩ := ih
    refine ⟨taken, rfl, fun other h => ?_⟩
    obtain ⟨d, hd⟩ := hmove other h
    exact ⟨.listed d, by simp [hd]⟩
  | @only close e input rest _ ih =>
    obtain ⟨taken, rfl, hitem⟩ := ih
    refine ⟨taken ++ [.symbol close], by simp, fun other h => ?_⟩
    obtain ⟨item, hitemNesting⟩ := hitem (.symbol close :: other) (standsIn_close _ _ h)
    rw [List.append_assoc]
    exact ⟨.only item, by simp [hitemNesting]⟩
  | comma _ _ ih ihothers =>
    obtain ⟨taken, rfl, hitem⟩ := ih
    obtain ⟨taken', rfl, hothers⟩ := ihothers
    refine ⟨taken ++ .symbol .comma :: taken', by simp, fun other h => ?_⟩
    obtain ⟨item, hitemNesting⟩ :=
      hitem (.symbol .comma :: (taken' ++ other)) (standsIn_symbol _ _ (by decide))
    obtain ⟨others, hothersNesting⟩ := hothers other h
    rw [List.append_assoc]
    exact ⟨.comma item others, by simp [hitemNesting, hothersNesting]⟩

theorem Derivation.exists_taken (d : Derivation phrase input rest) :
    ∃ taken, input = taken ++ rest ∧ ∀ other, Moves phrase rest other →
      Nonempty (Derivation phrase (taken ++ other) other) := by
  obtain ⟨taken, hinput, hmove⟩ := d.exists_moved
  refine ⟨taken, hinput, fun other h => ?_⟩
  obtain ⟨d', -⟩ := hmove other h
  exact ⟨d'⟩

/-- One more member behind a dotted name. -/
theorem Members.snoc {names : List String} {name : String}
    (h : Members input names (.symbol .dot :: .name name :: rest)) :
    Members input (names ++ [name]) rest := by
  generalize hleft : Kind.symbol .dot :: .name name :: rest = left at h
  induction h with
  | done left =>
    subst hleft
    exact .more name (.done rest)
  | more other others ih => exact .more other (ih hleft)

/-- A primary expression is a name with members or ends by itself. -/
theorem Derivation.dotted_or_moves {base : Expr} (d : Derivation (.primary base) input rest) :
    (∃ name names behind, input = .name name :: behind ∧ isKeyword name = false ∧
      Members behind names rest) ∨
    ∃ taken, input = taken ++ rest ∧
      ∀ other, Nonempty (Derivation (.primary base) (taken ++ other) other) := by
  cases d with
  | parameter name word => exact .inl ⟨name, [], rest, rfl, word, .done rest⟩
  | member name word dotted => exact .inl ⟨name, _, _, rfl, word, dotted⟩
  | number value => exact .inr ⟨[_], rfl, fun other => ⟨.number value other⟩⟩
  | string value => exact .inr ⟨[_], rfl, fun other => ⟨.string value other⟩⟩
  | character => exact .inr ⟨[_], rfl, fun other => ⟨.character other⟩⟩
  | trueLiteral => exact .inr ⟨[_], rfl, fun other => ⟨.trueLiteral other⟩⟩
  | falseLiteral => exact .inr ⟨[_], rfl, fun other => ⟨.falseLiteral other⟩⟩
  | nullLiteral => exact .inr ⟨[_], rfl, fun other => ⟨.nullLiteral other⟩⟩
  | call name word dotted arguments =>
    obtain ⟨taken, rfl, -, hdotted⟩ := dotted.exists_taken
    obtain ⟨inside, rfl, hmove⟩ := arguments.exists_taken
    refine .inr ⟨.name name :: (taken ++ .symbol .openParen :: inside), by simp, fun other => ?_⟩
    obtain ⟨arguments'⟩ := hmove other (.inl rfl)
    simp only [List.cons_append, List.append_assoc]
    exact ⟨.call name word (hdotted _) arguments'⟩
  | parenthesis inner =>
    obtain ⟨taken, rfl, hmove⟩ := inner.exists_taken
    refine .inr ⟨.symbol .openParen :: (taken ++ [.symbol .closeParen]), by simp, fun other => ?_⟩
    obtain ⟨inner'⟩ := hmove (.symbol .closeParen :: other) (standsIn_symbol _ _ (by decide))
    simp only [List.cons_append, List.append_assoc, List.nil_append]
    exact ⟨.parenthesis inner'⟩

end Formula.Grammar
