import Formula.Proofs.Grammar
import Formula.Proofs.Run

set_option autoImplicit false

/-! # Names and types in the tokens

The parser finds the end of a dotted name and of a type by taking as much as it can. Here that is
what the grammar says: `memberNames` takes a run of `Members` that cannot go on, and
`conversionOperand?` finds the operand of a `Conversion` whenever there is one. -/

namespace Formula

open Token (Kind)
open Grammar

variable {tokens : List Token}

/-! ## Dotted names -/

theorem members_memberNames (tokens : List Token) :
    Members (tokens.map Token.kind) (memberNames tokens)
      ((tokens.drop (2 * (memberNames tokens).length)).map Token.kind) := by
  fun_induction memberNames tokens with
  | case1 _ name _ rest ih => exact .more name (by simpa [Nat.mul_add] using ih)
  | case2 => exact .done _

theorem startsMember_memberNames (tokens : List Token) :
    startsMember ((tokens.drop (2 * (memberNames tokens).length)).map Token.kind) = false := by
  fun_induction memberNames tokens with
  | case1 _ name _ rest ih => simpa [Nat.mul_add] using ih
  | case2 tokens h =>
    match tokens, h with
    | [], _ => rfl
    | [⟨kind, _⟩], _ => simp [startsMember]
    | ⟨kind, p⟩ :: ⟨kind', q⟩ :: rest, h =>
      simp only [List.length_nil, Nat.mul_zero, List.drop_zero, List.map_cons]
      unfold startsMember
      split
      · next heq =>
        simp only [List.cons.injEq] at heq
        obtain ⟨rfl, rfl, rfl⟩ := heq
        exact absurd rfl (h _ _ _ _)
      · rfl

/-- A run of members that cannot go on is the one that is found. -/
theorem memberNames_eq {names : List String} {rest : List Kind}
    (h : Members (tokens.map Token.kind) names rest) (whole : startsMember rest = false) :
    memberNames tokens = names ∧
      (tokens.drop (2 * names.length)).map Token.kind = rest := by
  generalize hkinds : tokens.map Token.kind = kinds at h
  induction h generalizing tokens with
  | done rest =>
    subst hkinds
    unfold memberNames
    split
    · simp [startsMember] at whole
    · simp
  | @more input rest names name others ih =>
    match tokens, hkinds with
    | ⟨.symbol .dot, _⟩ :: ⟨.name _, _⟩ :: tail, hkinds =>
      simp only [List.map_cons, List.cons.injEq, Kind.name.injEq, true_and] at hkinds
      obtain ⟨rfl, htail⟩ := hkinds
      obtain ⟨hnames, hrest⟩ := ih whole htail
      simp [memberNames, hnames, Nat.mul_add, hrest]

/-! ## Types -/

theorem question_dropQuestion (tokens : List Token) :
    Question (tokens.map Token.kind) ((dropQuestion tokens).map Token.kind) := by
  unfold dropQuestion
  split
  · exact .present _
  · exact .absent _

theorem brackets_dropBrackets (tokens : List Token) :
    Brackets (tokens.map Token.kind) ((dropBrackets tokens).map Token.kind) := by
  fun_induction dropBrackets tokens with
  | case1 _ _ rest ih => exact .more ih
  | case2 => exact .done _

/-- Behind the brackets of a type its closing parenthesis must follow, so all of them are taken. -/
theorem dropBrackets_eq {rest : List Kind}
    (h : Brackets (tokens.map Token.kind) (.symbol .closeParen :: rest)) :
    (dropBrackets tokens).map Token.kind = .symbol .closeParen :: rest := by
  generalize hkinds : tokens.map Token.kind = kinds at h
  generalize hend : Kind.symbol .closeParen :: rest = last at h
  induction h generalizing tokens with
  | done =>
    subst hend
    match tokens, hkinds with
    | ⟨.symbol .closeParen, _⟩ :: tail, hkinds => simpa [dropBrackets] using hkinds
  | more others ih =>
    match tokens, hkinds with
    | ⟨.symbol .openBracket, _⟩ :: ⟨.symbol .closeBracket, _⟩ :: tail, hkinds =>
      simp only [List.map_cons, List.cons.injEq, true_and] at hkinds
      simpa [dropBrackets] using ih hkinds hend

/-- What the brackets of a type start with, if its closing parenthesis follows. -/
theorem Grammar.Brackets.head {input rest : List Kind}
    (h : Brackets input (.symbol .closeParen :: rest)) :
    (∃ tail, input = .symbol .openBracket :: tail) ∨
      (∃ tail, input = .symbol .closeParen :: tail) := by
  cases h with
  | done => exact .inr ⟨_, rfl⟩
  | more others => exact .inl ⟨_, rfl⟩

theorem dropQuestion_eq {middle rest : List Kind} (h : Question (tokens.map Token.kind) middle)
    (brackets : Brackets middle (.symbol .closeParen :: rest)) :
    (dropQuestion tokens).map Token.kind = middle := by
  generalize hkinds : tokens.map Token.kind = kinds at h
  cases h with
  | absent =>
    unfold dropQuestion
    split
    · rcases brackets.head with ⟨tail, htail⟩ | ⟨tail, htail⟩ <;> simp [htail] at hkinds
    · exact hkinds
  | present =>
    match tokens, hkinds with
    | ⟨.symbol .question, _⟩ :: tail, hkinds => simpa [dropQuestion] using hkinds

/-- Behind the name of a type no member follows. -/
theorem Grammar.Question.startsMember {input middle rest : List Kind} (h : Question input middle)
    (brackets : Brackets middle (.symbol .closeParen :: rest)) : startsMember input = false := by
  cases h with
  | absent => rcases brackets.head with ⟨tail, rfl⟩ | ⟨tail, rfl⟩ <;> rfl
  | present => rfl

/-! ## Conversions -/

/-- The tokens from the operand on, if the tokens start with a conversion. -/
def conversionAt? : List Token → Option (List Token)
  | ⟨.symbol .openParen, _⟩ :: rest => conversionOperand? rest
  | _ => none

theorem Parser.reads_conversion? (setting : Setting) (tokens : List Token) :
    conversion?.Reads setting tokens [] (conversionAt? tokens) tokens := by
  unfold conversion? conversionAt?
  rw [reads_tokens_bind]
  split <;> simp

theorem Parser.reads_conversion?_bind {β : Type} {setting : Setting} {rest : List Token}
    {folds : List Fold} {f : Option (List Token) → Parser β} {b : β} :
    (conversion? >>= f).Reads setting tokens folds b rest ↔
      (f (conversionAt? tokens)).Reads setting tokens folds b rest := by
  show Parser.bind conversion? f setting tokens = _ ↔ _
  unfold Parser.bind
  rw [show conversion? setting tokens = _ from reads_conversion? setting tokens]
  exact Iff.rfl

/-- What is found is the operand of a conversion. -/
theorem conversion_of_conversionAt? {operand : List Token}
    (h : conversionAt? tokens = some operand) :
    Conversion (tokens.map Token.kind) (operand.map Token.kind) := by
  unfold conversionAt? conversionOperand? at h
  split at h
  · split at h
    · next name _ rest =>
      dsimp only at h
      split at h
      · next behind hclose =>
        split at h
        · next hstarts =>
          obtain rfl := Option.some.inj h
          simp only [Bool.and_eq_true, Bool.not_eq_true'] at hstarts
          obtain ⟨hword, hfirst⟩ := hstarts
          match behind, hfirst with
          | first :: operand, hfirst =>
            have hbrackets := brackets_dropBrackets
              (dropQuestion (rest.drop (2 * (memberNames rest).length)))
            rw [hclose] at hbrackets
            refine .intro hword (members_memberNames rest) (question_dropQuestion _) hbrackets ?_
            simpa [List.contains_iff_mem, and_assoc] using hfirst
        · cases h
      · cases h
    · cases h
  · cases h

/-- The operand of a conversion is found. -/
theorem conversionAt?_of_conversion {rest : List Kind}
    (h : Conversion (tokens.map Token.kind) rest) :
    ∃ operand, conversionAt? tokens = some operand ∧ operand.map Token.kind = rest := by
  generalize hkinds : tokens.map Token.kind = kinds at h
  cases h with
  | @intro input afterName afterMark operand name members first word dotted mark brackets starts =>
    match tokens, hkinds with
    | ⟨.symbol .openParen, _⟩ :: ⟨.name _, _⟩ :: tail, hkinds =>
      simp only [List.map_cons, List.cons.injEq, Kind.name.injEq, true_and] at hkinds
      obtain ⟨rfl, rfl⟩ := hkinds
      -- each part takes as much as it can, because of what must follow it
      obtain ⟨hnames, hname⟩ := memberNames_eq dotted (mark.startsMember brackets)
      subst hname
      have hmark := dropQuestion_eq mark brackets
      subst hmark
      have hclose := dropBrackets_eq brackets
      match hfound : dropBrackets (dropQuestion (tail.drop (2 * members.length))), hclose with
      | ⟨.symbol .closeParen, _⟩ :: next :: behind, hclose =>
        simp only [List.map_cons, List.cons.injEq, true_and] at hclose
        obtain ⟨rfl, rfl⟩ := hclose
        refine ⟨next :: behind, ?_, rfl⟩
        simp only [conversionAt?, conversionOperand?, hnames, hfound]
        rw [if_pos]
        simpa [word, List.contains_iff_mem, and_assoc] using starts

/-- Nothing is found where there is no conversion. -/
theorem conversionAt?_eq_none_iff :
    conversionAt? tokens = none ↔ ∀ operand, ¬ Conversion (tokens.map Token.kind) operand := by
  constructor
  · intro hnone operand h
    obtain ⟨_, hsome, _⟩ := conversionAt?_of_conversion h
    rw [hnone] at hsome
    cases hsome
  · intro hno
    cases hfound : conversionAt? tokens with
    | none => rfl
    | some operand => exact absurd (conversion_of_conversionAt? hfound) (hno _)

end Formula
