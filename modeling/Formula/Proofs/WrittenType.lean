import Formula.Proofs.Display
import Formula.Proofs.Parenthesis

set_option autoImplicit false

/-! # Types as they are written

A type is a dotted name, a `?` or none, and any number of `[]`. Its text is read as its tokens.
Without the `?` the same tokens are an expression too, a parameter or an access to members and
elements; with the `?` no expression goes on behind its name, as nothing that could be the branch
of a conditional follows. -/

namespace Formula

open Grammar
open Token (Kind Lexes memberKinds memberText)

/-- A type: names with dots between them, a `?` if it is optional, and a number of `[]`. -/
structure WrittenType where
  name : String
  members : List String
  optional : Bool
  rank : Nat
  isIdentifier_name : Token.isIdentifier name.toList = true
  isKeyword_name : isKeyword name = false
  isIdentifier_members : ∀ member ∈ members, Token.isIdentifier member.toList = true

/-- Any number of `[]`. -/
def bracketText : Nat → List Char
  | 0 => []
  | rank + 1 => '[' :: ']' :: bracketText rank

/-- The tokens of any number of `[]`. -/
def bracketKinds : Nat → List Kind
  | 0 => []
  | rank + 1 => .symbol .openBracket :: .symbol .closeBracket :: bracketKinds rank

namespace WrittenType

/-- How a type is written. -/
def text (type : WrittenType) : String :=
  String.intercalate "." (type.name :: type.members) ++ (if type.optional then "?" else "") ++
    String.join (List.replicate type.rank "[]")

/-- What stands behind the dotted name. -/
def markKinds (type : WrittenType) : List Kind :=
  if type.optional then .symbol .question :: bracketKinds type.rank else bracketKinds type.rank

/-- The tokens of a type. -/
def kinds (type : WrittenType) : List Kind :=
  .name type.name :: (memberKinds type.members ++ type.markKinds)

/-- The name of the type is that of a predefined one, and nothing else. -/
def IsPredefined (type : WrittenType) : Prop :=
  type.members = [] ∧ type.name ∈ predefinedTypes

end WrittenType

/-! ## Reading the text -/

theorem toList_join_brackets (rank : Nat) :
    (String.join (List.replicate rank "[]")).toList = bracketText rank := by
  rw [String.toList_join]
  induction rank with
  | zero => rfl
  | succ rank ih =>
    rw [List.replicate_succ, List.flatMap_cons, ih]
    rfl

theorem lexes_brackets (rank : Nat) : Lexes (bracketText rank) (bracketKinds rank) := by
  induction rank with
  | zero => exact Token.lexes_nil
  | succ rank ih => exact .single rfl (.single rfl ih)

/-- No second `?` follows the mark of a type. -/
theorem scan_mark (rank : Nat) :
    Token.scan '?' (bracketText rank) = .ok (.symbol .question, 0) := by
  rw [Token.scan_question]
  cases rank <;> rfl

namespace WrittenType

variable (type : WrittenType)

theorem lexes_text : Lexes type.text.toList type.kinds := by
  have hmark : Lexes ((if type.optional then "?" else "").toList ++ bracketText type.rank)
      type.markKinds := by
    unfold markKinds
    split
    · exact .token rfl (scan_mark type.rank) (lexes_brackets type.rank)
    · exact lexes_brackets type.rank
  have hhead : ∀ c ∈ ((if type.optional then "?" else "").toList ++ bracketText type.rank).head?,
      Numeral.isWordChar c = false := by
    cases type.optional <;> cases type.rank <;> simp [bracketText, Numeral.isWordChar]
  rw [text, String.toList_append, String.toList_append, toList_join_brackets, List.append_assoc]
  exact Token.lexes_dotted type.isIdentifier_name type.isIdentifier_members hhead hmark

/-! ## Types -/

theorem brackets_bracketKinds (rank : Nat) (rest : List Kind) :
    Brackets (bracketKinds rank ++ rest) rest := by
  induction rank with
  | zero => exact .done rest
  | succ rank ih => exact .more ih

theorem brackets_nil (rank : Nat) : Brackets (bracketKinds rank) [] := by
  simpa using brackets_bracketKinds rank []

theorem question_markKinds : Question type.markKinds (bracketKinds type.rank) := by
  unfold markKinds
  split
  · exact .present _
  · exact .absent _

theorem isType_kinds : IsType type.kinds :=
  ⟨type.name, _, type.members, type.markKinds, bracketKinds type.rank, rfl, type.isKeyword_name,
    Token.members_memberKinds _ _, type.question_markKinds, brackets_nil type.rank⟩

/-- Its tokens are those of a predefined type exactly if its name is. -/
theorem isPredefined_kinds_iff : Grammar.IsPredefined type.kinds ↔ type.IsPredefined := by
  constructor
  · rintro ⟨name, input, afterMark, heq, hname, mark, brackets⟩
    obtain ⟨hfirst, rfl⟩ := List.cons.inj heq
    obtain rfl : type.name = name := Kind.name.inj hfirst
    refine ⟨?_, hname⟩
    cases hmembers : type.members with
    | nil => rfl
    | cons member members =>
      -- a dot is neither the mark nor a bracket
      rw [hmembers, memberKinds] at mark
      cases mark
      cases brackets
  · rintro ⟨hmembers, hname⟩
    refine ⟨type.name, type.markKinds, bracketKinds type.rank, ?_, hname, type.question_markKinds,
      brackets_nil type.rank⟩
    rw [kinds, hmembers, memberKinds, List.nil_append]

/-! ## Types as expressions -/

/-- Brackets with nothing in them are accesses to elements. -/
theorem exists_elements (rank : Nat) (base : Expr) :
    ∃ e, Nonempty (Derivation (.suffixes base e) (bracketKinds rank) []) := by
  induction rank generalizing base with
  | zero => exact ⟨base, ⟨.bare base []⟩⟩
  | succ rank ih =>
    obtain ⟨e, ⟨d⟩⟩ := ih (.unsupported Construct.elementAccess.explanation)
    exact ⟨e, ⟨.element (.empty .closeBracket _) d⟩⟩

theorem exists_dotted :
    ∃ e, Nonempty (Derivation (.primary e)
      (.name type.name :: (memberKinds type.members ++ bracketKinds type.rank))
      (bracketKinds type.rank)) := by
  have whole : startsMember (bracketKinds type.rank) = false := by
    cases type.rank <;> rfl
  have uncalled : (bracketKinds type.rank).head? ≠ some (.symbol .openParen) := by
    cases type.rank <;> simp [bracketKinds]
  have dotted := Token.members_memberKinds type.members (bracketKinds type.rank)
  cases hmembers : type.members with
  | nil => exact ⟨_, ⟨.parameter type.name type.isKeyword_name whole uncalled⟩⟩
  | cons member members =>
    rw [hmembers] at dotted
    exact ⟨_, ⟨.member type.name type.isKeyword_name dotted (by simp) whole uncalled⟩⟩

/-- A type without a `?` is an expression. -/
theorem exists_expression (h : type.optional = false) :
    ∃ e, Nonempty (Derivation (.expression e) type.kinds []) := by
  have hkinds : type.kinds =
      .name type.name :: (memberKinds type.members ++ bracketKinds type.rank) := by
    simp [kinds, markKinds, h]
  rw [hkinds]
  obtain ⟨base, ⟨primary⟩⟩ := type.exists_dotted
  obtain ⟨e, ⟨suffixes⟩⟩ := exists_elements type.rank base
  have hunconverted : ∀ operand, ¬ Conversion
      (.name type.name :: (memberKinds type.members ++ bracketKinds type.rank)) operand := by
    intro operand hconversion
    exact absurd hconversion.head?_eq (by simp)
  exact ⟨e, Derivation.nonempty_expression (.value hunconverted primary suffixes)⟩

/-- A type with a `?` in front of a closing parenthesis is no expression. -/
theorem not_expression (h : type.optional = true) (e : Expr) (behind rest : List Kind)
    (d : Derivation (.expression e) (type.kinds ++ .symbol .closeParen :: behind)
      (.symbol .closeParen :: rest)) : False := by
  have hkinds : type.kinds = (.name type.name :: memberKinds type.members) ++
      .symbol .question :: bracketKinds type.rank := by
    simp [kinds, markKinds, h]
  have hsub : (Kind.name type.name :: memberKinds type.members) ⊆ type.kinds := by
    rw [hkinds]
    exact List.subset_append_left _ _
  have hclose : ∀ first ∈ (Kind.symbol .closeParen :: behind).head?,
      (first.startsOperand || first.isSign) = false := by
    intro first hfirst
    obtain rfl := Option.some.inj hfirst
    rfl
  rw [hkinds, List.append_assoc] at d
  obtain ⟨left, hleft, hrest⟩ := d.dangling_mark trivial rfl
    (fun hmem => type.isType_kinds.openParen_not_mem (hsub hmem))
    ((brackets_bracketKinds type.rank _).head?_not hclose)
  match left with
  | [] => cases hrest
  | kind :: left =>
    obtain ⟨rfl, -⟩ := List.cons.inj hrest
    exact type.isType_kinds.closeParen_not_mem (hsub (hleft.subset (List.mem_cons_self ..)))

end WrittenType

end Formula
