import Formula.Proofs.Calls
import Formula.Proofs.Follow
import Formula.Proofs.Grouping
import Formula.Proofs.RoundTrip
import Formula.Proofs.Unsigned

set_option autoImplicit false

/-! # Trees of the parser are well formed

A tree may hold any operator and any name, but the parser has only its own operators to put
into it, and the names and numbers that a text can spell. Three tables meet here: what the
lexer takes for a name or a number, what the grammar takes for an operator, and for which
operators there is an operation. -/

namespace Formula

open Grammar Token

/-! ## Tokens -/

/-- What a text can spell: a name is an identifier, and a number has no sign. -/
def Token.Kind.WellFormed : Kind → Prop
  | .name s => isIdentifier s.toList = true
  | .number d => d.negative = false
  | .string _ | .character | .symbol _ => True

namespace Token

theorem wellFormed_of_scan {c : Char} {rest : List Char} {kind : Kind} {n : Nat}
    (h : scan c rest = .ok (kind, n)) : kind.WellFormed := by
  cases kind with
  | name name => exact (spelling_of_scan h).1
  | number value =>
    obtain ⟨_, length, hscan, hkind, -⟩ := scanNumber_eq_ok_iff.1 (scanNumber_of_scan h)
    obtain rfl := Kind.number.inj hkind
    -- a minus is a token by itself
    have hminus : c ≠ '-' := by
      rintro rfl
      rw [scan_single rfl] at h
      cases h
    exact Numeral.negative_of_scan (by simpa using hminus) hscan
  | string _ | character | symbol _ => trivial

/-- The tokens of a text are well formed. -/
theorem wellFormed_of_lex {position : Nat} (text : List Char) {tokens : List Token}
    (h : lex position text = .ok tokens) : ∀ token ∈ tokens, token.kind.WellFormed := by
  match text with
  | [] =>
    obtain rfl : tokens = [] := by simpa using h.symm
    simp
  | c :: rest =>
    by_cases hblank : isBlank c = true
    · rw [lex_blank hblank] at h
      exact wellFormed_of_lex rest h
    · obtain ⟨kind, n, others, hscan, hothers, rfl⟩ :=
        (lex_cons_eq_ok_iff (Bool.not_eq_true _ ▸ hblank)).1 h
      exact List.forall_mem_cons.2
        ⟨wellFormed_of_scan hscan, wellFormed_of_lex (rest.drop n) hothers⟩
  termination_by text.length
  decreasing_by all_goals grind

end Token

/-! ## Trees -/

namespace Expr

/-- Whether the grammar has such a node, whatever its parts are. -/
def Grammatical : Expr → Prop
  | .constant (.number d) => d.negative = false
  | .constant (.string _) | .constant (.boolean _) => True
  | .parameter name => isIdentifier name.toList = true ∧ isKeyword name = false
  | .unary operator _ => operator ∈ ["-", "!", "+", "~"]
  | .binary operator _ _ => operator ∈ binaryOperators.map Symbol.text
  | .conditional _ _ _ => True
  | .call name _ => IsFunctionName name
  | .unsupported explanation => ∃ construct : Construct, explanation = construct.explanation

/-- Whether the grammar has all nodes of a tree. -/
def WellFormed (e : Expr) : Prop := ∀ node ∈ e.nodes, node.Grammatical

theorem wellFormed_iff {e : Expr} :
    e.WellFormed ↔ e.Grammatical ∧ ∀ part ∈ e.parts, part.WellFormed :=
  forall_nodes_iff

theorem wellFormed_of_leaf {e : Expr} (hleaf : e.parts = []) (h : e.Grammatical) : e.WellFormed :=
  wellFormed_iff.2 ⟨h, by simp [hleaf]⟩

theorem wellFormed_unsupported (construct : Construct) :
    WellFormed (.unsupported construct.explanation) :=
  wellFormed_of_leaf rfl ⟨construct, rfl⟩

theorem wellFormed_binary {operator : Symbol} {level : Nat} {left right : Expr}
    (binds : operator.level? = some level) (hleft : left.WellFormed) (hright : right.WellFormed) :
    WellFormed (.binary operator.text left right) := by
  refine wellFormed_iff.2 ⟨List.mem_map_of_mem ((mem_binaryOperators_iff _).2 ⟨level, binds⟩), ?_⟩
  simp [parts, hleft, hright]

end Expr

/-! ## The grammar -/

namespace Grammar

/-- The trees of a phrase are well formed. The links of a chain and the suffixes of an operand
    go on from a tree that is. -/
def Phrase.WellFormed : Phrase → Prop
  | .expression e | .chain _ e | .unary e | .primary e => e.WellFormed
  | .links _ left e | .suffixes left e => left.WellFormed → e.WellFormed
  | .arguments _ es | .items _ es => ∀ e ∈ es, e.WellFormed

/-- All tokens of an input are well formed. -/
def AllWellFormed (input : List Kind) : Prop := ∀ kind ∈ input, kind.WellFormed

variable {input rest : List Kind}

theorem AllWellFormed.suffix (h : AllWellFormed input) (hsuffix : rest <:+ input) :
    AllWellFormed rest :=
  fun kind hkind => h kind (hsuffix.subset hkind)

theorem AllWellFormed.tail {kind : Kind} (h : AllWellFormed (kind :: rest)) : AllWellFormed rest :=
  h.suffix (List.suffix_cons kind rest)

theorem Members.isIdentifier {names : List String} (h : Members input names rest)
    (hinput : AllWellFormed input) : ∀ name ∈ names, isIdentifier name.toList = true := by
  induction h with
  | done rest => simp
  | more name others ih =>
    have hname := hinput.tail (.name name) List.mem_cons_self
    exact List.forall_mem_cons.2 ⟨hname, ih hinput.tail.tail⟩

/-- Every rule of the grammar builds well-formed trees of well-formed tokens. -/
theorem Derivation.wellFormed {phrase : Phrase} (d : Derivation phrase input rest)
    (hinput : AllWellFormed input) : phrase.WellFormed := by
  induction d with
  | plain condition ih => exact ih hinput
  | conditional condition ifTrue ifFalse ihc iht ihf =>
    have hmark := (hinput.suffix condition.suffix).tail
    have hcolon := (hmark.suffix ifTrue.suffix).tail
    refine Expr.wellFormed_iff.2 ⟨trivial, ?_⟩
    simpa [Expr.parts] using ⟨ihc hinput, iht hmark, ihf hcolon⟩
  | chain inner first others ihfirst ihothers =>
    exact ihothers (hinput.suffix first.suffix) (ihfirst hinput)
  | operand unary ih => exact ih hinput
  | last level e rest => exact id
  | link operator binds next others ihnext ihothers =>
    intro hleft
    exact ihothers (hinput.tail.suffix next.suffix)
      (Expr.wellFormed_binary binds hleft (ihnext hinput.tail))
  | @prefixed e _ _ operator sign operand ih =>
    have hpart : e.WellFormed := ih hinput.tail
    refine Expr.wellFormed_iff.2 ⟨?_, by simpa [Expr.parts] using hpart⟩
    have hsign : ∀ symbol ∈ [Symbol.minus, .bang, .plus, .tilde],
        symbol.text ∈ ["-", "!", "+", "~"] := by decide
    exact hsign operator sign
  | conversion type converted ih => exact Expr.wellFormed_unsupported .typeConversion
  | value unconverted primary suffixes ihprimary ihsuffixes =>
    exact ihsuffixes (hinput.suffix primary.suffix) (ihprimary hinput)
  | number value rest =>
    exact Expr.wellFormed_of_leaf rfl (hinput (.number value) List.mem_cons_self)
  | string value rest => exact Expr.wellFormed_of_leaf rfl trivial
  | character rest => exact Expr.wellFormed_unsupported .characterLiteral
  | trueLiteral rest => exact Expr.wellFormed_of_leaf rfl trivial
  | falseLiteral rest => exact Expr.wellFormed_of_leaf rfl trivial
  | nullLiteral rest => exact Expr.wellFormed_unsupported .nullLiteral
  | parameter name word whole uncalled =>
    exact Expr.wellFormed_of_leaf rfl ⟨hinput (.name name) List.mem_cons_self, word⟩
  | member name word dotted several whole uncalled =>
    exact Expr.wellFormed_unsupported .memberAccess
  | @call es _ _ _ names name word dotted arguments ih =>
    have hfirst := hinput (.name name) List.mem_cons_self
    have hothers := dotted.isIdentifier hinput.tail
    exact Expr.wellFormed_iff.2 ⟨⟨name, names, rfl, hfirst, word, hothers⟩,
      ih (hinput.tail.suffix dotted.suffix).tail⟩
  | parenthesis inner ih => exact ih hinput.tail
  | bare e rest => exact id
  | invocation arguments others iharguments ihothers =>
    intro _
    exact ihothers (hinput.tail.suffix arguments.suffix)
      (Expr.wellFormed_unsupported .computedInvocation)
  | element arguments others iharguments ihothers =>
    intro _
    exact ihothers (hinput.tail.suffix arguments.suffix)
      (Expr.wellFormed_unsupported .elementAccess)
  | access name others ih =>
    intro _
    exact ih hinput.tail.tail (Expr.wellFormed_unsupported .memberAccess)
  | empty close rest => exact List.forall_mem_nil _
  | listed items ih => exact ih hinput
  | only item ih => exact List.forall_mem_singleton.2 (ih hinput)
  | comma item others ihitem ihothers =>
    exact List.forall_mem_cons.2 ⟨ihitem hinput, ihothers (hinput.suffix item.suffix).tail⟩

end Grammar

/-! ## Parsed trees -/

/-- A parsed tree is well formed. -/
theorem Expr.WellFormed.of_parseWith {options : ParseOptions} {text : String} {e : Expr}
    (h : parseWith options text = .ok e) : e.WellFormed := by
  obtain ⟨tokens, htokens⟩ := exists_tokens_of_parseWith h
  obtain ⟨d, -⟩ := (parseWith_eq_ok_iff_nesting htokens options.maxDepth e).1 h
  refine d.wellFormed ?_
  rintro kind hkind
  obtain ⟨token, htoken, rfl⟩ := List.mem_map.1 hkind
  exact wellFormed_of_lex text.toList htokens token htoken

/-- An error of an evaluation is raised by a node of the tree, or it is the
    failure of a function. -/
theorem Expr.raised_or_function {σ : Type} {e : Expr} {bindings : Bindings} {resolver : Resolver σ}
    {state : σ} {error : EvalError} (h : e.result bindings resolver state = .error error) :
    (∃ node ∈ e.nodes, node.Raises bindings error) ∨
      ∃ name source, error = .function name source := by
  obtain ⟨d, hfollows, hd⟩ := exists_dialogue e bindings
  rw [(hd resolver state).1] at h
  rcases hfollows.raised_or_function h with hraised | ⟨name, source, rfl, -⟩
  · exact .inl hraised
  · exact .inr ⟨name, source, rfl⟩

/-- **Trees of the parser are well formed.** Every node of a parsed tree is one that the grammar
    has. So an evaluation finds no operator without an operation but those that the grammar has and
    the evaluator does not know. -/
theorem parsed_trees_are_well_formed {options : ParseOptions} {text : String} {e : Expr}
    (h : parseWith options text = .ok e) :
    (∀ node ∈ e.nodes, node.Grammatical) ∧
      ∀ (σ : Type) (bindings : Bindings) (resolver : Resolver σ) (state : σ) (operator : String),
        (e.result bindings resolver state = .error (.unsupportedUnaryOperator operator) →
          operator ∈ ["+", "~"]) ∧
        (e.result bindings resolver state = .error (.unsupportedBinaryOperator operator) →
          operator ∈ ["??", "|", "^", "&", "<<", ">>"]) := by
  have hwell := Expr.WellFormed.of_parseWith h
  refine ⟨hwell, fun σ bindings resolver state operator => ⟨fun herror => ?_, fun herror => ?_⟩⟩
  · rcases Expr.raised_or_function herror with ⟨node, hnode, hraises⟩ | ⟨_, _, hfailure⟩
    · have hall : ∀ text ∈ ["-", "!", "+", "~"], UnaryOperation.ofText? text = none →
          text ∈ ["+", "~"] := by decide
      cases hraises with
      | unaryOperator hunknown => exact hall operator (hwell _ hnode) hunknown
      | coercion _ hcoercion =>
        obtain ⟨_, _, hcoercion⟩ := hcoercion
        cases hcoercion
    · cases hfailure
  · rcases Expr.raised_or_function herror with ⟨node, hnode, hraises⟩ | ⟨_, _, hfailure⟩
    · have hall : ∀ text ∈ binaryOperators.map Symbol.text, BinaryOperation.ofText? text = none →
          text ∈ ["??", "|", "^", "&", "<<", ">>"] := by decide
      cases hraises with
      | binaryOperator hunknown => exact hall operator (hwell _ hnode) hunknown
      | coercion _ hcoercion =>
        obtain ⟨_, _, hcoercion⟩ := hcoercion
        cases hcoercion
    · cases hfailure

/-- A shift by the result of a function with a dotted name, which is negated. -/
theorem parsed_trees_are_well_formed_shift :
    let text := "2e-1 << -@a.null(x, b[0x1F])"
    let e : Expr := .binary "<<" (.constant (.number ⟨false, 2, 1, by decide, by decide⟩))
      (.unary "-"
        (.call "a.null" [.parameter "x", .unsupported "Element access is not supported"]))
    parseWith {} text = .ok e ∧ (∀ node ∈ e.nodes, node.Grammatical) ∧
      e.result .none .none () = .error (.unsupportedBinaryOperator "<<") ∧
      "<<" ∈ ["??", "|", "^", "&", "<<", ">>"] := by
  intro text e
  have h : parseWith {} text = .ok e := by
    decide +kernel
  obtain ⟨hnodes, herrors⟩ := parsed_trees_are_well_formed h
  have herror : e.result .none .none () = .error (.unsupportedBinaryOperator "<<") := by rfl
  exact ⟨h, hnodes, herror, (herrors Unit .none .none () "<<").2 herror⟩

end Formula
