import Formula.Log
import Formula.Proofs.Parts
import Formula.Proofs.Recognition

set_option autoImplicit false

/-! # Nothing is folded silently

A construct that is folded takes the trees of its parts with it, and unsupported parts among them
are gone from the tree. What it leaves in their place is an unsupported part of its own, so the tree
still says that something was folded. Folds are recorded when they are complete, which is the order
in which the parts that are left stand in the tree. -/

namespace Formula

open Token (Kind)
open Grammar

/-! ## Folds and what is left of them -/

/-- The explanations in a tree are explanations of the constructs that were folded, in the same
    order, and there are some if any construct was folded. -/
structure Marks (explanations : List String) (constructs : List Construct) : Prop where
  sublist : explanations.Sublist (constructs.map Construct.explanation)
  marked : explanations = [] → constructs = []

namespace Marks

theorem nil : Marks [] [] :=
  ⟨.slnil, fun _ => rfl⟩

theorem append {explanations others : List String} {constructs later : List Construct}
    (h : Marks explanations constructs) (h' : Marks others later) :
    Marks (explanations ++ others) (constructs ++ later) where
  sublist := by
    rw [List.map_append]
    exact h.sublist.append h'.sublist
  marked hnone := by
    obtain ⟨hfirst, hothers⟩ := List.append_eq_nil_iff.1 hnone
    rw [h.marked hfirst, h'.marked hothers, List.append_nil]

/-- No explanation is left exactly if nothing was folded. -/
theorem eq_nil_iff {explanations : List String} {constructs : List Construct}
    (h : Marks explanations constructs) : explanations = [] ↔ constructs = [] := by
  refine ⟨h.marked, ?_⟩
  rintro rfl
  exact List.sublist_nil.1 h.sublist

end Marks

/-! ## What the grammar folds -/

namespace Expr

theorem unsupportedParts_eq (e : Expr) :
    e.unsupportedParts = e.explanation?.toList ++ e.parts.flatMap unsupportedParts :=
  filterMap_nodes explanation? e

@[simp]
theorem unsupportedParts_constant (value : Value) : unsupportedParts (.constant value) = [] := by
  simp [unsupportedParts_eq, explanation?, parts]

@[simp]
theorem unsupportedParts_parameter (name : String) : unsupportedParts (.parameter name) = [] := by
  simp [unsupportedParts_eq, explanation?, parts]

@[simp]
theorem unsupportedParts_unary (operator : String) (operand : Expr) :
    unsupportedParts (.unary operator operand) = operand.unsupportedParts := by
  rw [unsupportedParts_eq]
  simp [explanation?, parts]

@[simp]
theorem unsupportedParts_binary (operator : String) (left right : Expr) :
    unsupportedParts (.binary operator left right) =
      left.unsupportedParts ++ right.unsupportedParts := by
  rw [unsupportedParts_eq]
  simp [explanation?, parts]

@[simp]
theorem unsupportedParts_conditional (condition ifTrue ifFalse : Expr) :
    unsupportedParts (.conditional condition ifTrue ifFalse) =
      condition.unsupportedParts ++ (ifTrue.unsupportedParts ++ ifFalse.unsupportedParts) := by
  rw [unsupportedParts_eq]
  simp [explanation?, parts]

@[simp]
theorem unsupportedParts_call (name : String) (arguments : List Expr) :
    unsupportedParts (.call name arguments) = arguments.flatMap unsupportedParts := by
  rw [unsupportedParts_eq]
  simp [explanation?, parts]

@[simp]
theorem unsupportedParts_unsupported (explanation : String) :
    unsupportedParts (.unsupported explanation) = [explanation] := by
  simp [unsupportedParts_eq, explanation?, parts]

end Expr

/-- What is left of a construct marks all that was folded in it. -/
theorem Marks.unsupported (before : List Construct) (construct : Construct) :
    Marks (Expr.unsupportedParts (.unsupported construct.explanation)) (before ++ [construct]) := by
  rw [Expr.unsupportedParts_unsupported]
  exact ⟨by simp, fun h => by cases h⟩

namespace Grammar

/-- What a phrase folds is marked in its trees. The links of a chain and the suffixes of an operand
    go on from a tree in which the folds so far are marked. -/
def Phrase.Marked (constructs : List Construct) : Phrase → Prop
  | .expression e | .chain _ e | .unary e | .primary e => Marks e.unsupportedParts constructs
  | .links _ left e | .suffixes left e => ∀ before,
    Marks left.unsupportedParts before → Marks e.unsupportedParts (before ++ constructs)
  | .arguments _ es | .items _ es => Marks (es.flatMap Expr.unsupportedParts) constructs

/-- Every rule of the grammar marks what it folds. -/
theorem Derivation.marked {phrase : Phrase} {input rest : List Kind}
    (d : Derivation phrase input rest) : phrase.Marked d.constructs := by
  induction d with
  | plain condition ih => exact ih
  | conditional condition ifTrue ifFalse ihc iht ihf =>
    simpa [Phrase.Marked] using ihc.append (iht.append ihf)
  | chain inner first others ihfirst ihothers => exact ihothers _ ihfirst
  | operand unary ih => exact ih
  | last level e rest =>
    intro before hleft
    simpa using hleft
  | bare e rest =>
    intro before hleft
    simpa using hleft
  | link operator binds next others ihnext ihothers =>
    intro before hleft
    rw [constructs, ← List.append_assoc]
    refine ihothers _ ?_
    simpa using hleft.append ihnext
  | prefixed operator sign operand ih => simpa [Phrase.Marked] using ih
  | conversion type converted ih => exact .unsupported converted.constructs .typeConversion
  | value unconverted primary suffixes ihprimary ihsuffixes => exact ihsuffixes _ ihprimary
  | number value rest => simpa [Phrase.Marked] using Marks.nil
  | string value rest => simpa [Phrase.Marked] using Marks.nil
  | character rest => exact .unsupported [] .characterLiteral
  | trueLiteral rest => simpa [Phrase.Marked] using Marks.nil
  | falseLiteral rest => simpa [Phrase.Marked] using Marks.nil
  | nullLiteral rest => exact .unsupported [] .nullLiteral
  | parameter name word whole uncalled => simpa [Phrase.Marked] using Marks.nil
  | member name word dotted several whole uncalled => exact .unsupported [] .memberAccess
  | call name word dotted arguments ih => simpa [Phrase.Marked] using ih
  | parenthesis inner ih => exact ih
  -- what stands before a suffix is gone, with the marks in it and in the arguments
  | invocation arguments others iharguments ihothers =>
    intro before hoperand
    have hothers := ihothers _ (.unsupported (before ++ arguments.constructs) .computedInvocation)
    simpa using hothers
  | element arguments others iharguments ihothers =>
    intro before hoperand
    have hothers := ihothers _ (.unsupported (before ++ arguments.constructs) .elementAccess)
    simpa using hothers
  | access name others ih =>
    intro before hoperand
    have hothers := ih _ (.unsupported before .memberAccess)
    simpa using hothers
  | empty close rest => exact .nil
  | listed items ih => exact ih
  | only item ih => simpa [Phrase.Marked] using ih
  | comma item others ihitem ihothers => simpa [Phrase.Marked] using ihitem.append ihothers

end Grammar

/-! ## Whole texts -/

/-- The folds of a parse are marked in the tree. -/
theorem marks_of_parseRecording {options : ParseOptions} {text : String} {e : Expr}
    {folds : List Fold} (h : parseRecording options text = (.ok e, folds)) :
    Marks e.unsupportedParts (folds.map Fold.construct) := by
  obtain ⟨tokens, htokens⟩ := exists_tokens_of_parseWith (show parseWith options text = .ok e by
    rw [parseWith, h])
  obtain ⟨d, -, hfolds⟩ :=
    (Parser.sound options.maxDepth).1 ((parseRecording_eq_ok_iff htokens).1 h)
  rw [← hfolds]
  exact d.marked

/-- The explanation that the record of a fold stands for; the message of a
    conversion does not show it. -/
def Log.Record.explanation? : Record → Option String
  | .folded fold => some fold.construct.explanation
  | _ => none

/-- **Nothing is folded silently.** A parsed tree has an unsupported part exactly if a fold was
    recorded, and the explanations of its unsupported parts are explanations of recorded folds, in
    the order of the records. -/
theorem folds_are_marked {options : ParseOptions} {text : String} {e : Expr}
    {records : List Log.Record} (h : Log.parseWith options text = (.ok e, records)) :
    (e.unsupportedParts = [] ↔ ∀ record ∈ records, record.level ≠ .debug) ∧
      e.unsupportedParts.Sublist (records.filterMap Log.Record.explanation?) := by
  obtain ⟨folds, hfolds, rfl⟩ : ∃ folds, parseRecording options text = (.ok e, folds) ∧
      records = .parsing text :: folds.map .folded := by
    obtain ⟨hresult, hrecords⟩ := Prod.mk.inj h
    exact ⟨_, Prod.ext hresult rfl, hrecords.symm⟩
  have hmarks := marks_of_parseRecording hfolds
  constructor
  · rw [hmarks.eq_nil_iff, List.map_eq_nil_iff, List.eq_nil_iff_forall_not_mem]
    simp [Log.Record.level]
  · have hrecords : (folds.map Log.Record.folded).filterMap Log.Record.explanation? =
        (folds.map Fold.construct).map Construct.explanation := by
      simp [List.filterMap_map, Function.comp_def, Log.Record.explanation?]
    rw [List.filterMap_cons_none rfl, hrecords]
    exact hmarks.sublist

/-- A literal in an index and one in an argument, and a conversion: the first two are gone. -/
theorem folds_are_marked_index :
    let text := "-a[null].b+(int)f('c')"
    let records : List Log.Record := [.parsing text, .folded ⟨.nullLiteral, 3⟩,
      .folded ⟨.elementAccess, 2⟩, .folded ⟨.memberAccess, 8⟩, .folded ⟨.characterLiteral, 18⟩,
      .folded ⟨.typeConversion, 11⟩]
    let e : Expr := .binary "+" (.unary "-" (.unsupported Construct.memberAccess.explanation))
      (.unsupported Construct.typeConversion.explanation)
    Log.parseWith {} text = (.ok e, records) ∧
      (e.unsupportedParts = [] ↔ ∀ record ∈ records, record.level ≠ .debug) ∧
      e.unsupportedParts.Sublist (records.filterMap Log.Record.explanation?) := by
  intro text records e
  have h : Log.parseWith {} text = (.ok e, records) := by
    decide +kernel
  exact ⟨h, folds_are_marked h⟩

end Formula
