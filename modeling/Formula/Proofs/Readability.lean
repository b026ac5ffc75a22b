import Formula.Proofs.Display
import Formula.Proofs.Grouping
import Formula.Proofs.NormalForm
import Formula.Proofs.Parts

set_option autoImplicit false

/-! # Rendered texts tell trees apart

Only operators that join operands are put in parentheses: a conditional is not, wherever it stands,
and a prefix operator stands in front of a tree of any kind. A text can be read as only one tree all
the same. The first character tells what kind of tree it is of, and the text of a part ends where a
blank, a closing parenthesis or a comma follows, which is what stands behind every part. -/

namespace Formula

open Token

/-! ## Trees that show what they are -/

/-- Identifiers with a dot between each two. -/
def IsDottedName (name : String) : Prop :=
  ∃ first others, name = String.intercalate "." (first :: others) ∧
    ∀ part ∈ first :: others, isIdentifier part.toList = true

namespace Expr

/-- Whether the text of a node shows what the node is, whatever its parts are. -/
def LegibleNode : Expr → Prop
  | .constant (.number d) => 0 ≤ d.signed
  | .constant (.string s) => '"' ∉ s.toList
  | .constant (.boolean _) => True
  | .parameter name => isIdentifier name.toList = true ∧ isKeyword name = false
  | .unary operator _ => operator ∈ ["-", "!", "+", "~"]
  | .binary operator _ _ => operator ∈ binaryOperators.map Symbol.text
  | .conditional _ _ _ => True
  | .call name _ => IsDottedName name
  | .unsupported _ => False

/-- Whether the text of a tree shows what each of its nodes is. -/
def Legible (e : Expr) : Prop := ∀ node ∈ e.nodes, node.LegibleNode

theorem legible_iff {e : Expr} : e.Legible ↔ e.LegibleNode ∧ ∀ part ∈ e.parts, part.Legible :=
  forall_nodes_iff

/-! ## What a text starts with -/

/-- What the text of a tree can start with. -/
inductive Lead where
  | digit
  | quote
  | letter
  | sign
  | parenthesis
  deriving DecidableEq

/-- What a text with this first character starts with, if a tree has such a text. -/
def Lead.of? (c : Char) : Option Lead :=
  if c.isDigit then some digit
  else if isNameStart c then some letter
  else if c = '"' then some quote
  else if c ∈ ['-', '!', '+', '~'] then some sign
  else if c = '(' then some parenthesis
  else none

/-- The leaf that is written as a single name. -/
def word (name : String) : Expr :=
  if name = "true" then .constant (.boolean true)
  else if name = "false" then .constant (.boolean false)
  else .parameter name

/-- The shapes of legible trees, by what their texts start with. -/
inductive Shape : Lead → Expr → Prop where
  | number {d : Decimal} (h : 0 ≤ d.signed) : Shape .digit (.constant (.number d))
  | string {s : String} (h : '"' ∉ s.toList) : Shape .quote (.constant (.string s))
  | word {name : String} (h : isIdentifier name.toList = true) : Shape .letter (word name)
  | call {name : String} {arguments : List Expr} (h : IsDottedName name)
      (harguments : ∀ argument ∈ arguments, argument.Legible) : Shape .letter (.call name arguments)
  | unary {operator : String} {operand : Expr} (h : operator ∈ ["-", "!", "+", "~"])
      (hoperand : operand.Legible) : Shape .sign (.unary operator operand)
  | binary {operator : String} {left right : Expr} (h : operator ∈ binaryOperators.map Symbol.text)
      (hleft : left.Legible) (hright : right.Legible) :
      Shape .parenthesis (.binary operator left right)
  | conditional {condition ifTrue ifFalse : Expr} (hcondition : condition.Legible)
      (htrue : ifTrue.Legible) (hfalse : ifFalse.Legible) :
      Shape .parenthesis (.conditional condition ifTrue ifFalse)

theorem word_of_not_keyword {name : String} (h : isKeyword name = false) :
    word name = .parameter name := by
  have htrue : name ≠ "true" := by
    rintro rfl
    exact absurd h (by decide)
  have hfalse : name ≠ "false" := by
    rintro rfl
    exact absurd h (by decide)
  rw [word, if_neg htrue, if_neg hfalse]

theorem Legible.exists_shape {e : Expr} (h : e.Legible) : ∃ lead, Shape lead e := by
  obtain ⟨hnode, hparts⟩ := legible_iff.1 h
  match e, hnode, hparts with
  | .constant (.number d), hnode, _ => exact ⟨_, .number hnode⟩
  | .constant (.string s), hnode, _ => exact ⟨_, .string hnode⟩
  | .constant (.boolean true), _, _ => exact ⟨_, @Shape.word "true" (by decide)⟩
  | .constant (.boolean false), _, _ => exact ⟨_, @Shape.word "false" (by decide)⟩
  | .parameter name, ⟨hname, hkeyword⟩, _ =>
    rw [← word_of_not_keyword hkeyword]
    exact ⟨_, .word hname⟩
  | .unary operator operand, hnode, hparts =>
    exact ⟨_, .unary hnode (hparts operand (by simp [parts]))⟩
  | .binary operator left right, hnode, hparts =>
    exact ⟨_, .binary hnode (hparts left (by simp [parts])) (hparts right (by simp [parts]))⟩
  | .conditional condition ifTrue ifFalse, _, hparts =>
    exact ⟨_, .conditional (hparts condition (by simp [parts])) (hparts ifTrue (by simp [parts]))
      (hparts ifFalse (by simp [parts]))⟩
  | .call name arguments, hnode, hparts => exact ⟨_, .call hnode hparts⟩

/-! ## Texts with more text behind them -/

variable {rest rest' : List Char}

@[simp]
theorem render_word (name : String) : (word name).render = name := by
  unfold word
  split
  · next h =>
    rw [h]
    rfl
  · split
    · next h =>
      rw [h]
      rfl
    · rfl

theorem toList_render_unary (operator : String) (operand : Expr) :
    (unary operator operand).render.toList ++ rest =
      operator.toList ++ ' ' :: (operand.render.toList ++ rest) := by
  simp [render]

theorem toList_render_binary (operator : String) (left right : Expr) :
    (binary operator left right).render.toList ++ rest =
      '(' :: (left.render.toList ++ ' ' :: (operator.toList ++ ' ' ::
        (right.render.toList ++ ')' :: rest))) := by
  simp [render]

theorem toList_render_conditional (condition ifTrue ifFalse : Expr) :
    (conditional condition ifTrue ifFalse).render.toList ++ rest =
      '(' :: (condition.render.toList ++ ')' :: ' ' :: '?' :: ' ' :: '(' ::
        (ifTrue.render.toList ++ ')' :: ' ' :: ':' :: ' ' :: '(' ::
          (ifFalse.render.toList ++ ')' :: rest))) := by
  simp [render]

theorem toList_render_call (name : String) (arguments : List Expr) :
    (call name arguments).render.toList ++ rest =
      name.toList ++ '(' :: ((renderAll arguments).toList ++ ')' :: rest) := by
  simp [render]

theorem toList_render_string (s : String) :
    (constant (.string s)).render.toList ++ rest = '"' :: (s.toList ++ '"' :: rest) := by
  simp [render, renderValue]

theorem toList_renderMore (e : Expr) (es : List Expr) :
    (renderMore (e :: es)).toList ++ rest =
      ',' :: ' ' :: (e.render.toList ++ ((renderMore es).toList ++ rest)) := by
  simp [renderMore]

end Expr

/-! ## Names -/

/-- What the names of functions are made of. -/
def isDottedChar (c : Char) : Bool := Numeral.isWordChar c || c == '.'

theorem isDottedChar_of_isIdentifier {text : List Char} (h : isIdentifier text = true) :
    ∀ c ∈ text, isDottedChar c = true := by
  match text with
  | c :: word =>
    obtain ⟨hstart, hword⟩ := Bool.and_eq_true_iff.1 h
    have hfirst : isDottedChar c = true := by
      simp only [isNameStart, Bool.or_eq_true] at hstart
      simp only [isDottedChar, Numeral.isWordChar, Char.isAlphanum, Bool.or_eq_true]
      tauto
    have hothers : ∀ d ∈ word, isDottedChar d = true := by
      intro d hd
      rw [isDottedChar, List.all_eq_true.1 hword d hd, Bool.true_or]
    exact List.forall_mem_cons.2 ⟨hfirst, hothers⟩

theorem isDottedChar_of_memberText {names : List String}
    (h : ∀ name ∈ names, isIdentifier name.toList = true) :
    ∀ c ∈ memberText names, isDottedChar c = true := by
  induction names with
  | nil => simp [memberText]
  | cons name names ih =>
    obtain ⟨hname, hnames⟩ := List.forall_mem_cons.1 h
    refine List.forall_mem_cons.2 ⟨rfl, ?_⟩
    exact List.forall_mem_append.2 ⟨isDottedChar_of_isIdentifier hname, ih hnames⟩

namespace IsDottedName

variable {name : String}

/-- A single identifier is a name without a dot. -/
theorem of_isIdentifier (h : isIdentifier name.toList = true) : IsDottedName name :=
  ⟨name, [], by simp, by simpa using h⟩

theorem isDottedChar (h : IsDottedName name) : ∀ c ∈ name.toList, isDottedChar c = true := by
  obtain ⟨first, others, rfl, hnames⟩ := h
  obtain ⟨hfirst, hothers⟩ := List.forall_mem_cons.1 hnames
  rw [toList_intercalate_dot]
  exact List.forall_mem_append.2
    ⟨isDottedChar_of_isIdentifier hfirst, isDottedChar_of_memberText hothers⟩

theorem exists_start (h : IsDottedName name) :
    ∃ c text, name.toList = c :: text ∧ isNameStart c = true := by
  obtain ⟨first, others, rfl, hnames⟩ := h
  have hfirst := hnames first List.mem_cons_self
  rw [toList_intercalate_dot]
  match first.toList, hfirst with
  | c :: word, hfirst => exact ⟨c, _, rfl, (Bool.and_eq_true_iff.1 hfirst).1⟩

end IsDottedName

/-! ## The shape of a text -/

namespace Expr

variable {rest rest' : List Char}

theorem Lead.of?_isNameStart {c : Char} (h : isNameStart c = true) : Lead.of? c = some .letter := by
  rw [Lead.of?, isDigit_of_isNameStart h, if_neg (by simp), if_pos h]

/-- A text shows in its first character what it starts with. -/
theorem Shape.exists_first {lead : Lead} {e : Expr} (h : Shape lead e) (rest : List Char) :
    ∃ c text, e.render.toList ++ rest = c :: text ∧ Lead.of? c = some lead := by
  cases h with
  | @number d h =>
    obtain ⟨c, text, htext, hc⟩ := Decimal.exists_digit_write (d.negative_normalize h)
    have hdisplay : (constant (.number d)).render.toList = c :: text := htext
    exact ⟨c, text ++ rest, by rw [hdisplay, List.cons_append], by rw [Lead.of?, if_pos hc]⟩
  | string h => exact ⟨'"', _, toList_render_string _, rfl⟩
  | word h =>
    obtain ⟨c, text, htext, hc⟩ := (IsDottedName.of_isIdentifier h).exists_start
    exact ⟨c, text ++ rest, by rw [render_word, htext, List.cons_append], Lead.of?_isNameStart hc⟩
  | call h harguments =>
    obtain ⟨c, text, htext, hc⟩ := h.exists_start
    exact ⟨c, _, by rw [toList_render_call, htext, List.cons_append], Lead.of?_isNameStart hc⟩
  | unary h hoperand =>
    simp only [List.mem_cons, List.not_mem_nil, or_false] at h
    rcases h with rfl | rfl | rfl | rfl
    · exact ⟨'-', _, toList_render_unary _ _, rfl⟩
    · exact ⟨'!', _, toList_render_unary _ _, rfl⟩
    · exact ⟨'+', _, toList_render_unary _ _, rfl⟩
    · exact ⟨'~', _, toList_render_unary _ _, rfl⟩
  | binary h hleft hright => exact ⟨'(', _, toList_render_binary _ _ _, rfl⟩
  | conditional hcondition htrue hfalse => exact ⟨'(', _, toList_render_conditional _ _ _, rfl⟩

/-- Trees whose texts start alike are of shapes that start alike. -/
theorem Legible.shape {lead : Lead} {a b : Expr} (hb : b.Legible) (ha : Shape lead a)
    (h : a.render.toList ++ rest = b.render.toList ++ rest') : Shape lead b := by
  obtain ⟨lead', hshape⟩ := hb.exists_shape
  obtain ⟨c, text, htext, hlead⟩ := ha.exists_first rest
  obtain ⟨c', text', htext', hlead'⟩ := hshape.exists_first rest'
  rw [htext, htext'] at h
  obtain ⟨rfl, -⟩ := List.cons.inj h
  obtain rfl := Option.some.inj (hlead.symm.trans hlead')
  exact hshape

end Expr

/-! ## Where a part ends -/

/-- What stands behind the text of a part: nothing, a blank, a closing parenthesis or a comma. -/
def Delimited (rest : List Char) : Prop := ∀ c ∈ rest.head?, c ∈ [' ', ')', ',']

theorem delimited_nil : Delimited [] := by
  intro c hc
  cases hc

theorem delimited_cons {c : Char} (h : c ∈ [' ', ')', ',']) (rest : List Char) :
    Delimited (c :: rest) := by
  intro d hd
  obtain rfl := Option.some.inj hd
  exact h

theorem Delimited.head_not {rest : List Char} (h : Delimited rest) {p : Char → Bool}
    (hp : [' ', ')', ','].all (fun c => !p c) = true) : ∀ c ∈ rest.head?, p c = false := by
  intro c hc
  simpa using List.all_eq_true.1 hp c (h c hc)

theorem head_not_of_cons {p : Char → Bool} {c : Char} {rest : List Char} (h : p c = false) :
    ∀ d ∈ (c :: rest).head?, p d = false := by
  intro d hd
  obtain rfl := Option.some.inj hd
  exact h

/-- Two texts with the same characters of a class in front. -/
theorem append_inj_of_class {p : Char → Bool} {front front' rest rest' : List Char}
    (hfront : ∀ c ∈ front, p c = true) (hfront' : ∀ c ∈ front', p c = true)
    (hrest : ∀ c ∈ rest.head?, p c = false) (hrest' : ∀ c ∈ rest'.head?, p c = false)
    (h : front ++ rest = front' ++ rest') : front = front' ∧ rest = rest' := by
  have htake := congrArg (List.takeWhile p) h
  rw [takeWhile_append_of_all (by simpa using hfront) hrest,
    takeWhile_append_of_all (by simpa using hfront') hrest'] at htake
  subst htake
  exact ⟨rfl, List.append_cancel_left h⟩

/-! ## Reading the text of a tree -/

namespace Expr

/-- Whatever starts like the text of the tree can only be read as an equal tree that ends there. -/
def Readable (a : Expr) : Prop :=
  ∀ b : Expr, b.Legible → ∀ rest rest' : List Char, Delimited rest → Delimited rest' →
    a.render.toList ++ rest = b.render.toList ++ rest' → a.same b = true ∧ rest = rest'

theorem readable_number {d : Decimal} (hd : 0 ≤ d.signed) : Readable (.constant (.number d)) := by
  intro b hb rest rest' hrest hrest' h
  have hwrite {d : Decimal} (hd : 0 ≤ d.signed) :
      ∀ c ∈ d.normalize.write.toList, (c.isDigit || c == '.') = true := by
    simpa using Decimal.isDigit_or_point_of_mem_write (d.negative_normalize hd)
  cases hb.shape (.number hd) h with
  | @number d' hd' =>
    obtain ⟨htext, hbehind⟩ := append_inj_of_class (hwrite hd) (hwrite hd')
      (hrest.head_not (by decide)) (hrest'.head_not (by decide)) h
    -- the text is read back as the normalized number
    have hread := Decimal.readChars?_write d.isNormal_normalize.sign
    rw [htext, Decimal.readChars?_write d'.isNormal_normalize.sign] at hread
    exact ⟨Decimal.same_iff_normalize_eq.2 (Option.some.inj hread).symm, hbehind⟩

theorem readable_string {s : String} (hs : '"' ∉ s.toList) : Readable (.constant (.string s)) := by
  intro b hb rest rest' hrest hrest' h
  have hquote {s : String} (hs : '"' ∉ s.toList) : ∀ c ∈ s.toList, (c != '"') = true := by
    intro c hc
    rw [bne_iff_ne]
    rintro rfl
    exact hs hc
  cases hb.shape (.string hs) h with
  | @string s' hs' =>
    rw [toList_render_string, toList_render_string] at h
    obtain ⟨htext, hbehind⟩ := append_inj_of_class (hquote hs) (hquote hs') (head_not_of_cons rfl)
      (head_not_of_cons rfl) (List.cons.inj h).2
    rw [String.toList_inj] at htext
    exact ⟨by simp [same, Value.same, htext], (List.cons.inj hbehind).2⟩

theorem same_word (name : String) : (word name).same (word name) = true := by
  unfold word
  split
  · rfl
  · split
    · rfl
    · simp [same]

theorem readable_word {name : String} (hname : isIdentifier name.toList = true) :
    Readable (word name) := by
  intro b hb rest rest' hrest hrest' h
  have hchars := (IsDottedName.of_isIdentifier hname).isDottedChar
  cases hb.shape (.word hname) h with
  | word hname' =>
    have hchars' := (IsDottedName.of_isIdentifier hname').isDottedChar
    rw [render_word, render_word] at h
    obtain ⟨htext, hbehind⟩ := append_inj_of_class hchars hchars' (hrest.head_not (by decide))
      (hrest'.head_not (by decide)) h
    rw [String.toList_inj] at htext
    exact ⟨htext ▸ same_word name, hbehind⟩
  | call hname' harguments' =>
    -- a name behind which no parenthesis is opened
    rw [render_word, toList_render_call] at h
    obtain ⟨-, rfl⟩ := append_inj_of_class hchars hname'.isDottedChar (hrest.head_not (by decide))
      (head_not_of_cons (by decide)) h
    have hopen := hrest '(' rfl
    exact absurd hopen (by decide)

/-! ## Parts and what stands between them -/

theorem readable_unary {operator : String} {operand : Expr}
    (hoperator : operator ∈ ["-", "!", "+", "~"]) (hlegible : operand.Legible)
    (hread : operand.Readable) :
    Readable (.unary operator operand) := by
  intro b hb rest rest' hrest hrest' h
  have hplain : ∀ operator ∈ ["-", "!", "+", "~"], operator.toList.all (· != ' ') = true := by
    decide
  cases hb.shape (.unary hoperator hlegible) h with
  | @unary operator' operand' hoperator' hlegible' =>
    rw [toList_render_unary, toList_render_unary] at h
    obtain ⟨htext, hbehind⟩ := append_inj_of_class (List.all_eq_true.1 (hplain _ hoperator))
      (List.all_eq_true.1 (hplain _ hoperator')) (head_not_of_cons rfl) (head_not_of_cons rfl) h
    obtain ⟨hsame, hend⟩ :=
      hread operand' hlegible' rest rest' hrest hrest' (List.cons.inj hbehind).2
    rw [String.toList_inj] at htext
    exact ⟨by simp [same, htext, hsame], hend⟩

theorem readable_binary {operator : String} {left right : Expr}
    (hoperator : operator ∈ binaryOperators.map Symbol.text) (hleft : left.Legible)
    (hright : right.Legible) (hreadLeft : left.Readable) (hreadRight : right.Readable) :
    Readable (.binary operator left right) := by
  intro b hb rest rest' hrest hrest' h
  have hplain : ∀ operator ∈ binaryOperators.map Symbol.text,
      operator.toList.all (· != ' ') = true := by decide
  cases hb.shape (.binary hoperator hleft hright) h with
  | @binary operator' left' right' hoperator' hleft' hright' =>
    rw [toList_render_binary, toList_render_binary] at h
    obtain ⟨hsameLeft, h⟩ := hreadLeft left' hleft' _ _ (delimited_cons (by decide) _)
      (delimited_cons (by decide) _) (List.cons.inj h).2
    obtain ⟨htext, h⟩ := append_inj_of_class (List.all_eq_true.1 (hplain _ hoperator))
      (List.all_eq_true.1 (hplain _ hoperator')) (head_not_of_cons rfl) (head_not_of_cons rfl)
      (List.cons.inj h).2
    obtain ⟨hsameRight, h⟩ := hreadRight right' hright' _ _ (delimited_cons (by decide) _)
      (delimited_cons (by decide) _) (List.cons.inj h).2
    rw [String.toList_inj] at htext
    exact ⟨by simp [same, htext, hsameLeft, hsameRight], (List.cons.inj h).2⟩
  | conditional hcondition htrue hfalse =>
    -- a parenthesis stands behind the first part of a conditional, a blank behind a left operand
    rw [toList_render_binary, toList_render_conditional] at h
    obtain ⟨-, h⟩ := hreadLeft _ hcondition _ _ (delimited_cons (by decide) _)
      (delimited_cons (by decide) _) (List.cons.inj h).2
    exact absurd (List.cons.inj h).1 (by decide)

theorem readable_conditional {condition ifTrue ifFalse : Expr} (hcondition : condition.Legible)
    (htrue : ifTrue.Legible) (hfalse : ifFalse.Legible) (hreadCondition : condition.Readable)
    (hreadTrue : ifTrue.Readable) (hreadFalse : ifFalse.Readable) :
    Readable (.conditional condition ifTrue ifFalse) := by
  intro b hb rest rest' hrest hrest' h
  cases hb.shape (.conditional hcondition htrue hfalse) h with
  | binary hoperator' hleft' hright' =>
    rw [toList_render_conditional, toList_render_binary] at h
    obtain ⟨-, h⟩ := hreadCondition _ hleft' _ _ (delimited_cons (by decide) _)
      (delimited_cons (by decide) _) (List.cons.inj h).2
    exact absurd (List.cons.inj h).1 (by decide)
  | @conditional condition' ifTrue' ifFalse' hcondition' htrue' hfalse' =>
    rw [toList_render_conditional, toList_render_conditional] at h
    obtain ⟨hsameCondition, h⟩ := hreadCondition condition' hcondition' _ _
      (delimited_cons (by decide) _) (delimited_cons (by decide) _) (List.cons.inj h).2
    simp only [List.cons.injEq, true_and] at h
    obtain ⟨hsameTrue, h⟩ := hreadTrue ifTrue' htrue' _ _ (delimited_cons (by decide) _)
      (delimited_cons (by decide) _) h
    simp only [List.cons.injEq, true_and] at h
    obtain ⟨hsameFalse, h⟩ := hreadFalse ifFalse' hfalse' _ _ (delimited_cons (by decide) _)
      (delimited_cons (by decide) _) h
    exact ⟨by simp [same, hsameCondition, hsameTrue, hsameFalse], (List.cons.inj h).2⟩

/-! ## Arguments -/

variable {rest rest' : List Char}

theorem delimited_renderMore (es : List Expr) (rest : List Char) :
    Delimited ((renderMore es).toList ++ ')' :: rest) := by
  cases es with
  | nil => exact delimited_cons (by decide) rest
  | cons e es =>
    rw [toList_renderMore]
    exact delimited_cons (by decide) _

theorem sameAll_of_renderMore {es es' : List Expr} (hes : ∀ e ∈ es, e.Readable)
    (hes' : ∀ e ∈ es', e.Legible)
    (h : (renderMore es).toList ++ ')' :: rest = (renderMore es').toList ++ ')' :: rest') :
    sameAll es es' = true ∧ rest = rest' := by
  induction es generalizing es' with
  | nil =>
    cases es' with
    | nil => exact ⟨rfl, (List.cons.inj h).2⟩
    | cons e' es' =>
      rw [toList_renderMore] at h
      exact absurd (List.cons.inj h).1 (by decide)
  | cons e es ih =>
    cases es' with
    | nil =>
      rw [toList_renderMore] at h
      exact absurd (List.cons.inj h).1 (by decide)
    | cons e' es' =>
      obtain ⟨he, hes⟩ := List.forall_mem_cons.1 hes
      obtain ⟨he', hes'⟩ := List.forall_mem_cons.1 hes'
      rw [toList_renderMore, toList_renderMore] at h
      simp only [List.cons.injEq, true_and] at h
      obtain ⟨hsame, h⟩ := he e' he' _ _ (delimited_renderMore es rest)
        (delimited_renderMore es' rest') h
      obtain ⟨hothers, hend⟩ := ih hes hes' h
      exact ⟨by simp [sameAll, hsame, hothers], hend⟩

/-- No tree has a text that starts with the parenthesis that closes a list. -/
theorem Legible.ne_close {e : Expr} (h : e.Legible) (front behind : List Char) :
    ')' :: front ≠ e.render.toList ++ behind := by
  intro heq
  obtain ⟨lead, hshape⟩ := h.exists_shape
  obtain ⟨c, text, htext, hlead⟩ := hshape.exists_first behind
  rw [htext] at heq
  obtain ⟨rfl, -⟩ := List.cons.inj heq
  cases hlead

theorem sameAll_of_renderAll {es es' : List Expr} (hes : ∀ e ∈ es, e.Readable)
    (hlegible : ∀ e ∈ es, e.Legible) (hes' : ∀ e ∈ es', e.Legible)
    (h : (renderAll es).toList ++ ')' :: rest = (renderAll es').toList ++ ')' :: rest') :
    sameAll es es' = true ∧ rest = rest' := by
  match es, es' with
  | [], [] => exact ⟨rfl, (List.cons.inj h).2⟩
  | [], e' :: es' =>
    rw [renderAll, renderAll, String.toList_append, List.append_assoc] at h
    exact absurd h ((hes' e' List.mem_cons_self).ne_close _ _)
  | e :: es, [] =>
    rw [renderAll, renderAll, String.toList_append, List.append_assoc] at h
    exact absurd h.symm ((hlegible e List.mem_cons_self).ne_close _ _)
  | e :: es, e' :: es' =>
    obtain ⟨he, hes⟩ := List.forall_mem_cons.1 hes
    obtain ⟨he', hes'⟩ := List.forall_mem_cons.1 hes'
    rw [renderAll, renderAll, String.toList_append, String.toList_append, List.append_assoc,
      List.append_assoc] at h
    obtain ⟨hsame, h⟩ := he e' he' _ _ (delimited_renderMore es rest)
      (delimited_renderMore es' rest') h
    obtain ⟨hothers, hend⟩ := sameAll_of_renderMore hes hes' h
    exact ⟨by simp [sameAll, hsame, hothers], hend⟩

theorem readable_call {name : String} {arguments : List Expr} (hname : IsDottedName name)
    (hlegible : ∀ argument ∈ arguments, argument.Legible)
    (hread : ∀ argument ∈ arguments, argument.Readable) : Readable (.call name arguments) := by
  intro b hb rest rest' hrest hrest' h
  cases hb.shape (.call hname hlegible) h with
  | word hname' =>
    have hchars' := (IsDottedName.of_isIdentifier hname').isDottedChar
    rw [toList_render_call, render_word] at h
    obtain ⟨-, rfl⟩ := append_inj_of_class hname.isDottedChar hchars' (head_not_of_cons (by decide))
      (hrest'.head_not (by decide)) h
    have hopen := hrest' '(' rfl
    exact absurd hopen (by decide)
  | @call name' arguments' hname' hlegible' =>
    rw [toList_render_call, toList_render_call] at h
    obtain ⟨htext, h⟩ := append_inj_of_class hname.isDottedChar hname'.isDottedChar
      (head_not_of_cons (by decide)) (head_not_of_cons (by decide)) h
    obtain ⟨hsame, hend⟩ := sameAll_of_renderAll hread hlegible hlegible' (List.cons.inj h).2
    rw [String.toList_inj] at htext
    exact ⟨by simp [same, htext, hsame], hend⟩

/-! ## Any tree -/

/-- The text of a legible tree is read as that tree. -/
theorem Legible.readable {e : Expr} (h : e.Legible) : e.Readable := by
  revert h
  refine induction_parts (P := fun e => e.Legible → e.Readable) (fun e ih h => ?_) e
  obtain ⟨lead, hshape⟩ := h.exists_shape
  cases hshape with
  | number hd => exact readable_number hd
  | string hs => exact readable_string hs
  | word hname => exact readable_word hname
  | call hname harguments =>
    exact readable_call hname harguments fun argument hargument =>
      ih argument hargument (harguments argument hargument)
  | @unary operator operand hoperator hoperand =>
    exact readable_unary hoperator hoperand (ih operand (by simp [parts]) hoperand)
  | @binary operator left right hoperator hleft hright =>
    exact readable_binary hoperator hleft hright (ih left (by simp [parts]) hleft)
      (ih right (by simp [parts]) hright)
  | @conditional condition ifTrue ifFalse hcondition htrue hfalse =>
    exact readable_conditional hcondition htrue hfalse (ih condition (by simp [parts]) hcondition)
      (ih ifTrue (by simp [parts]) htrue) (ih ifFalse (by simp [parts]) hfalse)

/-! ## Equal trees -/

mutual

/-- Equal trees have the same text. -/
theorem render_eq_of_same (a b : Expr) (h : a.same b = true) : a.render = b.render := by
  match a, b with
  | .constant (.number d), .constant (.number d') =>
    have hdisplay : d.display = d'.display := by
      rw [Decimal.display, Decimal.same_iff_normalize_eq.1 h, Decimal.display]
    exact hdisplay
  | .constant (.string s), .constant (.string s') => simp_all [same, Value.same]
  | .constant (.boolean b), .constant (.boolean b') => simp_all [same, Value.same]
  | .parameter name, .parameter name' => simp_all [same]
  | .unary operator operand, .unary operator' operand' =>
    simp only [same, Bool.and_eq_true, beq_iff_eq] at h
    rw [render, render, h.1, render_eq_of_same operand operand' h.2]
  | .binary operator left right, .binary operator' left' right' =>
    simp only [same, Bool.and_eq_true, beq_iff_eq] at h
    rw [render, render, h.1.1, render_eq_of_same left left' h.1.2,
      render_eq_of_same right right' h.2]
  | .conditional condition ifTrue ifFalse, .conditional condition' ifTrue' ifFalse' =>
    simp only [same, Bool.and_eq_true] at h
    rw [render, render, render_eq_of_same condition condition' h.1.1,
      render_eq_of_same ifTrue ifTrue' h.1.2, render_eq_of_same ifFalse ifFalse' h.2]
  | .call name arguments, .call name' arguments' =>
    simp only [same, Bool.and_eq_true, beq_iff_eq] at h
    rw [render, render, h.1, (renderAll_eq_of_sameAll arguments arguments' h.2).1]
  | .unsupported explanation, .unsupported explanation' => rw [render, render]

theorem renderAll_eq_of_sameAll (es es' : List Expr) (h : sameAll es es' = true) :
    renderAll es = renderAll es' ∧ renderMore es = renderMore es' := by
  match es, es' with
  | [], [] => exact ⟨rfl, rfl⟩
  | e :: es, e' :: es' =>
    simp only [sameAll, Bool.and_eq_true] at h
    have hfirst := render_eq_of_same e e' h.1
    have hothers := (renderAll_eq_of_sameAll es es' h.2).2
    exact ⟨by rw [renderAll, renderAll, hfirst, hothers],
      by rw [renderMore, renderMore, hfirst, hothers]⟩

end

/-- **Rendered texts tell trees apart, up to equality.** -/
theorem same_iff_render_eq {a b : Expr} (ha : a.Legible) (hb : b.Legible) :
    a.same b = true ↔ a.render = b.render := by
  refine ⟨render_eq_of_same a b, fun h => ?_⟩
  exact (ha.readable b hb [] [] delimited_nil delimited_nil (by rw [h])).1

/-- A negated conditional with `1.50` in one text and `1.5` in the other. -/
theorem same_iff_render_eq_of_scales :
    let tree (d : Decimal) : Expr :=
      .unary "-" (.conditional (.binary "<=" (.parameter "x") (.constant (.boolean true)))
        (.constant (.number d)) (.call "true.f" [.constant (.string "\\ (")]))
    let a := tree ⟨false, 150, 2, by decide, by decide⟩
    let b := tree ⟨false, 15, 1, by decide, by decide⟩
    a.Legible ∧ b.Legible ∧ a.render = b.render := by
  intro tree a b
  have hname : IsDottedName "true.f" := ⟨"true", ["f"], by decide, by decide⟩
  have hlegible (d : Decimal) (hd : 0 ≤ d.signed) : (tree d).Legible := by
    unfold Legible
    rw [nodes_eq_preorder]
    simp only [tree, preorder, preorderAll, List.forall_mem_cons, List.append_nil, List.cons_append,
      List.nil_append]
    have hsign : "-" ∈ ["-", "!", "+", "~"] := by decide
    have hoperator : "<=" ∈ binaryOperators.map Symbol.text := by decide
    have hquote : '"' ∉ "\\ (".toList := by decide
    exact ⟨hsign, trivial, hoperator, ⟨by decide, by decide⟩, trivial, hd, hname, hquote,
      List.forall_mem_nil _⟩
  have ha := hlegible ⟨false, 150, 2, by decide, by decide⟩ (by decide)
  have hb := hlegible ⟨false, 15, 1, by decide, by decide⟩ (by decide)
  have hsame : a.same b = true := by decide
  exact ⟨ha, hb, (same_iff_render_eq ha hb).1 hsame⟩

end Expr

end Formula
