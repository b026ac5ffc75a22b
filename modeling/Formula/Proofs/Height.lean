import Formula.Proofs.Recognition
import Formula.Proofs.Spell

set_option autoImplicit false

/-! # How high a tree can be

The limit on nesting is not a limit on the height of the tree. An operator of a chain opens a level
that its chain closes again, but its left part, which may be a finished chain of a tighter level,
lies below all of them in the tree. What the limit bounds is the nesting of the derivation, and the
height of the tree is then at most quadratic in it. -/

namespace Formula

open Grammar Token

/-! ## Height -/

mutual

/-- The number of nodes on the longest way from the root to a leaf. -/
def Expr.height : Expr → Nat
  | .constant _ | .parameter _ | .unsupported _ => 1
  | .unary _ operand => operand.height + 1
  | .binary _ left right => max left.height right.height + 1
  | .conditional condition ifTrue ifFalse =>
    max condition.height (max ifTrue.height ifFalse.height) + 1
  | .call _ arguments => heightAll arguments + 1

/-- The height of the highest one of several trees. -/
def Expr.heightAll : List Expr → Nat
  | [] => 0
  | e :: es => max e.height (heightAll es)

end

/-- A height that no tree exceeds whose derivation nests no deeper than `n`. -/
def heightBound : Nat → Nat
  | 0 => 0
  | n + 1 => 5 * n * n + 7 * n + 1

theorem heightBound_succ_le (n : Nat) : heightBound n + 1 ≤ heightBound (n + 1) := by
  cases n with
  | zero => simp [heightBound]
  | succ n =>
    have hsquare : 5 * n * n ≤ 5 * (n + 1) * (n + 1) := Nat.mul_le_mul (by omega) (by omega)
    simp only [heightBound]
    omega

theorem heightBound_mono {m n : Nat} (h : m ≤ n) : heightBound m ≤ heightBound n := by
  induction h with
  | refl => exact Nat.le_refl _
  | step _ ih => exact Nat.le_trans ih (Nat.le_trans (Nat.le_succ _) (heightBound_succ_le _))

/-- Ten levels of chains may stand above a tree, each as high as the nesting allows, and a
    conditional above them. -/
theorem heightBound_add_le {n : Nat} (h : 0 < n) :
    heightBound n + 1 + levelCount * n + 1 ≤ heightBound (n + 1) := by
  obtain ⟨n, rfl⟩ : ∃ k, n = k + 1 := ⟨n - 1, by omega⟩
  have hsquare : 5 * (n + 1) * (n + 1) = 5 * n * n + 10 * n + 5 := by
    rw [Nat.mul_add, Nat.mul_one, Nat.mul_add, Nat.add_mul, Nat.mul_one]
    omega
  simp only [heightBound, levelCount]
  omega

/-! ## The height of a phrase -/

/-- The height that a phrase may have if its derivation nests no deeper than `n`. -/
def Grammar.Phrase.heightAtMost (n : Nat) : Phrase → Prop
  | .expression e => e.height ≤ heightBound n
  | .chain level e => e.height ≤ heightBound n + 1 + (levelCount - level) * n
  | .links level left e =>
    e.height ≤ max left.height (heightBound n + 1 + (levelCount - (level + 1)) * n) + n
  | .unary e | .primary e => e.height ≤ heightBound n + 1
  | .suffixes operand e => e.height ≤ max operand.height 1
  | .arguments _ es | .items _ es => Expr.heightAll es ≤ heightBound n

/-- A height that is allowed stays allowed when more nesting is. -/
theorem Grammar.Phrase.heightAtMost_mono {m n : Nat} (hle : m ≤ n) {phrase : Phrase}
    (h : phrase.heightAtMost m) : phrase.heightAtMost n := by
  have hbound := heightBound_mono hle
  cases phrase with
  | expression e | unary e | primary e | arguments close es | items close es =>
    simp only [heightAtMost] at h ⊢
    omega
  | suffixes operand e => exact h
  | chain level e =>
    have hlevels := Nat.mul_le_mul_left (levelCount - level) hle
    simp only [heightAtMost] at h ⊢
    omega
  | links level left e =>
    have hlevels := Nat.mul_le_mul_left (levelCount - (level + 1)) hle
    simp only [heightAtMost] at h ⊢
    omega

/-- An expression opens a level of its own. -/
theorem Grammar.Derivation.nesting_pos {e : Expr} {input rest : List Kind}
    (d : Derivation (.expression e) input rest) : 0 < d.nesting := by
  cases d <;> exact Nat.succ_pos _

/-- A derivation that nests no deeper than `n` derives a tree of the height that `n` allows. -/
theorem Grammar.Derivation.heightAtMost_nesting {phrase : Phrase} {input rest : List Kind}
    (d : Derivation phrase input rest) : phrase.heightAtMost d.nesting := by
  induction d with
  | plain d ih =>
    -- a chain that nests nothing is a single leaf
    by_cases hzero : d.nesting = 0
    · simp only [Phrase.heightAtMost, hzero, heightBound, levelCount, Derivation.nesting] at ih ⊢
      omega
    · have hbound := heightBound_add_le (Nat.pos_of_ne_zero hzero)
      simp only [Phrase.heightAtMost, Derivation.nesting, Nat.sub_zero] at ih ⊢
      omega
  | conditional c t f ihc iht ihf =>
    have hbranches := t.nesting_pos
    have hc := Phrase.heightAtMost_mono (Nat.le_max_left _ (max t.nesting f.nesting)) ihc
    have ht := Phrase.heightAtMost_mono
      (Nat.le_trans (Nat.le_max_left _ f.nesting) (Nat.le_max_right c.nesting _)) iht
    have hf := Phrase.heightAtMost_mono
      (Nat.le_trans (Nat.le_max_right t.nesting _) (Nat.le_max_right c.nesting _)) ihf
    rw [Derivation.nesting]
    generalize hn : max c.nesting (max t.nesting f.nesting) = n at hc ht hf ⊢
    -- the branches nest at least once, so there is room for the levels of the condition
    have hbound : heightBound n + 1 + levelCount * n + 1 ≤ heightBound (n + 1) :=
      heightBound_add_le (by omega)
    simp only [Phrase.heightAtMost, Expr.height, Nat.sub_zero] at hc ht hf ⊢
    omega
  | @chain level left e input middle rest inner first others ihfirst ihothers =>
    have hfirst := Phrase.heightAtMost_mono (Nat.le_max_left _ others.nesting) ihfirst
    have hothers := Phrase.heightAtMost_mono (Nat.le_max_right first.nesting _) ihothers
    rw [Derivation.nesting]
    generalize max first.nesting others.nesting = n at hfirst hothers ⊢
    -- each level may put `n` operators above what the tighter levels have built
    have hlevel : (levelCount - level) * n = (levelCount - (level + 1)) * n + n := by
      rw [← Nat.succ_mul]
      congr 1
      omega
    simp only [Phrase.heightAtMost] at hfirst hothers ⊢
    omega
  | operand d ih => simpa [Phrase.heightAtMost] using ih
  | last level e rest =>
    simp only [Phrase.heightAtMost]
    omega
  | @link level left right e input middle rest operator binds next others ihnext ihothers =>
    rw [Derivation.nesting]
    have hnext := Phrase.heightAtMost_mono
      (show next.nesting ≤ max next.nesting others.nesting + 1 by omega) ihnext
    have hothers := Phrase.heightAtMost_mono (Nat.le_max_right next.nesting _) ihothers
    generalize max next.nesting others.nesting = n at hnext hothers ⊢
    have hbound := heightBound_mono (Nat.le_add_right n 1)
    have hlevels := Nat.mul_le_mul_left (levelCount - (level + 1)) (Nat.le_add_right n 1)
    simp only [Phrase.heightAtMost, Expr.height] at hnext hothers ⊢
    omega
  | prefixed operator sign d ih =>
    have hbound := heightBound_succ_le d.nesting
    simp only [Phrase.heightAtMost, Expr.height, Derivation.nesting] at ih ⊢
    omega
  | conversion type d ih => simp [Phrase.heightAtMost, Expr.height]
  | value unconverted primary suffixes ihprimary ihsuffixes =>
    have hprimary := Phrase.heightAtMost_mono (Nat.le_max_left _ suffixes.nesting) ihprimary
    simp only [Phrase.heightAtMost, Derivation.nesting] at hprimary ihsuffixes ⊢
    omega
  | number | string | character | trueLiteral | falseLiteral | nullLiteral | parameter | member =>
    simp [Phrase.heightAtMost, Expr.height]
  | call name word dotted d ih =>
    simp only [Phrase.heightAtMost, Expr.height, Derivation.nesting] at ih ⊢
    omega
  | parenthesis d ih =>
    simp only [Phrase.heightAtMost, Derivation.nesting] at ih ⊢
    omega
  | bare e rest => exact Nat.le_max_left _ _
  | invocation d others _ ihothers =>
    simp only [Phrase.heightAtMost, Expr.height] at ihothers ⊢
    omega
  | element d others _ ihothers =>
    simp only [Phrase.heightAtMost, Expr.height] at ihothers ⊢
    omega
  | access name others ihothers =>
    simp only [Phrase.heightAtMost, Expr.height] at ihothers ⊢
    omega
  | empty => simp [Phrase.heightAtMost, Expr.heightAll]
  | listed d ih => exact ih
  | only d ih => simpa [Phrase.heightAtMost, Expr.heightAll] using ih
  | comma d others ih ihothers =>
    have hitem := Phrase.heightAtMost_mono (Nat.le_max_left _ others.nesting) ih
    have hothers := Phrase.heightAtMost_mono (Nat.le_max_right d.nesting _) ihothers
    simp only [Phrase.heightAtMost, Expr.heightAll, Derivation.nesting] at hitem hothers ⊢
    omega

/-- The height of a parsed tree is at most quadratic in the limit. -/
theorem height_le_of_parseWith {text : String} {limit : Nat} {e : Expr}
    (h : parseWith ⟨limit⟩ text = .ok e) : e.height ≤ heightBound limit := by
  obtain ⟨tokens, htokens⟩ := exists_tokens_of_parseWith h
  obtain ⟨d, hd⟩ := (parseWith_eq_ok_iff_nesting htokens limit e).1 h
  exact Nat.le_trans d.heightAtMost_nesting (heightBound_mono hd)

/-! ## A sum behind a product

In `a * a * … * a + a` the product closes its levels before the sum opens one. -/

/-- The text of `n` factors behind a first one, and of a summand. -/
def sumText : Nat → List Char
  | 0 => " + a".toList
  | n + 1 => " * a".toList ++ sumText n

/-- The kinds of the tokens of `sumText n`. -/
def sumKinds : Nat → List Kind
  | 0 => [.symbol .plus, .name "a"]
  | n + 1 => .symbol .star :: .name "a" :: sumKinds n

/-- A product of `e` and `n` factors. -/
def product (e : Expr) : Nat → Expr
  | 0 => e
  | n + 1 => product (.binary Symbol.star.text e (.parameter "a")) n

theorem height_product {e : Expr} (h : 0 < e.height) (n : Nat) :
    (product e n).height = e.height + n := by
  induction n generalizing e with
  | zero => rfl
  | succ n ih =>
    rw [product, ih (by simp [Expr.height])]
    simp only [Expr.height]
    omega

theorem sumText_head (n : Nat) : ∀ c ∈ (sumText n).head?, Numeral.isWordChar c = false := by
  cases n <;> (intro c hc; cases hc; decide)

theorem lexes_a {n : Nat} (h : Lexes (sumText n) (sumKinds n)) :
    Lexes ('a' :: sumText n) (.name "a" :: sumKinds n) := by
  have hname : isIdentifier ['a'] = true := by decide
  exact .name hname (sumText_head n) h

theorem lexes_sumText (n : Nat) : Lexes (sumText n) (sumKinds n) := by
  have hblank : isBlank ' ' = true := by decide
  induction n with
  | zero =>
    have hname : Lexes (['a'] ++ []) [.name "a"] := .name (by decide) (by simp) lexes_nil
    exact .blank hblank (.single rfl (.blank hblank hname))
  | succ n ih => exact .blank hblank (.single rfl (.blank hblank (lexes_a ih)))

/-- A parameter as an operand of any level. -/
theorem exists_parameter {level : Nat} (hlevel : level ≤ levelCount) {rest : List Kind}
    (h : Stops levelCount rest) :
    ∃ d : Derivation (.chain level (.parameter "a")) (.name "a" :: rest) rest, d.nesting = 0 := by
  have word : isKeyword "a" = false := by decide
  obtain ⟨leaf, hleaf⟩ := exists_leaf word h
  obtain ⟨d, hd⟩ := leaf.exists_chain hlevel
  exact ⟨d, hd.trans hleaf⟩

theorem stops_sumKinds (n : Nat) : Stops levelCount (sumKinds n) := by
  cases n with
  | zero => exact stops_binary (show Symbol.plus.level? = some 8 from rfl) _
  | succ n => exact stops_binary (show Symbol.star.level? = some 9 from rfl) _

/-- The factors nest a level each and leave the summand. -/
theorem exists_factors (e : Expr) (n : Nat) :
    ∃ d : Derivation (.links 9 e (product e n)) (sumKinds n) (sumKinds 0), d.nesting = n := by
  induction n generalizing e with
  | zero => exact ⟨.last _ _ _, rfl⟩
  | succ n ih =>
    obtain ⟨factor, hfactor⟩ := exists_parameter (Nat.le_refl 10) (stops_sumKinds n)
    obtain ⟨others, hothers⟩ := ih (.binary Symbol.star.text e (.parameter "a"))
    refine ⟨.link .star rfl factor others, ?_⟩
    show max factor.nesting others.nesting + 1 = n + 1
    rw [hfactor, hothers, Nat.zero_max]

/-- The sum opens as many levels as the product has operators, and the expression one more. -/
theorem parseWith_sumText (n : Nat) :
    parseWith ⟨n + 2⟩ (String.ofList ('a' :: sumText (n + 1))) =
      .ok (.binary Symbol.plus.text (product (.parameter "a") (n + 1)) (.parameter "a")) := by
  obtain ⟨tokens, htokens, hkinds⟩ := lexes_a (lexes_sumText (n + 1))
  have htokenize : tokenize (String.ofList ('a' :: sumText (n + 1))) = .ok tokens := by
    rw [tokenize, String.toList_ofList]
    exact htokens
  rw [parseWith_eq_ok_iff_nesting htokenize, hkinds]
  obtain ⟨first, hfirst⟩ := exists_parameter (Nat.le_refl 10) (stops_sumKinds (n + 1))
  obtain ⟨factors, hfactors⟩ := exists_factors (.parameter "a") (n + 1)
  obtain ⟨summand, hsummand⟩ := exists_parameter (Nat.le_succ 9) (stops_nil levelCount)
  let sum : Derivation (.chain 8 _) _ [] :=
    .chain (by decide) (.chain (by decide) first factors) (.link .plus rfl summand (.last _ _ _))
  obtain ⟨d, hd⟩ := sum.exists_looser (Nat.zero_le 8) (by decide)
  refine ⟨.plain d, ?_⟩
  have hsum :
      sum.nesting = max (max first.nesting factors.nesting) (max summand.nesting 0 + 1) := rfl
  rw [Derivation.nesting, hd, hsum, hfirst, hfactors, hsummand]
  omega

/-! ## What the limit bounds -/

/-- A limit bounds the height of every tree that is parsed under it only if it is 0 or 1; a higher
    one bounds it for the texts of which no derivation nests within the limit and derives a tree
    that is higher. The height is at most quadratic in the limit for any text. -/
theorem height_le_limit_iff (limit : Nat) :
    ((∀ text e, parseWith ⟨limit⟩ text = .ok e → e.height ≤ limit) ↔ limit ≤ 1) ∧
    (∀ text, (∀ e, parseWith ⟨limit⟩ text = .ok e → e.height ≤ limit) ↔
      ∀ tokens, tokenize text = .ok tokens →
        ∀ e, ∀ d : Derivation (.expression e) (tokens.map Token.kind) [],
          d.nesting ≤ limit → e.height ≤ limit) ∧
    ∀ text e, parseWith ⟨limit⟩ text = .ok e → e.height ≤ heightBound limit := by
  refine ⟨⟨fun h => ?_, fun hlimit text e h => ?_⟩, fun text => ⟨fun h => ?_, fun h => ?_⟩,
    fun text e => height_le_of_parseWith⟩
  · refine Nat.le_of_not_lt fun hlimit => ?_
    obtain ⟨n, rfl⟩ : ∃ n, limit = n + 2 := ⟨limit - 2, by omega⟩
    have hheight := h _ _ (parseWith_sumText n)
    have hproduct :=
      height_product (by simp [Expr.height] : 0 < (Expr.parameter "a").height) (n + 1)
    simp only [Expr.height] at hheight hproduct
    omega
  · have hheight := height_le_of_parseWith h
    match limit, hlimit with
    | 0, _ => exact hheight
    | 1, _ => exact hheight
  · intro tokens htokens e d hd
    exact h e ((parseWith_eq_ok_iff_nesting htokens limit e).2 ⟨d, hd⟩)
  · intro e hparse
    obtain ⟨tokens, htokens⟩ := exists_tokens_of_parseWith hparse
    obtain ⟨d, hd⟩ := (parseWith_eq_ok_iff_nesting htokens limit e).1 hparse
    exact h tokens htokens e d hd

/-- The product and the sum of three numbers each open one level below the expression, but stand
    above each other in the tree. -/
theorem two_lt_height_of_product_sum :
    ∃ e, parseWith ⟨2⟩ "1*1+1" = .ok e ∧ 2 < e.height := by
  refine ⟨.binary "+" (.binary "*" (.constant (.number .one)) (.constant (.number .one)))
    (.constant (.number .one)), ?_, ?_⟩
  · decide +kernel
  · simp [Expr.height]

end Formula
