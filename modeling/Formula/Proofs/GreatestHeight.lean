import Formula.Proofs.Height
import Formula.Proofs.Spacing
import Mathlib.Tactic.Ring

set_option autoImplicit false

/-! # The greatest height

A limit on nesting admits trees up to a height that is quadratic in it, and no less. The highest
tree under a limit is a conditional over ten chains, one for each level of operators and each as
long as the limit allows, over a call of the highest tree under the next lower limit. -/

namespace Formula

open Grammar Token

/-! ## Chains on top of each other -/

namespace Expr

/-- `count` operators in a chain behind `e`. -/
def chained (operator : Symbol) (e : Expr) : Nat → Expr
  | 0 => e
  | count + 1 => chained operator (.binary operator.text e (.parameter "a")) count

/-- A chain of `count` operators for each symbol, the first one innermost. -/
def stacked (count : Nat) : List Symbol → Expr → Expr
  | [], e => e
  | operator :: operators, e => stacked count operators (chained operator e count)

theorem height_pos (e : Expr) : 0 < e.height := by
  cases e <;> simp [height]

theorem height_chained (operator : Symbol) (e : Expr) (count : Nat) :
    (chained operator e count).height = e.height + count := by
  induction count generalizing e with
  | zero => rfl
  | succ count ih =>
    have hpos := e.height_pos
    rw [chained, ih]
    simp only [height]
    omega

theorem height_stacked (count : Nat) (operators : List Symbol) (e : Expr) :
    (stacked count operators e).height = e.height + operators.length * count := by
  induction operators generalizing e with
  | nil => simp [stacked]
  | cons operator operators ih =>
    rw [stacked, ih, height_chained, List.length_cons, Nat.succ_mul]
    omega

/-- One operator of each level, the tightest first. -/
def ladder : List Symbol :=
  [.star, .plus, .shiftLeft, .equal, .ampersand, .caret, .bar, .both, .either, .coalesce]

/-- The highest tree whose derivation nests no deeper than `n + 1`. -/
def tallest : Nat → Expr
  | 0 => .parameter "a"
  | n + 1 =>
    .conditional (stacked (n + 1) ladder (.call "f" [tallest n])) (.parameter "a") (.parameter "a")

theorem five_mul_succ_mul_succ (n : Nat) :
    5 * (n + 1) * (n + 1) = 5 * n * n + 10 * n + 5 := by
  ring

theorem height_tallest (n : Nat) : (tallest n).height = heightBound (n + 1) := by
  induction n with
  | zero => rfl
  | succ n ih =>
    have hsquare := five_mul_succ_mul_succ n
    have hlength : ladder.length = 10 := rfl
    rw [tallest, height, height_stacked, hlength]
    simp only [height, heightAll, ih, heightBound]
    omega

end Expr

/-! ## Their words -/

/-- The name of the leaves. -/
def leafWord : Word := .name "a" rfl

/-- The operators of `Expr.chained`, each with its right operand. -/
def chainedWords (operator : Symbol) : Nat → List Word
  | 0 => []
  | count + 1 => .mark operator :: leafWord :: chainedWords operator count

/-- The operators of `Expr.stacked`, each with its right operand. -/
def stackedWords (count : Nat) : List Symbol → List Word
  | [] => []
  | operator :: operators => chainedWords operator count ++ stackedWords count operators

/-- The words of `Expr.tallest`. -/
def tallestWords : Nat → List Word
  | 0 => [leafWord]
  | n + 1 =>
    .name "f" (by decide) :: .mark .openParen :: (tallestWords n ++ .mark .closeParen ::
      (stackedWords (n + 1) Expr.ladder ++ [.mark .question, leafWord, .mark .colon, leafWord]))

/-! ## Their derivations -/

/-- Behind a chain comes the next operator, or what comes behind all of them. -/
theorem stops_chainedWords {operator : Symbol} {level : Nat} (binds : operator.level? = some level)
    (count : Nat) {rest : List Kind} (h : Stops levelCount rest) :
    Stops levelCount ((chainedWords operator count).map Word.kind ++ rest) := by
  cases count with
  | zero => exact h
  | succ count => exact stops_binary binds _

/-- A chain nests a level for each of its operators. -/
theorem exists_chained {operator : Symbol} {level : Nat} (binds : operator.level? = some level)
    (e : Expr) (count : Nat) {rest : List Kind} (h : Stops levelCount rest) :
    ∃ d : Derivation (.links level e (e.chained operator count))
      ((chainedWords operator count).map Word.kind ++ rest) rest, d.nesting = count := by
  induction count generalizing e with
  | zero => exact ⟨.last _ _ _, rfl⟩
  | succ count ih =>
    have htighter : level + 1 ≤ levelCount := level_lt binds
    obtain ⟨leaf, hleaf⟩ := exists_parameter htighter (stops_chainedWords binds count h)
    obtain ⟨others, hothers⟩ := ih (.binary operator.text e (.parameter "a"))
    refine ⟨.link operator binds leaf others, ?_⟩
    show max leaf.nesting others.nesting + 1 = count + 1
    rw [hleaf, hothers, Nat.zero_max]

/-- The levels of the operators go down to the loosest one by one. -/
def Descends : Nat → List Symbol → Prop
  | level, [] => level = 0
  | level, operator :: operators => ∃ looser, level = looser + 1 ∧ operator.level? = some looser ∧
      Descends looser operators

theorem descends_ladder : Descends levelCount Expr.ladder :=
  ⟨9, rfl, rfl, 8, rfl, rfl, 7, rfl, rfl, 6, rfl, rfl, 5, rfl, rfl, 4, rfl, rfl, 3, rfl, rfl, 2,
    rfl, rfl, 1, rfl, rfl, 0, rfl, rfl, rfl⟩

theorem stops_stackedWords {operators : List Symbol} {level : Nat}
    (hdescends : Descends level operators) (count : Nat) {rest : List Kind}
    (h : Stops levelCount rest) :
    Stops levelCount ((stackedWords count operators).map Word.kind ++ rest) := by
  induction operators generalizing level with
  | nil => exact h
  | cons operator operators ih =>
    obtain ⟨looser, -, binds, hothers⟩ := hdescends
    rw [stackedWords, List.map_append, List.append_assoc]
    exact stops_chainedWords binds count (ih hothers)

/-- Chains of different levels do not nest in each other. -/
theorem exists_stacked {operators : List Symbol} {level : Nat}
    (hdescends : Descends level operators)
    {count : Nat} {e : Expr} {input middle rest : List Kind} (h : Stops levelCount rest)
    (hmiddle : middle = (stackedWords count operators).map Word.kind ++ rest)
    (first : Derivation (.chain level e) input middle) :
    ∃ d : Derivation (.chain 0 (e.stacked count operators)) input rest,
      d.nesting ≤ max first.nesting count := by
  induction operators generalizing level e middle with
  | nil =>
    subst hdescends hmiddle
    exact ⟨first, Nat.le_max_left _ _⟩
  | cons operator operators ih =>
    obtain ⟨looser, rfl, binds, hothers⟩ := hdescends
    rw [stackedWords, List.map_append, List.append_assoc] at hmiddle
    subst hmiddle
    obtain ⟨links, hlinks⟩ := exists_chained binds e count (stops_stackedWords hothers count h)
    obtain ⟨d, hd⟩ := ih hothers rfl (.chain (level_lt binds) first links)
    refine ⟨d, Nat.le_trans hd ?_⟩
    rw [Derivation.nesting, hlinks]
    omega

/-- A call of `e` as an operand of the tightest level. -/
theorem exists_call {e : Expr} {input rest : List Kind}
    (inner : Derivation (.expression e) input (.symbol .closeParen :: rest)) :
    ∃ d : Derivation (.chain levelCount (.call "f" [e]))
      (.name "f" :: .symbol .openParen :: input) rest,
      d.nesting = inner.nesting := by
  have hunconverted :
      ∀ operand, ¬ Conversion (.name "f" :: .symbol .openParen :: input) operand := by
    intro operand h
    exact absurd h.head?_eq (by simp)
  let call :
      Derivation (.primary (.call "f" [e])) (.name "f" :: .symbol .openParen :: input) rest :=
    .call "f" (by decide) (.done _) (.listed (.only inner))
  exact ⟨.operand (.value hunconverted call (.bare _ _)), Nat.max_zero _⟩

/-- The leaf as an expression. -/
theorem exists_branch {rest : List Kind} (h : Stops levelCount rest) :
    ∃ d : Derivation (.expression (.parameter "a")) (leafWord.kind :: rest) rest,
      d.nesting = 1 := by
  obtain ⟨leaf, hleaf⟩ := exists_parameter (Nat.zero_le levelCount) h
  exact ⟨.plain leaf, congrArg Nat.succ hleaf⟩

theorem exists_tallest (n : Nat) {rest : List Kind} (h : Stops levelCount rest) :
    ∃ d : Derivation (.expression (.tallest n)) ((tallestWords n).map Word.kind ++ rest) rest,
      d.nesting ≤ n + 1 := by
  induction n generalizing rest with
  | zero =>
    obtain ⟨leaf, hleaf⟩ := exists_branch h
    exact ⟨leaf, Nat.le_of_eq hleaf⟩
  | succ n ih =>
    -- from the last token on: the branches, the chains, and the call in front of them
    obtain ⟨ifFalse, hifFalse⟩ := exists_branch h
    have hcolon : Stops levelCount (.symbol .colon :: leafWord.kind :: rest) :=
      stops_symbol _ _ rfl rfl
    obtain ⟨ifTrue, hifTrue⟩ := exists_branch hcolon
    have hmark : Stops levelCount
        (.symbol .question :: leafWord.kind :: .symbol .colon :: leafWord.kind :: rest) :=
      stops_symbol _ _ rfl rfl
    have hclose : Stops levelCount (.symbol .closeParen ::
        ((stackedWords (n + 1) Expr.ladder).map Word.kind ++ .symbol .question :: leafWord.kind ::
          .symbol .colon :: leafWord.kind :: rest)) := stops_symbol _ _ rfl rfl
    obtain ⟨inner, hinner⟩ := ih hclose
    obtain ⟨call, hcall⟩ := exists_call inner
    obtain ⟨condition, hcondition⟩ := exists_stacked descends_ladder hmark rfl call
    have hwords : (tallestWords (n + 1)).map Word.kind ++ rest = .name "f" :: .symbol .openParen ::
        ((tallestWords n).map Word.kind ++ .symbol .closeParen ::
          ((stackedWords (n + 1) Expr.ladder).map Word.kind ++ .symbol .question :: leafWord.kind ::
            .symbol .colon :: leafWord.kind :: rest)) := by
      simp [tallestWords, Word.kind]
    rw [hwords]
    refine ⟨.conditional condition ifTrue ifFalse, ?_⟩
    show max condition.nesting (max ifTrue.nesting ifFalse.nesting) + 1 ≤ n + 1 + 1
    omega

/-! ## The greatest height under a limit -/

theorem parseWith_tallest (n : Nat) : ∃ text, parseWith ⟨n + 1⟩ text = .ok (.tallest n) := by
  have hwords : tallestWords n ≠ [] := by
    cases n <;> simp [tallestWords]
  obtain ⟨text, htext⟩ := exists_spaced hwords
  obtain ⟨tokens, htokens, hkinds⟩ := htext.exists_tokens
  have hderivation := exists_tallest n (stops_nil levelCount)
  rw [List.append_nil, ← hkinds] at hderivation
  exact ⟨text, (parseWith_eq_ok_iff_nesting htokens (n + 1) _).2 hderivation⟩

theorem heightBound_eq {limit : Nat} (h : 0 < limit) :
    heightBound limit = 5 * limit * limit - 3 * limit - 1 := by
  obtain ⟨n, rfl⟩ : ∃ n, limit = n + 1 := ⟨limit - 1, by omega⟩
  rw [heightBound, Expr.five_mul_succ_mul_succ]
  omega

/-- No expression goes without a level of its own. -/
theorem exists_error_of_no_limit (text : String) : ∃ error, parseWith ⟨0⟩ text = .error error := by
  cases h : parseWith ⟨0⟩ text with
  | error error => exact ⟨error, rfl⟩
  | ok e =>
    have hheight := height_le_of_parseWith h
    have hpos := e.height_pos
    rw [heightBound] at hheight
    omega

/-- Under a limit no tree is higher than `5 * limit * limit - 3 * limit - 1`, and some text is
    parsed to a tree of that height. Without nesting nothing is parsed. -/
theorem greatest_height (limit : Nat) :
    (0 < limit →
      (∀ text e, parseWith ⟨limit⟩ text = .ok e → e.height ≤ 5 * limit * limit - 3 * limit - 1) ∧
      ∃ text e, parseWith ⟨limit⟩ text = .ok e ∧ e.height = 5 * limit * limit - 3 * limit - 1) ∧
    ∀ text, ∃ error, parseWith ⟨0⟩ text = .error error := by
  refine ⟨?_, exists_error_of_no_limit⟩
  intro hlimit
  rw [← heightBound_eq hlimit]
  constructor
  · intro text e h
    exact height_le_of_parseWith h
  · obtain ⟨n, rfl⟩ : ∃ n, limit = n + 1 := ⟨limit - 1, by omega⟩
    obtain ⟨text, htext⟩ := parseWith_tallest n
    exact ⟨text, .tallest n, htext, Expr.height_tallest n⟩

/-- Under the limit 2 the greatest height is 13. -/
theorem greatest_height_two :
    0 < 2 ∧ (∀ text e, parseWith ⟨2⟩ text = .ok e → e.height ≤ 13) ∧
      ∃ text e, parseWith ⟨2⟩ text = .ok e ∧ e.height = 13 :=
  ⟨by decide, (greatest_height 2).1 (by decide)⟩

end Formula
