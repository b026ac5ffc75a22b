import Formula.Proofs.Lex
import Formula.Proofs.Movement
import Mathlib.Data.List.Basic

set_option autoImplicit false

/-! # Blanks between tokens

Blanks that are put in front of a token, or at the end of a text, push what stands behind them to
later bytes and do nothing else. A place between two tokens stays one with blanks in it, so no
token changes; and a parser does not look at positions, so it reads the same and reports its
errors at the pushed places. -/

namespace Formula

/-- Where a place is found when `width` bytes are put in at `p`. -/
def pushed (p width place : Nat) : Nat := if p ≤ place then place + width else place

theorem pushed_of_le {p place : Nat} (h : p ≤ place) (width : Nat) :
    pushed p width place = place + width :=
  if_pos h

theorem pushed_of_lt {p place : Nat} (h : place < p) (width : Nat) : pushed p width place = place :=
  if_neg (Nat.not_le_of_lt h)

theorem pushed_zero (p place : Nat) : pushed p 0 place = place := by
  unfold pushed
  split <;> rfl

namespace Token

/-! ## Moving the tokens behind a place -/

theorem map_move_of_le {tokens : List Token} {p : Nat} (h : ∀ token ∈ tokens, p ≤ token.position)
    (width : Nat) : tokens.map (move (pushed p width)) = tokens.map (shift width) := by
  refine List.map_congr_left fun token htoken => ?_
  rw [move, shift, pushed_of_le (h token htoken)]

/-! ## Places between tokens -/

/-- The start of a token, or the end of the text, divides the tokens. -/
theorem exists_divide {position p : Nat} {text : List Char} {tokens : List Token}
    (h : lex position text = .ok tokens)
    (hp : p ∈ tokens.map Token.position ∨ p = position + byteLength text) :
    ∃ before left, tokens = before ++ left ∧
      p = (left.head?.map Token.position).getD (position + byteLength text) ∧
      (∀ token ∈ before, token.position < p) ∧ ∀ token ∈ left, p ≤ token.position := by
  rcases hp with hp | rfl
  · obtain ⟨token, htoken, rfl⟩ := List.mem_map.1 hp
    obtain ⟨before, after, rfl⟩ := List.append_of_mem htoken
    obtain ⟨-, hafter, hbefore⟩ := List.pairwise_append.1 (pairwise_position_of_lex text h)
    refine ⟨before, token :: after, rfl, rfl,
      fun first hfirst => hbefore first hfirst token (by simp), ?_⟩
    intro other hother
    rcases List.mem_cons.1 hother with rfl | hother
    · exact Nat.le_refl _
    · exact Nat.le_of_lt (List.rel_of_pairwise_cons hafter hother)
  · exact ⟨tokens, [], (List.append_nil tokens).symm, rfl, position_lt_of_lex h,
      fun _ h => nomatch h⟩

/-! ## Blanks in a text -/

/-- A text with blanks in it, at the start of a token or at its end, has the same tokens, pushed. -/
theorem lex_insert_blanks {text blanks : List Char} {tokens : List Token} {p : Nat}
    (h : lex 0 text = .ok tokens) (hp : p ∈ tokens.map Token.position ∨ p = byteLength text)
    (hblanks : ∀ c ∈ blanks, isBlank c = true) :
    ∃ front behind, text = front ++ behind ∧ byteLength front = p ∧
      lex 0 (front ++ (blanks ++ behind)) =
        .ok (tokens.map (move (pushed p (byteLength blanks)))) := by
  rw [← Nat.zero_add (byteLength text)] at hp
  obtain ⟨before, left, rfl, hplace, hbefore, hleft⟩ := exists_divide h hp
  obtain ⟨front, behind, rfl, hfront, hbehind, hsplit⟩ := exists_split h
  obtain rfl : byteLength front = p := by rw [hplace, ← hfront, Nat.zero_add]
  rw [Nat.zero_add] at hbehind hsplit
  refine ⟨front, behind, rfl, rfl, ?_⟩
  match blanks with
  | [] =>
    rw [byteLength, map_move_eq_self fun _ _ => pushed_zero _ _]
    exact h
  | c :: blanks =>
    rw [List.map_append, map_move_of_le hleft,
      map_move_eq_self fun token htoken => pushed_of_lt (hbefore token htoken) _]
    refine hsplit _ _ ?_ ?_
    · have hblank := hblanks c List.mem_cons_self
      exact separated_cons.2 (by simp [isSeparator, hblank])
    · rw [lex_blanks hblanks]
      exact lex_shift_eq_ok_iff.2 ⟨left, hbehind, rfl⟩

end Token

/-! ## Parsing a text with other places -/

/-- A text with the same tokens at other places is parsed the same, with the
    places in the answer moved. -/
theorem parseRecording_move {place : Nat → Nat} {text moved : String} {tokens : List Token}
    (htokens : Token.tokenize text = .ok tokens)
    (hmoved : Token.tokenize moved = .ok (tokens.map (Token.move place)))
    (hstop : moved.utf8ByteSize = place text.utf8ByteSize) (options : ParseOptions) :
    parseRecording options moved =
      ((parseRecording options text).1.mapError (ParseError.move place),
        (parseRecording options text).2.map (Fold.move place)) := by
  have hreply : Parser.formula options.maxDepth ⟨place text.utf8ByteSize, options.maxDepth⟩
      (tokens.map (Token.move place)) =
        (Parser.formula options.maxDepth ⟨text.utf8ByteSize, options.maxDepth⟩ tokens).move place :=
    Parser.carries_formula options.maxDepth ⟨text.utf8ByteSize, options.maxDepth⟩ tokens
  unfold parseRecording
  rw [htokens, hmoved, hstop]
  dsimp only
  rw [hreply]
  rcases Parser.formula options.maxDepth ⟨text.utf8ByteSize, options.maxDepth⟩ tokens with
    ⟨folds, error | ⟨e, rest⟩⟩ <;> rfl

/-- Blanks in front of a token or at the end of a text push what stands behind them and change
    nothing else: the tokens are the same, and so is the expression or the error. -/
theorem parseWith_insert_blanks {text blanks : String} {tokens : List Token} {p : Nat}
    (htokens : Token.tokenize text = .ok tokens)
    (hp : p ∈ tokens.map Token.position ∨ p = text.utf8ByteSize)
    (hblanks : ∀ c ∈ blanks.toList, isBlank c = true) :
    ∃ front behind : String, text = front ++ behind ∧ front.utf8ByteSize = p ∧
      (front ++ blanks ++ behind).utf8ByteSize = pushed p blanks.utf8ByteSize text.utf8ByteSize ∧
      Token.tokenize (front ++ blanks ++ behind) =
        .ok (tokens.map (Token.move (pushed p blanks.utf8ByteSize))) ∧
      ∀ options, parseWith options (front ++ blanks ++ behind) =
        (parseWith options text).mapError (ParseError.move (pushed p blanks.utf8ByteSize)) := by
  rw [← Token.byteLength_toList text] at hp
  obtain ⟨front, behind, htext, hfront, hlex⟩ := Token.lex_insert_blanks htokens hp hblanks
  obtain rfl := Token.eq_ofList_append htext
  rw [← Token.utf8ByteSize_ofList] at hfront
  have hstop : (String.ofList front ++ blanks ++ String.ofList behind).utf8ByteSize =
      pushed p blanks.utf8ByteSize (String.ofList front ++ String.ofList behind).utf8ByteSize := by
    rw [pushed_of_le (by rw [String.utf8ByteSize_append]; omega)]
    simp only [String.utf8ByteSize_append]
    omega
  have hmoved : Token.tokenize (String.ofList front ++ blanks ++ String.ofList behind) =
      .ok (tokens.map (Token.move (pushed p blanks.utf8ByteSize))) := by
    rw [Token.byteLength_toList] at hlex
    rw [Token.tokenize, String.append_assoc, String.toList_append, String.toList_append,
      String.toList_ofList, String.toList_ofList]
    exact hlex
  refine ⟨_, _, rfl, hfront, hstop, hmoved, fun options => ?_⟩
  exact congrArg Prod.fst (parseRecording_move htokens hmoved hstop options)

/-- A tab and a space in front of a bracket that is reported. -/
theorem parseWith_insert_blanks_bracket :
    let tokens : List Token := [⟨.name "a", 0⟩, ⟨.symbol .plus, 1⟩, ⟨.name "b", 2⟩,
      ⟨.symbol .closeBracket, 3⟩]
    Token.tokenize "a+b]" = .ok tokens ∧ 3 ∈ tokens.map Token.position ∧
      (∀ c ∈ "\t ".toList, isBlank c = true) ∧
      ∃ front behind : String, "a+b]" = front ++ behind ∧ front.utf8ByteSize = 3 ∧
        (front ++ "\t " ++ behind).utf8ByteSize =
          pushed 3 "\t ".utf8ByteSize "a+b]".utf8ByteSize ∧
        Token.tokenize (front ++ "\t " ++ behind) =
          .ok (tokens.map (Token.move (pushed 3 "\t ".utf8ByteSize))) ∧
        ∀ options, parseWith options (front ++ "\t " ++ behind) =
          (parseWith options "a+b]").mapError (ParseError.move (pushed 3 "\t ".utf8ByteSize)) := by
  intro tokens
  have htokens : Token.tokenize "a+b]" = .ok tokens := by
    decide +kernel
  have hplace : 3 ∈ tokens.map Token.position := by decide
  have hblanks : ∀ c ∈ "\t ".toList, isBlank c = true := by simp [isBlank]
  exact ⟨htokens, hplace, hblanks, parseWith_insert_blanks htokens (.inl hplace) hblanks⟩

end Formula
