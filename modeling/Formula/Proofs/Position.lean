import Formula.Proofs.ByteToken
import Formula.Proofs.Movement

set_option autoImplicit false

/-! # Positions of tokens and errors

The tokens of a text divide it: each takes the bytes from its position to that of the next, and
these bytes have that token by themselves. An error is reported at the start of a token, at a
backslash inside one, or at the end of the text, so it is never inside a character. -/

namespace Formula

/-! ## Errors of the lexer -/

namespace Quoted

/-- An error of a string is reported at its start or at one of its characters. -/
theorem offset_of_scanString {offset : Nat} {rest : List Char} {fault : Token.Fault}
    (h : scanString offset rest = .error fault) :
    fault.offset = 0 ∨ ∃ n, fault.offset = offset + Token.byteLength (rest.take n) := by
  fun_induction scanString offset rest with
  | case1 | case3 =>
    obtain rfl := Except.error.inj h
    exact .inl rfl
  | case4 offset c hquote hnewline hbackslash =>
    obtain rfl := Except.error.inj h
    exact .inr ⟨0, rfl⟩
  | case5 offset c hquote hnewline hbackslash e rest hescape =>
    obtain rfl := Except.error.inj h
    exact .inr ⟨0, rfl⟩
  | case6 offset c hquote hnewline hbackslash e rest d hescape found hfound ih =>
    rcases ih (hfound.trans h) with hzero | ⟨n, hn⟩
    · exact .inl hzero
    · obtain rfl : c = '\\' := eq_of_beq hbackslash
      have hsize : '\\'.utf8Size = 1 := rfl
      refine .inr ⟨n + 2, ?_⟩
      rw [hn, List.take_succ_cons, List.take_succ_cons, Token.byteLength, Token.byteLength,
        Bytes.utf8Size_ascii (Bytes.ascii_escape hescape), hsize]
      omega
  | case8 offset c rest hquote hnewline hbackslash found hfound ih =>
    rcases ih (hfound.trans h) with hzero | ⟨n, hn⟩
    · exact .inl hzero
    · refine .inr ⟨n + 1, ?_⟩
      rw [hn, List.take_succ_cons, Token.byteLength, Nat.add_assoc]
  | case2 | case7 | case9 => cases h

/-- An error of a character literal is reported at its start or at the backslash in it. -/
theorem offset_of_scanCharacter {rest : List Char} {fault : Token.Fault}
    (h : scanCharacter rest = .error fault) : fault.offset = 0 ∨ fault.offset = 1 := by
  have hclose : ∀ {n : Nat} {behind : List Char}, closeCharacter n behind = .error fault →
      fault.offset = 0 := by
    intro n behind hfault
    unfold closeCharacter at hfault
    split at hfault
    · cases hfault
    · obtain rfl := Except.error.inj hfault
      rfl
  unfold scanCharacter at h
  split at h
  · obtain rfl := Except.error.inj h
    exact .inl rfl
  · split at h
    · split at h
      · obtain rfl := Except.error.inj h
        exact .inr rfl
      · split at h
        · exact .inl (hclose h)
        · obtain rfl := Except.error.inj h
          exact .inr rfl
    · split at h
      · obtain rfl := Except.error.inj h
        exact .inl rfl
      · exact .inl (hclose h)

end Quoted

namespace Token

theorem offset_of_atStart {α : Type} {result : Except ParseError.Cause α} {fault : Fault}
    (h : atStart result = .error fault) : fault.offset = 0 := by
  cases result with
  | ok a => cases h
  | error cause =>
    obtain rfl := Except.error.inj h
    rfl

theorem error_of_map {ε α β : Type} {f : α → β} {result : Except ε α} {e : ε}
    (h : result.map f = .error e) : result = .error e := by
  cases result with
  | ok a => cases h
  | error e' =>
    obtain rfl := Except.error.inj h
    rfl

/-- An error of a token is reported at one of its characters. -/
theorem offset_of_scan {c : Char} {rest : List Char} {fault : Fault}
    (h : scan c rest = .error fault) :
    ∃ n, fault.offset = byteLength ((c :: rest).take n) := by
  have hstart : fault.offset = 0 → ∃ n, fault.offset = byteLength ((c :: rest).take n) :=
    fun hzero => ⟨0, hzero⟩
  cases hsingle : single? c with
  | some symbol =>
    rw [scan_single hsingle] at h
    cases h
  | none =>
    by_cases hmark : c ∈ marks
    · simp only [marks, List.mem_cons, List.not_mem_nil, or_false] at hmark
      rcases hmark with rfl | rfl | rfl | rfl | rfl | rfl | rfl | rfl | rfl | rfl | rfl
      · rw [scan_equal] at h
        split at h
        · cases h
        · obtain rfl := Except.error.inj h
          exact hstart rfl
      · cases h
      · cases h
      · cases h
      · cases h
      · cases h
      · cases h
      · rw [scan_dot] at h
        split at h
        · exact hstart (offset_of_atStart h)
        · cases h
      · rcases Quoted.offset_of_scanString (error_of_map h) with hzero | ⟨n, hn⟩
        · exact hstart hzero
        · exact ⟨n + 1, hn⟩
      · rcases Quoted.offset_of_scanCharacter (error_of_map h) with hzero | hone
        · exact hstart hzero
        · exact ⟨1, hone⟩
      · by_cases hhead : rest.head? = some '"'
        · obtain ⟨behind, rfl⟩ := List.head?_eq_some_iff.1 hhead
          rw [scan_at_quote] at h
          split at h
          · cases h
          · obtain rfl := Except.error.inj h
            exact hstart rfl
        · rw [scan_at_name hhead] at h
          exact hstart (offset_of_atStart h)
    · rw [scan_plain hsingle hmark] at h
      split at h <;> exact hstart (offset_of_atStart h)

/-- An error of a text is reported at one of its characters. -/
theorem position_of_lex_error {position : Nat} (text : List Char) {error : ParseError}
    (h : lex position text = .error error) :
    ∃ n, error.position = position + byteLength (text.take n) := by
  match text with
  | [] =>
    rw [lex_nil] at h
    cases h
  | c :: rest =>
    by_cases hblank : isBlank c = true
    · rw [lex_blank hblank] at h
      obtain ⟨n, hn⟩ := position_of_lex_error rest h
      exact ⟨n + 1, by rw [hn, List.take_succ_cons, byteLength, Nat.add_assoc]⟩
    · rw [lex, if_neg hblank] at h
      cases hscan : scan c rest with
      | error fault =>
        rw [hscan] at h
        obtain ⟨n, hn⟩ := offset_of_scan hscan
        obtain rfl : _ = error := Except.error.inj h
        exact ⟨n, by rw [hn]⟩
      | ok found =>
        obtain ⟨kind, m⟩ := found
        rw [hscan] at h
        dsimp only at h
        cases hothers : lex (position + byteLength (c :: rest.take m)) (rest.drop m) with
        | ok tokens =>
          rw [hothers] at h
          cases h
        | error e =>
          rw [hothers] at h
          obtain rfl : e = error := Except.error.inj h
          obtain ⟨n, hn⟩ := position_of_lex_error (rest.drop m) hothers
          refine ⟨(c :: rest.take m).length + n, ?_⟩
          have htext : c :: rest = (c :: rest.take m) ++ rest.drop m := by
            rw [List.cons_append, List.take_append_drop]
          rw [htext, List.take_length_add_append, byteLength_append, hn, Nat.add_assoc]
  termination_by text.length
  decreasing_by all_goals grind

/-! ## The bytes of a token -/

/-- The stretch of a text from a token to the next one, or to the end, has that token by itself. -/
theorem exists_piece {text : List Char} {before after : List Token} {token : Token}
    (h : lex 0 text = .ok (before ++ token :: after)) :
    ∃ front piece behind, text = front ++ (piece ++ behind) ∧ byteLength front = token.position ∧
      token.position + byteLength piece = (after.head?.map Token.position).getD (byteLength text) ∧
      lex 0 piece = .ok [⟨token.kind, 0⟩] := by
  obtain ⟨front, left, rfl, hfront, hleft, -⟩ := exists_split h
  simp only [Nat.zero_add, List.head?_cons, Option.map_some, Option.getD_some] at hfront hleft
  obtain ⟨piece, behind, rfl, hpiece, -, halone⟩ :=
    exists_split (show lex _ left = .ok ([token] ++ after) from hleft)
  have hlex := halone [] [] (fun _ hc => nomatch hc) (lex_nil _)
  rw [List.append_nil, List.append_nil, ← Nat.zero_add (byteLength front)] at hlex
  obtain ⟨unmoved, hunmoved, hshift⟩ := lex_shift_eq_ok_iff.1 hlex
  obtain ⟨first, rfl, rfl⟩ := List.map_eq_singleton_iff.1 hshift.symm
  refine ⟨front, piece, behind, rfl, hfront, ?_, ?_⟩
  · rw [← hfront, hpiece, byteLength_append front]
  · have hzero : first.position = 0 := Nat.left_eq_add.1 (hfront.trans (Nat.add_comm _ _))
    rw [hunmoved, ← hzero]
    rfl

end Token

/-! ## Errors of the parser -/

/-- Errors of a parser that carries over to moved tokens are reported at a token or at the end. -/
theorem Parser.position_of_error {α : Type} {p : Parser α} (hp : ∀ place, Carries place p p)
    {setting : Setting} {tokens : List Token} {error : ParseError}
    (h : (p setting tokens).result = .error error) :
    error.position ∈ tokens.map Token.position ∨ error.position = setting.stop := by
  by_contra hnowhere
  obtain ⟨htoken, hstop⟩ := not_or.1 hnowhere
  -- a movement of that place alone would move the error and nothing that the parser has seen
  obtain ⟨place, hnext, hplace⟩ : ∃ place : Nat → Nat, place error.position = error.position + 1 ∧
      ∀ position, position ≠ error.position → place position = position :=
    ⟨fun position => if position = error.position then position + 1 else position, if_pos rfl,
      fun _ hne => if_neg hne⟩
  have htokens : tokens.map (Token.move place) = tokens :=
    Token.map_move_eq_self fun token hmem => hplace _ fun heq =>
      htoken (List.mem_map.2 ⟨token, hmem, heq⟩)
  have hsetting : setting.move place = setting := by
    rw [Setting.move, hplace _ (Ne.symm hstop)]
  have hmoved := congrArg Reply.result (hp place setting tokens)
  rw [htokens, hsetting, Reply.move, h] at hmoved
  have hsame : error.position = place error.position :=
    congrArg ParseError.position (Except.error.inj hmoved)
  omega

/-! ## Places of tokens and errors -/

/-- How a token lies in a text in front of the place `next`: it starts at the first byte of a
    character that is not a blank, and the piece up to `next` has this token alone. -/
structure Lies (text : String) (token : Token) (next : Nat) : Prop where
  boundary : Bytes.IsBoundary text token.position
  first : ∃ byte, Bytes.peek text token.position = some byte ∧ isBlank byte = false
  alone : ∃ piece, Bytes.slice? text token.position next = some piece ∧
    Bytes.lexemes piece = some (.ok [⟨some token.kind, 0⟩, ⟨none, piece.utf8ByteSize⟩])

theorem lies_of_lex {text : String} {before after : List Token} {token : Token}
    (h : Token.tokenize text = .ok (before ++ token :: after)) :
    Lies text token ((after.head?.map Token.position).getD text.utf8ByteSize) := by
  obtain ⟨front, piece, behind, htext, hfront, hnext, hpiece⟩ := Token.exists_piece h
  have hat : Bytes.At text token.position (piece ++ behind) := ⟨front, htext, hfront⟩
  rw [Token.byteLength_toList] at hnext
  refine ⟨hat.isBoundary, ?_, String.ofList piece, ?_, ?_⟩
  · obtain ⟨c, rest, rfl, hblank⟩ := Token.exists_first hpiece
    obtain ⟨byte, hpeek, -⟩ := hat.exists_peek c.utf8Size_pos
    refine ⟨byte, hpeek, ?_⟩
    have hany := hat.any_peek Bytes.ascii_isBlank
    rw [show Bytes.peek text token.position = some byte from hpeek] at hany
    exact hany.trans hblank
  · rw [← hnext]
    exact hat.slice?
  · rw [Bytes.lexemes_eq, Token.tokenize, String.toList_ofList, hpiece]
    rfl

/-- No error is reported inside a character. -/
theorem isBoundary_of_parseWith {text : String} {options : ParseOptions} {error : ParseError}
    (h : parseWith options text = .error error) : Bytes.IsBoundary text error.position := by
  unfold parseWith parseRecording at h
  cases htokens : Token.tokenize text with
  | error e =>
    rw [htokens] at h
    obtain rfl : e = error := Except.error.inj h
    obtain ⟨n, hn⟩ := Token.position_of_lex_error text.toList htokens
    have hat : Bytes.At text e.position (text.toList.drop n) :=
      ⟨text.toList.take n, (List.take_append_drop n _).symm, (hn.trans (Nat.zero_add _)).symm⟩
    exact hat.isBoundary
  | ok tokens =>
    rw [htokens] at h
    have hresult := Token.error_of_map h
    rcases Parser.position_of_error
      (fun place => Parser.carries_formula options.maxDepth) hresult with
      htoken | hstop
    · obtain ⟨token, hmem, hposition⟩ := List.mem_map.1 htoken
      obtain ⟨before, after, rfl⟩ := List.append_of_mem hmem
      rw [← hposition]
      exact (lies_of_lex htokens).boundary
    · rw [hstop]
      exact (Bytes.at_end text).isBoundary

/-- **Tokens and errors are where the bytes say.** For every text, the lexer that goes over bytes
    cuts nothing but between characters and ends with the tokens of the text, or with its error. The
    tokens come one behind the other, each lies in the text up to the next one, and the last one up
    to the end. No error of a parse is reported behind the text or inside a character. -/
theorem positions_on_boundaries (text : String) :
    Bytes.lexemes text = some ((Token.tokenize text).map (Bytes.lexemesOf text)) ∧
      (∀ tokens, Token.tokenize text = .ok tokens →
        (tokens.map Token.position ++ [text.utf8ByteSize]).Pairwise (· < ·) ∧
          ∀ before token after, tokens = before ++ token :: after →
            Lies text token ((after.head?.map Token.position).getD text.utf8ByteSize)) ∧
      ∀ error, (parse text = .error error ∨ ∃ options, parseWith options text = .error error) →
        error.position ≤ text.utf8ByteSize ∧ Bytes.IsBoundary text error.position := by
  refine ⟨Bytes.lexemes_eq text, fun tokens htokens => ⟨?_, ?_⟩, ?_⟩
  · refine List.pairwise_append.2 ⟨?_, List.pairwise_singleton _ _, ?_⟩
    · exact List.pairwise_map.2 (Token.pairwise_position_of_lex _ htokens)
    · intro position hposition stop hstop
      obtain ⟨token, hmem, rfl⟩ := List.mem_map.1 hposition
      rw [List.mem_singleton.1 hstop, ← Token.byteLength_toList,
        ← Nat.zero_add (Token.byteLength _)]
      exact Token.position_lt_of_lex htokens token hmem
  · rintro before token after rfl
    exact lies_of_lex htokens
  · rintro error (h | ⟨options, h⟩)
    · have hboundary := isBoundary_of_parseWith (show parseWith {} text = .error error from h)
      exact ⟨hboundary.le, hboundary⟩
    · have hboundary := isBoundary_of_parseWith h
      exact ⟨hboundary.le, hboundary⟩

/-- A string with a character of two bytes, and an error at the end. -/
theorem positions_on_boundaries_accent :
    let text := "\"é\"+"
    let tokens : List Token := [⟨.string "é", 0⟩, ⟨.symbol .plus, 4⟩]
    Token.tokenize text = .ok tokens ∧
      (tokens.map Token.position ++ [text.utf8ByteSize]).Pairwise (· < ·) ∧
      Lies text ⟨.string "é", 0⟩ 4 ∧
      parse text = .error ⟨5, .unexpectedEnd⟩ ∧ 5 ≤ text.utf8ByteSize ∧
      Bytes.IsBoundary text 5 := by
  intro text tokens
  have htokens : Token.tokenize text = .ok tokens := by
    decide +kernel
  have herror : parse text = .error ⟨5, .unexpectedEnd⟩ := by
    decide +kernel
  obtain ⟨-, htext, herrors⟩ := positions_on_boundaries text
  obtain ⟨hpairwise, hlies⟩ := htext tokens htokens
  exact ⟨htokens, hpairwise, hlies [] _ [⟨.symbol .plus, 4⟩] rfl, herror, herrors _ (.inl herror)⟩

end Formula
