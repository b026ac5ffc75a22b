import Formula.Proofs.ByteNumeral
import Mathlib.Data.List.TakeWhile

set_option autoImplicit false

/-! # Tokens by their bytes

A string is the only token that is read past characters that are not ASCII. Their bytes are above
ASCII, so none of them is taken for the quote that ends the string or for a backslash. -/

namespace Formula.Bytes

open Token (Kind Fault byteLength byteLength_append)

variable {text : String} {i start opened offset : Nat} {piece rest : List Char}

/-- The answer of the lexer by characters for a token that starts with `c`: its kind and the place
    behind it, or the place of its error. -/
def tokenAnswer (start : Nat) (c : Char) (rest : List Char) :
    Except Fault (Kind × Nat) → Except ParseError (Kind × Nat)
  | .ok (kind, n) => .ok (kind, start + byteLength (c :: rest.take n))
  | .error fault => .error ⟨start + fault.offset, fault.cause⟩

/-! ## Escapes -/

theorem escape?_eq_none {c : Char} (h : 128 ≤ c.toNat) : Quoted.escape? c = none := by
  unfold Quoted.escape?
  split <;> first | rfl | exact absurd h (by decide)

theorem ascii_escape {c d : Char} (h : Quoted.escape? c = some d) : c.toNat < 128 := by
  refine Nat.lt_of_not_le fun hle => ?_
  rw [escape?_eq_none hle] at h
  cases h

theorem escape_eq (h : At text (i + 1) rest) :
    escape text i = match rest.head?.bind Quoted.escape? with
      | some c => .done (.ok c)
      | none => .done (.error ⟨i, .invalidEscape⟩) := by
  unfold escape
  rw [h.peek_bind fun _ => escape?_eq_none]
  rfl

/-! ## Pieces -/

/-- Of the text from `opened` on, `piece` has been passed and `rest` stands at the place `i`. -/
structure Passed (text : String) (opened i : Nat) (piece rest : List Char) : Prop where
  stands : At text opened (piece ++ rest)
  place_eq : opened + byteLength piece = i

theorem At.nothing_passed (h : At text i rest) : Passed text i i [] rest := ⟨h, rfl⟩

namespace Passed

theorem at_rest (h : Passed text opened i piece rest) :
    At text i rest := h.place_eq ▸ h.stands.behind

theorem slice? (h : Passed text opened i piece rest) :
    Bytes.slice? text opened i = some (String.ofList piece) := h.place_eq ▸ h.stands.slice?

theorem pass {c : Char} (h : Passed text opened i piece (c :: rest)) :
    Passed text opened (i + c.utf8Size) (piece ++ [c]) rest where
  stands := by
    rw [List.append_assoc, List.singleton_append]
    exact h.stands
  place_eq := by
    rw [byteLength_append, ← Nat.add_assoc, h.place_eq]
    rfl

end Passed

theorem append_ofList_push (read : String) (piece : List Char) (c : Char) :
    (read ++ String.ofList piece).push c = read ++ String.ofList (piece ++ [c]) := by
  simp [← String.toList_inj]

/-! ## Strings -/

/-- What is found of a string behind `before`, which ends at `i`, as a token and
    the place behind it. -/
def quoted (start i : Nat) (before : String) (rest : List Char) :
    Except Fault (List Char × Nat) → Except ParseError (Kind × Nat)
  | .ok (found, n) => .ok (.string (before ++ String.ofList found), i + byteLength (rest.take n))
  | .error fault => .error ⟨start + fault.offset, fault.cause⟩

/-- A character that is found counts to what stands before the rest. -/
theorem quoted_cons (before : String) (taken : List Char) (c : Char)
    (result : Except Fault (List Char × Nat)) :
    quoted start i before (taken ++ rest)
      (result.map fun (found, n) => (c :: found, n + taken.length)) =
      quoted start (i + byteLength taken) (before.push c) rest result := by
  cases result with
  | error fault => rfl
  | ok found =>
    obtain ⟨found, n⟩ := found
    have hread : before ++ String.ofList (c :: found) = before.push c ++ String.ofList found := by
      simp [← String.toList_inj]
    simp only [Except.map, quoted, hread, Nat.add_comm n, List.take_length_add_append,
      byteLength_append, Nat.add_assoc]

theorem scanString_no_escape (h : rest.head?.bind Quoted.escape? = none) :
    Quoted.scanString offset ('\\' :: rest) = .error ⟨offset, .invalidEscape⟩ := by
  match rest with
  | [] => rfl
  | e :: rest =>
    have hnone : Quoted.escape? e = none := h
    rw [Quoted.scanString, if_neg (by decide), if_neg (by decide), if_pos (by decide)]
    simp only [hnone]

theorem scanString_escape {e d : Char} (h : Quoted.escape? e = some d) (rest : List Char) :
    Quoted.scanString offset ('\\' :: e :: rest) =
      (Quoted.scanString (offset + 2) rest).map fun (found, n) => (d :: found, n + 2) := by
  rw [Quoted.scanString, if_neg (by decide), if_neg (by decide), if_pos (by decide)]
  simp only [h]
  cases Quoted.scanString (offset + 2) rest <;> rfl

theorem scanString_plain {c : Char} (hnewline : c ≠ '\n') (hquote : c ≠ '"') (hbackslash : c ≠ '\\')
    (rest : List Char) :
    Quoted.scanString offset (c :: rest) =
      (Quoted.scanString (offset + c.utf8Size) rest).map fun (found, n) => (c :: found, n + 1) := by
  rw [Quoted.scanString.eq_def]
  dsimp only
  rw [if_neg (by simpa using hquote), if_neg (by simpa using hnewline),
    if_neg (by simpa using hbackslash)]
  cases Quoted.scanString (offset + c.utf8Size) rest <;> rfl

theorem string_none (read : String) (h : peek text i = none) :
    string text start opened i read = .done (.error ⟨start, .unterminatedString⟩) := by
  rw [string]
  split
  · rfl
  · next hsome => rw [h] at hsome; cases hsome

theorem string_some {c : Char} (read : String) (h : peek text i = some c) :
    string text start opened i read =
      if c == '\n' then .done (.error ⟨start, .unterminatedString⟩)
      else if c == '"' then do
        let piece ← slice? text opened i
        return (.string (read ++ piece), i + 1)
      else if c == '\\' then do
        let piece ← slice? text opened i
        let escaped ← escape text i
        string text start (i + 2) (i + 2) ((read ++ piece).push escaped)
      else
        string text start opened (i + 1) read := by
  rw [string]
  split
  · next hnone => rw [h] at hnone; cases hnone
  · next d hsome =>
    obtain rfl : c = d := Option.some.inj (h.symm.trans hsome)
    rfl

/-- A string goes on over each character that does not end it, whatever its bytes are. -/
theorem string_plain {c : Char} (read : String) (h : At text i (c :: rest)) (hnewline : c ≠ '\n')
    (hquote : c ≠ '"') (hbackslash : c ≠ '\\') :
    string text start opened i read = string text start opened (i + c.utf8Size) read := by
  refine h.pass_char (fun j => string text start opened j read) fun j byte hpeek hbyte => ?_
  have hplain : ∀ d : Char, d.toNat < 128 → c ≠ d → byte ≠ d := by
    rintro d hd hc rfl
    rcases hbyte with rfl | hbyte
    · exact hc rfl
    · omega
  rw [string_some read hpeek, if_neg (by simpa using hplain '\n' (by decide) hnewline),
    if_neg (by simpa using hplain '"' (by decide) hquote),
    if_neg (by simpa using hplain '\\' (by decide) hbackslash)]

theorem string_quote (read : String) (h : Passed text opened i piece ('"' :: rest)) :
    string text start opened i read =
      .done (.ok (.string (read ++ String.ofList piece), i + 1)) := by
  rw [string_some read ((h.at_rest.peek_eq_some_iff (by decide)).2 rfl), if_neg (by decide),
    if_pos (by decide), h.slice?]
  rfl

theorem string_newline (read : String) (h : At text i ('\n' :: rest)) :
    string text start opened i read = .done (.error ⟨start, .unterminatedString⟩) := by
  rw [string_some read ((h.peek_eq_some_iff (by decide)).2 rfl), if_pos (by decide)]

theorem string_backslash (read : String) (h : Passed text opened i piece ('\\' :: rest)) :
    string text start opened i read =
      match rest.head?.bind Quoted.escape? with
      | some c => string text start (i + 2) (i + 2) ((read ++ String.ofList piece).push c)
      | none => .done (.error ⟨i, .invalidEscape⟩) := by
  have hbehind : At text (i + 1) rest := h.at_rest.tail
  rw [string_some read ((h.at_rest.peek_eq_some_iff (by decide)).2 rfl), if_neg (by decide),
    if_neg (by decide), if_pos (by decide), h.slice?, Reading.lift_bind, escape_eq hbehind]
  cases rest.head?.bind Quoted.escape? <;> rfl

/-- A string by its bytes is the one by its characters. What has been passed since the last
    escape is not in `read` yet. -/
theorem string_eq (rest piece : List Char) {opened i offset : Nat} (read : String)
    (h : Passed text opened i piece rest) (hoffset : i = start + offset) :
    string text start opened i read =
      .done (quoted start i (read ++ String.ofList piece) rest
        (Quoted.scanString offset rest)) := by
  match rest with
  | [] => exact string_none read h.at_rest.peek_nil
  | c :: rest =>
    by_cases hquote : c = '"'
    · subst hquote
      rw [string_quote read h, Quoted.scanString.eq_def]
      simp only [beq_self_eq_true, if_true, quoted, String.ofList_nil, String.append_empty]
      rfl
    · by_cases hnewline : c = '\n'
      · subst hnewline
        rw [string_newline read h.at_rest, Quoted.scanString.eq_def]
        rfl
      · by_cases hbackslash : c = '\\'
        · subst hbackslash
          rw [string_backslash read h]
          cases hescape : rest.head?.bind Quoted.escape? with
          | none =>
            rw [scanString_no_escape hescape, hoffset]
            rfl
          | some d =>
            obtain ⟨e, hhead, hd⟩ := Option.bind_eq_some_iff.1 hescape
            obtain ⟨behind, rfl⟩ := List.head?_eq_some_iff.1 hhead
            have hsize := utf8Size_ascii (ascii_escape hd)
            have hnext : At text (i + 2) behind := h.at_rest.tail.tail_ascii (ascii_escape hd)
            have htaken : i + byteLength ['\\', e] = i + 2 := by
              rw [byteLength, byteLength, hsize]
              rfl
            dsimp only
            rw [scanString_escape hd, string_eq behind [] _ hnext.nothing_passed
              (show i + 2 = start + (offset + 2) by omega), String.ofList_nil, String.append_empty,
              ← htaken]
            exact congrArg Reading.done
              (quoted_cons (read ++ String.ofList piece) ['\\', e] d _).symm
        · rw [string_plain read h.at_rest hnewline hquote hbackslash,
            scanString_plain hnewline hquote hbackslash, string_eq rest (piece ++ [c]) read h.pass
            (show i + c.utf8Size = start + (offset + c.utf8Size) by omega), ← append_ofList_push]
          exact congrArg Reading.done (quoted_cons (read ++ String.ofList piece) [c] c _).symm
  termination_by rest.length

/-! ## Verbatim strings -/

/-- What is found of a verbatim string, with the error if it does not end. -/
def verbatimResult (rest : List Char) : Except Fault (List Char × Nat) :=
  (Quoted.scanVerbatim rest).elim (.error ⟨0, .unterminatedString⟩) .ok

theorem verbatimResult_doubled (rest : List Char) :
    verbatimResult ('"' :: '"' :: rest) =
      (verbatimResult rest).map fun (found, n) => ('"' :: found, n + 2) := by
  rw [verbatimResult, Quoted.scanVerbatim, verbatimResult]
  cases Quoted.scanVerbatim rest <;> rfl

theorem verbatimResult_end (h : rest.head? ≠ some '"') :
    verbatimResult ('"' :: rest) = .ok ([], 1) := by
  match rest with
  | [] => rfl
  | c :: rest =>
    have hc : c ≠ '"' := by simpa using h
    rw [verbatimResult, Quoted.scanVerbatim]
    · rfl
    · rintro _ - htail
      exact hc (List.cons.inj htail).1

theorem verbatimResult_plain {c : Char} (h : c ≠ '"') (rest : List Char) :
    verbatimResult (c :: rest) =
      (verbatimResult rest).map fun (found, n) => (c :: found, n + 1) := by
  rw [verbatimResult, Quoted.scanVerbatim, verbatimResult, if_neg (by simpa using h)]
  · cases Quoted.scanVerbatim rest <;> rfl
  · exact fun _ hc _ => h hc

theorem verbatim_none (read : String) (h : peek text i = none) :
    verbatim text start opened i read = .done (.error ⟨start, .unterminatedString⟩) := by
  rw [verbatim]
  split
  · rfl
  · next hsome => rw [h] at hsome; cases hsome

theorem verbatim_some {c : Char} (read : String) (h : peek text i = some c) :
    verbatim text start opened i read =
      if c == '"' then
        if peek text (i + 1) = some '"' then do
          let piece ← slice? text opened (i + 1)
          verbatim text start (i + 2) (i + 2) (read ++ piece)
        else do
          let piece ← slice? text opened i
          return (.string (read ++ piece), i + 1)
      else
        verbatim text start opened (i + 1) read := by
  rw [verbatim]
  split
  · next hnone => rw [h] at hnone; cases hnone
  · next d hsome =>
    obtain rfl : c = d := Option.some.inj (h.symm.trans hsome)
    rfl

theorem verbatim_plain {c : Char} (read : String) (h : At text i (c :: rest)) (hquote : c ≠ '"') :
    verbatim text start opened i read = verbatim text start opened (i + c.utf8Size) read := by
  refine h.pass_char (fun j => verbatim text start opened j read) fun j byte hpeek hbyte => ?_
  have hplain : byte ≠ '"' := by
    rintro rfl
    rcases hbyte with rfl | hbyte
    · exact hquote rfl
    · exact absurd hbyte (by decide)
  rw [verbatim_some read hpeek, if_neg (by simpa using hplain)]

theorem verbatim_doubled (read : String) (h : Passed text opened i piece ('"' :: '"' :: rest)) :
    verbatim text start opened i read =
      verbatim text start (i + 2) (i + 2) (read ++ String.ofList (piece ++ ['"'])) := by
  have hquote : Passed text opened (i + 1) (piece ++ ['"']) ('"' :: rest) := h.pass
  rw [verbatim_some read ((h.at_rest.peek_eq_some_iff (by decide)).2 rfl), if_pos (by decide),
    if_pos ((hquote.at_rest.peek_eq_some_iff (by decide)).2 rfl), hquote.slice?]
  rfl

theorem verbatim_end (read : String) (h : Passed text opened i piece ('"' :: rest))
    (hend : rest.head? ≠ some '"') :
    verbatim text start opened i read =
      .done (.ok (.string (read ++ String.ofList piece), i + 1)) := by
  have hbehind : At text (i + 1) rest := h.at_rest.tail
  rw [verbatim_some read ((h.at_rest.peek_eq_some_iff (by decide)).2 rfl), if_pos (by decide),
    if_neg (mt (hbehind.peek_eq_some_iff (by decide)).1 hend), h.slice?]
  rfl

/-- A verbatim string by its bytes is the one by its characters. What has been passed since the last
    doubled quote is not in `read` yet. -/
theorem verbatim_eq (rest piece : List Char) {opened i : Nat} (read : String)
    (h : Passed text opened i piece rest) :
    verbatim text start opened i read =
      .done (quoted start i (read ++ String.ofList piece) rest (verbatimResult rest)) := by
  match rest with
  | [] => exact verbatim_none read h.at_rest.peek_nil
  | c :: rest =>
    by_cases hquote : c = '"'
    · subst hquote
      by_cases hdoubled : rest.head? = some '"'
      · obtain ⟨behind, rfl⟩ := List.head?_eq_some_iff.1 hdoubled
        have hnext : At text (i + 2) behind := h.at_rest.tail.tail
        rw [verbatim_doubled read h, verbatimResult_doubled,
          verbatim_eq behind [] _ hnext.nothing_passed, String.ofList_nil, String.append_empty,
          ← append_ofList_push]
        exact congrArg Reading.done
          (quoted_cons (read ++ String.ofList piece) ['"', '"'] '"' _).symm
      · rw [verbatim_end read h hdoubled, verbatimResult_end hdoubled]
        simp only [quoted, String.ofList_nil, String.append_empty]
        rfl
    · rw [verbatim_plain read h.at_rest hquote, verbatimResult_plain hquote,
        verbatim_eq rest (piece ++ [c]) read h.pass, ← append_ofList_push]
      exact congrArg Reading.done (quoted_cons (read ++ String.ofList piece) [c] c _).symm
  termination_by rest.length

/-! ## Character literals -/

/-- The apostrophe behind a character literal of which `taken` has been passed. -/
theorem closing_eq {taken : List Char} (h : At text start ('\x27' :: (taken ++ rest))) :
    (if peek text (start + byteLength ('\x27' :: taken)) = some '\x27' then
        return (.character, start + byteLength ('\x27' :: taken) + 1)
      else throw ⟨start, .unterminatedCharacter⟩ : Reading (Kind × Nat)) =
      .done (tokenAnswer start '\x27' (taken ++ rest)
        ((Quoted.closeCharacter taken.length rest).map fun n => (.character, n))) := by
  have hbehind : At text (start + byteLength ('\x27' :: taken)) rest :=
    At.behind (show At text start (('\x27' :: taken) ++ rest) from h)
  have hclose : peek text (start + byteLength ('\x27' :: taken)) = some '\x27' ↔
      rest.head? = some '\x27' := hbehind.peek_eq_some_iff (by decide)
  unfold Quoted.closeCharacter
  by_cases hhead : rest.head? = some '\x27'
  · obtain ⟨behind, rfl⟩ := List.head?_eq_some_iff.1 hhead
    rw [if_pos (hclose.2 hhead), if_pos hhead]
    simp only [Except.map, tokenAnswer, List.take_length_add_append, byteLength, byteLength_append,
      Nat.add_assoc]
    rfl
  · rw [if_neg (mt hclose.1 hhead), if_neg hhead]
    rfl

/-- What comes behind the opening apostrophe, if it is not a backslash: none of the bytes of a
    character that is not ASCII is one of the characters that are asked for. -/
theorem characterEnd_plain {c : Char} (h : At text (start + 1) (c :: rest))
    (hbackslash : c ≠ '\\') :
    characterEnd text start =
      if c = '\x27' ∨ c = '\n' then .done (.error ⟨start, .emptyCharacter⟩)
      else .done (.ok (start + 1 + c.utf8Size)) := by
  obtain ⟨byte, hpeek, hbyte⟩ := h.exists_peek c.utf8Size_pos
  have hsame : ∀ d : Char, d.toNat < 128 → (byte = d ↔ c = d) := by
    intro d hd
    rcases hbyte with rfl | ⟨hbyte, hc⟩
    · exact Iff.rfl
    · constructor <;> rintro rfl <;> omega
  unfold characterEnd
  rw [show peek text (start + 1) = some byte from hpeek]
  dsimp only
  rw [if_neg (by simpa using mt (hsame '\\' (by decide)).1 hbackslash), h.slice?_rest,
    Reading.lift_bind, String.toList_ofList]
  by_cases hempty : c = '\x27' ∨ c = '\n'
  · rw [if_pos hempty, if_pos (by
      simpa using hempty.imp (hsame '\x27' (by decide)).2 (hsame '\n' (by decide)).2)]
    rfl
  · rw [if_neg hempty, if_neg (by
      simpa [hsame '\x27' (by decide), hsame '\n' (by decide)] using hempty)]
    rfl

theorem scanCharacter_plain {c : Char} (h : c ≠ '\\') (rest : List Char) :
    Quoted.scanCharacter (c :: rest) =
      if c = '\x27' ∨ c = '\n' then .error ⟨0, .emptyCharacter⟩
        else Quoted.closeCharacter 1 rest := by
  rw [Quoted.scanCharacter.eq_def]
  dsimp only
  rw [if_neg (by simpa using h)]
  simp only [Bool.or_eq_true, beq_iff_eq]

theorem character_eq (h : At text start ('\x27' :: rest)) :
    character text start =
      .done (tokenAnswer start '\x27' rest
        ((Quoted.scanCharacter rest).map fun n => (.character, n))) := by
  have hat : At text (start + 1) rest := h.tail
  unfold character
  match rest with
  | [] =>
    rw [characterEnd, hat.peek_nil]
    rfl
  | c :: rest =>
    by_cases hbackslash : c = '\\'
    · subst hbackslash
      have hbehind : At text (start + 1 + 1) rest := hat.tail
      rw [characterEnd, (hat.peek_eq_some_iff (by decide)).2 rfl]
      dsimp only
      rw [if_pos (by decide), escape_eq hbehind]
      match rest with
      | [] => rfl
      | e :: rest =>
        rw [List.head?_cons, Option.bind_some, Quoted.scanCharacter, if_pos (by decide)]
        cases hescape : Quoted.escape? e with
        | none => rfl
        | some d =>
          have hplace : start + byteLength ['\x27', '\\', e] = start + 3 := by
            rw [byteLength, byteLength, byteLength, utf8Size_ascii (ascii_escape hescape)]
            rfl
          have hclose := closing_eq (show At text start ('\x27' :: (['\\', e] ++ rest)) from h)
          rw [hplace] at hclose
          exact hclose
    · rw [characterEnd_plain hat hbackslash]
      rw [scanCharacter_plain hbackslash]
      split
      · rfl
      · have hplace : start + byteLength ['\x27', c] = start + 1 + c.utf8Size := by
          rw [Nat.add_assoc]
          rfl
        have hclose := closing_eq (show At text start ('\x27' :: ([c] ++ rest)) from h)
        rw [hplace] at hclose
        rw [Reading.done_ok_bind]
        exact hclose

/-! ## Names and symbols -/

theorem isWordChar_of_isNameStart {c : Char} (h : Token.isNameStart c = true) :
    Numeral.isWordChar c = true := by
  simp only [Token.isNameStart, Numeral.isWordChar, Char.isAlphanum, Bool.or_eq_true] at h ⊢
  exact h.imp_left .inl

theorem nameFrom_eq (h : At text i rest) :
    nameFrom text start i =
      .done (if rest.head?.any Token.isNameStart then
          .ok (.name (String.ofList (rest.takeWhile Numeral.isWordChar)),
            i + byteLength (rest.takeWhile Numeral.isWordChar))
        else .error ⟨start, .unexpectedCharacter (rest.head?.getD '@')⟩) := by
  unfold nameFrom
  dsimp only
  rw [h.any_peek ascii_isNameStart, runEnd_eq ascii_isWordChar h]
  split
  · next hstart =>
    have hpos : i + byteLength (rest.takeWhile Numeral.isWordChar) ≠ i := by
      obtain ⟨c, hhead, hc⟩ := (Option.any_eq_true _ _).1 hstart
      obtain ⟨behind, rfl⟩ := List.head?_eq_some_iff.1 hhead
      have hword : Numeral.isWordChar c = true := isWordChar_of_isNameStart hc
      have hsize := c.utf8Size_pos
      rw [List.takeWhile_cons, if_pos hword, byteLength]
      omega
    rw [if_neg hpos, h.slice?_isPrefix (List.takeWhile_prefix _)]
    rfl
  · rw [if_pos rfl, h.slice?_rest, Reading.lift_bind, String.toList_ofList]
    rfl

theorem take_length_takeWhile (p : Char → Bool) (cs : List Char) :
    cs.take (cs.takeWhile p).length = cs.takeWhile p :=
  (List.prefix_iff_eq_take.1 (List.takeWhile_prefix p)).symm

theorem name_eq {c : Char} (h : At text start (c :: rest)) :
    name text start = .done (tokenAnswer start c rest (Token.atStart (Token.scanName c rest))) := by
  unfold name Token.scanName
  by_cases hat : c = '@'
  · subst hat
    have hbehind : At text (start + 1) rest := h.tail
    have hstart : ¬ Token.isNameStart '@' = true := by decide
    rw [if_pos ((h.peek_eq_some_iff (by decide)).2 rfl), nameFrom_eq hbehind, if_neg hstart,
      if_pos (beq_self_eq_true '@')]
    match rest with
    | [] => rfl
    | d :: rest =>
      dsimp only
      by_cases hd : Token.isNameStart d = true
      · have hany : (d :: rest).head?.any Token.isNameStart = true := hd
        rw [if_pos hany, if_pos hd, List.takeWhile_cons, if_pos (isWordChar_of_isNameStart hd)]
        simp only [tokenAnswer, Token.atStart, Token.mapError_ok, List.take_succ_cons,
          take_length_takeWhile, byteLength, Nat.add_assoc]
        rfl
      · have hany : ¬ (d :: rest).head?.any Token.isNameStart = true := hd
        rw [if_neg hany, if_neg hd]
        rfl
  · have hpeek : ¬ peek text start = some '@' :=
      mt (h.peek_eq_some_iff (by decide)).1 (by simpa using hat)
    rw [if_neg hpeek, nameFrom_eq h]
    by_cases hc : Token.isNameStart c = true
    · have hany : (c :: rest).head?.any Token.isNameStart = true := hc
      rw [if_pos hany, if_pos hc, List.takeWhile_cons, if_pos (isWordChar_of_isNameStart hc)]
      simp only [tokenAnswer, Token.atStart, Token.mapError_ok, take_length_takeWhile]
    · have hany : ¬ (c :: rest).head?.any Token.isNameStart = true := hc
      rw [if_neg hany, if_neg hc, if_neg (by simpa using hat)]
      rfl

theorem pair_eq {c : Char} (hc : c.toNat < 128) (h : At text start (c :: rest)) (short : Symbol)
    {longer : List (Char × Symbol)} (hlonger : ∀ entry ∈ longer, entry.1.toNat < 128) :
    .ok (pair text start short longer) =
      tokenAnswer start c rest (.ok (Token.pair rest short longer)) := by
  have hsize := utf8Size_ascii hc
  have hbehind : At text (start + 1) rest := h.tail_ascii hc
  have hascii : ∀ {d : Char} {long : Symbol}, longer.lookup d = some long → d.toNat < 128 := by
    intro d long hlong
    obtain ⟨front, behind, rfl, -⟩ := List.lookup_eq_some_iff.1 hlong
    exact hlonger (d, long) (by simp)
  have hnone : ∀ d : Char, 128 ≤ d.toNat → longer.lookup d = none := by
    intro d hd
    cases hlong : longer.lookup d with
    | none => rfl
    | some long => exact absurd (hascii hlong) (Nat.not_lt_of_le hd)
  unfold pair Token.pair
  rw [hbehind.peek_bind hnone]
  cases hlong : rest.head?.bind (longer.lookup ·) with
  | none =>
    simp only [tokenAnswer, List.take_zero, byteLength, hsize]
  | some long =>
    obtain ⟨d, hhead, hd⟩ := Option.bind_eq_some_iff.1 hlong
    obtain ⟨behind, rfl⟩ := List.head?_eq_some_iff.1 hhead
    simp only [tokenAnswer, List.take_succ_cons, List.take_zero, byteLength, hsize,
      utf8Size_ascii (hascii hd)]

/-! ## Tokens -/

theorem length_pos_of_scan {value : Decimal} {length : Nat}
    (h : Numeral.scan rest = .ok (value, length)) : 0 < length := by
  unfold Numeral.scan at h
  split at h
  · exact Nat.lt_of_le_of_lt (Nat.zero_le _) (Numeral.lt_length_of_scanHex h)
  · exact Nat.lt_of_le_of_lt (Nat.zero_le _) (Numeral.lt_length_of_scanHex h)
  · obtain ⟨hliteral, hread⟩ := Numeral.scanDecimal_eq_ok_iff.1 h
    refine Nat.lt_of_lt_of_le ?_ (Numeral.length_le_of_literalLength hliteral)
    refine List.length_pos_iff.2 fun hnil => ?_
    rw [hnil] at hread
    cases hread

theorem number_token {c : Char} (h : At text start (c :: rest)) :
    number text start = .done (tokenAnswer start c rest (Token.scanNumber c rest)) := by
  rw [number_eq h, Token.scanNumber]
  cases hscan : Numeral.scan (c :: rest) with
  | error cause => rfl
  | ok found =>
    obtain ⟨value, length⟩ := found
    obtain ⟨n, rfl⟩ := Nat.exists_eq_add_one.2 (length_pos_of_scan hscan)
    rfl

theorem string_token (h : At text start ('"' :: rest)) :
    string text start (start + 1) (start + 1) "" =
      .done (tokenAnswer start '"' rest (Token.scan '"' rest)) := by
  have hbehind : At text (start + 1) rest := h.tail
  rw [string_eq rest [] "" hbehind.nothing_passed (Eq.refl (start + 1))]
  show _ = Reading.done (tokenAnswer start '"' rest ((Quoted.scanString 1 rest).map
    fun (text, n) => (.string (String.ofList text), n)))
  cases Quoted.scanString 1 rest with
  | error fault => rfl
  | ok found =>
    simp only [quoted, tokenAnswer, Except.map, String.ofList_nil, String.append_empty,
      String.empty_append, byteLength, Nat.add_assoc]
    rfl

theorem verbatim_token (h : At text start ('@' :: '"' :: rest)) :
    verbatim text start (start + 2) (start + 2) "" =
      .done (tokenAnswer start '@' ('"' :: rest) (Token.scan '@' ('"' :: rest))) := by
  have hbehind : At text (start + 2) rest := h.tail.tail
  rw [verbatim_eq rest [] "" hbehind.nothing_passed, Token.scan_at_quote, verbatimResult]
  cases Quoted.scanVerbatim rest with
  | none => rfl
  | some found =>
    simp only [quoted, tokenAnswer, Option.elim, String.ofList_nil, String.append_empty,
      String.empty_append, List.take_succ_cons, byteLength, ← Nat.add_assoc]
    rfl

theorem token_plain {c : Char} (hsingle : Token.single? c = none) (hmark : c ∉ Token.marks) :
    token text start c = if c.isDigit then number text start else name text start := by
  unfold token
  rw [hsingle]
  dsimp only
  split <;> first | rfl | exact absurd (by decide) hmark

theorem ascii_single {c : Char} {symbol : Symbol} (h : Token.single? c = some symbol) :
    c.toNat < 128 := by
  unfold Token.single? at h
  split at h <;> first | decide | cases h

theorem ascii_mark {c : Char} (h : c ∈ Token.marks) : c.toNat < 128 := by
  have hall : Token.marks.all (·.toNat < 128) = true := by decide
  exact of_decide_eq_true (List.all_eq_true.1 hall c h)

/-- A token that does not start with a mark of its own is a number or a name,
    also by its first byte. -/
theorem token_plain_eq {c byte : Char} (h : At text start (c :: rest))
    (hbyte : byte = c ∨ 128 ≤ byte.toNat ∧ 128 ≤ c.toNat) (hsingle : Token.single? c = none)
    (hmark : c ∉ Token.marks) :
    token text start byte = .done (tokenAnswer start c rest (Token.scan c rest)) := by
  rw [Token.scan_plain hsingle hmark]
  rcases hbyte with rfl | ⟨hbyte, hc⟩
  · rw [token_plain hsingle hmark]
    split
    · exact number_token h
    · exact name_eq h
  · have hdigit : ∀ d : Char, 128 ≤ d.toNat → ¬ d.isDigit = true :=
      fun d hd htrue => Nat.not_lt_of_le hd (ascii_isDigit d htrue)
    have hsingle' : Token.single? byte = none := by
      cases hsome : Token.single? byte with
      | none => rfl
      | some symbol => exact absurd (ascii_single hsome) (Nat.not_lt_of_le hbyte)
    rw [token_plain hsingle' fun hmem => Nat.not_lt_of_le hbyte (ascii_mark hmem),
      if_neg (hdigit byte hbyte), if_neg (hdigit c hc)]
    exact name_eq h

theorem token_single {c : Char} {symbol : Symbol} (hsingle : Token.single? c = some symbol) :
    token text start c = .done (.ok (.symbol symbol, start + 1)) := by
  unfold token
  rw [hsingle]
  rfl

theorem token_equal_eq (h : At text start ('=' :: rest)) :
    token text start '=' = .done (tokenAnswer start '=' rest (Token.scan '=' rest)) := by
  have hbehind : At text (start + 1) rest := h.tail
  have hsecond : peek text (start + 1) = some '=' ↔ rest.head? = some '=' :=
    hbehind.peek_eq_some_iff (by decide)
  rw [Token.scan_equal]
  show (if peek text (start + 1) = some '=' then return (.symbol .equal, start + 2)
    else throw ⟨start, .assignment⟩ : Reading (Kind × Nat)) = _
  by_cases hhead : rest.head? = some '='
  · obtain ⟨behind, rfl⟩ := List.head?_eq_some_iff.1 hhead
    rw [if_pos (hsecond.2 hhead), if_pos hhead]
    rfl
  · rw [if_neg (mt hsecond.1 hhead), if_neg hhead]
    rfl

theorem token_dot_eq (h : At text start ('.' :: rest)) :
    token text start '.' = .done (tokenAnswer start '.' rest (Token.scan '.' rest)) := by
  have hbehind : At text (start + 1) rest := h.tail
  rw [Token.scan_dot]
  show (if (peek text (start + 1)).any Char.isDigit then number text start
    else return (.symbol .dot, start + 1) : Reading (Kind × Nat)) = _
  rw [hbehind.any_peek ascii_isDigit]
  split
  · exact number_token h
  · rfl

theorem token_at_eq (h : At text start ('@' :: rest)) :
    token text start '@' = .done (tokenAnswer start '@' rest (Token.scan '@' rest)) := by
  have hbehind : At text (start + 1) rest := h.tail
  have hsecond : peek text (start + 1) = some '"' ↔ rest.head? = some '"' :=
    hbehind.peek_eq_some_iff (by decide)
  show (if peek text (start + 1) = some '"' then verbatim text start (start + 2) (start + 2) ""
    else name text start : Reading (Kind × Nat)) = _
  by_cases hhead : rest.head? = some '"'
  · obtain ⟨behind, rfl⟩ := List.head?_eq_some_iff.1 hhead
    rw [if_pos (hsecond.2 hhead)]
    exact verbatim_token h
  · rw [if_neg (mt hsecond.1 hhead), Token.scan_at_name hhead]
    exact name_eq h

/-- **A token by its bytes is the one by its characters.** -/
theorem token_eq {c byte : Char} (h : At text start (c :: rest))
    (hpeek : peek text start = some byte) :
    token text start byte = .done (tokenAnswer start c rest (Token.scan c rest)) := by
  have hbyte : byte = c ∨ 128 ≤ byte.toNat ∧ 128 ≤ c.toNat := by
    obtain ⟨found, hfound, hcase⟩ := h.exists_peek c.utf8Size_pos
    obtain rfl : byte = found := Option.some.inj (hpeek.symm.trans hfound)
    exact hcase
  have hsame : c.toNat < 128 → byte = c :=
    fun hascii => hbyte.resolve_right fun hboth => Nat.not_lt_of_le hboth.2 hascii
  cases hsingle : Token.single? c with
  | some symbol =>
    have hascii := ascii_single hsingle
    rw [hsame hascii, Token.scan_single hsingle, tokenAnswer, List.take_zero, byteLength,
      utf8Size_ascii hascii, token_single hsingle]
    rfl
  | none =>
    by_cases hmark : c ∈ Token.marks
    · have hascii := ascii_mark hmark
      rw [hsame hascii]
      simp only [Token.marks, List.mem_cons, List.not_mem_nil, or_false] at hmark
      rcases hmark with rfl | rfl | rfl | rfl | rfl | rfl | rfl | rfl | rfl | rfl | rfl
      · exact token_equal_eq h
      · exact congrArg Reading.done (pair_eq hascii h .bang (by decide))
      · exact congrArg Reading.done (pair_eq hascii h .ampersand (by decide))
      · exact congrArg Reading.done (pair_eq hascii h .bar (by decide))
      · exact congrArg Reading.done (pair_eq hascii h .question (by decide))
      · exact congrArg Reading.done (pair_eq hascii h .less (by decide))
      · exact congrArg Reading.done (pair_eq hascii h .greater (by decide))
      · exact token_dot_eq h
      · exact string_token h
      · exact character_eq h
      · exact token_at_eq h
    · exact token_plain_eq h hbyte hsingle hmark

/-! ## All tokens -/

/-- Tokens with the end of the text behind them. -/
def lexemesOf (text : String) (tokens : List Token) : List Lexeme :=
  tokens.map (fun token => ⟨some token.kind, token.position⟩) ++ [⟨none, text.utf8ByteSize⟩]

theorem lexemesFrom_none (h : peek text (runEnd text isBlank i) = none) :
    lexemesFrom text i = .done (.ok [⟨none, runEnd text isBlank i⟩]) := by
  rw [lexemesFrom]
  split
  · rfl
  · next hsome => rw [h] at hsome; cases hsome

theorem lexemesFrom_some {c : Char} (h : peek text (runEnd text isBlank i) = some c) :
    lexemesFrom text i = (do
      let (kind, next) ← token text (runEnd text isBlank i) c
      if runEnd text isBlank i < next then
        let others ← lexemesFrom text next
        return ⟨some kind, runEnd text isBlank i⟩ :: others
      else
        ExceptT.lift none) := by
  rw [lexemesFrom]
  split
  · next hnone => rw [h] at hnone; cases hnone
  · next d hsome =>
    obtain rfl : c = d := Option.some.inj (h.symm.trans hsome)
    rfl

/-- What is left of a text has the same tokens by its bytes as by its characters. -/
theorem lexemesFrom_eq (rest : List Char) {i : Nat} (h : At text i rest) :
    lexemesFrom text i = .done ((Token.lex i rest).map (lexemesOf text)) := by
  have hstart : runEnd text isBlank i = i + byteLength (rest.takeWhile isBlank) :=
    runEnd_eq ascii_isBlank h
  have hlex : Token.lex i rest =
      Token.lex (i + byteLength (rest.takeWhile isBlank)) (rest.dropWhile isBlank) := by
    rw [← Token.lex_blanks (fun c hc => List.mem_takeWhile_imp hc), List.takeWhile_append_dropWhile]
  rw [← List.takeWhile_append_dropWhile (p := isBlank) (l := rest)] at h
  have hat := h.behind
  rw [hlex]
  rw [← hstart] at hat ⊢
  match hrest : rest.dropWhile isBlank with
  | [] =>
    rw [hrest] at hat
    have hend : runEnd text isBlank i = text.utf8ByteSize := hat.add_byteLength
    rw [lexemesFrom_none hat.peek_nil, Token.lex_nil, hend]
    rfl
  | c :: behind =>
    rw [hrest] at hat
    have hblank : isBlank c = false := by
      have hhead := List.head?_dropWhile_not isBlank rest
      rwa [hrest] at hhead
    obtain ⟨byte, hpeek, -⟩ := hat.exists_peek c.utf8Size_pos
    rw [lexemesFrom_some hpeek, token_eq hat hpeek, Token.lex, if_neg (by simp [hblank])]
    cases hscan : Token.scan c behind with
    | error fault => rfl
    | ok found =>
      obtain ⟨kind, n⟩ := found
      have hpass : runEnd text isBlank i <
          runEnd text isBlank i + byteLength (c :: behind.take n) := by
        have hsize := c.utf8Size_pos
        rw [byteLength]
        omega
      have hnext :
          At text (runEnd text isBlank i + byteLength (c :: behind.take n)) (behind.drop n) := by
        rw [← List.take_append_drop n behind] at hat
        exact At.behind (show At text _ ((c :: behind.take n) ++ behind.drop n) from hat)
      rw [tokenAnswer, Reading.done_ok_bind]
      dsimp only
      rw [if_pos hpass, lexemesFrom_eq (behind.drop n) hnext]
      cases Token.lex (runEnd text isBlank i + byteLength (c :: behind.take n))
        (behind.drop n) <;> rfl
  termination_by rest.length
  decreasing_by
    have hlength : (rest.dropWhile isBlank).length ≤ rest.length :=
      (List.dropWhile_sublist isBlank).length_le
    rw [hrest, List.length_cons] at hlength
    rw [List.length_drop]
    omega

/-- **A text has the same tokens by its bytes as by its characters.** -/
theorem lexemes_eq (text : String) :
    lexemes text = some ((Token.tokenize text).map (lexemesOf text)) :=
  lexemesFrom_eq text.toList (at_zero text)

end Formula.Bytes
