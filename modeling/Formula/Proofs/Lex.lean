import Formula.Proofs.Scan

set_option autoImplicit false

/-! # The tokens of parts of a text

The tokens of a text do not depend on where the text starts, and wherever a separator stands, the
text can be cut: the tokens in front of the separator are those of the front alone. -/

namespace Formula.Token

/-! ## One token after the other -/

@[simp]
theorem byteLength_append (front behind : List Char) :
    byteLength (front ++ behind) = byteLength front + byteLength behind := by
  induction front with
  | nil => simp [byteLength]
  | cons c front ih => simp [byteLength, ih, Nat.add_assoc]

theorem utf8ByteSize_ofList (cs : List Char) : (String.ofList cs).utf8ByteSize = byteLength cs := by
  induction cs with
  | nil => rfl
  | cons c cs ih =>
    rw [← List.singleton_append, String.ofList_append, String.utf8ByteSize_append, ih,
      byteLength_append]
    congr 1
    exact String.utf8ByteSize_singleton

theorem byteLength_toList (text : String) : byteLength text.toList = text.utf8ByteSize := by
  rw [← utf8ByteSize_ofList, String.ofList_toList]

/-- A text that is cut at one of its characters. -/
theorem eq_ofList_append {text : String} {front behind : List Char}
    (h : text.toList = front ++ behind) :
    text = String.ofList front ++ String.ofList behind := by
  rw [← String.ofList_append, ← h, String.ofList_toList]

@[simp]
theorem lex_nil (position : Nat) : lex position [] = .ok [] := by
  rw [lex]

theorem lex_blank {c : Char} (h : isBlank c = true) (position : Nat) (rest : List Char) :
    lex position (c :: rest) = lex (position + c.utf8Size) rest := by
  rw [lex, if_pos h]

theorem lex_blanks {blanks : List Char} (h : ∀ c ∈ blanks, isBlank c = true) (position : Nat)
    (rest : List Char) :
    lex position (blanks ++ rest) = lex (position + byteLength blanks) rest := by
  induction blanks generalizing position with
  | nil => rfl
  | cons c blanks ih =>
    rw [List.cons_append, lex_blank (h c List.mem_cons_self),
      ih (fun d hd => h d (List.mem_cons_of_mem c hd)), byteLength, Nat.add_assoc]

/-- The first token and those behind it. -/
theorem lex_cons_eq_ok_iff {c : Char} {rest : List Char} {position : Nat} {tokens : List Token}
    (h : isBlank c = false) :
    lex position (c :: rest) = .ok tokens ↔
      ∃ kind n others, scan c rest = .ok (kind, n) ∧
        lex (position + byteLength (c :: rest.take n)) (rest.drop n) = .ok others ∧
        tokens = ⟨kind, position⟩ :: others := by
  rw [lex, if_neg (by simp [h])]
  cases scan c rest with
  | error fault => simp
  | ok found =>
    obtain ⟨kind, n⟩ := found
    dsimp only
    cases hothers : lex (position + byteLength (c :: rest.take n)) (rest.drop n) with
    | error e =>
      simp only [reduceCtorEq, false_iff, not_exists, not_and]
      rintro _ _ others hfound
      obtain ⟨rfl, rfl⟩ := Prod.mk.inj (Except.ok.inj hfound)
      simp [hothers]
    | ok others =>
      simp only [Except.ok.injEq, Prod.mk.injEq]
      constructor
      · rintro rfl
        exact ⟨kind, n, others, ⟨rfl, rfl⟩, hothers, rfl⟩
      · rintro ⟨_, _, others', ⟨rfl, rfl⟩, hothers', rfl⟩
        rw [hothers, Except.ok.injEq] at hothers'
        rw [hothers']

/-- Every token stands behind the place where the text starts. -/
theorem le_position_of_lex {position : Nat} (text : List Char) {tokens : List Token}
    (h : lex position text = .ok tokens) : ∀ token ∈ tokens, position ≤ token.position := by
  match text with
  | [] =>
    obtain rfl : tokens = [] := by simpa using h.symm
    simp
  | c :: rest =>
    by_cases hblank : isBlank c = true
    · rw [lex_blank hblank] at h
      intro token htoken
      have := le_position_of_lex rest h token htoken
      omega
    · obtain ⟨kind, n, others, -, hothers, rfl⟩ :=
        (lex_cons_eq_ok_iff (Bool.not_eq_true _ ▸ hblank)).1 h
      intro token htoken
      rcases List.mem_cons.1 htoken with rfl | htoken
      · exact Nat.le_refl _
      · have := le_position_of_lex (rest.drop n) hothers token htoken
        omega
  termination_by text.length
  decreasing_by all_goals grind

/-- A text whose first token stands at its start does not start with a blank. -/
theorem exists_first {position : Nat} {text : List Char} {kind : Kind} {others : List Token}
    (h : lex position text = .ok (⟨kind, position⟩ :: others)) :
    ∃ c rest, text = c :: rest ∧ isBlank c = false := by
  match text with
  | [] =>
    rw [lex_nil] at h
    cases h
  | c :: rest =>
    refine ⟨c, rest, rfl, Bool.eq_false_iff.2 fun hblank => ?_⟩
    rw [lex_blank hblank] at h
    have hstart := le_position_of_lex rest h ⟨kind, position⟩ List.mem_cons_self
    have hsize := c.utf8Size_pos
    dsimp only at hstart
    omega

/-- No two tokens start with the same character. -/
theorem length_le_of_lex {position : Nat} (text : List Char) {tokens : List Token}
    (h : lex position text = .ok tokens) : tokens.length ≤ text.length := by
  match text with
  | [] =>
    obtain rfl : tokens = [] := by simpa using h.symm
    simp
  | c :: rest =>
    by_cases hblank : isBlank c = true
    · rw [lex_blank hblank] at h
      exact Nat.le_succ_of_le (length_le_of_lex rest h)
    · obtain ⟨kind, n, others, -, hothers, rfl⟩ :=
        (lex_cons_eq_ok_iff (Bool.not_eq_true _ ▸ hblank)).1 h
      have hlength := length_le_of_lex (rest.drop n) hothers
      rw [List.length_drop] at hlength
      simp only [List.length_cons]
      omega
  termination_by text.length
  decreasing_by all_goals grind

/-- Every token starts behind the ones before it. -/
theorem pairwise_position_of_lex {position : Nat} (text : List Char) {tokens : List Token}
    (h : lex position text = .ok tokens) :
    tokens.Pairwise fun first second => first.position < second.position := by
  match text with
  | [] =>
    obtain rfl : tokens = [] := by simpa using h.symm
    exact List.Pairwise.nil
  | c :: rest =>
    by_cases hblank : isBlank c = true
    · rw [lex_blank hblank] at h
      exact pairwise_position_of_lex rest h
    · obtain ⟨kind, n, others, -, hothers, rfl⟩ :=
        (lex_cons_eq_ok_iff (Bool.not_eq_true _ ▸ hblank)).1 h
      refine List.Pairwise.cons ?_ (pairwise_position_of_lex (rest.drop n) hothers)
      intro token htoken
      have hstart := le_position_of_lex _ hothers token htoken
      have hsize := c.utf8Size_pos
      simp only [byteLength] at hstart
      show position < token.position
      omega
  termination_by text.length
  decreasing_by all_goals grind

/-! ## Shifting a text -/

/-- The same token of a text that starts `width` bytes later. -/
def shift (width : Nat) (token : Token) : Token := { token with position := token.position + width }

/-- The tokens of a text move with it, and so does an error. -/
theorem lex_shift (position width : Nat) (text : List Char) :
    lex (position + width) text =
      ((lex position text).map (List.map (shift width))).mapError
        fun e => ⟨e.position + width, e.cause⟩ := by
  match text with
  | [] =>
    rw [lex_nil, lex_nil]
    rfl
  | c :: rest =>
    by_cases hblank : isBlank c = true
    · rw [lex_blank hblank, lex_blank hblank, Nat.add_right_comm]
      exact lex_shift (position + c.utf8Size) width rest
    · rw [lex, if_neg hblank, lex, if_neg hblank]
      cases scan c rest with
      | error fault => simp [Except.map, mapError_error, Nat.add_right_comm]
      | ok found =>
        obtain ⟨kind, n⟩ := found
        dsimp only
        rw [Nat.add_right_comm, lex_shift _ width (rest.drop n)]
        cases lex (position + byteLength (c :: rest.take n)) (rest.drop n) <;> rfl
  termination_by text.length
  decreasing_by all_goals grind

theorem lex_shift_eq_ok_iff {position width : Nat} {text : List Char} {tokens : List Token} :
    lex (position + width) text = .ok tokens ↔
      ∃ unmoved, lex position text = .ok unmoved ∧ tokens = unmoved.map (shift width) := by
  rw [lex_shift]
  cases lex position text with
  | error e => simp [Except.map, mapError_error]
  | ok unmoved => simp [Except.map, mapError_ok, eq_comm]

/-! ## Cutting a text -/

/-- What is taken from a text is no longer in bytes than its front exactly if it is part of the
    front, provided that something stands behind the front. -/
theorem le_length_of_byteLength_take_le {front behind : List Char} {n : Nat} (hbehind : behind ≠ [])
    (h : byteLength ((front ++ behind).take n) ≤ byteLength front) : n ≤ front.length := by
  refine Nat.le_of_not_lt fun hlong => ?_
  obtain ⟨c, rest, rfl⟩ := List.exists_cons_of_ne_nil hbehind
  obtain ⟨k, rfl⟩ : ∃ k, n = front.length + (k + 1) := ⟨n - front.length - 1, by omega⟩
  rw [List.take_length_add_append, byteLength_append, List.take_succ_cons, byteLength] at h
  have := c.utf8Size_pos
  omega

/-- A token that starts at a place of the text cuts the tokens there: those behind the
    place are the tokens of what stands there, and those in front of it stay when a
    separator stands there instead. -/
theorem lex_cut {position : Nat} (front : List Char) {behind : List Char}
    {before after : List Token} {token : Token}
    (h : lex position (front ++ behind) = .ok (before ++ token :: after))
    (hposition : token.position = position + byteLength front) :
    lex token.position behind = .ok (token :: after) ∧
      ∀ {other : List Char} {others : List Token}, Separated other →
        lex token.position other = .ok others →
          lex position (front ++ other) = .ok (before ++ others) := by
  match front with
  | [] =>
    rw [byteLength, Nat.add_zero] at hposition
    rw [List.nil_append] at h
    obtain rfl : before = [] := by
      match before with
      | [] => rfl
      | first :: before =>
        have hfirst := le_position_of_lex _ h first (by simp)
        have hbehind := List.rel_of_pairwise_cons (pairwise_position_of_lex _ h)
          (show token ∈ before ++ token :: after by simp)
        omega
    rw [hposition]
    exact ⟨h, fun _ hothers => hothers⟩
  | c :: front =>
    rw [List.cons_append] at h
    by_cases hblank : isBlank c = true
    · rw [lex_blank hblank] at h
      rw [byteLength, ← Nat.add_assoc] at hposition
      obtain ⟨hbehind, hfront⟩ := lex_cut front h hposition
      refine ⟨hbehind, fun hother hothers => ?_⟩
      rw [List.cons_append, lex_blank hblank]
      exact hfront hother hothers
    · have hblank := Bool.not_eq_true _ ▸ hblank
      obtain ⟨kind, n, others, hscan, hothers, htokens⟩ := (lex_cons_eq_ok_iff hblank).1 h
      match before with
      | [] =>
        obtain ⟨rfl, rfl⟩ := List.cons.inj htokens
        have := c.utf8Size_pos
        simp only [byteLength] at hposition
        omega
      | first :: before =>
        obtain ⟨rfl, rfl⟩ := List.cons.inj htokens
        -- the token in front ends before the place, so a separator there does not change it
        have hstart := le_position_of_lex _ hothers token (by simp)
        have hn : n ≤ front.length := by
          by_cases hbehind : behind = []
          · subst hbehind
            simpa using length_le_of_scan hscan
          · refine le_length_of_byteLength_take_le hbehind ?_
            simp only [byteLength] at hstart hposition
            omega
        rw [List.drop_append_of_le_length hn] at hothers
        have hshift : position + byteLength (c :: (front ++ behind).take n) +
            byteLength (front.drop n) = position + byteLength (c :: front) := by
          rw [List.take_append_of_le_length hn]
          simp only [byteLength, Nat.add_assoc]
          rw [← byteLength_append, List.take_append_drop]
        obtain ⟨hafter, hfront⟩ := lex_cut (front.drop n) hothers (by rw [hposition, hshift])
        refine ⟨hafter, fun {other} {others} hother hrest => ?_⟩
        refine (lex_cons_eq_ok_iff hblank).2 ⟨kind, n, before ++ others,
          scan_append_congr hscan hn hother, ?_, rfl⟩
        show lex (position + byteLength (c :: (front ++ other).take n))
            ((front ++ other).drop n) = _
        rw [List.drop_append_of_le_length hn, List.take_append_of_le_length hn]
        rw [List.take_append_of_le_length hn] at hfront
        exact hfront hother hrest
  termination_by front.length

/-- Every token starts with a character of the text. -/
theorem exists_cut {position : Nat} (text : List Char) {before after : List Token} {token : Token}
    (h : lex position text = .ok (before ++ token :: after)) :
    ∃ front c rest n, text = front ++ c :: rest ∧ token.position = position + byteLength front ∧
      scan c rest = .ok (token.kind, n) := by
  match text with
  | [] =>
    rw [lex_nil] at h
    exact absurd (Except.ok.inj h) (by simp)
  | c :: rest =>
    by_cases hblank : isBlank c = true
    · rw [lex_blank hblank] at h
      obtain ⟨front, d, behind, n, rfl, hposition, hscan⟩ := exists_cut rest h
      exact ⟨c :: front, d, behind, n, rfl, by rw [hposition, byteLength, Nat.add_assoc], hscan⟩
    · obtain ⟨kind, n, others, hscan, hothers, htokens⟩ :=
        (lex_cons_eq_ok_iff (Bool.not_eq_true _ ▸ hblank)).1 h
      match before with
      | [] =>
        obtain ⟨rfl, rfl⟩ := List.cons.inj htokens
        exact ⟨[], c, rest, n, rfl, rfl, hscan⟩
      | first :: before =>
        obtain ⟨rfl, rfl⟩ := List.cons.inj htokens
        obtain ⟨front, d, behind, m, hdrop, hposition, hfound⟩ := exists_cut (rest.drop n) hothers
        refine ⟨c :: (rest.take n ++ front), d, behind, m, ?_, ?_, hfound⟩
        · rw [List.cons_append, List.append_assoc, ← hdrop, List.take_append_drop]
        · rw [hposition]
          simp only [byteLength, byteLength_append, Nat.add_assoc]
  termination_by text.length
  decreasing_by all_goals grind

/-- Every token starts in front of the end of the text. -/
theorem position_lt_of_lex {position : Nat} {text : List Char} {tokens : List Token}
    (h : lex position text = .ok tokens) :
    ∀ token ∈ tokens, token.position < position + byteLength text := by
  intro token htoken
  obtain ⟨before, after, rfl⟩ := List.append_of_mem htoken
  obtain ⟨front, c, rest, -, rfl, hposition, -⟩ := exists_cut text h
  rw [hposition, byteLength_append, byteLength]
  have := c.utf8Size_pos
  omega

/-- The tokens of two texts with a separator between them. -/
theorem lex_append {position : Nat} (front : List Char) {other : List Char}
    {tokens others : List Token} (h : lex position front = .ok tokens) (hother : Separated other)
    (hothers : lex (position + byteLength front) other = .ok others) :
    lex position (front ++ other) = .ok (tokens ++ others) := by
  match front with
  | [] =>
    obtain rfl : tokens = [] := by simpa using h.symm
    simpa [byteLength] using hothers
  | c :: front =>
    by_cases hblank : isBlank c = true
    · rw [lex_blank hblank] at h
      rw [byteLength, ← Nat.add_assoc] at hothers
      rw [List.cons_append, lex_blank hblank]
      exact lex_append front h hother hothers
    · have hblank := Bool.not_eq_true _ ▸ hblank
      obtain ⟨kind, n, behind, hscan, hbehind, rfl⟩ := (lex_cons_eq_ok_iff hblank).1 h
      have hn := length_le_of_scan hscan
      have hscan' : scan c (front ++ other) = .ok (kind, n) := by
        rw [← List.append_nil front] at hscan
        exact scan_append_congr hscan hn hother
      refine (lex_cons_eq_ok_iff hblank).2 ⟨kind, n, behind ++ others, hscan', ?_, rfl⟩
      show lex (position + byteLength (c :: (front ++ other).take n)) ((front ++ other).drop n) = _
      rw [List.drop_append_of_le_length hn, List.take_append_of_le_length hn]
      refine lex_append (front.drop n) hbehind hother ?_
      rw [← List.take_append_drop n front] at hothers
      simp only [byteLength, byteLength_append] at hothers ⊢
      simpa only [Nat.add_assoc] using hothers
  termination_by front.length

/-- Between two of its tokens, or behind the last one, a text can be cut: what stands
    behind the cut has the tokens that are left, and in front of any separator the
    tokens before stay as they are. -/
theorem exists_split {position : Nat} {text : List Char} {before left : List Token}
    (h : lex position text = .ok (before ++ left)) :
    ∃ front behind, text = front ++ behind ∧
      position + byteLength front =
        (left.head?.map Token.position).getD (position + byteLength text) ∧
      lex (position + byteLength front) behind = .ok left ∧
      ∀ other others, Separated other → lex (position + byteLength front) other = .ok others →
        lex position (front ++ other) = .ok (before ++ others) := by
  match left with
  | [] =>
    rw [List.append_nil] at h
    exact ⟨text, [], (List.append_nil text).symm, rfl, lex_nil _, fun _ _ => lex_append text h⟩
  | token :: after =>
    obtain ⟨front, c, rest, _, rfl, hposition, -⟩ := exists_cut text h
    obtain ⟨hbehind, hfront⟩ := lex_cut front h hposition
    rw [hposition] at hbehind hfront
    exact ⟨front, c :: rest, rfl, hposition.symm, hbehind, fun _ _ => hfront⟩

/-! ## The kinds of the tokens -/

/-- What the tokens of a text say, wherever they stand. -/
def Lexes (text : List Char) (kinds : List Kind) : Prop :=
  ∃ tokens, lex 0 text = .ok tokens ∧ tokens.map Token.kind = kinds

theorem lexes_iff (position : Nat) {text : List Char} {kinds : List Kind} :
    Lexes text kinds ↔
      ∃ tokens, lex position text = .ok tokens ∧ tokens.map Token.kind = kinds := by
  have hkind : ∀ tokens : List Token,
      (tokens.map (shift position)).map Token.kind = tokens.map Token.kind := by
    intro tokens
    rw [List.map_map]
    rfl
  constructor
  · rintro ⟨tokens, htokens, rfl⟩
    refine ⟨tokens.map (shift position), ?_, hkind tokens⟩
    rw [← Nat.zero_add position]
    exact lex_shift_eq_ok_iff.2 ⟨tokens, htokens, by rw [Nat.zero_add]⟩
  · rintro ⟨moved, hmoved, rfl⟩
    rw [← Nat.zero_add position] at hmoved
    obtain ⟨tokens, htokens, rfl⟩ := lex_shift_eq_ok_iff.1 hmoved
    exact ⟨tokens, htokens, (hkind tokens).symm⟩

theorem lexes_nil : Lexes [] [] := ⟨[], lex_nil 0, rfl⟩

theorem Lexes.blank {c : Char} {rest : List Char} {kinds : List Kind} (hblank : isBlank c = true)
    (h : Lexes rest kinds) : Lexes (c :: rest) kinds := by
  obtain ⟨tokens, htokens, rfl⟩ := (lexes_iff (0 + c.utf8Size)).1 h
  exact ⟨tokens, by rw [lex_blank hblank, htokens], rfl⟩

theorem Lexes.token {c : Char} {rest : List Char} {kind : Kind} {n : Nat} {kinds : List Kind}
    (hblank : isBlank c = false) (hscan : scan c rest = .ok (kind, n))
    (h : Lexes (rest.drop n) kinds) : Lexes (c :: rest) (kind :: kinds) := by
  obtain ⟨others, hothers, rfl⟩ := (lexes_iff (0 + byteLength (c :: rest.take n))).1 h
  exact ⟨⟨kind, 0⟩ :: others, (lex_cons_eq_ok_iff hblank).2 ⟨kind, n, others, hscan, hothers, rfl⟩,
    rfl⟩

theorem Lexes.append {front other : List Char} {kinds others : List Kind} (h : Lexes front kinds)
    (hother : Separated other) (hothers : Lexes other others) :
    Lexes (front ++ other) (kinds ++ others) := by
  obtain ⟨tokens, htokens, rfl⟩ := h
  obtain ⟨more, hmore, rfl⟩ := (lexes_iff (0 + byteLength front)).1 hothers
  exact ⟨tokens ++ more, lex_append front htokens hother hmore, List.map_append⟩

end Formula.Token
