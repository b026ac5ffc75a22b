import Formula.Proofs.Recognition
import Formula.Proofs.Spell
import Formula.Proofs.Splice

set_option autoImplicit false

/-! # Substitution in a text

Where a name is spelled by one token and is a leaf of the tree, the text of any other expression, in
parentheses, can take the place of the token: the new text has a tree, and it is the old one with
the other tree in the place of the leaf. -/

namespace Formula

open Grammar Token

/-! ## The place of a name -/

/-- The text has the name at this byte, with or without an `@` in front. -/
structure Spelling (text name : String) (position : Nat)
    (front spelled behind : String) : Prop where
  text_eq : text = front ++ spelled ++ behind
  position_eq : front.utf8ByteSize = position
  spelled_eq : spelled = name ∨ spelled = "@" ++ name

variable {text name : String} {position : Nat} {before after : List Token}

/-- Every token that is a name is spelled somewhere. -/
theorem exists_spelling
    (htokens : tokenize text = .ok (before ++ ⟨.name name, position⟩ :: after)) :
    ∃ front spelled behind, Spelling text name position front spelled behind := by
  obtain ⟨front, c, rest, n, htext, hposition, hscan⟩ := exists_cut text.toList htokens
  obtain ⟨-, hspelled⟩ := spelling_of_scan hscan
  have hfront : (String.ofList front).utf8ByteSize = position := by
    rw [← byteLength_toList, String.toList_ofList]
    simpa using hposition.symm
  have hmake : ∀ spelled : List Char, c :: rest = spelled ++ rest.drop n →
      text = String.ofList front ++ String.ofList spelled ++ String.ofList (rest.drop n) := by
    intro spelled heq
    rw [← String.toList_inj, htext, heq]
    simp
  rcases hspelled with heq | heq
  · refine ⟨_, _, _, ⟨hmake _ heq, hfront, .inl ?_⟩⟩
    exact String.ofList_toList
  · refine ⟨_, _, _, ⟨hmake ('@' :: name.toList) heq, hfront, .inr ?_⟩⟩
    rw [← String.toList_inj]
    simp

/-- A text with a name in front, in one of its spellings, has the name there in
    the same spelling. -/
theorem eq_of_spelled {spelled : String} {behind rest : List Char}
    (hidentifier : isIdentifier name.toList = true) (hname : spelled = name ∨ spelled = "@" ++ name)
    (h : spelled.toList ++ behind = name.toList ++ rest ∨
      spelled.toList ++ behind = '@' :: (name.toList ++ rest)) : rest = behind := by
  -- the two spellings cannot be mixed up, as no name starts with an `@`
  rcases hname with rfl | rfl <;> rcases h with heq | heq
  · exact (List.append_cancel_left heq).symm
  · exact absurd heq (at_ne_identifier hidentifier _ _)
  · rw [String.toList_append] at heq
    exact absurd heq.symm (at_ne_identifier hidentifier _ _)
  · rw [String.toList_append] at heq
    exact (List.append_cancel_left (List.cons.inj heq).2).symm

theorem Spelling.lex_eq {front spelled behind : String}
    (h : Spelling text name position front spelled behind) :
    tokenize text = lex 0 (front.toList ++ (spelled.toList ++ behind.toList)) := by
  rw [tokenize, h.text_eq]
  simp

theorem Spelling.position_eq_byteLength {front spelled behind : String}
    (h : Spelling text name position front spelled behind) :
    position = 0 + byteLength front.toList := by
  rw [byteLength_toList, h.position_eq, Nat.zero_add]

/-- What stands behind the place of a name has the tokens behind the name. -/
theorem Spelling.lexes_behind {front spelled behind : String}
    (h : Spelling text name position front spelled behind)
    (htokens : tokenize text = .ok (before ++ ⟨.name name, position⟩ :: after)) :
    Lexes behind.toList (after.map Token.kind) := by
  rw [h.lex_eq] at htokens
  obtain ⟨hbehind, -⟩ := lex_cut front.toList htokens h.position_eq_byteLength
  obtain ⟨c, rest, hchars, hblank⟩ := exists_first hbehind
  rw [hchars] at hbehind
  obtain ⟨kind, n, others, hscan, hothers, htoken⟩ := (lex_cons_eq_ok_iff hblank).1 hbehind
  obtain ⟨hkind, rfl⟩ := List.cons.inj htoken
  obtain rfl : Kind.name name = kind := congrArg Token.kind hkind
  obtain ⟨hidentifier, hspelled⟩ := spelling_of_scan hscan
  rw [← hchars] at hspelled
  rw [eq_of_spelled hidentifier h.spelled_eq hspelled] at hothers
  exact (lexes_iff _).2 ⟨after, hothers, rfl⟩

theorem name_not_mem_kinds {tokens : List Token} (h : ∀ token ∈ tokens, token.kind ≠ .name name) :
    Kind.name name ∉ tokens.map Token.kind := by
  intro hmem
  obtain ⟨token, htoken, hkind⟩ := List.mem_map.1 hmem
  exact h token htoken hkind

/-- A separator in the place of a name leaves the tokens in front of it. -/
theorem Spelling.lexes_replaced {front spelled behind : String}
    (h : Spelling text name position front spelled behind)
    (htokens : tokenize text = .ok (before ++ ⟨.name name, position⟩ :: after))
    {other : List Char} {kinds : List Kind} (hother : Separated other)
    (hkinds : Lexes other kinds) :
    Lexes (front.toList ++ other) (before.map Token.kind ++ kinds) := by
  rw [h.lex_eq] at htokens
  obtain ⟨-, hfront⟩ := lex_cut front.toList htokens h.position_eq_byteLength
  obtain ⟨others, hothers, rfl⟩ := (lexes_iff position).1 hkinds
  exact ⟨before ++ others, hfront hother hothers, List.map_append⟩

/-- The tokens of a text in which an expression in parentheses is in the place of a name. -/
theorem Spelling.lexes_parenthesis {front spelled behind e : String} {inner : List Token}
    (h : Spelling text name position front spelled behind)
    (htokens : tokenize text = .ok (before ++ ⟨.name name, position⟩ :: after))
    (hinner : tokenize e = .ok inner) :
    Lexes (front ++ "(" ++ e ++ ")" ++ behind).toList
      (before.map Token.kind ++ .symbol .openParen ::
        (inner.map Token.kind ++ .symbol .closeParen :: after.map Token.kind)) := by
  have he : Lexes e.toList (inner.map Token.kind) := ⟨inner, hinner, rfl⟩
  have hall := h.lexes_replaced htokens (separated_cons.2 rfl)
    (he.parenthesis (h.lexes_behind htokens))
  simpa using hall

/-! ## The tree of the new text -/

/-- **A leaf can be replaced in the text.** If one token spells the name of a leaf, that is the only
    such leaf. With any expression in parentheses in the place of the token, the text has the tree
    with the other tree in the place of the leaf; only a predefined type, which would make a
    conversion of the parentheses, is no such expression. -/
theorem parseWith_replace {text x e : String} {t s : Expr} {before after inner : List Token}
    {position limit limit' : Nat}
    (htokens : tokenize text = .ok (before ++ ⟨.name x, position⟩ :: after))
    (honly : ∀ token ∈ before ++ after, token.kind ≠ .name x)
    (hparse : parseWith ⟨limit⟩ text = .ok t) (hleaf : .parameter x ∈ t.nodes)
    (hinner : tokenize e = .ok inner) (hparse' : parseWith ⟨limit'⟩ e = .ok s)
    (htype : ¬ IsPredefinedArray (inner.map Token.kind)) :
    t.uses x = 1 ∧ (∃ front spelled behind, Spelling text x position front spelled behind) ∧
      ∀ front spelled behind, Spelling text x position front spelled behind →
        ∃ tokens, tokenize (front ++ "(" ++ e ++ ")" ++ behind) = .ok tokens ∧
          ∀ limit, tokens.length ≤ limit →
            parseWith ⟨limit⟩ (front ++ "(" ++ e ++ ")" ++ behind) = .ok (t.substitute x s) := by
  obtain ⟨d, -⟩ := (parseWith_eq_ok_iff_nesting htokens _ t).1 hparse
  obtain ⟨dinner, -⟩ := (parseWith_eq_ok_iff_nesting hinner _ s).1 hparse'
  have hbefore := name_not_mem_kinds fun token htoken => honly token (List.mem_append_left _ htoken)
  have hafter := name_not_mem_kinds fun token htoken => honly token (List.mem_append_right _ htoken)
  rw [List.map_append, List.map_cons] at d
  have hcount :
      (before.map Token.kind ++ Kind.name x :: after.map Token.kind).count (.name x) = 1 := by
    rw [List.count_append, List.count_cons_self, List.count_eq_zero.2 hbefore,
      List.count_eq_zero.2 hafter]
  -- the token is a leaf, so there is neither a leaf without a token nor a token without a leaf
  have hleast := d.uses_add_count_le x
  simp only [Phrase.uses, Phrase.given, List.count_nil, hcount] at hleast
  have hmost : 0 < t.uses x := by
    rw [Expr.nodes_eq_preorder] at hleaf
    exact Expr.uses_pos_of_mem_preorder t hleaf
  have huses : t.uses x = 1 := by omega
  refine ⟨huses, exists_spelling htokens, fun front spelled behind h => ?_⟩
  obtain ⟨tokens, hnew, hkinds⟩ := h.lexes_parenthesis htokens hinner
  refine ⟨tokens, hnew, fun limit hlimit => ?_⟩
  have hbalance : Phrase.uses x (.expression t) + List.count (Kind.name x) [] =
      Phrase.given x (.expression t) +
        (before.map Token.kind ++ Kind.name x :: after.map Token.kind).count (.name x) := by
    simp only [Phrase.uses, Phrase.given, List.count_nil, hcount, huses]
  have hfollows : Follows (.expression t) [] := by
    intro kind hkind
    cases hkind
  obtain ⟨d'⟩ := Derivation.splice dinner htype d hfollows hbalance
  rw [splice_append, splice_of_not_mem hbefore, splice_self, splice_of_not_mem hafter] at d'
  rw [← hkinds] at d'
  exact parseWith_of_derivation hnew hlimit d'

/-- A sum in the place of a factor stays a sum. -/
theorem parseWith_replace_factor :
    ∃ tokens, tokenize ("a*" ++ "(" ++ "b+c" ++ ")" ++ "-d") = .ok tokens ∧
      ∀ limit, tokens.length ≤ limit →
        parseWith ⟨limit⟩ ("a*" ++ "(" ++ "b+c" ++ ")" ++ "-d") =
          .ok (.binary "-"
            (.binary "*" (.parameter "a") (.binary "+" (.parameter "b") (.parameter "c")))
            (.parameter "d")) := by
  have htokens : tokenize "a*x-d" = .ok ([⟨.name "a", 0⟩, ⟨.symbol .star, 1⟩] ++
      ⟨.name "x", 2⟩ :: [⟨.symbol .minus, 3⟩, ⟨.name "d", 4⟩]) := by
    decide +kernel
  have hparse : parseWith ⟨9⟩ "a*x-d" = .ok (.binary "-"
      (.binary "*" (.parameter "a") (.parameter "x")) (.parameter "d")) := by
    decide +kernel
  have hinner : tokenize "b+c" = .ok [⟨.name "b", 0⟩, ⟨.symbol .plus, 1⟩, ⟨.name "c", 2⟩] := by
    decide +kernel
  have hparse' : parseWith ⟨9⟩ "b+c" = .ok (.binary "+" (.parameter "b") (.parameter "c")) := by
    decide +kernel
  have hleaf : .parameter "x" ∈ (Expr.binary "-"
      (.binary "*" (.parameter "a") (.parameter "x")) (.parameter "d")).nodes := by
    rw [Expr.nodes_eq_preorder]
    simp [Expr.preorder]
  have htype : ¬ IsPredefinedArray [.name "b", .symbol .plus, .name "c"] := by
    rintro ⟨name, input, heq, hname, -⟩
    obtain ⟨hb, -⟩ := List.cons.inj heq
    obtain rfl : "b" = name := Kind.name.inj hb
    exact absurd hname (by decide)
  obtain ⟨-, -, hreplace⟩ := parseWith_replace htokens (by decide) hparse hleaf hinner hparse' htype
  have hspelling : Spelling "a*x-d" "x" 2 "a*" "x" "-d" := ⟨by decide, by decide, .inl rfl⟩
  simpa [Expr.substitute] using hreplace "a*" "x" "-d" hspelling

end Formula
