import Formula.Parse
import Formula.Proofs.Agreement

set_option autoImplicit false

/-! # The parser comes to an end

On all tokens the procedures that keep a place and a counter come to an end, and to the one that the
parsers come to. They never run behind the end of the text or close a level that is not open, and
what succeeds goes on and leaves as many levels open as there were. -/

namespace Formula.Cursor

variable {α : Type} {setting : Setting} {tokens : List Token}

/-- From `s` the act comes to an end, with enough calls inside each other and always to the
    same one, which is what the parser answers on the tokens from the place on. It stays among
    the tokens and the end of the text behind them, and does not go back. If it succeeds, it
    goes on by `least` tokens at least, to where the parser has left off, and as many levels
    are open as in front of it. -/
def Ends (setting : Setting) (tokens : List Token) (least : Nat) (act : Nat → Act α) (p : Parser α)
    (s : State) : Prop :=
  ∃ reply s' enough, p setting (tokens.drop s.place) = reply ∧
    (∀ calls, enough ≤ calls → (act calls).run s = some (reply.result.map Prod.fst, s')) ∧
    s'.folds = s.folds ++ reply.folds ∧ s.place ≤ s'.place ∧
    s'.place < (sourceOf setting tokens).lexemes.length ∧
    ∀ a rest, reply.result = .ok (a, rest) →
      tokens.drop s'.place = rest ∧ s.place + least ≤ s'.place ∧ s'.depth = s.depth

section Agreement

variable {act : Nat → Act α} {p : Parser α} {s : State}

theorem Agrees.ends_add {least : Nat} (h : Agrees setting tokens act p s s.depth)
    (hleast : ∀ s' : State, s.place ≤ s'.place → s'.place ≤ tokens.length →
      ∀ folds a, p.Reads setting (tokens.drop s.place) folds a (tokens.drop s'.place) →
        s.place + least ≤ s'.place) :
    Ends setting tokens least act p s := by
  obtain ⟨⟨folds, result⟩, s', enough, hreply, hrun, hfolds, hle, hplace, hok⟩ := h
  have hlexeme : s'.place < (sourceOf setting tokens).lexemes.length := by
    show s'.place < (lexemesOf tokens setting.stop).length
    rw [length_lexemesOf]
    omega
  refine ⟨_, s', enough, hreply, hrun, hfolds, hle, hlexeme, fun a rest hresult => ?_⟩
  obtain ⟨rfl, hdepth⟩ := hok a rest hresult
  subst hresult
  exact ⟨rfl, hleast s' hle hplace folds a hreply, hdepth⟩

/-- Whatever agrees with a parser comes to an end. -/
theorem Agrees.ends (h : Agrees setting tokens act p s s.depth) : Ends setting tokens 0 act p s :=
  h.ends_add fun _ hle _ _ _ _ => hle

/-- If the parser takes a token, it goes on by one. -/
theorem Agrees.ends_succ (h : Agrees setting tokens act p s s.depth)
    (hshorter : ∀ {input rest folds a}, p.Reads setting input folds a rest →
      rest.length < input.length) :
    Ends setting tokens 1 act p s := by
  refine h.ends_add fun s' _ hplace folds a hread => ?_
  have hlength := hshorter hread
  rw [List.length_drop, List.length_drop] at hlength
  omega

end Agreement

/-- A whole text is parsed with enough calls, with the result and the folds that it has. -/
theorem exists_run_formula {text : String} (htokens : Token.tokenize text = .ok tokens)
    (options : ParseOptions) :
    ∃ s' enough, (∀ calls, enough ≤ calls →
      (formula ⟨lexemesOf tokens text.utf8ByteSize, options.maxDepth⟩ calls).run ⟨0, 0, []⟩ =
        some (parseWith options text, s')) ∧ s'.folds = (parseRecording options text).2 := by
  have hstart : (⟨0, 0, []⟩ : State).place ≤ tokens.length := Nat.zero_le _
  obtain ⟨reply, s', enough, rfl, hrun, hfolds, -⟩ :=
    @agrees_formula ⟨text.utf8ByteSize, options.maxDepth⟩ tokens _ hstart
  refine ⟨s', enough, fun calls hcalls => (hrun calls hcalls).trans ?_, hfolds.trans ?_⟩
  · rw [parseWith, parseRecording, htokens]
    rfl
  · rw [parseRecording, htokens]
    rfl

/-- **Every procedure comes to an end on all tokens, and what succeeds goes on and closes what it
    has opened.** Wherever it starts and however many levels are open, an expression, a chain, a
    unary or a primary expression takes a token, and a list of arguments or what follows a primary
    expression does not go back. None of them leaves the tokens or closes a level that is not open,
    whether it succeeds or not. -/
theorem ends_of_place_le (setting : Setting) (tokens : List Token) (s : State)
    (hplace : s.place ≤ tokens.length) :
    Ends setting tokens 1 (fun calls => (procedures (sourceOf setting tokens) calls).expression)
      (Parser.expression (setting.maxDepth - s.depth)) s ∧
    (∀ level, level ≤ levelCount →
      Ends setting tokens 1 (fun calls => (procedures (sourceOf setting tokens) calls).binary level)
        (Parser.binary level (setting.maxDepth - s.depth)) s) ∧
    Ends setting tokens 1 (fun calls => (procedures (sourceOf setting tokens) calls).unary)
      (Parser.unary (setting.maxDepth - s.depth)) s ∧
    Ends setting tokens 1 (fun calls => (procedures (sourceOf setting tokens) calls).primary)
      (Parser.primary (Parser.expression (setting.maxDepth - s.depth))) s ∧
    (∀ close, close ≠ .comma →
      Ends setting tokens 0
        (fun calls => (procedures (sourceOf setting tokens) calls).arguments close)
        (Parser.arguments (Parser.expression (setting.maxDepth - s.depth)) close) s) ∧
    (∀ e, Ends setting tokens 0
      (fun calls => (procedures (sourceOf setting tokens) calls).suffixes e)
      (Parser.suffixes (Parser.expression (setting.maxDepth - s.depth))
        (tokens.length - s.place) e) s) ∧
    Ends setting tokens 0 (formula (sourceOf setting tokens))
      (Parser.formula (setting.maxDepth - s.depth)) s := by
  obtain ⟨hexpression, hunary, -, hbinary⟩ := @performs setting tokens (setting.maxDepth - s.depth)
  have hitem := hexpression s.depth rfl
  refine ⟨(hitem s hplace rfl).ends_succ Parser.length_lt_of_reads_expression,
    fun level hlevel => ?_, ?_, ?_, fun close hclose => ?_, fun e => ?_,
    (agrees_formula hplace).ends⟩
  · exact (hbinary level hlevel s.depth rfl s hplace rfl).ends_succ
      (Parser.sound_level _ level hlevel).length_le
  · exact (hunary s.depth rfl s hplace rfl).ends_succ (Parser.sound _).2.1.length_le
  · exact (performs_primary hitem Parser.length_lt_of_reads_expression s hplace rfl).ends_succ
      (Parser.sound_primary (Parser.sound _).1).length_le
  · exact (performs_arguments hitem Parser.length_lt_of_reads_expression hclose s hplace rfl).ends
  · exact (agrees_suffixes hitem Parser.length_lt_of_reads_expression _ e hplace rfl
      (Nat.le_refl _)).ends

/-- It comes to an end where a parenthesis is left open. -/
theorem ends_of_place_le_unclosed :
    0 ≤ [(⟨.symbol .openParen, 0⟩ : Token), ⟨.name "a", 1⟩].length ∧
      Ends ⟨2, 256⟩ [⟨.symbol .openParen, 0⟩, ⟨.name "a", 1⟩] 1
        (fun calls =>
          (procedures ⟨lexemesOf [⟨.symbol .openParen, 0⟩, ⟨.name "a", 1⟩] 2, 256⟩
            calls).expression)
        (Parser.expression 256) ⟨0, 0, []⟩ :=
  ⟨by decide,
    (ends_of_place_le ⟨2, 256⟩ [⟨.symbol .openParen, 0⟩, ⟨.name "a", 1⟩] ⟨0, 0, []⟩ (by decide)).1⟩

end Formula.Cursor
