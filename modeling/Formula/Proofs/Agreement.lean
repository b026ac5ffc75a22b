import Formula.Proofs.Height
import Formula.Proofs.Limit
import Formula.Proofs.Lookahead

set_option autoImplicit false

/-! # Procedures and parsers

With enough calls inside each other, the procedures that keep a place and a counter do what the
parsers do on the tokens from that place on. For each way in which they are put together there is a
rule, and the budget that a parser has is what the open levels leave of the limit. -/

namespace Formula

/-! ## Laws of the parsers -/

namespace Parser

section Bind

variable {α β : Type} {p : Parser α} {setting : Setting} {tokens rest : List Token}
    {folds : List Fold}

theorem bind_of_error {error : ParseError} (h : p setting tokens = ⟨folds, .error error⟩)
    (f : α → Parser β) : (p >>= f) setting tokens = ⟨folds, .error error⟩ := by
  show Parser.bind p f setting tokens = _
  unfold Parser.bind
  rw [h]

theorem bind_of_ok {a : α} (h : p setting tokens = ⟨folds, .ok (a, rest)⟩) (f : α → Parser β) :
    (p >>= f) setting tokens = ⟨folds ++ (f a setting rest).folds, (f a setting rest).result⟩ := by
  show Parser.bind p f setting tokens = _
  unfold Parser.bind
  rw [h]

end Bind

instance : LawfulMonad Parser := by
  refine LawfulMonad.mk' Parser (fun p => ?_) (fun a f => rfl) (fun p f g => ?_)
  · funext setting tokens
    rcases h : p setting tokens with ⟨folds, error | ⟨a, rest⟩⟩
    · exact bind_of_error h _
    · refine (bind_of_ok h _).trans ?_
      show (⟨folds ++ [], .ok (a, rest)⟩ : Reply _) = _
      rw [List.append_nil]
  · funext setting tokens
    rcases h : p setting tokens with ⟨folds, error | ⟨a, rest⟩⟩
    · rw [bind_of_error (bind_of_error h f) g, bind_of_error h]
    · rw [bind_of_ok h]
      rcases h' : f a setting rest with ⟨later, error | ⟨b, rest'⟩⟩
      · have hfirst : (p >>= f) setting tokens = ⟨folds ++ later, .error error⟩ := by
          rw [bind_of_ok h, h']
        rw [bind_of_error hfirst, bind_of_error h']
      · have hfirst : (p >>= f) setting tokens = ⟨folds ++ later, .ok (b, rest')⟩ := by
          rw [bind_of_ok h, h']
        rw [bind_of_ok hfirst, bind_of_ok h', List.append_assoc]

theorem accept_of_eq {symbol : Symbol} {rest : List Token}
    (h : rest.head?.map Token.kind = some (.symbol symbol)) (setting : Setting) :
    accept symbol setting rest = ⟨[], .ok (true, rest.drop 1)⟩ := by
  show (if rest.head?.map Token.kind = some (.symbol symbol) then (do skip 1; return true)
    else return false : Parser Bool) setting rest = _
  rw [if_pos h]
  rfl

theorem accept_of_ne {symbol : Symbol} {rest : List Token}
    (h : rest.head?.map Token.kind ≠ some (.symbol symbol)) (setting : Setting) :
    accept symbol setting rest = ⟨[], .ok (false, rest)⟩ := by
  show (if rest.head?.map Token.kind = some (.symbol symbol) then (do skip 1; return true)
    else return false : Parser Bool) setting rest = _
  rw [if_neg h]
  rfl

theorem fail_bind {α β : Type} (cause : ParseError.Cause) (f : α → Parser β) :
    (fail cause >>= f) = fail cause :=
  rfl

theorem conversion?_bind {β : Type} (f : Option (List Token) → Parser β) (setting : Setting)
    (tokens : List Token) :
    (conversion? >>= f) setting tokens = f (conversionAt? tokens) setting tokens := by
  show Parser.bind conversion? f setting tokens = _
  unfold Parser.bind
  rw [show conversion? setting tokens = _ from reads_conversion? setting tokens]
  rfl

/-- An expression takes a token at least. -/
theorem length_lt_of_reads_expression {budget : Nat} {setting : Setting} {tokens rest : List Token}
    {folds : List Fold} {e : Expr} (h : (expression budget).Reads setting tokens folds e rest) :
    rest.length < tokens.length := by
  obtain ⟨d, -, -⟩ := (sound budget).1 h
  have hlength := d.nesting_add_length_le
  have hnesting := d.nesting_pos
  rw [List.length_map, List.length_map] at hlength
  omega

end Parser

namespace Cursor

open Token (Kind)
open Bytes (Lexeme)

variable {α β : Type}

/-! ## Running acts -/

namespace Act

theorem run_bind (act : Act α) (f : α → Act β) (s : State) :
    (act >>= f).run s =
      match act.run s with
      | none => none
      | some (.error e, s') => some (.error e, s')
      | some (.ok a, s') => (f a).run s' := by
  show (StateT.bind act _) s = _
  unfold StateT.bind
  show Option.bind (act.run s) _ = _
  rcases act.run s with _ | ⟨_ | a, s'⟩ <;> rfl

theorem run_pure (a : α) (s : State) : (pure a : Act α).run s = some (.ok a, s) := rfl

theorem run_throw (e : ParseError) (s : State) : (throw e : Act α).run s = some (.error e, s) := rfl

end Act

/-! ## Agreement with a parser -/

/-- The source that a parser with this setting reads. -/
def sourceOf (setting : Setting) (tokens : List Token) : Source :=
  ⟨lexemesOf tokens setting.stop, setting.maxDepth⟩

/-- With enough calls inside each other, the act does from `s` what the parser does on the
    tokens from the place on: it has the same result and folds the same constructs. It does not
    go back, nor behind the end of the text. If it succeeds it goes on where the parser has left
    off, and so many levels are open. -/
def Agrees (setting : Setting) (tokens : List Token) (act : Nat → Act α) (p : Parser α) (s : State)
    (depth : Nat) : Prop :=
  ∃ reply s' enough, p setting (tokens.drop s.place) = reply ∧
    (∀ calls, enough ≤ calls → (act calls).run s = some (reply.result.map Prod.fst, s')) ∧
    s'.folds = s.folds ++ reply.folds ∧ s.place ≤ s'.place ∧ s'.place ≤ tokens.length ∧
    ∀ a rest, reply.result = .ok (a, rest) → tokens.drop s'.place = rest ∧ s'.depth = depth

section Agreement

variable {setting : Setting} {tokens : List Token} {act act' : Nat → Act α} {p p' : Parser α}
  {s s' : State} {depth middle : Nat}

/-- One more call inside all others. -/
theorem agrees_call (h : Agrees setting tokens (fun calls => act (calls + 1)) p s depth) :
    Agrees setting tokens act p s depth := by
  obtain ⟨reply, s', enough, hreply, hrun, hend⟩ := h
  refine ⟨reply, s', enough + 1, hreply, fun calls hcalls => ?_, hend⟩
  obtain ⟨fewer, rfl⟩ := Nat.exists_eq_add_of_le' hcalls
  exact hrun (fewer + enough) (Nat.le_add_left enough fewer)

/-- A step that folds nothing, and behind which both do the same again. -/
theorem agrees_step (hrun : ∀ calls, (act calls).run s = (act' calls).run s')
    (hreply : p setting (tokens.drop s.place) = p' setting (tokens.drop s'.place))
    (hplace : s.place ≤ s'.place) (hfolds : s'.folds = s.folds)
    (h : Agrees setting tokens act' p' s' depth) : Agrees setting tokens act p s depth := by
  obtain ⟨reply, last, enough, hlast, hact, hfold, hle, hend⟩ := h
  rw [hfolds] at hfold
  exact ⟨reply, last, enough, hreply.trans hlast,
    fun calls hcalls => (hrun calls).trans (hact calls hcalls), hfold,
    Nat.le_trans hplace hle, hend⟩

theorem agrees_pure (a : α) (hplace : s.place ≤ tokens.length) (hdepth : s.depth = depth) :
    Agrees setting tokens (fun _ => pure a) (pure a) s depth := by
  refine ⟨_, s, 0, rfl, fun calls _ => Act.run_pure a s, (List.append_nil _).symm,
    Nat.le_refl _, hplace, ?_⟩
  rintro b rest h
  cases h
  exact ⟨rfl, hdepth⟩

/-- The error is reported at the next token. -/
theorem agrees_throw (cause : ParseError.Cause) (depth : Nat) (hplace : s.place ≤ tokens.length) :
    Agrees setting tokens
      (fun _ => throw ⟨(headLexeme (tokens.drop s.place) setting.stop).position, cause⟩)
      (Parser.fail cause : Parser α) s depth := by
  refine ⟨_, s, 0, rfl, fun calls _ => Act.run_throw _ s, (List.append_nil _).symm,
    Nat.le_refl _, hplace, ?_⟩
  rintro b rest h
  cases h

/-- One act and then another. -/
theorem agrees_bind {act : Nat → Act β} {f : Nat → β → Act α} {p : Parser β} {g : β → Parser α}
    (h : Agrees setting tokens act p s middle)
    (hnext : ∀ folds b s', p.Reads setting (tokens.drop s.place) folds b (tokens.drop s'.place) →
      s.place ≤ s'.place → s'.place ≤ tokens.length → s'.depth = middle →
        Agrees setting tokens (fun calls => f calls b) (g b) s' depth) :
    Agrees setting tokens (fun calls => act calls >>= f calls) (p >>= g) s depth := by
  obtain ⟨⟨folds, result⟩, s', enough, hreply, hrun, hfolds, hle, hplace, hok⟩ := h
  cases result with
  | error error =>
    refine ⟨_, s', enough, Parser.bind_of_error hreply g, fun calls hcalls => ?_, hfolds,
      hle, hplace, ?_⟩
    · rw [Act.run_bind, hrun calls hcalls]
      rfl
    · rintro b rest h
      cases h
  | ok found =>
    obtain ⟨b, rest⟩ := found
    obtain ⟨rfl, hdepth⟩ := hok b rest rfl
    obtain ⟨reply, last, more, hlast, hthen, hlater, hle', hplace', hok'⟩ :=
      hnext folds b s' hreply hle hplace hdepth
    refine ⟨_, last, max enough more, Parser.bind_of_ok hreply g, fun calls hcalls => ?_, ?_,
      Nat.le_trans hle hle', hplace', ?_⟩
    · obtain ⟨henough, hmore⟩ := Nat.max_le.1 hcalls
      rw [Act.run_bind, hrun calls henough, hlast]
      exact hthen calls hmore
    · rw [hlater, hfolds, List.append_assoc, hlast]
    · rw [hlast]
      exact hok'

/-! ### Looking ahead -/

theorem Act.run_peekAt (offset : Nat) (h : s.place + offset ≤ tokens.length) :
    (peekAt (sourceOf setting tokens) offset).run s =
      some (.ok (headLexeme (tokens.drop (s.place + offset)) setting.stop), s) := by
  have hindex : min (s.place + offset) ((lexemesOf tokens setting.stop).length - 1) =
      s.place + offset := by
    rw [length_lexemesOf]
    omega
  have hlexeme := getElem?_lexemesOf setting.stop h
  rw [peekAt, Act.run_bind]
  show (Act.run _ s) = _
  simp only [sourceOf, hindex, hlexeme]
  rfl

theorem agrees_peekAt {f : Nat → Lexeme → Act α} (offset : Nat)
    (hplace : s.place + offset ≤ tokens.length)
    (h : Agrees setting tokens
      (fun calls => f calls (headLexeme (tokens.drop (s.place + offset)) setting.stop)) p s depth) :
    Agrees setting tokens
      (fun calls => peekAt (sourceOf setting tokens) offset >>= f calls) p s depth := by
  refine agrees_step (fun calls => ?_) rfl (Nat.le_refl _) rfl h
  rw [Act.run_bind, Act.run_peekAt offset hplace]

theorem agrees_peek {f : Nat → Lexeme → Act α} (hplace : s.place ≤ tokens.length)
    (h : Agrees setting tokens
      (fun calls => f calls (headLexeme (tokens.drop s.place) setting.stop)) p s depth) :
    Agrees setting tokens (fun calls => peek (sourceOf setting tokens) >>= f calls) p s depth :=
  agrees_peekAt 0 hplace h

theorem agrees_get {f : Nat → State → Act α}
    (h : Agrees setting tokens (fun calls => f calls s) p s depth) :
    Agrees setting tokens (fun calls => get >>= f calls) p s depth :=
  agrees_step (fun _ => rfl) rfl (Nat.le_refl _) rfl h

theorem agrees_next? {g : Option Kind → Parser α}
    (h : Agrees setting tokens act
      (g (headLexeme (tokens.drop s.place) setting.stop).kind) s depth) :
    Agrees setting tokens act (Parser.next? >>= g) s depth :=
  agrees_step (fun _ => rfl) rfl (Nat.le_refl _) rfl h

theorem agrees_position {g : Nat → Parser α}
    (h : Agrees setting tokens act
      (g (headLexeme (tokens.drop s.place) setting.stop).position) s depth) :
    Agrees setting tokens act (Parser.position >>= g) s depth :=
  agrees_step (fun _ => rfl) rfl (Nat.le_refl _) rfl h

theorem agrees_tokens {g : List Token → Parser α}
    (h : Agrees setting tokens act (g (tokens.drop s.place)) s depth) :
    Agrees setting tokens act (Parser.tokens >>= g) s depth :=
  agrees_step (fun _ => rfl) rfl (Nat.le_refl _) rfl h

theorem agrees_conversion? {g : Option (List Token) → Parser α}
    (h : Agrees setting tokens act (g (conversionAt? (tokens.drop s.place))) s depth) :
    Agrees setting tokens act (Parser.conversion? >>= g) s depth :=
  agrees_step (fun _ => rfl) (Parser.conversion?_bind g setting _) (Nat.le_refl _) rfl h

/-! ### Going on -/

theorem lt_of_head {kind : Kind}
    (h : (headLexeme (tokens.drop s.place) setting.stop).kind = some kind) :
    s.place < tokens.length := by
  by_contra hplace
  rw [List.drop_of_length_le (Nat.le_of_not_lt hplace)] at h
  cases h

theorem Act.run_bump (h : s.place < tokens.length) :
    (bump (sourceOf setting tokens)).run s = some (.ok (), { s with place := s.place + 1 }) := by
  have hlength : s.place + 1 < (lexemesOf tokens setting.stop).length := by
    rw [length_lexemesOf]
    omega
  show some (Except.ok (),
      if s.place + 1 < (lexemesOf tokens setting.stop).length then _ else s) = _
  rw [if_pos hlength]

theorem agrees_skip {f : Nat → Unit → Act α} {g : Unit → Parser α}
    (hplace : s.place < tokens.length)
    (h : Agrees setting tokens (fun calls => f calls ()) (g ())
      { s with place := s.place + 1 } depth) :
    Agrees setting tokens (fun calls => bump (sourceOf setting tokens) >>= f calls)
      (Parser.skip 1 >>= g) s depth := by
  refine agrees_step (fun calls => ?_) ?_ ?_ ?_ h
  · rw [Act.run_bind, Act.run_bump hplace]
  · show g () setting ((tokens.drop s.place).drop 1) = _
    rw [List.drop_drop]
  · exact Nat.le_succ _
  · rfl

theorem agrees_accept {symbol : Symbol} {f : Nat → Unit → Act α} {g : Bool → Parser α}
    (hhead : (headLexeme (tokens.drop s.place) setting.stop).kind = some (.symbol symbol))
    (h : Agrees setting tokens (fun calls => f calls ()) (g true)
      { s with place := s.place + 1 } depth) :
    Agrees setting tokens (fun calls => bump (sourceOf setting tokens) >>= f calls)
      (Parser.accept symbol >>= g) s depth := by
  have haccept : (Parser.accept symbol >>= g) setting (tokens.drop s.place) =
      (Parser.skip 1 >>= fun _ => g true) setting (tokens.drop s.place) :=
    Parser.bind_of_ok (Parser.accept_of_eq hhead setting) g
  exact agrees_step (fun _ => rfl) haccept (Nat.le_refl _) rfl (agrees_skip (lt_of_head hhead) h)

theorem agrees_decline {symbol : Symbol} {g : Bool → Parser α}
    (hhead : (headLexeme (tokens.drop s.place) setting.stop).kind ≠ some (.symbol symbol))
    (h : Agrees setting tokens act (g false) s depth) :
    Agrees setting tokens act (Parser.accept symbol >>= g) s depth :=
  agrees_step (fun _ => rfl) (Parser.bind_of_ok (Parser.accept_of_ne hhead setting) g)
    (Nat.le_refl _) rfl h

theorem agrees_expect {symbol : Symbol} {f : Nat → Unit → Act α} {g : Unit → Parser α}
    (hplace : s.place ≤ tokens.length)
    (h : s.place < tokens.length →
      Agrees setting tokens (fun calls => f calls ()) (g ())
        { s with place := s.place + 1 } depth) :
    Agrees setting tokens (fun calls => expect (sourceOf setting tokens) symbol >>= f calls)
      (Parser.expect symbol >>= g) s depth := by
  simp only [expect, Parser.expect, bind_assoc]
  refine agrees_peek hplace ?_
  by_cases hhead : (headLexeme (tokens.drop s.place) setting.stop).kind = some (.symbol symbol)
  · simp only [hhead, if_true]
    exact agrees_accept hhead (h (lt_of_head hhead))
  · simp only [hhead, if_false]
    refine agrees_decline hhead ?_
    simp only [Bool.false_eq_true, if_false, bind_assoc]
    refine agrees_next? (agrees_bind (agrees_throw _ depth hplace) fun _ _ _ hread _ => ?_)
    exact absurd hread Parser.not_reads_fail

/-! ### Levels -/

theorem Act.run_descend (hplace : s.place ≤ tokens.length) :
    (descend (sourceOf setting tokens)).run s =
      if setting.maxDepth < s.depth + 1 then
        some (.error ⟨(headLexeme (tokens.drop s.place) setting.stop).position,
          .tooDeep setting.maxDepth⟩, { s with depth := s.depth + 1 })
      else some (.ok (), { s with depth := s.depth + 1 }) := by
  show Act.run (if setting.maxDepth < s.depth + 1 then
      (do throw ⟨(← peek (sourceOf setting tokens)).position, .tooDeep setting.maxDepth⟩)
    else pure ()) { s with depth := s.depth + 1 } = _
  split
  · have hpeek : ({ s with depth := s.depth + 1 } : State).place + 0 ≤ tokens.length := hplace
    rw [Act.run_bind, peek, Act.run_peekAt 0 hpeek]
    rfl
  · rfl

theorem agrees_descend {f : Nat → Unit → Act α} (hplace : s.place ≤ tokens.length)
    (hdepth : s.depth < setting.maxDepth)
    (h : Agrees setting tokens (fun calls => f calls ()) p { s with depth := s.depth + 1 } depth) :
    Agrees setting tokens
      (fun calls => descend (sourceOf setting tokens) >>= f calls) p s depth := by
  refine agrees_step (fun calls => ?_) ?_ ?_ ?_ h
  · rw [Act.run_bind, Act.run_descend hplace, if_neg (by omega)]
  · rfl
  · exact Nat.le_refl _
  · rfl

theorem agrees_tooDeep {f : Nat → Unit → Act α} (hplace : s.place ≤ tokens.length)
    (hdepth : setting.maxDepth ≤ s.depth) :
    Agrees setting tokens
      (fun calls => descend (sourceOf setting tokens) >>= f calls) Parser.tooDeep s depth := by
  refine ⟨_, { s with depth := s.depth + 1 }, 0, rfl, fun calls _ => ?_, (List.append_nil _).symm,
    Nat.le_refl _, hplace, ?_⟩
  · rw [Act.run_bind, Act.run_descend hplace, if_pos (by omega)]
    rfl
  · rintro b rest h
    cases h

theorem agrees_ascend {levels : Nat} {f : Nat → Unit → Act α} (hdepth : levels ≤ s.depth)
    (h : Agrees setting tokens (fun calls => f calls ()) p
      { s with depth := s.depth - levels } depth) :
    Agrees setting tokens (fun calls => ascend levels >>= f calls) p s depth := by
  have hrun : (ascend levels).run s = some (.ok (), { s with depth := s.depth - levels }) := by
    show Act.run (if levels ≤ s.depth then _ else Act.stuck) s = _
    rw [if_pos hdepth]
    rfl
  refine agrees_step (fun calls => ?_) ?_ ?_ ?_ h
  · rw [Act.run_bind, hrun]
  · rfl
  · exact Nat.le_refl _
  · rfl

theorem agrees_fold (construct : Construct) (position : Nat) (hplace : s.place ≤ tokens.length)
    (hdepth : s.depth = depth) :
    Agrees setting tokens (fun _ => fold construct position)
      (Parser.fold construct position) s depth := by
  refine ⟨_, { s with folds := s.folds ++ [⟨construct, position⟩] }, 0, rfl, fun calls _ => rfl,
    rfl, Nat.le_refl _, hplace, ?_⟩
  rintro b rest h
  cases h
  exact ⟨rfl, hdepth⟩

end Agreement

/-! ## Procedures -/

section Procedures

variable {setting : Setting} {tokens : List Token} {s : State}

/-- From every place the procedure does what the parser does, and so many levels are open
    behind it as in front of it. -/
def Performs (setting : Setting) (tokens : List Token) (depth : Nat) (act : Nat → Act α)
    (p : Parser α) : Prop :=
  ∀ s : State, s.place ≤ tokens.length → s.depth = depth → Agrees setting tokens act p s depth

/-! ### Names -/

/-- Takes the members, behind those that were taken before. -/
def takeNames (names : List String) : Parser (List String) := do
  let found := memberNames (← Parser.tokens)
  Parser.skip (2 * found.length)
  return names ++ found

theorem agrees_members (names : List String) (hplace : s.place ≤ tokens.length) :
    Agrees setting tokens (fun calls => (procedures (sourceOf setting tokens) calls).members names)
      (takeNames names) s s.depth := by
  generalize hrest : tokens.drop s.place = rest
  fun_induction memberNames rest generalizing s names with
  | case1 p name q rest ih =>
    have hlength := add_length_of_drop hrest hplace
    simp only [List.length_cons] at hlength
    have hdot : (headLexeme (tokens.drop s.place) setting.stop).kind = some (.symbol .dot) := by
      rw [hrest]
      rfl
    have hname : (headLexeme (tokens.drop (s.place + 1)) setting.stop).kind =
        some (.name name) := by
      rw [drop_add hrest 1]
      rfl
    have hreply : takeNames names setting (tokens.drop s.place) =
        (do Parser.skip 1; Parser.skip 1; takeNames (names ++ [name])) setting
          (tokens.drop s.place) := by
      rw [hrest]
      show (⟨[], .ok (names ++ name :: memberNames rest, _)⟩ : Reply (List String)) =
        ⟨[], .ok ((names ++ [name]) ++ memberNames rest, _)⟩
      simp [memberNames, Nat.mul_add]
    refine agrees_call (agrees_peek hplace ?_)
    simp only [hdot, if_true]
    refine agrees_peekAt 1 (by omega) ?_
    simp only [hname]
    refine agrees_step (fun _ => rfl) hreply (Nat.le_refl _) rfl ?_
    refine agrees_skip (by omega) (agrees_skip ?_ (ih _ ?_ ?_))
    · show s.place + 1 < tokens.length
      omega
    · show s.place + 2 ≤ tokens.length
      omega
    · exact drop_add hrest 2
  | case2 rest hother =>
    have hreply : takeNames names setting (tokens.drop s.place) =
        (pure names : Parser (List String)) setting (tokens.drop s.place) := by
      have hnone : memberNames rest = [] := by
        unfold memberNames
        split
        · exact (hother _ _ _ _ rfl).elim
        · rfl
      rw [hrest]
      show (⟨[], .ok (names ++ memberNames rest, _)⟩ : Reply (List String)) =
          ⟨[], .ok (names, rest)⟩
      simp [hnone]
    refine agrees_step (fun _ => rfl) hreply (Nat.le_refl _) rfl
      (agrees_call (agrees_peek hplace ?_))
    by_cases hdot : (headLexeme (tokens.drop s.place) setting.stop).kind = some (.symbol .dot)
    · have hplace' := lt_of_head hdot
      simp only [hdot, if_true]
      refine agrees_peekAt 1 hplace' ?_
      cases hsecond : (headLexeme (tokens.drop (s.place + 1)) setting.stop).kind with
      | none => exact agrees_pure names hplace rfl
      | some kind =>
        cases kind with
        | name name =>
          -- then a member starts here
          rw [hrest] at hdot
          rw [drop_add hrest 1] at hsecond
          obtain ⟨p, tail, rfl⟩ := cons_of_headLexeme setting.stop hdot
          obtain ⟨q, tail, rfl⟩ := cons_of_headLexeme setting.stop hsecond
          exact (hother _ _ _ _ rfl).elim
        | _ => exact agrees_pure names hplace rfl
    · simp only [hdot, if_false]
      exact agrees_pure names hplace rfl

theorem named_eq {item : Parser Expr} {start : Nat} {name : String}
    (word : isKeyword name = false) :
    Parser.named item start name = (do
      let names ← takeNames []
      if ← Parser.accept .openParen then
        return .call (String.intercalate "." (name :: names)) (← Parser.arguments item .closeParen)
      else if names.isEmpty then
        return .parameter name
      else
        Parser.fold .memberAccess start) := by
  simp only [isKeyword, Bool.or_eq_false_iff, beq_eq_false_iff_ne, ne_eq] at word
  unfold Parser.named
  split
  · simp at word
  · simp at word
  · simp at word
  · simp only [takeNames, bind_assoc, pure_bind, List.nil_append]

/-! ### Arguments -/

section Item

variable {item : Parser Expr} {depth : Nat}
  (hitem : Performs setting tokens depth
    (fun calls => (procedures (sourceOf setting tokens) calls).expression) item)
  (hshorter : ∀ {rest rest' : List Token} {folds : List Fold} {e : Expr},
    item.Reads setting rest folds e rest' → rest'.length < rest.length)
include hitem hshorter

theorem agrees_items {close : Symbol} (hclose : close ≠ .comma) (commas : Nat) (before : List Expr)
    (hplace : s.place ≤ tokens.length) (hdepth : s.depth = depth)
    (hcommas : tokens.length - s.place ≤ commas) :
    Agrees setting tokens
      (fun calls => (procedures (sourceOf setting tokens) calls).items close before)
      (do return before ++ (← Parser.argumentsFrom item close commas)) s depth := by
  induction commas generalizing s before with
  | zero =>
    rw [Parser.argumentsFrom.eq_def]
    simp only [bind_assoc]
    refine agrees_call
      (agrees_bind (hitem s hplace hdepth) fun folds e s' hread _ hplace' hdepth' => ?_)
    have hfewer := hshorter hread
    simp only [List.length_drop] at hfewer
    omega
  | succ commas ih =>
    rw [Parser.argumentsFrom.eq_def]
    simp only [bind_assoc]
    refine agrees_call
      (agrees_bind (hitem s hplace hdepth) fun folds e s' hread _ hplace' hdepth' => ?_)
    have hfewer := hshorter hread
    simp only [List.length_drop] at hfewer
    refine agrees_peek hplace' ?_
    by_cases hcomma : (headLexeme (tokens.drop s'.place) setting.stop).kind = some (.symbol .comma)
    · have hother :
          (headLexeme (tokens.drop s'.place) setting.stop).kind ≠ some (.symbol close) := by
        rw [hcomma]
        simpa using hclose.symm
      have hplaceComma := lt_of_head hcomma
      simp only [hcomma, if_true]
      refine agrees_decline hother ?_
      simp only [Bool.false_eq_true, if_false, bind_assoc]
      refine agrees_accept hcomma ?_
      simp only [if_true, bind_assoc, pure_bind]
      simpa only [List.append_assoc, List.singleton_append] using
        ih (before ++ [e]) (s := { s' with place := s'.place + 1 }) hplaceComma hdepth'
          (by simp only; omega)
    · simp only [hcomma, if_false]
      by_cases hend : (headLexeme (tokens.drop s'.place) setting.stop).kind = some (.symbol close)
      · simp only [hend, if_true]
        refine agrees_accept hend ?_
        simp only [if_true, pure_bind]
        exact agrees_pure _ (lt_of_head hend) hdepth'
      · simp only [hend, if_false]
        refine agrees_decline hend ?_
        simp only [Bool.false_eq_true, if_false, bind_assoc]
        refine agrees_decline hcomma ?_
        simp only [Bool.false_eq_true, if_false, bind_assoc, Parser.fail_bind]
        exact agrees_next? (agrees_throw _ depth hplace')

theorem performs_arguments {close : Symbol} (hclose : close ≠ .comma) :
    Performs setting tokens depth
      (fun calls => (procedures (sourceOf setting tokens) calls).arguments close)
      (Parser.arguments item close) := by
  intro s hplace hdepth
  refine agrees_call (agrees_peek hplace ?_)
  by_cases hend : (headLexeme (tokens.drop s.place) setting.stop).kind = some (.symbol close)
  · simp only [hend, if_true]
    refine agrees_accept hend ?_
    exact agrees_pure _ (lt_of_head hend) hdepth
  · simp only [hend, if_false]
    refine agrees_decline hend (agrees_tokens ?_)
    have hitems := agrees_items hitem hshorter hclose (tokens.drop s.place).length [] hplace hdepth
      (by rw [List.length_drop])
    simpa using hitems

/-! ### Primary expressions -/

theorem agrees_named (start : Nat) (name : String) (hplace : s.place ≤ tokens.length)
    (hdepth : s.depth = depth) :
    Agrees setting tokens (fun calls => Body.named (sourceOf setting tokens)
        (procedures (sourceOf setting tokens) calls) start name)
      (Parser.named item start name) s depth := by
  unfold Body.named
  split
  · exact agrees_pure _ hplace hdepth
  · exact agrees_pure _ hplace hdepth
  · exact agrees_fold _ start hplace hdepth
  · next htrue hfalse hnull =>
    have word : isKeyword name = false := by
      simpa [isKeyword, and_assoc] using And.intro htrue (And.intro hfalse hnull)
    rw [named_eq word]
    refine agrees_bind (agrees_members [] hplace) fun _ names s' _ _ hplace' hdepth' => ?_
    refine agrees_peek hplace' ?_
    by_cases hcall :
        (headLexeme (tokens.drop s'.place) setting.stop).kind = some (.symbol .openParen)
    · simp only [hcall, if_true]
      refine agrees_accept hcall ?_
      have harguments := performs_arguments hitem hshorter (by decide : Symbol.closeParen ≠ .comma)
      exact agrees_bind (harguments _ (lt_of_head hcall) (hdepth'.trans hdepth))
        fun _ es _ _ _ hle hlevel => agrees_pure _ hle hlevel
    · simp only [hcall, if_false]
      refine agrees_decline hcall ?_
      simp only [Bool.false_eq_true, if_false]
      split
      · exact agrees_pure _ hplace' (hdepth'.trans hdepth)
      · exact agrees_fold _ start hplace' (hdepth'.trans hdepth)

theorem performs_primary :
    Performs setting tokens depth
      (fun calls => (procedures (sourceOf setting tokens) calls).primary)
      (Parser.primary item) := by
  intro s hplace hdepth
  refine agrees_call (agrees_peek hplace ?_)
  refine agrees_position (agrees_next? ?_)
  cases hkind : (headLexeme (tokens.drop s.place) setting.stop).kind with
  | none => exact agrees_throw _ depth hplace
  | some kind =>
    have hplace' := lt_of_head hkind
    cases kind with
    | number value => exact agrees_skip hplace' (agrees_pure _ hplace' hdepth)
    | string value => exact agrees_skip hplace' (agrees_pure _ hplace' hdepth)
    | character => exact agrees_skip hplace' (agrees_fold _ _ hplace' hdepth)
    | name name => exact agrees_skip hplace' (agrees_named hitem hshorter _ name hplace' hdepth)
    | symbol symbol =>
      cases symbol with
      | openParen =>
        exact agrees_skip hplace' (agrees_bind (hitem _ hplace' hdepth)
          fun _ e _ _ _ hle hlevel => agrees_expect hle fun hlt => agrees_pure e hlt hlevel)
      | _ => exact agrees_throw _ depth hplace

/-! ### Suffixes -/

theorem agrees_suffixes (count : Nat) (e : Expr) (hplace : s.place ≤ tokens.length)
    (hdepth : s.depth = depth) (hcount : tokens.length - s.place ≤ count) :
    Agrees setting tokens (fun calls => (procedures (sourceOf setting tokens) calls).suffixes e)
      (Parser.suffixes item count e) s depth := by
  induction count generalizing s e with
  | zero =>
    have hend : (headLexeme (tokens.drop s.place) setting.stop).kind = none := by
      rw [List.drop_of_length_le (by omega)]
      rfl
    refine agrees_call (agrees_peek hplace ?_)
    simp only [hend]
    exact agrees_pure e hplace hdepth
  | succ count ih =>
    -- what follows an argument list is fewer tokens
    have hbracketed {close : Symbol} (hclose : close ≠ .comma) (construct : Construct) (start : Nat)
        (hplace : s.place < tokens.length) :
        Agrees setting tokens
          (fun calls => do
            bump (sourceOf setting tokens)
            let _ ← (procedures (sourceOf setting tokens) calls).arguments close
            (procedures (sourceOf setting tokens) calls).suffixes (← fold construct start))
          (do
            Parser.skip 1
            let _ ← Parser.arguments item close
            Parser.suffixes item count (← Parser.fold construct start)) s depth := by
      refine agrees_skip hplace
        (agrees_bind (performs_arguments hitem hshorter hclose _ hplace hdepth) ?_)
      intro _ es s' _ hle hplace' hlevel
      refine agrees_bind (agrees_fold construct start hplace' hlevel) ?_
      intro _ folded s'' _ hle' hplace'' hlevel'
      have hleft : tokens.length - s''.place ≤ count := by
        simp only at hle
        omega
      exact ih folded hplace'' hlevel' hleft
    refine agrees_call (agrees_peek hplace (agrees_position (agrees_next? ?_)))
    cases hkind : (headLexeme (tokens.drop s.place) setting.stop).kind with
    | none => exact agrees_pure e hplace hdepth
    | some kind =>
      have hplace' := lt_of_head hkind
      cases kind with
      | symbol symbol =>
        cases symbol with
        | openParen => exact hbracketed (by decide) _ _ hplace'
        | openBracket => exact hbracketed (by decide) _ _ hplace'
        | dot =>
          refine agrees_skip hplace' (agrees_peek hplace' (agrees_next? ?_))
          cases hmember : (headLexeme (tokens.drop (s.place + 1)) setting.stop).kind with
          | none => exact agrees_throw _ depth hplace'
          | some kind =>
            cases kind with
            | name name =>
              have hplaceMember : s.place + 1 < tokens.length :=
                lt_of_head (s := { s with place := s.place + 1 }) hmember
              refine agrees_skip hplaceMember
                (agrees_bind (agrees_fold _ _ hplaceMember hdepth) ?_)
              intro _ folded s' _ hle hplace' hlevel
              have hleft : tokens.length - s'.place ≤ count := by
                simp only at hle
                omega
              exact ih folded hplace' hlevel hleft
            | _ => exact agrees_throw _ depth hplace'
        | _ => exact agrees_pure e hplace hdepth
      | _ => exact agrees_pure e hplace hdepth

end Item

/-! ### Levels -/

section Levels

variable {budget level : Nat}

theorem performs_binary_last {depth : Nat}
    (hunary : Performs setting tokens depth
      (fun calls => (procedures (sourceOf setting tokens) calls).unary)
      (Parser.unary budget)) :
    Performs setting tokens depth
      (fun calls => (procedures (sourceOf setting tokens) calls).binary levelCount)
      (Parser.binary levelCount budget) := by
  intro s hplace hdepth
  rw [Parser.binary.eq_def, if_neg (Nat.lt_irrefl _)]
  exact agrees_call (hunary s hplace hdepth)

/-- The rest of a chain, which closes the levels of its operators when it ends. -/
def PerformsChain (setting : Setting) (tokens : List Token) (depth level budget : Nat) : Prop :=
  ∀ (left : Expr) (chained : Nat) (s : State), chained ≤ depth → s.place ≤ tokens.length →
    s.depth = depth →
      Agrees setting tokens
        (fun calls => (procedures (sourceOf setting tokens) calls).chain level left chained)
        (Parser.chain level budget left) s (depth - chained)

theorem performs_binary {depth : Nat} (hlevel : level < levelCount)
    (hfirst : Performs setting tokens depth
      (fun calls => (procedures (sourceOf setting tokens) calls).binary (level + 1))
      (Parser.binary (level + 1) budget))
    (hlinks : PerformsChain setting tokens depth level budget) :
    Performs setting tokens depth
      (fun calls => (procedures (sourceOf setting tokens) calls).binary level)
      (Parser.binary level budget) := by
  intro s hplace hdepth
  rw [Parser.binary.eq_def, if_pos hlevel]
  refine agrees_call ?_
  show Agrees setting tokens (fun calls => if level = levelCount then _ else _) _ s depth
  simp only [Nat.ne_of_lt hlevel, if_false]
  exact agrees_bind (hfirst s hplace hdepth)
    fun _ left s' _ _ hplace' hdepth' => hlinks left 0 s' (Nat.zero_le depth) hplace' hdepth'

theorem performs_chain {depth : Nat} (hbudget : setting.maxDepth - depth = budget)
    (hright : ∀ lower, budget = lower + 1 → Performs setting tokens (depth + 1)
      (fun calls => (procedures (sourceOf setting tokens) calls).binary (level + 1))
      (Parser.binary (level + 1) lower))
    (hlinks : ∀ lower, budget = lower + 1 → PerformsChain setting tokens (depth + 1) level lower) :
    PerformsChain setting tokens depth level budget := by
  intro left chained s hchained hplace hdepth
  rw [Parser.chain.eq_def]
  refine agrees_call (agrees_peek hplace (agrees_next? ?_))
  cases hoperator :
      (headLexeme (tokens.drop s.place) setting.stop).kind.bind (Kind.operatorAt? level) with
  | none =>
    have hopen : chained ≤ s.depth := by rwa [hdepth]
    exact agrees_ascend hopen (agrees_pure left hplace (by simp only [hdepth]))
  | some operator =>
    obtain ⟨kind, hkind, -⟩ := Option.bind_eq_some_iff.1 hoperator
    have hplace' := lt_of_head hkind
    refine agrees_skip hplace' ?_
    cases budget with
    | zero => exact agrees_tooDeep hplace' (by simp only [hdepth]; omega)
    | succ lower =>
      refine agrees_descend hplace' (by simp only [hdepth]; omega) ?_
      refine agrees_bind (hright lower rfl _ hplace' (by simp only [hdepth])) ?_
      intro _ right s' _ _ hplace'' hdepth'
      have hthen := hlinks lower rfl (.binary operator.text left right) (chained + 1) s'
        (by omega) hplace'' hdepth'
      rwa [Nat.add_sub_add_right] at hthen

theorem agrees_cast {depth next : Nat} {operand : List Token} {p : Parser Expr}
    (hplace : s.place ≤ tokens.length)
    (hend : castEnd (lexemesOf tokens setting.stop) s.place = some next)
    (hdrop : tokens.drop next = operand) (hle : s.place ≤ next)
    (h : Agrees setting tokens
      (fun calls => do
        descend (sourceOf setting tokens)
        let _ ← (procedures (sourceOf setting tokens) calls).unary
        ascend 1
        fold .typeConversion (headLexeme (tokens.drop s.place) setting.stop).position)
      p { s with place := next } depth) :
    Agrees setting tokens (fun calls => (procedures (sourceOf setting tokens) calls).cast)
      (do Parser.resume operand; p) s depth := by
  refine agrees_call (agrees_peek hplace (agrees_step (fun calls => ?_) ?_ ?_ ?_ h))
  · have hjump : Act.run (modify fun state => { state with
        place := (castEnd (sourceOf setting tokens).lexemes state.place).getD state.place }) s =
        some (.ok (), { s with place := next }) := by
      show some (Except.ok (), { s with
        place := (castEnd (lexemesOf tokens setting.stop) s.place).getD s.place }) = _
      rw [hend, Option.getD_some]
    rw [Act.run_bind, hjump]
  · subst hdrop
    rfl
  · exact hle
  · rfl

theorem performs_unary {depth : Nat} (hbudget : setting.maxDepth - depth = budget)
    (hoperand : ∀ lower, budget = lower + 1 → Performs setting tokens (depth + 1)
      (fun calls => (procedures (sourceOf setting tokens) calls).unary) (Parser.unary lower))
    (hitem : Performs setting tokens depth
      (fun calls => (procedures (sourceOf setting tokens) calls).expression)
      (Parser.expression budget)) :
    Performs setting tokens depth (fun calls => (procedures (sourceOf setting tokens) calls).unary)
      (Parser.unary budget) := by
  intro s hplace hdepth
  rw [Parser.unary.eq_def]
  refine agrees_call (agrees_peek hplace (agrees_next? ?_))
  cases hoperator :
      (headLexeme (tokens.drop s.place) setting.stop).kind.bind Kind.unaryOperator? with
  | some operator =>
    obtain ⟨kind, hkind, -⟩ := Option.bind_eq_some_iff.1 hoperator
    have hplace' := lt_of_head hkind
    refine agrees_skip hplace' ?_
    cases budget with
    | zero => exact agrees_tooDeep hplace' (by simp only [hdepth]; omega)
    | succ lower =>
      refine agrees_descend hplace' (by simp only [hdepth]; omega) ?_
      refine agrees_bind (hoperand lower rfl _ hplace' (by simp only [hdepth])) ?_
      intro _ e s' _ _ hplace'' hdepth'
      exact agrees_ascend (by omega) (agrees_pure _ hplace'' (by simp only; omega))
  | none =>
    dsimp only
    refine agrees_position (agrees_conversion? (agrees_get ?_))
    cases hconversion : conversionAt? (tokens.drop s.place) with
    | some operand =>
      obtain ⟨hopen, next, hend, hdrop, hle, hnext⟩ := exists_castEnd setting.stop hconversion
      have hcast :
          (headLexeme (tokens.drop s.place) setting.stop).kind = some (.symbol .openParen) ∧
          (castEnd (sourceOf setting tokens).lexemes s.place).isSome = true := by
        refine ⟨hopen, ?_⟩
        show (castEnd (lexemesOf tokens setting.stop) s.place).isSome = true
        rw [hend]
        rfl
      simp only [hcast, and_self, if_true]
      refine agrees_cast hplace hend hdrop (Nat.le_of_lt hle) ?_
      cases budget with
      | zero => exact agrees_tooDeep hnext (by simp only [hdepth]; omega)
      | succ lower =>
        refine agrees_descend hnext (by simp only [hdepth]; omega) ?_
        refine agrees_bind (hoperand lower rfl _ hnext (by simp only [hdepth])) ?_
        intro _ _ s' _ _ hplace' hdepth'
        exact agrees_ascend (by omega) (agrees_fold _ _ hplace' (by simp only; omega))
    | none =>
      have hother :
          ¬ ((headLexeme (tokens.drop s.place) setting.stop).kind = some (.symbol .openParen) ∧
            (castEnd (sourceOf setting tokens).lexemes s.place).isSome = true) := by
        rintro ⟨hopen, hsome⟩
        have hnone : castEnd (sourceOf setting tokens).lexemes s.place = none :=
          castEnd_eq_none setting.stop hconversion hopen
        rw [hnone] at hsome
        cases hsome
      simp only [hother, if_false]
      refine agrees_bind
        (performs_primary hitem Parser.length_lt_of_reads_expression s hplace hdepth) ?_
      intro _ e s' _ _ hplace' hdepth'
      refine agrees_tokens ?_
      exact agrees_suffixes hitem Parser.length_lt_of_reads_expression _ e hplace' hdepth'
        (by rw [List.length_drop])

theorem performs_expression_zero {depth : Nat} (hbudget : setting.maxDepth ≤ depth) :
    Performs setting tokens depth
      (fun calls => (procedures (sourceOf setting tokens) calls).expression)
      (Parser.expression 0) := by
  intro s hplace hdepth
  rw [Parser.expression.eq_def]
  exact agrees_call (agrees_tooDeep hplace (by omega))

theorem performs_expression_succ {depth : Nat} (hbudget : setting.maxDepth - depth = budget + 1)
    (hcondition : Performs setting tokens (depth + 1)
      (fun calls => (procedures (sourceOf setting tokens) calls).binary 0) (Parser.binary 0 budget))
    (hbranch : Performs setting tokens (depth + 1)
      (fun calls => (procedures (sourceOf setting tokens) calls).expression)
      (Parser.expression budget)) :
    Performs setting tokens depth
      (fun calls => (procedures (sourceOf setting tokens) calls).expression)
      (Parser.expression (budget + 1)) := by
  intro s hplace hdepth
  rw [Parser.expression.eq_def]
  refine agrees_call (agrees_descend hplace (by omega) ?_)
  refine agrees_bind (hcondition _ hplace (by simp only [hdepth])) ?_
  intro _ condition s' _ _ hplace' hdepth'
  refine agrees_peek hplace' ?_
  by_cases hmark : (headLexeme (tokens.drop s'.place) setting.stop).kind = some (.symbol .question)
  · simp only [hmark, if_true]
    refine agrees_accept hmark (agrees_bind (hbranch _ (lt_of_head hmark) hdepth') ?_)
    intro _ ifTrue between _ _ hbetween hlevel
    refine agrees_expect hbetween fun hcolon => agrees_bind (hbranch _ hcolon hlevel) ?_
    intro _ ifFalse last _ _ hlast hlevel'
    exact agrees_ascend (by omega) (agrees_pure _ hlast (by simp only; omega))
  · simp only [hmark, if_false]
    refine agrees_decline hmark ?_
    exact agrees_ascend (by omega) (agrees_pure condition hplace' (by simp only; omega))

/-- The procedures of the levels do what the parsers of the levels do, with the budget that the open
    levels leave. -/
theorem performs (budget : Nat) :
    (∀ depth, setting.maxDepth - depth = budget → Performs setting tokens depth
      (fun calls => (procedures (sourceOf setting tokens) calls).expression)
      (Parser.expression budget)) ∧
    (∀ depth, setting.maxDepth - depth = budget → Performs setting tokens depth
      (fun calls => (procedures (sourceOf setting tokens) calls).unary) (Parser.unary budget)) ∧
    (∀ level, level < levelCount → ∀ depth, setting.maxDepth - depth = budget →
      PerformsChain setting tokens depth level budget) ∧
    ∀ level, level ≤ levelCount → ∀ depth, setting.maxDepth - depth = budget →
      Performs setting tokens depth
        (fun calls => (procedures (sourceOf setting tokens) calls).binary level)
        (Parser.binary level budget) := by
  refine Parser.levels_induction
    (E := fun budget => ∀ depth, setting.maxDepth - depth = budget → Performs setting tokens depth
      (fun calls => (procedures (sourceOf setting tokens) calls).expression)
      (Parser.expression budget))
    (U := fun budget => ∀ depth, setting.maxDepth - depth = budget → Performs setting tokens depth
      (fun calls => (procedures (sourceOf setting tokens) calls).unary) (Parser.unary budget))
    (C := fun level budget => ∀ depth, setting.maxDepth - depth = budget →
      PerformsChain setting tokens depth level budget)
    (B := fun level budget => ∀ depth, setting.maxDepth - depth = budget →
      Performs setting tokens depth
        (fun calls => (procedures (sourceOf setting tokens) calls).binary level)
        (Parser.binary level budget)) ?_ ?_ ?_ ?_ ?_ ?_ budget
  · exact fun depth hbudget => performs_expression_zero (by omega)
  · exact fun budget hoperand hitem depth hbudget =>
      performs_unary hbudget (fun lower hlower => hoperand lower hlower (depth + 1) (by omega))
        (hitem depth hbudget)
  · exact fun level budget _ hright hlinks depth hbudget =>
      performs_chain hbudget (fun lower hlower => hright lower hlower (depth + 1) (by omega))
        fun lower hlower => hlinks lower hlower (depth + 1) (by omega)
  · exact fun budget hunary depth hbudget => performs_binary_last (hunary depth hbudget)
  · exact fun level budget hlevel hfirst hlinks depth hbudget =>
      performs_binary hlevel (hfirst depth hbudget) (hlinks depth hbudget)
  · exact fun budget hcondition hbranch depth hbudget =>
      performs_expression_succ hbudget (hcondition (depth + 1) (by omega))
        (hbranch (depth + 1) (by omega))

theorem agrees_formula (hplace : s.place ≤ tokens.length) :
    Agrees setting tokens (formula (sourceOf setting tokens))
      (Parser.formula (setting.maxDepth - s.depth)) s s.depth := by
  unfold formula Parser.formula
  refine agrees_bind ((performs _).1 s.depth rfl s hplace rfl) fun _ e s' _ _ hplace' hdepth' => ?_
  refine agrees_peek hplace' (agrees_next? ?_)
  cases hkind : (headLexeme (tokens.drop s'.place) setting.stop).kind with
  | none => exact agrees_pure e hplace' hdepth'
  | some kind =>
    cases kind with
    | symbol symbol => cases symbol <;> exact agrees_throw _ _ hplace'
    | _ => exact agrees_throw _ _ hplace'

end Levels

end Procedures

end Cursor

end Formula
