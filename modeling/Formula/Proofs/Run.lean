import Formula.Parser.Grammar

set_option autoImplicit false

/-! # Successful runs of a parser

`Parser.Reads` says that a parser succeeds, what it reads, what it leaves and what it folds on the
way. Every combinator has one lemma here that takes such a run apart, so that the body of a parser
can be read as a statement about the tokens in front of it. -/

namespace Formula.Parser

variable {α β : Type} {setting : Setting} {tokens rest : List Token} {folds : List Fold}

/-- On `tokens` the parser reads `a`, leaves `rest` and folds `folds`. -/
def Reads (p : Parser α) (setting : Setting) (tokens : List Token) (folds : List Fold) (a : α)
    (rest : List Token) : Prop :=
  p setting tokens = ⟨folds, .ok (a, rest)⟩

@[simp]
theorem reads_pure {a b : α} :
    (pure a : Parser α).Reads setting tokens folds b rest ↔ folds = [] ∧ a = b ∧ tokens = rest := by
  show (⟨[], .ok (a, tokens)⟩ : Reply α) = ⟨folds, .ok (b, rest)⟩ ↔ _
  grind

theorem reads_bind {p : Parser α} {f : α → Parser β} {b : β} :
    (p >>= f).Reads setting tokens folds b rest ↔
      ∃ before a middle after, p.Reads setting tokens before a middle ∧
        (f a).Reads setting middle after b rest ∧ folds = before ++ after := by
  show Parser.bind p f setting tokens = _ ↔ _
  unfold Reads Parser.bind
  rcases hp : p setting tokens with ⟨before, e | ⟨a, middle⟩⟩
  · simp
  · rcases hf : f a setting middle with ⟨after, result⟩
    grind

/-- A parser whose result is only changed at the end. -/
theorem reads_bind_pure {p : Parser α} {f : α → β} {b : β} :
    (p >>= fun a => pure (f a)).Reads setting tokens folds b rest ↔
      ∃ a, p.Reads setting tokens folds a rest ∧ f a = b := by
  rw [reads_bind]
  constructor
  · rintro ⟨before, a, middle, after, hp, hf, rfl⟩
    obtain ⟨rfl, rfl, rfl⟩ := reads_pure.1 hf
    exact ⟨a, by simpa using hp, rfl⟩
  · rintro ⟨a, hp, rfl⟩
    exact ⟨folds, a, rest, [], hp, reads_pure.2 ⟨rfl, rfl, rfl⟩, by simp⟩

/-- A run of one parser and then of another, in the order of their tokens. -/
theorem reads_bind_congr {p : Parser α} {f : α → Parser β} {b : β}
    {Then : α → List Token → List Fold → Prop}
    (h : ∀ a middle after, (f a).Reads setting middle after b rest ↔ Then a middle after) :
    (p >>= f).Reads setting tokens folds b rest ↔
      ∃ before a middle after, p.Reads setting tokens before a middle ∧ Then a middle after ∧
        folds = before ++ after := by
  simp only [reads_bind, h]

/-! ## Looking ahead -/

@[simp]
theorem reads_next?_bind {f : Option Token.Kind → Parser β} {b : β} :
    (next? >>= f).Reads setting tokens folds b rest ↔
      (f (tokens.head?.map Token.kind)).Reads setting tokens folds b rest :=
  Iff.rfl

@[simp]
theorem reads_tokens_bind {f : List Token → Parser β} {b : β} :
    (Parser.tokens >>= f).Reads setting tokens folds b rest ↔
      (f tokens).Reads setting tokens folds b rest :=
  Iff.rfl

@[simp]
theorem reads_position_bind {f : Nat → Parser β} {b : β} :
    (position >>= f).Reads setting tokens folds b rest ↔
      (f ((tokens.head?.map Token.position).getD setting.stop)).Reads setting tokens folds b rest :=
  Iff.rfl

/-! ## Acting -/

@[simp]
theorem reads_skip_bind {n : Nat} {f : Unit → Parser β} {b : β} :
    (skip n >>= f).Reads setting tokens folds b rest ↔
      (f ()).Reads setting (tokens.drop n) folds b rest :=
  Iff.rfl

@[simp]
theorem reads_resume_bind {next : List Token} {f : Unit → Parser β} {b : β} :
    (resume next >>= f).Reads setting tokens folds b rest ↔
      (f ()).Reads setting next folds b rest :=
  Iff.rfl

@[simp]
theorem not_reads_fail {cause : ParseError.Cause} {a : α} :
    ¬ (fail cause : Parser α).Reads setting tokens folds a rest := by
  simp [Reads, fail]

@[simp]
theorem not_reads_tooDeep {a : α} :
    ¬ (tooDeep : Parser α).Reads setting tokens folds a rest := by
  simp [Reads, tooDeep, fail]

@[simp]
theorem reads_accept_bind {symbol : Symbol} {f : Bool → Parser β} {b : β} :
    (accept symbol >>= f).Reads setting tokens folds b rest ↔
      if tokens.head?.map Token.kind = some (.symbol symbol) then
        (f true).Reads setting (tokens.drop 1) folds b rest
      else (f false).Reads setting tokens folds b rest := by
  show Parser.bind (fun setting tokens => (if tokens.head?.map Token.kind = some (.symbol symbol)
    then _ else _ : Parser Bool) setting tokens) f setting tokens = _ ↔ _
  unfold Parser.bind
  by_cases h : tokens.head?.map Token.kind = some (.symbol symbol)
  · simp only [h, if_true]
    exact Iff.rfl
  · simp only [h, if_false]
    exact Iff.rfl

@[simp]
theorem reads_expect_bind {symbol : Symbol} {f : Unit → Parser β} {b : β} :
    (expect symbol >>= f).Reads setting tokens folds b rest ↔
      tokens.head?.map Token.kind = some (.symbol symbol) ∧
        (f ()).Reads setting (tokens.drop 1) folds b rest := by
  have hexpect : ∀ {before : List Fold} {u : Unit} {middle : List Token},
      (expect symbol).Reads setting tokens before u middle ↔
        tokens.head?.map Token.kind = some (.symbol symbol) ∧ before = [] ∧
          middle = tokens.drop 1 := by
    intro before u middle
    unfold expect
    rw [reads_accept_bind]
    split <;> grind [reads_pure, reads_next?_bind, not_reads_fail]
  rw [reads_bind]
  constructor
  · rintro ⟨before, u, middle, after, hp, hf, rfl⟩
    obtain ⟨hs, rfl, rfl⟩ := hexpect.1 hp
    exact ⟨hs, hf⟩
  · rintro ⟨hs, hf⟩
    exact ⟨[], (), tokens.drop 1, folds, hexpect.2 ⟨hs, rfl, rfl⟩, hf, rfl⟩

/-! ## Folding -/

@[simp]
theorem reads_fold {construct : Construct} {start : Nat} {e : Expr} :
    (fold construct start).Reads setting tokens folds e rest ↔
      folds = [⟨construct, start⟩] ∧ e = .unsupported construct.explanation ∧ rest = tokens := by
  simp only [Reads, fold, Reply.mk.injEq, Except.ok.injEq, Prod.mk.injEq]
  grind

@[simp]
theorem reads_fold_bind {construct : Construct} {start : Nat} {f : Expr → Parser β} {b : β} :
    (fold construct start >>= f).Reads setting tokens folds b rest ↔
      ∃ after, (f (.unsupported construct.explanation)).Reads setting tokens after b rest ∧
        folds = ⟨construct, start⟩ :: after := by
  rw [reads_bind]
  simp only [reads_fold]
  constructor
  · rintro ⟨before, e, middle, after, ⟨rfl, rfl, rfl⟩, hf, rfl⟩
    exact ⟨after, hf, rfl⟩
  · rintro ⟨after, hf, rfl⟩
    exact ⟨_, _, _, after, ⟨rfl, rfl, rfl⟩, hf, rfl⟩

end Formula.Parser
