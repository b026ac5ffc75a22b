import Formula.Registry
import Mathlib.Data.List.Dedup
import Mathlib.Data.String.Basic

set_option autoImplicit false

/-! # The history of a registry

What a registry answers is decided by the functions that have been handed to it since it was last
cleared: under each signature the first of them counts, and the others have been refused. So a
registry needs no view of its own. Every answer of a run is stated here on that list. -/

namespace Formula

/-! ## Registrations -/

/-- A function with what it is registered under: one that takes the list of its arguments, or one of
    a fixed number of arguments. -/
inductive Registration (σ : Type) where
  | listed (name : String) (arity : Nat) (f : HostFunction σ)
  | nullary (name : String) (f : σ → Except FunctionError Value × σ)
  | unary (name : String) (f : Value → σ → Except FunctionError Value × σ)
  | binary (name : String) (f : Value → Value → σ → Except FunctionError Value × σ)
  | ternary (name : String) (f : Value → Value → Value → σ → Except FunctionError Value × σ)

namespace Registration

variable {σ : Type}

/-- The signature that the function is for. -/
def signature : Registration σ → Signature
  | listed name arity _ => ⟨name, arity⟩
  | nullary name _ => ⟨name, 0⟩
  | unary name _ => ⟨name, 1⟩
  | binary name _ => ⟨name, 2⟩
  | ternary name _ => ⟨name, 3⟩

/-- The function on exactly as many arguments as it is for: each of them exists. -/
def apply : (g : Registration σ) → (arguments : List Value) → arguments.length = g.signature.arity →
    σ → Except FunctionError Value × σ
  | listed _ _ f, arguments, _ => f arguments
  | nullary _ f, _, _ => f
  | unary _ f, arguments, h =>
    have : arguments.length = 1 := h
    f arguments[0]
  | binary _ f, arguments, h =>
    have : arguments.length = 2 := h
    f arguments[0] arguments[1]
  | ternary _ f, arguments, h =>
    have : arguments.length = 3 := h
    f arguments[0] arguments[1] arguments[2]

/-- Hands the function to a registry. -/
def addTo (r : Registry σ) : Registration σ → Except RegistryError (Registry σ)
  | listed name arity f => r.register name arity f
  | nullary name f => r.registerNullary name f
  | unary name f => r.registerUnary name f
  | binary name f => r.registerBinary name f
  | ternary name f => r.registerTernary name f

/-- A registry that takes the function keeps one under its signature that does the same with as many
    arguments as the signature has. -/
theorem exists_stored (g : Registration σ) : ∃ f : HostFunction σ,
    (∀ r : Registry σ, g.addTo r = r.register g.signature.name g.signature.arity f) ∧
      ∀ arguments h, f arguments = g.apply arguments h := by
  cases g with
  | listed name arity f => exact ⟨f, fun _ => rfl, fun _ _ => rfl⟩
  | nullary name f =>
    refine ⟨_, fun _ => rfl, fun arguments h => ?_⟩
    obtain rfl := List.eq_nil_of_length_eq_zero h
    rfl
  | unary name f =>
    refine ⟨_, fun _ => rfl, fun arguments h => ?_⟩
    obtain ⟨a, rfl⟩ := List.length_eq_one_iff.1 h
    rfl
  | binary name f =>
    refine ⟨_, fun _ => rfl, fun arguments h => ?_⟩
    obtain ⟨a, b, rfl⟩ := List.length_eq_two.1 h
    rfl
  | ternary name f =>
    refine ⟨_, fun _ => rfl, fun arguments h => ?_⟩
    obtain ⟨a, b, c, rfl⟩ := List.length_eq_three.1 h
    rfl

/-- The first of these functions under a signature. -/
def first? (handed : List (Registration σ)) (key : Signature) : Option (Registration σ) :=
  handed.find? fun g => g.signature == key

theorem first?_append (handed : List (Registration σ)) (g : Registration σ) (key : Signature) :
    first? (handed ++ [g]) key =
      (first? handed key).or (if g.signature = key then some g else none) := by
  rw [first?, List.find?_append, List.find?_singleton]
  simp only [beq_iff_eq, first?]

theorem first?_eq_none_iff {handed : List (Registration σ)} {key : Signature} :
    first? handed key = none ↔ key ∉ handed.map signature := by
  simp [first?, List.find?_eq_none]

end Registration

/-! ## What a registry keeps -/

namespace Registry

variable {σ : Type} {r next : Registry σ} {handed : List (Registration σ)} {key : Signature}

theorem find?_eq_none_iff : r.find? key = none ↔ key ∉ r.signatures := by
  simp only [find?, signatures, List.lookup_eq_none_iff, bne_iff_ne, List.mem_map]
  grind

/-- A registered function is the one under its signature, unless there was one. -/
theorem find?_of_register {signature : Signature} {f : HostFunction σ}
    (h : r.register signature.name signature.arity f = .ok next) (key : Signature) :
    next.find? key = (r.find? key).or (if signature = key then some f else none) := by
  unfold register at h
  split at h
  · cases h
  · cases h
    rw [find?, List.lookup_append, List.lookup_cons]
    by_cases hsignature : signature = key
    · subst hsignature
      simp [find?]
    · have hne : (key == ⟨signature.name, signature.arity⟩) = false :=
        beq_false_of_ne (Ne.symm hsignature)
      simp [find?, hsignature, hne]

/-- Under every signature the registry has the first of the functions that have
    been handed to it. -/
def Keeps (r : Registry σ) (handed : List (Registration σ)) : Prop :=
  ∀ key, match Registration.first? handed key with
    | none => r.find? key = none
    | some g => ∃ f, r.find? key = some f ∧ ∀ arguments h, f arguments = g.apply arguments h

theorem keeps_empty : (empty : Registry σ).Keeps [] := fun _ => rfl

/-- The signatures of a registry are those of the functions that have been handed to it. -/
theorem Keeps.mem_signatures_iff (h : r.Keeps handed) :
    key ∈ r.signatures ↔ key ∈ handed.map Registration.signature := by
  have hkey := h key
  rw [← not_iff_not, ← find?_eq_none_iff, ← Registration.first?_eq_none_iff]
  cases hfirst : Registration.first? handed key with
  | none => simpa [hfirst] using hkey
  | some g =>
    rw [hfirst] at hkey
    obtain ⟨f, hfound, -⟩ := hkey
    simp [hfound]

/-- A function under a signature that is taken is refused. -/
theorem Keeps.addTo_of_mem (h : r.Keeps handed) {g : Registration σ}
    (htaken : g.signature ∈ handed.map Registration.signature) :
    g.addTo r = .error (.functionExists g.signature) ∧ r.Keeps (handed ++ [g]) := by
  obtain ⟨f, hadd, -⟩ := g.exists_stored
  refine ⟨?_, fun key => ?_⟩
  · rw [hadd, register, dif_pos (h.mem_signatures_iff.2 htaken)]
  · have hkey := h key
    rw [Registration.first?_append]
    split_ifs with hsignature
    · subst hsignature
      cases hfirst : Registration.first? handed g.signature with
      | none => exact absurd htaken (Registration.first?_eq_none_iff.1 hfirst)
      | some first => simpa [hfirst] using hkey
    · simpa using hkey

/-- A function under a signature that is free is taken. -/
theorem Keeps.addTo_of_not_mem (h : r.Keeps handed) {g : Registration σ}
    (hfree : g.signature ∉ handed.map Registration.signature) :
    ∃ next, g.addTo r = .ok next ∧ next.Keeps (handed ++ [g]) := by
  obtain ⟨f, hadd, hf⟩ := g.exists_stored
  have hnew : g.signature ∉ r.signatures := fun hmem => hfree (h.mem_signatures_iff.1 hmem)
  obtain ⟨next, hnext⟩ : ∃ next, r.register g.signature.name g.signature.arity f = .ok next :=
    ⟨_, dif_neg hnew⟩
  refine ⟨next, by rw [hadd, hnext], fun key => ?_⟩
  have hkey := h key
  rw [Registration.first?_append, find?_of_register hnext]
  cases hfirst : Registration.first? handed key with
  | none =>
    rw [hfirst] at hkey
    split_ifs with hsignature
    · exact ⟨f, by simp [hkey], hf⟩
    · simp [hkey]
  | some first =>
    rw [hfirst] at hkey
    obtain ⟨f, hfound, hf⟩ := hkey
    exact ⟨f, by simp [hfound], hf⟩

/-- A registry has as many functions as there are signatures of functions handed to it. -/
theorem Keeps.size_eq (h : r.Keeps handed) :
    r.size = (handed.map Registration.signature).dedup.length := by
  have hperm : r.signatures.Perm (handed.map Registration.signature).dedup := by
    refine (List.perm_ext_iff_of_nodup r.distinct (List.nodup_dedup _)).2 fun key => ?_
    rw [List.mem_dedup]
    exact h.mem_signatures_iff
  rw [← hperm.length_eq, signatures, List.length_map, size]

/-- A call with a signature runs the first function that has been handed over under it. -/
theorem Keeps.invoke_eq (h : r.Keeps handed) (name : String) (arguments : List Value) (state : σ) :
    match Registration.first? handed ⟨name, arguments.length⟩ with
    | none => r.invoke name arguments state = (.error (.unknown name arguments.length), state)
    | some g => ∃ hlength, r.invoke name arguments state = g.apply arguments hlength state := by
  have hkey := h ⟨name, arguments.length⟩
  unfold invoke
  cases hfirst : Registration.first? handed ⟨name, arguments.length⟩ with
  | none =>
    rw [hfirst] at hkey
    simp [hkey, HostFunction.unknown]
  | some g =>
    rw [hfirst] at hkey
    obtain ⟨f, hfound, hf⟩ := hkey
    have hsignature : g.signature = ⟨name, arguments.length⟩ := by
      simpa using List.find?_some hfirst
    have hlength : arguments.length = g.signature.arity := by rw [hsignature]
    exact ⟨hlength, by rw [hfound, Option.getD_some, hf arguments hlength]⟩

/-! ## Listing -/

theorem before_trans (a b c : Signature) (hab : a.before b = true) (hbc : b.before c = true) :
    a.before c = true := by
  simp only [Signature.before, Bool.or_eq_true, decide_eq_true_eq, Bool.and_eq_true, beq_iff_eq]
    at hab hbc ⊢
  rcases hab with hab | ⟨hab, hab'⟩ <;> rcases hbc with hbc | ⟨hbc, hbc'⟩
  · exact .inl (lt_trans hab hbc)
  · exact .inl (hbc ▸ hab)
  · exact .inl (hab ▸ hbc)
  · exact .inr ⟨hab.trans hbc, hab'.trans hbc'⟩

theorem before_total (a b : Signature) : (a.before b || b.before a) = true := by
  simp only [Signature.before, Bool.or_eq_true, decide_eq_true_eq, Bool.and_eq_true, beq_iff_eq]
  rcases lt_trichotomy a.name b.name with h | h | h
  · exact .inl (.inl h)
  · rcases Nat.le_total a.arity b.arity with h' | h'
    · exact .inl (.inr ⟨h, h'⟩)
    · exact .inr (.inr ⟨h.symm, h'⟩)
  · exact .inr (.inl h)

/-- The text lists each signature of the functions handed over once, in order. -/
theorem Keeps.describe_eq (h : r.Keeps handed) : ∃ keys : List Signature,
    keys.Nodup ∧ keys.Pairwise (fun a b => a.before b = true) ∧
      (∀ key, key ∈ keys ↔ key ∈ handed.map Registration.signature) ∧
      r.describe = "FunctionRegistry \x7b functions: [" ++
        String.intercalate ", " (keys.map Signature.describe) ++ "] \x7d" := by
  have hperm := r.signatures.mergeSort_perm Signature.before
  refine ⟨r.signatures.mergeSort Signature.before, hperm.nodup_iff.2 r.distinct,
    List.pairwise_mergeSort before_trans before_total _, fun key => ?_, rfl⟩
  rw [hperm.mem_iff]
  exact h.mem_signatures_iff

/-! ## Requests and answers -/

/-- What can be asked of a registry. -/
inductive Request (σ : Type) where
  | register (g : Registration σ)
  | clear
  | contains (name : String) (arity : Nat)
  | size
  | isEmpty
  | invoke (name : String) (arguments : List Value)
  | call (name : String) (arguments : List Value)
  | describe

/-- What a registry answers. -/
inductive Answer where
  | registered (result : Except RegistryError Unit)
  | cleared
  | truth (b : Bool)
  | count (n : Nat)
  | result (result : Except FunctionError Value)
  | text (text : String)

/-- A registry and the state of its functions. -/
structure Session (σ : Type) where
  registry : Registry σ
  state : σ

/-- The answer to a request, and the session after it. A call is an invocation
    in the role of a resolver. -/
def Session.reply (s : Session σ) : Request σ → Answer × Session σ
  | .register g =>
    match g.addTo s.registry with
    | .ok registry => (.registered (.ok ()), { s with registry })
    | .error e => (.registered (.error e), s)
  | .clear => (.cleared, { s with registry := s.registry.clear })
  | .contains name arity => (.truth (s.registry.contains name arity), s)
  | .size => (.count s.registry.size, s)
  | .isEmpty => (.truth s.registry.isEmpty, s)
  | .invoke name arguments | .call name arguments =>
    let (result, state) := s.registry.invoke name arguments s.state
    (.result result, { s with state })
  | .describe => (.text s.registry.describe, s)

/-- The answers to requests that are made one after the other. -/
def Session.run (s : Session σ) : List (Request σ) → List Answer
  | [] => []
  | q :: qs =>
    let (answer, s) := s.reply q
    answer :: s.run qs

section Requests

variable (handed : List (Registration σ))

/-- What has been handed over since the last clearing, when `handed` was before this request. -/
def Request.behind : Request σ → List (Registration σ)
  | .register g => handed ++ [g]
  | .clear => []
  | _ => handed

/-- What the answer must be, and the state of the functions behind it, when `handed` have been
    handed over since the last clearing. -/
def Request.Permits (state : σ) (answer : Answer) (state' : σ) : Request σ → Prop
  | .register g => state' = state ∧ answer = .registered
      (if g.signature ∈ handed.map Registration.signature then .error (.functionExists g.signature)
        else .ok ())
  | .clear => state' = state ∧ answer = .cleared
  | .contains name arity =>
    state' = state ∧ answer = .truth (decide (⟨name, arity⟩ ∈ handed.map Registration.signature))
  | .size => state' = state ∧ answer = .count (handed.map Registration.signature).dedup.length
  | .isEmpty => state' = state ∧
      answer = .truth (decide ((handed.map Registration.signature).dedup.length = 0))
  | .invoke name arguments | .call name arguments =>
    match Registration.first? handed ⟨name, arguments.length⟩ with
    | none => state' = state ∧ answer = .result (.error (.unknown name arguments.length))
    | some g => ∃ hlength result, g.apply arguments hlength state = (result, state') ∧
        answer = .result result
  | .describe => state' = state ∧ ∃ keys : List Signature,
      keys.Nodup ∧ keys.Pairwise (fun a b => a.before b = true) ∧
        (∀ key, key ∈ keys ↔ key ∈ handed.map Registration.signature) ∧
        answer = .text ("FunctionRegistry \x7b functions: [" ++
          String.intercalate ", " (keys.map Signature.describe) ++ "] \x7d")

/-- The answers to requests that are made one after the other are all permitted. -/
def Permitted (handed : List (Registration σ)) (state : σ) : List (Request σ) → List Answer → Prop
  | [], answers => answers = []
  | q :: qs, answers => ∃ answer state' others, q.Permits handed state answer state' ∧
      Permitted (q.behind handed) state' qs others ∧ answers = answer :: others

end Requests

variable {s : Session σ}

theorem isEmpty_eq (r : Registry σ) : r.isEmpty = decide (r.size = 0) := by
  rw [isEmpty, size]
  cases r.entries <;> simp

/-- A reply is permitted, and the registry keeps what has been handed over. -/
theorem Keeps.reply (h : s.registry.Keeps handed) (q : Request σ) :
    q.Permits handed s.state (s.reply q).1 (s.reply q).2.state ∧
      (s.reply q).2.registry.Keeps (q.behind handed) := by
  cases q with
  | register g =>
    by_cases hmem : g.signature ∈ handed.map Registration.signature
    · obtain ⟨hrefused, hkeeps⟩ := h.addTo_of_mem hmem
      simp only [Session.reply, hrefused]
      exact ⟨⟨rfl, by rw [if_pos hmem]⟩, hkeeps⟩
    · obtain ⟨next, htaken, hkeeps⟩ := h.addTo_of_not_mem hmem
      simp only [Session.reply, htaken]
      exact ⟨⟨rfl, by rw [if_neg hmem]⟩, hkeeps⟩
  | clear => exact ⟨⟨rfl, rfl⟩, keeps_empty⟩
  | contains name arity =>
    refine ⟨⟨rfl, ?_⟩, h⟩
    simp only [Session.reply, contains, List.contains_eq_mem, h.mem_signatures_iff]
  | size => exact ⟨⟨rfl, by rw [← h.size_eq]; rfl⟩, h⟩
  | isEmpty => exact ⟨⟨rfl, by rw [← h.size_eq, ← isEmpty_eq]; rfl⟩, h⟩
  | invoke name arguments | call name arguments =>
    refine ⟨?_, h⟩
    have hinvoke := h.invoke_eq name arguments s.state
    simp only [Session.reply, Request.Permits]
    cases hfirst : Registration.first? handed ⟨name, arguments.length⟩ with
    | none =>
      rw [hfirst] at hinvoke
      simp only at hinvoke
      simp [hinvoke]
    | some g =>
      rw [hfirst] at hinvoke
      obtain ⟨hlength, hinvoke⟩ := hinvoke
      exact ⟨hlength, _, hinvoke.symm, rfl⟩
  | describe =>
    obtain ⟨keys, hnodup, hsorted, hmem, htext⟩ := h.describe_eq
    exact ⟨⟨rfl, keys, hnodup, hsorted, hmem, by rw [← htext]; rfl⟩, h⟩

/-! ## Runs -/

/-- The session behind requests that are made one after the other. -/
def Session.behind (s : Session σ) (qs : List (Request σ)) : Session σ :=
  qs.foldl (fun s q => (s.reply q).2) s

theorem run_append (before after : List (Request σ)) :
    s.run (before ++ after) = s.run before ++ (s.behind before).run after := by
  induction before generalizing s with
  | nil => rfl
  | cons q before ih => simp [Session.run, Session.behind, ih]

theorem length_run (qs : List (Request σ)) : (s.run qs).length = qs.length := by
  induction qs generalizing s with
  | nil => rfl
  | cons q qs ih => simp [Session.run, ih]

/-- All replies of a run are permitted. -/
theorem Keeps.permitted_run (h : s.registry.Keeps handed) (qs : List (Request σ)) :
    Permitted handed s.state qs (s.run qs) := by
  induction qs generalizing s handed with
  | nil => rfl
  | cons q qs ih =>
    obtain ⟨hpermits, hkeeps⟩ := h.reply q
    exact ⟨_, _, _, hpermits, ih hkeeps, rfl⟩

/-- Behind a run the registry keeps what has been handed over in it. -/
theorem Keeps.behind (h : s.registry.Keeps handed) (qs : List (Request σ)) :
    (s.behind qs).registry.Keeps (qs.foldl Request.behind handed) := by
  induction qs generalizing s handed with
  | nil => exact h
  | cons q qs ih => exact ih (h.reply q).2

/-- Whatever is asked of a new registry, every answer is the one that the functions handed over
    since the last clearing permit: the first one under each signature is registered and called,
    on exactly its arguments, and the others are refused. Without a request that is refused, all
    later answers are the same. -/
theorem run_permitted (state : σ) (qs : List (Request σ)) :
    Permitted [] state qs (Session.run ⟨empty, state⟩ qs) ∧
      ∀ before g after, qs = before ++ .register g :: after →
        g.signature ∈ (before.foldl Request.behind []).map Registration.signature →
        ∃ answers others, answers.length = before.length ∧
          Session.run ⟨empty, state⟩ qs =
            answers ++ .registered (.error (.functionExists g.signature)) :: others ∧
          Session.run ⟨empty, state⟩ (before ++ after) = answers ++ others := by
  have hempty : (⟨empty, state⟩ : Session σ).registry.Keeps [] := keeps_empty
  refine ⟨hempty.permitted_run qs, ?_⟩
  rintro before g after rfl htaken
  obtain ⟨hrefused, -⟩ := (hempty.behind before).addTo_of_mem htaken
  refine ⟨_, _, length_run before, ?_, run_append before after⟩
  rw [run_append]
  simp only [Session.run, Session.reply, hrefused]

/-- A second function of one argument, handed over in another form. The first one is listed once. -/
theorem run_permitted_refused :
    let first : Registration Nat := .unary "f" fun a count => (.ok a, count + 1)
    let second : Registration Nat :=
      .listed "f" 1 fun _ count => (.error (.invalid "second"), count)
    let call : Request Nat := .call "f" [.boolean true]
    second.signature ∈
        ([.register first, call].foldl Request.behind []).map Registration.signature ∧
      ∃ answers others, answers.length = 2 ∧
        Session.run ⟨empty, 0⟩ [.register first, call, .register second, call, .size, .describe] =
          answers ++ .registered (.error (.functionExists ⟨"f", 1⟩)) :: others ∧
        Session.run ⟨empty, 0⟩ [.register first, call, call, .size, .describe] =
          answers ++ others ∧
        others.getLast? = some (.text "FunctionRegistry \x7b functions: [(\"f\", 1)] \x7d") := by
  intro first second call
  have htaken : second.signature ∈
      ([.register first, call].foldl Request.behind []).map Registration.signature :=
    List.mem_singleton.2 rfl
  obtain ⟨answers, others, hlength, hrefused, hwithout⟩ :=
    (run_permitted 0 _).2 [.register first, call] second [call, .size, .describe] rfl htaken
  refine ⟨htaken, answers, others, hlength, hrefused, hwithout, ?_⟩
  have hothers : (Session.run ⟨empty, 0⟩ [.register first, call, call, .size, .describe]).drop 2 =
      others :=
    (congrArg (List.drop 2) hwithout).trans (List.drop_left' hlength)
  rw [← hothers]
  refine congrArg (fun text => some (Answer.text text)) (?_ : Registry.describe _ = _)
  decide +kernel

end Registry

end Formula
