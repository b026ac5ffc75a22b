import Formula.Proofs.Lex

set_option autoImplicit false

/-! # The bytes of a text

A place in a text is a number of bytes, and a piece of the text can be cut out only between
places that are not inside a character. All the bytes of a character that is not ASCII are
above ASCII, so one that looks for ASCII characters byte by byte finds each of them where it
stands, and nothing else. -/

namespace Formula.Bytes

open Token (byteLength byteLength_append byteLength_toList eq_ofList_append utf8ByteSize_ofList)

/-! ## Looking at bytes and cutting between them -/

/-- The byte at a place, as the character with its number. -/
def peek (text : String) (i : Nat) : Option Char :=
  text.toByteArray.data[i]?.map fun byte => Char.ofNat byte.toNat

theorem lt_of_peek_eq_some {text : String} {i : Nat} {c : Char} (h : peek text i = some c) :
    i < text.utf8ByteSize := by
  obtain ⟨byte, hbyte, -⟩ := Option.map_eq_some_iff.1 h
  exact (Array.getElem?_eq_some_iff.1 hbyte).1

theorem lt_of_any_peek {text : String} {i : Nat} {p : Char → Bool}
    (h : (peek text i).any p = true) :
    i < text.utf8ByteSize := by
  obtain ⟨c, hpeek, -⟩ := (Option.any_eq_true p _).1 h
  exact lt_of_peek_eq_some hpeek

/-- Whether a place is not inside a character. -/
def IsBoundary (text : String) (i : Nat) : Prop := (⟨i⟩ : String.Pos.Raw).IsValid text

instance (text : String) (i : Nat) : Decidable (IsBoundary text i) :=
  inferInstanceAs (Decidable (String.Pos.Raw.IsValid text ⟨i⟩))

/-- The piece of a text between two places; `none` if they are not in order, or one of them is
    behind the text or inside a character. -/
def slice? (text : String) (start stop : Nat) : Option String :=
  if h : IsBoundary text start ∧ IsBoundary text stop ∧ start ≤ stop then
    some (text.slice ⟨⟨start⟩, h.1⟩ ⟨⟨stop⟩, h.2.1⟩ h.2.2).copy
  else
    none

theorem IsBoundary.le {text : String} {i : Nat} (h : IsBoundary text i) : i ≤ text.utf8ByteSize :=
  String.Pos.Raw.le_iff.1 (String.Pos.Raw.IsValid.le_rawEndPos h)

theorem isBoundary_append (front behind : String) :
    IsBoundary (front ++ behind) front.utf8ByteSize :=
  String.Pos.Raw.isValid_iff_exists_append.2 ⟨front, behind, rfl, rfl⟩

theorem slice?_append (front piece behind : String) :
    slice? (front ++ piece ++ behind) front.utf8ByteSize (front.utf8ByteSize + piece.utf8ByteSize) =
      some piece := by
  have hstart : IsBoundary (front ++ piece ++ behind) front.utf8ByteSize := by
    rw [String.append_assoc]
    exact isBoundary_append front (piece ++ behind)
  have hstop : IsBoundary (front ++ piece ++ behind) (front.utf8ByteSize + piece.utf8ByteSize) := by
    rw [← String.utf8ByteSize_append]
    exact isBoundary_append (front ++ piece) behind
  rw [slice?, dif_pos ⟨hstart, hstop, Nat.le_add_right _ _⟩, Option.some.injEq,
    ← String.toByteArray_inj, String.toByteArray_copy_slice]
  show (front ++ piece ++ behind).toByteArray.extract front.utf8ByteSize
    (front.utf8ByteSize + piece.utf8ByteSize) = piece.toByteArray
  rw [String.toByteArray_append, String.toByteArray_append, ByteArray.append_assoc,
    ← String.size_toByteArray, ← String.size_toByteArray, ← Nat.add_zero front.toByteArray.size,
    Nat.add_assoc, Nat.zero_add, ByteArray.extract_append_size_add,
    ByteArray.extract_append_eq_left rfl]

/-! ## The bytes of characters -/

/-- The bytes that characters are written with, each as the character with its number. -/
def ofChars (cs : List Char) : List Char :=
  cs.flatMap fun c => (String.utf8EncodeChar c).map fun byte => Char.ofNat byte.toNat

theorem peek_eq (text : String) (i : Nat) : peek text i = (ofChars text.toList)[i]? := by
  have hbytes : text.toByteArray.data.toList = text.toList.flatMap String.utf8EncodeChar := by
    rw [← String.utf8Encode_toList, List.utf8Encode, List.data_toByteArray]
  rw [peek, ofChars, ← Array.getElem?_toList, hbytes, ← List.getElem?_map, List.map_flatMap]

theorem ofChars_append (cs ds : List Char) : ofChars (cs ++ ds) = ofChars cs ++ ofChars ds :=
  List.flatMap_append

theorem length_ofChars (cs : List Char) : (ofChars cs).length = byteLength cs := by
  induction cs with
  | nil => rfl
  | cons c cs ih =>
    rw [byteLength, ← ih, ofChars, List.flatMap_cons, List.length_append, List.length_map,
      String.length_utf8EncodeChar]
    rfl

theorem toNat_ofNat_byte (byte : UInt8) : (Char.ofNat byte.toNat).toNat = byte.toNat := by
  have hbyte : byte.toNat.isValidChar := .inl (by have := byte.toNat_lt; omega)
  rw [Char.ofNat, dif_pos hbyte]
  rfl

theorem ofChars_singleton (c : Char) :
    ofChars [c] = (String.utf8EncodeChar c).map fun byte => Char.ofNat byte.toNat := by
  rw [ofChars, List.flatMap_singleton]

theorem ofChars_ascii {c : Char} (h : c.toNat < 128) : ofChars [c] = [c] := by
  have hval : c.val.toNat ≤ 0x7f := Nat.le_of_lt_succ h
  rw [ofChars_singleton, String.utf8EncodeChar, if_pos hval, List.map_singleton,
    UInt8.toNat_ofNat', Nat.mod_eq_of_lt (by omega)]
  exact congrArg (fun d => [d]) (Char.ofNat_toNat c)

theorem utf8Size_ascii {c : Char} (h : c.toNat < 128) : c.utf8Size = 1 := by
  have hlength := length_ofChars [c]
  rw [ofChars_ascii h] at hlength
  exact hlength.symm

theorem le_toNat_of_mem_ofChars {c byte : Char} (h : 128 ≤ c.toNat) (hbyte : byte ∈ ofChars [c]) :
    128 ≤ byte.toNat := by
  rw [ofChars_singleton] at hbyte
  obtain ⟨byte, hmem, rfl⟩ := List.mem_map.1 hbyte
  rw [toNat_ofNat_byte]
  have hval : ¬ c.val.toNat ≤ 0x7f := Nat.not_le_of_lt h
  rw [String.utf8EncodeChar, if_neg hval] at hmem
  split at hmem
  · simp only [List.mem_cons, List.not_mem_nil, or_false] at hmem
    rcases hmem with rfl | rfl <;> rw [UInt8.toNat_ofNat'] <;> omega
  · split at hmem
    · simp only [List.mem_cons, List.not_mem_nil, or_false] at hmem
      rcases hmem with rfl | rfl | rfl <;> rw [UInt8.toNat_ofNat'] <;> omega
    · simp only [List.mem_cons, List.not_mem_nil, or_false] at hmem
      rcases hmem with rfl | rfl | rfl | rfl <;> rw [UInt8.toNat_ofNat'] <;> omega

/-! ## Classes of ASCII characters -/

/-- A class that only ASCII characters belong to. -/
def Ascii (p : Char → Bool) : Prop := ∀ c, p c = true → c.toNat < 128

theorem ascii_eq {d : Char} (h : d.toNat < 128) : Ascii (· == d) := by
  intro c hc
  rw [eq_of_beq hc]
  exact h

theorem ascii_or {p q : Char → Bool} (hp : Ascii p) (hq : Ascii q) : Ascii fun c => p c || q c :=
  fun c hc => (Bool.or_eq_true_iff.1 hc).elim (hp c) (hq c)

theorem ascii_of_le {p : Char → Bool} {d : Char} (hd : d.toNat < 128)
    (h : ∀ c, p c = true → c.val ≤ d.val) : Ascii p :=
  fun c hc => Nat.lt_of_le_of_lt (UInt32.le_iff_toNat_le.1 (h c hc)) hd

theorem ascii_isDigit : Ascii Char.isDigit :=
  ascii_of_le (d := '9') (by decide) fun c hc => by
    simp only [Char.isDigit, Bool.and_eq_true, decide_eq_true_eq] at hc
    exact hc.2

theorem ascii_isAlpha : Ascii Char.isAlpha :=
  ascii_of_le (d := 'z') (by decide) fun c hc => by
    rcases Token.isAlpha_iff.1 hc with ⟨-, hle⟩ | ⟨-, hle⟩
    · exact UInt32.le_trans hle (by decide)
    · exact hle

theorem ascii_isNameStart : Ascii Token.isNameStart := ascii_or ascii_isAlpha (ascii_eq (by decide))

theorem ascii_isWordChar : Ascii Numeral.isWordChar :=
  ascii_or (ascii_or ascii_isAlpha ascii_isDigit) (ascii_eq (by decide))

theorem ascii_isHexDigit : Ascii Numeral.isHexDigit := by
  refine ascii_or (ascii_or ascii_isDigit (ascii_of_le (d := 'f') (by decide) ?_))
    (ascii_of_le (d := 'F') (by decide) ?_)
  · intro c hc
    simp only [Bool.and_eq_true, decide_eq_true_eq] at hc
    exact hc.2
  · intro c hc
    simp only [Bool.and_eq_true, decide_eq_true_eq] at hc
    exact hc.2

theorem ascii_isSuffix : Ascii Numeral.isSuffix := by
  intro c hc
  rw [Numeral.isSuffix, List.contains_iff_mem] at hc
  have hall : ['m', 'M', 'd', 'D', 'f', 'F', 'l', 'L', 'u', 'U'].all (·.toNat < 128) = true := by
    decide
  exact of_decide_eq_true (List.all_eq_true.1 hall c hc)

theorem ascii_isExponentMark : Ascii Decimal.isExponentMark :=
  ascii_or (ascii_eq (by decide)) (ascii_eq (by decide))

theorem ascii_isBlank : Ascii isBlank :=
  ascii_or (ascii_or (ascii_or (ascii_or (ascii_eq (by decide)) (ascii_eq (by decide)))
    (ascii_eq (by decide))) (ascii_eq (by decide))) (ascii_eq (by decide))

/-! ## Places in a text -/

/-- What stands from a place on, which is not inside a character. -/
def At (text : String) (i : Nat) (rest : List Char) : Prop :=
  ∃ front, text.toList = front ++ rest ∧ byteLength front = i

theorem at_zero (text : String) : At text 0 text.toList := ⟨[], rfl, rfl⟩

theorem at_end (text : String) : At text text.utf8ByteSize [] :=
  ⟨text.toList, (List.append_nil _).symm, byteLength_toList text⟩

namespace At

variable {text : String} {i : Nat} {front rest : List Char}

theorem behind (h : At text i (front ++ rest)) : At text (i + byteLength front) rest := by
  obtain ⟨before, htext, rfl⟩ := h
  exact ⟨before ++ front, by rw [htext, List.append_assoc], byteLength_append before front⟩

theorem tail {c : Char} (h : At text i (c :: rest)) : At text (i + c.utf8Size) rest :=
  behind (show At text i ([c] ++ rest) from h)

theorem tail_ascii {c : Char} (hc : c.toNat < 128) (h : At text i (c :: rest)) :
    At text (i + 1) rest := by
  rw [← utf8Size_ascii hc]
  exact h.tail

theorem drop_isPrefix {part : List Char} (hpart : part <+: rest) (h : At text i rest) :
    At text (i + byteLength part) (rest.drop part.length) := by
  obtain ⟨left, rfl⟩ := hpart
  rw [List.drop_left]
  exact h.behind

theorem add_byteLength (h : At text i rest) : i + byteLength rest = text.utf8ByteSize := by
  obtain ⟨before, htext, rfl⟩ := h
  rw [← byteLength_toList, htext, byteLength_append]

theorem slice? (h : At text i (front ++ rest)) :
    Bytes.slice? text i (i + byteLength front) = some (String.ofList front) := by
  obtain ⟨before, htext, rfl⟩ := h
  obtain rfl := eq_ofList_append htext
  rw [← utf8ByteSize_ofList, ← utf8ByteSize_ofList, String.ofList_append, ← String.append_assoc]
  exact slice?_append _ _ _

theorem slice?_isPrefix {part : List Char} (hpart : part <+: rest) (h : At text i rest) :
    Bytes.slice? text i (i + byteLength part) = some (String.ofList part) := by
  obtain ⟨left, rfl⟩ := hpart
  exact h.slice?

theorem slice?_rest (h : At text i rest) :
    Bytes.slice? text i text.utf8ByteSize = some (String.ofList rest) := by
  rw [← h.add_byteLength]
  exact h.slice?_isPrefix (List.prefix_refl rest)

theorem isBoundary (h : At text i rest) : IsBoundary text i := by
  obtain ⟨before, htext, rfl⟩ := h
  obtain rfl := eq_ofList_append htext
  rw [← utf8ByteSize_ofList]
  exact isBoundary_append _ _

/-! ## Bytes at a place -/

theorem peek_add (h : At text i rest) (k : Nat) : peek text (i + k) = (ofChars rest)[k]? := by
  obtain ⟨before, htext, rfl⟩ := h
  rw [peek_eq, htext, ofChars_append, ← length_ofChars,
    List.getElem?_append_right (Nat.le_add_right _ k), Nat.add_sub_cancel_left]

theorem peek_nil (h : At text i []) : peek text i = none := h.peek_add 0

/-- Each byte of a character is that character, or both are above ASCII. -/
theorem exists_peek {c : Char} (h : At text i (c :: rest)) {k : Nat} (hk : k < c.utf8Size) :
    ∃ byte, peek text (i + k) = some byte ∧ (byte = c ∨ 128 ≤ byte.toNat ∧ 128 ≤ c.toNat) := by
  have hlength : k < (ofChars [c]).length := by
    rw [length_ofChars]
    exact hk
  obtain ⟨byte, hbyte⟩ : ∃ byte, (ofChars [c])[k]? = some byte :=
    ⟨_, List.getElem?_eq_getElem hlength⟩
  refine ⟨byte, ?_, ?_⟩
  · rw [h.peek_add, ← List.singleton_append, ofChars_append,
      List.getElem?_append_left hlength, hbyte]
  · have hmem := List.mem_of_getElem? hbyte
    by_cases hc : c.toNat < 128
    · rw [ofChars_ascii hc] at hmem
      exact .inl (List.mem_singleton.1 hmem)
    · have hc := Nat.le_of_not_lt hc
      exact .inr ⟨le_toNat_of_mem_ofChars hc hmem, hc⟩

/-- What passes over each byte of a character passes over the character. -/
theorem pass_char {β : Type} {c : Char} (f : Nat → β) (h : At text i (c :: rest))
    (hf : ∀ j byte, peek text j = some byte → (byte = c ∨ 128 ≤ byte.toNat) → f j = f (j + 1)) :
    f i = f (i + c.utf8Size) := by
  have hpass : ∀ n ≤ c.utf8Size, f i = f (i + n) := by
    intro n hn
    induction n with
    | zero => rfl
    | succ n ih =>
      obtain ⟨byte, hpeek, hbyte⟩ := h.exists_peek hn
      rw [ih (Nat.le_of_succ_le hn), hf _ byte hpeek (hbyte.imp_right And.left), Nat.add_assoc]
  exact hpass _ (Nat.le_refl _)

/-- The byte at a place is the character there, or both are above ASCII. -/
theorem peek_cases (h : At text i rest) :
    peek text i = rest.head? ∨ ∃ byte c, peek text i = some byte ∧ rest.head? = some c ∧
      128 ≤ byte.toNat ∧ 128 ≤ c.toNat := by
  match rest with
  | [] => exact .inl h.peek_nil
  | c :: rest =>
    obtain ⟨byte, hpeek, rfl | ⟨hbyte, hc⟩⟩ := h.exists_peek c.utf8Size_pos
    · exact .inl hpeek
    · exact .inr ⟨byte, c, hpeek, rfl, hbyte, hc⟩

/-- What is found for no byte above ASCII is found for the byte as for the character. -/
theorem peek_bind {α : Type} {f : Char → Option α} (hf : ∀ c, 128 ≤ c.toNat → f c = none)
    (h : At text i rest) : (peek text i).bind f = rest.head?.bind f := by
  rcases h.peek_cases with heq | ⟨byte, c, hpeek, hhead, hbyte, hc⟩
  · rw [heq]
  · rw [hpeek, hhead, Option.bind_some, Option.bind_some, hf byte hbyte, hf c hc]

/-- The byte is of a class of ASCII characters exactly if the character is. -/
theorem any_peek {p : Char → Bool} (hp : Ascii p) (h : At text i rest) :
    (peek text i).any p = rest.head?.any p := by
  have hfalse : ∀ c : Char, 128 ≤ c.toNat → p c = false :=
    fun c hc => Bool.eq_false_iff.2 fun htrue => Nat.not_lt_of_le hc (hp c htrue)
  rcases h.peek_cases with heq | ⟨byte, c, hpeek, hhead, hbyte, hc⟩
  · rw [heq]
  · rw [hpeek, hhead, Option.any_some, Option.any_some, hfalse byte hbyte, hfalse c hc]

/-- The byte is a certain ASCII character exactly if the character is. -/
theorem peek_eq_some_iff {c : Char} (hc : c.toNat < 128) (h : At text i rest) :
    peek text i = some c ↔ rest.head? = some c := by
  rcases h.peek_cases with heq | ⟨byte, d, hpeek, hhead, hbyte, hd⟩
  · rw [heq]
  · rw [hpeek, hhead, Option.some.injEq, Option.some.injEq]
    constructor <;> rintro rfl <;> omega

end At

end Formula.Bytes
