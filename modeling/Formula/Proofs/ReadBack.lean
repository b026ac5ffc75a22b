import Formula.Eval
import Formula.Proofs.StringNumber

set_option autoImplicit false

/-! # Displayed numbers are read back

A number is written as its magnitude, behind a minus if it has one. In a formula the minus is
an operator that negates the magnitude, in a string it belongs to the number; both ways the
number is read back with its mantissa and its scale. What is displayed of a number is its
normal form, so reading gives that. -/

namespace Formula

open Token Grammar

namespace Decimal

variable (d : Decimal)

/-! ## Reading as a string -/

/-- White space around a written number is ignored. -/
theorem trim_write {before after : List Char} (hbefore : ∀ c ∈ before, isWhiteSpace c = true)
    (hafter : ∀ c ∈ after, isWhiteSpace c = true) :
    trim (before ++ (d.write.toList ++ after)) = d.write.toList := by
  refine trim_append hbefore hafter (forall_mem_write (fun _ => isWhiteSpace_of_isDigit) rfl rfl) ?_
  simp [toList_write_eq, d.whole_ne_nil]

/-! ## Reading as a formula -/

/-- The tree of the text that the number is written as. -/
def tree : Expr :=
  if d.negative then .unary Symbol.minus.text (.constant (.number d.magnitude))
  else .constant (.number d.magnitude)

theorem lexes_signed : Lexes d.write.toList
    (if d.negative then [.symbol .minus, .number d.magnitude] else [.number d.magnitude]) := by
  have hmagnitude : Lexes d.magnitude.write.toList [.number d.magnitude] := lexes_write rfl
  rw [toList_write_magnitude]
  cases d.negative with
  | false => exact hmagnitude
  | true => exact .single rfl hmagnitude

/-- A written number is parsed to its magnitude, behind a minus if there is one. -/
theorem parse_write : parse d.write = .ok d.tree := by
  obtain ⟨tokens, htokens, hkinds⟩ := d.lexes_signed
  have hvalue : Derivation (.unary (.constant (.number d.magnitude))) [.number d.magnitude] [] := by
    refine .value (fun operand h => ?_) (.number d.magnitude []) (.bare _ [])
    cases h.head?_eq
  have hunary : Nonempty (Derivation (.unary d.tree) (tokens.map Token.kind) []) := by
    rw [hkinds, tree]
    cases d.negative with
    | false => exact ⟨hvalue⟩
    | true => exact ⟨.prefixed .minus (by decide) hvalue⟩
  have hlength : tokens.length ≤ 256 := by
    rw [← List.length_map (f := Token.kind), hkinds]
    cases d.negative <;> simp
  obtain ⟨unary⟩ := hunary
  obtain ⟨whole⟩ := unary.nonempty_expression
  exact parseWith_of_derivation htokens hlength whole

theorem evaluate_tree {σ : Type} (bindings : Bindings) (resolver : Resolver σ) :
    d.tree.evaluate bindings resolver = pure (.number d) := by
  obtain ⟨negative, mantissa, scale, hmantissa, hscale⟩ := d
  cases negative with
  | false => rfl
  | true => rfl

/-- A formula that is a written number has the number for its value, and calls nothing. -/
theorem eval_write {σ : Type} (bindings : Bindings) (resolver : Resolver σ) (state : σ) :
    eval d.write bindings resolver state = (.ok (.number d), state) := by
  have hparse : parseWith {} d.write = .ok d.tree := d.parse_write
  rw [eval, evalWith, hparse]
  dsimp only
  rw [d.evaluate_tree bindings resolver]
  rfl

/-! ## Displayed numbers -/

/-- The displayed text of a number is read back as the same number, whether it is evaluated as a
    formula or converted as a string with white space around. -/
theorem read_display :
    (Value.number d.normalize).same (.number d) = true ∧
      (∀ {σ : Type} (bindings : Bindings) (resolver : Resolver σ) (state : σ),
        eval (Value.number d).display bindings resolver state =
          (.ok (.number d.normalize), state)) ∧
      ∀ before after : String, (∀ c ∈ before.toList ++ after.toList, isWhiteSpace c = true) →
        (Value.string (before ++ (Value.number d).display ++ after)).toDecimal =
          .ok d.normalize := by
  refine ⟨same_iff_value_eq.2 d.value_normalize, d.normalize.eval_write,
    fun before after hwhite => ?_⟩
  have htrim :
      trim (before ++ (Value.number d).display ++ after).toList = d.normalize.write.toList := by
    rw [String.toList_append, String.toList_append, List.append_assoc]
    exact d.normalize.trim_write (fun c hc => hwhite c (List.mem_append_left _ hc))
      (fun c hc => hwhite c (List.mem_append_right _ hc))
  rw [Value.toDecimal_string_eq_ok_iff, htrim]
  exact readChars?_write d.isNormal_normalize.sign

theorem read_display_negative :
    (Value.number ⟨true, 1250, 2, by decide, by decide⟩).display = "-12.5" ∧
      (∀ c ∈ "\t".toList ++ "\n ".toList, isWhiteSpace c = true) ∧
      eval "-12.5" Bindings.none (fun _ _ calls => (.ok (.boolean true), calls + 1)) 0 =
        (.ok (.number ⟨true, 125, 1, by decide, by decide⟩), 0) ∧
      (Value.string ("\t" ++ "-12.5" ++ "\n ")).toDecimal =
        .ok ⟨true, 125, 1, by decide, by decide⟩ := by
  have hwhite : ∀ c ∈ "\t".toList ++ "\n ".toList, isWhiteSpace c = true := List.all_eq_true.1 rfl
  have hdisplay : (Value.number ⟨true, 1250, 2, by decide, by decide⟩).display = "-12.5" := by
    decide +kernel
  obtain ⟨-, heval, hstring⟩ := read_display ⟨true, 1250, 2, by decide, by decide⟩
  rw [hdisplay] at heval hstring
  exact ⟨hdisplay, hwhite, heval _ _ 0, hstring _ _ hwhite⟩

end Decimal

end Formula
