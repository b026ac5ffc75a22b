import Formula.Proofs.Parts
import Mathlib.Data.List.Basic

set_option autoImplicit false

/-! # The order of the parameters

Going through a tree, a caller meets some names again and again. Of each the first occurrence
counts, and so it makes no difference whether names that were met before are left out at once, or
first in every part of the tree by itself and then in what the parts have together. -/

namespace Formula.Expr

/-! ## Leaving out what was met before -/

variable {seen before names names' : List String} {name : String}

theorem distinct_of_mem (h : name ∈ seen) (names : List String) :
    distinct seen (name :: names) = distinct seen names :=
  if_pos (List.contains_iff_mem.2 h)

theorem distinct_of_not_mem (h : name ∉ seen) (names : List String) :
    distinct seen (name :: names) = name :: distinct (name :: seen) names :=
  if_neg fun hcontains => h (List.contains_iff_mem.1 hcontains)

/-- With nothing met before, what is left out are the repetitions. -/
theorem distinct_nil_eq (names : List String) : distinct [] names = names.eraseDups := by
  have hgeneral (seen : List String) :
      distinct seen names = (names.filter fun name => !seen.contains name).eraseDups := by
    fun_induction distinct seen names with
    | case1 => rfl
    | case2 seen name names h ih => rw [ih, List.filter_cons_of_neg (by simpa using h)]
    | case3 seen name names h ih =>
      rw [ih, List.filter_cons_of_pos (by simpa using h), List.eraseDups_cons, List.filter_filter]
      simp only [List.contains_cons, Bool.not_or]
  simpa using hgeneral []

/-- Every name stands behind those that occur before it. -/
theorem pairwise_distinct (seen names : List String) :
    (distinct seen names).Pairwise fun a b => names.idxOf a < names.idxOf b := by
  -- a name in front that is none of these moves all of them by one
  have hbehind {first : String} {seen names : List String} (hfirst : first ∈ seen)
      (h : (distinct seen names).Pairwise fun a b => names.idxOf a < names.idxOf b) :
      (distinct seen names).Pairwise fun a b =>
        (first :: names).idxOf a < (first :: names).idxOf b := by
    have hne {name : String} (hname : name ∈ distinct seen names) : first ≠ name := by
      rintro rfl
      exact (mem_distinct_iff.1 hname).2 hfirst
    refine h.imp_of_mem fun {a b} ha hb hlt => ?_
    rw [List.idxOf_cons_ne _ (hne ha), List.idxOf_cons_ne _ (hne hb)]
    exact Nat.succ_lt_succ hlt
  fun_induction distinct seen names with
  | case1 => exact .nil
  | case2 seen first names hseen ih => exact hbehind (List.contains_iff_mem.1 hseen) ih
  | case3 seen first names hnew ih =>
    refine .cons (fun name hname => ?_) (hbehind List.mem_cons_self ih)
    have hne : first ≠ name := by
      rintro rfl
      exact (mem_distinct_iff.1 hname).2 List.mem_cons_self
    rw [List.idxOf_cons_self, List.idxOf_cons_ne _ hne]
    exact Nat.succ_pos _

theorem nodup_distinct (seen names : List String) : (distinct seen names).Nodup :=
  (pairwise_distinct seen names).imp fun hlt heq => absurd (heq ▸ hlt) (Nat.lt_irrefl _)

/-! ## Names of several trees -/

/-- Names may be left out of the first ones beforehand if they are left out later anyway. -/
theorem distinct_distinct_append (h : before ⊆ seen) :
    distinct seen (distinct before names ++ names') = distinct seen (names ++ names') := by
  induction names generalizing before seen with
  | nil => rfl
  | cons name names ih =>
    by_cases hbefore : name ∈ before
    · rw [distinct_of_mem hbefore, List.cons_append, distinct_of_mem (h hbefore), ih h]
    · rw [distinct_of_not_mem hbefore, List.cons_append, List.cons_append]
      by_cases hseen : name ∈ seen
      · rw [distinct_of_mem hseen, distinct_of_mem hseen, ih (List.cons_subset.2 ⟨hseen, h⟩)]
      · rw [distinct_of_not_mem hseen, distinct_of_not_mem hseen, ih (List.cons_subset_cons name h)]

/-- Lists of which the same is left whatever was met before are interchangeable
    behind other names. -/
theorem distinct_append_congr (h : ∀ seen, distinct seen names = distinct seen names')
    (front : List String) : distinct seen (front ++ names) = distinct seen (front ++ names') := by
  induction front generalizing seen with
  | nil => exact h seen
  | cons name front ih =>
    rw [List.cons_append, List.cons_append]
    by_cases hname : name ∈ seen
    · rw [distinct_of_mem hname, distinct_of_mem hname, ih]
    · rw [distinct_of_not_mem hname, distinct_of_not_mem hname, ih]

theorem distinct_flatMap {α : Type} (f : α → List String) (items : List α) :
    distinct seen (items.flatMap fun item => distinct [] (f item)) =
      distinct seen (items.flatMap f) := by
  induction items generalizing seen with
  | nil => rfl
  | cons item items ih =>
    rw [List.flatMap_cons, List.flatMap_cons, distinct_distinct_append (List.nil_subset seen)]
    exact distinct_append_congr (fun _ => ih) (f item)

/-- The parameters of a tree that is none itself are those of its parts. -/
theorem parameters_eq_of_parts {e : Expr} (h : ∀ name, e ≠ .parameter name) :
    e.parameters = (e.parts.flatMap parameters).eraseDups := by
  have hself : e.parameterName? = none := by
    cases e with
    | parameter name => exact absurd rfl (h name)
    | _ => rfl
  rw [parameters, filterMap_nodes, hself, Option.toList_none, List.nil_append, ← distinct_nil_eq,
    ← distinct_flatMap]
  rfl

/-- **The parameters of a tree in their order.** Each name stands there once, and a name stands
    there exactly if a parameter of the tree has it. They are in the order in which they occur first
    in the preorder. For every tree that is not a parameter itself the list is that of its parts one
    after the other, without what has stood there before. -/
theorem parameters_in_order (e : Expr) :
    let occurrences := e.preorder.filterMap parameterName?
    e.parameters.Nodup ∧
      (∀ name, name ∈ e.parameters ↔ .parameter name ∈ e.preorder) ∧
      (e.parameters.Pairwise fun a b => occurrences.idxOf a < occurrences.idxOf b) ∧
      ((∀ name, e ≠ .parameter name) → e.parameters = (e.parts.flatMap parameters).eraseDups) := by
  intro occurrences
  have hoccurrences : e.parameters = distinct [] occurrences := by
    rw [parameters, nodes_eq_preorder]
  refine ⟨?_, fun name => ?_, ?_, parameters_eq_of_parts⟩
  · rw [hoccurrences]
    exact nodup_distinct [] occurrences
  · rw [mem_parameters_iff, nodes_eq_preorder]
  · rw [hoccurrences]
    exact pairwise_distinct [] occurrences

/-- A call whose arguments share parameters. -/
theorem parameters_in_order_of_call :
    let e : Expr := .call "f" [.binary "+" (.parameter "b") (.parameter "a"), .parameter "b",
      .conditional (.parameter "c") (.parameter "a") (.parameter "b")]
    (∀ name, e ≠ .parameter name) ∧ e.parameters = (e.parts.flatMap parameters).eraseDups ∧
      e.parameters = ["b", "a", "c"] := by
  intro e
  have hother (name : String) : e ≠ .parameter name := by simp [e]
  obtain ⟨-, -, -, hparts⟩ := parameters_in_order e
  refine ⟨hother, hparts hother, ?_⟩
  rw [parameters, nodes_eq_preorder]
  decide

end Formula.Expr
