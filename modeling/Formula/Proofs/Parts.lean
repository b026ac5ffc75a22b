import Formula.Expr.Collect
import Formula.Proofs.Preorder

set_option autoImplicit false

/-! # A tree and its parts

A walk comes to a tree and to all that a walk of one of its parts comes to. What has to be shown of
every tree may be shown of one whose parts have it already, whatever its kind. -/

namespace Formula.Expr

/-! ## Induction -/

theorem size_le_sizeAll {part : Expr} {es : List Expr} (h : part ∈ es) :
    part.size ≤ sizeAll es := by
  induction es with
  | nil => cases h
  | cons e es ih =>
    rw [sizeAll]
    rcases List.mem_cons.1 h with rfl | h
    · omega
    · have hothers := ih h
      omega

theorem size_lt_of_mem_parts {part e : Expr} (h : part ∈ e.parts) : part.size < e.size := by
  have hparts := size_le_sizeAll h
  rw [e.size_eq]
  omega

/-- What holds of a tree whenever it holds of its parts holds of every tree. -/
theorem induction_parts {P : Expr → Prop} (step : ∀ e : Expr, (∀ part ∈ e.parts, P part) → P e)
    (e : Expr) : P e :=
  step e fun part _ => induction_parts step part
  termination_by e.size
  decreasing_by exact size_lt_of_mem_parts ‹_›

/-! ## The nodes of a tree -/

theorem mem_preorderAll_iff {node : Expr} {es : List Expr} :
    node ∈ preorderAll es ↔ ∃ part ∈ es, node ∈ part.preorder := by
  induction es with
  | nil => simp [preorderAll]
  | cons e es ih => simp [preorderAll, ih]

/-- A walk comes to the tree itself and to the nodes of its parts. -/
theorem mem_nodes_iff {node e : Expr} :
    node ∈ e.nodes ↔ node = e ∨ ∃ part ∈ e.parts, node ∈ part.nodes := by
  simp only [nodes_eq_preorder]
  rw [preorder_eq, List.mem_cons, mem_preorderAll_iff]

theorem mem_nodes_self (e : Expr) : e ∈ e.nodes :=
  mem_nodes_iff.2 (.inl rfl)

theorem mem_nodes_of_part {node part e : Expr} (hpart : part ∈ e.parts) (h : node ∈ part.nodes) :
    node ∈ e.nodes :=
  mem_nodes_iff.2 (.inr ⟨part, hpart, h⟩)

/-- What holds of every node of a tree holds of the tree itself and of every node of its parts. -/
theorem forall_nodes_iff {P : Expr → Prop} {e : Expr} :
    (∀ node ∈ e.nodes, P node) ↔ P e ∧ ∀ part ∈ e.parts, ∀ node ∈ part.nodes, P node := by
  constructor
  · intro h
    exact ⟨h e e.mem_nodes_self, fun part hpart node hnode =>
      h node (mem_nodes_of_part hpart hnode)⟩
  · rintro ⟨hself, hparts⟩ node hnode
    rcases mem_nodes_iff.1 hnode with rfl | ⟨part, hpart, hnode⟩
    · exact hself
    · exact hparts part hpart node hnode

/-! ## What is collected -/

theorem filterMap_preorderAll {β : Type} (f : Expr → Option β) (es : List Expr) :
    (preorderAll es).filterMap f = es.flatMap fun e => e.nodes.filterMap f := by
  induction es with
  | nil => rfl
  | cons e es ih =>
    rw [preorderAll, List.filterMap_append, ih, List.flatMap_cons, nodes_eq_preorder]

/-- What is collected from a tree is what the tree itself adds, and then what is collected from its
    parts. -/
theorem filterMap_nodes {β : Type} (f : Expr → Option β) (e : Expr) :
    e.nodes.filterMap f = (f e).toList ++ e.parts.flatMap fun part => part.nodes.filterMap f := by
  rw [nodes_eq_preorder, preorder_eq, ← filterMap_preorderAll, List.filterMap_cons]
  cases f e <;> rfl

theorem mem_distinct_iff {seen names : List String} {name : String} :
    name ∈ distinct seen names ↔ name ∈ names ∧ name ∉ seen := by
  fun_induction distinct seen names with
  | case1 => simp
  | case2 seen first names hseen ih =>
    have hfirst : first ∈ seen := List.contains_iff_mem.1 hseen
    grind
  | case3 seen first names hnew ih =>
    have hfirst : first ∉ seen := fun h => hnew (List.contains_iff_mem.2 h)
    grind

/-- The parameters are those that a walk comes to. -/
theorem mem_parameters_iff {e : Expr} {name : String} :
    name ∈ e.parameters ↔ .parameter name ∈ e.nodes := by
  have hname (node : Expr) : node.parameterName? = some name ↔ node = .parameter name := by
    cases node <;> simp [parameterName?]
  simp [parameters, mem_distinct_iff, hname]

/-- The explanations are those of the unsupported parts that a walk comes to. -/
theorem mem_unsupportedParts_iff {e : Expr} {explanation : String} :
    explanation ∈ e.unsupportedParts ↔ .unsupported explanation ∈ e.nodes := by
  have hexplanation (node : Expr) :
      node.explanation? = some explanation ↔ node = .unsupported explanation := by
    cases node <;> simp [explanation?]
  simp [unsupportedParts, hexplanation]

end Formula.Expr
