import Formula.Resolver
import Formula.Text.Escape

set_option autoImplicit false

/-! # Function registries

A registry keeps functions by name and number of arguments, so `Max(a, b)` and `Max(a, b, c)` can be
registered side by side. A key is registered at most once: that is a field of the type. -/

namespace Formula

/-- What a function is registered under. -/
structure Signature where
  name : String
  arity : Nat
  deriving DecidableEq, Inhabited

/-- Order of signatures: by name, then by number of arguments. -/
def Signature.before (a b : Signature) : Bool :=
  decide (a.name < b.name) || (a.name == b.name && decide (a.arity ≤ b.arity))

/-- A signature as a quoted name and a number. -/
def Signature.describe (s : Signature) : String :=
  "(" ++ quoteText s.name ++ ", " ++ toString s.arity ++ ")"

/-- Functions by signature, in the order in which they were registered. -/
structure Registry (σ : Type) where
  entries : List (Signature × HostFunction σ)
  distinct : (entries.map Prod.fst).Nodup

/-- Why a function was not registered. -/
inductive RegistryError where
  | functionExists (signature : Signature)
  deriving DecidableEq

/-- The text of the error. -/
def RegistryError.message : RegistryError → String
  | functionExists signature =>
    "function already exists: " ++ signature.name ++ "/" ++ toString signature.arity

namespace Registry

variable {σ : Type}

/-- The registry without functions. -/
def empty : Registry σ := ⟨[], List.nodup_nil⟩

instance : Inhabited (Registry σ) := ⟨empty⟩

/-! ## Looking up -/

/-- The registered signatures. -/
def signatures (r : Registry σ) : List Signature := r.entries.map Prod.fst

/-- Whether a function is registered under this name for this number of arguments. -/
def contains (r : Registry σ) (name : String) (arity : Nat) : Bool :=
  r.signatures.contains ⟨name, arity⟩

/-- The function registered under a signature. -/
def find? (r : Registry σ) (signature : Signature) : Option (HostFunction σ) :=
  r.entries.lookup signature

/-- The number of registered functions. -/
def size (r : Registry σ) : Nat := r.entries.length

/-- Whether no function is registered. -/
def isEmpty (r : Registry σ) : Bool := r.entries.isEmpty

/-- Calls the function registered under the name for this number of arguments. -/
def invoke (r : Registry σ) : Resolver σ := fun name arguments =>
  ((r.find? ⟨name, arguments.length⟩).getD (HostFunction.unknown name)) arguments

/-! ## Registering -/

/-- A signature that is still free stays distinct from the others when it is added. -/
theorem nodup_append_entry {entries : List (Signature × HostFunction σ)} {signature : Signature}
    (f : HostFunction σ) (distinct : (entries.map Prod.fst).Nodup)
    (free : signature ∉ entries.map Prod.fst) :
    ((entries ++ [(signature, f)]).map Prod.fst).Nodup := by
  rw [List.map_append, List.nodup_append]
  refine ⟨distinct, by simp, ?_⟩
  intro a ha b hb
  simp only [List.map_cons, List.map_nil, List.mem_singleton] at hb
  rintro rfl
  exact free (hb ▸ ha)

/-- Adds a function under a signature that is still free. -/
def register (r : Registry σ) (name : String) (arity : Nat) (f : HostFunction σ) :
    Except RegistryError (Registry σ) :=
  if h : ⟨name, arity⟩ ∈ r.signatures then
    .error (.functionExists ⟨name, arity⟩)
  else
    .ok ⟨r.entries ++ [(⟨name, arity⟩, f)], nodup_append_entry f r.distinct h⟩

/-- Adds a function of no arguments. -/
def registerNullary (r : Registry σ) (name : String)
    (f : σ → Except FunctionError Value × σ) : Except RegistryError (Registry σ) :=
  r.register name 0 fun arguments =>
    match arguments with
    | [] => f
    | _ => HostFunction.unknown name arguments

/-- Adds a function of one argument. -/
def registerUnary (r : Registry σ) (name : String)
    (f : Value → σ → Except FunctionError Value × σ) : Except RegistryError (Registry σ) :=
  r.register name 1 fun arguments =>
    match arguments with
    | [a] => f a
    | _ => HostFunction.unknown name arguments

/-- Adds a function of two arguments. -/
def registerBinary (r : Registry σ) (name : String)
    (f : Value → Value → σ → Except FunctionError Value × σ) : Except RegistryError (Registry σ) :=
  r.register name 2 fun arguments =>
    match arguments with
    | [a, b] => f a b
    | _ => HostFunction.unknown name arguments

/-- Adds a function of three arguments. -/
def registerTernary (r : Registry σ) (name : String)
    (f : Value → Value → Value → σ → Except FunctionError Value × σ) :
    Except RegistryError (Registry σ) :=
  r.register name 3 fun arguments =>
    match arguments with
    | [a, b, c] => f a b c
    | _ => HostFunction.unknown name arguments

/-- Removes all functions. -/
def clear (_ : Registry σ) : Registry σ := empty

/-! ## Listing -/

/-- The registry's signatures in order. -/
def describe (r : Registry σ) : String :=
  "FunctionRegistry \x7b functions: [" ++
    String.intercalate ", " ((r.signatures.mergeSort Signature.before).map Signature.describe) ++
    "] \x7d"

end Registry

end Formula
