import FragmentShapes.Proofs.Naming.Registry

/-!
# A registry as three indexes

A registry can be kept as three indexes: registrations under their paths, names under their scopes and
children under their parents. Each is written by itself, and a call that fails may have written to some of
them. `Indexes.apply_indexes`: the indexes of a registry take the same calls to the indexes of the registry
behind the call. `NameRegistry.agrees_indexes`: they give the same answers.
-/

namespace FragmentShapes

/-- A call that is to change a registry. -/
inductive NameRegistry.Change (σ : Type) where
  | register (name scope : String) (signature : σ)
  | relate (parent child : String)
  | reset

/-- What is registered and related, in three indexes. -/
structure Indexes (σ : Type) where
  byPath : KeyedList (Registration σ) := []
  byScope : KeyedList (List String) := []
  byParent : KeyedList (List String) := []

namespace Indexes

open NameRegistry

variable {σ : Type}

/-! ## Answers -/

def get? (x : Indexes σ) (name scope : String) : Option (Registration σ) :=
  KeyedList.get? x.byPath (qualify scope name)

def namesIn (x : Indexes σ) (scope : String) : List String := (KeyedList.get? x.byScope scope).getD []

def children (x : Indexes σ) (parent : String) : List String :=
  (KeyedList.get? x.byParent parent).getD []

def paths (x : Indexes σ) : List String := x.byPath.map Prod.fst

def scopes (x : Indexes σ) : List String := x.byScope.map Prod.fst

/-! ## Changes -/

variable [DecidableEq σ]

/-- Writes a new registration to two indexes; the error of a call comes with what the call leaves. -/
def register (x : Indexes σ) (name scope : String) (signature : σ) : Option NamingError × Indexes σ :=
  match x.get? name scope with
  | some existing =>
    if existing.signature = signature then (none, x) else (some (.collision name scope), x)
  | none =>
    let byPath := KeyedList.put (qualify scope name) ⟨name, scope, signature⟩ x.byPath
    let byScope := KeyedList.put scope (x.namesIn scope ++ [name]) x.byScope
    (none, { x with byPath, byScope })

def relate (x : Indexes σ) (parent child : String) : Option NamingError × Indexes σ :=
  if parent = "" ∨ child = "" then (some .emptyRelation, x)
  else if child ∈ x.children parent then (none, x)
  else (none, { x with byParent := KeyedList.put parent (x.children parent ++ [child]) x.byParent })

def apply (x : Indexes σ) : Change σ → Option NamingError × Indexes σ
  | .register name scope signature => x.register name scope signature
  | .relate parent child => x.relate parent child
  | .reset => (none, {})

/-- Nothing is written before a call can fail. -/
theorem eq_of_apply {x x' : Indexes σ} {c : Change σ} {e : NamingError}
    (h : x.apply c = (some e, x')) : x' = x := by
  cases c with
  | register name scope signature =>
    rw [apply, register] at h
    split at h
    · split at h <;> cases h
      rfl
    · cases h
  | relate parent child =>
    rw [apply, relate] at h
    split_ifs at h <;> cases h
    rfl
  | reset => cases h

end Indexes

namespace NameRegistry

variable {σ : Type}

/-- The indexes of a registry. -/
def indexes (r : NameRegistry σ) : Indexes σ where
  byPath := r.registrations.map fun g => (g.path, g)
  byScope := KeyedList.groupPairs (r.registrations.map fun g => (g.scope, g.name))
  byParent := KeyedList.groupPairs r.relations

/-- The indexes give the answers of the registry. -/
structure Agrees (r : NameRegistry σ) (x : Indexes σ) : Prop where
  get? : x.get? = r.get?
  namesIn : x.namesIn = r.namesIn
  children : x.children = r.children
  paths : x.paths = r.paths
  scopes : x.scopes = r.scopes

theorem get?_indexes (r : NameRegistry σ) : r.indexes.get? = r.get? := by
  funext name scope
  have hfind (registrations : List (Registration σ)) (path : String) :
      KeyedList.get? (registrations.map fun g => (g.path, g)) path =
        registrations.find? (·.path = path) := by
    induction registrations with
    | nil => rfl
    | cons g registrations ih =>
      rw [List.map_cons, KeyedList.get?_cons, List.find?_cons, ih]
      by_cases hpath : g.path = path <;> simp [hpath]
  exact hfind r.registrations (qualify scope name)

theorem namesIn_indexes (r : NameRegistry σ) : r.indexes.namesIn = r.namesIn := by
  funext scope
  rw [Indexes.namesIn, indexes, KeyedList.getD_groupPairs, KeyedList.valuesOf, List.filter_map, List.map_map]
  rfl

theorem children_indexes (r : NameRegistry σ) : r.indexes.children = r.children :=
  funext fun parent => KeyedList.getD_groupPairs r.relations parent

theorem agrees_indexes (r : NameRegistry σ) : r.Agrees r.indexes where
  get? := r.get?_indexes
  namesIn := r.namesIn_indexes
  children := r.children_indexes
  paths := by
    rw [Indexes.paths, indexes, List.map_map]
    rfl
  scopes := by
    rw [Indexes.scopes, indexes, KeyedList.map_fst_groupPairs, List.map_map]
    rfl

/-! ## Calls -/

variable [DecidableEq σ]

def apply (r : NameRegistry σ) : Change σ → Except NamingError (NameRegistry σ)
  | .register name scope signature => r.register name scope signature
  | .relate parent child => r.relate parent child
  | .reset => .ok empty

/-- The error of a call, if it fails. -/
def error? (r : NameRegistry σ) (c : Change σ) : Option NamingError :=
  match r.apply c with
  | .ok _ => none
  | .error e => some e

/-- The registry behind a call; one that fails leaves the registry that there was. -/
def after (r : NameRegistry σ) (c : Change σ) : NameRegistry σ :=
  match r.apply c with
  | .ok r' => r'
  | .error _ => r

theorem register_indexes (r : NameRegistry σ) (name scope : String) (signature : σ) :
    r.indexes.register name scope signature =
      (r.error? (.register name scope signature),
        (r.after (.register name scope signature)).indexes) := by
  rw [Indexes.register, error?, after, apply, register, get?_indexes]
  cases hget : r.get? name scope with
  | some existing =>
    dsimp only
    split_ifs <;> rfl
  | none =>
    have hnone : KeyedList.get? r.indexes.byPath (qualify scope name) = none :=
      (congrFun₂ r.get?_indexes name scope).trans hget
    dsimp only
    rw [KeyedList.put_of_get?_eq_none hnone, indexes, indexes, Indexes.namesIn, List.map_append, List.map_append,
      List.map_singleton, List.map_singleton, KeyedList.groupPairs_concat]
    rfl

theorem relate_indexes (r : NameRegistry σ) (parent child : String) :
    r.indexes.relate parent child =
      (r.error? (.relate parent child), (r.after (.relate parent child)).indexes) := by
  have hmem : child ∈ r.children parent ↔ (parent, child) ∈ r.relations := KeyedList.mem_valuesOf
  rw [Indexes.relate, error?, after, apply, relate, children_indexes]
  by_cases hempty : parent = "" ∨ child = ""
  · rw [if_pos hempty, if_pos hempty]
  · rw [if_neg hempty, if_neg hempty]
    by_cases hthere : child ∈ r.children parent
    · rw [if_pos hthere, if_pos (List.contains_iff_mem.2 (hmem.1 hthere))]
    · rw [if_neg hthere, if_neg fun hcontains => hthere (hmem.2 (List.contains_iff_mem.1 hcontains)),
        ← children_indexes, indexes, indexes, KeyedList.groupPairs_concat]
      rfl

/-- The indexes of a registry go with it through every call, and fail where it fails. -/
theorem apply_indexes (r : NameRegistry σ) (c : Change σ) :
    r.indexes.apply c = (r.error? c, (r.after c).indexes) := by
  cases c with
  | register name scope signature => exact r.register_indexes name scope signature
  | relate parent child => exact r.relate_indexes parent child
  | reset => rfl

end NameRegistry

end FragmentShapes
