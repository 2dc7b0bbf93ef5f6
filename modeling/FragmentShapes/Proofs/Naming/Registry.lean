import FragmentShapes.Naming.Registry
import FragmentShapes.Proofs.KeyedList
import Mathlib.Data.List.Nodup
import Mathlib.Tactic.Common

/-!
# What registering does

`NameRegistry.signature?` is all that later registrations depend on. Registering adds one signature
under its path, or finds it there; it fails exactly where the path has another one. `register_cases` and
`relate_cases` say all that a call that succeeds does.
-/

namespace FragmentShapes.NameRegistry

variable {σ : Type}

/-- The signature that is registered under a path. -/
def signature? (r : NameRegistry σ) (path : String) : Option σ := (r.atPath? path).map (·.signature)

theorem signature?_append (r : NameRegistry σ) (registration : Registration σ) (path : String) :
    signature? { r with registrations := r.registrations ++ [registration] } path =
      (r.signature? path).or
        (if registration.path = path then some registration.signature else none) := by
  rw [signature?, atPath?, List.find?_append, signature?, atPath?]
  cases r.registrations.find? (·.path = path) with
  | some _ => rfl
  | none => by_cases h : registration.path = path <;> simp [h]

variable {r r' : NameRegistry σ}

theorem mem_of_get? {name scope : String} {g : Registration σ} (h : r.get? name scope = some g) :
    g ∈ r.registrations ∧ g.path = qualify scope name :=
  ⟨List.mem_of_find?_eq_some h, by simpa using List.find?_some h⟩

/-- Where paths are distinct, a registration is the one under its path. -/
theorem get?_of_mem (hpaths : r.paths.Nodup) {g : Registration σ} (hg : g ∈ r.registrations) :
    r.get? g.name g.scope = some g := by
  cases hget : r.get? g.name g.scope with
  | none => exact absurd (decide_eq_true rfl) (List.find?_eq_none.1 hget g hg)
  | some other =>
    obtain ⟨hother, hpath⟩ := mem_of_get? hget
    rw [List.inj_on_of_nodup_map hpaths hother hg hpath]

/-- A relation that is recorded is there already, or comes behind the others. -/
theorem relate_cases {parent child : String} (h : r.relate parent child = .ok r') :
    (parent ≠ "" ∧ child ≠ "") ∧ ((parent, child) ∈ r.relations ∧ r' = r ∨
      (parent, child) ∉ r.relations ∧ r' = { r with relations := r.relations ++ [(parent, child)] }) := by
  rw [relate] at h
  split_ifs at h with hempty hthere
  · exact ⟨not_or.1 hempty, .inl ⟨List.contains_iff_mem.1 hthere, (Except.ok.inj h).symm⟩⟩
  · exact ⟨not_or.1 hempty, .inr ⟨fun hmem => hthere (List.contains_iff_mem.2 hmem),
      (Except.ok.inj h).symm⟩⟩

theorem children_eq_valuesOf (r : NameRegistry σ) : r.children = KeyedList.valuesOf r.relations := rfl

/-- Recording a relation adds the child to its parent, if it is not there, and to no other. -/
theorem children_of_relate {parent child : String} (h : r.relate parent child = .ok r') :
    r'.children = Function.update r.children parent (if child ∈ r.children parent
      then r.children parent else r.children parent ++ [child]) := by
  have hmem : child ∈ r.children parent ↔ (parent, child) ∈ r.relations := KeyedList.mem_valuesOf
  obtain ⟨-, ⟨hthere, rfl⟩ | ⟨hnew, rfl⟩⟩ := relate_cases h
  · rw [if_pos (hmem.2 hthere), Function.update_eq_self]
  · rw [if_neg (mt hmem.1 hnew), children_eq_valuesOf, KeyedList.valuesOf_append_singleton]
    rfl

theorem registrations_of_relate {parent child : String} (h : r.relate parent child = .ok r') :
    r'.registrations = r.registrations := by
  obtain ⟨-, ⟨-, rfl⟩ | ⟨-, rfl⟩⟩ := relate_cases h <;> rfl

theorem relate_eq_ok {parent child : String} (h : r.relate parent child = .ok r') :
    ∀ path, r'.signature? path = r.signature? path := by
  intro path
  rw [signature?, atPath?, registrations_of_relate h]
  rfl

theorem relate_eq_error {parent child : String} {e : NamingError}
    (h : r.relate parent child = .error e) : parent = "" ∨ child = "" := by
  rw [relate] at h
  split_ifs at h with hempty
  exact hempty

variable [DecidableEq σ] {name scope : String} {signature : σ}

/-- A registration that succeeds finds its signature under the path, or comes behind the others. -/
theorem register_cases (h : r.register name scope signature = .ok r') :
    (∃ existing, r.get? name scope = some existing ∧ existing.signature = signature) ∧ r' = r ∨
      r.get? name scope = none ∧
        r' = { r with registrations := r.registrations ++ [⟨name, scope, signature⟩] } := by
  rw [register] at h
  split at h
  · next existing hexisting =>
    split at h
    · next hsame => exact .inl ⟨⟨existing, hexisting, hsame⟩, (Except.ok.inj h).symm⟩
    · cases h
  · next hnone => exact .inr ⟨hnone, (Except.ok.inj h).symm⟩

theorem relations_of_register (h : r.register name scope signature = .ok r') :
    r'.relations = r.relations := by
  obtain ⟨-, rfl⟩ | ⟨-, rfl⟩ := register_cases h <;> rfl

/-- What a registration says afterwards, and that it says nothing else than before about other paths. -/
theorem register_eq_ok (h : r.register name scope signature = .ok r') :
    r'.signature? (qualify scope name) = some signature ∧
      (∀ path τ, r.signature? path = some τ → r'.signature? path = some τ) ∧
      ∀ path τ, r'.signature? path = some τ →
        r.signature? path = some τ ∨ path = qualify scope name ∧ τ = signature := by
  obtain ⟨⟨existing, hexisting, rfl⟩, rfl⟩ | ⟨hnone, rfl⟩ := register_cases h
  · exact ⟨congrArg (Option.map _) hexisting, fun _ _ => id, fun _ _ => .inl⟩
  · have hfree : r.signature? (qualify scope name) = none := congrArg (Option.map _) hnone
    refine ⟨?_, fun path τ hτ => ?_, fun path τ hτ => ?_⟩
    · exact (signature?_append r _ _).trans (by rw [hfree, Option.none_or]; exact if_pos rfl)
    · rw [signature?_append, hτ, Option.some_or]
    · rw [signature?_append] at hτ
      rcases Option.or_eq_some_iff.1 hτ with hold | ⟨-, hnew⟩
      · exact .inl hold
      · split at hnew
        · next hpath => exact .inr ⟨hpath.symm, (Option.some.inj hnew).symm⟩
        · cases hnew

/-- Registering fails where the path has another signature. -/
theorem register_eq_error {e : NamingError} (h : r.register name scope signature = .error e) :
    e = .collision name scope ∧
      ∃ τ, r.signature? (qualify scope name) = some τ ∧ τ ≠ signature := by
  rw [register, get?] at h
  split at h
  · next existing hexisting =>
    split at h
    · cases h
    · next hother =>
      cases h
      exact ⟨rfl, existing.signature, by rw [signature?, hexisting, Option.map_some], hother⟩
  · cases h

/-- Registering changes the signature under its path only. -/
theorem signature?_of_register (h : r.register name scope signature = .ok r') (path : String) :
    r'.signature? path = if path = qualify scope name then some signature else r.signature? path := by
  obtain ⟨hsame, hkeeps, honly⟩ := register_eq_ok h
  split_ifs with hpath
  · rw [hpath, hsame]
  · refine Option.ext fun τ => ⟨fun hτ => ?_, hkeeps path τ⟩
    exact (honly path τ hτ).resolve_right fun hnew => hpath hnew.1

/-- Whether registering succeeds depends on the signature under its path only. -/
theorem register_ok_or_error (r : NameRegistry σ) (name scope : String) (signature : σ) :
    (∃ r', r.register name scope signature = .ok r') ∧
        (∀ τ, r.signature? (qualify scope name) = some τ → τ = signature) ∨
      r.register name scope signature = .error (.collision name scope) ∧
        ∃ τ, r.signature? (qualify scope name) = some τ ∧ τ ≠ signature := by
  cases h : r.register name scope signature with
  | ok r' =>
    obtain ⟨hsame, hkeeps, -⟩ := register_eq_ok h
    refine .inl ⟨⟨r', rfl⟩, fun τ hτ => ?_⟩
    exact Option.some.inj ((hkeeps _ τ hτ).symm.trans hsame)
  | error e =>
    obtain ⟨rfl, hother⟩ := register_eq_error h
    exact .inr ⟨rfl, hother⟩

end FragmentShapes.NameRegistry
