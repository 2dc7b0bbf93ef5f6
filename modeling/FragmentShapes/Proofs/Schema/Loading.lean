import FragmentShapes.Proofs.Schema.Registration

/-!
# Documents that do not load

A document that fails stays in the schema with what it declared before. `Loading` keeps for each document of
a run what it has declared, and `usable` are the documents that did not fail.

The main statements are `loadings_usable`, by which the usable documents alone load as they did among the
others, and `eq_iff_of_extends`, by which the schema is that of the usable documents alone exactly if the
others leave no type behind, and no root that counts.
-/

namespace FragmentShapes.Schema

open Document

/-- A document in a run, with what it declared and why it did not go on. -/
structure Loading where
  text : String
  declared : List Declaration
  error : Option Error
  deriving DecidableEq

/-- What a document declares to a schema. -/
def declaredBy (s : Schema) (text : String) : List Declaration :=
  match parseDocument text with
  | .ok ds => s.declared ds
  | .error _ => []

/-- The documents of a run, one after the other. -/
def loadings (s : Schema) : List String → List Loading
  | [] => []
  | text :: texts => ⟨text, s.declaredBy text, (s.load text).2⟩ :: (s.load text).1.loadings texts

namespace Loading

/-- The documents that did not fail. -/
def usable (run : List Loading) : List Loading := run.filter (·.error.isNone)

/-- All that was declared. -/
def declarations (run : List Loading) : List Declaration := run.flatMap (·.declared)

/-- What was declared by documents that failed. -/
def leftovers (run : List Loading) : List Declaration := declarations (run.filter (·.error.isSome))

section

variable {l : Loading} {e : Error} (run : List Loading)

theorem declarations_cons (l : Loading) : declarations (l :: run) = l.declared ++ declarations run := rfl

theorem usable_cons_of_none (h : l.error = none) : usable (l :: run) = l :: usable run :=
  List.filter_cons_of_pos (by rw [h]; rfl)

theorem usable_cons_of_some (h : l.error = some e) : usable (l :: run) = usable run :=
  List.filter_cons_of_neg (by simp [h])

theorem leftovers_cons_of_none (h : l.error = none) : leftovers (l :: run) = leftovers run :=
  congrArg declarations (List.filter_cons_of_neg (by simp [h]))

theorem leftovers_cons_of_some (h : l.error = some e) :
    leftovers (l :: run) = l.declared ++ leftovers run :=
  congrArg declarations (List.filter_cons_of_pos (by rw [h]; rfl))

theorem declarations_usable_sublist : (declarations (usable run)).Sublist (declarations run) := by
  induction run with
  | nil => exact .refl _
  | cons l run ih =>
    cases h : l.error with
    | none => simpa only [usable_cons_of_none run h, declarations_cons] using ih.append_left l.declared
    | some e =>
      rw [usable_cons_of_some run h]
      exact ih.trans (List.sublist_append_right _ _)

end

end Loading

open Loading (usable declarations leftovers)

/-- No document that failed leaves a type behind, or the root that an operation gets. -/
def LeavesNothing (s : Schema) (run : List Loading) : Prop :=
  s.added (leftovers run) = [] ∧ ∀ operation ∈ operationNames,
    (lastRoot operation (declarations run)).or (s.root? operation) =
      (lastRoot operation (declarations (usable run))).or (s.root? operation)

variable {s s' t : Schema} {taken fewer : List Declaration}

/-! ## One document -/

theorem declared_of_applyAll (h : s.Extends taken s') (hplain : Plain taken) {ds : List Definition}
    (hds : Plain (ds.filterMap Definition.declaration?)) (hok : (s'.applyAll ds).2 = none) :
    s'.declared ds = ds.filterMap Definition.declaration? := by
  obtain ⟨_, rest, heq, ⟨rfl, _⟩ | ⟨_, _, _, _, _, herror⟩⟩ := h.applyAll hplain hds
  · rw [heq, List.append_nil]
  · cases hok.symm.trans herror

theorem added_sublist (s : Schema) (h : fewer.Sublist taken) : (s.added fewer).Sublist (s.added taken) :=
  (h.filterMap _).filter _

/-- Definitions that are added as a whole are added as a whole behind fewer others. -/
theorem Extends.applyAll_eq_none (h : s.Extends taken s') (hplain : Plain taken)
    (ht : s.Extends fewer t) (hfewer : fewer.Sublist taken) {ds : List Definition}
    (hds : Plain (ds.filterMap Definition.declaration?)) (hok : (s'.applyAll ds).2 = none) :
    (t.applyAll ds).2 = none := by
  have hplain' : Plain fewer := fun u hu => hplain u (hfewer.subset hu)
  obtain ⟨hextends, _⟩ := h.applyAll hplain hds
  rw [declared_of_applyAll h hplain hds hok] at hextends
  obtain ⟨hextends', rest, heq, ⟨_, hnone⟩ | ⟨u, others, rfl, hredeclares, hname, _⟩⟩ :=
    ht.applyAll hplain' hds
  · exact hnone
  -- The name is taken by the schema or by fewer others, and so it was taken before, too.
  exfalso
  have hadded : s.added (taken ++ ds.filterMap Definition.declaration?) =
      s.added (taken ++ t.declared ds) ++ u :: s.added others := by
    rw [heq, ← List.append_assoc, added_append, show Declaration.type u :: others = [.type u] ++ others
      from rfl, added_append]
    simp [added, Declaration.type?, hredeclares]
  rw [typeNames_of_extends hextends', List.mem_append] at hname
  rcases hname with hname | hname
  · exact hextends.fresh u (by simp [hadded]) hname
  · have hnodup := hextends.nodup
    rw [hadded, List.map_append, List.map_cons, List.nodup_append] at hnodup
    have hsublist := (added_sublist s (hfewer.append_right (t.declared ds))).map (·.name)
    exact hnodup.2.2 _ (hsublist.subset hname) _ List.mem_cons_self rfl

theorem Extends.load (h : s.Extends taken s') (hplain : Plain taken) (text : String) :
    s.Extends (taken ++ s'.declaredBy text) (s'.load text).1 ∧ Plain (taken ++ s'.declaredBy text) := by
  rw [declaredBy, Schema.load]
  cases hds : parseDocument text with
  | error fault => simpa using ⟨h, hplain⟩
  | ok ds =>
    have hplain' := plain_of_ofTokens hds
    exact ⟨(h.applyAll hplain hplain').1,
      hplain.append fun u hu => hplain' u (declared_subset s' ds hu)⟩

/-- A document that loads does so behind fewer others, and with the same declarations. -/
theorem Extends.load_eq_none (h : s.Extends taken s') (hplain : Plain taken) (ht : s.Extends fewer t)
    (hfewer : fewer.Sublist taken) {text : String} (hok : (s'.load text).2 = none) :
    (t.load text).2 = none ∧ t.declaredBy text = s'.declaredBy text := by
  rw [Schema.load] at hok
  rw [declaredBy, declaredBy, Schema.load]
  cases hds : parseDocument text with
  | error fault =>
    rw [hds] at hok
    cases hok
  | ok ds =>
    rw [hds] at hok
    have hplain' := plain_of_ofTokens hds
    have hok' : (t.applyAll ds).2 = none := h.applyAll_eq_none hplain ht hfewer hplain' hok
    refine ⟨hok', ?_⟩
    have hplain'' : Plain fewer := fun u hu => hplain u (hfewer.subset hu)
    exact (declared_of_applyAll ht hplain'' hplain' hok').trans
      (declared_of_applyAll h hplain hplain' hok).symm

/-! ## Runs of documents -/

/-- Alone, the usable documents load as they did among the others. -/
theorem loadings_usable (h : s.Extends taken s') (hplain : Plain taken) (ht : s.Extends fewer t)
    (hfewer : fewer.Sublist taken) (texts : List String) :
    t.loadings ((usable (s'.loadings texts)).map (·.text)) = usable (s'.loadings texts) := by
  induction texts generalizing s' t taken fewer with
  | nil => rfl
  | cons text texts ih =>
    obtain ⟨hnext, hplain'⟩ := h.load hplain text
    rw [loadings]
    cases hok : (s'.load text).2 with
    | some e =>
      rw [Loading.usable_cons_of_some _ rfl]
      exact ih hnext hplain' ht (hfewer.trans (List.sublist_append_left _ _))
    | none =>
      obtain ⟨hok', hdeclared⟩ := h.load_eq_none hplain ht hfewer hok
      have hsame := (ht.load (fun u hu => hplain u (hfewer.subset hu)) text).1
      rw [hdeclared] at hsame
      rw [Loading.usable_cons_of_none _ rfl, List.map_cons, loadings, hok', hdeclared,
        ih hnext hplain' hsame (hfewer.append_right _)]

/-! ## Comparing schemas -/

/-- The types of the whole run are those of its usable documents and those that are left. -/
theorem length_added (s : Schema) (run : List Loading) :
    (s.added (declarations run)).length =
      (s.added (declarations (usable run))).length + (s.added (leftovers run)).length := by
  induction run with
  | nil => rfl
  | cons l run ih =>
    cases h : l.error with
    | none =>
      rw [Loading.usable_cons_of_none run h, Loading.leftovers_cons_of_none run h]
      simp only [Loading.declarations_cons, added_append, List.length_append]
      omega
    | some e =>
      rw [Loading.usable_cons_of_some run h, Loading.leftovers_cons_of_some run h]
      simp only [Loading.declarations_cons, added_append, List.length_append]
      omega

/-- The schema of all documents is that of the usable ones if the others leave nothing behind, and only
then. -/
theorem eq_iff_of_extends {run : List Loading} (h : s.Extends (declarations run) s')
    (ht : s.Extends (declarations (usable run)) t) : s' = t ↔ s.LeavesNothing run := by
  have hlength := s.length_added run
  constructor
  · rintro rfl
    have hsame := List.append_cancel_left (h.types.symm.trans ht.types)
    rw [hsame] at hlength
    refine ⟨List.length_eq_zero_iff.1 (by omega), fun operation hoperation => ?_⟩
    rw [← h.roots operation hoperation, ht.roots operation hoperation]
  · rintro ⟨hnothing, hroots⟩
    have hsame : s.added (declarations (usable run)) = s.added (declarations run) := by
      rw [hnothing, List.length_nil, Nat.add_zero] at hlength
      exact (added_sublist s (Loading.declarations_usable_sublist run)).eq_of_length hlength.symm
    refine ext_root? (by rw [h.types, ht.types, hsame]) fun operation hoperation => ?_
    rw [h.roots operation hoperation, ht.roots operation hoperation, hroots operation hoperation]

end FragmentShapes.Schema
