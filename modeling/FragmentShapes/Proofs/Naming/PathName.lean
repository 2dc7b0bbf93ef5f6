import FragmentShapes.Proofs.Naming.Policy
import Mathlib.Data.List.Induction

/-!
# Paths that follow from positions

Where all models are nested without a limit, or all are lifted, the path of a model is decided by the
names on the way to it. `NamingPolicy.pathName_concat_congr`: models with one path have the same paths
below them, although different names on the way may lead to one path.
-/

namespace FragmentShapes.NamingPolicy

/-- No custom names, and places that do not depend on what else is used: all nested, or all lifted. -/
def IsPositional (p : NamingPolicy) : Prop :=
  p.custom = [] ∧ (p.placement = .nested ∧ p.maxDepth = 0 ∨ p.placement = .flattened)

/-- The path of a nested model: the names of the models on the way below the root, joined by dots. -/
def nestedPath (fragment : String) (stems : List String) : String :=
  ".".intercalate (withFragmentSuffix fragment ::
    stems.map fun stem => Text.capitalize stem ++ modelSuffix)

/-- What the name of a lifted model is without its suffix: the capitalized names on the way behind the
fragment's, joined by underscores. -/
def flattenedStem (fragment : String) (stems : List String) : String :=
  "_".intercalate (fragment :: stems.map Text.capitalize)

/-- The path of a model by the names on the way to it; no names lead to the root. -/
def pathName (p : NamingPolicy) (fragment : String) (stems : List String) : String :=
  if p.placement = .flattened ∧ stems ≠ [] then flattenedStem fragment stems ++ modelSuffix
  else nestedPath fragment stems

variable {p : NamingPolicy} {fragment : String}

theorem nestedPath_concat (fragment : String) (stems : List String) (stem : String) :
    nestedPath fragment (stems ++ [stem]) =
      nestedPath fragment stems ++ "." ++ (Text.capitalize stem ++ modelSuffix) := by
  rw [nestedPath, List.map_append, ← List.cons_append, String.intercalate_append_of_ne_nil (by simp)
    (by simp), List.map_singleton, String.intercalate_singleton]
  rfl

theorem flattenedStem_concat (fragment : String) (stems : List String) (stem : String) :
    flattenedStem fragment (stems ++ [stem]) =
      flattenedStem fragment stems ++ "_" ++ Text.capitalize stem := by
  rw [flattenedStem, List.map_append, ← List.cons_append, String.intercalate_append_of_ne_nil (by simp)
    (by simp), List.map_singleton, String.intercalate_singleton]
  rfl

theorem flattenedStem_nil (fragment : String) : flattenedStem fragment [] = fragment :=
  String.intercalate_singleton

@[simp] theorem pathName_nil (p : NamingPolicy) (fragment : String) :
    p.pathName fragment [] = withFragmentSuffix fragment := by
  rw [pathName, if_neg fun h => h.2 rfl]
  exact String.intercalate_singleton

theorem pathName_of_nested (h : p.placement = .nested) (stems : List String) :
    p.pathName fragment stems = nestedPath fragment stems := by
  rw [pathName, if_neg fun hp => by rw [h] at hp; cases hp.1]

theorem pathName_of_mixed (h : p.placement = .mixed) (stems : List String) :
    p.pathName fragment stems = nestedPath fragment stems := by
  rw [pathName, if_neg fun hp => by rw [h] at hp; cases hp.1]

theorem pathName_of_flattened (h : p.placement = .flattened) {stems : List String} (hne : stems ≠ []) :
    p.pathName fragment stems = flattenedStem fragment stems ++ modelSuffix := by
  rw [pathName, if_pos ⟨h, hne⟩]

/-- The path of a model below the root ends in the suffix of models. -/
theorem exists_pathName_eq (p : NamingPolicy) (fragment : String) {stems : List String}
    (h : stems ≠ []) : ∃ stem, p.pathName fragment stems = stem ++ modelSuffix := by
  rw [pathName]
  split
  · exact ⟨_, rfl⟩
  · rw [← List.dropLast_concat_getLast h, nestedPath_concat, ← String.append_assoc]
    exact ⟨_, rfl⟩

/-- No model below the root has the path of the root. -/
theorem pathName_ne_root {stems : List String} (h : stems ≠ []) :
    p.pathName fragment stems ≠ withFragmentSuffix fragment := by
  obtain ⟨stem, hstem⟩ := exists_pathName_eq p fragment h
  rw [hstem]
  exact append_modelSuffix_ne stem fragment

/-- Every path has one of the two suffixes. -/
theorem pathName_ne {text : String} (hroot : hasSuffix fragmentSuffix text = false)
    (hmodel : hasSuffix modelSuffix text = false) (p : NamingPolicy) (fragment : String)
    (stems : List String) : p.pathName fragment stems ≠ text := by
  rintro rfl
  by_cases h : stems = []
  · rw [h, pathName_nil, hasSuffix_withFragmentSuffix] at hroot
    cases hroot
  · obtain ⟨stem, hstem⟩ := exists_pathName_eq p fragment h
    rw [hstem, hasSuffix_append] at hmodel
    cases hmodel

theorem pathName_ne_globalScope (p : NamingPolicy) (fragment : String) (stems : List String) :
    p.pathName fragment stems ≠ globalScope :=
  pathName_ne (by decide) (by decide) p fragment stems

theorem pathName_ne_empty (p : NamingPolicy) (fragment : String) (stems : List String) :
    p.pathName fragment stems ≠ "" :=
  pathName_ne (by decide) (by decide) p fragment stems

/-- Below models with one path, the same names lead to one path. -/
theorem pathName_concat_congr {stems stems' : List String}
    (h : p.pathName fragment stems = p.pathName fragment stems') (stem : String) :
    p.pathName fragment (stems ++ [stem]) = p.pathName fragment (stems' ++ [stem]) := by
  by_cases hp : p.placement = .flattened
  · have hsame : flattenedStem fragment stems = flattenedStem fragment stems' := by
      by_cases hnil : stems = []
      · rw [hnil, pathName_nil] at h
        rw [hnil, Classical.not_not.1 fun hnil' => pathName_ne_root hnil' h.symm]
      · by_cases hnil' : stems' = []
        · rw [hnil', pathName_nil] at h
          exact absurd h (pathName_ne_root hnil)
        · rw [pathName_of_flattened hp hnil, pathName_of_flattened hp hnil'] at h
          exact String.append_left_inj _ |>.1 h
    rw [pathName_of_flattened hp (by simp), pathName_of_flattened hp (by simp), flattenedStem_concat,
      flattenedStem_concat, hsame]
  · have hnested : ∀ stems, p.pathName fragment stems = nestedPath fragment stems := fun stems => by
      rw [pathName, if_neg fun h => hp h.1]
    rw [hnested, hnested] at h ⊢
    rw [nestedPath_concat, nestedPath_concat, h]

theorem isAsciiName_flattenedStem (hfragment : Text.isAsciiName fragment = true) {stems : List String}
    (hstems : ∀ stem ∈ stems, Text.isAsciiName stem = true) :
    Text.isAsciiName (flattenedStem fragment stems) = true := by
  induction stems using List.reverseRecOn with
  | nil => rwa [flattenedStem_nil]
  | append_singleton stems stem ih =>
    rw [flattenedStem_concat]
    have hstem := Text.isAsciiName_capitalize (hstems stem (by simp))
    exact Text.isAsciiName_append
      (Text.isAsciiName_append (ih fun other hother => hstems other (List.mem_append_left _ hother))
        (by decide)) (List.all_eq_true.2 (Text.isAsciiName_chars hstem).2)

/-! ## Dots -/

theorem dot_not_mem_of_isIdentifier {name : String} (h : Text.isIdentifier name = true) :
    '.' ∉ name.toList := by
  intro hmem
  have hstart : Text.isIdentifierStart '.' = false := by decide
  have hpart : Text.isIdentifierPart '.' = false := by decide
  rw [Text.isIdentifier] at h
  split at h
  · cases h
  · next c cs hcs =>
    rw [Bool.and_eq_true, List.all_eq_true] at h
    rw [hcs] at hmem
    rcases List.mem_cons.1 hmem with rfl | hmem
    · rw [hstart] at h
      cases h.1
    · rw [h.2 '.' hmem] at hpart
      cases hpart

theorem dot_not_mem {name : String} (h : Text.isAsciiName name = true) : '.' ∉ name.toList :=
  dot_not_mem_of_isIdentifier (Text.isIdentifier_of_isAsciiName h)

theorem isAsciiName_withFragmentSuffix (h : Text.isAsciiName fragment = true) :
    Text.isAsciiName (withFragmentSuffix fragment) = true := by
  rw [withFragmentSuffix]
  split
  · exact h
  · exact Text.isAsciiName_append h (by decide)

theorem isAsciiName_capitalize_append {stem : String} (h : Text.isAsciiName stem = true) :
    Text.isAsciiName (Text.capitalize stem ++ modelSuffix) = true :=
  Text.isAsciiName_append (Text.isAsciiName_capitalize h) (by decide)

/-- The dots of a nested path are those between the names on the way. -/
theorem splitOn_nestedPath (hfragment : Text.isAsciiName fragment = true) {stems : List String}
    (hstems : ∀ stem ∈ stems, Text.isAsciiName stem = true) :
    (nestedPath fragment stems).toList.splitOn '.' = (withFragmentSuffix fragment).toList ::
      stems.map fun stem => (Text.capitalize stem ++ modelSuffix).toList := by
  have hdots : ∀ part ∈ (withFragmentSuffix fragment).toList ::
      stems.map fun stem => (Text.capitalize stem ++ modelSuffix).toList, '.' ∉ part := by
    refine List.forall_mem_cons.2 ⟨dot_not_mem (isAsciiName_withFragmentSuffix hfragment), ?_⟩
    intro part hpart
    obtain ⟨stem, hstem, rfl⟩ := List.mem_map.1 hpart
    exact dot_not_mem (isAsciiName_capitalize_append (hstems stem hstem))
  rw [nestedPath, String.toList_intercalate, List.map_cons, List.map_map]
  exact List.splitOn_intercalate '.' hdots (List.cons_ne_nil _ _)

/-- Ways with one nested path have the same names, up to the case of first letters. -/
theorem map_capitalize_of_nestedPath (hfragment : Text.isAsciiName fragment = true)
    {stems stems' : List String} (hstems : ∀ stem ∈ stems, Text.isAsciiName stem = true)
    (hstems' : ∀ stem ∈ stems', Text.isAsciiName stem = true)
    (h : nestedPath fragment stems = nestedPath fragment stems') :
    stems.map Text.capitalize = stems'.map Text.capitalize := by
  have hsplit := splitOn_nestedPath hfragment hstems
  rw [h, splitOn_nestedPath hfragment hstems'] at hsplit
  have hinjective : ∀ name name' : String,
      (name ++ modelSuffix).toList = (name' ++ modelSuffix).toList → name = name' :=
    fun _ _ heq => (String.append_left_inj _).1 (String.toList_injective heq)
  refine (List.map_inj_right hinjective).1 ?_
  rw [List.map_map, List.map_map]
  exact (List.cons.inj hsplit).2.symm

/-- The path of a nested model has a dot, unlike the names of lifted ones. -/
theorem nestedPath_ne {stems : List String} (h : stems ≠ []) {name : String}
    (hname : Text.isAsciiName name = true) : nestedPath fragment stems ≠ name := by
  rintro rfl
  refine dot_not_mem hname ?_
  rw [← List.dropLast_concat_getLast h, nestedPath_concat, String.toList_append,
    String.toList_append]
  exact List.mem_append_left _ (List.mem_append_right _ (by decide))

/-- An assigned name is an identifier, and is put together from the name before any context. -/
theorem exists_bareName_of_assignName {field name : String} {context type : Option String}
    (h : p.assignName field context type = .ok name) :
    ∃ bare, p.bareName field type = .ok bare ∧ name = inContext context bare ∧
      Text.isIdentifier name = true := by
  unfold assignName at h
  split_ifs at h
  · cases h
  · cases hbare : p.bareName field type with
    | error e =>
      rw [hbare] at h
      cases h
    | ok bare =>
      rw [hbare] at h
      change (if Text.isIdentifier (inContext context bare) = true then _ else _) = _ at h
      split_ifs at h with hidentifier
      · cases h
        exact ⟨bare, rfl, rfl, hidentifier⟩

theorem assignName_isIdentifier {field name : String} {context type : Option String}
    (h : p.assignName field context type = .ok name) :
    Text.isIdentifier name = true := by
  obtain ⟨_, _, _, hidentifier⟩ := exists_bareName_of_assignName h
  exact hidentifier

theorem dot_not_mem_assignName {field name : String} {context type : Option String}
    (h : p.assignName field context type = .ok name) :
    '.' ∉ name.toList :=
  dot_not_mem_of_isIdentifier (assignName_isIdentifier h)

theorem dot_not_mem_stemPart {name : String} (h : '.' ∉ name.toList) : '.' ∉ (stemPart name).toList := by
  rw [stemPart]
  split_ifs
  · rw [String.toList_ofList]
    exact fun hmem => h (List.mem_of_mem_take hmem)
  · exact h

theorem dot_not_mem_rootName {fragment name : String} (h : rootName fragment = .ok name) :
    '.' ∉ name.toList := by
  rw [rootName] at h
  split_ifs at h with hidentifier
  cases h
  rw [withFragmentSuffix]
  split_ifs
  · exact dot_not_mem_of_isIdentifier hidentifier
  · rw [String.toList_append, List.mem_append, not_or]
    exact ⟨dot_not_mem_of_isIdentifier hidentifier, by decide⟩

theorem rootName_ne_globalScope {fragment name : String} (h : rootName fragment = .ok name) :
    name ≠ globalScope := by
  rw [rootName] at h
  split_ifs at h
  cases h
  intro heq
  have hsuffix := hasSuffix_withFragmentSuffix fragment
  rw [heq] at hsuffix
  exact absurd hsuffix (by decide)

/-- A name behind the last dot of a path is told apart from what is in front of it. -/
theorem eq_of_append_dot {front front' name name' : String} (hname : '.' ∉ name.toList)
    (hname' : '.' ∉ name'.toList) (h : front ++ "." ++ name = front' ++ "." ++ name') :
    front = front' ∧ name = name' := by
  -- what one text has in front of its last dot and the other has not would put a dot in a name
  have hnone : ∀ {more rest rest' : List Char}, '.' ∉ rest → '.' :: rest = more ++ '.' :: rest' →
      more = [] := by
    intro more rest rest' hrest heq
    cases more with
    | nil => rfl
    | cons c more =>
      cases heq
      exact absurd (List.mem_append_right _ List.mem_cons_self) hrest
  have hlist : front.toList ++ '.' :: name.toList = front'.toList ++ '.' :: name'.toList := by
    have hchars := congrArg String.toList h
    simpa [String.toList_append] using hchars
  have hfront : front = front' := by
    rcases List.append_eq_append_iff.1 hlist with ⟨more, hmore, hrest⟩ | ⟨more, hmore, hrest⟩
    · rw [hnone hname hrest, List.append_nil] at hmore
      exact (String.toList_injective hmore).symm
    · rw [hnone hname' hrest, List.append_nil] at hmore
      exact String.toList_injective hmore
  subst hfront
  exact ⟨rfl, (String.append_right_inj _).1 h⟩

end FragmentShapes.NamingPolicy
