import FragmentShapes.Proofs.Naming.PathName

/-!
# Paths that belong to a fragment

The root of a fragment, what is nested below the root, and what is named behind the fragment: no other
paths come up while the fragment is assembled, whatever the custom names are. Fragments without
underscores in their names and with different roots have no path in common
(`NamingPolicy.not_owns_of_owns`).
-/

namespace FragmentShapes.NamingPolicy

/-- The path belongs to the fragment. -/
inductive Owns (fragment : String) : String → Prop where
  | root : Owns fragment (withFragmentSuffix fragment)
  | nested (rest : String) : Owns fragment (withFragmentSuffix fragment ++ "." ++ rest)
  | behind (rest : String) : Owns fragment (fragment ++ "_" ++ rest)

/-- What names of lifted models of the fragment begin with: its name, and more behind it. -/
def IsContext (fragment context : String) : Prop :=
  context = fragment ∨ ∃ rest, context = fragment ++ "_" ++ rest

/-- The name of a lifted model of the fragment. -/
def IsLifted (fragment name : String) : Prop :=
  ∃ stem, name = fragment ++ "_" ++ stem ++ modelSuffix

variable {p : NamingPolicy} {fragment : String}

theorem Owns.below {path : String} (h : Owns fragment path) (name : String) :
    Owns fragment (path ++ "." ++ name) := by
  cases h with
  | root => exact .nested name
  | nested rest =>
    have hpath : withFragmentSuffix fragment ++ "." ++ rest ++ "." ++ name =
        withFragmentSuffix fragment ++ "." ++ (rest ++ "." ++ name) := by
      simp only [String.append_assoc]
    exact hpath ▸ .nested _
  | behind rest =>
    have hpath : fragment ++ "_" ++ rest ++ "." ++ name = fragment ++ "_" ++ (rest ++ "." ++ name) := by
      simp only [String.append_assoc]
    exact hpath ▸ .behind _

theorem Owns.ne_globalScope {path : String} (h : Owns fragment path) : path ≠ globalScope := by
  intro heq
  have hglobal : '.' ∉ globalScope.toList ∧ '_' ∉ globalScope.toList := by decide
  cases h with
  | root =>
    have hsuffix := hasSuffix_withFragmentSuffix fragment
    rw [heq] at hsuffix
    exact absurd hsuffix (by decide)
  | nested rest =>
    refine hglobal.1 (heq ▸ ?_)
    simp
  | behind rest =>
    refine hglobal.2 (heq ▸ ?_)
    simp

theorem Owns.qualify {path : String} (h : Owns fragment path) (name : String) :
    Owns fragment (qualify path name) := by
  rw [FragmentShapes.qualify, if_neg h.ne_globalScope]
  exact h.below name

theorem IsLifted.owns {name : String} (h : IsLifted fragment name) : Owns fragment name := by
  obtain ⟨stem, rfl⟩ := h
  rw [String.append_assoc]
  exact .behind _

theorem isContext_self (fragment : String) : IsContext fragment fragment := .inl rfl

theorem IsContext.append {context : String} (h : IsContext fragment context) (more : String) :
    IsContext fragment (context ++ "_" ++ more) := by
  rcases h with rfl | ⟨rest, rfl⟩
  · exact .inr ⟨more, rfl⟩
  · refine .inr ⟨rest ++ "_" ++ more, ?_⟩
    simp only [String.append_assoc]

theorem IsContext.isLifted {context : String} (h : IsContext fragment context) (stem : String) :
    IsLifted fragment (context ++ "_" ++ (stem ++ modelSuffix)) := by
  rcases h with rfl | ⟨rest, rfl⟩
  · exact ⟨stem, by simp only [String.append_assoc]⟩
  · exact ⟨rest ++ "_" ++ stem, by simp only [String.append_assoc]⟩

theorem ne_empty_of_stem (fragment stem : String) : fragment ++ "_" ++ stem ≠ "" := by
  intro heq
  have hmem : '_' ∈ (fragment ++ "_" ++ stem).toList := by simp
  rw [heq] at hmem
  cases hmem

theorem IsContext.ne_empty {context : String} (h : IsContext fragment context) (hne : fragment ≠ "") :
    context ≠ "" := by
  rcases h with rfl | ⟨rest, rfl⟩
  · exact hne
  · exact ne_empty_of_stem fragment rest

theorem IsLifted.isContext {name : String} (h : IsLifted fragment name) :
    IsContext fragment (stemPart name) := by
  obtain ⟨stem, rfl⟩ := h
  exact .inr ⟨stem, stemPart_append (ne_empty_of_stem fragment stem)⟩

/-! ## Assigned names -/

/-- A name before any context ends in the suffix of models, given by the user or not. -/
theorem exists_stem_of_bareName {field bare : String} {type : Option String}
    (h : p.bareName field type = .ok bare) : ∃ stem, bare = stem ++ modelSuffix := by
  rw [bareName] at h
  split at h
  · next custom _ =>
    split_ifs at h with hempty hsuffix
    · cases h
      rw [hasSuffix, List.isSuffixOf_iff_suffix] at hsuffix
      obtain ⟨front, hfront⟩ := hsuffix
      refine ⟨String.ofList front, String.toList_injective ?_⟩
      rw [String.toList_append, String.toList_ofList, hfront]
    · cases h
      exact ⟨custom, rfl⟩
  · cases h
    exact ⟨Text.capitalize field, rfl⟩

/-- A name behind a context of the fragment is that of a lifted model. -/
theorem isLifted_of_assignName (hne : fragment ≠ "") {context : String}
    (hcontext : IsContext fragment context) {field name : String} {type : Option String}
    (h : p.assignName field (some context) type = .ok name) : IsLifted fragment name := by
  obtain ⟨bare, hbare, rfl, -⟩ := exists_bareName_of_assignName h
  obtain ⟨stem, rfl⟩ := exists_stem_of_bareName hbare
  rw [inContext, if_neg (hcontext.ne_empty hne)]
  exact hcontext.isLifted stem

/-! ## Fragments apart -/

/-- The fragments have no path in common. -/
def Apart (fragment other : String) : Prop := ∀ path, Owns fragment path → ¬ Owns other path

/-- Texts in front of the first of two marks are told apart, and so are the marks. -/
theorem eq_of_append_mark {front front' : String} {mark mark' : Char} {rest rest' : List Char}
    (hfront : mark' ∉ front.toList) (hfront' : mark ∉ front'.toList)
    (h : front.toList ++ mark :: rest = front'.toList ++ mark' :: rest') :
    front = front' ∧ mark = mark' := by
  rcases List.append_eq_append_iff.1 h with ⟨more, hmore, hrest⟩ | ⟨more, hmore, hrest⟩
  · cases more with
    | nil =>
      rw [List.append_nil] at hmore
      cases hrest
      exact ⟨(String.toList_injective hmore).symm, rfl⟩
    | cons c more =>
      cases hrest
      rw [hmore] at hfront'
      simp at hfront'
  · cases more with
    | nil =>
      rw [List.append_nil] at hmore
      cases hrest
      exact ⟨String.toList_injective hmore, rfl⟩
    | cons c more =>
      cases hrest
      rw [hmore] at hfront
      simp at hfront

theorem mark_not_mem_withFragmentSuffix {mark : Char} {name : String}
    (hsuffix : mark ∉ fragmentSuffix.toList) (hname : mark ∉ name.toList) :
    mark ∉ (withFragmentSuffix name).toList := by
  rw [withFragmentSuffix]
  split_ifs
  · exact hname
  · rw [String.toList_append, List.mem_append, not_or]
    exact ⟨hname, hsuffix⟩

/-- Fragments whose names have no underscores and whose roots differ are apart. -/
theorem not_owns_of_owns {other : String} (hfragment : Text.isIdentifier fragment = true)
    (hother : Text.isIdentifier other = true) (hbare : '_' ∉ fragment.toList)
    (hbare' : '_' ∉ other.toList) (hne : fragment ≠ other)
    (hroots : withFragmentSuffix fragment ≠ withFragmentSuffix other) : Apart fragment other := by
  have hdot := dot_not_mem_of_isIdentifier hfragment
  have hdot' := dot_not_mem_of_isIdentifier hother
  have hrootDot := mark_not_mem_withFragmentSuffix (by decide) hdot
  have hrootDot' := mark_not_mem_withFragmentSuffix (by decide) hdot'
  have hrootBare := mark_not_mem_withFragmentSuffix (by decide) hbare
  have hrootBare' := mark_not_mem_withFragmentSuffix (by decide) hbare'
  intro path h h'
  -- In front of the first mark of a path stands the root or, if the mark is an underscore, the fragment's
  -- name; each case compares two paths up to there.
  cases h with
  | root =>
    generalize hpath : withFragmentSuffix fragment = path at h'
    cases h' with
    | root => exact hroots hpath
    | nested rest => exact hrootDot (hpath ▸ by simp)
    | behind rest => exact hrootBare (hpath ▸ by simp)
  | nested rest =>
    generalize hpath : withFragmentSuffix fragment ++ "." ++ rest = path at h'
    cases h' with
    | root => exact hrootDot' (hpath ▸ by simp)
    | nested rest' =>
      have hlist := congrArg String.toList hpath
      exact hroots (eq_of_append_mark hrootDot hrootDot' (by simpa using hlist)).1
    | behind rest' =>
      have hlist := congrArg String.toList hpath
      exact absurd (eq_of_append_mark hrootBare hdot' (by simpa using hlist)).2 (by decide)
  | behind rest =>
    generalize hpath : fragment ++ "_" ++ rest = path at h'
    cases h' with
    | root => exact hrootBare' (hpath ▸ by simp)
    | nested rest' =>
      have hlist := congrArg String.toList hpath
      exact absurd (eq_of_append_mark hdot hrootBare' (by simpa using hlist)).2 (by decide)
    | behind rest' =>
      have hlist := congrArg String.toList hpath
      exact hne (eq_of_append_mark hbare hbare' (by simpa using hlist)).1

end FragmentShapes.NamingPolicy
