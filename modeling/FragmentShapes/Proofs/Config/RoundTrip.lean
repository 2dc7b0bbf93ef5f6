import FragmentShapes.Proofs.Config.Options
import Mathlib.Data.List.Forall2
import Mathlib.Logic.Relation

/-!
# Configurations written in different ways

The order of the options of an object, their spelling, the case of the name of a policy, and brackets
around a single path make no difference to its configuration (`Config.Rewrites`). A configuration that is
written out is read as itself. Main statement: `Config.ofMembers_rewrites`.
-/

namespace FragmentShapes.Config

/-! ## Ways to write an object -/

/-- The texts differ in the case of letters only. -/
def SameButForCase (text text' : String) : Prop :=
  List.Forall₂ (fun c c' => c' = c ∨ c' = c.toUpper ∨ c' = c.toLower) text.toList text'.toList

/-- The value of an option, written in another way. -/
inductive SameValue (name : String) : Json → Json → Prop
  | same (value : Json) : SameValue name value value
  | recased {text text' : String} (hname : name = "nested_model_behavior")
    (h : SameButForCase text text') : SameValue name (.string text) (.string text')
  | unlisted (path : Json) (hname : name = "schema_file_paths") : SameValue name (.array [path]) path

/-- The members of an object, written in another way: in another order, or with another spelling of an
option or of its value. -/
inductive Rewrites : List (String × Json) → List (String × Json) → Prop
  | permuted {members members' : List (String × Json)} (h : members.Perm members') :
    Rewrites members members'
  | respelled (before behind : List (String × Json)) {name key key' : String} {value value' : Json}
    (hname : name ∈ optionNames) (hkey : Spells key name) (hkey' : Spells key' name)
    (hvalue : SameValue name value value') :
    Rewrites (before ++ (key, value) :: behind) (before ++ (key', value') :: behind)

/-- The lower case of a letter does not depend on its case. -/
theorem toLower_recased (c : Char) :
    c.toUpper.toLower = c.toLower ∧ c.toLower.toLower = c.toLower := by
  by_cases h : c.toNat < 128
  · have hascii : ∀ n : Fin 128, (Char.ofNat n).toUpper.toLower = (Char.ofNat n).toLower ∧
        (Char.ofNat n).toLower.toLower = (Char.ofNat n).toLower := by decide
    have hchar := hascii ⟨c.toNat, h⟩
    rwa [Char.ofNat_toNat] at hchar
  · have hupper : c.toUpper = c := dif_neg fun hletter => by
      have hle : c.toNat ≤ 122 := hletter.2
      omega
    have hlower : c.toLower = c := dif_neg fun hletter => by
      have hle : c.toNat ≤ 90 := hletter.2
      omega
    exact ⟨congrArg Char.toLower hupper, congrArg Char.toLower hlower⟩

theorem toList_toLower (text : String) : text.toLower.toList = text.toList.map Char.toLower :=
  String.toList_map

theorem SameButForCase.toLower_eq {text text' : String} (h : SameButForCase text text') :
    text'.toLower = text.toLower := by
  have hchars : List.Forall₂ (fun c c' => c'.toLower = c.toLower) text.toList text'.toList := by
    refine List.Forall₂.imp ?_ h
    rintro c c' (rfl | rfl | rfl)
    · rfl
    · exact (toLower_recased c).1
    · exact (toLower_recased c).2
  apply String.toList_injective
  rw [toList_toLower, toList_toLower, ← List.forall₂_eq_eq_eq, List.forall₂_map_left_iff,
    List.forall₂_map_right_iff]
  exact hchars.flip

theorem SameValue.eq {name : String} {value value' : Json} (h : SameValue name value value')
    (hpolicy : name ≠ "nested_model_behavior") (hpaths : name ≠ "schema_file_paths") :
    value' = value := by
  cases h with
  | same => rfl
  | recased hname _ => exact absurd hname hpolicy
  | unlisted _ hname => exact absurd hname hpaths

/-- Two entries are of the same option, with values that come to the same. -/
structure SameEntry (entry entry' : String × Json) : Prop where
  option : optionOf? entry'.1 = optionOf? entry.1
  value : ∀ name, optionOf? entry.1 = some name → SameValue name entry.2 entry'.2

theorem SameEntry.refl (entry : String × Json) : SameEntry entry entry := ⟨rfl, fun _ _ => .same _⟩

theorem sameEntry_of_spells {name key key' : String} {value value' : Json} (hname : name ∈ optionNames)
    (hkey : Spells key name) (hkey' : Spells key' name) (hvalue : SameValue name value value') :
    SameEntry (key, value) (key', value') := by
  have hoption : optionOf? key = some name := optionOf?_eq_some_iff.2 ⟨hname, hkey⟩
  have hoption' : optionOf? key' = some name := optionOf?_eq_some_iff.2 ⟨hname, hkey'⟩
  refine ⟨hoption'.trans hoption.symm, fun other hother => ?_⟩
  obtain rfl : name = other := Option.some.inj (hoption.symm.trans hother)
  exact hvalue

variable {members members' : List (String × Json)}

/-- What one rewriting leaves as it is: the options that are given, in some order, and the values of
entries up to their spelling. -/
structure SameOptions (members members' : List (String × Json)) : Prop where
  options : (members.map fun entry => optionOf? entry.1).Perm (members'.map fun entry => optionOf? entry.1)
  forth : ∀ entry ∈ members, ∃ entry' ∈ members', SameEntry entry entry'

theorem Rewrites.sameOptions (h : Rewrites members members') : SameOptions members members' := by
  cases h with
  | permuted h =>
    exact ⟨h.map _, fun entry hentry => ⟨entry, h.subset hentry, .refl entry⟩⟩
  | respelled before behind hname hkey hkey' hvalue =>
    have hsame := sameEntry_of_spells hname hkey hkey' hvalue
    constructor
    · simp [hsame.option]
    · intro entry hentry
      rcases List.mem_append.1 hentry with hbefore | hbehind
      · exact ⟨entry, List.mem_append_left _ hbefore, .refl entry⟩
      · rcases List.mem_cons.1 hbehind with rfl | hbehind
        · exact ⟨_, List.mem_append_right _ List.mem_cons_self, hsame⟩
        · exact ⟨entry, List.mem_append_right _ (List.mem_cons_of_mem _ hbehind), .refl entry⟩

theorem WellKeyed.of_sameOptions (h : WellKeyed members) (hsame : SameOptions members members') :
    WellKeyed members' :=
  ⟨fun hnone => h.spelled (hsame.options.symm.subset hnone), h.distinct.perm hsame.options⟩

theorem Gives.of_sameOptions {α : Type} {name : String} {default a : α}
    {standsFor : Json → α → Prop} (h : Gives members name default standsFor a)
    (hsame : SameOptions members members')
    (hvalue : ∀ value value', SameValue name value value' → standsFor value a → standsFor value' a) :
    Gives members' name default standsFor a := by
  rcases h with ⟨entry, hentry, hoption, hstands⟩ | ⟨hnot, hdefault⟩
  · obtain ⟨entry', hentry', hsame⟩ := hsame.forth entry hentry
    exact .inl ⟨entry', hentry', hsame.option.trans hoption,
      hvalue _ _ (hsame.value name hoption) hstands⟩
  · refine .inr ⟨fun entry' hentry' hoption' => ?_, hdefault⟩
    obtain ⟨entry, hentry, hoption⟩ :=
      List.mem_map.1 (hsame.options.symm.subset (List.mem_map_of_mem hentry'))
    exact hnot entry hentry (hoption.trans hoption')

/-- An option whose value can be written in one way only. -/
theorem Gives.of_sameOptions_plain {α : Type} {name : String} {default a : α}
    {standsFor : Json → α → Prop} (h : Gives members name default standsFor a)
    (hsame : SameOptions members members') (hpolicy : name ≠ "nested_model_behavior")
    (hpaths : name ≠ "schema_file_paths") : Gives members' name default standsFor a :=
  h.of_sameOptions hsame fun _ _ hvalue hstands => hvalue.eq hpolicy hpaths ▸ hstands

/-- One rewriting of an object leaves its configuration as it is. -/
theorem StandsFor.of_sameOptions {c : Config} (h : StandsFor members c)
    (hsame : SameOptions members members') : StandsFor members' c where
  keys := h.keys.of_sameOptions hsame
  -- Only the name of a policy and a list of one path can be written in two ways.
  target := h.target.of_sameOptions_plain hsame (by decide) (by decide)
  immutableTypes := h.immutableTypes.of_sameOptions_plain hsame (by decide) (by decide)
  docComments := h.docComments.of_sameOptions_plain hsame (by decide) (by decide)
  useSchema := h.useSchema.of_sameOptions_plain hsame (by decide) (by decide)
  schemaFiles := by
    refine h.schemaFiles.of_sameOptions hsame fun value value' hvalue hstands => ?_
    cases hvalue with
    | same => exact hstands
    | recased hname _ => exact absurd hname (by decide)
    | unlisted path _ =>
      rcases hstands with hlist | ⟨text, htext, -⟩
      · rw [Json.array.injEq] at hlist
        obtain ⟨text, hsingle, htext⟩ := List.map_eq_singleton_iff.1 hlist.symm
        exact .inr ⟨text, htext.symm, hsingle⟩
      · cases htext
  customScalars := h.customScalars.of_sameOptions_plain hsame (by decide) (by decide)
  enforceNonNull := h.enforceNonNull.of_sameOptions_plain hsame (by decide) (by decide)
  descriptions := h.descriptions.of_sameOptions_plain hsame (by decide) (by decide)
  placement := by
    refine h.placement.of_sameOptions hsame fun value value' hvalue hstands => ?_
    cases hvalue with
    | same => exact hstands
    | recased _ hcase =>
      obtain ⟨text, htext, hpolicy⟩ := hstands
      obtain rfl := Json.string.inj htext
      exact ⟨_, rfl, hpolicy.trans hcase.toLower_eq.symm⟩
    | unlisted _ hname => exact absurd hname (by decide)
  maxDepth := h.maxDepth.of_sameOptions_plain hsame (by decide) (by decide)
  customModelNames := h.customModelNames.of_sameOptions_plain hsame (by decide) (by decide)

theorem StandsFor.rewrites {c : Config} (h : StandsFor members c)
    (hrewrites : Relation.ReflTransGen Rewrites members members') : StandsFor members' c := by
  induction hrewrites with
  | refl => exact h
  | tail _ hstep ih => exact ih.of_sameOptions hstep.sameOptions

/-! ## Writing a configuration out -/

theorem wellKeyed_toMembers (c : Config) : WellKeyed c.toMembers := by
  have hoptions : (c.toMembers.map fun entry => optionOf? entry.1) = optionNames.map optionOf? := rfl
  constructor
  · rw [hoptions]
    decide
  · rw [hoptions]
    decide

theorem toLower_name (policy : PlacementPolicy) : policy.name.toLower = policy.name := by
  apply String.toList_injective
  rw [toList_toLower]
  cases policy <;> decide

theorem standsFor_toMembers {c : Config} (h : c.target ≠ "") : StandsFor c.toMembers c := by
  have hgives {α : Type} {name : String} {default a : α} {standsFor : Json → α → Prop} {value : Json}
      (hentry : (name, value) ∈ c.toMembers) (hname : optionOf? name = some name)
      (hstands : standsFor value a) : Gives c.toMembers name default standsFor a :=
    .inl ⟨_, hentry, hname, hstands⟩
  exact
    { keys := wellKeyed_toMembers c
      target := hgives (by simp [toMembers]) (by decide) ⟨rfl, h⟩
      immutableTypes := hgives (by simp [toMembers]) (by decide) rfl
      docComments := hgives (by simp [toMembers]) (by decide) rfl
      useSchema := hgives (by simp [toMembers]) (by decide) rfl
      schemaFiles := hgives (by simp [toMembers]) (by decide) (.inl rfl)
      customScalars := hgives (by simp [toMembers]) (by decide) rfl
      enforceNonNull := hgives (by simp [toMembers]) (by decide) rfl
      descriptions := hgives (by simp [toMembers]) (by decide) rfl
      placement := hgives (by simp [toMembers]) (by decide) ⟨_, rfl, (toLower_name _).symm⟩
      maxDepth := hgives (by simp [toMembers]) (by decide) rfl
      customModelNames := hgives (by simp [toMembers]) (by decide) rfl }

theorem StandsFor.target_ne {c : Config} (h : StandsFor members c) : c.target ≠ "" := by
  rcases h.target with ⟨_, _, _, _, hne⟩ | ⟨_, hdefault⟩
  · exact hne
  · rw [hdefault]
    decide

/-- The configuration of an object is that of the configuration written out, and that of the object
written in other ways: with the options in another order or in their other spelling, a policy in other
letters, or a single path without brackets. -/
theorem ofMembers_rewrites {c : Config} (hkeys : (members.map Prod.fst).Nodup)
    (h : ofMembers members = .ok c) :
    ofMembers c.toMembers = .ok c ∧
      ∀ members', Relation.ReflTransGen Rewrites members members' → ofMembers members' = .ok c := by
  have hstands := (ofMembers_eq_ok_iff hkeys).1 h
  exact ⟨(standsFor_toMembers hstands.target_ne).ofMembers_eq, fun members' hrewrites =>
    (hstands.rewrites hrewrites).ofMembers_eq⟩

/-- A configuration of four options: with one of them spelled differently and the policy in other
letters, then without the brackets, then with the path in front. -/
theorem ofMembers_rewrites_mixed :
    let members : List (String × Json) :=
      [("namespace", .string "app"), ("nestedModelBehavior", .string "Mixed"),
        ("schema_file_paths", .array [.string "a.graphql"]), ("maxNestedDepth", .integer 2)]
    let c : Config :=
      { target := "app", schemaFiles := ["a.graphql"], placement := .mixed, maxDepth := 2 }
    ((members.map Prod.fst).Nodup ∧ ofMembers members = .ok c) ∧
      ofMembers c.toMembers = .ok c ∧
      ofMembers [("schemaFilePaths", .string "a.graphql"), ("namespace", .string "app"),
        ("nested_model_behavior", .string "mIXED"), ("maxNestedDepth", .integer 2)] = .ok c := by
  intro members c
  have hkeys : (members.map Prod.fst).Nodup := by decide
  have hread : ofMembers members = .ok c := by decide +kernel
  obtain ⟨hwritten, hrewritten⟩ := ofMembers_rewrites hkeys hread
  refine ⟨⟨hkeys, hread⟩, hwritten, hrewritten _ ?_⟩
  have hletters : SameButForCase "Mixed" "mIXED" := by
    rw [SameButForCase]
    decide
  have hpolicy : Rewrites members
      [("namespace", .string "app"), ("nested_model_behavior", .string "mIXED"),
        ("schema_file_paths", .array [.string "a.graphql"]), ("maxNestedDepth", .integer 2)] :=
    have hname : "nested_model_behavior" ∈ optionNames := by decide
    .respelled [("namespace", .string "app")] _ hname (.inr (by decide)) (.inl rfl)
      (.recased rfl hletters)
  have hpath : Rewrites
      [("namespace", .string "app"), ("nested_model_behavior", .string "mIXED"),
        ("schema_file_paths", .array [.string "a.graphql"]), ("maxNestedDepth", .integer 2)]
      [("namespace", .string "app"), ("nested_model_behavior", .string "mIXED"),
        ("schemaFilePaths", .string "a.graphql"), ("maxNestedDepth", .integer 2)] :=
    have hname : "schema_file_paths" ∈ optionNames := by decide
    .respelled [("namespace", .string "app"), ("nested_model_behavior", .string "mIXED")] _ hname
      (.inl rfl) (.inr (by decide)) (.unlisted _ rfl)
  have hswapped : Rewrites
      [("namespace", .string "app"), ("nested_model_behavior", .string "mIXED"),
        ("schemaFilePaths", .string "a.graphql"), ("maxNestedDepth", .integer 2)]
      [("schemaFilePaths", .string "a.graphql"), ("namespace", .string "app"),
        ("nested_model_behavior", .string "mIXED"), ("maxNestedDepth", .integer 2)] :=
    .permuted (((List.Perm.swap _ _ _).cons _).trans (List.Perm.swap _ _ _))
  exact ((Relation.ReflTransGen.single hpolicy).tail hpath).tail hswapped

end FragmentShapes.Config
