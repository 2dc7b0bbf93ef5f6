import FragmentShapes.Proofs.Selection.Inside
import FragmentShapes.Proofs.Selection.Termination
import Mathlib.Data.List.Perm.Basic

/-!
# What a schema lacks

A field whose type is not known is resolved all the same, from what the document says. None of them goes
unreported: the findings about types and fields that the schema lacks are those that can be read off the
resolved selection, one for each field (`ResolvesLevel.gaps_perm`), but that a type is reported once
only. Main statement: `Fragment.gaps_resolve`.
-/

namespace FragmentShapes

/-! ## Findings -/

namespace Finding

/-- The finding is about something that the schema lacks. -/
def isGap : Finding → Bool
  | unknownType _ | unknownField .. => true
  | _ => false

/-- The type that the finding says to be unknown. -/
def type? : Finding → Option String
  | unknownType type => some type
  | _ => none

theorem mem_filterMap_type? {findings : List Finding} {type : String} :
    type ∈ findings.filterMap type? ↔ .unknownType type ∈ findings := by
  rw [List.mem_filterMap]
  constructor
  · rintro ⟨finding, hmem, htype⟩
    cases finding <;> cases htype
    exact hmem
  · exact fun hmem => ⟨_, hmem, rfl⟩

/-- Reporting once leaves out unknown types only. -/
theorem countP_reportOnce {p : Finding → Bool} (hp : ∀ type, p (.unknownType type) = false)
    (reported : List String) (findings : List Finding) :
    (reportOnce reported findings).countP p = findings.countP p := by
  induction findings generalizing reported with
  | nil => rfl
  | cons finding findings ih =>
    cases finding with
    | unknownType type =>
      rw [reportOnce, List.countP_cons_of_neg (by simp [hp])]
      split_ifs
      · exact ih reported
      · rw [List.countP_cons_of_neg (by simp [hp]), ih]
    | _ =>
      rw [reportOnce, List.countP_cons, List.countP_cons, ih]
      simp

/-- Every unknown type that was not reported before is reported, and no type twice. -/
theorem types_reportOnce (reported : List String) (findings : List Finding) :
    ((reportOnce reported findings).filterMap type?).Nodup ∧
      ∀ type, .unknownType type ∈ reportOnce reported findings ↔
        type ∉ reported ∧ .unknownType type ∈ findings := by
  -- Along the findings, with a type added to those reported where it is reported.
  induction findings generalizing reported with
  | nil => simp [reportOnce]
  | cons finding findings ih =>
    cases finding with
    | unknownType first =>
      rw [reportOnce]
      split_ifs with hreported <;> rw [List.contains_iff_mem] at hreported
      · refine ⟨(ih reported).1, fun type => ?_⟩
        rw [(ih reported).2, List.mem_cons, unknownType.injEq]
        refine and_congr_right fun htype => ⟨.inr, fun h => h.resolve_left ?_⟩
        exact fun heq => htype (heq ▸ hreported)
      · obtain ⟨hnodup, hmem⟩ := ih (first :: reported)
        refine ⟨List.nodup_cons.2 ⟨?_, hnodup⟩, fun type => ?_⟩
        · rw [mem_filterMap_type?, hmem]
          exact fun h => h.1 List.mem_cons_self
        · rw [List.mem_cons, List.mem_cons, hmem, List.mem_cons, unknownType.injEq]
          by_cases htype : type = first
          · simp [htype, hreported]
          · simp [htype]
    | _ =>
      rw [reportOnce, List.filterMap_cons_none rfl]
      · exact ⟨(ih reported).1, fun type => by simp [(ih reported).2]⟩
      · nofun

/-- The diagnostics of unknown types. -/
theorem filter_typeNotFound (fragment : String) (findings : List Finding) :
    (findings.map (·.diagnostic fragment)).filter (·.code = .typeNotFound) =
      (findings.filterMap type?).map fun type => (unknownType type).diagnostic fragment := by
  induction findings with
  | nil => rfl
  | cons finding findings ih =>
    cases finding with
    | unknownType type =>
      rw [List.map_cons, List.filter_cons_of_pos rfl, ih]
      rfl
    | _ =>
      rw [List.map_cons, List.filter_cons_of_neg, ih, List.filterMap_cons_none rfl]
      simp [diagnostic, Diagnostic.report, code]

end Finding

/-! ## What can be read off a selection -/

/-- What there is to report about a field on a type of the schema, or on another one. -/
def SelectedField.gap? (s : Schema) (parent : Option String) (f : SelectedField) : Option Finding :=
  parent.bind fun type =>
    if s.hasType type then
      if f.info.isResolved then none else some (.unknownField f.info.name type)
    else if f.info.name = Selection.typenameField then none
    else some (.unknownType type)

namespace Selection

/-- The fields of the selection and of all those inside it that are on types of the schema and are not
resolved. -/
def unresolvedFields (s : Schema) (sel : Selection) : List SelectedField :=
  (sel.allLevels.filter (·.typeName.any s.hasType)).flatMap fun level =>
    level.fields.filter (!·.info.isResolved)

/-- What there is to report about the fields of one level. -/
def levelGaps (s : Schema) (sel : Selection) : List Finding := sel.fields.filterMap (·.gap? s sel.typeName)

/-- What there is to report about all fields of the selection. -/
def gaps (s : Schema) (sel : Selection) : List Finding := sel.allLevels.flatMap (levelGaps s)

variable {s : Schema}

/-- What there is to report about a field, and about all that stands under it. -/
def fieldGaps (s : Schema) (parent : Option String) (f : SelectedField) : List Finding :=
  (f.gap? s parent).toList ++ f.selection.elim [] (gaps s)

theorem gaps_perm (parent : Option String) (fields : List SelectedField) (variants : List Variant) :
    (gaps s ⟨parent, fields, variants⟩).Perm
      (fields.flatMap (fieldGaps s parent) ++ variants.flatMap (·.selection.gaps s)) := by
  have hlevel : levelGaps s ⟨parent, fields, variants⟩ =
      fields.flatMap fun f => (f.gap? s parent).toList := List.filterMap_eq_flatMap_toList _ _
  have hunder : (fields.flatMap fun f => f.selection.elim [] allLevels).flatMap (levelGaps s) =
      fields.flatMap fun f => f.selection.elim [] (gaps s) := by
    rw [List.flatMap_assoc]
    refine List.flatMap_congr fun f _ => ?_
    cases f.selection <;> rfl
  rw [gaps, allLevels_eq, List.flatMap_cons, List.flatMap_append, hlevel, hunder, List.flatMap_assoc,
    ← List.append_assoc]
  exact (List.flatMap_append_perm _ _ _).append_right _

/-- Unknown fields are reported once for each field that is not resolved on a type of the schema. -/
theorem countP_gaps (sel : Selection) :
    (gaps s sel).countP (·.code = .fieldNotFound) = (sel.unresolvedFields s).length := by
  have hfield (parent : Option String) (f : SelectedField) :
      ((f.gap? s parent).map fun finding => decide (finding.code = .fieldNotFound)).getD false =
        (parent.any s.hasType && !f.info.isResolved) := by
    cases parent with
    | none => rfl
    | some type =>
      rw [SelectedField.gap?, Option.bind_some, Option.any_some]
      cases s.hasType type with
      | true => cases f.info.isResolved <;> rfl
      | false =>
        rw [if_neg Bool.false_ne_true]
        split_ifs <;> rfl
  have hlevel (level : Selection) : (levelGaps s level).countP (·.code = .fieldNotFound) =
      if level.typeName.any s.hasType then (level.fields.filter (!·.info.isResolved)).length else 0 := by
    rw [levelGaps, List.countP_filterMap, ← List.countP_eq_length_filter]
    simp only [hfield]
    split_ifs with htype <;> simp [htype]
  rw [gaps, unresolvedFields]
  induction sel.allLevels with
  | nil => rfl
  | cons level levels ih =>
    rw [List.flatMap_cons, List.countP_append, ih, hlevel, List.filter_cons]
    split_ifs <;> simp

/-- Unknown types are those of the levels that have a field other than `__typename`. -/
theorem mem_gaps_unknownType {sel : Selection} {type : String} :
    .unknownType type ∈ gaps s sel ↔ s.hasType type = false ∧
      ∃ level ∈ sel.allLevels, level.typeName = some type ∧
        ∃ f ∈ level.fields, f.info.name ≠ typenameField := by
  have hgap (parent : Option String) (f : SelectedField) :
      f.gap? s parent = some (.unknownType type) ↔
        s.hasType type = false ∧ parent = some type ∧ f.info.name ≠ typenameField := by
    cases parent with
    | none => simp [SelectedField.gap?]
    | some other =>
      rw [SelectedField.gap?, Option.bind_some]
      by_cases heq : other = type
      · subst heq
        cases s.hasType other <;> cases f.info.isResolved <;> simp
      · cases s.hasType other <;> cases f.info.isResolved <;> simp [heq]
  rw [gaps, List.mem_flatMap]
  simp only [levelGaps, List.mem_filterMap, hgap]
  constructor
  · rintro ⟨level, hlevel, f, hf, hunknown, htype, hname⟩
    exact ⟨hunknown, level, hlevel, htype, f, hf, hname⟩
  · rintro ⟨hunknown, level, hlevel, htype, f, hf, hname⟩
    exact ⟨level, hlevel, f, hf, hunknown, htype, hname⟩

/-! ## What resolution reports -/

variable {c : Context} {known : List Fragment}

theorem isGap_of_drop {parent : Option String} {o : Occurrence} {finding : Finding}
    (h : opening c known parent o = .drop finding) : finding.isGap = false := by
  obtain ⟨entry, trail⟩ := o
  cases entry with
  | field => cases h
  | condition =>
    rw [opening] at h
    split_ifs at h
  | group => cases h
  | spread name =>
    rw [opening] at h
    split at h
    · cases h
      rfl
    · split_ifs at h
      cases h
      rfl

/-- Opening a level finds no gaps. -/
theorem Opens.filter_isGap {parent : Option String} {os : List Occurrence} {parts : List Part}
    {findings : List Finding} (h : Opens c known parent os parts findings) :
    findings.filter Finding.isGap = [] := by
  induction h with
  | nil => rfl
  | keep _ _ ih => exact ih
  | inline _ _ _ ihinner ih => rw [List.filter_append, ihinner, ih, List.append_nil]
  | drop hstep _ ih => rw [List.filter_cons_of_neg (by simp [isGap_of_drop hstep]), ih]

/-- Deciding the conditions of a level finds no gaps. -/
theorem Decides.filter_isGap {parent : Option String} {parts : List Part} {uses : List Use}
    {findings : List Finding} (h : Decides c known parent parts uses findings) :
    findings.filter Finding.isGap = [] := by
  induction h with
  | nil => rfl
  | field _ ih => exact ih
  | fails _ _ ih => exact ih
  | holds _ hopens _ _ ihinner ih =>
    rw [List.filter_append, List.filter_append, hopens.filter_isGap, ihinner, ih]
    rfl

/-- A look-up that finds a definition reports nothing. -/
theorem eq_nil_of_lookUp_some {parent : Option String} {name : String}
    {definition : Schema.FieldDefinition} {noted : List Finding}
    (h : lookUp c parent name = ⟨some definition, noted⟩) : noted = [] := by
  unfold lookUp at h
  repeat' split at h
  all_goals cases h
  rfl

/-- A field that a union lacks is left out, and is no gap of the schema. -/
theorem filter_isGap_of_isOmitted {parent : Option String} {name : String} {noted : List Finding}
    (homitted : isOmitted c parent = true) (h : lookUp c parent name = ⟨none, noted⟩) :
    noted.filter Finding.isGap = [] := by
  unfold isOmitted at homitted
  split at homitted
  · next s type hs =>
    unfold lookUp at h
    rw [hs] at h
    dsimp only at h
    have habstract : s.isAbstract type = true := by rw [Schema.isAbstract_eq, homitted, Bool.or_true]
    rw [if_pos (Schema.hasType_of_isAbstract habstract), homitted] at h
    cases hfield : s.field? type name with
    | some definition => simp [hfield, pure] at h
    | none =>
      rw [hfield] at h
      cases h
      rfl
  · cases homitted

/-- A field that is kept without a definition is reported, or else its type. -/
theorem eq_gap?_of_lookUp_none (hc : c.schema = some s) {parent : Option String} {f : SelectedField}
    (hname : f.info.name ≠ typenameField) (hresolved : f.info.isResolved = false)
    {noted : List Finding} (hkept : isOmitted c parent = false)
    (h : lookUp c parent f.info.name = ⟨none, noted⟩) :
    noted.filter Finding.isGap = (f.gap? s parent).toList := by
  -- A look-up that fails says why: without the type, the type is unknown, else the field is.
  unfold lookUp at h
  unfold isOmitted at hkept
  rw [hc] at h hkept
  cases parent with
  | none =>
    cases h
    rfl
  | some type =>
    dsimp only at h hkept
    rw [SelectedField.gap?, Option.bind_some, hresolved, if_neg hname]
    rw [hkept] at h
    cases htype : s.hasType type with
    | false =>
      rw [htype] at h
      cases h
      rfl
    | true =>
      rw [htype] at h
      cases hfield : s.field? type f.info.name with
      | some definition => simp [hfield, pure] at h
      | none =>
        rw [hfield] at h
        cases h
        rfl

theorem gap?_of_isResolved {parent : Option String} {f : SelectedField}
    (hresolved : f.info.isResolved = true)
    (h : f.info.name = typenameField ∨ parent.any s.hasType = true) : f.gap? s parent = none := by
  cases parent with
  | none => rfl
  | some type =>
    rw [SelectedField.gap?, Option.bind_some, hresolved]
    rcases h with hname | htype
    · simp [hname]
    · rw [Option.any_some] at htype
      simp [htype]

mutual

/-- The gaps that the resolution of a level meets are those that can be read off what it comes to. -/
theorem ResolvesLevel.gaps_perm (hc : c.schema = some s) {parent : Option String}
    {os : List Occurrence} {selection : Selection} {findings : List Finding}
    (h : ResolvesLevel c known parent os selection findings) :
    (findings.filter Finding.isGap).Perm (selection.gaps s) :=
  match h with
  | .discriminated hopens _ hfields hvariants => by
    rw [List.filter_append, List.filter_append, hopens.filter_isGap, List.nil_append]
    exact ((hfields.gaps_perm hc).append (hvariants.gaps_perm hc)).trans (Selection.gaps_perm ..).symm
  | .decided hopens _ hdecides hfields => by
    rw [List.filter_append, List.filter_append, hopens.filter_isGap, hdecides.filter_isGap]
    refine (hfields.gaps_perm hc).trans (.symm ((Selection.gaps_perm _ _ []).trans ?_))
    rw [List.flatMap_nil, List.append_nil]
termination_by structural h

theorem ResolvesUnder.gaps_perm (hc : c.schema = some s) {parent : Option String}
    {os : List Occurrence} {selection : Option Selection} {findings : List Finding}
    (h : ResolvesUnder c known parent os selection findings) :
    (findings.filter Finding.isGap).Perm (selection.elim [] (gaps s)) :=
  match h with
  | .leaf => .nil
  | .object hlevel => hlevel.gaps_perm hc
termination_by structural h

theorem ResolvesField.gaps_perm (hc : c.schema = some s) {parent : Option String} {name : String}
    {uses : List Use} {field : Option SelectedField} {findings : List Finding}
    (h : ResolvesField c known parent name uses field findings) :
    (findings.filter Finding.isGap).Perm (field.toList.flatMap (fieldGaps s parent)) :=
  match h with
  | .typename hunder => by
    rw [Option.toList_some, List.flatMap_singleton, fieldGaps, gap?_of_isResolved rfl (.inl rfl)]
    exact hunder.gaps_perm hc
  | .defined hname hlook hunder => by
    obtain ⟨s', type, hs', rfl, htype, -⟩ := lookUp_eq_some (congrArg Noted.value hlook)
    obtain rfl : s = s' := Option.some.inj (hc.symm.trans hs')
    rw [eq_nil_of_lookUp_some hlook, List.nil_append, Option.toList_some,
      List.flatMap_singleton, fieldGaps, gap?_of_isResolved rfl (.inr (by simpa using htype))]
    exact hunder.gaps_perm hc
  | .omitted _ hlook homitted => by
    rw [filter_isGap_of_isOmitted homitted hlook]
    exact .nil
  | .undefined hname hlook hkept hunder => by
    rw [List.filter_append, Option.toList_some, List.flatMap_singleton, fieldGaps,
      ← eq_gap?_of_lookUp_none hc hname rfl hkept hlook]
    exact (hunder.gaps_perm hc).append_left _
termination_by structural h

theorem ResolvesFields.gaps_perm (hc : c.schema = some s) {parent : Option String}
    {groups : KeyedList (List Use)} {fields : List SelectedField} {findings : List Finding}
    (h : ResolvesFields c known parent groups fields findings) :
    (findings.filter Finding.isGap).Perm (fields.flatMap (fieldGaps s parent)) :=
  match h with
  | .nil => .nil
  | .cons hfield hfields => by
    rw [List.filter_append, List.flatMap_append]
    exact (hfield.gaps_perm hc).append (hfields.gaps_perm hc)
termination_by structural h

theorem ResolvesVariants.gaps_perm (hc : c.schema = some s) {groups : KeyedList (List (List Occurrence))}
    {variants : List Variant} {findings : List Finding}
    (h : ResolvesVariants c known groups variants findings) :
    (findings.filter Finding.isGap).Perm (variants.flatMap (·.selection.gaps s)) :=
  match h with
  | .nil => .nil
  | .cons hlevel hvariants => by
    rw [List.filter_append, List.flatMap_cons]
    exact (hlevel.gaps_perm hc).append (hvariants.gaps_perm hc)
termination_by structural h

end

/-- Where the gaps that were found can be read off a selection, unknown fields are its unresolved ones. -/
theorem countP_fieldNotFound {findings : List Finding} {sel : Selection}
    (h : (findings.filter Finding.isGap).Perm (sel.gaps s)) :
    findings.countP (·.code = .fieldNotFound) = (sel.unresolvedFields s).length := by
  have hgap : findings.countP (·.code = .fieldNotFound) =
      (findings.filter Finding.isGap).countP (·.code = .fieldNotFound) := by
    rw [List.countP_filter]
    refine List.countP_congr fun finding _ => ?_
    cases finding <;> simp [Finding.code, Finding.isGap]
  rw [hgap, h.countP_eq, countP_gaps]

theorem unknownType_mem_iff {findings : List Finding} {sel : Selection} {type : String}
    (h : (findings.filter Finding.isGap).Perm (sel.gaps s)) :
    .unknownType type ∈ findings ↔ s.hasType type = false ∧
      ∃ level ∈ sel.allLevels, level.typeName = some type ∧
        ∃ f ∈ level.fields, f.info.name ≠ typenameField := by
  rw [← mem_gaps_unknownType, ← h.mem_iff, List.mem_filter]
  exact (and_iff_left rfl).symm

end Selection

/-! ## Fragments -/

namespace Fragment

variable {s : Schema} {descriptions : Bool} {f : Fragment}

theorem countP_ownFindings :
    (f.ownFindings { schema := some s, descriptions }).countP (·.code = .fieldNotFound) = 0 := by
  rw [ownFindings]
  split_ifs <;> rfl

theorem unknownType_mem_ownFindings_iff {type : String} :
    .unknownType type ∈ f.ownFindings { schema := some s, descriptions } ↔
      s.hasType type = false ∧ type = f.onType := by
  rw [ownFindings]
  by_cases htype : s.hasType f.onType = true
  · rw [if_neg (by simp [htype])]
    simp only [List.not_mem_nil, false_iff]
    rintro ⟨hunknown, rfl⟩
    exact absurd htype (by simp [hunknown])
  · rw [if_pos (by simp [htype]), List.mem_singleton, Finding.unknownType.injEq]
    refine ⟨fun heq => ⟨?_, heq⟩, And.right⟩
    rw [heq, Bool.eq_false_iff]
    exact htype

/-- With a schema in use, resolution reports an unknown field for each field that is not resolved on a
type of the schema. It reports no unknown type twice, and exactly these: the type of the fragment, if
the schema lacks it, and those of the levels with a field other than `__typename` that the schema
lacks. -/
theorem gaps_resolve (s : Schema) (descriptions : Bool) (known : List Fragment) (f : Fragment) :
    let r := f.resolve { schema := some s, descriptions } known
    r.diagnostics.countP (·.code = .fieldNotFound) = (r.selection.unresolvedFields s).length ∧
      ∃ types : List String,
        r.diagnostics.filter (·.code = .typeNotFound) =
            types.map (fun type => (Finding.unknownType type).diagnostic f.name) ∧
          types.Nodup ∧
          ∀ type, type ∈ types ↔ s.hasType type = false ∧
            (type = f.onType ∨ ∃ level ∈ r.selection.allLevels, level.typeName = some type ∧
              ∃ field ∈ level.fields, field.info.name ≠ Selection.typenameField) := by
  intro r
  obtain ⟨selection, findings, hlevel, hr⟩ :=
    (resolve_terminates { schema := some s, descriptions } known f).1
  change r = _ at hr
  have hgaps := hlevel.gaps_perm rfl
  rw [hr]
  constructor
  · calc (ResolvedFragment.diagnostics _).countP (·.code = .fieldNotFound)
        = (Finding.reportOnce [] (f.ownFindings _ ++ findings)).countP (·.code = .fieldNotFound) :=
          List.countP_map
      _ = findings.countP (·.code = .fieldNotFound) := by
        rw [Finding.countP_reportOnce fun _ => rfl, List.countP_append, countP_ownFindings, Nat.zero_add]
      _ = (selection.unresolvedFields s).length := Selection.countP_fieldNotFound hgaps
  · obtain ⟨hnodup, hmem⟩ := Finding.types_reportOnce []
      (f.ownFindings { schema := some s, descriptions } ++ findings)
    refine ⟨_, Finding.filter_typeNotFound _ _, hnodup, fun type => ?_⟩
    rw [Finding.mem_filterMap_type?, hmem, List.mem_append, unknownType_mem_ownFindings_iff,
      Selection.unknownType_mem_iff hgaps, ← and_or_left]
    exact and_iff_right List.not_mem_nil

end Fragment

end FragmentShapes
