import FragmentShapes.Proofs.Selection.Spread
import FragmentShapes.Proofs.Selection.Walks

/-!
# What is found about spreads

Resolution finds nothing about spreads but what the spreads of a level lead to (`leads_of_found`), and
without a schema it finds all of that (`found_of_leads`), since then no condition is decided and no field
is left out. So a cycle is reported if one can be reached, and a name if a fragment that can be reached
spreads it and none has it. Main statement: `Fragment.spread_diagnostics_resolve`.
-/

namespace FragmentShapes

open Relation (ReflTransGen TransGen)

/-- The finding is about a spread. -/
def Finding.IsOfSpread : Finding → Prop
  | unknownSpread _ | spreadCycle _ => True
  | _ => False

namespace Selection

open Fragment

variable {c : Context} {known : List Fragment} {parent : Option String} {finding : Finding}

/-- What the spreads of an occurrence lead to. -/
def Occurrence.Leads (known : List Fragment) (o : Occurrence) (finding : Finding) : Prop :=
  ∃ name ∈ o.entry.spreads, Fragment.Leads known o.trail name finding

/-- What the spreads of occurrences lead to. -/
def Occurrence.AnyLeads (known : List Fragment) (os : List Occurrence) (finding : Finding) : Prop :=
  ∃ o ∈ os, o.Leads known finding

section AnyLeads

variable {os os' : List Occurrence}

@[simp] theorem anyLeads_nil : ¬ Occurrence.AnyLeads known [] finding := by
  simp [Occurrence.AnyLeads]

@[simp] theorem anyLeads_cons {o : Occurrence} : Occurrence.AnyLeads known (o :: os) finding ↔
    o.Leads known finding ∨ Occurrence.AnyLeads known os finding := by
  simp [Occurrence.AnyLeads]

@[simp] theorem anyLeads_append : Occurrence.AnyLeads known (os ++ os') finding ↔
    Occurrence.AnyLeads known os finding ∨ Occurrence.AnyLeads known os' finding := by
  simp [Occurrence.AnyLeads, or_and_right, exists_or]

theorem anyLeads_mono (h : os ⊆ os') (hleads : Occurrence.AnyLeads known os finding) :
    Occurrence.AnyLeads known os' finding :=
  hleads.imp fun _ ho => ho.imp_left (@h _)

theorem anyLeads_all {trail : List String} {entries : List Entry} :
    Occurrence.AnyLeads known (Occurrence.all trail entries) finding ↔
      ∃ name ∈ Entry.spreadsAll entries, Fragment.Leads known trail name finding := by
  constructor
  · rintro ⟨o, ho, name, hname, h⟩
    obtain ⟨entry, hentry, rfl⟩ := List.mem_map.1 ho
    exact ⟨name, mem_spreadsAll.2 ⟨entry, hentry, hname⟩, h⟩
  · rintro ⟨name, hname, h⟩
    obtain ⟨entry, hentry, hname⟩ := mem_spreadsAll.1 hname
    exact ⟨_, List.mem_map_of_mem hentry, name, hname, h⟩

end AnyLeads

/-- What is found when an occurrence is opened, or under what comes of it. -/
def Opening.Leads (known : List Fragment) (finding : Finding) : Opening → Prop
  | .keep part => Occurrence.AnyLeads known part.children finding
  | .inline children => Occurrence.AnyLeads known children finding
  | .drop found => finding = found

/-- Opening an occurrence keeps what it leads to. -/
theorem leads_opening (c : Context) (parent : Option String) {o : Occurrence} :
    (opening c known parent o).Leads known finding ↔ o.Leads known finding := by
  obtain ⟨entry, trail⟩ := o
  cases entry with
  | field head selection => exact anyLeads_all
  | condition on label selection =>
    rw [opening]
    split_ifs
    · exact anyLeads_all
    · exact anyLeads_all
  | group selection => exact anyLeads_all
  | spread name =>
    have hspread : Occurrence.Leads known ⟨.spread name, trail⟩ finding ↔
        Fragment.Leads known trail name finding := by
      simp [Occurrence.Leads, Entry.spreads]
    rw [hspread, opening]
    cases hfind : find? name known with
    | none => exact (leads_iff_of_find?_eq_none hfind).symm
    | some f =>
      dsimp only
      split_ifs with hmem hnarrows
      · exact (leads_iff_of_mem hfind hmem).symm
      · rw [leads_iff_of_not_mem hfind hmem]
        simp [Opening.Leads, Part.children, Occurrence.AnyLeads, Occurrence.Leads, Entry.spreads]
      · rw [leads_iff_of_not_mem hfind hmem]
        exact anyLeads_all

/-! ## What a level finds -/

/-- What occurrences lead to is found when they are opened to a level, or stands under its parts. -/
theorem Opens.leads_iff {os : List Occurrence} {parts : List Part} {findings : List Finding}
    (h : Opens c known parent os parts findings) :
    Occurrence.AnyLeads known os finding ↔
      finding ∈ findings ∨ Occurrence.AnyLeads known (parts.flatMap Part.children) finding := by
  induction h with
  | nil => simp
  | keep hstep _ ih =>
    rw [anyLeads_cons, ih, ← leads_opening c parent, hstep, List.flatMap_cons,
      anyLeads_append]
    exact or_left_comm
  | inline hstep _ _ ihinner ih =>
    rw [anyLeads_cons, ih, ← leads_opening c parent, hstep, Opening.Leads, ihinner,
      List.mem_append, List.flatMap_append, anyLeads_append]
    exact or_or_or_comm
  | drop hstep _ ih =>
    rw [anyLeads_cons, ih, ← leads_opening c parent, hstep, List.mem_cons, or_assoc]
    rfl

/-- Deciding the conditions of a level finds only what its parts lead to. -/
theorem Decides.leads_of_found {parts : List Part} {uses : List Use} {findings : List Finding}
    (h : Decides c known parent parts uses findings)
    (hfound : finding ∈ findings ∨ Occurrence.AnyLeads known (uses.flatMap (·.2)) finding) :
    Occurrence.AnyLeads known (parts.flatMap Part.children) finding := by
  induction h with
  | nil => simp at hfound
  | field _ ih =>
    rw [List.flatMap_cons, anyLeads_append, or_left_comm] at hfound
    rw [List.flatMap_cons, anyLeads_append]
    exact hfound.imp_right ih
  | fails _ _ ih =>
    rw [List.flatMap_cons, anyLeads_append]
    exact .inr (ih hfound)
  | holds _ hopens _ _ ihinner ih =>
    rw [List.flatMap_append, anyLeads_append, List.mem_append, List.mem_append] at hfound
    rw [List.flatMap_cons, anyLeads_append, Part.children, hopens.leads_iff]
    rcases hfound with ((hmet | hinner) | hrest) | hinner | hrest
    · exact .inl (.inl hmet)
    · exact .inl (.inr (ihinner (.inl hinner)))
    · exact .inr (ih (.inl hrest))
    · exact .inl (.inr (ihinner (.inr hinner)))
    · exact .inr (ih (.inr hrest))

/-- Grouping the uses of a level by name keeps what they lead to. -/
theorem anyLeads_useGroups {uses : List Use} :
    Occurrence.AnyLeads known ((useGroups uses).flatMap (·.2.flatMap (·.2))) finding ↔
      Occurrence.AnyLeads known (uses.flatMap (·.2)) finding := by
  constructor
  · refine anyLeads_mono fun o ho => ?_
    obtain ⟨group, hgroup, ho⟩ := List.mem_flatMap.1 ho
    obtain ⟨use, huse, ho⟩ := List.mem_flatMap.1 ho
    exact List.mem_flatMap.2 ⟨use, (mem_useGroups hgroup huse).1, ho⟩
  · refine anyLeads_mono fun o ho => ?_
    obtain ⟨use, huse, ho⟩ := List.mem_flatMap.1 ho
    have hpair : (use.1.name, use) ∈ uses.map fun use => (use.1.name, use) := List.mem_map_of_mem huse
    obtain ⟨group, hgroup, hmem⟩ := KeyedList.exists_mem_groupPairs hpair
    exact List.mem_flatMap.2 ⟨_, hgroup, List.mem_flatMap.2 ⟨use, hmem, ho⟩⟩

/-- What stands under the members of a level stands under its parts. -/
theorem anyLeads_of_members (c : Context) (parent : Option String) {parts : List Part}
    (h : Occurrence.AnyLeads known ((partUses parts).flatMap (·.2)) finding ∨
      Occurrence.AnyLeads known ((conditionGroups c parent parts).flatMap (·.2.flatten)) finding) :
    Occurrence.AnyLeads known (parts.flatMap Part.children) finding := by
  rcases h with h | h
  · refine anyLeads_mono (fun o ho => ?_) h
    obtain ⟨use, huse, ho⟩ := List.mem_flatMap.1 ho
    exact List.mem_flatMap.2 ⟨_, mem_partUses.1 huse, ho⟩
  · refine anyLeads_mono (fun o ho => ?_) h
    obtain ⟨group, hgroup, ho⟩ := List.mem_flatMap.1 ho
    exact List.mem_flatMap.2 (mem_conditionGroups hgroup ho)

theorem not_isOfSpread_of_lookUp {name : String} {definition : Option Schema.FieldDefinition}
    {noted : List Finding} (h : lookUp c parent name = ⟨definition, noted⟩) (hnoted : finding ∈ noted) :
    ¬ finding.IsOfSpread := by
  unfold lookUp at h
  repeat' split at h
  all_goals
    cases h
    rcases hnoted with _ | ⟨_, ⟨⟩⟩ <;> exact not_false

mutual

/-- What is found about spreads when a level is resolved is what its occurrences lead to. -/
theorem ResolvesLevel.leads_of_found (hspread : finding.IsOfSpread) {parent : Option String}
    {os : List Occurrence} {selection : Selection} {findings : List Finding}
    (h : ResolvesLevel c known parent os selection findings) (hfound : finding ∈ findings) :
    Occurrence.AnyLeads known os finding :=
  match h with
  | .discriminated hopens _ hfields hvariants => by
    rw [hopens.leads_iff]
    rw [List.mem_append, List.mem_append] at hfound
    refine hfound.imp_right fun hfound => anyLeads_of_members c parent ?_
    refine hfound.imp (fun hfound => ?_) (hvariants.leads_of_found hspread)
    exact anyLeads_useGroups.1 (hfields.leads_of_found hspread hfound)
  | .decided hopens _ hdecides hfields => by
    rw [hopens.leads_iff]
    rw [List.mem_append, List.mem_append] at hfound
    refine hfound.imp_right fun hfound => hdecides.leads_of_found (hfound.imp_right fun hfound => ?_)
    exact anyLeads_useGroups.1 (hfields.leads_of_found hspread hfound)
termination_by structural h

theorem ResolvesUnder.leads_of_found (hspread : finding.IsOfSpread) {parent : Option String}
    {os : List Occurrence} {selection : Option Selection} {findings : List Finding}
    (h : ResolvesUnder c known parent os selection findings) (hfound : finding ∈ findings) :
    Occurrence.AnyLeads known os finding :=
  match h with
  | .leaf => by cases hfound
  | .object hlevel => hlevel.leads_of_found hspread hfound
termination_by structural h

theorem ResolvesField.leads_of_found (hspread : finding.IsOfSpread) {parent : Option String}
    {name : String} {uses : List Use} {field : Option SelectedField} {findings : List Finding}
    (h : ResolvesField c known parent name uses field findings) (hfound : finding ∈ findings) :
    Occurrence.AnyLeads known (uses.flatMap (·.2)) finding :=
  match h with
  | .typename hunder => hunder.leads_of_found hspread hfound
  | .defined _ hlook hunder => by
    rcases List.mem_append.1 hfound with hnoted | hfound
    · exact absurd hspread (not_isOfSpread_of_lookUp hlook hnoted)
    · exact hunder.leads_of_found hspread hfound
  | .omitted _ hlook _ => absurd hspread (not_isOfSpread_of_lookUp hlook hfound)
  | .undefined _ hlook _ hunder => by
    rcases List.mem_append.1 hfound with hnoted | hfound
    · exact absurd hspread (not_isOfSpread_of_lookUp hlook hnoted)
    · exact hunder.leads_of_found hspread hfound
termination_by structural h

theorem ResolvesFields.leads_of_found (hspread : finding.IsOfSpread) {parent : Option String}
    {groups : KeyedList (List Use)} {fields : List SelectedField} {findings : List Finding}
    (h : ResolvesFields c known parent groups fields findings) (hfound : finding ∈ findings) :
    Occurrence.AnyLeads known (groups.flatMap (·.2.flatMap (·.2))) finding :=
  match h with
  | .nil => by cases hfound
  | .cons hfield hfields => by
    rw [List.flatMap_cons, anyLeads_append]
    exact (List.mem_append.1 hfound).imp (hfield.leads_of_found hspread)
      (hfields.leads_of_found hspread)
termination_by structural h

theorem ResolvesVariants.leads_of_found (hspread : finding.IsOfSpread)
    {groups : KeyedList (List (List Occurrence))} {variants : List Variant} {findings : List Finding}
    (h : ResolvesVariants c known groups variants findings) (hfound : finding ∈ findings) :
    Occurrence.AnyLeads known (groups.flatMap (·.2.flatten)) finding :=
  match h with
  | .nil => by cases hfound
  | .cons hlevel hvariants => by
    rw [List.flatMap_cons, anyLeads_append]
    exact (List.mem_append.1 hfound).imp (hlevel.leads_of_found hspread)
      (hvariants.leads_of_found hspread)
termination_by structural h

end

/-! ## Without a schema -/

theorem applies_of_no_schema (hc : c.schema = none) (on : String) : c.applies parent on = true := by
  simp [Context.applies, hc]

/-- Without a schema every condition is taken to hold. -/
theorem Decides.found_of_leads (hc : c.schema = none) {parts : List Part} {uses : List Use}
    {findings : List Finding} (h : Decides c known parent parts uses findings)
    (hleads : Occurrence.AnyLeads known (parts.flatMap Part.children) finding) :
    finding ∈ findings ∨ Occurrence.AnyLeads known (uses.flatMap (·.2)) finding := by
  induction h with
  | nil => simp at hleads
  | field _ ih =>
    rw [List.flatMap_cons, anyLeads_append] at hleads
    rw [List.flatMap_cons, anyLeads_append, or_left_comm]
    exact hleads.imp_right ih
  | fails happlies => cases happlies.symm.trans (applies_of_no_schema hc _)
  | holds _ hopens _ _ ihinner ih =>
    rw [List.flatMap_cons, anyLeads_append, Part.children, hopens.leads_iff] at hleads
    rw [List.flatMap_append, anyLeads_append, List.mem_append, List.mem_append]
    rcases hleads with (hmet | hinner) | hrest
    · exact .inl (.inl (.inl hmet))
    · rcases ihinner hinner with hinner | hinner
      · exact .inl (.inl (.inr hinner))
      · exact .inr (.inl hinner)
    · rcases ih hrest with hrest | hrest
      · exact .inl (.inr hrest)
      · exact .inr (.inr hrest)

theorem exists_mem_conditionGroups {parent : Option String} {on concrete : String}
    {parts : List Part} {children : List Occurrence} (hpart : .condition on children ∈ parts)
    (hconcrete : concrete ∈ c.variantTypes parent on) :
    ∃ group ∈ conditionGroups c parent parts, children ∈ group.2 := by
  refine (KeyedList.exists_mem_groupPairs (List.mem_flatMap.2 ⟨_, hpart, ?_⟩)).imp'
    (fun values => (concrete, values)) fun _ => id
  exact List.mem_map_of_mem hconcrete

/-- Without a schema every condition becomes a variant. -/
theorem members_of_anyLeads (hc : c.schema = none) (parent : Option String) {parts : List Part}
    (h : Occurrence.AnyLeads known (parts.flatMap Part.children) finding) :
    Occurrence.AnyLeads known ((partUses parts).flatMap (·.2)) finding ∨
      Occurrence.AnyLeads known ((conditionGroups c parent parts).flatMap (·.2.flatten)) finding := by
  obtain ⟨o, ho, hleads⟩ := h
  obtain ⟨part, hpart, ho⟩ := List.mem_flatMap.1 ho
  cases part with
  | field use => exact .inl ⟨o, List.mem_flatMap.2 ⟨use, mem_partUses.2 hpart, ho⟩, hleads⟩
  | condition on children =>
    have hon : on ∈ c.variantTypes parent on := by simp [Context.variantTypes, hc]
    obtain ⟨group, hgroup, hmem⟩ := exists_mem_conditionGroups hpart hon
    exact .inr ⟨o, List.mem_flatMap.2 ⟨group, hgroup, List.mem_flatten.2 ⟨children, hmem, ho⟩⟩, hleads⟩

mutual

/-- Without a schema all that the occurrences of a level lead to is found. -/
theorem ResolvesLevel.found_of_leads (hc : c.schema = none) {parent : Option String}
    {os : List Occurrence} {selection : Selection} {findings : List Finding}
    (h : ResolvesLevel c known parent os selection findings)
    (hleads : Occurrence.AnyLeads known os finding) : finding ∈ findings :=
  match h with
  | .discriminated hopens _ hfields hvariants => by
    rw [hopens.leads_iff] at hleads
    rw [List.mem_append, List.mem_append]
    refine hleads.imp_right fun hleads => ?_
    refine (members_of_anyLeads hc parent hleads).imp (fun hleads => ?_)
      (hvariants.found_of_leads hc)
    exact hfields.found_of_leads hc (anyLeads_useGroups.2 hleads)
  | .decided hopens _ hdecides hfields => by
    rw [hopens.leads_iff] at hleads
    rw [List.mem_append, List.mem_append]
    refine hleads.imp_right fun hleads => (hdecides.found_of_leads hc hleads).imp_right fun hleads => ?_
    exact hfields.found_of_leads hc (anyLeads_useGroups.2 hleads)
termination_by structural h

theorem ResolvesUnder.found_of_leads (hc : c.schema = none) {parent : Option String}
    {os : List Occurrence} {selection : Option Selection} {findings : List Finding}
    (h : ResolvesUnder c known parent os selection findings)
    (hleads : Occurrence.AnyLeads known os finding) : finding ∈ findings :=
  match h with
  | .leaf => by simp at hleads
  | .object hlevel => hlevel.found_of_leads hc hleads
termination_by structural h

theorem ResolvesField.found_of_leads (hc : c.schema = none) {parent : Option String} {name : String}
    {uses : List Use} {field : Option SelectedField} {findings : List Finding}
    (h : ResolvesField c known parent name uses field findings)
    (hleads : Occurrence.AnyLeads known (uses.flatMap (·.2)) finding) : finding ∈ findings :=
  match h with
  | .typename hunder => hunder.found_of_leads hc hleads
  | .defined _ _ hunder => List.mem_append_right _ (hunder.found_of_leads hc hleads)
  | .omitted _ _ homitted => by simp [isOmitted, hc] at homitted
  | .undefined _ _ _ hunder => List.mem_append_right _ (hunder.found_of_leads hc hleads)
termination_by structural h

theorem ResolvesFields.found_of_leads (hc : c.schema = none) {parent : Option String}
    {groups : KeyedList (List Use)} {fields : List SelectedField} {findings : List Finding}
    (h : ResolvesFields c known parent groups fields findings)
    (hleads : Occurrence.AnyLeads known (groups.flatMap (·.2.flatMap (·.2))) finding) :
    finding ∈ findings :=
  match h with
  | .nil => by simp at hleads
  | .cons hfield hfields => by
    rw [List.flatMap_cons, anyLeads_append] at hleads
    exact List.mem_append.2 (hleads.imp (hfield.found_of_leads hc) (hfields.found_of_leads hc))
termination_by structural h

theorem ResolvesVariants.found_of_leads (hc : c.schema = none)
    {groups : KeyedList (List (List Occurrence))} {variants : List Variant} {findings : List Finding}
    (h : ResolvesVariants c known groups variants findings)
    (hleads : Occurrence.AnyLeads known (groups.flatMap (·.2.flatten)) finding) :
    finding ∈ findings :=
  match h with
  | .nil => by simp at hleads
  | .cons hlevel hvariants => by
    rw [List.flatMap_cons, anyLeads_append] at hleads
    exact List.mem_append.2 (hleads.imp (hlevel.found_of_leads hc) (hvariants.found_of_leads hc))
termination_by structural h

end

end Selection

/-! ## Fragments -/

theorem Finding.mem_reportOnce {finding : Finding} (h : finding.IsOfSpread) (reported : List String)
    (findings : List Finding) : finding ∈ reportOnce reported findings ↔ finding ∈ findings := by
  rw [← List.count_pos_iff, count_reportOnce, ← List.count_pos_iff]
  cases finding with
  | unknownType => cases h
  | _ => rfl

/-- The message about an unknown name tells the name. -/
theorem Finding.eq_of_message {name other : String}
    (h : (unknownSpread other).message = (unknownSpread name).message) : other = name := by
  have hmessage (name : String) : (unknownSpread name).message =
      "Fragment spread '..." ++ name ++ "' refers to an unknown fragment" := rfl
  rw [hmessage, hmessage] at h
  have hlist := congrArg String.toList h
  rw [String.toList_append, String.toList_append, String.toList_append, String.toList_append] at hlist
  exact String.toList_inj.1 (List.append_cancel_left (List.append_cancel_right hlist))

namespace Fragment

variable {known : List Fragment} {f : Fragment} {finding : Finding} {c : Selection.Context}

theorem find?_of_nodup (hknown : (known.map (·.name)).Nodup) (hf : f ∈ known) :
    find? f.name known = some f := by
  have hsome : (find? f.name known).isSome := List.find?_isSome.2 ⟨f, hf, decide_eq_true rfl⟩
  obtain ⟨g, hg⟩ := Option.isSome_iff_exists.1 hsome
  have hname : g.name = f.name := by simpa using List.find?_some hg
  rw [hg, List.inj_on_of_nodup_map hknown (List.mem_of_find?_eq_some hg) hf hname]

theorem anyLeads_start (hf : find? f.name known = some f) :
    Selection.Occurrence.AnyLeads known (Selection.Occurrence.all [f.name] f.entries) finding ↔
      ∃ walk last, f.name ∈ walk.head? ∧ (walk ++ [last]).IsChain (Spreads known) ∧ walk.Nodup ∧
        Ends known walk last finding := by
  have hspreads (name : String) : Spreads known f.name name ↔ name ∈ Entry.spreadsAll f.entries := by
    rw [Spreads, spreadsOf, hf]
    rfl
  rw [Selection.anyLeads_all, ← leads_iff_walk]
  simp only [hspreads]

theorem not_isOfSpread_of_mem_ownFindings (h : finding ∈ f.ownFindings c) : ¬ finding.IsOfSpread := by
  rw [ownFindings] at h
  split_ifs at h
  · rw [List.mem_singleton.1 h]
    exact not_false
  · cases h

/-- What is reported about spreads stands at the end of a simple walk from the fragment. -/
theorem exists_walk_of_mem_findings (hf : find? f.name known = some f) (hspread : finding.IsOfSpread)
    (h : finding ∈ (f.resolve c known).findings) :
    ∃ walk last, f.name ∈ walk.head? ∧ (walk ++ [last]).IsChain (Spreads known) ∧ walk.Nodup ∧
      Ends known walk last finding := by
  obtain ⟨selection, findings, hlevel, hr⟩ := (resolve_terminates c known f).1
  rw [hr, Finding.mem_reportOnce hspread, List.mem_append] at h
  rw [← anyLeads_start hf]
  refine hlevel.leads_of_found hspread (h.resolve_left fun hown => ?_)
  exact not_isOfSpread_of_mem_ownFindings hown hspread

/-- Without a schema, what stands at the end of a simple walk from the fragment is reported. -/
theorem mem_findings_of_walk (hf : find? f.name known = some f) (hc : c.schema = none)
    (hspread : finding.IsOfSpread) {walk : List String} {last : String} (hfirst : f.name ∈ walk.head?)
    (hchain : (walk ++ [last]).IsChain (Spreads known)) (hnodup : walk.Nodup)
    (hends : Ends known walk last finding) : finding ∈ (f.resolve c known).findings := by
  obtain ⟨selection, findings, hlevel, hr⟩ := (resolve_terminates c known f).1
  rw [hr, Finding.mem_reportOnce hspread, List.mem_append]
  exact .inr (hlevel.found_of_leads hc ((anyLeads_start hf).2 ⟨walk, last, hfirst, hchain, hnodup, hends⟩))

/-- A name that no fragment has is reported by what it is. -/
theorem mem_diagnostics_unknownSpread {r : ResolvedFragment} {name : String} :
    (Finding.unknownSpread name).diagnostic r.name ∈ r.diagnostics ↔ .unknownSpread name ∈ r.findings := by
  rw [ResolvedFragment.diagnostics, List.mem_map]
  constructor
  · rintro ⟨found, hfound, heq⟩
    have hcode : found.code = .fragmentSpreadNotFound := congrArg Diagnostic.code heq
    cases found with
    | unknownSpread other =>
      obtain rfl := Finding.eq_of_message (congrArg Diagnostic.message heq)
      exact hfound
    | _ => cases hcode
  · exact fun h => ⟨_, h, rfl⟩

theorem hasCode_spreadCycle_iff {r : ResolvedFragment} :
    Diagnostic.hasCode .spreadCycle r.diagnostics = true ↔ ∃ chain, .spreadCycle chain ∈ r.findings := by
  rw [Diagnostic.hasCode, ResolvedFragment.diagnostics, List.any_map, List.any_eq_true]
  constructor
  · rintro ⟨found, hfound, hcode⟩
    have hcode : found.code = .spreadCycle := of_decide_eq_true hcode
    cases found with
    | spreadCycle chain => exact ⟨chain, hfound⟩
    | _ => cases hcode
  · exact fun ⟨chain, hchain⟩ => ⟨_, hchain, rfl⟩

/-- The chain of a cycle is a walk from the fragment that comes to its last name a second time. -/
theorem exists_closed_walk_of_mem_findings (hf : find? f.name known = some f) {chain : List String}
    (h : .spreadCycle chain ∈ (f.resolve c known).findings) :
    ∃ walk last, chain = walk ++ [last] ∧ f.name ∈ walk.head? ∧
      (walk ++ [last]).IsChain (Spreads known) ∧ walk.Nodup ∧ last ∈ walk := by
  have hspread : (Finding.spreadCycle chain).IsOfSpread := trivial
  obtain ⟨walk, last, hfirst, hchain, hnodup, hends⟩ := exists_walk_of_mem_findings hf hspread h
  rcases hends with ⟨-, heq⟩ | ⟨hlast, heq⟩
  · cases heq
  · exact ⟨walk, last, Finding.spreadCycle.inj heq, hfirst, hchain, hnodup, hlast⟩

/-- Without a schema, cycles are reported exactly if one can be reached. -/
theorem exists_spreadCycle_iff (hf : find? f.name known = some f) (hc : c.schema = none) :
    (∃ chain, .spreadCycle chain ∈ (f.resolve c known).findings) ↔
      ∃ name, ReflTransGen (Spreads known) f.name name ∧ TransGen (Spreads known) name name := by
  rw [← exists_closed_walk_iff]
  constructor
  · rintro ⟨chain, h⟩
    obtain ⟨walk, last, -, hwalk⟩ := exists_closed_walk_of_mem_findings hf h
    exact ⟨walk, last, hwalk⟩
  · rintro ⟨walk, last, hfirst, hchain, hnodup, hlast⟩
    exact ⟨walk ++ [last], mem_findings_of_walk hf hc trivial hfirst hchain hnodup (.inr ⟨hlast, rfl⟩)⟩

/-- Without a schema, a name is reported exactly if it is spread where it can be reached, and unknown. -/
theorem unknownSpread_mem_findings_iff (hf : find? f.name known = some f) (hc : c.schema = none)
    {name : String} : .unknownSpread name ∈ (f.resolve c known).findings ↔
      (∃ outer, ReflTransGen (Spreads known) f.name outer ∧ Spreads known outer name) ∧
        find? name known = none := by
  rw [← exists_walk_iff]
  constructor
  · intro h
    have hspread : (Finding.unknownSpread name).IsOfSpread := trivial
    obtain ⟨walk, last, hfirst, hchain, hnodup, hends⟩ := exists_walk_of_mem_findings hf hspread h
    rcases hends with ⟨hnone, heq⟩ | ⟨-, heq⟩
    · obtain rfl := Finding.unknownSpread.inj heq
      exact ⟨⟨walk, hfirst, hchain, hnodup⟩, hnone⟩
    · cases heq
  · rintro ⟨⟨walk, hfirst, hchain, hnodup⟩, hnone⟩
    exact mem_findings_of_walk hf hc trivial hfirst hchain hnodup (.inl ⟨hnone, rfl⟩)

/-- Where names are distinct, the spread graph is that of the fragments. -/
theorem exists_spreads_iff (hknown : (known.map (·.name)).Nodup) {first name : String} :
    (∃ outer, ReflTransGen (Spreads known) first outer ∧ Spreads known outer name) ↔
      ∃ g ∈ known, ReflTransGen (Spreads known) first g.name ∧ name ∈ Entry.spreadsAll g.entries := by
  constructor
  · rintro ⟨outer, hreach, hspreads⟩
    obtain ⟨g, hg, hname⟩ := exists_of_spreads hspreads
    obtain rfl : g.name = outer := by simpa using List.find?_some hg
    exact ⟨g, List.mem_of_find?_eq_some hg, hreach, hname⟩
  · rintro ⟨g, hg, hreach, hname⟩
    exact ⟨g.name, hreach, spreads_of_mem (find?_of_nodup hknown hg) hname⟩

theorem find?_eq_none_iff {name : String} : find? name known = none ↔ ∀ g ∈ known, g.name ≠ name := by
  simp [find?, List.find?_eq_none]

/-- The findings about spreads, without a schema: a cycle if one can be reached, and the names that
fragments spread that can be reached, and no fragment has. In all cases the chain of a cycle is a walk of
the spread graph from the fragment that comes to its last name a second time, and to no other. -/
theorem spread_diagnostics_resolve (hknown : (known.map (·.name)).Nodup) (hf : f ∈ known) :
    (∀ descriptions,
      (Diagnostic.hasCode .spreadCycle (f.resolve { schema := none, descriptions } known).diagnostics =
          true ↔
        ∃ name, ReflTransGen (Spreads known) f.name name ∧ TransGen (Spreads known) name name) ∧
      ∀ name, (Finding.unknownSpread name).diagnostic f.name ∈
          (f.resolve { schema := none, descriptions } known).diagnostics ↔
        (∃ g ∈ known, ReflTransGen (Spreads known) f.name g.name ∧
          name ∈ Entry.spreadsAll g.entries) ∧ ∀ g ∈ known, g.name ≠ name) ∧
    ∀ c, ∀ d ∈ (f.resolve c known).diagnostics, d.code = .spreadCycle → ∃ walk last,
      d.message = (Finding.spreadCycle (walk ++ [last])).message ∧ f.name ∈ walk.head? ∧
        (walk ++ [last]).IsChain (Spreads known) ∧ walk.Nodup ∧ last ∈ walk := by
  have hfind := find?_of_nodup hknown hf
  refine ⟨fun descriptions => ⟨?_, fun name => ?_⟩, fun c d hd hcode => ?_⟩
  · rw [hasCode_spreadCycle_iff, exists_spreadCycle_iff hfind rfl]
  · rw [← exists_spreads_iff hknown, ← find?_eq_none_iff]
    exact mem_diagnostics_unknownSpread.trans (unknownSpread_mem_findings_iff hfind rfl)
  · obtain ⟨found, hfound, rfl⟩ := List.mem_map.1 hd
    cases found with
    | spreadCycle chain =>
      obtain ⟨walk, last, rfl, hwalk⟩ := exists_closed_walk_of_mem_findings hfind hfound
      exact ⟨walk, last, rfl, hwalk⟩
    | _ => cases hcode

/-- Two fragments that spread each other, the first also a fragment that there is not. -/
def wheels : List Fragment :=
  [{ name := "Wheel"
     onType := "Part"
     entries := [.field { name := "center" } [.spread "Hub"], .spread "Axle"] },
    { name := "Hub", onType := "Part", entries := [.spread "Wheel"] }]

theorem wheels_ofDocument : ∀ f ∈ wheels, f.OfDocument :=
  fun _ hf =>
    ⟨"fragment Wheel on Part { center { ...Hub } ...Axle } fragment Hub on Part { ...Wheel }", wheels,
      by rw [parseDocument_ofList]; decide +kernel, hf⟩

theorem spread_diagnostics_wheels :
    (∀ f ∈ wheels, f.OfDocument) ∧ (wheels.map (·.name)).Nodup ∧ ∃ f ∈ wheels,
      Diagnostic.hasCode .spreadCycle (f.resolve { schema := none } wheels).diagnostics = true ∧
      (Finding.unknownSpread "Axle").diagnostic f.name ∈
        (f.resolve { schema := none } wheels).diagnostics := by
  have hnames : (wheels.map (·.name)).Nodup := by decide
  have hwheel : wheels.head (by decide) ∈ wheels := List.head_mem _
  have hthere : Spreads wheels "Wheel" "Hub" := by decide
  have hback : Spreads wheels "Hub" "Wheel" := by decide
  obtain ⟨hcycle, hunknown⟩ := (spread_diagnostics_resolve hnames hwheel).1 true
  refine ⟨wheels_ofDocument, hnames, _, hwheel, hcycle.2 ⟨"Wheel", .refl, .tail (.single hthere) hback⟩, ?_⟩
  exact (hunknown "Axle").2 ⟨⟨_, hwheel, .refl, by decide⟩, by decide⟩

end Fragment

end FragmentShapes
