import FragmentShapes.Proofs.Selection.Coincidence

/-!
# Merging repeated fields

Fields of one name that stand in one run of fields, with nothing but fields between them, can be written as
one field with the selections under all of them. `Fragment.merged` does so on every level of a fragment, and
resolution does not see it (`Fragment.resolve_merged`).
-/

namespace FragmentShapes

namespace Entry

/-- A field and the selection under it. -/
abbrev Use := FieldHead × List Entry

/-- The fields as entries. -/
def ofUses (uses : List Use) : List Entry := uses.map fun use => .field use.1 use.2

/-- The first field of a name in the run of fields that the entries start with, and the entries without
it. -/
def next? (name : String) : List Entry → Option (Use × List Entry)
  | .field head selection :: entries =>
    if head.name = name then some ((head, selection), entries)
    else (next? name entries).map (Prod.map id (.field head selection :: ·))
  | _ => none

theorem next?_eq_some {name : String} {entries rest : List Entry} {use : Use}
    (h : next? name entries = some (use, rest)) : ∃ between after,
      entries = ofUses (between ++ [use]) ++ after ∧ rest = ofUses between ++ after ∧
        use.1.name = name ∧ ∀ other ∈ between, other.1.name ≠ name := by
  induction entries generalizing rest with
  | nil => cases h
  | cons entry entries ih =>
    cases entry with
    | field head selection =>
      rw [next?] at h
      split_ifs at h with hname
      · cases h
        exact ⟨[], entries, rfl, rfl, hname, nofun⟩
      · obtain ⟨⟨found, rest'⟩, hnext, heq⟩ := Option.map_eq_some_iff.1 h
        cases heq
        obtain ⟨between, after, rfl, rfl, hfound, hbetween⟩ := ih hnext
        exact ⟨(head, selection) :: between, after, rfl, rfl, hfound,
          List.forall_mem_cons.2 ⟨hname, hbetween⟩⟩
    | _ => cases h

mutual

/-- How many entries there are in an entry, itself among them. -/
def count : Entry → Nat
  | .field _ selection => countAll selection + 1
  | .spread _ => 1
  | .condition _ _ selection => countAll selection + 1
  | .group selection => countAll selection + 1

/-- How many entries there are at any depth. -/
def countAll : List Entry → Nat
  | [] => 0
  | entry :: entries => entry.count + countAll entries

end

theorem countAll_append (entries more : List Entry) :
    countAll (entries ++ more) = countAll entries + countAll more := by
  induction entries with
  | nil => simp [countAll]
  | cons entry entries ih => rw [List.cons_append, countAll, countAll, ih, Nat.add_assoc]

theorem countAll_of_next? {name : String} {entries rest : List Entry} {use : Use}
    (h : next? name entries = some (use, rest)) :
    countAll entries = countAll use.2 + 1 + countAll rest := by
  obtain ⟨between, after, rfl, rfl, -, -⟩ := next?_eq_some h
  have huse : countAll (ofUses [use]) = countAll use.2 + 1 := by simp [ofUses, countAll, count]
  rw [ofUses, List.map_append, ← ofUses, ← ofUses, countAll_append, countAll_append, countAll_append, huse]
  omega

/-- The entries with the fields of one name in one run as one field in the place of the first, on every
level. -/
def mergeAll : List Entry → List Entry
  | [] => []
  | .field head selection :: entries =>
    match h : next? head.name entries with
    | some ((head', selection'), rest) =>
      have := countAll_of_next? h
      mergeAll (.field (head.join head') (selection ++ selection') :: rest)
    | none => .field head (mergeAll selection) :: mergeAll entries
  | .spread fragment :: entries => .spread fragment :: mergeAll entries
  | .condition on label selection :: entries =>
    .condition on label (mergeAll selection) :: mergeAll entries
  | .group selection :: entries => .group (mergeAll selection) :: mergeAll entries
termination_by entries => countAll entries
decreasing_by
  all_goals simp only [countAll, count, countAll_append] at *
  all_goals omega

mutual

/-- On no level of the entry a field stands in one run with an earlier one of its name. -/
def IsMerged : Entry → Prop
  | .field _ selection => AllMerged selection
  | .spread _ => True
  | .condition _ _ selection => AllMerged selection
  | .group selection => AllMerged selection

/-- On no level a field stands in one run with an earlier one of its name. -/
def AllMerged : List Entry → Prop
  | [] => True
  | entry :: entries => (∀ head selection, entry = .field head selection → next? head.name entries = none) ∧
      entry.IsMerged ∧ AllMerged entries

end

theorem mergeAll_of_next? {head head' : FieldHead} {selection selection' entries rest : List Entry}
    (h : next? head.name entries = some ((head', selection'), rest)) :
    mergeAll (.field head selection :: entries) =
      mergeAll (.field (head.join head') (selection ++ selection') :: rest) := by
  rw [mergeAll]
  split
  · next hnext =>
    cases h.symm.trans hnext
    rfl
  · next hnone => cases h.symm.trans hnone

theorem mergeAll_of_next?_eq_none {head : FieldHead} {selection entries : List Entry}
    (h : next? head.name entries = none) :
    mergeAll (.field head selection :: entries) = .field head (mergeAll selection) :: mergeAll entries := by
  rw [mergeAll]
  split
  · next hnext => cases h.symm.trans hnext
  · rfl

theorem next?_field_eq_none {name : String} {head : FieldHead} {selection entries : List Entry} :
    next? name (.field head selection :: entries) = none ↔
      head.name ≠ name ∧ next? name entries = none := by
  rw [next?]
  by_cases hname : head.name = name
  · simp [hname]
  · rw [if_neg hname, Option.map_eq_none_iff]
    exact (and_iff_right hname).symm

/-- A name that is not in the run is not there either when a field is taken out. -/
theorem next?_eq_none_of_next? {name other : String} {entries rest : List Entry} {use : Use}
    (h : next? other entries = some (use, rest)) (hnone : next? name entries = none) :
    next? name rest = none := by
  obtain ⟨between, after, rfl, rfl, -, -⟩ := next?_eq_some h
  clear h
  induction between with
  | nil => exact (next?_field_eq_none.1 hnone).2
  | cons first between ih =>
    obtain ⟨hname, hnone⟩ := next?_field_eq_none.1 hnone
    exact next?_field_eq_none.2 ⟨hname, ih hnone⟩

theorem next?_mergeAll {name : String} {entries : List Entry} (h : next? name entries = none) :
    next? name (mergeAll entries) = none := by
  induction entries using mergeAll.induct with
  | case1 => rw [mergeAll]; exact h
  | case2 head selection entries head' selection' rest hnext _ ih =>
    obtain ⟨hname, hnone⟩ := next?_field_eq_none.1 h
    rw [mergeAll_of_next? hnext]
    exact ih (next?_field_eq_none.2 ⟨hname, next?_eq_none_of_next? hnext hnone⟩)
  | case3 head selection entries hnext _ ih =>
    obtain ⟨hname, hnone⟩ := next?_field_eq_none.1 h
    rw [mergeAll_of_next?_eq_none hnext]
    exact next?_field_eq_none.2 ⟨hname, ih hnone⟩
  | case4 | case5 | case6 =>
    rw [mergeAll, next?]
    nofun

/-- After merging there is nothing left to merge. -/
theorem allMerged_mergeAll (entries : List Entry) : AllMerged (mergeAll entries) := by
  induction entries using mergeAll.induct with
  | case1 => rw [mergeAll]; trivial
  | case2 head selection entries head' selection' rest hnext _ ih =>
    rw [mergeAll_of_next? hnext]
    exact ih
  | case3 head selection entries hnext ihselection ih =>
    rw [mergeAll_of_next?_eq_none hnext]
    refine ⟨?_, ihselection, ih⟩
    rintro _ _ ⟨⟩
    exact next?_mergeAll hnext
  | case4 fragment entries ih =>
    rw [mergeAll]
    exact ⟨nofun, trivial, ih⟩
  | case5 on label selection entries ihselection ih =>
    rw [mergeAll]
    exact ⟨nofun, ihselection, ih⟩
  | case6 selection entries ihselection ih =>
    rw [mergeAll]
    exact ⟨nofun, ihselection, ih⟩

example : mergeAll
      [.field { name := "user" } [.field { name := "id" } []], .field { name := "count" } [],
        .field { name := "user" } [.field { name := "name" } [], .field { name := "id" } []]] =
    [.field { name := "user" } [.field { name := "id" } [], .field { name := "name" } []],
      .field { name := "count" } []] := by
  simp [mergeAll, next?, FieldHead.join]

end Entry

/-- The fragment with the fields of one name in one run as one field, on every level. -/
def Fragment.merged (f : Fragment) : Fragment := { f with entries := Entry.mergeAll f.entries }

namespace Selection

open Entry (unfoldAll)

variable {c : Context} {openSpread openSpread' : String → Node}

mutual

theorem coincide_unfold (h : ∀ name, Coincide c [openSpread name] [openSpread' name]) : ∀ entry : Entry,
    Coincide c [entry.unfold openSpread] [entry.unfold openSpread']
  | .field head selection => by
    rw [Entry.unfold, Entry.unfold]
    exact .field head (coincide_unfoldAll h selection)
  | .spread fragment => by
    rw [Entry.unfold, Entry.unfold]
    exact h fragment
  | .condition on label selection => by
    rw [Entry.unfold, Entry.unfold]
    exact .condition on label (coincide_unfoldAll h selection)
  | .group selection => by
    rw [Entry.unfold, Entry.unfold]
    exact .group (coincide_unfoldAll h selection)

/-- Entries open to rows that coincide if their spreads do. -/
theorem coincide_unfoldAll (h : ∀ name, Coincide c [openSpread name] [openSpread' name]) :
    ∀ entries : List Entry, Coincide c (unfoldAll openSpread entries) (unfoldAll openSpread' entries)
  | [] => by
    rw [unfoldAll, unfoldAll]
    exact .refl []
  | entry :: entries => by
    rw [unfoldAll, unfoldAll]
    exact (coincide_unfold h entry).cons (coincide_unfoldAll h entries)

end

theorem unfoldAll_ofUses (openSpread : String → Node) (uses : List Entry.Use) :
    unfoldAll openSpread (Entry.ofUses uses) =
      fieldNodes (uses.map (Prod.map id (unfoldAll openSpread))) := by
  rw [unfoldAll_eq_map, Entry.ofUses, fieldNodes, List.map_map, List.map_map]
  refine List.map_congr_left fun use _ => ?_
  rw [Function.comp_apply, Entry.unfold]
  rfl

/-- A field of a run can be written with an earlier one of its name. -/
theorem coincide_join {head : FieldHead} {selection : List Entry} {entries rest : List Entry}
    {use : Entry.Use} (h : Entry.next? head.name entries = some (use, rest)) :
    Coincide c (unfoldAll openSpread (.field head selection :: entries))
      (unfoldAll openSpread (.field (head.join use.1) (selection ++ use.2) :: rest)) := by
  obtain ⟨between, after, rfl, rfl, hname, hbetween⟩ := Entry.next?_eq_some h
  have hcons (head : FieldHead) (selection : List Entry) (uses : List Entry.Use) :
      .field head selection :: (Entry.ofUses uses ++ after) =
        Entry.ofUses ((head, selection) :: uses) ++ after := rfl
  rw [hcons, hcons, unfoldAll_append, unfoldAll_append, unfoldAll_ofUses, unfoldAll_ofUses]
  refine .append ?_ (.refl _)
  simp only [List.map_cons, List.map_append, List.map_nil, Prod.map, id, unfoldAll_append]
  refine .join hname.symm fun other hother => ?_
  obtain ⟨use, huse, rfl⟩ := List.mem_map.1 hother
  exact hbetween use huse

/-- Merging repeated fields opens to rows that coincide with what was there. -/
theorem coincide_mergeAll (openSpread : String → Node) (entries : List Entry) :
    Coincide c (unfoldAll openSpread entries) (unfoldAll openSpread (Entry.mergeAll entries)) := by
  induction entries using Entry.mergeAll.induct with
  | case1 =>
    rw [Entry.mergeAll]
    exact .refl _
  | case2 head selection entries head' selection' rest hnext _ ih =>
    rw [Entry.mergeAll_of_next? hnext]
    exact (coincide_join hnext).trans ih
  | case3 head selection entries hnext ihselection ih =>
    rw [Entry.mergeAll_of_next?_eq_none hnext, unfoldAll, unfoldAll, Entry.unfold, Entry.unfold]
    exact (Coincide.field head ihselection).cons ih
  | case4 fragment entries ih =>
    rw [Entry.mergeAll, unfoldAll, unfoldAll]
    exact (Coincide.refl _).cons ih
  | case5 on label selection entries ihselection ih =>
    rw [Entry.mergeAll, unfoldAll, unfoldAll, Entry.unfold, Entry.unfold]
    exact (Coincide.condition on label ihselection).cons ih
  | case6 selection entries ihselection ih =>
    rw [Entry.mergeAll, unfoldAll, unfoldAll, Entry.unfold, Entry.unfold]
    exact (Coincide.group ihselection).cons ih

end Selection

namespace Fragment

/-- The fragment with repeated fields merged, if it is one of those. -/
def mergedWhere (which : Fragment → Bool) (f : Fragment) : Fragment := if which f then f.merged else f

variable {c : Selection.Context}

@[simp] theorem mergedWhere_name (which : Fragment → Bool) (f : Fragment) :
    (f.mergedWhere which).name = f.name := by
  rw [mergedWhere]
  split_ifs <;> rfl

@[simp] theorem mergedWhere_onType (which : Fragment → Bool) (f : Fragment) :
    (f.mergedWhere which).onType = f.onType := by
  rw [mergedWhere]
  split_ifs <;> rfl

theorem find?_map_mergedWhere (which : Fragment → Bool) (name : String) (fragments : List Fragment) :
    find? name (fragments.map (mergedWhere which)) = (find? name fragments).map (mergedWhere which) := by
  rw [find?, find?, List.find?_map]
  congr 2
  funext f
  simp

theorem coincide_mergedWhere (which : Fragment → Bool) (openSpread : String → Node) (f : Fragment) :
    Selection.Coincide c (Entry.unfoldAll openSpread f.entries)
      (Entry.unfoldAll openSpread (f.mergedWhere which).entries) := by
  rw [mergedWhere]
  split_ifs
  · exact Selection.coincide_mergeAll openSpread f.entries
  · exact .refl _

/-- A spread opens to nodes that coincide if repeated fields are merged in some of the fragments. -/
theorem coincide_openSpread (which : Fragment → Bool) (known : List Fragment) (trail : List String)
    (name : String) :
    Selection.Coincide c [openSpread known (Selection.unopened known trail) trail name]
      [openSpread (known.map (mergedWhere which))
        (Selection.unopened (known.map (mergedWhere which)) trail) trail name] := by
  -- opening a fragment takes it off those that are left to open
  induction hleft : (Selection.unopened known trail).length using Nat.strongRecOn
    generalizing trail name with
  | _ left ih =>
    have hfind' := find?_map_mergedWhere which name known
    by_cases hopened : name ∈ trail ∨ find? name known = none
    · have hopened' : name ∈ trail ∨ find? name (known.map (mergedWhere which)) = none := by
        rwa [hfind', Option.map_eq_none_iff]
      rw [Selection.openSpread_of_not_opened hopened, Selection.openSpread_of_not_opened hopened', hfind',
        Option.isSome_map]
      exact .refl _
    · obtain ⟨hname, hfind⟩ := not_or.1 hopened
      obtain ⟨f, hfind⟩ := Option.ne_none_iff_exists'.1 hfind
      rw [hfind] at hfind'
      have hless : (Selection.unopened known (trail ++ [name])).length < left := by
        rw [← hleft, ← Selection.without_unopened]
        exact length_without_lt (f := f) (by rw [Selection.find?_unopened, if_neg hname, hfind])
      rw [Selection.openSpread_of_find? hfind hname, Selection.openSpread_of_find? hfind' hname,
        Selection.map_node_all, Selection.map_node_all, mergedWhere_onType]
      refine .opened name f.onType (.group ?_)
      exact (Selection.coincide_unfoldAll (fun other => ih _ hless _ other rfl) f.entries).trans
        (coincide_mergedWhere which _ f)

end Fragment

/-- Repeated fields merge without a trace: it makes no difference to what a fragment resolves to, and to
what is found in which order, whether they are merged in the fragment and in any of the others. -/
theorem Fragment.resolve_merged (c : Selection.Context) (which : Fragment → Bool) (known : List Fragment)
    (f : Fragment) : f.merged.resolve c (known.map (mergedWhere which)) = f.resolve c known := by
  refine Eq.symm (resolve_eq_of_coincide rfl rfl ?_)
  rw [unfold_eq_nodes, unfold_eq_nodes, Selection.map_node_all, Selection.map_node_all]
  exact (Selection.coincide_unfoldAll (coincide_openSpread which known _) f.entries).trans
    (Selection.coincide_mergeAll _ f.entries)

end FragmentShapes
