import FragmentShapes.Proofs.Selection.Collection
import FragmentShapes.Proofs.Selection.Derivation

/-!
# Resolution ends

However spreads refer to each other, every fragment has a derivation, and `Fragment.resolve` is what it
comes to (`Fragment.resolves_iff`). A spread that is opened adds a fragment to those that its entries
stand inside of; every other step goes down in an entry. The weight of an occurrence counts both.
-/

namespace FragmentShapes

/-! ## Weights -/

/-- The levels that fragments add when each of them is opened once. -/
def Fragment.openingLevels (fragments : List Fragment) : Nat :=
  fragments.foldr (fun g bound => Entry.heightAll g.entries + 1 + bound) 0

namespace Selection

/-- The known fragments that a spread inside those of the trail can open. -/
def unopened (known : List Fragment) (trail : List String) : List Fragment :=
  known.filter (·.name ∉ trail)

variable {c : Context} {known : List Fragment} {parent : Option String}

theorem without_unopened (name : String) (trail : List String) :
    Fragment.without name (unopened known trail) = unopened known (trail ++ [name]) := by
  rw [Fragment.without, unopened, List.filter_filter, unopened]
  refine List.filter_congr fun f _ => ?_
  simp [and_comm]

theorem find?_unopened (name : String) (trail : List String) :
    Fragment.find? name (unopened known trail) =
      if name ∈ trail then none else Fragment.find? name known := by
  rw [Fragment.find?, unopened, List.find?_filter]
  split_ifs with h
  · refine List.find?_eq_none.2 fun f _ hf => ?_
    simp only [decide_eq_true_eq] at hf
    exact hf.1 (hf.2 ▸ h)
  · rw [Fragment.find?]
    congr 1
    funext f
    by_cases hname : f.name = name <;> simp [hname, h]

theorem openingLevels_filter_le (keep : Fragment → Bool) (fragments : List Fragment) :
    Fragment.openingLevels (fragments.filter keep) ≤ Fragment.openingLevels fragments := by
  induction fragments with
  | nil => exact Nat.le_refl _
  | cons g fragments ih =>
    rw [List.filter_cons]
    simp only [Fragment.openingLevels, List.foldr_cons] at ih ⊢
    split_ifs
    · simp only [List.foldr_cons]
      omega
    · omega

theorem openingLevels_filter_lt {keep : Fragment → Bool} {fragments : List Fragment} {f : Fragment}
    (hf : f ∈ fragments) (hkeep : keep f = false) :
    Entry.heightAll f.entries + Fragment.openingLevels (fragments.filter keep) <
      Fragment.openingLevels fragments := by
  induction fragments with
  | nil => cases hf
  | cons g fragments ih =>
    have hrest := openingLevels_filter_le keep fragments
    simp only [Fragment.openingLevels, List.foldr_cons] at ih hrest ⊢
    rcases List.mem_cons.1 hf with rfl | hf
    · rw [List.filter_cons_of_neg (by simp [hkeep])]
      omega
    · have hlt := ih hf
      rw [List.filter_cons]
      split_ifs
      · simp only [List.foldr_cons]
        omega
      · omega

namespace Occurrence

/-- A bound on the levels under the occurrence and on the steps that open it. -/
def weight (known : List Fragment) (o : Occurrence) : Nat :=
  o.entry.height + Fragment.openingLevels (unopened known o.trail)

/-- The occurrence with its spreads opened. -/
def node (known : List Fragment) (o : Occurrence) : Node :=
  o.entry.unfold (Fragment.openSpread known (unopened known o.trail) o.trail)

end Occurrence

theorem weight_pos (known : List Fragment) (o : Occurrence) : 0 < o.weight known := by
  have hheight : 0 < o.entry.height := by
    cases o.entry <;> simp [Entry.height]
  exact Nat.add_pos_left hheight _

theorem weight_le_of_mem_all {trail : List String} {entries : List Entry} {o : Occurrence}
    (h : o ∈ Occurrence.all trail entries) :
    o.weight known ≤
      Entry.heightAll entries + Fragment.openingLevels (unopened known trail) := by
  obtain ⟨entry, hentry, rfl⟩ := List.mem_map.1 h
  have hheight := Entry.heightAll_le_iff.1 (Nat.le_refl _) entry hentry
  simp only [Occurrence.weight]
  omega

theorem map_node_all (trail : List String) (entries : List Entry) :
    (Occurrence.all trail entries).map (·.node known) =
      Entry.unfoldAll (Fragment.openSpread known (unopened known trail) trail) entries := by
  rw [Occurrence.all, List.map_map, unfoldAll_eq_map]
  rfl

/-! ## One step of opening -/

/-- A part with the spreads under it opened. -/
def Part.item (known : List Fragment) : Part → Item
  | .field use => .field use.1 (use.2.map (·.node known))
  | .condition on children => .condition on (children.map (·.node known))

/-- A step does what resolution does with the node, and leaves less weight. -/
def Opening.Fits (c : Context) (known : List Fragment) (parent : Option String) (o : Occurrence) :
    Opening → Prop
  | .keep part => expandNode c parent (o.node known) = ⟨[part.item known], []⟩ ∧
      ∀ child ∈ part.children, child.weight known < o.weight known
  | .inline children =>
      expandNode c parent (o.node known) = expand c parent (children.map (·.node known)) ∧
      ∀ child ∈ children, child.weight known < o.weight known
  | .drop finding => expandNode c parent (o.node known) = ⟨[], [finding]⟩

theorem openSpread_of_find? {name : String} {trail : List String} {f : Fragment}
    (hf : Fragment.find? name known = some f) (hname : name ∉ trail) :
    Fragment.openSpread known (unopened known trail) trail name =
      .opened name f.onType fun _ => .group
        ((Occurrence.all (trail ++ [name]) f.entries).map (·.node known)) := by
  have hfind : Fragment.find? name (unopened known trail) = some f := by
    rw [find?_unopened, if_neg hname, hf]
  rw [Fragment.openSpread]
  split
  · next g hg =>
    cases hfind.symm.trans hg
    rw [map_node_all, ← without_unopened]
  · next hnone => cases hfind.symm.trans hnone

theorem openSpread_of_not_opened {name : String} {trail : List String}
    (h : name ∈ trail ∨ Fragment.find? name known = none) :
    Fragment.openSpread known (unopened known trail) trail name =
      if (Fragment.find? name known).isSome then .cycle (trail ++ [name]) else .unknown name := by
  have hfind : Fragment.find? name (unopened known trail) = none := by
    rw [find?_unopened]
    split_ifs with hname
    · rfl
    · exact h.resolve_left hname
  rw [Fragment.openSpread]
  split
  · next g hg => cases hfind.symm.trans hg
  · rfl

theorem weight_lt_of_opened {name : String} {trail : List String} {f : Fragment}
    (hf : Fragment.find? name known = some f) (hname : name ∉ trail) :
    Entry.heightAll f.entries + Fragment.openingLevels (unopened known (trail ++ [name])) <
      Fragment.openingLevels (unopened known trail) := by
  have hfind : Fragment.find? name (unopened known trail) = some f := by
    rw [find?_unopened, if_neg hname, hf]
  rw [← without_unopened]
  exact openingLevels_filter_lt (List.mem_of_find?_eq_some hfind)
    (by simpa using List.find?_some hfind)

/-- The children of an entry have less weight than the entry. -/
theorem weight_lt_of_mem_all {trail : List String} {selection : List Entry} {child : Occurrence}
    (h : child ∈ Occurrence.all trail selection) :
    child.weight known < Entry.heightAll selection + 1 + Fragment.openingLevels (unopened known trail) := by
  refine Nat.lt_of_le_of_lt (weight_le_of_mem_all h) ?_
  omega

theorem opening_spread_fits (c : Context) (known : List Fragment) (parent : Option String)
    (name : String) (trail : List String) :
    (opening c known parent ⟨.spread name, trail⟩).Fits c known parent ⟨.spread name, trail⟩ := by
  rw [opening]
  cases hfind : Fragment.find? name known with
  | none =>
    dsimp only
    rw [Opening.Fits, Occurrence.node, Entry.unfold, openSpread_of_not_opened (.inr hfind), hfind]
    rfl
  | some f =>
    dsimp only
    split_ifs with hname hnarrows
    · rw [Opening.Fits, Occurrence.node, Entry.unfold, openSpread_of_not_opened (.inl hname), hfind]
      rfl
    · -- opened under a condition on its type, which is an entry itself
      have hlt := weight_lt_of_opened hfind hname
      constructor
      · rw [Occurrence.node, Entry.unfold, openSpread_of_find? hfind hname, expandNode,
          if_pos hnarrows, Part.item, List.map_singleton, Occurrence.node, Entry.unfold, map_node_all]
        rfl
      · intro child hchild
        rw [List.mem_singleton.1 hchild]
        simp only [Occurrence.weight, Entry.height]
        omega
    · have hlt := weight_lt_of_opened hfind hname
      constructor
      · rw [Occurrence.node, Entry.unfold, openSpread_of_find? hfind hname, expandNode,
          if_neg hnarrows, expandNode]
      · intro child hchild
        refine Nat.lt_of_le_of_lt (weight_le_of_mem_all hchild) ?_
        simp only [Occurrence.weight, Entry.height]
        omega

theorem opening_fits (c : Context) (known : List Fragment) (parent : Option String) (o : Occurrence) :
    (opening c known parent o).Fits c known parent o := by
  obtain ⟨entry, trail⟩ := o
  cases entry with
  | field head selection =>
    refine ⟨?_, fun _ => weight_lt_of_mem_all⟩
    rw [Occurrence.node, Entry.unfold, expandNode, Part.item, map_node_all]
    rfl
  | condition on label selection =>
    rw [opening]
    split_ifs with hvoid
    · refine ⟨?_, fun _ => weight_lt_of_mem_all⟩
      rw [Occurrence.node, Entry.unfold, expandNode, if_pos hvoid, map_node_all]
    · refine ⟨?_, fun _ => weight_lt_of_mem_all⟩
      rw [Occurrence.node, Entry.unfold, expandNode, if_neg hvoid, Part.item, map_node_all]
      rfl
  | group selection =>
    refine ⟨?_, fun _ => weight_lt_of_mem_all⟩
    rw [Occurrence.node, Entry.unfold, expandNode, map_node_all]
  | spread name => exact opening_spread_fits c known parent name trail

/-! ## Opening a level -/

theorem expand_cons (node : Node) (nodes : List Node) :
    expand c parent (node :: nodes) =
      ⟨(expandNode c parent node).value ++ (expand c parent nodes).value,
        (expandNode c parent node).findings ++ (expand c parent nodes).findings⟩ := by
  rw [expand]
  change (⟨_, _ ++ (_ ++ [])⟩ : Noted _) = _
  rw [List.append_nil]
  rfl

/-- Every level opens, to what `expand` finds, and there is less weight under its parts. -/
theorem exists_opens (c : Context) (parent : Option String) (bound : Nat) (os : List Occurrence)
    (hos : ∀ o ∈ os, o.weight known ≤ bound) :
    ∃ parts findings, Opens c known parent os parts findings ∧
      expand c parent (os.map (·.node known)) = ⟨parts.map (Part.item known), findings⟩ ∧
      ∀ part ∈ parts, ∀ child ∈ part.children, child.weight known < bound := by
  -- An entry opened in place gives way to a level of less weight, so that the weight goes down before
  -- the number of entries does.
  induction bound using Nat.strongRecOn generalizing os with
  | _ bound ihbound =>
    induction os with
    | nil => exact ⟨[], [], .nil, by rw [List.map_nil, expand]; rfl, by simp⟩
    | cons o os ih =>
      obtain ⟨parts, findings, hrest, hexpand, hless⟩ := ih fun o' ho' => hos o' (by simp [ho'])
      have ho := hos o (by simp)
      have hfits := opening_fits c known parent o
      rw [List.map_cons, expand_cons, hexpand]
      cases hstep : opening c known parent o with
      | keep part =>
        rw [hstep] at hfits
        refine ⟨part :: parts, findings, .keep hstep hrest, ?_, ?_⟩
        · rw [hfits.1]
          rfl
        · intro part' hpart' child hchild
          rcases List.mem_cons.1 hpart' with rfl | hpart'
          · exact Nat.lt_of_lt_of_le (hfits.2 child hchild) ho
          · exact hless part' hpart' child hchild
      | inline children =>
        rw [hstep] at hfits
        have hpos := weight_pos known o
        obtain ⟨inner, found, hinner, hinside, hdeep⟩ := ihbound (bound - 1) (by omega) children
          fun child hchild => by
            have := hfits.2 child hchild
            omega
        refine ⟨inner ++ parts, found ++ findings, .inline hstep hinner hrest, ?_, ?_⟩
        · rw [hfits.1, hinside, List.map_append]
        · intro part hpart child hchild
          rcases List.mem_append.1 hpart with hpart | hpart
          · have := hdeep part hpart child hchild
            omega
          · exact hless part hpart child hchild
      | drop finding =>
        rw [hstep] at hfits
        refine ⟨parts, finding :: findings, .drop hstep hrest, ?_, hless⟩
        rw [hfits]
        rfl

/-! ## Deciding conditions -/

/-- What an item adds to a level whose conditions are decided. -/
def settleItem (c : Context) (parent : Option String) : Item → Noted (List FieldUse)
  | .field head children => ⟨[(head, children)], []⟩
  | .condition on children =>
    if c.applies parent on then
      ⟨(settle c parent children).value,
        (expand c parent children).findings ++ (settle c parent children).findings⟩
    else ⟨[], []⟩

def settleItems (c : Context) (parent : Option String) (items : List Item) : Noted (List FieldUse) :=
  ⟨items.flatMap fun item => (settleItem c parent item).value,
    items.flatMap fun item => (settleItem c parent item).findings⟩

theorem settleItems_cons (item : Item) (items : List Item) :
    settleItems c parent (item :: items) =
      ⟨(settleItem c parent item).value ++ (settleItems c parent items).value,
        (settleItem c parent item).findings ++ (settleItems c parent items).findings⟩ := rfl

theorem settleItems_append (items more : List Item) :
    settleItems c parent (items ++ more) =
      ⟨(settleItems c parent items).value ++ (settleItems c parent more).value,
        (settleItems c parent items).findings ++ (settleItems c parent more).findings⟩ := by
  simp only [settleItems, List.flatMap_append]

theorem settle_cons (node : Node) (nodes : List Node) :
    settle c parent (node :: nodes) =
      ⟨(settleNode c parent node).value ++ (settle c parent nodes).value,
        (settleNode c parent node).findings ++ (settle c parent nodes).findings⟩ := by
  rw [settle]
  change (⟨_, _ ++ (_ ++ [])⟩ : Noted _) = _
  rw [List.append_nil]
  rfl

mutual

/-- Where no conditions are open, a node adds to the decided level what its items add. -/
theorem settleNode_eq : ∀ node : Node,
    ((expandNode c parent node).value.any Item.isConditional = true →
      c.isPolymorphic parent = false) →
    settleNode c parent node = settleItems c parent (expandNode c parent node).value
  | .field head children, _ => by
    rw [settleNode, expandNode]
    rfl
  | .condition on label children, h => by
    rw [expandNode] at h ⊢
    rw [settleNode]
    split_ifs at h ⊢ with hvoid happlies
    · exact settle_eq children h
    · simp [settleItems, settleItem, happlies]
      rfl
    · simp [settleItems, settleItem, happlies]
      rfl
  | .group children, h => by
    rw [expandNode] at h ⊢
    rw [settleNode]
    exact settle_eq children h
  | .opened fragment onType body, h => by
    rw [expandNode] at h ⊢
    rw [settleNode]
    split_ifs at h ⊢ with hnarrows
    · have hdecided := h rfl
      simp [Context.narrows, hdecided] at hnarrows
    · exact settleNode_eq (body ()) h
  | .cycle chain, _ => by
    rw [settleNode, expandNode]
    rfl
  | .unknown fragment, _ => by
    rw [settleNode, expandNode]
    rfl

theorem settle_eq : ∀ nodes : List Node,
    ((expand c parent nodes).value.any Item.isConditional = true →
      c.isPolymorphic parent = false) →
    settle c parent nodes = settleItems c parent (expand c parent nodes).value
  | [], _ => by
    rw [settle, expand]
    rfl
  | node :: nodes, h => by
    rw [expand_cons] at h ⊢
    rw [List.any_append, Bool.or_eq_true] at h
    rw [settle_cons, settleItems_append, settleNode_eq node fun hany => h (.inl hany),
      settle_eq nodes fun hany => h (.inr hany)]

end

/-- A use with the spreads under it opened. -/
def Use.nodes (known : List Fragment) (use : Use) : FieldUse :=
  (use.1, use.2.map (·.node known))

/-- Parts get their fields from finitely many openings, and those are the ones that `settle` finds. -/
def Settles (c : Context) (known : List Fragment) (parent : Option String) (bound : Nat)
    (parts : List Part) : Prop :=
  ∃ uses findings, Decides c known parent parts uses findings ∧
    settleItems c parent (parts.map (Part.item known)) = ⟨uses.map (Use.nodes known), findings⟩ ∧
    ∀ use ∈ uses, ∀ child ∈ use.2, child.weight known ≤ bound

theorem Settles.field {bound : Nat} {use : Use} {parts : List Part}
    (huse : ∀ child ∈ use.2, child.weight known ≤ bound) (h : Settles c known parent bound parts) :
    Settles c known parent bound (.field use :: parts) := by
  obtain ⟨uses, findings, hrest, hsettle, hless⟩ := h
  refine ⟨use :: uses, findings, .field hrest, ?_, List.forall_mem_cons.2 ⟨huse, hless⟩⟩
  rw [List.map_cons, settleItems_cons, hsettle]
  rfl

theorem Settles.fails {bound : Nat} {on : String} {children : List Occurrence} {parts : List Part}
    (happlies : c.applies parent on = false) (h : Settles c known parent bound parts) :
    Settles c known parent bound (.condition on children :: parts) := by
  obtain ⟨uses, findings, hrest, hsettle, hless⟩ := h
  refine ⟨uses, findings, .fails happlies hrest, ?_, hless⟩
  rw [List.map_cons, settleItems_cons, hsettle, Part.item, settleItem, if_neg (by simp [happlies])]
  rfl

theorem Settles.holds {bound : Nat} {on : String} {children : List Occurrence}
    {opened parts : List Part} {met : List Finding} (happlies : c.applies parent on = true)
    (hdecided : c.isPolymorphic parent = false) (hopens : Opens c known parent children opened met)
    (hexpand : expand c parent (children.map (·.node known)) = ⟨opened.map (Part.item known), met⟩)
    (hopened : Settles c known parent bound opened) (h : Settles c known parent bound parts) :
    Settles c known parent bound (.condition on children :: parts) := by
  obtain ⟨inner, found, hinner, hinside, hdeep⟩ := hopened
  obtain ⟨uses, findings, hrest, hsettle, hless⟩ := h
  refine ⟨inner ++ uses, met ++ found ++ findings, .holds happlies hopens hinner hrest, ?_,
    List.forall_mem_append.2 ⟨hdeep, hless⟩⟩
  rw [List.map_cons, settleItems_cons, hsettle, Part.item, settleItem, if_pos happlies,
    settle_eq _ fun _ => hdecided, hexpand, hinside, List.map_append]

/-- A level whose conditions are decided settles. -/
theorem settles_of_decided (bound : Nat) (parts : List Part)
    (hdecided : parts.any Part.isConditional = true → c.isPolymorphic parent = false)
    (hparts : ∀ part ∈ parts, ∀ child ∈ part.children, child.weight known ≤ bound) :
    Settles c known parent bound parts := by
  -- As for opening: first by weight, then along the parts.
  induction bound using Nat.strongRecOn generalizing parts with
  | _ bound ihbound =>
    induction parts with
    | nil => exact ⟨[], [], .nil, rfl, by simp⟩
    | cons part parts ih =>
      rw [List.any_cons, Bool.or_eq_true] at hdecided
      obtain ⟨hpart, hparts⟩ := List.forall_mem_cons.1 hparts
      have hrest := ih (fun hany => hdecided (.inr hany)) hparts
      cases part with
      | field use => exact hrest.field hpart
      | condition on children =>
        have hconcrete := hdecided (.inl rfl)
        cases happlies : c.applies parent on with
        | false => exact hrest.fails happlies
        | true =>
          obtain ⟨opened, met, hopens, hexpand, hless⟩ := exists_opens c parent bound children hpart
          refine .holds happlies hconcrete hopens hexpand ?_ hrest
          -- what is opened has less weight than what it is opened from, unless that is nothing
          cases children with
          | nil =>
            cases hopens
            exact ⟨[], [], .nil, rfl, by simp⟩
          | cons o os =>
            have hpos : 0 < bound :=
              Nat.lt_of_lt_of_le (weight_pos known o) (hpart o List.mem_cons_self)
            have hbelow : ∀ part ∈ opened, ∀ child ∈ part.children,
                child.weight known ≤ bound - 1 :=
              fun part hmem child hchild => Nat.le_sub_one_of_lt (hless part hmem child hchild)
            obtain ⟨inner, found, hinner, hinside, hdeep⟩ :=
              ihbound (bound - 1) (by omega) opened (fun _ => hconcrete) hbelow
            exact ⟨inner, found, hinner, hinside, fun use huse child hchild =>
              Nat.le_trans (hdeep use huse child hchild) (Nat.sub_le _ _)⟩

/-! ## Groups -/

theorem partUses_item (parts : List Part) :
    fieldUses (parts.map (Part.item known)) = (partUses parts).map (Use.nodes known) := by
  induction parts with
  | nil => rfl
  | cons part parts ih =>
    cases part with
    | field use => exact congrArg (use.nodes known :: ·) ih
    | condition => exact ih

theorem fieldGroups_nodes (uses : List Use) :
    fieldGroups (uses.map (Use.nodes known)) =
      (useGroups uses).map (Prod.map id (List.map (Use.nodes known))) := by
  rw [fieldGroups, useGroups, ← KeyedList.groupPairs_map, List.map_map, List.map_map]
  rfl

theorem variantGroups_item (parts : List Part) :
    variantGroups c parent (parts.map (Part.item known)) =
      (conditionGroups c parent parts).map
        (Prod.map id (List.map (List.map (·.node known)))) := by
  rw [variantGroups, conditionGroups, ← KeyedList.groupPairs_map, List.flatMap_map, List.map_flatMap]
  congr 2
  funext part
  cases part with
  | field => rfl
  | condition on children =>
    rw [List.map_map]
    rfl

theorem mem_partUses {parts : List Part} {use : Use} :
    use ∈ partUses parts ↔ .field use ∈ parts := by
  rw [partUses, List.mem_filterMap]
  constructor
  · rintro ⟨part, hpart, heq⟩
    cases part with
    | field => exact Option.some.inj heq ▸ hpart
    | condition => cases heq
  · exact fun h => ⟨_, h, rfl⟩

theorem mem_useGroups {uses : List Use} {group : String × List Use} (hgroup : group ∈ useGroups uses)
    {use : Use} (huse : use ∈ group.2) : use ∈ uses ∧ use.1.name = group.1 := by
  obtain ⟨-, hmembers⟩ := KeyedList.mem_groupPairs.1 hgroup
  rw [hmembers, KeyedList.mem_valuesOf, List.mem_map] at huse
  obtain ⟨use', huse', heq⟩ := huse
  rw [Prod.mk.injEq] at heq
  obtain ⟨hname, rfl⟩ := heq
  exact ⟨huse', hname⟩

theorem mem_conditionGroups {parts : List Part} {group : String × List (List Occurrence)}
    (hgroup : group ∈ conditionGroups c parent parts) {child : Occurrence}
    (hchild : child ∈ group.2.flatten) : ∃ part ∈ parts, child ∈ part.children := by
  obtain ⟨-, hmembers⟩ := KeyedList.mem_groupPairs.1 hgroup
  obtain ⟨children, hchildren, hmem⟩ := List.mem_flatten.1 hchild
  rw [hmembers, KeyedList.mem_valuesOf] at hchildren
  obtain ⟨part, hpart, hpair⟩ := List.mem_flatMap.1 hchildren
  cases part with
  | field => cases hpair
  | condition on inner =>
    obtain ⟨type, -, heq⟩ := List.mem_map.1 hpair
    cases heq
    exact ⟨_, hpart, hmem⟩

/-! ## Levels -/

/-- What comes from below is what the rules resolve occurrences of a weight to. -/
def Below.Derives (c : Context) (known : List Fragment) (bound : Nat) (below : Below) : Prop :=
  ∀ parent os, (∀ o ∈ os, o.weight known ≤ bound) →
    ResolvesLevel c known parent os (below parent (os.map (·.node known))).value
      (below parent (os.map (·.node known))).findings

variable {below : Below} {bound : Nat}

theorem resolvesUnder_resolveChildren (hbelow : below.Derives c known bound)
    {os : List Occurrence} (hos : ∀ o ∈ os, o.weight known ≤ bound) :
    ResolvesUnder c known parent os
      (resolveChildren below parent (os.map (·.node known))).value
      (resolveChildren below parent (os.map (·.node known))).findings := by
  cases os with
  | nil => exact .leaf
  | cons o os =>
    have hlevel := hbelow parent (o :: os) hos
    rw [resolveChildren, if_neg (by simp)]
    change ResolvesUnder c known parent (o :: os) (some _) (_ ++ [])
    rw [List.append_nil]
    exact .object hlevel

theorem resolvesField_resolveField (hbelow : below.Derives c known bound) (parent : Option String)
    (name : String)
    {uses : List Use} (huses : ∀ use ∈ uses, ∀ child ∈ use.2, child.weight known ≤ bound) :
    ResolvesField c known parent name uses
      (resolveField c below parent name (uses.map (Use.nodes known))).value
      (resolveField c below parent name (uses.map (Use.nodes known))).findings := by
  have hchildren : (uses.map (Use.nodes known)).flatMap (·.2) =
      (uses.flatMap (·.2)).map (·.node known) := by
    rw [List.flatMap_map, List.map_flatMap]
    rfl
  have hunder : ∀ parent', ResolvesUnder c known parent' (uses.flatMap (·.2))
      (resolveChildren below parent' ((uses.flatMap (·.2)).map (·.node known))).value
      (resolveChildren below parent' ((uses.flatMap (·.2)).map (·.node known))).findings := by
    refine fun parent' => resolvesUnder_resolveChildren hbelow fun o ho => ?_
    obtain ⟨use, huse, hmem⟩ := List.mem_flatMap.1 ho
    exact huses use huse o hmem
  rw [resolveField, hchildren, List.findSome?_map, List.findSome?_map]
  by_cases hname : name = typenameField
  · subst hname
    rw [if_pos rfl]
    change ResolvesField c known parent typenameField uses (some _) (_ ++ [])
    rw [List.append_nil]
    exact .typename (hunder _)
  · rw [if_neg hname]
    cases hlook : lookUp c parent name with
    | mk definition noted =>
      cases definition with
      | some definition =>
        change ResolvesField c known parent name uses (some _) (noted ++ (_ ++ []))
        rw [List.append_nil]
        exact .defined hname hlook (hunder _)
      | none =>
        dsimp only [bind]
        cases homitted : isOmitted c parent with
        | true =>
          change ResolvesField c known parent name uses none (noted ++ [])
          rw [List.append_nil]
          exact .omitted hname hlook homitted
        | false =>
          change ResolvesField c known parent name uses (some _) (noted ++ (_ ++ []))
          rw [List.append_nil]
          exact .undefined hname hlook homitted (hunder _)

theorem resolvesFields_resolveFields (hbelow : below.Derives c known bound) (parent : Option String)
    {groups : KeyedList (List Use)}
    (hgroups : ∀ group ∈ groups, ∀ use ∈ group.2, ∀ child ∈ use.2, child.weight known ≤ bound) :
    ResolvesFields c known parent groups
      (resolveFields c below parent
        (groups.map (Prod.map id (List.map (Use.nodes known))))).value
      (resolveFields c below parent
        (groups.map (Prod.map id (List.map (Use.nodes known))))).findings := by
  induction groups with
  | nil => exact .nil
  | cons group groups ih =>
    have hfield := resolvesField_resolveField hbelow parent group.1
      (hgroups group List.mem_cons_self)
    have hfields := ih fun other hother => hgroups other (List.mem_cons_of_mem _ hother)
    rw [List.map_cons, Prod.map, resolveFields]
    change ResolvesFields c known parent (group :: groups) (_ ++ _) (_ ++ (_ ++ []))
    rw [List.append_nil]
    exact .cons hfield hfields

theorem resolvesVariants_resolveVariants (hbelow : below.Derives c known bound)
    {groups : KeyedList (List (List Occurrence))}
    (hgroups : ∀ group ∈ groups, ∀ child ∈ group.2.flatten, child.weight known ≤ bound) :
    ResolvesVariants c known groups
      (resolveVariants below
        (groups.map (Prod.map id (List.map (List.map (·.node known)))))).value
      (resolveVariants below
        (groups.map (Prod.map id (List.map (List.map (·.node known)))))).findings := by
  induction groups with
  | nil => exact .nil
  | cons group groups ih =>
    have hlevel := hbelow (some group.1) group.2.flatten (hgroups group List.mem_cons_self)
    have hvariants := ih fun other hother => hgroups other (List.mem_cons_of_mem _ hother)
    rw [List.map_flatten] at hlevel
    rw [List.map_cons, Prod.map, resolveVariants]
    change ResolvesVariants c known (group :: groups) (_ :: _) (_ ++ (_ ++ []))
    rw [List.append_nil]
    exact .cons hlevel hvariants

/-- One level more derives what is one step heavier. -/
theorem derives_resolveLevel (hbelow : below.Derives c known bound) :
    Below.Derives c known (bound + 1) (resolveLevel c below) := by
  intro parent os hos
  obtain ⟨parts, opened, hopens, hexpand, hless⟩ :=
    exists_opens c parent (bound + 1) os hos
  have hany : (parts.map (Part.item known)).any Item.isConditional =
      parts.any Part.isConditional := by
    rw [List.any_map]
    congr 1
    funext part
    cases part <;> rfl
  have hparts : ∀ part ∈ parts, ∀ child ∈ part.children, child.weight known ≤ bound :=
    fun part hpart child hchild => Nat.le_of_lt_succ (hless part hpart child hchild)
  have hsettle : ((expand c parent (os.map (·.node known))).value.any Item.isConditional = true →
      c.isPolymorphic parent = false) → settle c parent (os.map (·.node known)) =
        settleItems c parent (expand c parent (os.map (·.node known))).value := settle_eq _
  rw [hexpand, hany] at hsettle
  -- Either conditions are left open, and each group is a level of its own, or all are decided.
  cases hopen : parts.any Part.isConditional && c.isPolymorphic parent with
  | true =>
    have hexpanded : ((expand c parent (os.map (·.node known))).value.any Item.isConditional &&
        c.isPolymorphic parent) = true := by rw [hexpand, hany, hopen]
    have hfields := resolvesFields_resolveFields hbelow parent fun group hgroup use huse =>
      hparts _ (mem_partUses.1 (mem_useGroups hgroup huse).1)
    have hgroups : ∀ group ∈ conditionGroups c parent parts, ∀ child ∈ group.2.flatten,
        child.weight known ≤ bound := by
      intro group hgroup child hchild
      obtain ⟨part, hpart, hmem⟩ := mem_conditionGroups hgroup hchild
      exact hparts part hpart child hmem
    have hvariants := resolvesVariants_resolveVariants hbelow hgroups
    rw [resolveLevel_eq_of_open hexpanded, hexpand, partUses_item, fieldGroups_nodes,
      variantGroups_item]
    exact .discriminated hopens hopen hfields hvariants
  | false =>
    have hexpanded : ((expand c parent (os.map (·.node known))).value.any Item.isConditional &&
        c.isPolymorphic parent) = false := by rw [hexpand, hany, hopen]
    have hdecided : parts.any Part.isConditional = true → c.isPolymorphic parent = false := by
      intro hconditional
      rwa [hconditional, Bool.true_and] at hopen
    obtain ⟨uses, met, hdecides, hsettled, huses⟩ := settles_of_decided bound parts hdecided hparts
    have hfields := resolvesFields_resolveFields hbelow parent fun group hgroup use huse =>
      huses use (mem_useGroups hgroup huse).1
    rw [resolveLevel_eq_of_decided hexpanded, hexpand, hsettle hdecided, hsettled, fieldGroups_nodes]
    exact .decided hopens hopen hdecides hfields

theorem derives_resolveWithin (c : Context) (known : List Fragment) (levels : Nat) :
    Below.Derives c known levels (resolveWithin c levels) := by
  induction levels with
  | zero =>
    intro parent os hos
    cases os with
    | nil => exact .decided .nil rfl .nil .nil
    | cons o os =>
      have hpos := weight_pos known o
      have hle := hos o List.mem_cons_self
      omega
  | succ levels ih => exact derives_resolveLevel ih

end Selection

/-! ## Fragments -/

/-- The rules resolve the fragment to `r`, given all fragments that spreads may name. -/
def Fragment.Resolves (c : Selection.Context) (known : List Fragment) (f : Fragment)
    (r : ResolvedFragment) : Prop :=
  ∃ selection findings,
    Selection.ResolvesLevel c known (some f.onType) (Selection.Occurrence.all [f.name] f.entries)
        selection findings ∧
      r = { name := f.name
            onType := f.onType
            selection := selection
            findings := Finding.reportOnce [] (f.ownFindings c ++ findings) }

/-- The rules resolve every fragment, and to nothing but what `resolve` gives. -/
theorem Fragment.resolve_terminates (c : Selection.Context) (known : List Fragment) (f : Fragment) :
    f.Resolves c known (f.resolve c known) ∧
      ∀ r, f.Resolves c known r → r = f.resolve c known := by
  have hnodes : f.unfold known =
      (Selection.Occurrence.all [f.name] f.entries).map (·.node known) := by
    have hunopened : Selection.unopened known [f.name] = without f.name known :=
      List.filter_congr fun g _ => by simp
    rw [Selection.map_node_all, hunopened, unfold]
  have hweight : ∀ o ∈ Selection.Occurrence.all [f.name] f.entries,
      o.weight known ≤ f.levels known := by
    intro o ho
    have hle : o.weight known ≤ Entry.heightAll f.entries +
        openingLevels (Selection.unopened known [f.name]) := Selection.weight_le_of_mem_all ho
    exact Nat.le_trans hle (Nat.add_le_add_left (Selection.openingLevels_filter_le _ known) _)
  have hlevel := Selection.derives_resolveWithin c known (f.levels known) (some f.onType) _ hweight
  rw [← hnodes] at hlevel
  refine ⟨⟨_, _, hlevel, rfl⟩, ?_⟩
  rintro r ⟨selection, findings, h, rfl⟩
  obtain ⟨rfl, rfl⟩ := h.unique hlevel
  rfl

end FragmentShapes
