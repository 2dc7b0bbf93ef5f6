import FragmentShapes.Proofs.Assembly.Numbered
import FragmentShapes.Proofs.Assembly.Shared
import FragmentShapes.Proofs.Assembly.Tree
import FragmentShapes.Proofs.Naming.PathName
import FragmentShapes.Proofs.Selection.Distinct

/-!
# Where shapes go

A path has a dot for each model that it goes through, and no name has one. So a nested shape is as deep as
its path has dots, and a shape at the top has none. Below a lifted shape nothing is nested: the depth limit
and the flattened policy lift everything, and inside a shared structure everything is shared. Building
members keeps to this (`Assembly.charts_members`), and keeps a record of what each reference leads to.

Main statement: `Fragment.placement_of_assembleWith`.
-/

namespace FragmentShapes

/-- Nothing that was registered or named is lost. -/
structure AssemblyState.Extends (s s' : AssemblyState) : Prop where
  keeps : s.Keeps s'
  names : s.sharedNames ⊆ s'.sharedNames

theorem AssemblyState.Extends.refl (s : AssemblyState) : s.Extends s :=
  ⟨fun _ _ => id, List.Subset.refl _⟩

theorem AssemblyState.Extends.trans {s₁ s₂ s₃ : AssemblyState} (h : s₁.Extends s₂)
    (h' : s₂.Extends s₃) : s₁.Extends s₃ :=
  ⟨h.keeps.trans h'.keeps, List.Subset.trans h.names h'.names⟩

namespace Assembly

open AssemblyState

variable {c : Context} {s s' : AssemblyState} {α : Type}

theorem dot_not_mem_numbered {name : String} (h : '.' ∉ name.toList) (n : Nat) :
    '.' ∉ (numbered name n).toList := by
  have hdigits : '.' ∉ (Nat.repr n).toList := by
    rw [Nat.repr_eq_ofList_toDigits, String.toList_ofList]
    intro hmem
    exact absurd (Nat.isDigit_of_mem_toDigits (by decide) (by decide) hmem) (by decide)
  rw [numbered, String.toList_append, String.toList_append, List.mem_append, List.mem_append]
  rintro ((hmem | hmem) | hmem)
  · exact NamingPolicy.dot_not_mem_stemPart h hmem
  · exact hdigits hmem
  · exact absurd hmem (by decide)

/-! ## What references lead to -/

/-- Only the mixed policy shares structures, and inside a shared one everything is shared. -/
structure Context.IsCoherent (c : Context) : Prop where
  unshared : c.policy.placement ≠ .mixed → c.shared = []
  closed : ∀ bare (inner : Selection), (bare, inner.signature) ∈ c.shared →
    ∀ slot ∈ inner.slots, ∀ sub, slot.selection? = some sub → ∀ name,
      c.policy.assignName slot.name none sub.typeName = .ok name → (name, sub.signature) ∈ c.shared

/-- The path of a structure below the one at `parent`: inside it, unless the structure is shared or lifted
for another reason. -/
inductive Route (c : Context) (s : AssemblyState) (parent : String) (key : NamedSignature) :
    String → Prop
  | nested : key ∉ c.shared → Route c s parent key (parent ++ "." ++ key.1)
  | shared {path : String} : key ∈ c.shared → (key, path) ∈ s.sharedNames → '.' ∉ path.toList →
      Route c s parent key path
  | lifted {path : String} : c.policy.maxDepth ≠ 0 ∨ c.policy.placement = .flattened →
      '.' ∉ path.toList → Route c s parent key path

/-- The path is that of a structure that has this stem below `parent`. -/
def Leads (c : Context) (s : AssemblyState) (parent stem path : String) : Prop :=
  ∃ (bare : String) (signature : Signature),
    c.policy.assignName stem none signature.typeName? = .ok bare ∧
      s.registry.signature? path = some signature ∧ Route c s parent (bare, signature) path

theorem Route.mono {parent path : String} {key : NamedSignature} (h : Route c s parent key path)
    (hnames : s.sharedNames ⊆ s'.sharedNames) : Route c s' parent key path := by
  cases h with
  | nested hkey => exact .nested hkey
  | shared hkey hname hdot => exact .shared hkey (hnames hname) hdot
  | lifted hlimit hdot => exact .lifted hlimit hdot

theorem Leads.mono {parent stem path : String} (h : Leads c s parent stem path) (hs : s.Extends s') :
    Leads c s' parent stem path := by
  obtain ⟨bare, signature, hbare, hsignature, hroute⟩ := h
  exact ⟨bare, signature, hbare, hs.keeps _ _ hsignature, hroute.mono hs.names⟩

/-! ## Places and locations -/

/-- Nothing below a shape for the selection at this depth is nested. -/
def Lifts (c : Context) (depth : Nat) (sel : Selection) : Prop :=
  c.policy.exceedsDepth (depth + 1) = true ∨ c.policy.placement = .flattened ∨
    ∀ slot ∈ sel.slots, ∀ inner, slot.selection? = some inner → ∀ bare,
      c.policy.assignName slot.name none inner.typeName = .ok bare →
        (bare, inner.signature) ∈ c.shared

/-- The place is in a scope of its own, as deep as its path has dots. -/
def Place.IsRanked (place : Place) : Prop :=
  place.path ≠ globalScope ∧ place.path.toList.count '.' = place.depth

theorem Place.IsRanked.below {place : Place} (h : place.IsRanked) {name : String}
    (hdot : '.' ∉ name.toList) (context : String) :
    Place.IsRanked ⟨qualify place.path name, context, place.depth + 1⟩ := by
  have hpath : qualify place.path name = place.path ++ "." ++ name := by rw [qualify, if_neg h.1]
  constructor
  · intro hglobal
    have hmem : '.' ∈ (qualify place.path name).toList := by
      rw [hpath]
      simp
    rw [show qualify place.path name = globalScope from hglobal] at hmem
    exact absurd hmem (by decide)
  · dsimp only
    rw [hpath, ← h.2]
    simp [List.count_eq_zero_of_not_mem hdot]

/-- Where the shape of a selection below `parent` may go. -/
inductive Location.Fits (c : Context) (parent : Place) (sel : Selection) (l : Location) : Prop
  | nested : l.placement = .nested → l.scope = parent.path → parent.path ≠ globalScope →
      '.' ∉ l.name.toList → l.place.IsRanked → c.policy.exceedsDepth l.depth = false →
      c.policy.placement ≠ .flattened → Fits c parent sel l
  | hoisted : l.placement = .hoisted → l.scope = globalScope → '.' ∉ l.name.toList →
      Lifts c l.depth sel → Fits c parent sel l

/-- The names of shared structures so far: one for each structure, all different, without dots. -/
structure NamesApart (s : AssemblyState) : Prop where
  keys : (s.sharedNames.map Prod.fst).Nodup
  names : (s.sharedNames.map Prod.snd).Nodup
  dotless : ∀ entry ∈ s.sharedNames, '.' ∉ entry.2.toList

/-- A free name can be given to a structure that has none. -/
theorem NamesApart.addName (hs : NamesApart s) {key : NamedSignature} {name : String}
    (hfresh : key ∉ s.sharedNames.map Prod.fst) (hfree : name ∉ s.sharedNames.map Prod.snd)
    (hdot : '.' ∉ name.toList) :
    NamesApart { s with sharedNames := s.sharedNames ++ [(key, name)] } where
  keys := by
    rw [List.map_append, List.map_singleton, ← List.concat_eq_append]
    exact hs.keys.concat hfresh
  names := by
    rw [List.map_append, List.map_singleton, ← List.concat_eq_append]
    exact hs.names.concat hfree
  dotless := List.forall_mem_append.2 ⟨hs.dotless, List.forall_mem_singleton.2 hdot⟩

theorem ensures_sharedName_apart (hs : NamesApart s) (c : Context) (parent : Place)
    (stem bare : String) (sel : Selection) :
    Ensures (sharedName c parent stem bare sel) s
      (fun name s' => SameOutput s s' ∧ NamesApart s' ∧ s.sharedNames ⊆ s'.sharedNames ∧
        ((bare, sel.signature), name) ∈ s'.sharedNames) fun _ => True := by
  refine (ensures_sharedName_chosen c parent stem bare sel).mono ?_ fun _ _ => trivial
  rintro name s' (⟨rfl, hmem⟩ | ⟨hfresh, rfl, hfree, first, hfirst, hform⟩)
  · exact ⟨⟨rfl, rfl⟩, hs, List.Subset.refl _, hmem⟩
  · have hdot : '.' ∉ name.toList := by
      rcases hform with rfl | hsecond | ⟨n, rfl⟩
      · exact NamingPolicy.dot_not_mem_assignName hfirst
      · exact NamingPolicy.dot_not_mem_assignName hsecond
      · exact dot_not_mem_numbered (NamingPolicy.dot_not_mem_assignName hfirst) n
    exact ⟨⟨rfl, rfl⟩, hs.addName hfresh (isTaken_eq_false_iff.1 hfree).1 hdot,
      List.subset_append_left _ _, by simp⟩

/-- A name at the top: that of a shared structure, or else one behind the context above. -/
theorem ensures_nameShape_hoisted (hs : NamesApart s) (c : Context) (parent : Place)
    (stem bare : String) (sel : Selection) (shared : Bool) :
    Ensures (nameShape c parent stem bare sel .hoisted shared) s
      (fun named s' => SameOutput s s' ∧ NamesApart s' ∧ s.sharedNames ⊆ s'.sharedNames ∧
        '.' ∉ named.1.toList ∧ (shared = true → c.policy.exceedsDepth (parent.depth + 1) = false →
          ((bare, sel.signature), named.1) ∈ s'.sharedNames)) fun _ => True := by
  rw [nameShape]
  dsimp only
  split_ifs with hkept
  · refine (ensures_sharedName_apart hs c parent stem bare sel).bind ?_
    rintro name s₁ ⟨hsame, hs₁, hnames, hmem⟩
    exact ⟨hsame, hs₁, hnames, hs₁.dotless _ hmem, fun _ _ => hmem⟩
  · rw [ensures_bind, ensures_ofNaming]
    refine ⟨fun name hname => ?_, fun _ _ => trivial⟩
    refine ⟨⟨rfl, rfl⟩, hs, List.Subset.refl _, NamingPolicy.dot_not_mem_assignName hname, ?_⟩
    rintro rfl hdepth
    rw [hdepth] at hkept
    exact absurd rfl hkept

section Below

variable {place : Place} {sel inner : Selection} {slot : Slot}

theorem hoists_of_lifts (hc : c.IsCoherent) {depth : Nat} (h : Lifts c depth sel)
    (hslot : slot ∈ sel.slots) (hinner : slot.selection? = some inner) {bare : String}
    (hbare : c.policy.assignName slot.name none inner.typeName = .ok bare) :
    c.policy.hoists (depth + 1) (c.shared.contains (bare, inner.signature)) = true := by
  rw [NamingPolicy.hoists]
  rcases h with hdepth | hflattened | hall
  · rw [hdepth, Bool.true_or, Bool.true_or]
  · simp [hflattened]
  · have hmem := hall slot hslot inner hinner bare hbare
    have hmixed : c.policy.placement = .mixed := by
      by_contra hne
      rw [hc.unshared hne] at hmem
      cases hmem
    simp [hmixed, hmem]

/-- What makes a shape go to the top makes all below it go there. -/
theorem lifts_of_hoists (hc : c.IsCoherent) {depth : Nat} {bare : String}
    (h : c.policy.hoists depth (c.shared.contains (bare, inner.signature)) = true) :
    Lifts c depth inner := by
  rw [NamingPolicy.hoists, Bool.or_eq_true, Bool.or_eq_true, Bool.and_eq_true] at h
  rcases h with (hdepth | hflattened) | ⟨-, hshared⟩
  · exact .inl (NamingPolicy.exceedsDepth_succ hdepth)
  · exact .inr (.inl (of_decide_eq_true hflattened))
  · exact .inr (.inr (hc.closed bare inner (List.contains_iff_mem.1 hshared)))

/-- What goes to the top is a shared structure under its name, or lifted for another reason. -/
theorem route_of_hoists {depth : Int} {parent name : String} {key : NamedSignature}
    (h : c.policy.hoists depth (c.shared.contains key) = true) (hdot : '.' ∉ name.toList)
    (hkept : c.shared.contains key = true → c.policy.exceedsDepth depth = false →
      (key, name) ∈ s.sharedNames) : Route c s parent key name := by
  cases hdepth : c.policy.exceedsDepth depth with
  | true =>
    rw [NamingPolicy.exceedsDepth, Bool.and_eq_true, decide_eq_true_eq] at hdepth
    exact .lifted (.inl hdepth.1) hdot
  | false =>
    rw [NamingPolicy.hoists, hdepth, Bool.false_or, Bool.or_eq_true, Bool.and_eq_true] at h
    rcases h with hflattened | ⟨-, hshared⟩
    · exact .lifted (.inr (of_decide_eq_true hflattened)) hdot
    · exact .shared (List.contains_iff_mem.1 hshared) (hkept hshared hdepth) hdot

/-- Where the shape of a slot goes, and what leads there. -/
theorem ensures_locate_fits (hc : c.IsCoherent) (hs : NamesApart s)
    (hplace : place.IsRanked ∨ Lifts c place.depth sel) (hslot : slot ∈ sel.slots)
    (hinner : slot.selection? = some inner) :
    Ensures (locate c place slot.name inner) s
      (fun l s' => SameOutput s s' ∧ NamesApart s' ∧ s.sharedNames ⊆ s'.sharedNames ∧
        l.Fits c place inner ∧ (Lifts c place.depth sel → '.' ∉ l.path.toList) ∧
        ∃ bare, c.policy.assignName slot.name none inner.typeName = .ok bare ∧
          Route c s' place.path (bare, inner.signature) l.path) fun _ => True := by
  unfold locate
  rw [ensures_bind, ensures_ofNaming]
  refine ⟨fun bare hbare => ?_, fun _ _ => trivial⟩
  rw [ensures_bind]
  simp only [Int.natCast_add, Int.cast_ofNat_Int, NamingPolicy.assignScope]
  have hdot := NamingPolicy.dot_not_mem_assignName hbare
  by_cases hhoists : c.policy.hoists (place.depth + 1)
      (c.shared.contains (bare, inner.signature)) = true
  · -- at the top, and so is all that is below
    rw [if_pos hhoists]
    refine (ensures_nameShape_hoisted hs c place slot.name bare inner _).mono ?_ fun _ _ => trivial
    rintro ⟨name, context⟩ s₁ ⟨hsame, hs₁, hnames, hname, hkept⟩
    have hpath : qualify globalScope name = name := by rw [qualify, if_pos rfl]
    refine ⟨hsame, hs₁, hnames, .hoisted rfl rfl hname ?_, fun _ => ?_, bare, hbare, ?_⟩
    · exact lifts_of_hoists hc hhoists
    · rwa [Location.path, hpath]
    · rw [Location.path, hpath]
      exact route_of_hoists hhoists hname hkept
  · -- inside the place, which is not one below which nothing is nested
    have hranked : place.IsRanked :=
      hplace.resolve_right fun hlifts => hhoists (hoists_of_lifts hc hlifts hslot hinner hbare)
    obtain ⟨⟨hdepth, hflattened⟩, hshared⟩ : (c.policy.exceedsDepth (place.depth + 1) = false ∧
        c.policy.placement ≠ .flattened) ∧ (c.policy.placement = .mixed →
          (bare, inner.signature) ∉ c.shared) := by
      simpa [NamingPolicy.hoists] using hhoists
    have hkey : (bare, inner.signature) ∉ c.shared := by
      by_cases hmixed : c.policy.placement = .mixed
      · exact hshared hmixed
      · rw [hc.unshared hmixed]
        exact List.not_mem_nil
    rw [if_neg hhoists]
    refine ⟨⟨rfl, rfl⟩, hs, List.Subset.refl _, .nested rfl rfl hranked.1 hdot (hranked.below hdot _) ?_
      hflattened, fun hlifts => ?_, bare, hbare, ?_⟩
    · simpa using hdepth
    · exact absurd (hoists_of_lifts hc hlifts hslot hinner hbare) hhoists
    · rw [Location.path, qualify, if_neg hranked.1]
      exact .nested hkey

end Below

end Assembly

/-! ## Shapes -/

/-- The shape stands at the top. -/
structure Shape.IsTop (x : Shape) : Prop where
  placement : x.placement = .hoisted
  scope : x.scope = globalScope
  dotless : '.' ∉ x.name.toList

/-- The shape stands inside its parent, within the depth limit. -/
structure Shape.IsInside (x : Shape) (p : NamingPolicy) : Prop where
  placement : x.placement = .nested
  scope : x.scope ≠ globalScope
  dotless : '.' ∉ x.name.toList
  parent : x.parent = some x.scope
  depth : x.depth = x.path.toList.count '.'
  within : p.exceedsDepth x.depth = false
  unflattened : p.placement ≠ .flattened

theorem Shape.IsTop.path_eq {x : Shape} (h : x.IsTop) : x.path = x.name := by
  rw [path, qualify, if_pos h.scope]

theorem Shape.IsInside.path_eq {x : Shape} {p : NamingPolicy} (h : x.IsInside p) :
    x.path = x.scope ++ "." ++ x.name := by
  rw [path, qualify, if_neg h.scope]

/-- Each reference of the shape leads to a structure that it has; from the top only to the top. -/
structure Shape.IsPlaced (x : Shape) (c : Assembly.Context) (s : AssemblyState) : Prop where
  leads : ∀ m ∈ x.members, ∀ path, m.shape = some path → Assembly.Leads c s x.path m.name path
  place : x.IsInside c.policy ∨
    x.IsTop ∧ ∀ m ∈ x.members, ∀ path, m.shape = some path → '.' ∉ path.toList

theorem Shape.IsPlaced.mono {x : Shape} {c : Assembly.Context} {s s' : AssemblyState}
    (h : x.IsPlaced c s) (hs : s.Extends s') : x.IsPlaced c s' :=
  ⟨fun m hm path hpath => (h.leads m hm path hpath).mono hs, h.place⟩

namespace Assembly

open AssemblyState

variable {c : Context} {s s' : AssemblyState} {α : Type}

/-! ## Runs -/

/-- What holds during a run. -/
structure Charted (c : Context) (s : AssemblyState) : Prop where
  names : NamesApart s
  placed : ∀ x ∈ s.shapes, x.IsPlaced c s

/-- A run that keeps to this. -/
def Charts (c : Context) (step : Assembly α) (post : α → AssemblyState → Prop) : Prop :=
  ∀ s, Charted c s → Ensures step s (fun value s' => Charted c s' ∧ s.Extends s' ∧ post value s')
    fun _ => True

/-- The members of a shape for the selection at a place. -/
def IsRow (c : Context) (place : Place) (sel : Selection) (members : List Member) (s : AssemblyState) :
    Prop :=
  ∀ m ∈ members, ∀ path, m.shape = some path →
    Leads c s place.path m.name path ∧ (Lifts c place.depth sel → '.' ∉ path.toList)

theorem Charted.of_registry (h : Charted c s) {registry : NameRegistry Signature}
    (hkeeps : s.Keeps { s with registry }) : Charted c { s with registry } :=
  ⟨⟨h.names.keys, h.names.names, h.names.dotless⟩,
    fun x hx => (h.placed x hx).mono ⟨hkeeps, List.Subset.refl _⟩⟩

/-- Registering a shape loses nothing. -/
theorem charts_register (c : Context) (name scope : String) (signature : Signature) :
    Charts c (updateRegistry (·.register name scope signature)) fun _ s' =>
      s'.registry.signature? (qualify scope name) = some signature := by
  intro s hs
  refine ensures_updateRegistry.2 ⟨fun registry h => ?_, fun _ _ => trivial⟩
  obtain ⟨hsame, hkeeps, -⟩ := NameRegistry.register_eq_ok h
  exact ⟨hs.of_registry hkeeps, ⟨hkeeps, List.Subset.refl _⟩, hsame⟩

theorem charts_relate (c : Context) (parent child : String) :
    Charts c (updateRegistry (·.relate parent child)) fun _ _ => True := by
  intro s hs
  refine ensures_updateRegistry.2 ⟨fun registry h => ?_, fun _ _ => trivial⟩
  have hkeeps : s.Keeps { s with registry } := fun path τ hτ =>
    (NameRegistry.relate_eq_ok h path).symm ▸ hτ
  exact ⟨hs.of_registry hkeeps, ⟨hkeeps, List.Subset.refl _⟩, trivial⟩

/-- A new shape whose members have been built for it. -/
theorem Charted.emit (h : Charted c s) {parent : Place} {sel : Selection} {l : Location}
    (hl : l.Fits c parent sel) {members : List Member} (hmembers : IsRow c l.place sel members s)
    (doc : String) :
    Charted c { s with shapes := s.shapes ++ [shapeAt c parent doc sel l members] } := by
  have hextends : s.Extends { s with shapes := s.shapes ++ [shapeAt c parent doc sel l members] } :=
    ⟨fun _ _ => id, List.Subset.refl _⟩
  refine ⟨⟨h.names.keys, h.names.names, h.names.dotless⟩, List.forall_mem_append.2
    ⟨fun x hx => (h.placed x hx).mono hextends, List.forall_mem_singleton.2
      ⟨fun m hm path hpath => (hmembers m hm path hpath).1.mono hextends, ?_⟩⟩⟩
  cases hl with
  | nested hplacement hscope hglobal hdot hranked hdepth hflattened =>
    exact .inl ⟨hplacement, fun h => hglobal (hscope.symm.trans h), hdot, congrArg some hscope.symm,
      hranked.2.symm, hdepth, hflattened⟩
  | hoisted hplacement hscope hdot hlifts =>
    exact .inr ⟨⟨hplacement, hscope, hdot⟩, fun m hm path hpath => (hmembers m hm path hpath).2 hlifts⟩

theorem charts_provideShape {parent : Place} {sel : Selection} {l : Location} (hl : l.Fits c parent sel)
    {build : Place → Assembly (List Member)}
    (hbuild : Charts c (build l.place) (IsRow c l.place sel)) (doc : String) :
    Charts c (provideShape c parent doc sel build l) fun _ s' =>
      s'.registry.signature? l.path = some sel.signature := by
  intro s hs
  unfold provideShape
  rw [ensures_bind, ensures_state]
  split_ifs
  · exact charts_register c l.name l.scope sel.signature s hs
  · refine (hbuild s hs).bind ?_
    rintro members s₁ ⟨hs₁, hextends₁, hmembers⟩
    rw [emitShape, ensures_bind]
    refine (charts_register c l.name l.scope sel.signature s₁ hs₁).mono ?_ fun _ => id
    rintro - s₂ ⟨hs₂, hextends₂, hsignature⟩
    rw [ensures_emit]
    have hrow : IsRow c l.place sel members s₂ := fun m hm path hpath =>
      (hmembers m hm path hpath).imp_left fun hleads => hleads.mono hextends₂
    exact ⟨hs₂.emit hl hrow doc, ⟨(hextends₁.trans hextends₂).keeps, (hextends₁.trans hextends₂).names⟩,
      hsignature⟩

section Slots

variable {place : Place} {sel inner : Selection} {slot : Slot}

theorem charts_childShape (hc : c.IsCoherent) (hplace : place.IsRanked ∨ Lifts c place.depth sel)
    (hslot : slot ∈ sel.slots) (hinner : slot.selection? = some inner)
    {build : Place → Assembly (List Member)}
    (hbuild : ∀ below : Place, below.IsRanked ∨ Lifts c below.depth inner →
      Charts c (build below) (IsRow c below inner)) (doc : String) :
    Charts c (childShape c place slot.name doc inner build) fun path s' =>
      Leads c s' place.path slot.name path ∧ (Lifts c place.depth sel → '.' ∉ path.toList) := by
  intro s hs
  unfold childShape
  refine (ensures_locate_fits hc hs.names hplace hslot hinner).bind ?_
  rintro l s₁ ⟨⟨hshapes, hregistry⟩, hnames₁, hsubset, hl, hdot, bare, hbare, hroute⟩
  have hextends₁ : s.Extends s₁ := ⟨fun path τ hτ => hregistry.symm ▸ hτ, hsubset⟩
  have hs₁ : Charted c s₁ := ⟨hnames₁, fun x hx => (hs.placed x (hshapes ▸ hx)).mono hextends₁⟩
  -- Below a shape inside its parent shapes may stay inside; below one at the top they go there too.
  have hbelow : l.place.IsRanked ∨ Lifts c l.place.depth inner := by
    cases hl with
    | nested _ _ _ _ hranked => exact .inl hranked
    | hoisted _ _ _ hlifts => exact .inr hlifts
  refine (charts_provideShape hl (hbuild l.place hbelow) doc s₁ hs₁).bind ?_
  rintro - s₂ ⟨hs₂, hextends₂, hsignature⟩
  rw [ensures_bind]
  refine (charts_relate c place.path l.path s₂ hs₂).mono ?_ fun _ => id
  rintro - s₃ ⟨hs₃, hextends₃, -⟩
  have hafter := hextends₂.trans hextends₃
  exact ⟨hs₃, hextends₁.trans hafter, ⟨bare, inner.signature, by rwa [inner.marks_signature.1],
    hextends₃.keeps _ _ hsignature, hroute.mono hafter.names⟩, hdot⟩

theorem charts_slotMember (hc : c.IsCoherent) (hplace : place.IsRanked ∨ Lifts c place.depth sel)
    (hslot : slot ∈ sel.slots)
    (hbuild : ∀ inner, slot.selection? = some inner → ∀ below : Place,
      below.IsRanked ∨ Lifts c below.depth inner →
        Charts c (members c inner below) (IsRow c below inner)) :
    Charts c (slotMember c place slot) fun m => IsRow c place sel [m] := by
  intro s hs
  refine .slotMember (fun _ => ?_) (fun inner hsome doc => ?_) fun _ _ _ => trivial
  · refine ⟨hs, .refl s, List.forall_mem_singleton.2 fun path h => ?_⟩
    cases (shape_memberOf_none c slot).symm.trans h
  · refine (charts_childShape hc hplace hslot hsome (hbuild inner hsome) doc s hs).mono ?_ fun _ => id
    rintro path s' ⟨hs', hextends, hleads⟩
    refine ⟨hs', hextends, List.forall_mem_singleton.2 fun path' h => ?_⟩
    cases (shape_memberOf_some c hsome path).symm.trans h
    rwa [name_memberOf]

end Slots

theorem charts_slotMembers {place : Place} {sel : Selection} {slots : List Slot}
    (h : ∀ slot ∈ slots, Charts c (slotMember c place slot) fun m => IsRow c place sel [m]) :
    Charts c (slotMembers c place slots) (IsRow c place sel) := by
  induction slots with
  | nil => exact fun s hs => ⟨hs, .refl s, fun _ hm => by cases hm⟩
  | cons slot slots ih =>
    intro s hs
    rw [slotMembers]
    refine (h slot List.mem_cons_self s hs).bind ?_
    rintro m s₁ ⟨hs₁, hextends₁, hm⟩
    refine (ih (fun other hother => h other (List.mem_cons_of_mem _ hother)) s₁ hs₁).bind ?_
    rintro more s₂ ⟨hs₂, hextends₂, hmore⟩
    refine ⟨hs₂, hextends₁.trans hextends₂, List.forall_mem_cons.2 ⟨fun path hpath => ?_, hmore⟩⟩
    exact (hm m (List.mem_singleton_self m) path hpath).imp_left fun hleads => hleads.mono hextends₂

/-- Building members keeps shapes where they belong, at every place where something can be nested or
everything is lifted. -/
theorem charts_members (hc : c.IsCoherent) {sel : Selection} {place : Place}
    (hplace : place.IsRanked ∨ Lifts c place.depth sel) :
    Charts c (members c sel place) (IsRow c place sel) := by
  induction sel using Selection.slot_induction generalizing place with
  | step sel ih =>
    rw [members_eq]
    exact charts_slotMembers fun slot hslot => charts_slotMember hc hplace hslot
      fun inner hinner below hbelow => ih slot hslot inner hinner hbelow

/-- Where structures are counted under the names that they have, inside a shared one everything is
shared. -/
theorem isCoherent_of_sharedSignatures {o : AssemblyOptions} {sel : Selection} (fragment : String)
    {shared : List NamedSignature} (h : sharedSignatures o.policy sel = .ok shared)
    (htyped : ∀ o ∈ sel.objects, o.2.1 = o.2.2.typeName) : (o.context fragment shared).IsCoherent := by
  obtain ⟨hunshared, hmixed⟩ := sharedSignatures_eq_ok h htyped
  refine ⟨hunshared, fun bare inner hmem slot hslot sub hsub name hname => ?_⟩
  by_cases hp : o.policy.placement = .mixed
  · obtain ⟨rfl, -⟩ := hmixed hp
    rw [← NamingPolicy.bareOf_eq hname]
    exact Selection.mem_repeated_of_slot hmem hslot hsub
  · have hmem' : (bare, inner.signature) ∈ shared := hmem
    rw [hunshared hp] at hmem'
    cases hmem'

theorem ensures_assembleRoot_charted (hc : c.IsCoherent) (r : ResolvedFragment)
    (registry : NameRegistry Signature) :
    Ensures (assembleRoot c r) { registry } (fun root s => NamesApart s ∧ root.IsTop ∧
      (∀ m ∈ root.members, ∀ path, m.shape = some path → Leads c s root.path m.name path) ∧
      ∃ front, s.shapes = front ++ [root] ∧ ∀ x ∈ front, x.IsPlaced c s) fun _ => True := by
  have hs : Charted c { registry } :=
    ⟨⟨List.nodup_nil, List.nodup_nil, fun _ h => (by cases h)⟩, fun _ h => by cases h⟩
  unfold assembleRoot
  rw [ensures_bind, ensures_ofNaming]
  refine ⟨fun name hname => ?_, fun _ _ => trivial⟩
  have hdot := NamingPolicy.dot_not_mem_rootName hname
  have hranked : Place.IsRanked ⟨name, r.name, 0⟩ :=
    ⟨NamingPolicy.rootName_ne_globalScope hname, List.count_eq_zero_of_not_mem hdot⟩
  refine (charts_members hc (.inl hranked) _ hs).bind ?_
  rintro members s₁ ⟨hs₁, -, hmembers⟩
  rw [ensures_bind, emitShape, ensures_bind]
  refine (charts_register c name globalScope r.selection.signature s₁ hs₁).mono ?_ fun _ => id
  rintro - s₂ ⟨hs₂, hextends, -⟩
  rw [ensures_emit, ensures_pure]
  have htop : (rootShape c r name members).IsTop := ⟨rfl, rfl, hdot⟩
  refine ⟨⟨hs₂.names.keys, hs₂.names.names, hs₂.names.dotless⟩, htop, fun m hm path hpath => ?_,
    s₂.shapes, rfl, fun x hx => (hs₂.placed x hx).mono ⟨fun _ _ => id, List.Subset.refl _⟩⟩
  rw [htop.path_eq]
  exact ((hmembers m hm path hpath).1.mono hextends).mono ⟨fun _ _ => id, List.Subset.refl _⟩

end Assembly

/-! ## Trees -/

namespace ShapeTree

/-- What references lead to in a finished tree, and where its shapes stand. -/
structure Charted (t : ShapeTree) (c : Assembly.Context) (s : AssemblyState) : Prop where
  names : Assembly.NamesApart s
  root : t.root.IsTop
  leads : ∀ x ∈ t.shapes, ∀ m ∈ x.members, ∀ path, m.shape = some path →
    Assembly.Leads c s x.path m.name path
  placed : ∀ x ∈ t.shapes, x ≠ t.root → x.IsPlaced c s

theorem Charted.isTop {t : ShapeTree} {c : Assembly.Context} {s : AssemblyState} (h : t.Charted c s)
    {x : Shape} (hx : x ∈ t.shapes) (hplacement : x.placement = .hoisted) : x.IsTop := by
  by_cases hroot : x = t.root
  · exact hroot ▸ h.root
  · rcases (h.placed x hx hroot).place with hinside | ⟨htop, -⟩
    · rw [hinside.placement] at hplacement
      cases hplacement
    · exact htop

theorem Charted.isInside {t : ShapeTree} {c : Assembly.Context} {s : AssemblyState} (h : t.Charted c s)
    {x : Shape} (hx : x ∈ t.shapes) (hplacement : x.placement = .nested) :
    x ≠ t.root ∧ x.IsInside c.policy := by
  have hroot : x ≠ t.root := by
    rintro rfl
    rw [h.root.placement] at hplacement
    cases hplacement
  rcases (h.placed x hx hroot).place with hinside | ⟨htop, -⟩
  · exact ⟨hroot, hinside⟩
  · rw [htop.placement] at hplacement
    cases hplacement

end ShapeTree

/-- What references lead to has been referred to by a shape, unless it was the start. -/
theorem Reachable.exists_reference {shapes : List Shape} {references : List String} {x : Shape}
    (h : Reachable shapes references x) :
    x.path ∈ references ∨ ∃ y ∈ shapes, x.path ∈ y.references := by
  induction h with
  | here _ hpath => exact .inl hpath
  | through hmem _ _ ih => exact .inr (ih.elim (fun hpath => ⟨_, hmem, hpath⟩) id)

theorem ShapeTree.Sound.exists_reference {P : Shape → Selection → Prop} {r : ResolvedFragment}
    {t : ShapeTree} {s : AssemblyState} (h : t.Sound P r s) {x : Shape} (hx : x ∈ t.shapes)
    (hroot : x ≠ t.root) : ∃ y ∈ t.shapes, ∃ m ∈ y.members, m.shape = some x.path := by
  have hreach := (h.reachable x hx).resolve_left hroot
  rcases hreach.exists_reference with hpath | ⟨y, hy, hpath⟩
  · exact ⟨t.root, h.root_mem, List.mem_filterMap.1 hpath⟩
  · exact ⟨y, hy, List.mem_filterMap.1 hpath⟩

/-- A nested shape is referred to by the one that it stands in. -/
theorem ShapeTree.Charted.exists_scope {P : Shape → Selection → Prop} {r : ResolvedFragment}
    {t : ShapeTree} {c : Assembly.Context} {s : AssemblyState} (h : t.Charted c s) (hsound : t.Sound P r s)
    {x : Shape} (hx : x ∈ t.shapes) (hplacement : x.placement = .nested) :
    ∃ y ∈ t.shapes, y.path = x.scope ∧ (y = t.root ∨ y.placement = .nested) := by
  obtain ⟨hroot, hinside⟩ := h.isInside hx hplacement
  obtain ⟨y, hy, m, hm, hpath⟩ := hsound.exists_reference hx hroot
  have hdotted : '.' ∈ x.path.toList := by
    rw [hinside.path_eq]
    simp
  obtain ⟨bare, signature, hbare, -, hroute⟩ := h.leads y hy m hm _ hpath
  refine ⟨y, hy, ?_, ?_⟩
  · have hbehind : ∀ path, Assembly.Route c s y.path (bare, signature) path → '.' ∈ path.toList →
        path = y.path ++ "." ++ bare := by
      intro path hroute hdotted
      cases hroute with
      | nested => rfl
      | shared _ _ hdot => exact absurd hdotted hdot
      | lifted _ hdot => exact absurd hdotted hdot
    have hsame := hbehind _ hroute hdotted
    rw [hinside.path_eq] at hsame
    exact (NamingPolicy.eq_of_append_dot hinside.dotless
      (NamingPolicy.dot_not_mem_assignName hbare) hsame).1.symm
  · by_cases hyroot : y = t.root
    · exact .inl hyroot
    · rcases (h.placed y hy hyroot).place with hinside' | ⟨-, hdotless⟩
      · exact .inr hinside'.placement
      · exact absurd hdotted (hdotless m hm _ hpath)

theorem ResolvedFragment.charted_of_run {r : ResolvedFragment} {c : Assembly.Context}
    (hc : c.IsCoherent) {registry : NameRegistry Signature} {t : ShapeTree} {s : AssemblyState}
    (hrun : Assembly.assembleRoot c r { registry } = (.ok t.root, s)) (hshapes : t.shapes = s.shapes) :
    t.Charted c s := by
  obtain ⟨hnames, hroot, hleads, front, hfront, hplaced⟩ :=
    (Assembly.ensures_assembleRoot_charted hc r registry).of_eq_ok hrun
  have hall : ∀ x ∈ t.shapes, x = t.root ∨ x ∈ front := by
    intro x hx
    rw [hshapes, hfront, List.mem_append, List.mem_singleton] at hx
    exact hx.symm
  refine ⟨hnames, hroot, fun x hx => ?_, fun x hx hne => hplaced x ((hall x hx).resolve_left hne)⟩
  rcases hall x hx with rfl | hx
  · exact hleads
  · exact (hplaced x hx).leads

/-- Where the shapes of a tree stand. -/
structure ShapeTree.IsConsistent (t : ShapeTree) (p : NamingPolicy) : Prop where
  /-- A nested shape stands in the root or in another nested shape. -/
  scope : ∀ x ∈ t.shapes, x.placement = .nested →
    ∃ y ∈ t.shapes, y.path = x.scope ∧ (y = t.root ∨ y.placement = .nested)
  parent : ∀ x ∈ t.shapes, x.placement = .nested → x.parent = some x.scope
  /-- It is as deep as its path has dots. -/
  depth : ∀ x ∈ t.shapes, x.placement = .nested → x.depth = x.path.toList.count '.'
  limit : 0 < p.maxDepth → ∀ x ∈ t.shapes, x.placement = .nested → (x.depth : Int) ≤ p.maxDepth
  hoisted : ∀ x ∈ t.shapes, x.placement = .hoisted → x.scope = globalScope ∧ '.' ∉ x.path.toList
  flattened : p.placement = .flattened → ∀ x ∈ t.shapes, x.placement ≠ .nested

/-- Whatever is resolved and assembled, however it is named and placed and whatever is registered before:
nested shapes stand in the root or in each other, as deep as their paths say and within the limit, and
all others at the top. -/
theorem Fragment.placement_of_assembleWith {c : Selection.Context} {known : List Fragment} {f : Fragment}
    {o : AssemblyOptions} {registry : NameRegistry Signature} {t : ShapeTree}
    (h : ((f.resolve c known).assembleWith o registry).1 = .ok t) : t.IsConsistent o.policy := by
  obtain ⟨shared, s, hshared, hrun, hshapes⟩ := ResolvedFragment.exists_run h
  have hcoherent := Assembly.isCoherent_of_sharedSignatures (f.resolve c known).name hshared
    Selection.typeName_of_mem_objects
  have hcharted := ResolvedFragment.charted_of_run hcoherent hrun hshapes
  have hsound : t.Sound (fun _ _ => True) (f.resolve c known) s :=
    ResolvedFragment.sound_of_run (fun _ _ _ _ _ _ _ _ => trivial) (fun _ _ => trivial) hrun hshapes
  have hinside : ∀ x ∈ t.shapes, x.placement = .nested → x.IsInside o.policy :=
    fun x hx hplacement => (hcharted.isInside hx hplacement).2
  refine
    { scope := fun x hx => hcharted.exists_scope hsound hx
      parent := fun x hx hplacement => (hinside x hx hplacement).parent
      depth := fun x hx hplacement => (hinside x hx hplacement).depth
      limit := fun hlimit x hx hplacement => ?_
      hoisted := fun x hx hplacement => ?_
      flattened := fun hp x hx hplacement => (hinside x hx hplacement).unflattened hp }
  · have hwithin := (hinside x hx hplacement).within
    simp only [NamingPolicy.exceedsDepth, Bool.and_eq_false_iff, decide_eq_false_iff_not] at hwithin
    omega
  · have htop := hcharted.isTop hx hplacement
    exact ⟨htop.scope, htop.path_eq ▸ htop.dotless⟩

/-- Posts are shared and friends nested, under a custom name and a limit. -/
theorem Fragment.placement_card : ∃ t, ((Fragment.card.resolve { schema := none } []).assembleWith
      (.ofPolicy { custom := [("friend", "Person")], placement := .mixed, maxDepth := 1 })
      .empty).1 = .ok t ∧
    t.IsConsistent { custom := [("friend", "Person")], placement := .mixed, maxDepth := 1 } := by
  obtain ⟨t, ht⟩ := exists_of_isOk (by decide +kernel :
    ((Fragment.card.resolve { schema := none } []).assembleWith
      (.ofPolicy { custom := [("friend", "Person")], placement := .mixed, maxDepth := 1 })
      .empty).1.isOk = true)
  exact ⟨t, ht, placement_of_assembleWith ht⟩

end FragmentShapes
