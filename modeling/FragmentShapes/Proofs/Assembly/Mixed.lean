import FragmentShapes.Proofs.Assembly.Collision
import FragmentShapes.Proofs.Assembly.Numbered
import FragmentShapes.Proofs.Assembly.Shared

/-!
# Names under the mixed policy

Three kinds of names meet in the registry: paths of nested models, names of shared structures, and
names that the depth limit forces on models. Nested paths tell positions apart and have dots; names of
shared structures are chosen to be free. Only a forced name can be taken by another structure
(`ResolvedFragment.OfDocuments.mixed_collision`).
-/

namespace FragmentShapes

namespace ResolvedFragment

variable {r : ResolvedFragment} {p : NamingPolicy}

/-- The text is the name of the fragment, with more characters of names behind it. -/
def Heads (r : ResolvedFragment) (text : String) : Prop :=
  ∃ more : String, more.toList.all Text.isAsciiNamePart = true ∧ text = r.name ++ more

theorem heads_name (r : ResolvedFragment) : r.Heads r.name := ⟨"", by decide, by simp⟩

theorem Heads.append {text more : String} (h : r.Heads text)
    (hmore : more.toList.all Text.isAsciiNamePart = true) : r.Heads (text ++ more) := by
  obtain ⟨tail, htail, rfl⟩ := h
  refine ⟨tail ++ more, ?_, String.append_assoc⟩
  rw [String.toList_append, List.all_append, htail, hmore]
  rfl

theorem Heads.isAsciiName {text : String} (h : r.Heads text) (hname : Text.isAsciiName r.name = true) :
    Text.isAsciiName text = true := by
  obtain ⟨more, hmore, rfl⟩ := h
  exact Text.isAsciiName_append hname hmore

/-- The name is one that the depth limit forces on a model: an object lies beyond the limit, and the name
is its stem behind what the names below the model above it begin with. -/
def IsForced (r : ResolvedFragment) (p : NamingPolicy) (name : String) : Prop :=
  ∃ position inner stem context, r.selection.below? position = some inner ∧
    p.exceedsDepth position.length = true ∧ (r.selection.stems position).getLast? = some stem ∧
    r.Heads context ∧ name = context ++ "_" ++ (Text.capitalize stem ++ NamingPolicy.modelSuffix)

/-- The names of models at the top below the root: of shared structures, and forced ones. -/
def IsModelName (r : ResolvedFragment) (name : String) : Prop :=
  ∃ stem, r.Heads stem ∧ name = stem ++ NamingPolicy.modelSuffix

theorem IsModelName.isAsciiName {name : String} (h : r.IsModelName name)
    (hname : Text.isAsciiName r.name = true) : Text.isAsciiName name = true := by
  obtain ⟨stem, hstem, rfl⟩ := h
  exact Text.isAsciiName_append (hstem.isAsciiName hname) (by decide)

theorem IsModelName.stemPart {name : String} (h : r.IsModelName name)
    (hname : Text.isAsciiName r.name = true) : r.Heads (NamingPolicy.stemPart name) := by
  obtain ⟨stem, hstem, rfl⟩ := h
  rwa [NamingPolicy.stemPart_append (Text.ne_empty_of_isAsciiName (hstem.isAsciiName hname))]

/-- A stem behind a context. -/
theorem Heads.isModelName {context stem : String} (h : r.Heads context)
    (hstem : Text.isAsciiName stem = true) :
    r.IsModelName (context ++ "_" ++ (Text.capitalize stem ++ NamingPolicy.modelSuffix)) := by
  refine ⟨context ++ "_" ++ Text.capitalize stem, ?_, String.append_assoc.symm⟩
  have hcapital := Text.isAsciiName_chars (Text.isAsciiName_capitalize hstem)
  exact (h.append (by decide)).append (List.all_eq_true.2 hcapital.2)

/-- A number in front of the suffix leaves the name of a model one. -/
theorem IsModelName.numbered {name : String} (h : r.IsModelName name)
    (hascii : Text.isAsciiName r.name = true) (n : Nat) :
    r.IsModelName (Assembly.numbered name n) := by
  refine ⟨_, (h.stemPart hascii).append ?_, rfl⟩
  rw [Nat.repr_eq_ofList_toDigits, String.toList_ofList, List.all_eq_true]
  intro d hd
  have hdigit := Nat.isDigit_of_mem_toDigits (by decide) (by decide) hd
  rw [Text.isAsciiNamePart, Char.isAlphanum, hdigit, Bool.or_true, Bool.true_or]

theorem IsForced.isModelName {name : String} (h : r.IsForced p name) (hsel : r.selection.WellNamed) :
    r.IsModelName name := by
  obtain ⟨position, inner, stem, context, hselection, -, hstem, hcontext, rfl⟩ := h
  exact hcontext.isModelName (hsel.stems hselection stem (List.mem_of_getLast? hstem))

/-- Nested models are not named like models at the top. -/
theorem ObjectAt.ne_of_isAsciiName {position : List Nat} {path name : String} {inner : Selection}
    (h : r.ObjectAt p position path inner) (hmixed : p.placement = .mixed)
    (hname : Text.isAsciiName name = true) : path ≠ name := by
  rw [← h.pathName, NamingPolicy.pathName_of_mixed hmixed]
  exact NamingPolicy.nestedPath_ne h.stems_ne_nil hname

/-- Where stems stay apart, a nested path belongs to one position. -/
theorem ObjectAt.selection_eq {position position' : List Nat} {path : String}
    {inner inner' : Selection} (h : r.ObjectAt p position path inner)
    (h' : r.ObjectAt p position' path inner') (hmixed : p.placement = .mixed)
    (hname : Text.isAsciiName r.name = true) (hsel : r.selection.WellNamed)
    (hstems : r.selection.DistinctStems) : inner = inner' := by
  have hpath := h.pathName.trans h'.pathName.symm
  rw [NamingPolicy.pathName_of_mixed hmixed, NamingPolicy.pathName_of_mixed hmixed] at hpath
  have hposition := hstems.position_eq h.selection h'.selection
    (NamingPolicy.map_capitalize_of_nestedPath hname (hsel.stems h.selection)
      (hsel.stems h'.selection) hpath)
  have hselection := h.selection
  rw [hposition, h'.selection] at hselection
  exact (Option.some.inj hselection).symm

end ResolvedFragment

/-- Only a forced name is taken by another structure. -/
def AssemblyError.IsForcedCollision (e : AssemblyError) (r : ResolvedFragment) (p : NamingPolicy) :
    Prop :=
  ∃ name, e = .naming (.collision name globalScope) ∧ r.IsForced p name

namespace Assembly

variable {c : Context} {r : ResolvedFragment} {p : NamingPolicy} {s s' : AssemblyState} {α : Type}

/-- A well-named fragment is assembled under the mixed policy, and on no level two stems of objects
become the same. -/
structure Context.Mixed (c : Context) (r : ResolvedFragment) : Prop where
  custom : c.policy.custom = []
  placement : c.policy.placement = .mixed
  shared : c.shared = r.selection.sharedObjects
  fragment : c.fragment = r.name
  name : Text.isAsciiName r.name = true
  selection : r.selection.WellNamed
  stems : r.selection.DistinctStems

/-! ## What is registered during a run -/

/-- What is registered has the path of its position, a name of its own among the shared structures, or a
forced name. -/
structure Filed (p : NamingPolicy) (r : ResolvedFragment) (s : AssemblyState) : Prop where
  registered : ∀ path signature, s.registry.signature? path = some signature →
    (∃ position inner, r.ObjectAt p position path inner ∧ inner.signature = signature) ∨
      (∃ bare, ((bare, signature), path) ∈ s.sharedNames) ∨ r.IsForced p path
  nodup : (s.sharedNames.map Prod.snd).Nodup
  spelled : ∀ entry ∈ s.sharedNames, r.IsModelName entry.2

/-- A run that keeps to this, and that only a forced name can end. -/
def Files (p : NamingPolicy) (r : ResolvedFragment) (step : Assembly α) : Prop :=
  ∀ s, Filed p r s → Ensures step s
    (fun _ s' => Filed p r s' ∧ s.sharedNames ⊆ s'.sharedNames) fun e => e.IsForcedCollision r p

/-- Where the shape of the object at a position goes: to the path of the position, to the name of its
structure, or to a forced name. -/
def Location.Claims (l : Location) (p : NamingPolicy) (r : ResolvedFragment) (s : AssemblyState)
    (position : List Nat) (inner : Selection) : Prop :=
  r.ObjectAt p position l.path inner ∨ l.scope = globalScope ∧
    ((∃ bare, ((bare, inner.signature), l.name) ∈ s.sharedNames) ∨ r.IsForced p l.name)

theorem Location.Claims.mono {l : Location} {position : List Nat} {inner : Selection}
    (h : l.Claims p r s position inner) (hnames : s.sharedNames ⊆ s'.sharedNames) :
    l.Claims p r s' position inner :=
  h.imp id (And.imp_right (Or.imp_left (Exists.imp fun _ hmem => hnames hmem)))

theorem Location.path_of_global {l : Location} (h : l.scope = globalScope) : l.path = l.name := by
  rw [Location.path, qualify, if_pos h]

/-- What already has another structure where an object claims to go has it under a forced name. -/
theorem Filed.isForced_of_ne (hc : c.Mixed r) (hs : Filed c.policy r s) {l : Location}
    {position : List Nat} {inner : Selection} (hl : l.Claims c.policy r s position inner)
    {τ : Signature} (hτ : s.registry.signature? l.path = some τ) (hne : τ ≠ inner.signature) :
    l.scope = globalScope ∧ r.IsForced c.policy l.name := by
  have hregistered := hs.registered l.path τ hτ
  rcases hl with hobject | ⟨hscope, hclaim⟩
  · -- the path of a position is no name of the other kinds, and that of no other position
    rcases hregistered with ⟨position', inner', hobject', rfl⟩ | ⟨bare, hmem⟩ | hforced
    · rw [hobject.selection_eq hobject' hc.placement hc.name hc.selection hc.stems] at hne
      exact absurd rfl hne
    · exact absurd rfl (hobject.ne_of_isAsciiName hc.placement
        ((hs.spelled _ hmem).isAsciiName hc.name))
    · exact absurd rfl (hobject.ne_of_isAsciiName hc.placement
        ((hforced.isModelName hc.selection).isAsciiName hc.name))
  · rw [Location.path_of_global hscope] at hregistered
    refine ⟨hscope, ?_⟩
    rcases hclaim with ⟨bare, hmem⟩ | hforced
    · -- a name given to a shared structure is that of no position, and no other structure has it
      have hascii := (hs.spelled _ hmem).isAsciiName hc.name
      rcases hregistered with ⟨position', inner', hobject', -⟩ | ⟨bare', hmem'⟩ | hforced
      · exact absurd rfl (hobject'.ne_of_isAsciiName hc.placement hascii)
      · have hentry := List.inj_on_of_nodup_map hs.nodup hmem hmem' rfl
        cases hentry
        exact absurd rfl hne
      · exact hforced
    · exact hforced

/-- What is registered where it belongs meets another structure under a forced name only. -/
theorem ensures_register_claims (hc : c.Mixed r) (hs : Filed c.policy r s) {l : Location}
    {position : List Nat} {inner : Selection} (hl : l.Claims c.policy r s position inner) :
    Ensures (updateRegistry (·.register l.name l.scope inner.signature)) s
      (fun _ s' => Filed c.policy r s' ∧ s'.sharedNames = s.sharedNames)
      fun e => e.IsForcedCollision r c.policy := by
  refine ensures_updateRegistry.2 ⟨fun registry h => ⟨⟨fun path τ hτ => ?_, hs.nodup, hs.spelled⟩, rfl⟩,
    fun e h => ?_⟩
  · obtain ⟨-, -, honly⟩ := NameRegistry.register_eq_ok h
    rcases honly path τ hτ with hold | ⟨hpath, rfl⟩
    · exact hs.registered path τ hold
    · obtain rfl : path = l.path := hpath
      rcases hl with hobject | ⟨hscope, hmem | hforced⟩
      · exact .inl ⟨position, inner, hobject, rfl⟩
      · exact .inr (.inl (by rwa [Location.path_of_global hscope]))
      · exact .inr (.inr (by rwa [Location.path_of_global hscope]))
  · obtain ⟨rfl, τ, hτ, hne⟩ := NameRegistry.register_eq_error h
    obtain ⟨hscope, hforced⟩ := hs.isForced_of_ne hc hl hτ hne
    exact ⟨l.name, by rw [hscope], hforced⟩

/-- A free name can be given to a shared structure. -/
theorem Filed.addName (hs : Filed p r s) {bare name : String} {signature : Signature}
    (hfree : isTaken s signature name = false) (hname : r.IsModelName name) :
    Filed p r { s with sharedNames := s.sharedNames ++ [((bare, signature), name)] } where
  registered path τ hτ := (hs.registered path τ hτ).imp id
    (Or.imp_left (Exists.imp fun _ hmem => List.mem_append_left _ hmem))
  nodup := by
    rw [List.map_append, List.map_singleton, ← List.concat_eq_append]
    exact hs.nodup.concat (isTaken_eq_false_iff.1 hfree).1
  spelled := List.forall_mem_append.2 ⟨hs.spelled, List.forall_mem_singleton.2 hname⟩

/-! ## Places -/

/-- The place of the shape of the selection at a position. If a model below it can be nested, then it is
nested itself, as all above it are. -/
structure Place.Fits (place : Place) (c : Context) (r : ResolvedFragment) (position : List Nat)
    (sel : Selection) : Prop where
  selection : r.selection.below? position = some sel
  depth : place.depth = position.length
  context : r.Heads place.context
  nonempty : place.path ≠ ""
  path : place.path = c.policy.pathName r.name (r.selection.stems position) ∨
    c.policy.exceedsDepth (place.depth + 1) = true ∨
      ∀ slot ∈ sel.slots, ∀ inner, slot.selection? = some inner →
        inner.named slot.name ∈ r.selection.sharedObjects

/-- The name given to a shared structure is kept for it. -/
theorem ensures_sharedName_filed (hc : c.Mixed r) (hs : Filed c.policy r s) {place : Place}
    (hcontext : r.Heads place.context) {stem : String} (hstem : Text.isAsciiName stem = true)
    (bare : String) (inner : Selection) :
    Ensures (sharedName c place stem bare inner) s
      (fun name s' => Filed c.policy r s' ∧ s.sharedNames ⊆ s'.sharedNames ∧
        ((bare, inner.signature), name) ∈ s'.sharedNames) fun _ => False := by
  have hassign : ∀ context, r.Heads context →
      c.policy.assignName stem (some context) inner.typeName =
        .ok (context ++ "_" ++ (Text.capitalize stem ++ NamingPolicy.modelSuffix)) := by
    intro context hheads
    have hascii := hheads.isAsciiName hc.name
    rw [NamingPolicy.assignName_eq_ok hc.custom hstem (by simpa using hascii),
      NamingPolicy.inContext, if_neg (Text.ne_empty_of_isAsciiName hascii)]
  have hfragment : r.Heads c.fragment := hc.fragment ▸ r.heads_name
  have hfirst := hfragment.isModelName hstem
  refine (ensures_sharedName_spec c place stem bare inner (hassign c.fragment hfragment)
    (hassign place.context hcontext)).mono ?_ fun _ => id
  rintro name s' (⟨rfl, hmem⟩ | ⟨rfl, hfree, hform⟩)
  · exact ⟨hs, List.Subset.refl _, hmem⟩
  · refine ⟨hs.addName hfree ?_, List.subset_append_left _ _, by simp⟩
    rcases hform with rfl | rfl | ⟨n, rfl⟩
    · exact hfirst
    · exact hcontext.isModelName hstem
    · exact hfirst.numbered hc.name n

section Below

variable {place : Place} {position : List Nat} {sel inner : Selection} {number : Nat} {slot : Slot}

theorem stems_concat (hplace : place.Fits c r position sel) (hslot : sel.slots[number]? = some slot)
    (hinner : slot.selection? = some inner) :
    r.selection.stems (position ++ [number]) = r.selection.stems position ++ [slot.name] := by
  rw [Selection.stems_append hplace.selection, Selection.stems_cons hslot hinner, Selection.stems_nil]

/-- The place of a model at the top, where no model below it is nested. -/
theorem fits_hoisted (hc : c.Mixed r) (hplace : place.Fits c r position sel)
    (hslot : sel.slots[number]? = some slot) (hinner : slot.selection? = some inner) {name : String}
    (hname : r.IsModelName name)
    (hbelow : c.policy.exceedsDepth (place.depth + 1) = true ∨
      inner.named slot.name ∈ r.selection.sharedObjects) :
    Place.Fits ⟨name, NamingPolicy.stemPart name, place.depth + 1⟩ c r (position ++ [number])
      inner where
  selection := (objectAt_slot (p := c.policy) hplace.selection hslot hinner).selection
  depth := by rw [hplace.depth, List.length_append, List.length_singleton]
  context := hname.stemPart hc.name
  nonempty := Text.ne_empty_of_isAsciiName (hname.isAsciiName hc.name)
  path := .inr (hbelow.imp NamingPolicy.exceedsDepth_succ fun hshared _ hsub _ =>
    Selection.mem_sharedObjects_of_slot hshared hsub)

/-- Beyond the limit the name of a model is forced. -/
theorem isForced_of_exceedsDepth (hplace : place.Fits c r position sel)
    (hslot : sel.slots[number]? = some slot) (hinner : slot.selection? = some inner)
    (hexceeds : c.policy.exceedsDepth (place.depth + 1) = true) :
    r.IsForced c.policy
      (place.context ++ "_" ++ (Text.capitalize slot.name ++ NamingPolicy.modelSuffix)) := by
  refine ⟨position ++ [number], inner, slot.name, place.context,
    (objectAt_slot (p := c.policy) hplace.selection hslot hinner).selection, ?_, ?_, hplace.context,
    rfl⟩
  · rw [List.length_append, List.length_singleton, ← hplace.depth]
    exact hexceeds
  · rw [stems_concat hplace hslot hinner, List.getLast?_concat]

/-- Below a nested place, a nested model has the path of its position. -/
theorem qualify_of_nested (hc : c.Mixed r)
    (hpath : place.path = c.policy.pathName r.name (r.selection.stems position)) (stem : String) :
    qualify place.path (Text.capitalize stem ++ NamingPolicy.modelSuffix) =
      c.policy.pathName r.name (r.selection.stems position ++ [stem]) := by
  rw [qualify, if_neg (hpath ▸ NamingPolicy.pathName_ne_globalScope _ _ _), hpath,
    NamingPolicy.pathName_of_mixed hc.placement, NamingPolicy.pathName_of_mixed hc.placement,
    NamingPolicy.nestedPath_concat]

theorem fits_nested (hc : c.Mixed r) (hplace : place.Fits c r position sel)
    (hslot : sel.slots[number]? = some slot) (hinner : slot.selection? = some inner)
    (hstem : Text.isAsciiName slot.name = true)
    (hpath : place.path = c.policy.pathName r.name (r.selection.stems position)) :
    Place.Fits ⟨qualify place.path (Text.capitalize slot.name ++ NamingPolicy.modelSuffix),
      place.context ++ "_" ++
        NamingPolicy.stemPart (Text.capitalize slot.name ++ NamingPolicy.modelSuffix),
      place.depth + 1⟩ c r (position ++ [number]) inner where
  selection := (objectAt_slot (p := c.policy) hplace.selection hslot hinner).selection
  depth := by rw [hplace.depth, List.length_append, List.length_singleton]
  context := by
    have hcapital := Text.isAsciiName_capitalize hstem
    rw [NamingPolicy.stemPart_append (Text.ne_empty_of_isAsciiName hcapital)]
    exact (hplace.context.append (by decide)).append
      (List.all_eq_true.2 (Text.isAsciiName_chars hcapital).2)
  nonempty := qualify_of_nested hc hpath slot.name ▸ NamingPolicy.pathName_ne_empty _ _ _
  path := .inl (by rw [qualify_of_nested hc hpath, stems_concat hplace hslot hinner])

/-- Beyond the limit a model is named behind the context above it, whether it is shared or not. -/
theorem nameShape_of_exceedsDepth (hcustom : c.policy.custom = []) {stem : String}
    (hstem : Text.isAsciiName stem = true) (hcontext : Text.isAsciiName place.context = true)
    (hexceeds : c.policy.exceedsDepth (place.depth + 1) = true) (bare : String) (shared : Bool) :
    nameShape c place stem bare inner .hoisted shared =
      pure (place.context ++ "_" ++ (Text.capitalize stem ++ NamingPolicy.modelSuffix),
        NamingPolicy.stemPart
          (place.context ++ "_" ++ (Text.capitalize stem ++ NamingPolicy.modelSuffix))) := by
  rw [nameShape, hexceeds, Bool.not_true, Bool.and_false, if_neg Bool.false_ne_true,
    NamingPolicy.assignName_eq_ok hcustom hstem (by simpa using hcontext), NamingPolicy.inContext,
    if_neg (Text.ne_empty_of_isAsciiName hcontext)]
  rfl

/-- A nested model stands in a nested place. -/
theorem Place.Fits.path_eq (hplace : place.Fits c r position sel)
    (hslot : sel.slots[number]? = some slot) (hinner : slot.selection? = some inner)
    (hexceeds : c.policy.exceedsDepth (place.depth + 1) = false)
    (hshared : inner.named slot.name ∉ r.selection.sharedObjects) :
    place.path = c.policy.pathName r.name (r.selection.stems position) := by
  rcases hplace.path with hpath | hbeyond | hall
  · exact hpath
  · rw [hexceeds] at hbeyond
    cases hbeyond
  · exact absurd (hall slot (List.mem_of_getElem? hslot) inner hinner) hshared

/-- The shape of an object goes where the object has a claim to, and what is below it fits there. -/
theorem ensures_locate_claims (hc : c.Mixed r) (hs : Filed c.policy r s)
    (hplace : place.Fits c r position sel) (hslot : sel.slots[number]? = some slot)
    (hinner : slot.selection? = some inner) :
    Ensures (locate c place slot.name inner) s
      (fun l s' => Filed c.policy r s' ∧ s.sharedNames ⊆ s'.sharedNames ∧
        l.Claims c.policy r s' (position ++ [number]) inner ∧
        l.place.Fits c r (position ++ [number]) inner) fun _ => False := by
  have hstem : Text.isAsciiName slot.name = true :=
    (Selection.holds_below (fun _ h => h.of_slot) hc.selection hplace.selection).name slot
      (List.mem_of_getElem? hslot)
  unfold locate
  rw [NamingPolicy.assignName_eq_ok hc.custom hstem (by simp), ensures_bind, ensures_ofNaming]
  refine ⟨fun bare hbare => ?_, fun _ h => by cases h⟩
  obtain rfl : Text.capitalize slot.name ++ NamingPolicy.modelSuffix = bare := by
    simpa [NamingPolicy.inContext] using hbare
  rw [ensures_bind, hc.shared]
  simp only [Int.natCast_add, Int.cast_ofNat_Int, NamingPolicy.assignScope_of_mixed hc.placement]
  cases hexceeds : c.policy.exceedsDepth (place.depth + 1) with
  | true =>
    have hforced := isForced_of_exceedsDepth hplace hslot hinner hexceeds
    rw [Bool.true_or, if_pos rfl]
    dsimp only
    rw [nameShape_of_exceedsDepth hc.custom hstem (hplace.context.isAsciiName hc.name) hexceeds,
      ensures_pure]
    exact ⟨hs, List.Subset.refl _, .inr ⟨rfl, .inr hforced⟩,
      fits_hoisted hc hplace hslot hinner (hforced.isModelName hc.selection) (.inl hexceeds)⟩
  | false =>
    rw [Bool.false_or]
    cases hcontains : r.selection.sharedObjects.contains
        (Text.capitalize slot.name ++ NamingPolicy.modelSuffix, inner.signature) with
    | true =>
      have hshared : inner.named slot.name ∈ r.selection.sharedObjects :=
        List.contains_iff_mem.1 hcontains
      rw [if_pos rfl]
      dsimp only
      rw [nameShape, hexceeds, Bool.not_false, Bool.and_true, if_pos rfl, ensures_bind]
      refine (ensures_sharedName_filed hc hs hplace.context hstem _ inner).mono ?_ fun _ => id
      rintro name s' ⟨hs', hnames, hentry⟩
      exact ⟨hs', hnames, .inr ⟨rfl, .inl ⟨_, hentry⟩⟩,
        fits_hoisted hc hplace hslot hinner (hs'.spelled _ hentry) (.inr hshared)⟩
    | false =>
      have hshared : inner.named slot.name ∉ r.selection.sharedObjects := by
        rw [← List.contains_iff_mem, Selection.named, hcontains]
        exact Bool.false_ne_true
      have hpath := hplace.path_eq hslot hinner hexceeds hshared
      have hobject := objectAt_slot (p := c.policy) hplace.selection hslot hinner
      rw [← qualify_of_nested hc hpath] at hobject
      rw [if_neg Bool.false_ne_true]
      exact ⟨hs, List.Subset.refl _, .inl hobject, fits_nested hc hplace hslot hinner hstem hpath⟩

/-! ## Runs -/

theorem files_provideShape (hc : c.Mixed r) {l : Location}
    (hl : l.Claims c.policy r s position inner) (hs : Filed c.policy r s)
    {build : Place → Assembly (List Member)} (hbuild : Files c.policy r (build l.place))
    (parent : Place) (doc : String) :
    Ensures (provideShape c parent doc inner build l) s
      (fun _ s' => Filed c.policy r s' ∧ s.sharedNames ⊆ s'.sharedNames)
      fun e => e.IsForcedCollision r c.policy := by
  unfold provideShape
  rw [ensures_bind, ensures_state]
  split_ifs
  · refine (ensures_register_claims hc hs hl).mono ?_ fun _ => id
    rintro - s' ⟨hs', hnames⟩
    exact ⟨hs', hnames ▸ List.Subset.refl _⟩
  · refine (hbuild s hs).bind ?_
    rintro members s₁ ⟨hs₁, hnames₁⟩
    rw [emitShape, ensures_bind]
    refine (ensures_register_claims hc hs₁ (hl.mono hnames₁)).mono ?_ fun _ => id
    rintro - s₂ ⟨hs₂, hnames₂⟩
    rw [ensures_emit]
    exact ⟨⟨hs₂.registered, hs₂.nodup, hs₂.spelled⟩, hnames₂ ▸ hnames₁⟩

theorem files_childShape (hc : c.Mixed r) (hplace : place.Fits c r position sel)
    (hslot : sel.slots[number]? = some slot) (hinner : slot.selection? = some inner)
    {build : Place → Assembly (List Member)}
    (hbuild : ∀ below : Place, below.Fits c r (position ++ [number]) inner →
      Files c.policy r (build below)) (doc : String) :
    Files c.policy r (childShape c place slot.name doc inner build) := by
  intro s hs
  unfold childShape
  refine ((ensures_locate_claims hc hs hplace hslot hinner).mono (fun _ _ => id)
    fun _ => False.elim).bind ?_
  rintro l s₁ ⟨hs₁, hnames₁, hclaims, hfits⟩
  refine (files_provideShape hc hclaims hs₁ (hbuild l.place hfits) place doc).bind ?_
  rintro - s₂ ⟨hs₂, hnames₂⟩
  rw [ensures_bind]
  refine ensures_updateRegistry.2 ⟨fun registry h => ?_, fun e h => ?_⟩
  · refine ⟨⟨fun path τ hτ => ?_, hs₂.nodup, hs₂.spelled⟩, List.Subset.trans hnames₁ hnames₂⟩
    rw [NameRegistry.relate_eq_ok h] at hτ
    exact hs₂.registered path τ hτ
  · exact absurd (NameRegistry.relate_eq_error h) (not_or.2 ⟨hplace.nonempty, hfits.nonempty⟩)

theorem files_slotMember (hc : c.Mixed r) (hplace : place.Fits c r position sel)
    (hslot : sel.slots[number]? = some slot)
    (hbuild : ∀ inner, slot.selection? = some inner → ∀ below : Place,
      below.Fits c r (position ++ [number]) inner → Files c.policy r (members c inner below)) :
    Files c.policy r (slotMember c place slot) := by
  intro s hs
  have htype : slot.type.WellNamed :=
    (Selection.holds_below (fun _ h => h.of_slot) hc.selection hplace.selection).type _
      (List.mem_of_getElem? hslot)
  refine .slotMember (fun _ => ⟨hs, List.Subset.refl _⟩) (fun inner hinner doc => ?_)
    fun inner h => absurd h (ne_variant_of_wellNamed htype inner)
  exact files_childShape hc hplace hslot hinner (hbuild inner hinner) doc s hs

end Below

theorem files_slotMembers {place : Place} {slots : List Slot}
    (h : ∀ slot ∈ slots, Files p r (slotMember c place slot)) :
    Files p r (slotMembers c place slots) := by
  induction slots with
  | nil => exact fun s hs => ⟨hs, List.Subset.refl _⟩
  | cons slot slots ih =>
    intro s hs
    rw [slotMembers]
    refine (h slot List.mem_cons_self s hs).bind ?_
    rintro m s₁ ⟨hs₁, hnames₁⟩
    refine (ih (fun other hother => h other (List.mem_cons_of_mem _ hother)) s₁ hs₁).bind ?_
    rintro more s₂ ⟨hs₂, hnames₂⟩
    exact ⟨hs₂, List.Subset.trans hnames₁ hnames₂⟩

theorem files_members (hc : c.Mixed r) {sel : Selection} {position : List Nat} {place : Place}
    (hplace : place.Fits c r position sel) : Files c.policy r (members c sel place) := by
  induction sel using Selection.slot_induction generalizing position place with
  | step sel ih =>
    rw [members_eq]
    refine files_slotMembers fun slot hmem => ?_
    obtain ⟨number, hslot⟩ := List.mem_iff_getElem?.1 hmem
    exact files_slotMember hc hplace hslot fun inner hinner below hbelow =>
      ih slot hmem inner hinner hbelow

/-- Only a forced name can end the run. -/
theorem ensures_assembleRoot_files (hc : c.Mixed r) :
    Ensures (assembleRoot c r) { registry := .empty } (fun _ _ => True)
      fun e => e.IsForcedCollision r c.policy := by
  have hs : Filed c.policy r { registry := .empty } :=
    ⟨fun path signature h => (by cases h), List.nodup_nil, fun entry h => (by cases h)⟩
  have hascii := NamingPolicy.isAsciiName_withFragmentSuffix hc.name
  unfold assembleRoot
  rw [NamingPolicy.rootName_eq_ok hc.name, ensures_bind, ensures_ofNaming]
  refine ⟨fun name hname => ?_, fun _ h => by cases h⟩
  obtain rfl := Except.ok.inj hname
  have hplace : Place.Fits ⟨NamingPolicy.withFragmentSuffix r.name, r.name, 0⟩ c r [] r.selection := by
    refine ⟨Selection.below?_nil _, rfl, r.heads_name, Text.ne_empty_of_isAsciiName hascii, .inl ?_⟩
    rw [Selection.stems_nil, NamingPolicy.pathName_nil]
  refine (files_members hc hplace _ hs).bind ?_
  rintro members s₁ ⟨hs₁, -⟩
  rw [ensures_bind, emitShape, ensures_bind]
  refine ensures_register (fun s₂ _ _ _ _ => trivial) fun τ hτ _ => ?_
  -- no model below the root is named like it
  have hmodel : ∀ name, r.IsModelName name → name ≠ NamingPolicy.withFragmentSuffix r.name := by
    rintro name ⟨stem, -, rfl⟩
    exact NamingPolicy.append_modelSuffix_ne stem r.name
  rcases hs₁.registered _ τ hτ with ⟨position, inner, hobject, -⟩ | ⟨bare, hmem⟩ | hforced
  · exact absurd rfl hobject.path_ne_root
  · exact absurd rfl (hmodel _ (hs₁.spelled _ hmem))
  · exact absurd rfl (hmodel _ (hforced.isModelName hc.selection))

end Assembly

namespace ResolvedFragment

variable {r : ResolvedFragment} {o : AssemblyOptions}

/-- No object lies beyond the depth limit. -/
def IsWithin (r : ResolvedFragment) (p : NamingPolicy) : Prop :=
  ∀ position inner, r.selection.below? position = some inner → p.exceedsDepth position.length = false

/-- Under the mixed policy without custom names, with stems that stay apart on every level and nothing
registered before: assembly gives a tree if no object lies beyond the depth limit. Otherwise it fails, if
it does, with the collision of a name that the limit forces on a model. -/
theorem OfDocuments.mixed_collision (hr : r.OfDocuments) (hcustom : o.policy.custom = [])
    (hmixed : o.policy.placement = .mixed) (hstems : r.selection.DistinctStems) :
    (r.IsWithin o.policy → ∃ t, (r.assembleWith o .empty).1 = .ok t) ∧
      ∀ e, (r.assembleWith o .empty).1 = .error e →
        ∃ name, e = .naming (.collision name globalScope) ∧ r.IsForced o.policy name := by
  have hc : (o.context r.name r.selection.sharedObjects).Mixed r :=
    ⟨hcustom, hmixed, rfl, rfl, hr.wellNamed.1, hr.wellNamed.2, hstems⟩
  have hrun := Assembly.ensures_assembleRoot_files hc
  have hfail : ∀ e, (r.assembleWith o .empty).1 = .error e →
      e.IsForcedCollision r o.policy := by
    intro e h
    rw [assembleWith, Assembly.sharedSignatures_eq hcustom hmixed hr.wellNamed.2] at h
    dsimp only at h
    split at h
    · next e' s heq =>
      cases h
      exact hrun.of_eq_error heq
    · cases h
  refine ⟨fun hwithin => ?_, hfail⟩
  cases h : (r.assembleWith o .empty).1 with
  | ok t => exact ⟨t, rfl⟩
  | error e =>
    obtain ⟨name, -, position, inner, stem, context, hselection, hexceeds, -⟩ := hfail e h
    rw [hwithin position inner hselection] at hexceeds
    cases hexceeds

/-- Posts are shared, friends are nested, and no name is taken twice. -/
theorem mixed_card : ResolvedFragment.card.selection.DistinctStems ∧
    ∃ t, (ResolvedFragment.card.assembleWith (.ofPolicy { placement := .mixed }) .empty).1 = .ok t := by
  have hstems : ResolvedFragment.card.selection.DistinctStems := by decide +kernel
  exact ⟨hstems, (card_ofDocuments.mixed_collision (o := .ofPolicy { placement := .mixed }) rfl rfl
    hstems).1 fun _ _ _ => rfl⟩

end ResolvedFragment

/-! ## A forced name that is taken -/

/-- A fragment with a model below two nested ones, and one that has the same name when it is lifted. -/
def Fragment.ladder : Fragment where
  name := "Card"
  onType := "User"
  entries :=
    [.field { name := "a" } [.field { name := "b" } [.field { name := "c" }
        [.field { name := "id" } []]]],
      .field { name := "a_B" } [.field { name := "c" } [.field { name := "text" } []]]]

theorem Fragment.ladder_ofDocument : Fragment.ladder.OfDocument :=
  ⟨"fragment Card on User { a { b { c { id } } } a_B { c { text } } }", [Fragment.ladder],
    by rw [Fragment.parseDocument_ofList]; decide +kernel,
    List.mem_singleton_self _⟩

/-- The fragment as it is resolved without a schema. -/
def ResolvedFragment.ladder : ResolvedFragment := Fragment.ladder.resolve { schema := none } []

theorem ResolvedFragment.ladder_ofDocuments : ResolvedFragment.ladder.OfDocuments :=
  ⟨{ schema := none }, [], Fragment.ladder, by simp, by simp, Fragment.ladder_ofDocument, rfl⟩

/-- With a limit of one, two structures below it are forced under one name. -/
theorem ResolvedFragment.collision_ladder :
    ResolvedFragment.ladder.OfDocuments ∧ ResolvedFragment.ladder.selection.DistinctStems ∧
      (ResolvedFragment.ladder.assembleWith (.ofPolicy { placement := .mixed, maxDepth := 1 })
        .empty).1 = .error (.naming (.collision "Card_A_B_CModel" globalScope)) := by
  refine ⟨ladder_ofDocuments, by decide +kernel, ?_⟩
  have herror : (match (ResolvedFragment.ladder.assembleWith
      (.ofPolicy { placement := .mixed, maxDepth := 1 }) .empty).1 with
      | .error e => some e
      | .ok _ => none) = some (.naming (.collision "Card_A_B_CModel" globalScope)) := by
    decide +kernel
  split at herror
  · next e heq => rw [heq, Option.some.inj herror]
  · cases herror

end FragmentShapes
