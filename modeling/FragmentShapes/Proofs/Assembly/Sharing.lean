import FragmentShapes.Proofs.Assembly.MemberNames
import FragmentShapes.Proofs.Assembly.Placement
import FragmentShapes.Proofs.Selection.Typename
import Mathlib.Data.Finset.Card

/-!
# Which positions share a shape

Under the mixed policy without a depth limit, where a shape goes is a matter of how often its structure
comes. Structures are counted over the objects of a selection; these are its positions, each once, unless
a `__typename` with a selection of its own is lost in a discriminant (`Selection.exists_positions`). There
is none where no fragment writes one (`Fragment.typenameIsLeaf_resolve`).

Main statement: `ResolvedFragment.OfDocuments.sharing_of_assembleWith`.
-/

namespace FragmentShapes

/-! ## Structures at positions -/

namespace Selection

variable {p : NamingPolicy} {sel inner : Selection} {slot : Slot} {key : NamedSignature}

/-- The structure of the object at a position below, under the name that it has by itself. -/
def keyAt? (p : NamingPolicy) : Selection → List Nat → Option NamedSignature
  | _, [] => none
  | sel, number :: position =>
    sel.slots[number]?.bind fun slot => slot.selection?.bind fun inner =>
      if position = [] then
        (p.assignName slot.name none inner.typeName).toOption.map (·, inner.signature)
      else keyAt? p inner position

/-- The structure comes at two positions at least. -/
def Repeats (sel : Selection) (p : NamingPolicy) (key : NamedSignature) : Prop :=
  ∃ position position', position ≠ position' ∧ sel.keyAt? p position = some key ∧
    sel.keyAt? p position' = some key

/-- All objects of the selection have names by themselves. -/
def IsNamed (sel : Selection) (p : NamingPolicy) : Prop :=
  ∀ o ∈ sel.objects, p.assignName o.1 none o.2.2.typeName = .ok (p.bareOf o.1 o.2.2.signature)

theorem IsNamed.of_slot (h : sel.IsNamed p) (hslot : slot ∈ sel.slots)
    (hinner : slot.selection? = some inner) :
    p.assignName slot.name none inner.typeName = .ok (p.bareOf slot.name inner.signature) ∧
      inner.IsNamed p := by
  obtain ⟨type, hobject⟩ := exists_mem_levelObjects hslot hinner
  exact ⟨h _ (mem_objects.2 ⟨_, hobject, .inl rfl⟩),
    fun o ho => h o (mem_objects.2 ⟨_, hobject, .inr ho⟩)⟩

/-- The structure behind a slot: its own, or one further down. -/
def keyBehind? (p : NamingPolicy) (position : List Nat) (slot : Slot) : Option NamedSignature :=
  slot.selection?.bind fun inner =>
    if position = [] then
      (p.assignName slot.name none inner.typeName).toOption.map (·, inner.signature)
    else inner.keyAt? p position

theorem keyAt?_cons (p : NamingPolicy) (sel : Selection) (number : Nat) (position : List Nat) :
    sel.keyAt? p (number :: position) = sel.slots[number]?.bind (keyBehind? p position) := by
  rw [keyAt?]
  rfl

/-- The structures behind a slot, from the top down. -/
def keysBehind (p : NamingPolicy) (slot : Slot) : List NamedSignature :=
  slot.selection?.elim [] fun inner =>
    (p.bareOf slot.name inner.signature, inner.signature) :: inner.keyed p.bareOf

/-- Where the discriminant absorbs no object, the objects are those behind the slots. -/
theorem keyed_eq_flatMap_slots (p : NamingPolicy)
    (h : ∀ f ∈ sel.fields, f.info.name = typenameField → f.selection = none) :
    sel.keyed p.bareOf = sel.slots.flatMap (keysBehind p) := by
  have hfields : ∀ fields : List SelectedField, (∀ f ∈ fields, f.info.name = typenameField →
        f.selection = none) →
      (fields.filterMap fun f => f.selection.map fun inner =>
          (f.info.name, inner.typeName, inner)).flatMap (fun o =>
        (p.bareOf o.1 o.2.2.signature, o.2.2.signature) :: o.2.2.keyed p.bareOf) =
      ((fields.filter (!sel.absorbs ·)).map fun f => Slot.field f.info f.selection).flatMap
        (keysBehind p) := by
    intro fields hleaf
    induction fields with
    | nil => rfl
    | cons f fields ih =>
      obtain ⟨hfirst, hrest⟩ := List.forall_mem_cons.1 hleaf
      rw [List.filterMap_cons, List.filter_cons]
      cases hselection : f.selection with
      | none =>
        rw [Option.map_none, ih hrest]
        split_ifs <;> simp [keysBehind, hselection, Slot.selection?]
      | some inner =>
        have hkept : sel.absorbs f = false := by
          by_contra habsorbs
          rw [Bool.not_eq_false, absorbs, Bool.and_eq_true, decide_eq_true_eq] at habsorbs
          rw [hfirst habsorbs.2] at hselection
          cases hselection
        rw [Option.map_some, hkept, List.flatMap_cons, ih hrest]
        simp [keysBehind, hselection, Slot.selection?, Slot.name]
  have hfirst : (if sel.isDiscriminated then [Slot.discriminant] else []).flatMap (keysBehind p) =
      [] := by
    split_ifs <;> rfl
  rw [keyed_eq, levelObjects, slots, List.flatMap_append, List.flatMap_append, List.flatMap_append,
    hfirst, List.nil_append, hfields sel.fields h, List.flatMap_map (l := sel.variants),
    List.flatMap_map (l := sel.variants)]
  rfl

/-- Positions, each once, with the structures behind them in the order in which these are counted. -/
structure Lists (keyAt? : List Nat → Option NamedSignature) (keys : List NamedSignature)
    (positions : List (List Nat)) : Prop where
  nodup : positions.Nodup
  keys : positions.map keyAt? = keys.map some
  complete : ∀ position key, keyAt? position = some key → position ∈ positions

theorem Lists.exists_key {keyAt? : List Nat → Option NamedSignature} {keys : List NamedSignature}
    {positions : List (List Nat)} (h : Lists keyAt? keys positions) {position : List Nat}
    (hposition : position ∈ positions) : ∃ key, keyAt? position = some key := by
  have hmem := List.mem_map_of_mem (f := keyAt?) hposition
  rw [h.keys] at hmem
  obtain ⟨key, -, hkey⟩ := List.mem_map.1 hmem
  exact ⟨key, hkey.symm⟩

/-- The object of a slot and those inside it. -/
theorem lists_behind {positions : List (List Nat)} (hinner : slot.selection? = some inner)
    (hname : p.assignName slot.name none inner.typeName = .ok (p.bareOf slot.name inner.signature))
    (h : Lists (inner.keyAt? p) (inner.keyed p.bareOf) positions) :
    Lists (keyBehind? p · slot) (keysBehind p slot) ([] :: positions) := by
  -- Behind a slot, only the object itself is at no further number.
  have hbelow : ∀ position, position ≠ [] →
      keyBehind? p position slot = inner.keyAt? p position := fun position hne => by
    rw [keyBehind?, hinner, Option.bind_some, if_neg hne]
  have hne : ∀ position ∈ positions, position ≠ [] := by
    rintro position hmem rfl
    obtain ⟨key, hkey⟩ := h.exists_key hmem
    cases hkey
  refine ⟨List.nodup_cons.2 ⟨fun hmem => hne [] hmem rfl, h.nodup⟩, ?_, fun position key hkey => ?_⟩
  · rw [List.map_cons, List.map_congr_left fun position hmem => hbelow position (hne position hmem),
      h.keys, keysBehind, hinner, keyBehind?, hinner, Option.bind_some, if_pos rfl, hname]
    rfl
  · by_cases hnil : position = []
    · exact hnil ▸ List.mem_cons_self
    · rw [hbelow position hnil] at hkey
      exact List.mem_cons_of_mem _ (h.complete position key hkey)

/-- The positions of a level are those behind its slots, each after the number of its slot. -/
theorem lists_of_slots {behind : Slot → List (List Nat)}
    (hleaf : ∀ f ∈ sel.fields, f.info.name = typenameField → f.selection = none)
    (h : ∀ slot ∈ sel.slots, Lists (keyBehind? p · slot) (keysBehind p slot) (behind slot)) :
    Lists (sel.keyAt? p) (sel.keyed p.bareOf)
      (sel.slots.zipIdx.flatMap fun e => (behind e.1).map (e.2 :: ·)) := by
  refine ⟨List.nodup_flatMap.2 ⟨fun e he => ?_, ?_⟩, ?_, fun position key hkey => ?_⟩
  · exact (h e.1 (List.fst_mem_of_mem_zipIdx he)).nodup.map fun _ _ heq => (List.cons.inj heq).2
  · -- the numbers of two slots differ, and so do positions that begin with them
    have hnumbers : (sel.slots.zipIdx.map Prod.snd).Nodup := by
      rw [List.zipIdx_map_snd]
      exact List.nodup_range'
    refine (List.pairwise_map.1 hnumbers).imp fun hne position hposition hposition' => hne ?_
    obtain ⟨rest, -, rfl⟩ := List.mem_map.1 hposition
    obtain ⟨rest', -, heq⟩ := List.mem_map.1 hposition'
    exact (List.cons.inj heq).1.symm
  · have hslot : ∀ e ∈ sel.slots.zipIdx, ((behind e.1).map (e.2 :: ·)).map (sel.keyAt? p) =
        (keysBehind p e.1).map some := by
      intro e he
      rw [List.map_map, ← (h e.1 (List.fst_mem_of_mem_zipIdx he)).keys]
      refine List.map_congr_left fun position _ => ?_
      rw [Function.comp_apply, keyAt?_cons, List.mem_zipIdx_iff_getElem?.1 he, Option.bind_some]
    rw [keyed_eq_flatMap_slots p hleaf, List.map_flatMap, List.map_flatMap, List.flatMap_congr hslot,
      ← List.flatMap_map (f := Prod.fst) (g := fun slot => (keysBehind p slot).map some),
      List.zipIdx_map_fst]
  · cases position with
    | nil => cases hkey
    | cons number position =>
      rw [keyAt?_cons] at hkey
      obtain ⟨slot, hslot, hbehind⟩ := Option.bind_eq_some_iff.1 hkey
      refine List.mem_flatMap.2 ⟨(slot, number), List.mem_zipIdx_iff_getElem?.2 hslot, ?_⟩
      exact List.mem_map_of_mem ((h slot (List.mem_of_getElem? hslot)).complete position key hbehind)

/-- The objects of a selection are counted once for each position. -/
theorem exists_positions (hleaf : sel.TypenameIsLeaf) (hnamed : sel.IsNamed p) :
    ∃ positions, Lists (sel.keyAt? p) (sel.keyed p.bareOf) positions := by
  induction sel using slot_induction with
  | step sel ih =>
    have hbehind : ∀ slot ∈ sel.slots, ∃ behind,
        Lists (keyBehind? p · slot) (keysBehind p slot) behind := by
      intro slot hslot
      cases hinner : slot.selection? with
      | none => exact ⟨[], List.nodup_nil, by simp [keysBehind, hinner], by simp [keyBehind?, hinner]⟩
      | some inner =>
        obtain ⟨hname, hnamed'⟩ := hnamed.of_slot hslot hinner
        obtain ⟨positions, hpositions⟩ :=
          ih slot hslot inner hinner (hleaf.of_slot hslot hinner) hnamed'
        exact ⟨_, lists_behind hinner hname hpositions⟩
    choose! behind hbehind using hbehind
    exact ⟨_, lists_of_slots (hleaf sel List.mem_cons_self) hbehind⟩

/-- What is counted more than once comes at two positions, and the other way round. -/
theorem mem_repeated_iff_repeats (hleaf : sel.TypenameIsLeaf) (hnamed : sel.IsNamed p) :
    key ∈ sel.repeated p.bareOf ↔ sel.Repeats p key := by
  obtain ⟨positions, hpositions⟩ := exists_positions hleaf hnamed
  have hcount : (sel.keyed p.bareOf).count key =
      (positions.filter (sel.keyAt? p · = some key)).toFinset.card := by
    rw [List.toFinset_card_of_nodup (hpositions.nodup.filter _), ← List.countP_eq_length_filter,
      ← List.count_map_of_injective _ _ (Option.some_injective _), ← hpositions.keys,
      List.count_eq_countP, List.countP_map]
    refine List.countP_congr fun position _ => ?_
    simp
  -- A list without repetitions has two members if its length is more than one.
  rw [mem_repeated, hcount, Finset.one_lt_card]
  simp only [List.mem_toFinset, List.mem_filter, decide_eq_true_eq]
  constructor
  · rintro ⟨position, ⟨-, hkey⟩, position', ⟨-, hkey'⟩, hne⟩
    exact ⟨position, position', hne, hkey, hkey'⟩
  · rintro ⟨position, position', hne, hkey, hkey'⟩
    exact ⟨position, ⟨hpositions.complete _ _ hkey, hkey⟩, position',
      ⟨hpositions.complete _ _ hkey', hkey'⟩, hne⟩

/-- Each position below has a structure with a name. -/
theorem exists_keyAt? (hnamed : sel.IsNamed p) {position : List Nat} (hne : position ≠ [])
    (hinner : sel.below? position = some inner) :
    ∃ bare, sel.keyAt? p position = some (bare, inner.signature) ∧ '.' ∉ bare.toList := by
  induction position generalizing sel with
  | nil => exact absurd rfl hne
  | cons number position ih =>
    obtain ⟨slot, sub, hslot, hsub, hbelow⟩ := below?_cons_eq_some.1 hinner
    obtain ⟨hname, hnamed'⟩ := hnamed.of_slot (List.mem_of_getElem? hslot) hsub
    rw [keyAt?_cons, hslot, Option.bind_some, keyBehind?, hsub, Option.bind_some]
    by_cases hnil : position = []
    · rw [hnil, below?_nil, Option.some.injEq] at hbelow
      subst hbelow
      rw [if_pos hnil, hname]
      exact ⟨_, rfl, NamingPolicy.dot_not_mem_assignName hname⟩
    · rw [if_neg hnil]
      exact ih hnamed' hnil hbelow

end Selection

/-! ## Shapes at positions -/

namespace ShapeTree

variable {P : Shape → Selection → Prop} {r : ResolvedFragment} {t : ShapeTree} {c : Assembly.Context}
  {s : AssemblyState}

/-- The shape that is reached at a position has the path that its structure leads to. -/
theorem Charted.exists_route (h : t.Charted c s) (hsound : t.Sound P r s) {x y : Shape}
    {sel : Selection} {position : List Nat} {key : NamedSignature} (hx : x ∈ t.shapes)
    (hsignature : s.registry.signature? x.path = some sel.signature)
    (hy : t.follow x position = some y) (hkey : sel.keyAt? c.policy position = some key) :
    y ∈ t.shapes ∧ s.registry.signature? y.path = some key.2 ∧
      ∃ parent, Assembly.Route c s parent key y.path := by
  induction position generalizing x sel with
  | nil => cases hkey
  | cons number position ih =>
    obtain ⟨m, path, z, hm, hpath, hz, hrest⟩ := follow_cons_eq_some.1 hy
    rw [Selection.keyAt?_cons] at hkey
    obtain ⟨slot, hslot, hbehind⟩ := Option.bind_eq_some_iff.1 hkey
    obtain ⟨inner, hinner, hbehind⟩ := Option.bind_eq_some_iff.1 hbehind
    obtain ⟨hzmem, hzsignature⟩ := hsound.follow_eq_some hx hsignature
      (follow_cons_eq_some.2 ⟨m, path, z, hm, hpath, hz, follow_nil z⟩)
      (Selection.below?_cons_eq_some.2 ⟨slot, inner, hslot, hinner, Selection.below?_nil inner⟩)
    -- The structure behind the last number is the one that the chart gives a path; before it, go
    -- on.
    by_cases hnil : position = []
    · rw [hnil, follow_nil, Option.some.injEq] at hrest
      subst hrest
      have hname : m.name = slot.name := by
        have hnames := congrArg (·[number]?) (hsound.map_name_members hx hsignature)
        simpa [hm, hslot] using hnames
      obtain ⟨bare, signature, hbare, hregistered, hroute⟩ :=
        h.leads x hx m (List.mem_of_getElem? hm) path hpath
      rw [← (mem_of_shape? hz).2] at hregistered hroute
      rw [hzsignature, Option.some.injEq] at hregistered
      subst hregistered
      rw [hname, inner.marks_signature.1] at hbare
      rw [if_pos hnil, hbare] at hbehind
      cases hbehind
      exact ⟨hzmem, hzsignature, x.path, hroute⟩
    · rw [if_neg hnil] at hbehind
      exact ih hzmem hzsignature hrest hbehind

end ShapeTree

/-- Without a depth limit the mixed policy leads to the top exactly where a structure is shared. -/
theorem Assembly.Route.of_mixed {c : Assembly.Context} {s : AssemblyState} {parent path : String}
    {key : NamedSignature} (h : Assembly.Route c s parent key path)
    (hmixed : c.policy.placement = .mixed) (hdepth : c.policy.maxDepth = 0) :
    key ∈ c.shared ∧ (key, path) ∈ s.sharedNames ∧ '.' ∉ path.toList ∨
      key ∉ c.shared ∧ path = parent ++ "." ++ key.1 := by
  cases h with
  | nested hkey => exact .inr ⟨hkey, rfl⟩
  | shared hkey hname hdot => exact .inl ⟨hkey, hname, hdot⟩
  | lifted hreason =>
    rcases hreason with hlimit | hflattened
    · exact absurd hdepth hlimit
    · rw [hmixed] at hflattened
      cases hflattened

theorem ShapeTree.Charted.isTop_of_dotless {t : ShapeTree} {c : Assembly.Context} {s : AssemblyState}
    (h : t.Charted c s) {x : Shape} (hx : x ∈ t.shapes) (hdot : '.' ∉ x.path.toList) : x.IsTop := by
  cases hplacement : x.placement with
  | hoisted => exact h.isTop hx hplacement
  | nested =>
    rw [(h.isInside hx hplacement).2.path_eq] at hdot
    exact absurd (by simp) hdot

/-! ## The shape at a position -/

namespace ShapeTree

/-- The shape at a position, under the mixed policy without a depth limit: it stands at the top if its
structure is shared, else under another one by its bare name. -/
structure Reaches (t : ShapeTree) (c : Assembly.Context) (s : AssemblyState) (sel : Selection)
    (position : List Nat) (key : NamedSignature) (x : Shape) : Prop where
  keyAt : sel.keyAt? c.policy position = some key
  bare : '.' ∉ key.1.toList
  follow : t.follow t.root position = some x
  mem : x ∈ t.shapes
  signature : s.registry.signature? x.path = some key.2
  stands : key ∈ c.shared ∧ (key, x.path) ∈ s.sharedNames ∧ '.' ∉ x.path.toList ∨
    key ∉ c.shared ∧ ∃ parent, x.path = parent ++ "." ++ key.1

variable {P : Shape → Selection → Prop} {r : ResolvedFragment} {t : ShapeTree} {c : Assembly.Context}
  {s : AssemblyState} {position position' : List Nat} {key key' : NamedSignature} {x x' : Shape}

theorem Charted.exists_reaches (h : t.Charted c s) (hsound : t.Sound P r s)
    (hnamed : r.selection.IsNamed c.policy) (hmixed : c.policy.placement = .mixed)
    (hdepth : c.policy.maxDepth = 0) {inner : Selection} (hne : position ≠ [])
    (hinner : r.selection.below? position = some inner) :
    ∃ key x, t.Reaches c s r.selection position key x := by
  obtain ⟨bare, hkey, hdot⟩ := Selection.exists_keyAt? hnamed hne hinner
  have hrel := hsound.follow_rel hsound.root_mem hsound.root position
  rw [hinner] at hrel
  generalize hfollow : t.follow t.root position = x? at hrel
  cases hrel with
  | @some x _ _ =>
    obtain ⟨hx, hsignature, parent, hroute⟩ :=
      h.exists_route hsound hsound.root_mem hsound.root hfollow hkey
    refine ⟨_, x, hkey, hdot, hfollow, hx, hsignature, ?_⟩
    exact (hroute.of_mixed hmixed hdepth).imp_right (And.imp_right fun hpath => ⟨parent, hpath⟩)

namespace Reaches

variable {sel : Selection}

theorem isTop (h : t.Reaches c s sel position key x) (hcharted : t.Charted c s)
    (hshared : key ∈ c.shared) : x.IsTop := by
  obtain ⟨-, -, hdotless⟩ := h.stands.resolve_right fun hnested => hnested.1 hshared
  exact hcharted.isTop_of_dotless h.mem hdotless

/-- Shared structures and the shapes at the top belong together. -/
theorem eq_iff (h : t.Reaches c s sel position key x) (h' : t.Reaches c s sel position' key' x')
    (hcharted : t.Charted c s) (hsound : t.Sound P r s) (hshared : key ∈ c.shared)
    (hshared' : key' ∈ c.shared) : x = x' ↔ key = key' := by
  obtain ⟨-, hname, -⟩ := h.stands.resolve_right fun hnested => hnested.1 hshared
  obtain ⟨-, hname', -⟩ := h'.stands.resolve_right fun hnested => hnested.1 hshared'
  constructor <;> intro hsame
  · exact congrArg Prod.fst
      (List.inj_on_of_nodup_map hcharted.names.names hname hname' (congrArg Shape.path hsame))
  · have hentry := List.inj_on_of_nodup_map hcharted.names.keys hname hname' hsame
    exact List.inj_on_of_nodup_map hsound.nodup h.mem h'.mem (congrArg Prod.snd hentry)

theorem dotted (h : t.Reaches c s sel position key x) (honce : key ∉ c.shared) :
    '.' ∈ x.path.toList := by
  obtain ⟨-, parent, hpath⟩ := h.stands.resolve_left fun hhoisted => honce hhoisted.1
  rw [hpath]
  simp

theorem nested (h : t.Reaches c s sel position key x) (hcharted : t.Charted c s)
    (honce : key ∉ c.shared) : x.placement = .nested := by
  cases hplacement : x.placement with
  | nested => rfl
  | hoisted =>
    have htop := hcharted.isTop h.mem hplacement
    exact absurd (h.dotted honce) (htop.path_eq ▸ htop.dotless)

/-- The path of a nested shape and its signature give the structure back. -/
theorem key_eq (h : t.Reaches c s sel position key x) (h' : t.Reaches c s sel position' key' x)
    (honce : key ∉ c.shared) : key' = key := by
  obtain ⟨-, parent, hpath⟩ := h.stands.resolve_left fun hhoisted => honce hhoisted.1
  obtain ⟨-, parent', hpath'⟩ := h'.stands.resolve_left fun hhoisted => hhoisted.2.2 (h.dotted honce)
  have hname := (NamingPolicy.eq_of_append_dot h.bare h'.bare (hpath.symm.trans hpath')).2
  have hsignature := h.signature.symm.trans h'.signature
  rw [Option.some.injEq] at hsignature
  exact (Prod.ext hname hsignature).symm

end Reaches

/-- Only positions below the root lead to a shape with a dot in its path. -/
theorem Charted.exists_reaches_of_follow (h : t.Charted c s) (hsound : t.Sound P r s)
    (hnamed : r.selection.IsNamed c.policy) (hmixed : c.policy.placement = .mixed)
    (hdepth : c.policy.maxDepth = 0) (hfollow : t.follow t.root position = some x)
    (hdotted : '.' ∈ x.path.toList) : ∃ key, t.Reaches c s r.selection position key x := by
  have hne : position ≠ [] := by
    rintro rfl
    rw [follow_nil, Option.some.injEq] at hfollow
    exact absurd hdotted (hfollow ▸ h.root.path_eq ▸ h.root.dotless)
  have hrel := hsound.follow_rel hsound.root_mem hsound.root position
  rw [hfollow] at hrel
  generalize hbelow : r.selection.below? position = below? at hrel
  cases hrel with
  | @some _ inner _ =>
    obtain ⟨key, x', hreaches⟩ := h.exists_reaches hsound hnamed hmixed hdepth hne hbelow
    obtain rfl := Option.some.inj (hfollow.symm.trans hreaches.follow)
    exact ⟨key, hreaches⟩

end ShapeTree

/-- Under the mixed policy without a depth limit, whatever the custom names and whatever is registered
before, the shapes at two positions below the root: of structures that come more than once they are the
same exactly if the structures are, and stand at the top; a structure that comes once has a nested shape
that no other position leads to. -/
theorem ResolvedFragment.OfDocuments.sharing_of_assembleWith {r : ResolvedFragment} (hr : r.OfDocuments)
    (hleaf : r.selection.TypenameIsLeaf) {o : AssemblyOptions} (hmixed : o.policy.placement = .mixed)
    (hdepth : o.policy.maxDepth = 0) {registry : NameRegistry Signature} {t : ShapeTree}
    (h : (r.assembleWith o registry).1 = .ok t) {position position' : List Nat}
    {inner inner' : Selection} (hne : position ≠ []) (hne' : position' ≠ [])
    (hinner : r.selection.below? position = some inner)
    (hinner' : r.selection.below? position' = some inner') :
    ∃ key key' x x', r.selection.keyAt? o.policy position = some key ∧
      r.selection.keyAt? o.policy position' = some key' ∧
      t.follow t.root position = some x ∧ t.follow t.root position' = some x' ∧
      (r.selection.Repeats o.policy key → r.selection.Repeats o.policy key' →
        (x = x' ↔ key = key') ∧ x.placement = .hoisted ∧ x.scope = globalScope) ∧
      (¬ r.selection.Repeats o.policy key → x.placement = .nested ∧
        ∀ other, t.follow t.root other = some x → other = position) := by
  obtain ⟨shared, s, hshared, hrun, hshapes⟩ := exists_run h
  have htyped : ∀ o ∈ r.selection.objects, o.2.1 = o.2.2.typeName := by
    obtain ⟨c, known, f, -, -, -, rfl⟩ := hr
    exact Selection.typeName_of_mem_objects
  obtain ⟨rfl, hnamed⟩ := (Assembly.sharedSignatures_eq_ok hshared htyped).2 hmixed
  have hcharted := charted_of_run
    (Assembly.isCoherent_of_sharedSignatures r.name hshared htyped) hrun hshapes
  have hsound : t.Sound (fun _ _ => True) r s :=
    sound_of_run (fun _ _ _ _ _ _ _ _ => trivial) (fun _ _ => trivial) hrun hshapes
  have hrepeats : ∀ key, key ∈ r.selection.repeated o.policy.bareOf ↔
      r.selection.Repeats o.policy key := fun _ => Selection.mem_repeated_iff_repeats hleaf hnamed
  obtain ⟨key, x, hx⟩ := hcharted.exists_reaches hsound hnamed hmixed hdepth hne hinner
  obtain ⟨key', x', hx'⟩ := hcharted.exists_reaches hsound hnamed hmixed hdepth hne' hinner'
  refine ⟨key, key', x, x', hx.keyAt, hx'.keyAt, hx.follow, hx'.follow, fun hmany hmany' => ?_,
    fun honce => ?_⟩
  · rw [← hrepeats] at hmany hmany'
    have htop := hx.isTop hcharted hmany
    exact ⟨hx.eq_iff hx' hcharted hsound hmany hmany', htop.placement, htop.scope⟩
  · have hunshared := mt (hrepeats key).1 honce
    refine ⟨hx.nested hcharted hunshared, fun other hother => ?_⟩
    -- another position with the same shape would have the same structure
    obtain ⟨key'', hother'⟩ := hcharted.exists_reaches_of_follow hsound hnamed hmixed hdepth hother
      (hx.dotted hunshared)
    by_contra hdifferent
    exact honce ⟨position, other, Ne.symm hdifferent, hx.keyAt, hx.key_eq hother' hunshared ▸ hother'.keyAt⟩

/-- The posts of both users share a shape; the friend, who comes once, has one of its own. -/
theorem ResolvedFragment.sharing_card : card.selection.TypenameIsLeaf ∧
    ∃ t, (card.assembleWith (.ofPolicy { placement := .mixed }) .empty).1 = .ok t ∧
      (∃ x, t.follow t.root [0] = some x ∧ t.follow t.root [1, 0] = some x ∧
        x.placement = .hoisted) ∧
      ∃ x, t.follow t.root [1] = some x ∧ x.placement = .nested := by
  have hleaf : card.selection.TypenameIsLeaf := by decide +kernel
  obtain ⟨t, ht⟩ := exists_of_isOk (by decide +kernel :
    (card.assembleWith (.ofPolicy { placement := .mixed }) .empty).1.isOk = true)
  have hfirst : [0] ≠ ([] : List Nat) := by decide
  have hfriend : [1] ≠ ([] : List Nat) := by decide
  have hsecond : [1, 0] ≠ ([] : List Nat) := by decide
  obtain ⟨posts, posts', x, x', hposts, hposts', hx, hx', hmany, -⟩ :=
    card_ofDocuments.sharing_of_assembleWith hleaf rfl rfl ht hfirst hsecond rfl rfl
  obtain ⟨friend, -, y, -, hfriend, -, hy, -, -, honce⟩ :=
    card_ofDocuments.sharing_of_assembleWith hleaf rfl rfl ht hfriend hfriend rfl rfl
  have hsame : posts = posts' := by
    have hkeys : card.selection.keyAt? { placement := .mixed } [0] =
        card.selection.keyAt? { placement := .mixed } [1, 0] := by decide +kernel
    exact Option.some.inj (hposts.symm.trans (hkeys.trans hposts'))
  have hrepeats : card.selection.Repeats { placement := .mixed } posts :=
    ⟨[0], [1, 0], by decide, hposts, hsame ▸ hposts'⟩
  obtain ⟨hiff, hplacement, -⟩ := hmany hrepeats (hsame ▸ hrepeats)
  refine ⟨hleaf, t, ht, ⟨x, hx, hiff.2 hsame ▸ hx', hplacement⟩, y, hy, (honce fun hfriends => ?_).1⟩
  have hnamed : card.selection.IsNamed { placement := .mixed } := by
    unfold Selection.IsNamed
    decide +kernel
  have hcounted : ∀ key ∈ card.selection.keyAt? { placement := .mixed } [1],
      key ∉ card.selection.repeated (NamingPolicy.bareOf { placement := .mixed }) := by
    decide +kernel
  exact hcounted friend hfriend ((Selection.mem_repeated_iff_repeats hleaf hnamed).2 hfriends)

end FragmentShapes
