import FragmentShapes.Proofs.Assembly.Locality
import FragmentShapes.Proofs.Selection.Plain

/-!
# Shapes without style

How the generated code is to look, with or without comments and for which representations of scalars,
shows in the targets of members and in the texts beside shapes, and nowhere else. `Assembly.SamePlain`
says of two steps that they come to the same apart from these; there is one rule for each primitive and
each function. So the trees of two contexts that name and place shapes in the same way are the same trees
(`ResolvedFragment.plain_assembleWith`).
-/

namespace FragmentShapes

/-- The member without its target and its description. -/
def Member.plain (m : Member) : Member := { m with target := default, description := none }

/-- The shape without the targets of its members, and without comments. -/
def Shape.plain (s : Shape) : Shape := { s with members := s.members.map Member.plain, doc := none }

/-- The tree without what is about the look of the generated code. -/
def ShapeTree.plain (t : ShapeTree) : ShapeTree where
  fragment := t.fragment
  onType := t.onType
  target := ""
  root := t.root.plain
  shapes := t.shapes.map Shape.plain

/-- The states are the same apart from style. -/
structure AssemblyState.SamePlain (s t : AssemblyState) : Prop where
  registry : s.registry = t.registry
  names : s.sharedNames = t.sharedNames
  shapes : s.shapes.map Shape.plain = t.shapes.map Shape.plain

namespace Assembly

variable {α β γ δ : Type} {view : α → γ} {c c' : Context} {s t : AssemblyState}

/-- From states that are the same apart from style, the steps come to values that `view` does not tell
apart, and to such states. -/
def SamePlain (view : α → γ) (step step' : Assembly α) : Prop :=
  ∀ s t : AssemblyState, s.SamePlain t →
    (step s).1.map view = (step' t).1.map view ∧ (step s).2.SamePlain (step' t).2

/-! ## Primitives -/

theorem SamePlain.pure {value value' : α} (h : view value = view value') :
    SamePlain view (pure value) (pure value') := fun _ _ hst =>
  ⟨congrArg Except.ok h, hst⟩

theorem SamePlain.fail (e : AssemblyError) : SamePlain view (fail e) (fail e) := fun _ _ hst => ⟨rfl, hst⟩

theorem SamePlain.bind {between : β → δ} {step step' : Assembly β} {next next' : β → Assembly α}
    (h : SamePlain between step step')
    (hnext : ∀ value value', between value = between value' →
      SamePlain view (next value) (next' value')) :
    SamePlain view (step >>= next) (step' >>= next') := by
  intro s t hst
  obtain ⟨hvalue, hstate⟩ := h s t hst
  rcases hs : step s with ⟨result, s'⟩
  rcases ht : step' t with ⟨result', t'⟩
  rw [hs, ht] at hvalue hstate
  cases result with
  | error e =>
    cases result' with
    | error e' =>
      rw [bind_of_error hs, bind_of_error ht]
      cases hvalue
      exact ⟨rfl, hstate⟩
    | ok value' => cases hvalue
  | ok value =>
    cases result' with
    | error e' => cases hvalue
    | ok value' =>
      rw [bind_of_ok hs, bind_of_ok ht]
      exact hnext value value' (Except.ok.inj hvalue) s' t' hstate

/-- The same for steps whose values are the same. -/
theorem SamePlain.bind_eq {step step' : Assembly β} {next next' : β → Assembly α}
    (h : SamePlain id step step') (hnext : ∀ value, SamePlain view (next value) (next' value)) :
    SamePlain view (step >>= next) (step' >>= next') :=
  h.bind fun value value' heq => by
    obtain rfl : value = value' := heq
    exact hnext value

theorem SamePlain.state_bind {next next' : AssemblyState → Assembly α}
    (h : ∀ s t : AssemblyState, s.SamePlain t → SamePlain view (next s) (next' t)) :
    SamePlain view (state >>= next) (state >>= next') := fun s t hst => h s t hst s t hst

theorem SamePlain.ofNaming (result : Except NamingError α) :
    SamePlain view (ofNaming result) (ofNaming result) := by
  cases result with
  | ok value => exact .pure rfl
  | error e => exact .fail _

theorem SamePlain.updateRegistry
    (f : NameRegistry Signature → Except NamingError (NameRegistry Signature)) :
    SamePlain id (updateRegistry f) (updateRegistry f) := by
  intro s t hst
  unfold Assembly.updateRegistry
  rw [hst.registry]
  cases f t.registry with
  | error e => exact ⟨rfl, hst⟩
  | ok registry => exact ⟨rfl, rfl, hst.names, hst.shapes⟩

theorem SamePlain.emit {shape shape' : Shape} (h : shape.plain = shape'.plain) :
    SamePlain id (emit shape) (emit shape') := by
  intro s t hst
  have hshapes : (s.shapes ++ [shape]).map Shape.plain = (t.shapes ++ [shape']).map Shape.plain := by
    rw [List.map_append, List.map_append, hst.shapes, List.map_singleton, List.map_singleton, h]
  exact ⟨rfl, hst.registry, hst.names, hshapes⟩

theorem SamePlain.keepSharedName (key : NamedSignature) (name : String) :
    SamePlain id (keepSharedName key name) (keepSharedName key name) := fun _ _ hst =>
  ⟨rfl, hst.registry, congrArg (· ++ [(key, name)]) hst.names, hst.shapes⟩

theorem SamePlain.emitShape (signature : Signature) {shape shape' : Shape}
    (h : shape.plain = shape'.plain) :
    SamePlain id (emitShape signature shape) (emitShape signature shape') := by
  have hname : shape.plain.name = shape'.plain.name := by rw [h]
  have hscope : shape.plain.scope = shape'.plain.scope := by rw [h]
  rw [Assembly.emitShape, Assembly.emitShape, show shape.name = shape'.name from hname,
    show shape.scope = shape'.scope from hscope]
  exact (SamePlain.updateRegistry _).bind_eq fun _ => .emit h

/-! ## Names -/

/-- The contexts name and place shapes in the same way. -/
structure Context.SameNaming (c c' : Context) : Prop where
  policy : c'.policy = c.policy
  fragment : c'.fragment = c.fragment
  shared : c'.shared = c.shared

theorem isTaken_of_samePlain (h : s.SamePlain t) (signature : Signature) :
    isTaken s signature = isTaken t signature := by
  funext name
  rw [isTaken, isTaken, h.names, h.registry]

theorem samePlain_sharedName (hc : c.SameNaming c') (parent : Place) (stem bare : String)
    (selection : Selection) :
    SamePlain id (sharedName c parent stem bare selection)
      (sharedName c' parent stem bare selection.plain) := by
  unfold sharedName
  simp only [hc.policy, hc.fragment, Selection.signature_plain, Selection.typeName_plain]
  refine .state_bind fun s t hst => ?_
  have hfree (first : String) : firstFreeNumbered s selection.signature first =
      firstFreeNumbered t selection.signature first := by
    rw [firstFreeNumbered, firstFreeNumbered, isTaken_of_samePlain hst, hst.names, hst.registry]
  simp only [hst.names, isTaken_of_samePlain hst, hfree]
  split
  · exact .pure rfl
  · refine (SamePlain.ofNaming _).bind_eq fun first => ?_
    split_ifs
    · exact (SamePlain.pure rfl).bind_eq fun _ => (SamePlain.keepSharedName _ _).bind_eq fun _ => .pure rfl
    · refine (SamePlain.ofNaming _).bind_eq fun second => ?_
      exact (SamePlain.pure rfl).bind_eq fun _ => (SamePlain.keepSharedName _ _).bind_eq fun _ => .pure rfl

theorem samePlain_nameShape (hc : c.SameNaming c') (parent : Place) (stem bare : String)
    (selection : Selection) (placement : Placement) (shared : Bool) :
    SamePlain id (nameShape c parent stem bare selection placement shared)
      (nameShape c' parent stem bare selection.plain placement shared) := by
  unfold nameShape
  cases placement with
  | nested => exact .pure rfl
  | hoisted =>
    dsimp only
    rw [hc.policy, Selection.typeName_plain]
    split_ifs
    · exact (samePlain_sharedName hc parent stem bare selection).bind_eq fun _ => .pure rfl
    · exact (SamePlain.ofNaming _).bind_eq fun _ => .pure rfl

theorem samePlain_locate (hc : c.SameNaming c') (parent : Place) (stem : String) (selection : Selection) :
    SamePlain id (locate c parent stem selection) (locate c' parent stem selection.plain) := by
  unfold locate
  simp only [hc.policy, hc.shared, Selection.signature_plain, Selection.typeName_plain]
  refine (SamePlain.ofNaming _).bind_eq fun bare => ?_
  exact (samePlain_nameShape hc parent stem bare selection _ _).bind_eq fun _ => .pure rfl

/-! ## Shapes -/

/-- The steps come to the same members apart from style, wherever they build. -/
def BuildSamePlain (build build' : Place → Assembly (List Member)) : Prop :=
  ∀ place, SamePlain (List.map Member.plain) (build place) (build' place)

variable {build build' : Place → Assembly (List Member)}

theorem samePlain_provideShape (hbuild : BuildSamePlain build build') (parent : Place) (doc : String)
    (selection : Selection) (l : Location) :
    SamePlain id (provideShape c parent doc selection build l)
      (provideShape c' parent doc selection.plain build' l) := by
  unfold provideShape
  rw [Selection.signature_plain]
  refine .state_bind fun s t hst => ?_
  have hpath (shapes : List Shape) : shapes.any (·.path = l.path) =
      (shapes.map Shape.plain).any (·.path = l.path) := by
    rw [List.any_map]
    rfl
  rw [hpath s.shapes, hpath t.shapes, hst.shapes]
  split_ifs
  · exact .updateRegistry _
  · refine (hbuild l.place).bind fun members members' hmembers => .emitShape _ ?_
    rw [Shape.plain, Shape.plain, shapeAt, shapeAt]
    simp only [hmembers, Selection.isDiscriminated_plain, Selection.typeName_plain]

theorem samePlain_childShape (hc : c.SameNaming c') (hbuild : BuildSamePlain build build')
    (parent : Place) (stem doc : String) (selection : Selection) :
    SamePlain id (childShape c parent stem doc selection build)
      (childShape c' parent stem doc selection.plain build') := by
  unfold childShape
  refine (samePlain_locate hc parent stem selection).bind_eq fun l => ?_
  exact (samePlain_provideShape hbuild parent doc selection l).bind_eq fun _ =>
    (SamePlain.updateRegistry _).bind_eq fun _ => .pure rfl

/-! ## Members -/

theorem samePlain_slotMember (hc : c.SameNaming c') (place : Place) {slot : Slot}
    (hinner : ∀ inner, slot.selection? = some inner →
      BuildSamePlain (members c inner) (members c' inner.plain)) :
    SamePlain Member.plain (slotMember c place slot) (slotMember c' place slot.plain) := by
  cases slot with
  | discriminant => exact .pure rfl
  | field info selection? =>
    cases selection? with
    | none => exact .pure rfl
    | some selection =>
      rw [Slot.plain, Option.map_some, slotMember, slotMember, Selection.typeName_plain]
      exact (samePlain_childShape hc (hinner selection rfl) _ _ _ selection).bind_eq fun _ => .pure rfl
  | variant typeName selection =>
    rw [Slot.plain, slotMember, slotMember]
    refine (samePlain_childShape hc (hinner selection rfl) _ _ _ selection).bind_eq fun path => ?_
    rw [variantMember, variantMember]
    split
    · exact .pure rfl
    · exact .fail _

theorem samePlain_slotMembers {place : Place} {slots : List Slot}
    (h : ∀ slot ∈ slots,
      SamePlain Member.plain (slotMember c place slot) (slotMember c' place slot.plain)) :
    SamePlain (List.map Member.plain) (slotMembers c place slots)
      (slotMembers c' place (slots.map Slot.plain)) := by
  induction slots with
  | nil => exact .pure rfl
  | cons slot slots ih =>
    obtain ⟨hslot, hslots⟩ := List.forall_mem_cons.1 h
    refine hslot.bind fun member member' hmember => (ih hslots).bind fun more more' hmore => .pure ?_
    rw [List.map_cons, List.map_cons, hmember, hmore]

theorem buildSamePlain_members (hc : c.SameNaming c') (sel : Selection) :
    BuildSamePlain (members c sel) (members c' sel.plain) := by
  induction sel using Selection.slot_induction with
  | step sel ih =>
    intro place
    rw [members_eq, members_eq, Selection.slots_plain]
    exact samePlain_slotMembers fun slot hslot =>
      samePlain_slotMember hc place fun inner hinner => ih slot hslot inner hinner

theorem samePlain_assembleRoot (hc : c.SameNaming c') (r : ResolvedFragment) :
    SamePlain Shape.plain (assembleRoot c r) (assembleRoot c' r.plain) := by
  unfold assembleRoot
  refine (SamePlain.ofNaming _).bind_eq fun name => ?_
  refine (buildSamePlain_members hc r.selection _).bind fun members members' hmembers => ?_
  have hroot : (rootShape c r name members).plain = (rootShape c' r.plain name members').plain := by
    rw [Shape.plain, Shape.plain, rootShape, rootShape]
    simp only [hmembers, ResolvedFragment.plain, Selection.isDiscriminated_plain]
  rw [ResolvedFragment.plain, Selection.signature_plain]
  exact (SamePlain.emitShape _ hroot).bind_eq fun _ => .pure hroot

theorem sharedSignatures_plain (p : NamingPolicy) (sel : Selection) :
    sharedSignatures p sel.plain = sharedSignatures p sel := by
  have hnamed : namedSignatures p sel.plain = namedSignatures p sel := by
    rw [namedSignatures, namedSignatures, Selection.objects_plain, List.mapM_map]
    simp only [Function.comp_def, Selection.signature_plain]
  rw [sharedSignatures, sharedSignatures, hnamed]

end Assembly

/-- Under options that name and place shapes in the same way, a fragment comes to the same tree apart from
style, with or without the descriptions of its fields, and leaves the same registry. -/
theorem ResolvedFragment.plain_assembleWith (r : ResolvedFragment) {o o' : AssemblyOptions}
    (h : o'.policy = o.policy) (registry : NameRegistry Signature) :
    (r.assembleWith o registry).1.map ShapeTree.plain =
        (r.plain.assembleWith o' registry).1.map ShapeTree.plain ∧
      (r.assembleWith o registry).2 = (r.plain.assembleWith o' registry).2 := by
  have hshared : Assembly.sharedSignatures o'.policy r.plain.selection =
      Assembly.sharedSignatures o.policy r.selection := by
    rw [h]
    exact Assembly.sharedSignatures_plain o.policy r.selection
  rw [assembleWith, assembleWith, hshared]
  split
  · exact ⟨rfl, rfl⟩
  · next shared _ =>
    have hcontext : (o.context r.name shared).SameNaming (o'.context r.plain.name shared) :=
      ⟨h, rfl, rfl⟩
    -- From here on only the results of the two runs are compared, not how they came about.
    obtain ⟨hroot, hstate⟩ :=
      Assembly.samePlain_assembleRoot hcontext r { registry } { registry } ⟨rfl, rfl, rfl⟩
    generalize Assembly.assembleRoot (o.context r.name shared) r { registry } = first at hroot hstate
    generalize Assembly.assembleRoot (o'.context r.plain.name shared) r.plain { registry } = second
      at hroot hstate
    obtain ⟨result, s⟩ := first
    obtain ⟨result', t⟩ := second
    cases result with
    | error e =>
      cases result' with
      | error e' => exact ⟨by cases hroot; rfl, hstate.registry⟩
      | ok root' => cases hroot
    | ok root =>
      cases result' with
      | error e' => cases hroot
      | ok root' =>
        have hsame : root.plain = root'.plain := Except.ok.inj hroot
        refine ⟨congrArg Except.ok ?_, hstate.registry⟩
        rw [ShapeTree.plain, ShapeTree.plain, hstate.shapes, hsame]
        rfl

end FragmentShapes
