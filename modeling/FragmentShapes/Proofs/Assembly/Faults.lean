import FragmentShapes.Proofs.Assembly.Invariant

/-!
# What assembly can fail by

A fragment has no tree because of a name, or because a variant has no type that can be referred to. What
documents resolve to has types for all variants, so that only names are left
(`ResolvedFragment.OfDocuments.exists_naming_of_assembleWith`).
-/

namespace FragmentShapes

namespace Assembly

variable {α β : Type} {c : Context}

/-- The step succeeds or fails by a name, whatever was there before. -/
def FailsByNaming (step : Assembly α) : Prop :=
  ∀ s, Ensures step s (fun _ _ => True) fun e => ∃ fault, e = .naming fault

theorem FailsByNaming.pure (value : α) : FailsByNaming (pure value : Assembly α) := fun _ => trivial

theorem FailsByNaming.bind {step : Assembly β} {next : β → Assembly α} (h : FailsByNaming step)
    (hnext : ∀ value, FailsByNaming (next value)) : FailsByNaming (step >>= next) :=
  fun s => (h s).bind fun value s' _ => hnext value s'

theorem FailsByNaming.state : FailsByNaming state := fun _ => trivial

theorem FailsByNaming.keepSharedName (key : NamedSignature) (name : String) :
    FailsByNaming (keepSharedName key name) := fun _ => trivial

theorem FailsByNaming.ofNaming (result : Except NamingError α) : FailsByNaming (ofNaming result) :=
  fun _ => ensures_ofNaming.2 ⟨fun _ _ => trivial, fun e _ => ⟨e, rfl⟩⟩

theorem FailsByNaming.updateRegistry
    (f : NameRegistry Signature → Except NamingError (NameRegistry Signature)) :
    FailsByNaming (updateRegistry f) :=
  fun _ => ensures_updateRegistry.2 ⟨fun _ _ => trivial, fun e _ => ⟨e, rfl⟩⟩

theorem FailsByNaming.emitShape (signature : Signature) (shape : Shape) :
    FailsByNaming (emitShape signature shape) :=
  (updateRegistry _).bind fun _ _ => trivial

theorem failsByNaming_sharedName (c : Context) (parent : Place) (stem bare : String)
    (selection : Selection) : FailsByNaming (sharedName c parent stem bare selection) := by
  unfold sharedName
  refine FailsByNaming.state.bind fun s => ?_
  split
  · exact .pure _
  · refine (FailsByNaming.ofNaming _).bind fun first => ?_
    dsimp only
    split_ifs
    · exact (FailsByNaming.pure _).bind fun _ => (FailsByNaming.keepSharedName _ _).bind fun _ => .pure _
    · refine (FailsByNaming.ofNaming _).bind fun second => ?_
      exact (FailsByNaming.keepSharedName _ _).bind fun _ => .pure _

theorem failsByNaming_nameShape (c : Context) (parent : Place) (stem bare : String)
    (selection : Selection) (placement : Placement) (shared : Bool) :
    FailsByNaming (nameShape c parent stem bare selection placement shared) := by
  unfold nameShape
  cases placement with
  | nested => exact .pure _
  | hoisted =>
    dsimp only
    split_ifs
    · exact (failsByNaming_sharedName c parent stem bare selection).bind fun _ => .pure _
    · exact (FailsByNaming.ofNaming _).bind fun _ => .pure _

theorem failsByNaming_locate (c : Context) (parent : Place) (stem : String) (selection : Selection) :
    FailsByNaming (locate c parent stem selection) := by
  unfold locate
  refine (FailsByNaming.ofNaming _).bind fun bare => ?_
  exact (failsByNaming_nameShape c parent stem bare selection _ _).bind fun _ => .pure _

theorem failsByNaming_childShape {selection : Selection} {build : Place → Assembly (List Member)}
    (hbuild : ∀ place, FailsByNaming (build place)) (parent : Place) (stem doc : String) :
    FailsByNaming (childShape c parent stem doc selection build) := by
  unfold childShape
  refine (failsByNaming_locate c parent stem selection).bind fun l => ?_
  refine FailsByNaming.bind ?_ fun _ => (FailsByNaming.updateRegistry _).bind fun _ => .pure _
  unfold provideShape
  refine FailsByNaming.state.bind fun s => ?_
  split_ifs
  · exact .updateRegistry _
  · exact (hbuild l.place).bind fun members => .emitShape _ _

theorem failsByNaming_slotMember {slot : Slot} (htype : slot.type.WellNamed)
    (hinner : ∀ inner, slot.selection? = some inner → ∀ place, FailsByNaming (members c inner place))
    (place : Place) : FailsByNaming (slotMember c place slot) := by
  intro s
  refine .slotMember (fun _ => trivial) (fun inner hsome doc => ?_)
    fun inner h => absurd h (ne_variant_of_wellNamed htype inner)
  exact failsByNaming_childShape (hinner inner hsome) place _ doc s

theorem failsByNaming_slotMembers {slots : List Slot} (place : Place)
    (hslots : ∀ slot ∈ slots, FailsByNaming (slotMember c place slot)) :
    FailsByNaming (slotMembers c place slots) := by
  induction slots with
  | nil => exact .pure _
  | cons slot slots ih =>
    obtain ⟨hslot, hslots⟩ := List.forall_mem_cons.1 hslots
    exact hslot.bind fun member => (ih hslots).bind fun more => .pure _

theorem failsByNaming_members (c : Context) (sel : Selection) (h : sel.WellNamed) (place : Place) :
    FailsByNaming (members c sel place) := by
  induction sel using Selection.slot_induction generalizing place with
  | step sel ih =>
    rw [members_eq]
    refine failsByNaming_slotMembers place fun slot hslot => ?_
    refine failsByNaming_slotMember (h.type slot hslot) (fun inner hinner place => ?_) place
    exact ih slot hslot inner hinner (h.of_slot slot hslot inner hinner) place

theorem failsByNaming_assembleRoot (c : Context) {r : ResolvedFragment} (h : r.selection.WellNamed) :
    FailsByNaming (assembleRoot c r) := by
  unfold assembleRoot
  refine (FailsByNaming.ofNaming _).bind fun name => ?_
  refine (failsByNaming_members c r.selection h _).bind fun members => ?_
  exact (FailsByNaming.emitShape _ _).bind fun _ => .pure _

end Assembly

/-- A fragment of documents fails by a name if it fails at all, however it is named and placed and
whatever is registered before. -/
theorem ResolvedFragment.OfDocuments.exists_naming_of_assembleWith {r : ResolvedFragment}
    (hr : r.OfDocuments) {o : AssemblyOptions} {registry : NameRegistry Signature}
    {e : AssemblyError} (h : (r.assembleWith o registry).1 = .error e) :
    ∃ fault, e = .naming fault := by
  rw [assembleWith] at h
  split at h
  · next fault _ =>
    cases h
    exact ⟨fault, rfl⟩
  · next shared _ =>
    split at h
    · next e' s heq =>
      cases h
      exact (Assembly.failsByNaming_assembleRoot _ hr.wellNamed.2 _).of_eq_error heq
    · cases h

end FragmentShapes
