import FragmentShapes.Proofs.Naming.Registry
import FragmentShapes.Proofs.Shape.Unfolding
import FragmentShapes.Shape.Assembly

/-!
# What steps of assembly do

`Assembly.Ensures step s post fault`: from the state `s` the step ends as `post` says or fails as `fault`
says. There is one rule for each primitive and one for each function of the model, so that a property of
whole runs is shown on the slots of one selection (`Ensures.slotMember`, `members_eq`).
-/

namespace FragmentShapes.Assembly

variable {α β : Type} {s : AssemblyState} {fault : AssemblyError → Prop}

/-- From `s` the step ends as `post` says, or fails as `fault` says. -/
def Ensures (step : Assembly α) (s : AssemblyState) (post : α → AssemblyState → Prop)
    (fault : AssemblyError → Prop) : Prop :=
  match step s with
  | (.ok value, s') => post value s'
  | (.error e, _) => fault e

theorem Ensures.mono {step : Assembly α} {post post' : α → AssemblyState → Prop}
    {fault' : AssemblyError → Prop} (h : Ensures step s post fault)
    (hpost : ∀ value s', post value s' → post' value s') (hfault : ∀ e, fault e → fault' e) :
    Ensures step s post' fault' := by
  unfold Ensures at h ⊢
  split at h
  · next value s' heq => exact hpost value s' h
  · next e s' heq => exact hfault e h

theorem Ensures.and {step : Assembly α} {post post' : α → AssemblyState → Prop}
    (h : Ensures step s post fault) (h' : Ensures step s post' fault) :
    Ensures step s (fun value s' => post value s' ∧ post' value s') fault := by
  unfold Ensures at h h' ⊢
  generalize step s = outcome at h h' ⊢
  obtain ⟨_ | _, _⟩ := outcome
  · exact h
  · exact ⟨h, h'⟩

theorem Ensures.of_eq_ok {step : Assembly α} {post : α → AssemblyState → Prop} {value : α}
    {s' : AssemblyState} (h : Ensures step s post fault) (heq : step s = (.ok value, s')) :
    post value s' := by
  rwa [Ensures, heq] at h

theorem Ensures.of_eq_error {step : Assembly α} {post : α → AssemblyState → Prop} {e : AssemblyError}
    {s' : AssemblyState} (h : Ensures step s post fault) (heq : step s = (.error e, s')) :
    fault e := by
  rwa [Ensures, heq] at h

/-! ## Primitives -/

section Primitives

variable {post : α → AssemblyState → Prop}

@[simp] theorem ensures_pure {value : α} : Ensures (pure value) s post fault ↔ post value s := Iff.rfl

@[simp] theorem ensures_bind {step : Assembly β} {next : β → Assembly α} :
    Ensures (step >>= next) s post fault ↔
      Ensures step s (fun value s' => Ensures (next value) s' post fault) fault := by
  have hbind : (step >>= next) s = match step s with
    | (.ok value, s') => next value s'
    | (.error e, s') => (.error e, s') := rfl
  rw [Ensures, Ensures, hbind]
  rcases step s with ⟨_ | _, s'⟩ <;> exact Iff.rfl

theorem Ensures.bind {step : Assembly β} {next : β → Assembly α} {between : β → AssemblyState → Prop}
    (h : Ensures step s between fault)
    (hnext : ∀ value s', between value s' → Ensures (next value) s' post fault) :
    Ensures (step >>= next) s post fault :=
  ensures_bind.2 (h.mono hnext fun _ => id)

@[simp] theorem ensures_fail {e : AssemblyError} :
    Ensures (fail e : Assembly α) s post fault ↔ fault e := Iff.rfl

theorem ensures_ofNaming {result : Except NamingError α} :
    Ensures (ofNaming result) s post fault ↔
      (∀ value, result = .ok value → post value s) ∧
        ∀ e, result = .error e → fault (.naming e) := by
  cases result with
  | ok value => simp [ofNaming]
  | error e => simp [ofNaming]

@[simp] theorem ensures_state {post : AssemblyState → AssemblyState → Prop} :
    Ensures state s post fault ↔ post s s := Iff.rfl

@[simp] theorem ensures_emit {shape : Shape} {post : Unit → AssemblyState → Prop} :
    Ensures (emit shape) s post fault ↔ post () { s with shapes := s.shapes ++ [shape] } := Iff.rfl

theorem ensures_updateRegistry {f : NameRegistry Signature → Except NamingError (NameRegistry Signature)}
    {post : Unit → AssemblyState → Prop} :
    Ensures (updateRegistry f) s post fault ↔
      (∀ registry, f s.registry = .ok registry → post () { s with registry }) ∧
        ∀ e, f s.registry = .error e → fault (.naming e) := by
  rw [Ensures, updateRegistry]
  cases f s.registry with
  | ok registry => simp
  | error e => simp

/-- Registering adds one signature, or fails on another one under the same path. -/
theorem ensures_register {name scope : String} {signature : Signature}
    {post : Unit → AssemblyState → Prop}
    (hok : ∀ s' : AssemblyState, s'.shapes = s.shapes →
      s'.registry.signature? (qualify scope name) = some signature →
      (∀ path τ, s.registry.signature? path = some τ → s'.registry.signature? path = some τ) →
      (∀ path τ, s'.registry.signature? path = some τ →
        s.registry.signature? path = some τ ∨ path = qualify scope name ∧ τ = signature) →
      post () s')
    (herror : ∀ τ, s.registry.signature? (qualify scope name) = some τ → τ ≠ signature →
      fault (.naming (.collision name scope))) :
    Ensures (updateRegistry (·.register name scope signature)) s post fault := by
  refine ensures_updateRegistry.2 ⟨fun registry h => ?_, fun e h => ?_⟩
  · obtain ⟨hsame, hkeeps, honly⟩ := NameRegistry.register_eq_ok h
    exact hok _ rfl hsame hkeeps honly
  · obtain ⟨rfl, τ, hτ, hne⟩ := NameRegistry.register_eq_error h
    exact herror τ hτ hne

theorem ensures_relate {parent child : String} {post : Unit → AssemblyState → Prop}
    (hok : ∀ s' : AssemblyState, s'.shapes = s.shapes →
      (∀ path, s'.registry.signature? path = s.registry.signature? path) → post () s')
    (herror : parent = "" ∨ child = "" → ∀ e, fault (.naming e)) :
    Ensures (updateRegistry (·.relate parent child)) s post fault :=
  ensures_updateRegistry.2 ⟨fun _ h => hok _ rfl (NameRegistry.relate_eq_ok h),
    fun e h => herror (NameRegistry.relate_eq_error h) e⟩

end Primitives

/-! ## Steps that find a name -/

/-- The states differ in the names of shared structures only. -/
def SameOutput (s s' : AssemblyState) : Prop := s'.shapes = s.shapes ∧ s'.registry = s.registry

theorem SameOutput.exists_eq {s' : AssemblyState} (h : SameOutput s s') :
    ∃ sharedNames, s' = { s with sharedNames } := by
  obtain ⟨registry, shapes, sharedNames⟩ := s'
  obtain ⟨rfl, rfl⟩ := h
  exact ⟨sharedNames, rfl⟩

theorem ensures_sharedName (c : Context) (parent : Place) (stem bare : String) (selection : Selection)
    (s : AssemblyState) :
    Ensures (sharedName c parent stem bare selection) s (fun _ s' => SameOutput s s')
      fun _ => True := by
  unfold sharedName
  rw [ensures_bind, ensures_state]
  split
  · exact ⟨rfl, rfl⟩
  · rw [ensures_bind, ensures_ofNaming]
    refine ⟨fun first _ => ?_, fun _ _ => trivial⟩
    dsimp only
    split_ifs
    · exact ⟨rfl, rfl⟩
    · rw [ensures_bind, ensures_ofNaming]
      exact ⟨fun second _ => ⟨rfl, rfl⟩, fun _ _ => trivial⟩

theorem ensures_nameShape (c : Context) (parent : Place) (stem bare : String) (selection : Selection)
    (placement : Placement) (shared : Bool) (s : AssemblyState) :
    Ensures (nameShape c parent stem bare selection placement shared) s (fun _ s' => SameOutput s s')
      fun _ => True := by
  unfold nameShape
  cases placement with
  | nested => exact ⟨rfl, rfl⟩
  | hoisted =>
    dsimp only
    split_ifs
    · rw [ensures_bind]
      exact ensures_sharedName c parent stem bare selection s
    · rw [ensures_bind, ensures_ofNaming]
      exact ⟨fun _ _ => ⟨rfl, rfl⟩, fun _ _ => trivial⟩

/-- Finding a location leaves shapes and registry as they are. -/
theorem ensures_locate (c : Context) (parent : Place) (stem : String) (selection : Selection)
    (s : AssemblyState) :
    Ensures (locate c parent stem selection) s (fun _ s' => SameOutput s s') fun _ => True := by
  unfold locate
  rw [ensures_bind, ensures_ofNaming]
  refine ⟨fun bare _ => ?_, fun _ _ => trivial⟩
  rw [ensures_bind]
  exact ensures_nameShape c parent stem bare selection _ _ s

/-! ## Members by slots -/

/-- The member of a slot. -/
def slotMember (c : Context) (place : Place) : Slot → Assembly Member
  | .discriminant => return discriminant c
  | .field info none => return fieldMember c info none
  | .field info (some selection) => do
    let shape ← childShape c place info.name (fieldDoc info.name selection.typeName) selection
      (members c selection)
    return fieldMember c info (some shape)
  | .variant typeName selection => do
    let shape ← childShape c place (NamingPolicy.variantMember typeName) (variantDoc typeName)
      selection (members c selection)
    variantMember c typeName shape

/-- The member that a slot comes to if the selection inside has the shape. -/
def memberOf (c : Context) (slot : Slot) (shape : Option String) : Member :=
  match slot with
  | .discriminant => discriminant c
  | .field info _ => fieldMember c info shape
  | .variant typeName _ =>
    { name := NamingPolicy.variantMember typeName, type := .named typeName true
      target := c.scalars.ofTypeRef shape (.named typeName true), shape, role := .variant typeName }

theorem name_memberOf (c : Context) (slot : Slot) (shape : Option String) :
    (memberOf c slot shape).name = slot.name := by
  cases slot <;> rfl

theorem shape_memberOf_none (c : Context) (slot : Slot) : (memberOf c slot none).shape = none := by
  cases slot <;> rfl

theorem shape_memberOf_some (c : Context) {slot : Slot} {inner : Selection}
    (h : slot.selection? = some inner) (path : String) :
    (memberOf c slot (some path)).shape = some path := by
  cases slot with
  | discriminant => cases h
  | field | variant => rfl

theorem renders_memberOf (c : Context) {slot : Slot} {shape : Option String}
    (h : (memberOf c slot shape).shape.isSome = slot.selection?.isSome) :
    (memberOf c slot shape).Renders slot where
  name := name_memberOf c slot shape
  type := by cases slot <;> rfl
  deprecation := by cases slot <;> rfl
  role := by cases slot <;> rfl
  shape := h

theorem ne_variant_of_wellNamed {slot : Slot} (h : slot.type.WellNamed) (inner : Selection) :
    slot ≠ .variant "" inner := by
  rintro rfl
  exact Text.ne_empty_of_isAsciiName h rfl

theorem variantMember_eq_ok {c : Context} {typeName shape : String} (h : typeName ≠ "")
    (selection : Selection) :
    variantMember c typeName shape = pure (memberOf c (.variant typeName selection) (some shape)) := by
  have htype : TypeRef.ofName typeName true = .ok (.named typeName true) := by
    rw [TypeRef.ofName, TypeRef.ofLevels, if_neg Bool.false_ne_true, if_neg h]
  rw [variantMember, htype]
  rfl

/-- A slot comes to a member at once, or after the shape of the selection inside. Of the types of variants
only the empty one has no member. -/
theorem Ensures.slotMember {c : Context} {place : Place} {slot : Slot}
    {post : Member → AssemblyState → Prop}
    (hleaf : slot.selection? = none → post (memberOf c slot none) s)
    (hinner : ∀ inner, slot.selection? = some inner → ∀ doc,
      Ensures (childShape c place slot.name doc inner (members c inner)) s
        (fun path s' => post (memberOf c slot (some path)) s') fault)
    (hempty : ∀ inner, slot = .variant "" inner → ∀ e, fault e) :
    Ensures (Assembly.slotMember c place slot) s post fault := by
  cases slot with
  | discriminant => exact hleaf rfl
  | field info selection? =>
    cases selection? with
    | none => exact hleaf rfl
    | some selection =>
      rw [Assembly.slotMember]
      exact (hinner selection rfl _).bind fun _ _ hpost => hpost
  | variant typeName selection =>
    rw [Assembly.slotMember]
    refine (hinner selection rfl _).bind fun path s' hpost => ?_
    by_cases hname : typeName = ""
    · rw [variantMember, hname]
      exact hempty selection (by rw [hname]) _
    · rw [variantMember_eq_ok hname selection]
      exact hpost

/-- The members of slots in order. -/
def slotMembers (c : Context) (place : Place) : List Slot → Assembly (List Member)
  | [] => return []
  | slot :: slots => do
    let member ← slotMember c place slot
    let more ← slotMembers c place slots
    return member :: more

theorem bind_assoc {γ : Type} (step : Assembly α) (next : α → Assembly β) (last : β → Assembly γ) :
    (step >>= next) >>= last = step >>= fun value => next value >>= last := by
  funext s
  change (match (match step s with
      | (.ok value, s') => next value s'
      | (.error e, s') => (.error e, s')) with
    | (.ok value, s') => last value s'
    | (.error e, s') => (.error e, s')) = match step s with
      | (.ok value, s') => (next value >>= last) s'
      | (.error e, s') => (.error e, s')
  rcases step s with ⟨_ | _, s'⟩ <;> rfl

theorem pure_bind (value : α) (next : α → Assembly β) : (pure value >>= next) = next value := rfl

theorem bind_pure (step : Assembly α) : (step >>= pure) = step := by
  funext s
  change (match step s with
    | (.ok value, s') => (.ok value, s')
    | (.error e, s') => (.error e, s')) = step s
  rcases step s with ⟨_ | _, s'⟩ <;> rfl

instance : LawfulMonad Assembly :=
  LawfulMonad.mk' _ bind_pure pure_bind bind_assoc

theorem slotMembers_append (c : Context) (place : Place) (first second : List Slot) :
    slotMembers c place (first ++ second) = do
      let members ← slotMembers c place first
      let more ← slotMembers c place second
      return members ++ more := by
  induction first with
  | nil => simp [slotMembers]
  | cons slot first ih => simp [slotMembers, ih]

theorem fieldMembers_eq (c : Context) (discriminated : Bool) (fields : List SelectedField)
    (place : Place) :
    fieldMembers c discriminated fields place =
      slotMembers c place ((fields.filter fun f =>
        !(discriminated && f.info.name = Selection.typenameField)).map
          fun f => .field f.info f.selection) := by
  induction fields with
  | nil => rw [fieldMembers, List.filter_nil, List.map_nil, slotMembers]
  | cons f fields ih =>
    obtain ⟨info, selection⟩ := f
    rw [List.filter_cons]
    dsimp only
    cases selection with
    | none =>
      rw [fieldMembers, ih]
      cases discriminated && decide (info.name = Selection.typenameField) <;>
        simp [slotMembers, slotMember]
    | some selection =>
      rw [fieldMembers, ih]
      cases discriminated && decide (info.name = Selection.typenameField) <;>
        simp [slotMembers, slotMember]

theorem variantMembers_eq (c : Context) (variants : List Variant) (place : Place) :
    variantMembers c variants place =
      slotMembers c place (variants.map fun v => .variant v.typeName v.selection) := by
  induction variants with
  | nil => rfl
  | cons v variants ih =>
    obtain ⟨typeName, selection⟩ := v
    simp [variantMembers, slotMembers, slotMember, ih]

/-- The members of a selection are those of its slots. -/
theorem members_eq (c : Context) (sel : Selection) (place : Place) :
    members c sel place = slotMembers c place sel.slots := by
  obtain ⟨typeName, fields, variants⟩ := sel
  rw [members, fieldMembers_eq, variantMembers_eq, Selection.slots, slotMembers_append,
    slotMembers_append]
  cases variants with
  | nil => simp [slotMembers, Selection.isDiscriminated, Selection.absorbs]
  | cons v variants =>
    simp [slotMembers, slotMember, Selection.isDiscriminated, Selection.absorbs]

end FragmentShapes.Assembly
