import FragmentShapes.Proofs.Assembly.Numbered
import FragmentShapes.Proofs.Naming.Territory
import Mathlib.Data.List.Find

/-!
# What assembly reads and changes

Assembling a fragment looks up and registers nothing but paths of the fragment: from registries that say
the same about these it comes to the same, and what is registered under other paths stays as it is
(`ResolvedFragment.assembleWith_local`). `Assembly.IsLocal` says this of a step, with one rule for each
primitive and each function, whatever the policy and the custom names are.
-/

namespace FragmentShapes

open NamingPolicy (Owns IsContext IsLifted)

/-- The registries have the same signatures under the paths of the fragment. -/
def NameRegistry.AgreesOn (fragment : String) (r r' : NameRegistry Signature) : Prop :=
  ∀ path, Owns fragment path → r'.signature? path = r.signature? path

/-- The registries have the same signatures under all other paths. -/
def NameRegistry.AgreesOff (fragment : String) (r r' : NameRegistry Signature) : Prop :=
  ∀ path, ¬ Owns fragment path → r'.signature? path = r.signature? path

/-- The states are the same as far as the fragment is concerned. Shared structures have names of the
fragment. -/
structure AssemblyState.Agrees (fragment : String) (s t : AssemblyState) : Prop where
  shapes : t.shapes = s.shapes
  names : t.sharedNames = s.sharedNames
  lifted : ∀ entry ∈ s.sharedNames, IsLifted fragment entry.2
  registry : s.registry.AgreesOn fragment t.registry

theorem AssemblyState.Agrees.left {fragment : String} {s t : AssemblyState}
    (h : s.Agrees fragment t) : s.Agrees fragment s :=
  ⟨rfl, rfl, h.lifted, fun _ _ => rfl⟩

namespace Assembly

open AssemblyState

variable {α β : Type} {fragment : String} {c : Context} {s t : AssemblyState}

/-- From states that are the same to the fragment, the step comes to the same result and to such states,
changes nothing under other paths, and its value is as `post` says. -/
def IsLocal (fragment : String) (step : Assembly α) (post : α → Prop) : Prop :=
  ∀ s t, s.Agrees fragment t → (step t).1 = (step s).1 ∧ (step s).2.Agrees fragment (step t).2 ∧
    s.registry.AgreesOff fragment (step s).2.registry ∧ ∀ value, (step s).1 = .ok value → post value

/-! ## Primitives -/

variable {post : α → Prop}

theorem IsLocal.pure {value : α} (h : post value) : IsLocal fragment (pure value) post :=
  fun _ _ hst => ⟨rfl, hst, fun _ _ => rfl, fun _ heq => Except.ok.inj heq ▸ h⟩

theorem IsLocal.fail (e : AssemblyError) : IsLocal fragment (fail e : Assembly α) post :=
  fun _ _ hst => ⟨rfl, hst, fun _ _ => rfl, nofun⟩

theorem bind_of_ok {step : Assembly β} {next : β → Assembly α} {value : β} {s' : AssemblyState}
    (h : step s = (.ok value, s')) : (step >>= next) s = next value s' := by
  simp only [bind, h]

theorem bind_of_error {step : Assembly β} {next : β → Assembly α} {e : AssemblyError}
    {s' : AssemblyState} (h : step s = (.error e, s')) : (step >>= next) s = (.error e, s') := by
  simp only [bind, h]

theorem IsLocal.bind {step : Assembly β} {next : β → Assembly α} {between : β → Prop}
    (h : IsLocal fragment step between) (hnext : ∀ value, between value →
      IsLocal fragment (next value) post) : IsLocal fragment (step >>= next) post := by
  intro s t hst
  obtain ⟨hsame, hagrees, hoff, hvalue⟩ := h s t hst
  rcases hs : step s with ⟨result, s'⟩
  rcases ht : step t with ⟨result', t'⟩
  rw [hs, ht] at hsame hagrees
  rw [hs] at hoff hvalue
  obtain rfl : result' = result := hsame
  cases result' with
  | error e =>
    rw [bind_of_error hs, bind_of_error ht]
    exact ⟨rfl, hagrees, hoff, nofun⟩
  | ok value =>
    obtain ⟨hsame', hagrees', hoff', hpost⟩ := hnext value (hvalue value rfl) s' t' hagrees
    rw [bind_of_ok hs, bind_of_ok ht]
    exact ⟨hsame', hagrees', fun path hpath => (hoff' path hpath).trans (hoff path hpath), hpost⟩

/-- A step that looks at the state goes on alike from states that are the same to the fragment. -/
theorem IsLocal.state_bind {next : AssemblyState → Assembly α}
    (hsame : ∀ s t, s.Agrees fragment t → next t = next s)
    (hnext : ∀ s, s.Agrees fragment s → IsLocal fragment (next s) post) :
    IsLocal fragment (state >>= next) post := by
  intro s t hst
  have hbind : ∀ s, (state >>= next) s = next s s := fun _ => rfl
  rw [hbind, hbind, hsame s t hst]
  exact hnext s hst.left s t hst

theorem IsLocal.ofNaming (post : α → Prop) {result : Except NamingError α}
    (h : ∀ value, result = .ok value → post value) : IsLocal fragment (ofNaming result) post := by
  cases result with
  | ok value => exact .pure (h value rfl)
  | error e => exact .fail _

theorem IsLocal.emit (shape : Shape) : IsLocal fragment (emit shape) fun _ => True := fun _ _ hst =>
  ⟨rfl, ⟨congrArg (· ++ [shape]) hst.shapes, hst.names, hst.lifted, hst.registry⟩, fun _ _ => rfl,
    fun _ _ => trivial⟩

theorem IsLocal.keepSharedName (key : NamedSignature) {name : String} (h : IsLifted fragment name) :
    IsLocal fragment (keepSharedName key name) fun _ => True := fun _ _ hst =>
  ⟨rfl, ⟨hst.shapes, congrArg (· ++ [(key, name)]) hst.names,
    List.forall_mem_append.2 ⟨hst.lifted, List.forall_mem_singleton.2 h⟩, hst.registry⟩,
    fun _ _ => rfl, fun _ _ => trivial⟩

/-- A change of the registry that comes to the same for the fragment and leaves other paths. -/
theorem IsLocal.updateRegistry
    {f : NameRegistry Signature → Except NamingError (NameRegistry Signature)}
    (h : ∀ r r', r.AgreesOn fragment r' → (∃ e, f r = .error e ∧ f r' = .error e) ∨
      ∃ x x', f r = .ok x ∧ f r' = .ok x' ∧ x.AgreesOn fragment x' ∧ r.AgreesOff fragment x) :
    IsLocal fragment (updateRegistry f) fun _ => True := by
  intro s t hst
  unfold Assembly.updateRegistry
  rcases h s.registry t.registry hst.registry with ⟨e, he, he'⟩ | ⟨r, r', hr, hr', hon, hoff⟩
  · rw [he, he']
    exact ⟨rfl, hst, fun _ _ => rfl, nofun⟩
  · rw [hr, hr']
    exact ⟨rfl, ⟨hst.shapes, hst.names, hst.lifted, hon⟩, hoff, fun _ _ => trivial⟩

/-- Registering a path of the fragment. -/
theorem IsLocal.register {name scope : String} (h : Owns fragment (qualify scope name))
    (signature : Signature) :
    IsLocal fragment (Assembly.updateRegistry (·.register name scope signature)) fun _ => True := by
  refine .updateRegistry fun r r' hrr' => ?_
  have hpath := hrr' _ h
  rcases r.register_ok_or_error name scope signature with ⟨⟨x, hx⟩, hfree⟩ | ⟨he, τ, hτ, hne⟩
  · rcases r'.register_ok_or_error name scope signature with ⟨⟨x', hx'⟩, -⟩ | ⟨-, τ, hτ, hne⟩
    · refine .inr ⟨x, x', hx, hx', fun path howns => ?_, fun path hother => ?_⟩
      · rw [NameRegistry.signature?_of_register hx, NameRegistry.signature?_of_register hx',
          hrr' path howns]
      · have hne : path ≠ qualify scope name := fun heq => hother (heq ▸ h)
        rw [NameRegistry.signature?_of_register hx, if_neg hne]
    · exact absurd (hfree τ (hpath ▸ hτ)) hne
  · rcases r'.register_ok_or_error name scope signature with ⟨-, hfree⟩ | ⟨he', -⟩
    · exact absurd (hfree τ (hpath ▸ hτ)) hne
    · exact .inl ⟨_, he, he'⟩

theorem IsLocal.relate (parent child : String) :
    IsLocal fragment (Assembly.updateRegistry (·.relate parent child)) fun _ => True := by
  refine .updateRegistry fun r r' hrr' => ?_
  by_cases hempty : parent = "" ∨ child = ""
  · refine .inl ⟨.emptyRelation, ?_, ?_⟩
    · rw [NameRegistry.relate, if_pos hempty]
    · rw [NameRegistry.relate, if_pos hempty]
  · have hok : ∀ r : NameRegistry Signature, ∃ x, r.relate parent child = .ok x := by
      intro r
      rw [NameRegistry.relate, if_neg hempty]
      split_ifs
      · exact ⟨_, rfl⟩
      · exact ⟨_, rfl⟩
    obtain ⟨x, hx⟩ := hok r
    obtain ⟨x', hx'⟩ := hok r'
    have hsame := NameRegistry.relate_eq_ok hx
    have hsame' := NameRegistry.relate_eq_ok hx'
    refine .inr ⟨x, x', hx, hx', fun path howns => ?_, fun path _ => hsame path⟩
    rw [hsame, hsame', hrr' path howns]

theorem IsLocal.emitShape {shape : Shape} (h : Owns fragment shape.path) (signature : Signature) :
    IsLocal fragment (emitShape signature shape) fun _ => True :=
  (IsLocal.register h signature).bind fun _ _ => .emit shape

/-! ## Names -/

theorem isTaken_of_agrees (hst : s.Agrees fragment t) (signature : Signature) {name : String}
    (hname : IsLifted fragment name) : isTaken t signature name = isTaken s signature name := by
  have hregistry := hst.registry name hname.owns
  rw [Bool.eq_iff_iff, ← Bool.not_eq_false, ← Bool.not_eq_false, not_iff_not, isTaken_eq_false_iff,
    isTaken_eq_false_iff, hst.names, hregistry]

theorem isLifted_numbered {name : String} (h : IsLifted fragment name) (n : Nat) :
    IsLifted fragment (numbered name n) := by
  obtain ⟨stem, rfl⟩ := h
  rw [numbered, NamingPolicy.stemPart_append (NamingPolicy.ne_empty_of_stem fragment stem)]
  exact ⟨stem ++ Nat.repr n, by simp only [String.append_assoc]⟩

/-- The first free one of names of the fragment, or a numbered one. -/
theorem chosen_of_agrees (hst : s.Agrees fragment t) (signature : Signature) {first : String}
    (hfirst : IsLifted fragment first) {candidates : List String}
    (hcandidates : ∀ name ∈ candidates, IsLifted fragment name) :
    (candidates.find? (!isTaken t signature ·)).getD (firstFreeNumbered t signature first) =
      (candidates.find? (!isTaken s signature ·)).getD (firstFreeNumbered s signature first) := by
  have hfound : candidates.find? (!isTaken t signature ·) =
      candidates.find? (!isTaken s signature ·) :=
    List.find?_congr fun name hname => by rw [isTaken_of_agrees hst signature (hcandidates name hname)]
  rw [hfound, firstFreeNumbered_congr fun n =>
    isTaken_of_agrees hst signature (isLifted_numbered hfirst n)]

theorem isLifted_chosen (s : AssemblyState) (signature : Signature) {first : String}
    (hfirst : IsLifted fragment first) (candidates : List String)
    (hcandidates : ∀ name ∈ candidates, IsLifted fragment name) :
    IsLifted fragment ((candidates.find? (!isTaken s signature ·)).getD
      (firstFreeNumbered s signature first)) := by
  cases hfound : candidates.find? (!isTaken s signature ·) with
  | some name => exact hcandidates name (List.mem_of_find?_eq_some hfound)
  | none =>
    obtain ⟨n, hn⟩ := exists_firstFreeNumbered_eq s signature first
    rw [Option.getD_none, hn]
    exact isLifted_numbered hfirst n

/-- The name of a shared structure is one of the fragment, and the same where its names are. -/
theorem isLocal_sharedName (hc : c.fragment = fragment) (hne : fragment ≠ "") {parent : Place}
    (hparent : IsContext fragment parent.context) (stem bare : String) (selection : Selection) :
    IsLocal fragment (sharedName c parent stem bare selection) (IsLifted fragment) := by
  have hfirst : ∀ {name : String},
      c.policy.assignName stem (some c.fragment) selection.typeName = .ok name →
        IsLifted fragment name :=
    NamingPolicy.isLifted_of_assignName hne (hc ▸ NamingPolicy.isContext_self _)
  have hsecond : ∀ {name : String},
      c.policy.assignName stem (some parent.context) selection.typeName = .ok name →
        IsLifted fragment name :=
    NamingPolicy.isLifted_of_assignName hne hparent
  unfold sharedName
  -- Only names of the fragment are tried, and of these the other run knows the same.
  refine .state_bind (fun s t hst => ?_) fun s hs => ?_
  · rw [hst.names]
    split
    · rfl
    · cases hname : c.policy.assignName stem (some c.fragment) selection.typeName with
      | error e => rfl
      | ok first =>
        simp only [Assembly.ofNaming, pure_bind]
        split_ifs
        · rw [chosen_of_agrees hst _ (hfirst hname) (by simpa using hfirst hname)]
        · cases hname' : c.policy.assignName stem (some parent.context) selection.typeName with
          | error e => rfl
          | ok second =>
            simp only [pure_bind]
            rw [chosen_of_agrees hst _ (hfirst hname)
              (by simpa using ⟨hfirst hname, hsecond hname'⟩)]
  · split
    · next name hname =>
      exact .pure (hs.lifted _ (mem_of_lookup_eq_some hname))
    · refine (IsLocal.ofNaming (IsLifted fragment) fun _ => hfirst).bind fun first hname => ?_
      dsimp only
      split_ifs
      · have hchosen := isLifted_chosen s selection.signature hname [first] (by simpa using hname)
        exact (IsLocal.keepSharedName _ hchosen).bind fun _ _ => .pure hchosen
      · refine (IsLocal.ofNaming (IsLifted fragment) fun _ => hsecond).bind fun second hname' => ?_
        have hchosen := isLifted_chosen s selection.signature hname [first, second]
          (by simpa using ⟨hname, hname'⟩)
        exact (IsLocal.keepSharedName _ hchosen).bind fun _ _ => .pure hchosen

/-! ## Shapes -/

/-- The place is on a path of the fragment. -/
structure Place.IsOwned (fragment : String) (place : Place) : Prop where
  path : Owns fragment place.path
  context : IsContext fragment place.context

theorem isLocal_nameShape (hc : c.fragment = fragment) (hne : fragment ≠ "") {parent : Place}
    (hparent : parent.IsOwned fragment) (stem bare : String) (selection : Selection) (shared : Bool) :
    IsLocal fragment (nameShape c parent stem bare selection .hoisted shared)
      fun named => IsLifted fragment named.1 ∧ named.2 = NamingPolicy.stemPart named.1 := by
  unfold nameShape
  dsimp only
  split_ifs
  · exact (isLocal_sharedName hc hne hparent.context stem bare selection).bind fun _ hname =>
      .pure ⟨hname, rfl⟩
  · refine (IsLocal.ofNaming (IsLifted fragment) fun _ => ?_).bind fun _ hname =>
      .pure ⟨hname, rfl⟩
    exact NamingPolicy.isLifted_of_assignName hne hparent.context

/-- A shape below a place of the fragment goes to a place of the fragment. -/
theorem isLocal_locate (hc : c.fragment = fragment) (hne : fragment ≠ "") {parent : Place}
    (hparent : parent.IsOwned fragment) (stem : String) (selection : Selection) :
    IsLocal fragment (locate c parent stem selection) fun l => l.place.IsOwned fragment := by
  unfold locate
  refine (IsLocal.ofNaming (fun _ => True) fun _ _ => trivial).bind fun bare _ => ?_
  simp only [NamingPolicy.assignScope]
  split_ifs
  · refine (isLocal_nameShape hc hne hparent stem bare selection _).bind ?_
    rintro ⟨name, context⟩ ⟨hname, hcontext⟩
    obtain rfl : context = NamingPolicy.stemPart name := hcontext
    refine .pure ⟨?_, hname.isContext⟩
    rw [Location.place, Location.path, qualify, if_pos rfl]
    exact hname.owns
  · exact .pure ⟨hparent.path.qualify bare, hparent.context.append _⟩

/-- Building at every place of the fragment reads and changes paths of the fragment only. -/
def BuildsLocally (fragment : String) (build : Place → Assembly α) : Prop :=
  ∀ place, place.IsOwned fragment → IsLocal fragment (build place) fun _ => True

theorem isLocal_provideShape {build : Place → Assembly (List Member)}
    (hbuild : BuildsLocally fragment build) {l : Location} (hl : l.place.IsOwned fragment)
    (parent : Place) (doc : String) (selection : Selection) :
    IsLocal fragment (provideShape c parent doc selection build l) fun _ => True := by
  unfold provideShape
  refine .state_bind (fun s t hst => by rw [hst.shapes]) fun s _ => ?_
  split_ifs
  · exact .register hl.path _
  · exact (hbuild l.place hl).bind fun members _ => .emitShape hl.path _

theorem isLocal_childShape (hc : c.fragment = fragment) (hne : fragment ≠ "") {parent : Place}
    (hparent : parent.IsOwned fragment) {selection : Selection}
    {build : Place → Assembly (List Member)} (hbuild : BuildsLocally fragment build)
    (stem doc : String) :
    IsLocal fragment (childShape c parent stem doc selection build) fun _ => True := by
  unfold childShape
  refine (isLocal_locate hc hne hparent stem selection).bind fun l hl => ?_
  exact (isLocal_provideShape hbuild hl parent doc selection).bind fun _ _ =>
    (IsLocal.relate parent.path l.path).bind fun _ _ => .pure trivial

/-! ## Members -/

theorem buildsLocally_slotMember (hc : c.fragment = fragment) (hne : fragment ≠ "") {slot : Slot}
    (hinner : ∀ inner, slot.selection? = some inner → BuildsLocally fragment (members c inner)) :
    BuildsLocally fragment fun place => slotMember c place slot := by
  intro place hplace
  dsimp only
  cases slot with
  | discriminant => exact .pure trivial
  | field info selection? =>
    cases selection? with
    | none => exact .pure trivial
    | some selection =>
      rw [slotMember]
      exact (isLocal_childShape hc hne hplace (hinner selection rfl) _ _).bind fun _ _ => .pure trivial
  | variant typeName selection =>
    rw [slotMember]
    refine (isLocal_childShape hc hne hplace (hinner selection rfl) _ _).bind fun path _ => ?_
    rw [variantMember]
    split
    · exact .pure trivial
    · exact .fail _

theorem buildsLocally_slotMembers {slots : List Slot}
    (h : ∀ slot ∈ slots, BuildsLocally fragment fun place => slotMember c place slot) :
    BuildsLocally fragment fun place => slotMembers c place slots := by
  intro place hplace
  induction slots with
  | nil => exact .pure trivial
  | cons slot slots ih =>
    obtain ⟨hslot, hslots⟩ := List.forall_mem_cons.1 h
    exact (hslot place hplace).bind fun _ _ => (ih hslots).bind fun _ _ => .pure trivial

theorem buildsLocally_members (hc : c.fragment = fragment) (hne : fragment ≠ "") (sel : Selection) :
    BuildsLocally fragment (members c sel) := by
  induction sel using Selection.slot_induction with
  | step sel ih =>
    intro place hplace
    rw [members_eq]
    refine buildsLocally_slotMembers (fun slot hslot => ?_) place hplace
    exact buildsLocally_slotMember hc hne fun inner hinner => ih slot hslot inner hinner

theorem isLocal_assembleRoot {r : ResolvedFragment} (hc : c.fragment = r.name) :
    IsLocal r.name (assembleRoot c r) fun _ => True := by
  unfold assembleRoot
  refine (IsLocal.ofNaming (fun name => r.name ≠ "" ∧
    name = NamingPolicy.withFragmentSuffix r.name) fun name hname => ?_).bind ?_
  · rw [NamingPolicy.rootName] at hname
    split_ifs at hname with hidentifier
    cases hname
    refine ⟨fun hempty => ?_, rfl⟩
    rw [hempty] at hidentifier
    cases hidentifier
  · rintro name ⟨hne, rfl⟩
    have hroot : Place.IsOwned r.name ⟨NamingPolicy.withFragmentSuffix r.name, r.name, 0⟩ :=
      ⟨.root, NamingPolicy.isContext_self _⟩
    refine (buildsLocally_members hc hne r.selection _ hroot).bind fun members _ => ?_
    refine (IsLocal.emitShape ?_ _).bind fun _ _ => .pure trivial
    rw [rootShape, Shape.path, qualify, if_pos rfl]
    exact .root

end Assembly

/-- What becomes of a fragment, and what it registers, depends on the paths of the fragment only; what is
registered under others stays as it is. -/
theorem ResolvedFragment.assembleWith_local (r : ResolvedFragment) (o : AssemblyOptions)
    {registry registry' : NameRegistry Signature} (h : registry.AgreesOn r.name registry') :
    (r.assembleWith o registry').1 = (r.assembleWith o registry).1 ∧
      (r.assembleWith o registry).2.AgreesOn r.name (r.assembleWith o registry').2 ∧
      registry.AgreesOff r.name (r.assembleWith o registry).2 := by
  rw [assembleWith, assembleWith]
  split
  · exact ⟨rfl, h, fun _ _ => rfl⟩
  · next shared _ =>
    have hstart : AssemblyState.Agrees r.name { registry } { registry := registry' } :=
      ⟨rfl, rfl, nofun, h⟩
    obtain ⟨hsame, hagrees, hoff, -⟩ :=
      Assembly.isLocal_assembleRoot (c := o.context r.name shared) (r := r) rfl _ _ hstart
    generalize Assembly.assembleRoot (o.context r.name shared) r { registry } = first
      at hsame hagrees hoff
    generalize Assembly.assembleRoot (o.context r.name shared) r { registry := registry' } = second
      at hsame hagrees
    obtain ⟨result, s⟩ := first
    obtain ⟨result', t⟩ := second
    obtain rfl : result' = result := hsame
    cases result' with
    | error e => exact ⟨rfl, hagrees.registry, hoff⟩
    | ok root =>
      refine ⟨?_, hagrees.registry, hoff⟩
      dsimp only
      rw [hagrees.shapes]

end FragmentShapes
