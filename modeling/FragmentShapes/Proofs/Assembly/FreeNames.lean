import FragmentShapes.Proofs.Assembly.Numbered

/-!
# The search for a free name

The first use of a shared structure gives it a name: behind the fragment, else behind the context of that
use, else with a number, counted up until a name is free. `Assembly.Finds` is this search, which sets no
limit to the count. It ends, since there are more numbers than taken names
(`Assembly.finds_firstFreeNumbered`), and what it ends with is the name of the structure from then on, which
can be registered without a collision (`Assembly.sharedName_finds`).
-/

namespace FragmentShapes.Assembly

variable {s : AssemblyState} {signature : Signature} {first name : String}

/-- The search tries the candidates in order, and behind the last one numbers the name, from `n` on. -/
inductive Finds (s : AssemblyState) (signature : Signature) (name : String) :
    List String → Nat → String → Prop
  | candidate {candidate rest n} (h : isTaken s signature candidate = false) :
    Finds s signature name (candidate :: rest) n candidate
  | next {candidate rest n found} (h : isTaken s signature candidate = true)
    (search : Finds s signature name rest n found) : Finds s signature name (candidate :: rest) n found
  | number {n} (h : isTaken s signature (numbered name n) = false) :
    Finds s signature name [] n (numbered name n)
  | count {n found} (h : isTaken s signature (numbered name n) = true)
    (search : Finds s signature name [] (n + 1) found) : Finds s signature name [] n found

/-- What the search ends with is not taken. -/
theorem Finds.free {candidates : List String} {n : Nat} {found : String}
    (h : Finds s signature name candidates n found) : isTaken s signature found = false := by
  induction h with
  | candidate h => exact h
  | next _ _ ih => exact ih
  | number h => exact h
  | count _ _ ih => exact ih

/-- The search ends with one name only. -/
theorem Finds.unique {candidates : List String} {n : Nat} {found found' : String}
    (h : Finds s signature name candidates n found) (h' : Finds s signature name candidates n found') :
    found = found' := by
  induction h with
  | candidate hfree =>
    cases h' with
    | candidate _ => rfl
    | next htaken _ => rw [hfree] at htaken; cases htaken
  | next htaken _ ih =>
    cases h' with
    | candidate hfree => rw [hfree] at htaken; cases htaken
    | next _ search => exact ih search
  | number hfree =>
    cases h' with
    | number _ => rfl
    | count htaken _ => rw [hfree] at htaken; cases htaken
  | count htaken _ ih =>
    cases h' with
    | number hfree => rw [hfree] at htaken; cases htaken
    | count _ search => exact ih search

/-- Numbers are counted up to the first one that is free. -/
theorem finds_of_least {k n : Nat} (hfree : isTaken s signature (numbered name (k + n)) = false)
    (htaken : ∀ m < n, isTaken s signature (numbered name (k + m)) = true) :
    Finds s signature name [] k (numbered name (k + n)) := by
  induction n generalizing k with
  | zero => exact .number hfree
  | succ n ih =>
    refine .count (htaken 0 (by omega)) ?_
    have hshift (m : Nat) : k + (m + 1) = k + 1 + m := by omega
    rw [hshift n] at hfree ⊢
    refine ih hfree fun m hm => ?_
    rw [← hshift m]
    exact htaken (m + 1) (by omega)

/-- However many names are taken, the count ends. -/
theorem finds_firstFreeNumbered (s : AssemblyState) (signature : Signature) (name : String) :
    Finds s signature name [] 2 (firstFreeNumbered s signature name) := by
  obtain ⟨n, hn, hfree, hleast⟩ := exists_least_firstFreeNumbered s signature name
  rw [Nat.add_comm] at hn hfree
  rw [hn]
  refine finds_of_least hfree fun m hm => ?_
  rw [Nat.add_comm]
  exact hleast m hm

theorem finds_chosen (s : AssemblyState) (signature : Signature) (name : String)
    (candidates : List String) :
    Finds s signature name candidates 2
      ((candidates.find? (!isTaken s signature ·)).getD (firstFreeNumbered s signature name)) := by
  induction candidates with
  | nil => exact finds_firstFreeNumbered s signature name
  | cons candidate rest ih =>
    rw [List.find?_cons]
    cases htaken : isTaken s signature candidate with
    | false => exact .candidate htaken
    | true => exact .next htaken ih

/-! ## Free names -/

/-- No other structure of the fragment has the name, and the registry has none under it, or the same one,
so that it can be registered. -/
structure IsFree (s : AssemblyState) (signature : Signature) (name : String) : Prop where
  shared : ∀ entry ∈ s.sharedNames, entry.2 ≠ name
  registered : ∀ g, s.registry.get? name globalScope = some g → g.signature = signature
  registers : ∃ r, s.registry.register name globalScope signature = .ok r

theorem isFree_of_isTaken (h : isTaken s signature name = false) : IsFree s signature name := by
  obtain ⟨hshared, hregistered⟩ := isTaken_eq_false_iff.1 h
  have hsame : ∀ g, s.registry.get? name globalScope = some g → g.signature = signature := by
    intro g hg
    apply hregistered
    rw [NameRegistry.get?, qualify, if_pos rfl] at hg
    rw [NameRegistry.signature?, hg, Option.map_some]
  refine ⟨fun entry hentry heq => hshared (heq ▸ List.mem_map_of_mem hentry), hsame, ?_⟩
  rw [NameRegistry.register]
  cases hg : s.registry.get? name globalScope with
  | none => exact ⟨_, rfl⟩
  | some g => exact ⟨_, if_pos (hsame g hg)⟩

/-! ## Names of shared structures -/

section SharedName

variable {c : Context} {parent : Place} {stem bare : String} {selection : Selection}

/-- What is tried before numbers: the name behind the fragment, and that behind the context of the first
use if it is another one. -/
def candidates (c : Context) (parent : Place) (first second : String) : List String :=
  if parent.context = c.fragment then [first] else [first, second]

theorem state_bind_apply {α : Type} (next : AssemblyState → Assembly α) (s : AssemblyState) :
    (state >>= next) s = next s s := rfl

theorem sharedName_of_known (h : s.sharedNames.lookup (bare, selection.signature) = some name) :
    sharedName c parent stem bare selection s = (.ok name, s) := by
  unfold sharedName
  rw [state_bind_apply, h]
  rfl

theorem sharedName_of_new {second : String}
    (h : s.sharedNames.lookup (bare, selection.signature) = none)
    (hfirst : c.policy.assignName stem (some c.fragment) selection.typeName = .ok first)
    (hsecond : c.policy.assignName stem (some parent.context) selection.typeName = .ok second) :
    ∃ name, sharedName c parent stem bare selection s =
        (.ok name, { s with sharedNames := s.sharedNames ++ [((bare, selection.signature), name)] }) ∧
      Finds s selection.signature first (candidates c parent first second) 2 name := by
  refine ⟨_, ?_, finds_chosen s selection.signature first (candidates c parent first second)⟩
  unfold sharedName
  rw [state_bind_apply, h, hfirst, hsecond, candidates]
  by_cases hcontext : parent.context = c.fragment
  · simp only [hcontext, if_true]
    rfl
  · simp only [hcontext, if_false]
    rfl

/-- The shared structure of a selection, used in the state `s`, has a name, with the state `s'` behind it. -/
structure HasName (c : Context) (parent : Place) (bare : String) (selection : Selection)
    (first second : String) (s : AssemblyState) (name : String) (s' : AssemblyState) : Prop where
  /-- Every later use of the structure has the same name. -/
  later : ∀ (parent' : Place) (stem' : String) (selection' : Selection) (t : AssemblyState),
    selection'.signature = selection.signature → s'.sharedNames <+: t.sharedNames →
      sharedName c parent' stem' bare selection' t = (.ok name, t)
  /-- A structure that has a name keeps it. -/
  known : (bare, selection.signature) ∈ s.sharedNames.map Prod.fst → s' = s
  /-- A structure that has none is put down with its new one. -/
  new : (bare, selection.signature) ∉ s.sharedNames.map Prod.fst →
    s' = { s with sharedNames := s.sharedNames ++ [((bare, selection.signature), name)] }
  finds : (bare, selection.signature) ∉ s.sharedNames.map Prod.fst →
    Finds s selection.signature first (candidates c parent first second) 2 name
  free : (bare, selection.signature) ∉ s.sharedNames.map Prod.fst → IsFree s selection.signature name

/-- Whatever names are taken, a shared structure gets a name, provided that it can be named behind the
fragment and behind the context of its use. A new name is what the search ends with, which is free. -/
theorem sharedName_finds (c : Context) (parent : Place) (stem bare : String) (selection : Selection)
    (s : AssemblyState) {first second : String}
    (hfirst : c.policy.assignName stem (some c.fragment) selection.typeName = .ok first)
    (hsecond : c.policy.assignName stem (some parent.context) selection.typeName = .ok second) :
    ∃ name s', sharedName c parent stem bare selection s = (.ok name, s') ∧
      HasName c parent bare selection first second s name s' := by
  have hlater {name : String} {s' : AssemblyState}
      (hknown : s'.sharedNames.lookup (bare, selection.signature) = some name) (parent' : Place)
      (stem' : String) (selection' : Selection) (t : AssemblyState)
      (hsame : selection'.signature = selection.signature) (ht : s'.sharedNames <+: t.sharedNames) :
      sharedName c parent' stem' bare selection' t = (.ok name, t) := by
    obtain ⟨more, hmore⟩ := ht
    apply sharedName_of_known
    rw [hsame, ← hmore, List.lookup_append, hknown, Option.some_or]
  cases hlookup : s.sharedNames.lookup (bare, selection.signature) with
  | some name =>
    have hmem := List.mem_map_of_mem (f := Prod.fst) (mem_of_lookup_eq_some hlookup)
    exact ⟨name, s, sharedName_of_known hlookup,
      { later := hlater hlookup
        known := fun _ => rfl
        new := fun hnew => absurd hmem hnew
        finds := fun hnew => absurd hmem hnew
        free := fun hnew => absurd hmem hnew }⟩
  | none =>
    have hnew := not_mem_of_lookup_eq_none hlookup
    obtain ⟨name, hname, hfinds⟩ := sharedName_of_new hlookup hfirst hsecond
    refine ⟨name, _, hname,
      { later := hlater ?_
        known := fun hmem => absurd hmem hnew
        new := fun _ => rfl
        finds := fun _ => hfinds
        free := fun _ => isFree_of_isTaken hfinds.free }⟩
    rw [List.lookup_append, hlookup]
    simp

/-- Names that are taken where a card asks for the address of a home: that of another structure of the
card, and two that another fragment has registered. The same structure is registered under the third
number. -/
def crowded (address : Signature) : AssemblyState where
  registry := { registrations := [⟨"Card_Home_AddressModel", globalScope, .on none⟩,
    ⟨"Card_Address2Model", globalScope, .on (some "Address")⟩,
    ⟨"Card_Address3Model", globalScope, address⟩] }
  sharedNames := [(("AddressModel", .on none), "Card_AddressModel")]

/-- Both names without a number are taken, and so is the first one with a number. -/
theorem sharedName_finds_address :
    let c : Context := ⟨{ placement := .mixed }, {}, true, "Card", []⟩
    let home : Place := ⟨"CardFragment.HomeModel", "Card_Home", 1⟩
    let address : Selection := ⟨some "Address", [⟨{ name := "city", type := .named "String" true }, none⟩], []⟩
    let s := crowded address.signature
    ∃ name s', sharedName c home "address" "AddressModel" address s = (.ok name, s') ∧
      name = "Card_Address3Model" ∧
      HasName c home "AddressModel" address "Card_AddressModel" "Card_Home_AddressModel" s name s' := by
  intro c home address s
  have hfirst : c.policy.assignName "address" (some c.fragment) address.typeName =
      .ok "Card_AddressModel" := by decide
  have hsecond : c.policy.assignName "address" (some home.context) address.typeName =
      .ok "Card_Home_AddressModel" := by decide
  obtain ⟨name, s', hrun, hname⟩ :=
    sharedName_finds c home "address" "AddressModel" address s hfirst hsecond
  have hsearch : Finds s address.signature "Card_AddressModel"
      (candidates c home "Card_AddressModel" "Card_Home_AddressModel") 2
      (numbered "Card_AddressModel" 3) :=
    .next (by decide) (.next (by decide) (.count (by decide) (.number (by decide))))
  have hthird : name = numbered "Card_AddressModel" 3 := (hname.finds (by decide)).unique hsearch
  exact ⟨name, s', hrun, hthird.trans (by decide), hname⟩

end SharedName

end FragmentShapes.Assembly
