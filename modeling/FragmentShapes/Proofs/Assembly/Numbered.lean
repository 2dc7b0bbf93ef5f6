import FragmentShapes.Proofs.Assembly.Ensures
import Mathlib.Data.List.Perm.Subperm

/-!
# Names of shared structures

A name that is chosen for a shared structure is not taken (`ensures_sharedName_spec`): there are more
numbered names than taken ones, so that one of them is free where the names without a number are not.
-/

namespace FragmentShapes.Assembly

variable {s : AssemblyState} {signature : Signature} {name : String}

/-- The names that can be taken. -/
def takenNames (s : AssemblyState) : List String := s.sharedNames.map Prod.snd ++ s.registry.paths

theorem isTaken_eq_false_iff :
    isTaken s signature name = false ↔ name ∉ s.sharedNames.map Prod.snd ∧
      ∀ τ, s.registry.signature? name = some τ → τ = signature := by
  rw [isTaken, Bool.or_eq_false_iff]
  refine and_congr ?_ ?_
  · rw [List.any_eq_false, List.mem_map]
    constructor
    · rintro h ⟨entry, hentry, rfl⟩
      exact h entry hentry (decide_eq_true rfl)
    · exact fun h entry hentry hname => h ⟨entry, hentry, of_decide_eq_true hname⟩
  · have hpath : s.registry.get? name globalScope = s.registry.atPath? name := by
      rw [NameRegistry.get?, qualify, if_pos rfl]
    rw [hpath, NameRegistry.signature?]
    cases s.registry.atPath? name with
    | none => simp
    | some registration => simp

theorem mem_takenNames_of_isTaken (h : isTaken s signature name = true) : name ∈ takenNames s := by
  by_contra hnot
  rw [takenNames, List.mem_append, not_or] at hnot
  have hfree : isTaken s signature name = false := by
    refine isTaken_eq_false_iff.2 ⟨hnot.1, fun τ hτ => absurd ?_ hnot.2⟩
    obtain ⟨registration, hregistration, -⟩ := Option.map_eq_some_iff.1 hτ
    have hpath := List.find?_some hregistration
    exact List.mem_map.2 ⟨registration, List.mem_of_find?_eq_some hregistration,
      of_decide_eq_true hpath⟩
  rw [hfree] at h
  cases h

theorem numbered_injective (name : String) {m n : Nat} (h : numbered name m = numbered name n) :
    m = n := by
  rw [numbered, numbered] at h
  have hrepr : Nat.repr m = Nat.repr n := (String.append_right_inj _).1 ((String.append_left_inj _).1 h)
  rw [Nat.repr_eq_ofList_toDigits, Nat.repr_eq_ofList_toDigits] at hrepr
  have hdigits := congrArg (fun digits => Nat.ofDigitChars 10 digits 0) (String.ofList_injective hrepr)
  simpa using hdigits

/-- One more name is tried than can be taken. -/
theorem isTaken_firstFreeNumbered (s : AssemblyState) (signature : Signature) (name : String) :
    isTaken s signature (firstFreeNumbered s signature name) = false := by
  rw [firstFreeNumbered]
  generalize hcandidates : List.map _ (List.range _) = candidates
  have hnodup : candidates.Nodup := by
    rw [← hcandidates]
    refine List.Nodup.map (fun m n h => ?_) List.nodup_range
    have := numbered_injective name h
    omega
  have hlength : (takenNames s).length < candidates.length := by
    rw [← hcandidates, List.length_map, List.length_range, takenNames, List.length_append,
      List.length_map, NameRegistry.paths, List.length_map]
    omega
  cases hfound : candidates.find? (!isTaken s signature ·) with
  | some candidate => simpa using List.find?_some hfound
  | none =>
    have hsubset : candidates ⊆ takenNames s := fun candidate hcandidate => by
      have htaken := List.find?_eq_none.1 hfound candidate hcandidate
      exact mem_takenNames_of_isTaken (by simpa using htaken)
    have hle := (hnodup.subperm hsubset).length_le
    omega

/-- The numbers before that of the first free name are taken. -/
theorem exists_least_firstFreeNumbered (s : AssemblyState) (signature : Signature) (name : String) :
    ∃ n, firstFreeNumbered s signature name = numbered name (n + 2) ∧
      isTaken s signature (numbered name (n + 2)) = false ∧
      ∀ m < n, isTaken s signature (numbered name (m + 2)) = true := by
  have hfree := isTaken_firstFreeNumbered s signature name
  rw [firstFreeNumbered] at hfree ⊢
  generalize s.sharedNames.length + s.registry.registrations.length + 1 = count at hfree ⊢
  rw [List.find?_map] at hfree ⊢
  cases hfound : (List.range count).find?
      ((!isTaken s signature ·) ∘ fun k => numbered name (k + 2)) with
  | some n =>
    rw [hfound] at hfree
    refine ⟨n, rfl, hfree, fun m hm => ?_⟩
    have hbefore := (List.find?_range_eq_some.1 hfound).2.2 m hm
    simpa using hbefore
  | none =>
    rw [hfound] at hfree
    refine ⟨count, rfl, hfree, fun m hm => ?_⟩
    have hbefore := List.find?_range_eq_none.1 hfound m hm
    simpa using hbefore

theorem exists_firstFreeNumbered_eq (s : AssemblyState) (signature : Signature) (name : String) :
    ∃ n, firstFreeNumbered s signature name = numbered name n := by
  obtain ⟨n, hn, -⟩ := exists_least_firstFreeNumbered s signature name
  exact ⟨n + 2, hn⟩

/-- Where the same numbered names are free, the first free one is the same: how many are tried does not
matter. -/
theorem firstFreeNumbered_congr {s' : AssemblyState}
    (h : ∀ n, isTaken s' signature (numbered name n) = isTaken s signature (numbered name n)) :
    firstFreeNumbered s' signature name = firstFreeNumbered s signature name := by
  obtain ⟨n, hn, hfree, hleast⟩ := exists_least_firstFreeNumbered s signature name
  obtain ⟨n', hn', hfree', hleast'⟩ := exists_least_firstFreeNumbered s' signature name
  rw [hn, hn']
  rcases Nat.lt_trichotomy n n' with hlt | rfl | hlt
  · rw [← h, hleast' n hlt] at hfree
    cases hfree
  · rfl
  · rw [h, hleast n' hlt] at hfree'
    cases hfree'

/-- The first candidate that is not taken, or else a numbered name, is not taken. -/
theorem chosen_spec (s : AssemblyState) (signature : Signature) (candidates : List String)
    (first : String) :
    isTaken s signature ((candidates.find? (!isTaken s signature ·)).getD
        (firstFreeNumbered s signature first)) = false ∧
      ((candidates.find? (!isTaken s signature ·)).getD
          (firstFreeNumbered s signature first) ∈ candidates ∨
        ∃ n, (candidates.find? (!isTaken s signature ·)).getD
          (firstFreeNumbered s signature first) = numbered first n) := by
  cases hfound : candidates.find? (!isTaken s signature ·) with
  | some candidate =>
    exact ⟨by simpa using List.find?_some hfound, .inl (List.mem_of_find?_eq_some hfound)⟩
  | none =>
    exact ⟨isTaken_firstFreeNumbered s _ first, .inr (exists_firstFreeNumbered_eq s _ first)⟩

/-- The name of a shared structure is the one given to it before, or one that is not taken. Only a name
behind the fragment or behind the context above can fail. -/
theorem ensures_sharedName_chosen (c : Context) (parent : Place) (stem bare : String)
    (selection : Selection) :
    Ensures (sharedName c parent stem bare selection) s
      (fun name s' => s' = s ∧ ((bare, selection.signature), name) ∈ s.sharedNames ∨
        (bare, selection.signature) ∉ s.sharedNames.map Prod.fst ∧
          s' = { s with sharedNames := s.sharedNames ++ [((bare, selection.signature), name)] } ∧
          isTaken s selection.signature name = false ∧
          ∃ first, c.policy.assignName stem (some c.fragment) selection.typeName = .ok first ∧
            (name = first ∨
              c.policy.assignName stem (some parent.context) selection.typeName = .ok name ∨
              ∃ n, name = numbered first n))
      fun e => ∃ fault, e = .naming fault ∧ ∃ context, (context = c.fragment ∨ context = parent.context) ∧
        c.policy.assignName stem (some context) selection.typeName = .error fault := by
  unfold sharedName
  rw [ensures_bind, ensures_state]
  split
  · next name hname =>
    exact .inl ⟨rfl, mem_of_lookup_eq_some hname⟩
  · next hnew =>
    have hfresh := not_mem_of_lookup_eq_none hnew
    rw [ensures_bind, ensures_ofNaming]
    refine ⟨fun first hfirst => ?_, fun e he => ⟨e, rfl, _, .inl rfl, he⟩⟩
    dsimp only
    -- The context above gives a second candidate unless it is the fragment itself.
    split_ifs
    · obtain ⟨hfree, hform⟩ := chosen_spec s selection.signature [first] first
      exact .inr ⟨hfresh, rfl, hfree, first, hfirst, hform.imp List.mem_singleton.1 .inr⟩
    · rw [ensures_bind, ensures_ofNaming]
      refine ⟨fun second hsecond => ?_, fun e he => ⟨e, rfl, _, .inr rfl, he⟩⟩
      obtain ⟨hfree, hform⟩ := chosen_spec s selection.signature [first, second] first
      rw [List.mem_pair, or_assoc] at hform
      refine .inr ⟨hfresh, rfl, hfree, first, hfirst, hform.imp_right (Or.imp_left fun hname => ?_)⟩
      rw [hname, hsecond]

/-- Where both names can be given, one of them or a numbered one is. -/
theorem ensures_sharedName_spec (c : Context) (parent : Place) (stem bare : String)
    (selection : Selection) {first second : String}
    (hfirst : c.policy.assignName stem (some c.fragment) selection.typeName = .ok first)
    (hsecond : c.policy.assignName stem (some parent.context) selection.typeName = .ok second) :
    Ensures (sharedName c parent stem bare selection) s
      (fun name s' => s' = s ∧ ((bare, selection.signature), name) ∈ s.sharedNames ∨
        s' = { s with sharedNames := s.sharedNames ++ [((bare, selection.signature), name)] } ∧
          isTaken s selection.signature name = false ∧
          (name = first ∨ name = second ∨ ∃ n, name = numbered first n))
      fun _ => False := by
  refine (ensures_sharedName_chosen c parent stem bare selection).mono ?_ ?_
  · rintro name s' (hbefore | ⟨-, hs', hfree, first', hfirst', hform⟩)
    · exact .inl hbefore
    · rw [hfirst, Except.ok.injEq] at hfirst'
      rw [hsecond, Except.ok.injEq, eq_comm (a := second)] at hform
      exact .inr ⟨hs', hfree, hfirst' ▸ hform⟩
  · rintro e ⟨fault, -, context, rfl | rfl, hfault⟩
    · rw [hfirst] at hfault
      cases hfault
    · rw [hsecond] at hfault
      cases hfault

end FragmentShapes.Assembly
