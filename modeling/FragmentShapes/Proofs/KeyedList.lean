import FragmentShapes.KeyedList
import Mathlib.Data.List.Forall2
import Mathlib.Data.List.Induction
import Mathlib.Tactic.Common

/-!
# Grouping by key

`groupPairs_eq` gives the groups of `KeyedList.groupPairs` in closed form: the keys in order of first
appearance, each with the values that it came with, in order.
-/

namespace FragmentShapes

section Lookup

variable {κ α : Type} [BEq κ] [LawfulBEq κ] {entries : List (κ × α)} {key : κ}

theorem mem_of_lookup_eq_some {value : α} (h : entries.lookup key = some value) :
    (key, value) ∈ entries := by
  obtain ⟨front, back, rfl, -⟩ := List.lookup_eq_some_iff.1 h
  simp

theorem not_mem_of_lookup_eq_none (h : entries.lookup key = none) : key ∉ entries.map Prod.fst := by
  intro hmem
  obtain ⟨entry, hentry, rfl⟩ := List.mem_map.1 hmem
  simpa using List.lookup_eq_none_iff.1 h entry hentry

end Lookup

namespace KeyedList

variable {α : Type}

theorem get?_cons (entry : String × α) (entries : KeyedList α) (key : String) :
    get? (entry :: entries) key = if entry.1 = key then some entry.2 else get? entries key := by
  rw [get?, List.lookup_cons]
  by_cases h : entry.1 = key
  · simp [h]
  · rw [beq_eq_false_iff_ne.2 (Ne.symm h), if_neg h, get?]

theorem get?_put (entries : KeyedList α) (key : String) (value : α) (other : String) :
    get? (put key value entries) other = if key = other then some value else get? entries other := by
  induction entries with
  | nil => rw [put, get?_cons]
  | cons entry entries ih =>
    rw [put]
    by_cases h : entry.1 = key
    · subst h
      rw [if_pos rfl, get?_cons, get?_cons]
      split <;> rfl
    · rw [if_neg h, get?_cons, get?_cons, ih]
      split
      · next heq => rw [if_neg fun hkey => h (heq.trans hkey.symm)]
      · rfl

theorem put_of_get?_eq_none {entries : KeyedList α} {key : String}
    (h : get? entries key = none) (value : α) :
    put key value entries = entries ++ [(key, value)] := by
  induction entries with
  | nil => rfl
  | cons entry entries ih =>
    rw [get?_cons] at h
    split_ifs at h with hkey
    rw [put, if_neg hkey, ih h, List.cons_append]

theorem nodup_eraseDups : ∀ keys : List String, keys.eraseDups.Nodup
  | [] => by simp
  | key :: keys => by
    rw [List.eraseDups_cons, List.nodup_cons]
    exact ⟨by simp [List.mem_eraseDups], nodup_eraseDups _⟩
termination_by keys => keys.length
decreasing_by
  have := List.length_filter_le (fun other => !other == key) keys
  rw [List.length_cons]
  omega

/-- A key comes behind the others, or it is there already. -/
theorem eraseDups_concat (keys : List String) (key : String) :
    (keys ++ [key]).eraseDups = if key ∈ keys then keys.eraseDups else keys.eraseDups ++ [key] := by
  rw [List.eraseDups_append]
  split_ifs with hkey
  · simp [List.removeAll, hkey]
  · simp [List.removeAll, hkey, List.eraseDups_cons]

theorem eraseDups_filter (keep : String → Bool) :
    ∀ keys : List String, (keys.filter keep).eraseDups = keys.eraseDups.filter keep
  | [] => rfl
  | key :: keys => by
    have ih := eraseDups_filter keep (keys.filter fun other => !other == key)
    rw [List.eraseDups_cons, List.filter_cons, List.filter_cons]
    cases hkey : keep key with
    | true =>
      rw [if_pos rfl, if_pos rfl, List.eraseDups_cons, ← ih, List.filter_filter, List.filter_filter]
      simp only [Bool.and_comm]
    | false =>
      have hother : (keys.filter fun other => !other == key).filter keep = keys.filter keep := by
        rw [List.filter_filter]
        refine List.filter_congr fun other _ => ?_
        by_cases heq : other = key
        · simp [heq, hkey]
        · simp [heq]
      rw [if_neg Bool.false_ne_true, if_neg Bool.false_ne_true, ← ih, hother]
termination_by keys => keys.length
decreasing_by
  have := List.length_filter_le (fun other => !other == key) keys
  rw [List.length_cons]
  omega

/-- The keys of two rows of keys one behind the other are determined by those of each. -/
theorem eraseDups_append_congr {keys keys' more more' : List String}
    (h : keys.eraseDups = keys'.eraseDups) (hmore : more.eraseDups = more'.eraseDups) :
    (keys ++ more).eraseDups = (keys' ++ more').eraseDups := by
  have hremoved (keys more : List String) :
      (more.removeAll keys).eraseDups = more.eraseDups.filter fun key => !keys.eraseDups.contains key := by
    rw [← eraseDups_filter, List.removeAll]
    congr 1
    refine List.filter_congr fun key _ => ?_
    have hcontains : keys.contains key = keys.eraseDups.contains key := by
      rw [Bool.eq_iff_iff, List.contains_iff_mem, List.contains_iff_mem, List.mem_eraseDups]
    rw [← hcontains]
  rw [List.eraseDups_append, List.eraseDups_append, hremoved, hremoved, h, hmore]

/-- The entries whose values are a function of their keys. -/
def tabulate (keys : List String) (f : String → α) : KeyedList α := keys.map fun key => (key, f key)

theorem tabulate_append (keys more : List String) (f : String → α) :
    tabulate (keys ++ more) f = tabulate keys f ++ tabulate more f := List.map_append

theorem get?_tabulate (keys : List String) (f : String → α) (key : String) :
    get? (tabulate keys f) key = if key ∈ keys then some (f key) else none := by
  induction keys with
  | nil => rfl
  | cons first keys ih =>
    have hcons : get? (tabulate (first :: keys) f) key =
        if key = first then some (f first) else get? (tabulate keys f) key := by
      rw [get?, tabulate, List.map_cons, List.lookup_cons]
      by_cases h : key = first
      · simp [h]
      · rw [beq_eq_false_iff_ne.2 h, if_neg h, get?, tabulate]
    rw [hcons, ih]
    by_cases h : key = first <;> simp [h]

theorem tabulate_update_of_not_mem {keys : List String} {key : String} (hkey : key ∉ keys)
    (f : String → α) (value : α) : tabulate keys (Function.update f key value) = tabulate keys f := by
  refine List.map_congr_left fun other hother => ?_
  have hne : other ≠ key := fun heq => hkey (heq ▸ hother)
  rw [Function.update_of_ne hne]

theorem put_tabulate_of_mem {keys : List String} (hkeys : keys.Nodup) (f : String → α) {key : String}
    (hkey : key ∈ keys) (value : α) :
    put key value (tabulate keys f) = tabulate keys (Function.update f key value) := by
  induction keys with
  | nil => cases hkey
  | cons first keys ih =>
    obtain ⟨hfirst, hrest⟩ := List.nodup_cons.1 hkeys
    rw [tabulate, List.map_cons, put]
    by_cases h : first = key
    · subst h
      rw [if_pos rfl, ← tabulate, ← tabulate_update_of_not_mem hfirst f value, tabulate, tabulate,
        List.map_cons, Function.update_self]
    · rw [if_neg h, ← tabulate, ih hrest (List.mem_of_ne_of_mem (Ne.symm h) hkey), tabulate, tabulate,
        List.map_cons, Function.update_of_ne h]

theorem put_tabulate_of_not_mem {keys : List String} (f : String → α) {key : String}
    (hkey : key ∉ keys) (value : α) :
    put key value (tabulate keys f) = tabulate keys f ++ [(key, value)] := by
  induction keys with
  | nil => rfl
  | cons first keys ih =>
    have h : first ≠ key := fun heq => hkey (heq ▸ List.mem_cons_self)
    rw [tabulate, List.map_cons, put, if_neg h, ← tabulate,
      ih fun hmem => hkey (List.mem_cons_of_mem _ hmem), List.cons_append]

/-- The values that come with a key. -/
def valuesOf (pairs : List (String × α)) (key : String) : List α :=
  (pairs.filter (·.1 = key)).map Prod.snd

theorem mem_valuesOf {pairs : List (String × α)} {key : String} {value : α} :
    value ∈ valuesOf pairs key ↔ (key, value) ∈ pairs := by
  simp [valuesOf]

theorem valuesOf_map {β : Type} (pairs : List (String × α)) (f : α → β) (key : String) :
    valuesOf (pairs.map (Prod.map id f)) key = (valuesOf pairs key).map f := by
  simp [valuesOf, List.filter_map, Function.comp_def]

theorem valuesOf_cons (pair : String × α) (pairs : List (String × α)) (key : String) :
    valuesOf (pair :: pairs) key =
      if pair.1 = key then pair.2 :: valuesOf pairs key else valuesOf pairs key := by
  rw [valuesOf, List.filter_cons]
  by_cases hkey : pair.1 = key <;> simp [valuesOf, hkey]

theorem valuesOf_append_singleton (pairs : List (String × α)) (pair : String × α) :
    valuesOf (pairs ++ [pair]) =
      Function.update (valuesOf pairs) pair.1 (valuesOf pairs pair.1 ++ [pair.2]) := by
  funext key
  by_cases h : key = pair.1
  · subst h
    simp [valuesOf]
  · rw [Function.update_of_ne h]
    simp [valuesOf, Ne.symm h]

theorem groupPairs_concat (pairs : List (String × α)) (key : String) (value : α) :
    groupPairs (pairs ++ [(key, value)]) =
      put key ((get? (groupPairs pairs) key).getD [] ++ [value]) (groupPairs pairs) := by
  rw [groupPairs, List.foldl_append]
  rfl

/-- The groups are the keys in order of first appearance, each with its values in order. -/
theorem groupPairs_eq (pairs : List (String × α)) :
    groupPairs pairs = tabulate (pairs.map Prod.fst).eraseDups (valuesOf pairs) := by
  induction pairs using List.reverseRecOn with
  | nil => rfl
  | append_singleton pairs pair ih =>
    rw [groupPairs, List.foldl_append, ← groupPairs, ih, List.foldl_cons, List.foldl_nil,
      get?_tabulate, List.map_append, List.eraseDups_append, valuesOf_append_singleton]
    by_cases h : pair.1 ∈ (pairs.map Prod.fst).eraseDups
    · have hmem : pair.1 ∈ pairs.map Prod.fst := List.mem_eraseDups.1 h
      rw [if_pos h, Option.getD_some, put_tabulate_of_mem (nodup_eraseDups _) _ h]
      simp [List.removeAll, hmem]
    · have hnot : pair.1 ∉ pairs.map Prod.fst := fun hmem => h (List.mem_eraseDups.2 hmem)
      have hnone : valuesOf pairs pair.1 = [] := by
        rw [valuesOf, List.map_eq_nil_iff, List.filter_eq_nil_iff]
        intro other hother heq
        exact hnot (by simpa [of_decide_eq_true heq] using List.mem_map_of_mem (f := Prod.fst) hother)
      have hremoved : (List.map Prod.fst [pair]).removeAll (pairs.map Prod.fst) = [pair.1] := by
        simp [List.removeAll, hnot]
      rw [if_neg h, Option.getD_none, put_tabulate_of_not_mem _ h, hnone, hremoved,
        tabulate_append, tabulate_update_of_not_mem h]
      simp [tabulate, List.eraseDups_cons]

theorem getD_groupPairs (pairs : List (String × α)) (key : String) :
    (get? (groupPairs pairs) key).getD [] = valuesOf pairs key := by
  rw [groupPairs_eq, get?_tabulate]
  split_ifs with hkey
  · rfl
  · rw [Option.getD_none, eq_comm, valuesOf, List.map_eq_nil_iff, List.filter_eq_nil_iff]
    intro pair hpair heq
    exact hkey (List.mem_eraseDups.2 (of_decide_eq_true heq ▸ List.mem_map_of_mem hpair))

theorem mem_groupPairs {pairs : List (String × α)} {key : String} {values : List α} :
    (key, values) ∈ groupPairs pairs ↔ key ∈ pairs.map Prod.fst ∧ values = valuesOf pairs key := by
  rw [groupPairs_eq, tabulate, List.mem_map]
  constructor
  · rintro ⟨other, hother, heq⟩
    cases heq
    exact ⟨List.mem_eraseDups.1 hother, rfl⟩
  · rintro ⟨hkey, rfl⟩
    exact ⟨key, List.mem_eraseDups.2 hkey, rfl⟩

theorem exists_mem_groupPairs {pairs : List (String × α)} {key : String} {value : α}
    (h : (key, value) ∈ pairs) : ∃ values, (key, values) ∈ groupPairs pairs ∧ value ∈ values :=
  ⟨_, mem_groupPairs.2 ⟨List.mem_map_of_mem (f := Prod.fst) h, rfl⟩, mem_valuesOf.2 h⟩

theorem groupPairs_map {β : Type} (pairs : List (String × α)) (f : α → β) :
    groupPairs (pairs.map (Prod.map id f)) = (groupPairs pairs).map (Prod.map id (List.map f)) := by
  have hvalues : valuesOf (pairs.map (Prod.map id f)) = fun key => (valuesOf pairs key).map f :=
    funext (valuesOf_map pairs f)
  rw [groupPairs_eq, groupPairs_eq, hvalues, tabulate, tabulate, List.map_map, List.map_map]
  rfl

theorem map_fst_groupPairs (pairs : List (String × α)) :
    (groupPairs pairs).map Prod.fst = (pairs.map Prod.fst).eraseDups := by
  simp [groupPairs_eq, tabulate, Function.comp_def]

/-- Pairs of the same keys with related values group to the same keys with related values. -/
theorem forall₂_groupPairs {R : α → α → Prop} {pairs pairs' : List (String × α)}
    (h : List.Forall₂ (fun pair pair' => pair.1 = pair'.1 ∧ R pair.2 pair'.2) pairs pairs') :
    List.Forall₂ (fun group group' => group.1 = group'.1 ∧ List.Forall₂ R group.2 group'.2)
      (groupPairs pairs) (groupPairs pairs') := by
  have hkeys : pairs.map Prod.fst = pairs'.map Prod.fst := by
    induction h with
    | nil => rfl
    | cons hpair _ ih => rw [List.map_cons, List.map_cons, hpair.1, ih]
  have hvalues : ∀ key, List.Forall₂ R (valuesOf pairs key) (valuesOf pairs' key) := by
    intro key
    induction h with
    | nil => exact .nil
    | @cons pair pair' _ _ hpair _ ih =>
      rw [List.map_cons, List.map_cons, List.cons.injEq] at hkeys
      rw [valuesOf_cons, valuesOf_cons, ← hpair.1]
      split_ifs
      · exact .cons hpair.2 (ih hkeys.2)
      · exact ih hkeys.2
  rw [groupPairs_eq, groupPairs_eq, hkeys, tabulate, tabulate, List.forall₂_map_left_iff,
    List.forall₂_map_right_iff]
  exact List.forall₂_same.2 fun key _ => ⟨rfl, hvalues key⟩

end KeyedList

end FragmentShapes
