import FragmentShapes.Proofs.Selection.Termination
import Mathlib.Logic.Relation

/-!
# Fragments without cycles

What a spread opens to depends on the fragments that it stands inside of, for one of these is not opened
again. Where no cycle can be reached from the fragment, none of them is met on the way down, and the
spread opens to the same wherever it stands (`Selection.openSpread_eq`).
-/

namespace FragmentShapes

open Relation (ReflTransGen TransGen)

mutual

/-- The fragments that an entry spreads, at any depth. -/
def Entry.spreads : Entry → List String
  | .field _ selection => Entry.spreadsAll selection
  | .spread fragment => [fragment]
  | .condition _ _ selection => Entry.spreadsAll selection
  | .group selection => Entry.spreadsAll selection

/-- The fragments that entries spread, at any depth. -/
def Entry.spreadsAll : List Entry → List String
  | [] => []
  | entry :: entries => entry.spreads ++ Entry.spreadsAll entries

end

namespace Fragment

/-- The fragments that the known fragment of a name spreads; none if the name is unknown. -/
def spreadsOf (known : List Fragment) (name : String) : List String :=
  (find? name known).elim [] (Entry.spreadsAll ·.entries)

/-- The known fragment of the first name spreads the second name. -/
def Spreads (known : List Fragment) (name other : String) : Prop := other ∈ spreadsOf known name

instance (known : List Fragment) (name other : String) : Decidable (Spreads known name other) :=
  inferInstanceAs (Decidable (_ ∈ _))

/-- No fragment that is reached from the name by spreads reaches itself. -/
def AcyclicFrom (known : List Fragment) (name : String) : Prop :=
  ∀ other, ReflTransGen (Spreads known) name other → ¬ TransGen (Spreads known) other other

variable {known : List Fragment} {name other : String}

theorem spreads_of_mem {f : Fragment} (hf : find? name known = some f)
    (h : other ∈ Entry.spreadsAll f.entries) : Spreads known name other := by
  rw [Spreads, spreadsOf, hf]
  exact h

/-- A fragment is acyclic if all that it spreads are. -/
theorem acyclicFrom_iff :
    AcyclicFrom known name ↔ ∀ other ∈ spreadsOf known name, AcyclicFrom known other := by
  constructor
  · exact fun h other hspreads third hthird => h third (.head hspreads hthird)
  · intro h third hthird hcycle
    rcases hthird.cases_head with rfl | ⟨other, hspreads, hother⟩
    · obtain ⟨other, hspreads, hother⟩ := TransGen.head'_iff.1 hcycle
      exact h other hspreads name hother hcycle
    · exact h other hspreads third hother hcycle

theorem AcyclicFrom.of_spreads (h : AcyclicFrom known name) (hspreads : Spreads known name other) :
    AcyclicFrom known other :=
  acyclicFrom_iff.1 h other hspreads

end Fragment

namespace Selection

open Fragment

variable {known : List Fragment}

mutual

theorem unfold_congr {openSpread openSpread' : String → Node} : ∀ entry : Entry,
    (∀ name ∈ entry.spreads, openSpread name = openSpread' name) →
      entry.unfold openSpread = entry.unfold openSpread'
  | .field head selection, h => by
    rw [Entry.unfold, Entry.unfold, unfoldAll_congr selection h]
  | .spread fragment, h => by
    rw [Entry.unfold, Entry.unfold, h fragment (List.mem_singleton.2 rfl)]
  | .condition on label selection, h => by
    rw [Entry.unfold, Entry.unfold, unfoldAll_congr selection h]
  | .group selection, h => by
    rw [Entry.unfold, Entry.unfold, unfoldAll_congr selection h]

/-- Unfolding looks at the spreads of the entries only. -/
theorem unfoldAll_congr {openSpread openSpread' : String → Node} : ∀ entries : List Entry,
    (∀ name ∈ Entry.spreadsAll entries, openSpread name = openSpread' name) →
      Entry.unfoldAll openSpread entries = Entry.unfoldAll openSpread' entries
  | [], _ => by rw [Entry.unfoldAll, Entry.unfoldAll]
  | entry :: entries, h => by
    rw [Entry.spreadsAll, List.forall_mem_append] at h
    rw [Entry.unfoldAll, Entry.unfoldAll, unfold_congr entry h.1, unfoldAll_congr entries h.2]

end

/-! ## Trails of a run -/

/-- Every fragment that the occurrence stands inside of spreads what the occurrence spreads, by itself or
through others. -/
def Occurrence.IsLed (known : List Fragment) (o : Occurrence) : Prop :=
  ∀ name ∈ o.entry.spreads, ∀ outer ∈ o.trail, TransGen (Spreads known) outer name

theorem mem_spreadsAll {entries : List Entry} {name : String} :
    name ∈ Entry.spreadsAll entries ↔ ∃ entry ∈ entries, name ∈ entry.spreads := by
  induction entries with
  | nil => simp [Entry.spreadsAll]
  | cons entry entries ih => simp [Entry.spreadsAll, ih]

theorem isLed_of_mem_all {trail : List String} {entries : List Entry}
    (h : ∀ name ∈ Entry.spreadsAll entries, ∀ outer ∈ trail, TransGen (Spreads known) outer name) :
    ∀ o ∈ Occurrence.all trail entries, o.IsLed known := by
  intro o ho name hname
  obtain ⟨entry, hentry, rfl⟩ := List.mem_map.1 ho
  exact h name (mem_spreadsAll.2 ⟨entry, hentry, hname⟩)

/-- A run of a known fragment starts with occurrences that are led to. -/
theorem isLed_start {f : Fragment} (hf : find? f.name known = some f) :
    ∀ o ∈ Occurrence.all [f.name] f.entries, o.IsLed known := by
  refine isLed_of_mem_all fun name hname outer houter => ?_
  rw [List.mem_singleton.1 houter]
  exact .single (spreads_of_mem hf hname)

/-- All that comes of an occurrence is led to. -/
def Opening.IsLed (known : List Fragment) : Opening → Prop
  | .keep part => ∀ child ∈ part.children, child.IsLed known
  | .inline children => ∀ child ∈ children, child.IsLed known
  | .drop _ => True

/-- Opening an occurrence that is led to leads to others. -/
theorem opening_isLed {c : Context} {parent : Option String} {o : Occurrence} (ho : o.IsLed known) :
    (opening c known parent o).IsLed known := by
  obtain ⟨entry, trail⟩ := o
  cases entry with
  | field head selection => exact isLed_of_mem_all ho
  | condition on label selection =>
    rw [opening]
    split_ifs
    · exact isLed_of_mem_all ho
    · exact isLed_of_mem_all ho
  | group selection => exact isLed_of_mem_all ho
  | spread name =>
    rw [opening]
    cases hfind : find? name known with
    | none => trivial
    | some f =>
      -- Inside the fragment the trail leads to the spread, and the spread to what is spread there.
      have hinside : ∀ inner ∈ Entry.spreadsAll f.entries, ∀ outer ∈ trail ++ [name],
          TransGen (Spreads known) outer inner := by
        intro inner hinner outer houter
        have hspreads := spreads_of_mem hfind hinner
        rcases List.mem_append.1 houter with houter | houter
        · exact .tail (ho name (List.mem_singleton.2 rfl) outer houter) hspreads
        · exact List.mem_singleton.1 houter ▸ .single hspreads
      dsimp only
      split_ifs
      · trivial
      · exact fun child hchild => List.mem_singleton.1 hchild ▸ hinside
      · exact isLed_of_mem_all hinside

/-! ## Trails without effect -/

/-- Nothing that is reached from the name by spreads is on the trail. -/
def Clear (known : List Fragment) (trail : List String) (name : String) : Prop :=
  ∀ other, ReflTransGen (Spreads known) name other → other ∉ trail

/-- What an acyclic fragment spreads does not lead back to the fragment. -/
theorem Clear.step {trail : List String} {name other : String} (h : Clear known trail name)
    (hacyclic : AcyclicFrom known name) (hspreads : Spreads known name other) :
    Clear known (trail ++ [name]) other := by
  intro third hthird hmem
  rcases List.mem_append.1 hmem with hmem | hmem
  · exact h third (.head hspreads hthird) hmem
  · obtain rfl := List.mem_singleton.1 hmem
    exact hacyclic third .refl (.head' hspreads hthird)

/-- A spread opens to the same on all trails that it does not lead back to. -/
theorem openSpread_eq {name : String} {trail trail' : List String}
    (hacyclic : AcyclicFrom known name) (htrail : Clear known trail name)
    (htrail' : Clear known trail' name) :
    openSpread known (unopened known trail) trail name =
      openSpread known (unopened known trail') trail' name := by
  -- opening a fragment takes it off those that are left to open
  induction hleft : (unopened known trail).length using Nat.strongRecOn
    generalizing name trail trail' with
  | _ left ih =>
    cases hfind : find? name known with
    | none =>
      rw [openSpread_of_not_opened (.inr hfind), openSpread_of_not_opened (.inr hfind), hfind]
      rfl
    | some f =>
      have hname := htrail name .refl
      have hless : (unopened known (trail ++ [name])).length < left := by
        rw [← hleft, ← without_unopened]
        exact length_without_lt (f := f) (by rw [find?_unopened, if_neg hname, hfind])
      have hbody : Entry.unfoldAll
            (openSpread known (unopened known (trail ++ [name])) (trail ++ [name])) f.entries =
          Entry.unfoldAll
            (openSpread known (unopened known (trail' ++ [name])) (trail' ++ [name])) f.entries := by
        refine unfoldAll_congr f.entries fun other hother => ?_
        have hspreads := spreads_of_mem hfind hother
        exact ih _ hless (hacyclic.of_spreads hspreads) (htrail.step hacyclic hspreads)
          (htrail'.step hacyclic hspreads) rfl
      rw [openSpread_of_find? hfind hname, openSpread_of_find? hfind (htrail' name .refl),
        map_node_all, map_node_all, hbody]

end Selection

end FragmentShapes
