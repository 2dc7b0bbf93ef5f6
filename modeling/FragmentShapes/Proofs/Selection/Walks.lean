import FragmentShapes.Proofs.Selection.Trail
import Mathlib.Data.List.Chain
import Mathlib.Data.List.Nodup

/-!
# Walks of the spread graph

A spread carries the fragments that it stands inside of, and nothing but these tells a cycle: there is no
record of all the fragments that were opened. What the spreads of a fragment lead to (`Fragment.Leads`) is
what stands at the ends of the walks that come by no fragment twice (`Fragment.leads_iff_walk`), and these
come to every cycle that can be reached (`exists_closed_walk_iff`) and to every name that a fragment spreads
that can be reached (`exists_walk_iff`).
-/

namespace FragmentShapes

open Relation (ReflTransGen TransGen)

/-! ## Walks -/

section Walks

variable {α : Type} {R : α → α → Prop} {a b : α}

/-- What can be reached can be reached without going anywhere twice. -/
theorem exists_simple_walk (h : ReflTransGen R a b) :
    ∃ walk, (a :: walk).IsChain R ∧ (a :: walk).Nodup ∧ b ∈ (a :: walk).getLast? := by
  induction h using ReflTransGen.head_induction_on with
  | refl => exact ⟨[], .singleton b, List.nodup_singleton b, rfl⟩
  | @head a next hstep _ ih =>
    obtain ⟨walk, hchain, hnodup, hlast⟩ := ih
    by_cases hmem : a ∈ next :: walk
    · -- the walk comes by the start again, and may as well start there
      obtain ⟨before, after, heq⟩ := List.append_of_mem hmem
      rw [heq] at hchain hnodup hlast
      rw [List.getLast?_append_of_ne_nil _ (List.cons_ne_nil _ _)] at hlast
      exact ⟨after, hchain.right_of_append, hnodup.of_append_right, hlast⟩
    · refine ⟨next :: walk, hchain.cons_cons hstep, List.nodup_cons.2 ⟨hmem, hnodup⟩, ?_⟩
      rwa [List.getLast?_cons_cons]

/-- A list that is not simple has a shortest beginning that is not. -/
theorem exists_first_repetition {l : List α} (h : ¬ l.Nodup) :
    ∃ walk last rest, l = walk ++ last :: rest ∧ walk.Nodup ∧ last ∈ walk := by
  induction l using List.reverseRecOn with
  | nil => exact absurd List.nodup_nil h
  | append_singleton l x ih =>
    by_cases hnodup : l.Nodup
    · refine ⟨l, x, [], rfl, hnodup, ?_⟩
      by_contra hmem
      exact h (List.nodup_append'.2 ⟨hnodup, List.nodup_singleton x,
        List.disjoint_singleton.2 hmem⟩)
    · obtain ⟨walk, last, rest, rfl, hwalk, hlast⟩ := ih hnodup
      exact ⟨walk, last, rest ++ [x], by simp, hwalk, hlast⟩

theorem reflTransGen_of_walk {walk : List α} (h : (walk ++ [b]).IsChain R)
    (hfirst : a ∈ (walk ++ [b]).head?) : ReflTransGen R a b := by
  induction walk generalizing a with
  | nil =>
    cases hfirst
    exact .refl
  | cons first walk ih =>
    cases hfirst
    obtain ⟨hstep, hrest⟩ := List.isChain_cons.1 h
    obtain ⟨next, hnext⟩ : ∃ next, next ∈ (walk ++ [b]).head? := by cases walk <;> exact ⟨_, rfl⟩
    exact .head (hstep next hnext) (ih hrest hnext)

/-- A walk goes on with one more step from where it ends. -/
theorem isChain_concat {walk : List α} (h : walk.IsChain R) (hlast : a ∈ walk.getLast?) (hstep : R a b) :
    (walk ++ [b]).IsChain R := by
  refine h.append (.singleton b) fun x hx y hy => ?_
  obtain rfl := Option.mem_unique hx hlast
  cases hy
  exact hstep

/-- What is one step from a place that can be reached ends a walk that comes by no place twice before. -/
theorem exists_walk_iff : (∃ walk, a ∈ walk.head? ∧ (walk ++ [b]).IsChain R ∧ walk.Nodup) ↔
    ∃ outer, ReflTransGen R a outer ∧ R outer b := by
  constructor
  · rintro ⟨walk, hfirst, hchain, -⟩
    obtain ⟨before, outer, rfl⟩ := (List.eq_nil_or_concat' walk).resolve_left
      (List.ne_nil_of_mem (List.mem_of_mem_head? hfirst))
    have hreach := reflTransGen_of_walk hchain.left_of_append hfirst
    rw [List.append_assoc] at hchain
    exact ⟨outer, hreach, (List.isChain_cons_cons.1 hchain.right_of_append).1⟩
  · rintro ⟨outer, hreach, hstep⟩
    obtain ⟨walk, hchain, hnodup, hlast⟩ := exists_simple_walk hreach
    exact ⟨a :: walk, rfl, isChain_concat hchain hlast hstep, hnodup⟩

/-- A cycle can be reached if and only if a walk comes by a place again. -/
theorem exists_closed_walk_iff :
    (∃ walk last, a ∈ walk.head? ∧ (walk ++ [last]).IsChain R ∧ walk.Nodup ∧ last ∈ walk) ↔
      ∃ b, ReflTransGen R a b ∧ TransGen R b b := by
  constructor
  · rintro ⟨walk, last, hfirst, hchain, -, hlast⟩
    -- The walk is cut where it comes by its end for the first time.
    obtain ⟨before, after, rfl⟩ := List.append_of_mem hlast
    have hthere : (before ++ [last]).IsChain R := by
      have hwalk := hchain.left_of_append
      rw [List.append_cons] at hwalk
      exact hwalk.left_of_append
    have hfirst' : a ∈ (before ++ [last]).head? := by cases before <;> exact hfirst
    rw [List.append_assoc] at hchain
    obtain ⟨hstep, hrest⟩ := List.isChain_cons.1 hchain.right_of_append
    obtain ⟨next, hnext⟩ : ∃ next, next ∈ (after ++ [last]).head? := by cases after <;> exact ⟨_, rfl⟩
    exact ⟨last, reflTransGen_of_walk hthere hfirst',
      .head' (hstep next hnext) (reflTransGen_of_walk hrest hnext)⟩
  · rintro ⟨b, hreach, hcycle⟩
    obtain ⟨next, hstep, hback⟩ := TransGen.head'_iff.1 hcycle
    obtain ⟨there, hthere, -, htheres⟩ := exists_simple_walk hreach
    obtain ⟨around, haround, -, harounds⟩ := exists_simple_walk hback
    have hchain : ((a :: there) ++ (next :: around)).IsChain R := by
      refine hthere.append haround fun x hx y hy => ?_
      obtain rfl := Option.mem_unique hx htheres
      cases hy
      exact hstep
    -- The way there and the way around meet, and what comes before the first repetition is a walk.
    have hrepeats : ¬ ((a :: there) ++ (next :: around)).Nodup := fun hnodup =>
      List.disjoint_of_nodup_append hnodup (List.mem_of_mem_getLast? htheres)
        (List.mem_of_mem_getLast? harounds)
    obtain ⟨walk, last, rest, heq, hwalk, hlast⟩ := exists_first_repetition hrepeats
    obtain ⟨first, walk, rfl⟩ := List.exists_cons_of_ne_nil (List.ne_nil_of_mem hlast)
    obtain rfl : a = first := (List.cons.inj heq).1
    rw [heq, List.append_cons] at hchain
    exact ⟨a :: walk, last, rfl, hchain.left_of_append, hwalk, hlast⟩

end Walks

/-! ## Where a spread leads -/

namespace Fragment

/-- What is found under a spread inside the fragments of a trail: there is no fragment of the name, or it
is on the trail, or else what is found under the spreads of that fragment. -/
inductive Leads (known : List Fragment) : List String → String → Finding → Prop where
  | unknown {trail : List String} {name : String} :
      find? name known = none → Leads known trail name (.unknownSpread name)
  | cycle {trail : List String} {name : String} {f : Fragment} :
      find? name known = some f → name ∈ trail →
        Leads known trail name (.spreadCycle (trail ++ [name]))
  | opened {trail : List String} {name inner : String} {f : Fragment} {finding : Finding} :
      find? name known = some f → name ∉ trail → inner ∈ Entry.spreadsAll f.entries →
        Leads known (trail ++ [name]) inner finding → Leads known trail name finding

variable {known : List Fragment} {trail : List String} {name last : String} {finding : Finding}

theorem leads_iff_of_find?_eq_none (hfind : find? name known = none) :
    Leads known trail name finding ↔ finding = .unknownSpread name := by
  constructor
  · intro h
    cases h with
    | unknown => rfl
    | cycle hfind' => cases hfind.symm.trans hfind'
    | opened hfind' => cases hfind.symm.trans hfind'
  · rintro rfl
    exact .unknown hfind

theorem leads_iff_of_mem {f : Fragment} (hfind : find? name known = some f) (hmem : name ∈ trail) :
    Leads known trail name finding ↔ finding = .spreadCycle (trail ++ [name]) := by
  constructor
  · intro h
    cases h with
    | unknown hfind' => cases hfind.symm.trans hfind'
    | cycle => rfl
    | opened _ hnot => exact absurd hmem hnot
  · rintro rfl
    exact .cycle hfind hmem

theorem leads_iff_of_not_mem {f : Fragment} (hfind : find? name known = some f) (hmem : name ∉ trail) :
    Leads known trail name finding ↔
      ∃ inner ∈ Entry.spreadsAll f.entries, Leads known (trail ++ [name]) inner finding := by
  constructor
  · intro h
    cases h with
    | unknown hfind' => cases hfind.symm.trans hfind'
    | cycle _ hmem' => exact absurd hmem' hmem
    | opened hfind' _ hinner h =>
      cases hfind.symm.trans hfind'
      exact ⟨_, hinner, h⟩
  · rintro ⟨inner, hinner, h⟩
    exact .opened hfind hmem hinner h

/-- What a walk comes to at its last step: a name that no fragment has, or one that it came by before. -/
def Ends (known : List Fragment) (walk : List String) (last : String) (finding : Finding) : Prop :=
  find? last known = none ∧ finding = .unknownSpread last ∨
    last ∈ walk ∧ finding = .spreadCycle (walk ++ [last])

theorem exists_of_spreads {other : String} (h : Spreads known name other) :
    ∃ f, find? name known = some f ∧ other ∈ Entry.spreadsAll f.entries := by
  rw [Spreads, spreadsOf] at h
  cases hfind : find? name known with
  | none =>
    rw [hfind] at h
    cases h
  | some f =>
    rw [hfind] at h
    exact ⟨f, rfl, h⟩

/-- What is on a walk but its last name is known. -/
theorem exists_find?_of_mem_walk {walk : List String}
    (h : (walk ++ [last]).IsChain (Spreads known)) (hname : name ∈ walk) :
    ∃ f, find? name known = some f := by
  obtain ⟨before, after, rfl⟩ := List.append_of_mem hname
  rw [List.append_assoc, List.cons_append] at h
  have hnext := List.isChain_cons.1 h.right_of_append
  obtain ⟨next, rest, hrest⟩ := List.exists_cons_of_ne_nil
    (List.append_ne_nil_of_right_ne_nil after (List.cons_ne_nil last []))
  obtain ⟨f, hf, -⟩ := exists_of_spreads (hnext.1 next (by rw [hrest]; rfl))
  exact ⟨f, hf⟩

/-- What a spread leads to stands at the end of a simple walk that goes on from its trail. -/
theorem Leads.exists_walk (h : Leads known trail name finding)
    (htrail : (trail ++ [name]).IsChain (Spreads known)) (hnodup : trail.Nodup) :
    ∃ more last, (trail ++ more ++ [last]).IsChain (Spreads known) ∧ (trail ++ more).Nodup ∧
      Ends known (trail ++ more) last finding := by
  induction h with
  | @unknown trail name hfind =>
    refine ⟨[], name, ?_⟩
    rw [List.append_nil]
    exact ⟨htrail, hnodup, .inl ⟨hfind, rfl⟩⟩
  | @cycle trail name f hfind hmem =>
    refine ⟨[], name, ?_⟩
    rw [List.append_nil]
    exact ⟨htrail, hnodup, .inr ⟨hmem, rfl⟩⟩
  | @opened trail name inner f finding hfind hmem hinner _ ih =>
    have hstep : (trail ++ [name] ++ [inner]).IsChain (Spreads known) :=
      isChain_concat htrail List.getLast?_concat (spreads_of_mem hfind hinner)
    obtain ⟨more, last, hchain, hsimple, hends⟩ :=
      ih hstep (List.nodup_append'.2 ⟨hnodup, List.nodup_singleton name,
        List.disjoint_singleton.2 hmem⟩)
    rw [List.append_assoc trail [name] more] at hchain hsimple hends
    exact ⟨[name] ++ more, last, hchain, hsimple, hends⟩

/-- A spread leads to what stands at the end of every simple walk that goes on from its trail. -/
theorem leads_of_walk (more : List String)
    (hchain : (trail ++ more ++ [last]).IsChain (Spreads known)) (hsimple : (trail ++ more).Nodup)
    (hends : Ends known (trail ++ more) last finding) (hname : name ∈ (more ++ [last]).head?) :
    Leads known trail name finding := by
  -- Along the walk, which goes over to the trail one fragment at a time.
  induction more generalizing trail name with
  | nil =>
    obtain rfl : last = name := Option.some.inj hname
    rw [List.append_nil] at hchain hends
    rcases hends with ⟨hfind, rfl⟩ | ⟨hmem, rfl⟩
    · exact .unknown hfind
    · obtain ⟨f, hf⟩ := exists_find?_of_mem_walk hchain hmem
      exact .cycle hf hmem
  | cons first more ih =>
    obtain rfl : first = name := Option.some.inj hname
    have hmem : first ∉ trail := fun hmem =>
      List.disjoint_of_nodup_append hsimple hmem List.mem_cons_self
    obtain ⟨next, rest, hnext⟩ := List.exists_cons_of_ne_nil
      (List.append_ne_nil_of_right_ne_nil more (List.cons_ne_nil last []))
    have hspreads : Spreads known first next := by
      rw [List.append_assoc, List.cons_append, hnext] at hchain
      exact (List.isChain_cons_cons.1 hchain.right_of_append).1
    obtain ⟨f, hf, hinner⟩ := exists_of_spreads hspreads
    rw [List.append_cons trail first more] at hchain hsimple hends
    exact .opened hf hmem hinner (ih hchain hsimple hends (by rw [hnext]; rfl))

/-- What the spreads of a fragment lead to stands at the ends of the simple walks from it. -/
theorem leads_iff_walk {first : String} :
    (∃ name, Spreads known first name ∧ Leads known [first] name finding) ↔
      ∃ walk last, first ∈ walk.head? ∧ (walk ++ [last]).IsChain (Spreads known) ∧ walk.Nodup ∧
        Ends known walk last finding := by
  constructor
  · rintro ⟨name, hspreads, hleads⟩
    obtain ⟨more, last, hchain, hsimple, hends⟩ :=
      hleads.exists_walk (.cons_cons hspreads (.singleton name)) (List.nodup_singleton first)
    exact ⟨[first] ++ more, last, rfl, hchain, hsimple, hends⟩
  · rintro ⟨walk, last, hfirst, hchain, hsimple, hends⟩
    obtain ⟨more, rfl⟩ := List.head?_eq_some_iff.1 hfirst
    obtain ⟨next, rest, hnext⟩ := List.exists_cons_of_ne_nil
      (List.append_ne_nil_of_right_ne_nil more (List.cons_ne_nil last []))
    refine ⟨next, ?_, leads_of_walk more hchain hsimple hends (by rw [hnext]; rfl)⟩
    rw [List.cons_append, hnext] at hchain
    exact (List.isChain_cons_cons.1 hchain).1

end Fragment

end FragmentShapes
