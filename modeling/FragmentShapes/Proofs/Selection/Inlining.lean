import FragmentShapes.Proofs.Document.Entries
import FragmentShapes.Proofs.Selection.Coincidence
import FragmentShapes.Proofs.Selection.Cycles

/-!
# Spreads as text

Without a schema the use of a fragment comes to the same as its entries written out. `Entry.Inlines` says
what entries are with every spread written out, those in the entries that it names too. Resolution opens a
spread on the level where it meets it, after it has told fields from conditions and before it puts fields of
one name together; what it comes to is the same as if no spread had been there. Main statement:
`Fragment.resolve_inlined`.
-/

namespace FragmentShapes

open Relation (ReflTransGen TransGen)

/-! ## What is found without a schema -/

/-- Reporting once leaves findings out and adds none. -/
theorem Finding.reportOnce_sublist (reported : List String) (findings : List Finding) :
    (reportOnce reported findings).Sublist findings := by
  induction findings generalizing reported with
  | nil => exact .slnil
  | cons finding findings ih =>
    cases finding with
    | unknownType type =>
      rw [reportOnce]
      split_ifs
      · exact (ih _).cons _
      · exact (ih _).cons_cons _
    | _ => exact (ih _).cons_cons _

/-- Nothing but spreads is noted. -/
def Noted.OfSpreads {α : Type} (noted : Noted α) : Prop := ∀ finding ∈ noted.findings, finding.IsOfSpread

namespace Noted

theorem OfSpreads.pure {α : Type} (value : α) : (Pure.pure value : Noted α).OfSpreads := nofun

theorem OfSpreads.bind {α β : Type} {noted : Noted α} {next : α → Noted β} (h : noted.OfSpreads)
    (hnext : (next noted.value).OfSpreads) : (noted >>= next).OfSpreads :=
  List.forall_mem_append.2 ⟨h, hnext⟩

theorem OfSpreads.note {finding : Finding} (h : finding.IsOfSpread) : (Noted.note finding).OfSpreads :=
  List.forall_mem_singleton.2 h

end Noted

namespace Selection

variable {c : Context} {below : Below} {parent : Option String}

mutual

theorem expandNode_ofSpreads (c : Context) (parent : Option String) :
    ∀ node : Node, (expandNode c parent node).OfSpreads
  | .field head children => .pure _
  | .condition on label children => by
    rw [expandNode]
    split_ifs
    · exact expand_ofSpreads c parent children
    · exact .pure _
  | .group children => expand_ofSpreads c parent children
  | .opened fragment onType body => by
    rw [expandNode]
    split_ifs
    · exact .pure _
    · exact expandNode_ofSpreads c parent (body ())
  | .cycle chain => .bind (.note trivial) (.pure _)
  | .unknown fragment => .bind (.note trivial) (.pure _)

theorem expand_ofSpreads (c : Context) (parent : Option String) :
    ∀ nodes : List Node, (expand c parent nodes).OfSpreads
  | [] => .pure _
  | node :: nodes => .bind (expandNode_ofSpreads c parent node) (.bind (expand_ofSpreads c parent nodes)
      (.pure _))

end

mutual

theorem settleNode_ofSpreads (c : Context) (parent : Option String) :
    ∀ node : Node, (settleNode c parent node).OfSpreads
  | .field head children => .pure _
  | .condition on label children => by
    rw [settleNode]
    split_ifs
    · exact settle_ofSpreads c parent children
    · exact .bind (expand_ofSpreads c parent children) (settle_ofSpreads c parent children)
    · exact .pure _
  | .group children => settle_ofSpreads c parent children
  | .opened fragment onType body => settleNode_ofSpreads c parent (body ())
  | .cycle chain => .pure _
  | .unknown fragment => .pure _

theorem settle_ofSpreads (c : Context) (parent : Option String) :
    ∀ nodes : List Node, (settle c parent nodes).OfSpreads
  | [] => .pure _
  | node :: nodes => .bind (settleNode_ofSpreads c parent node) (.bind (settle_ofSpreads c parent nodes)
      (.pure _))

end

theorem resolveField_ofSpreads (hc : c.schema = none)
    (hbelow : ∀ parent nodes, (below parent nodes).OfSpreads) (parent : Option String) (name : String)
    (uses : List FieldUse) : (resolveField c below parent name uses).OfSpreads := by
  have hlook : lookUp c parent name = pure none := by simp [lookUp, hc]
  have hchildren (parent : Option String) (children : List Node) :
      (resolveChildren below parent children).OfSpreads := by
    rw [resolveChildren]
    split_ifs
    · exact .pure _
    · exact .bind (hbelow _ _) (.pure _)
  have homitted : isOmitted c parent = false := by simp [isOmitted, hc]
  rw [resolveField]
  by_cases hname : name = typenameField
  · rw [if_pos hname]
    exact .bind (hchildren _ _) (.pure _)
  · rw [if_neg hname, hlook, homitted]
    refine .bind (.pure _) ?_
    exact .bind (hchildren _ _) (.pure _)

theorem resolveFields_ofSpreads (hc : c.schema = none)
    (hbelow : ∀ parent nodes, (below parent nodes).OfSpreads) (parent : Option String)
    (groups : KeyedList (List FieldUse)) : (resolveFields c below parent groups).OfSpreads := by
  induction groups with
  | nil => exact .pure _
  | cons group groups ih =>
    exact .bind (resolveField_ofSpreads hc hbelow parent group.1 group.2) (.bind ih (.pure _))

theorem resolveVariants_ofSpreads (hbelow : ∀ parent nodes, (below parent nodes).OfSpreads)
    (groups : KeyedList (List (List Node))) : (resolveVariants below groups).OfSpreads := by
  induction groups with
  | nil => exact .pure _
  | cons group groups ih => exact .bind (hbelow _ _) (.bind ih (.pure _))

/-- Without a schema resolution finds nothing but spreads that open to nothing. -/
theorem resolveWithin_ofSpreads (hc : c.schema = none) (levels : Nat) (parent : Option String)
    (nodes : List Node) : (resolveWithin c levels parent nodes).OfSpreads := by
  induction levels generalizing parent nodes with
  | zero => exact .pure _
  | succ levels ih =>
    rw [resolveWithin, resolveLevel]
    refine .bind (expand_ofSpreads c parent nodes) ?_
    split_ifs
    · exact .bind (resolveFields_ofSpreads hc ih _ _) (.bind (resolveVariants_ofSpreads ih _) (.pure _))
    · exact .bind (settle_ofSpreads c parent nodes) (.bind (resolveFields_ofSpreads hc ih _ _) (.pure _))

end Selection

/-! ## Entries with spreads written out -/

/-- The second entries are the first ones with every spread written out: in its place stand the entries of
the known fragment that it names, with their spreads written out in turn. -/
inductive Entry.Inlines (known : List Fragment) : List Entry → List Entry → Prop where
  | nil : Inlines known [] []
  | field {head : FieldHead} {selection selection' entries entries' : List Entry} :
      Inlines known selection selection' → Inlines known entries entries' →
        Inlines known (.field head selection :: entries) (.field head selection' :: entries')
  | condition {on : String} {label : Option String} {selection selection' entries entries' : List Entry} :
      Inlines known selection selection' → Inlines known entries entries' →
        Inlines known (.condition on label selection :: entries) (.condition on label selection' :: entries')
  | group {selection selection' entries entries' : List Entry} :
      Inlines known selection selection' → Inlines known entries entries' →
        Inlines known (.group selection :: entries) (.group selection' :: entries')
  | spread {name : String} {g : Fragment} {body entries entries' : List Entry} :
      Fragment.find? name known = some g → Inlines known g.entries body → Inlines known entries entries' →
        Inlines known (.spread name :: entries) (body ++ entries')

namespace Entry

variable {known : List Fragment} {entries entries' entries'' : List Entry}

theorem Inlines.unique (h : Inlines known entries entries') (h' : Inlines known entries entries'') :
    entries' = entries'' := by
  induction h generalizing entries'' with
  | nil =>
    cases h'
    rfl
  | field _ _ ihselection ih =>
    cases h' with
    | field hselection' h' => rw [ihselection hselection', ih h']
  | condition _ _ ihselection ih =>
    cases h' with
    | condition hselection' h' => rw [ihselection hselection', ih h']
  | group _ _ ihselection ih =>
    cases h' with
    | group hselection' h' => rw [ihselection hselection', ih h']
  | spread hfind _ _ ihbody ih =>
    cases h' with
    | spread hfind' hbody' h' =>
      cases hfind.symm.trans hfind'
      rw [ihbody hbody', ih h']

/-- Entries can be written out if the fragments that they spread can. -/
theorem exists_inlines : ∀ entries : List Entry, (∀ name ∈ spreadsAll entries,
    ∃ g body, Fragment.find? name known = some g ∧ Inlines known g.entries body) →
      ∃ entries', Inlines known entries entries'
  | [], _ => ⟨[], .nil⟩
  | .field head selection :: entries, h => by
    rw [spreadsAll, spreads, List.forall_mem_append] at h
    obtain ⟨selection', hselection⟩ := exists_inlines selection h.1
    obtain ⟨entries', hentries⟩ := exists_inlines entries h.2
    exact ⟨_, .field hselection hentries⟩
  | .spread name :: entries, h => by
    rw [spreadsAll, spreads, List.forall_mem_append, List.forall_mem_singleton] at h
    obtain ⟨g, body, hfind, hbody⟩ := h.1
    obtain ⟨entries', hentries⟩ := exists_inlines entries h.2
    exact ⟨_, .spread hfind hbody hentries⟩
  | .condition on label selection :: entries, h => by
    rw [spreadsAll, spreads, List.forall_mem_append] at h
    obtain ⟨selection', hselection⟩ := exists_inlines selection h.1
    obtain ⟨entries', hentries⟩ := exists_inlines entries h.2
    exact ⟨_, .condition hselection hentries⟩
  | .group selection :: entries, h => by
    rw [spreadsAll, spreads, List.forall_mem_append] at h
    obtain ⟨selection', hselection⟩ := exists_inlines selection h.1
    obtain ⟨entries', hentries⟩ := exists_inlines entries h.2
    exact ⟨_, .group hselection hentries⟩

end Entry

namespace Selection

open Entry (Inlines unfoldAll spreadsAll)

variable {c : Context} {known : List Fragment} {entries entries' : List Entry}

/-- Without a schema no level sees around which entries a spread stands. -/
theorem opensTo_opened (hc : c.schema = none) (fragment onType : String) (inner : List Node) :
    OpensTo c (.opened fragment onType fun _ => .group inner) inner := by
  intro parent
  have hnarrows : c.narrows parent onType = false := by simp [Context.narrows, hc]
  constructor
  · rw [expandNode, hnarrows, if_neg Bool.false_ne_true, expandNode]
  · rw [settleNode, settleNode]

/-- Without a schema entries open to rows that coincide with those of the entries written out. -/
theorem coincide_inlines (hc : c.schema = none) (hentries : ∀ g ∈ known, g.entries ≠ [])
    (openSpread : String → Node) (h : Inlines known entries entries') (trail : List String)
    (hspreads : ∀ name ∈ spreadsAll entries,
      Fragment.AcyclicFrom known name ∧ Clear known trail name) :
    Coincide c (unfoldAll (Fragment.openSpread known (unopened known trail) trail) entries)
      (unfoldAll openSpread entries') := by
  -- Along the entries as they are written out; a trail without cycles stays clear of what is spread
  -- below.
  induction h generalizing trail with
  | nil =>
    rw [unfoldAll, unfoldAll]
    exact .refl []
  | field _ _ ihselection ih =>
    rw [spreadsAll, Entry.spreads, List.forall_mem_append] at hspreads
    rw [unfoldAll, unfoldAll, Entry.unfold, Entry.unfold]
    exact (Coincide.field _ (ihselection trail hspreads.1)).cons (ih trail hspreads.2)
  | condition _ _ ihselection ih =>
    rw [spreadsAll, Entry.spreads, List.forall_mem_append] at hspreads
    rw [unfoldAll, unfoldAll, Entry.unfold, Entry.unfold]
    exact (Coincide.condition _ _ (ihselection trail hspreads.1)).cons (ih trail hspreads.2)
  | group _ _ ihselection ih =>
    rw [spreadsAll, Entry.spreads, List.forall_mem_append] at hspreads
    rw [unfoldAll, unfoldAll, Entry.unfold, Entry.unfold]
    exact (Coincide.group (ihselection trail hspreads.1)).cons (ih trail hspreads.2)
  | @spread name g body entries entries' hfind _ _ ihbody ih =>
    rw [spreadsAll, Entry.spreads, List.forall_mem_append, List.forall_mem_singleton] at hspreads
    obtain ⟨⟨hacyclic, hclear⟩, hspreads⟩ := hspreads
    have hbody : ∀ inner ∈ spreadsAll g.entries,
        Fragment.AcyclicFrom known inner ∧ Clear known (trail ++ [name]) inner := by
      intro inner hinner
      have hstep := Fragment.spreads_of_mem hfind hinner
      exact ⟨hacyclic.of_spreads hstep, hclear.step hacyclic hstep⟩
    rw [unfoldAll, Entry.unfold, unfoldAll_append, openSpread_of_find? hfind (hclear name .refl),
      map_node_all]
    refine Coincide.append (.trans (.inline (opensTo_opened hc _ _ _) ?_) (ihbody _ hbody))
      (ih trail hspreads)
    rw [unfoldAll_eq_map]
    exact mt List.map_eq_nil_iff.1 (hentries g (List.mem_of_find?_eq_some hfind))

end Selection

namespace Fragment

open Selection (Clear unopened)

variable {known : List Fragment} {f : Fragment}

/-- All that the name leads to by spreads is known, and none of it leads to itself. -/
def Inlinable (known : List Fragment) (name : String) : Prop :=
  AcyclicFrom known name ∧ ∀ other, ReflTransGen (Spreads known) name other → ∃ g, find? other known = some g

theorem Inlinable.of_spreads {name other : String} (h : Inlinable known name)
    (hspreads : Spreads known name other) : Inlinable known other :=
  ⟨h.1.of_spreads hspreads, fun third hthird => h.2 third (.head hspreads hthird)⟩

/-- The entries of the fragment can be written out. -/
theorem Inlinable.exists_inlines {name : String} {trail : List String} (h : Inlinable known name)
    (hclear : Clear known trail name) :
    ∃ g body, find? name known = some g ∧ Entry.Inlines known g.entries body := by
  -- going into a fragment takes it off those that the trail leaves
  induction hleft : (unopened known trail).length using Nat.strongRecOn generalizing name trail with
  | _ left ih =>
    obtain ⟨g, hfind⟩ := h.2 name .refl
    have hless : (unopened known (trail ++ [name])).length < left := by
      rw [← hleft, ← Selection.without_unopened]
      refine length_without_lt (f := g) ?_
      rw [Selection.find?_unopened, if_neg (hclear name .refl), hfind]
    have hinner : ∀ inner ∈ Entry.spreadsAll g.entries,
        ∃ g body, find? inner known = some g ∧ Entry.Inlines known g.entries body := by
      intro inner hinner
      have hspreads := spreads_of_mem hfind hinner
      exact ih _ hless (h.of_spreads hspreads) (hclear.step h.1 hspreads) rfl
    obtain ⟨body, hbody⟩ := Entry.exists_inlines g.entries hinner
    exact ⟨g, body, hfind, hbody⟩

theorem findings_resolve_eq_nil {c : Selection.Context} (hc : c.schema = none)
    (hfind : find? f.name known = some f) (h : Inlinable known f.name) :
    (f.resolve c known).findings = [] := by
  refine List.eq_nil_iff_forall_not_mem.2 fun finding hfinding => ?_
  have hspread : finding.IsOfSpread := by
    have hown : f.ownFindings c = [] := by simp [ownFindings, hc]
    refine Selection.resolveWithin_ofSpreads hc (f.levels known) (some f.onType) (f.unfold known) finding ?_
    have hmem := (Finding.reportOnce_sublist _ _).subset hfinding
    rwa [hown, List.nil_append] at hmem
  cases finding with
  | unknownSpread name =>
    obtain ⟨⟨outer, hreach, hspreads⟩, hnone⟩ := (unknownSpread_mem_findings_iff hfind hc).1 hfinding
    obtain ⟨g, hg⟩ := h.2 name (hreach.tail hspreads)
    cases hnone.symm.trans hg
  | spreadCycle chain =>
    obtain ⟨name, hreach, hcycle⟩ := (exists_spreadCycle_iff hfind hc).1 ⟨chain, hfinding⟩
    exact h.1 name hreach hcycle
  | _ => exact hspread

/-- Without a schema a fragment resolves to what its entries with every spread written out resolve to, with
nothing found, if no cycle and no unknown fragment can be reached from it. -/
theorem resolve_inlined (hparsed : ∀ g ∈ known, g.OfDocument) (hnames : (known.map (·.name)).Nodup)
    (hf : f ∈ known) (hacyclic : AcyclicFrom known f.name)
    (hknown : ∀ g ∈ known, ReflTransGen (Spreads known) f.name g.name →
      ∀ name ∈ Entry.spreadsAll g.entries, ∃ other ∈ known, other.name = name) :
    ∃ entries, (∀ entries', Entry.Inlines known f.entries entries' ↔ entries' = entries) ∧
      ∀ descriptions known',
        (f.resolve { schema := none, descriptions } known).findings = [] ∧
        Fragment.resolve { schema := none, descriptions } known' { f with entries } =
          f.resolve { schema := none, descriptions } known := by
  have hfind := find?_of_nodup hnames hf
  have hinlinable : Inlinable known f.name := by
    refine ⟨hacyclic, fun other hother => ?_⟩
    rcases hother.cases_tail with rfl | ⟨outer, hreach, hspreads⟩
    · exact ⟨f, hfind⟩
    · obtain ⟨g, hg, hgreach, hname⟩ := (exists_spreads_iff hnames).1 ⟨outer, hreach, hspreads⟩
      obtain ⟨target, htarget, rfl⟩ := hknown g hg hgreach other hname
      exact ⟨target, find?_of_nodup hnames htarget⟩
  have hnil : Clear known [] f.name := fun _ _ => List.not_mem_nil
  obtain ⟨g, entries, hg, hentries⟩ := hinlinable.exists_inlines hnil
  cases hfind.symm.trans hg
  refine ⟨entries, fun entries' => ⟨fun h => h.unique hentries, fun h => h ▸ hentries⟩, ?_⟩
  intro descriptions known'
  refine ⟨findings_resolve_eq_nil rfl hfind hinlinable, ?_⟩
  refine Eq.symm (resolve_eq_of_coincide rfl rfl ?_)
  have hspreads : ∀ name ∈ Entry.spreadsAll f.entries,
      AcyclicFrom known name ∧ Clear known [f.name] name := by
    intro name hname
    have hstep := spreads_of_mem hfind hname
    exact ⟨hacyclic.of_spreads hstep, hnil.step hacyclic hstep⟩
  rw [unfold_eq_nodes, Selection.map_node_all, unfold]
  exact Selection.coincide_inlines rfl (fun g hg => (hparsed g hg).areWritten.1) _ hentries _ hspreads

/-- A fragment that spreads two others, one of which spreads the other as well. -/
def pages : List Fragment :=
  [{ name := "Page"
     onType := "Site"
     entries := [.field { name := "head" } [.spread "Title"], .spread "Body"] },
    { name := "Title", onType := "Part", entries := [.field { name := "text" } []] },
    { name := "Body"
      onType := "Site"
      entries := [.field { name := "head" } [.field { name := "size" } [], .spread "Title"]] }]

theorem pages_ofDocument : ∀ f ∈ pages, f.OfDocument :=
  fun _ hf =>
    ⟨"fragment Page on Site { head { ...Title } ...Body } fragment Title on Part { text }
      fragment Body on Site { head { size ...Title } }", pages,
      by rw [parseDocument_ofList]; decide +kernel, hf⟩

theorem acyclicFrom_pages : AcyclicFrom pages "Page" := by
  have htitle : AcyclicFrom pages "Title" := by
    rw [acyclicFrom_iff, show spreadsOf pages "Title" = [] from rfl]
    exact List.forall_mem_nil _
  have hbody : AcyclicFrom pages "Body" := by
    rw [acyclicFrom_iff, show spreadsOf pages "Body" = ["Title"] from rfl]
    exact List.forall_mem_singleton.2 htitle
  rw [acyclicFrom_iff, show spreadsOf pages "Page" = ["Title", "Body"] from rfl]
  exact List.forall_mem_cons.2 ⟨htitle, List.forall_mem_singleton.2 hbody⟩

/-- What the page selects, written out. -/
theorem resolve_inlined_pages :
    (∀ f ∈ pages, f.OfDocument) ∧ (pages.map (·.name)).Nodup ∧ ∃ f ∈ pages, f.name = "Page" ∧
      (f.resolve { schema := none } pages).findings = [] ∧
      f.resolve { schema := none } pages = Fragment.resolve { schema := none } []
        { f with
          entries :=
            [.field { name := "head" } [.field { name := "text" } []],
              .field { name := "head" } [.field { name := "size" } [], .field { name := "text" } []]] } := by
  have hnames : (pages.map (·.name)).Nodup := by decide
  have hpage : pages.head (by decide) ∈ pages := List.head_mem _
  have hknown : ∀ g ∈ pages, ∀ name ∈ Entry.spreadsAll g.entries, ∃ other ∈ pages, other.name = name := by
    decide
  obtain ⟨entries, hentries, hresolve⟩ := resolve_inlined pages_ofDocument hnames hpage acyclicFrom_pages
    fun g hg _ => hknown g hg
  have htitle {entries entries' : List Entry} (h : Entry.Inlines pages entries entries') :
      Entry.Inlines pages (.spread "Title" :: entries) (.field { name := "text" } [] :: entries') :=
    .spread (g := ⟨"Title", "Part", [.field { name := "text" } []]⟩) rfl (.field .nil .nil) h
  obtain rfl := (hentries _).1 (.field (htitle .nil)
    (.spread rfl (.field (.field .nil (htitle .nil)) .nil) .nil))
  obtain ⟨hfindings, hsame⟩ := hresolve true []
  exact ⟨pages_ofDocument, hnames, _, hpage, rfl, hfindings, hsame.symm⟩

end Fragment

end FragmentShapes
