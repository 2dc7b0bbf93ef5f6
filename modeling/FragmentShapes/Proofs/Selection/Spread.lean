import FragmentShapes.Proofs.Selection.Trail

/-!
# Spreads and conditions

A spread of a fragment against a condition on the fragment's type around the same fields. On an
abstract type, and on the fragment's own, they come to the same. A concrete type decides its conditions,
but takes in the fields of every spread: there a spread comes to what its fields come to, and a condition
to the same only if it holds. Main statement: `Selection.resolveAt_spread`.
-/

namespace FragmentShapes

/-! ## What is reported -/

namespace Finding

/-- How often a finding is reported. -/
def timesReported (reported : List String) (findings : List Finding) : Finding → Nat
  | unknownType type => if type ∈ reported then 0 else min 1 (findings.count (unknownType type))
  | finding => findings.count finding

theorem count_reportOnce (reported : List String) (findings : List Finding) (finding : Finding) :
    (reportOnce reported findings).count finding = timesReported reported findings finding := by
  induction findings generalizing reported with
  | nil => cases finding <;> simp [reportOnce, timesReported]
  | cons first findings ih =>
    cases first with
    | unknownType type =>
      rw [reportOnce]
      split_ifs with hmem <;> rw [List.contains_iff_mem] at hmem
      · rw [ih]
        cases finding with
        | unknownType other => by_cases hother : type = other <;> simp_all [timesReported]
        | _ => simp [timesReported]
      · rw [List.count_cons, ih]
        cases finding with
        | unknownType other =>
          by_cases hother : type = other <;> simp_all [timesReported, Ne.symm]
        | _ => simp [timesReported]
    | _ =>
      rw [reportOnce, List.count_cons, ih]
      · cases finding <;> simp [timesReported, List.count_cons]
      · nofun

/-- The order in which things are found does not matter to what is reported, but for its order. -/
theorem reportOnce_perm {findings findings' : List Finding} (h : findings.Perm findings')
    (reported : List String) : (reportOnce reported findings).Perm (reportOnce reported findings') := by
  refine List.perm_iff_count.2 fun finding => ?_
  rw [count_reportOnce, count_reportOnce]
  cases finding <;> simp only [timesReported, h.count_eq]

end Finding

namespace Selection

variable {c : Context} {below : Below} {parent : Option String}

/-! ## Rows of nodes -/

theorem expand_append (nodes more : List Node) :
    expand c parent (nodes ++ more) =
      ⟨(expand c parent nodes).value ++ (expand c parent more).value,
        (expand c parent nodes).findings ++ (expand c parent more).findings⟩ := by
  induction nodes with
  | nil => rw [List.nil_append, expand]; rfl
  | cons node nodes ih =>
    rw [List.cons_append, expand_cons, ih, expand_cons, List.append_assoc, List.append_assoc]

theorem settle_append (nodes more : List Node) :
    settle c parent (nodes ++ more) =
      ⟨(settle c parent nodes).value ++ (settle c parent more).value,
        (settle c parent nodes).findings ++ (settle c parent more).findings⟩ := by
  induction nodes with
  | nil => rw [List.nil_append, settle]; rfl
  | cons node nodes ih =>
    rw [List.cons_append, settle_cons, ih, settle_cons, List.append_assoc, List.append_assoc]

theorem expand_singleton (node : Node) : expand c parent [node] = expandNode c parent node := by
  rw [expand_cons, expand, value_pure, List.append_nil]
  change (⟨_, _ ++ []⟩ : Noted _) = _
  rw [List.append_nil]

theorem settle_singleton (node : Node) : settle c parent [node] = settleNode c parent node := by
  rw [settle_cons, settle, value_pure, List.append_nil]
  change (⟨_, _ ++ []⟩ : Noted _) = _
  rw [List.append_nil]

/-! ## Levels with the same items -/

/-- A level is resolved by what its nodes expand to. -/
theorem resolveLevel_congr {nodes nodes' : List Node}
    (h : expand c parent nodes = expand c parent nodes') :
    resolveLevel c below parent nodes = resolveLevel c below parent nodes' := by
  cases hopen : (expand c parent nodes).value.any Item.isConditional && c.isPolymorphic parent with
  | true => rw [resolveLevel_eq_of_open hopen, resolveLevel_eq_of_open (h ▸ hopen), h]
  | false =>
    have hdecided : (expand c parent nodes).value.any Item.isConditional = true →
        c.isPolymorphic parent = false := by
      intro hany
      rwa [hany, Bool.true_and] at hopen
    rw [resolveLevel_eq_of_decided hopen, resolveLevel_eq_of_decided (h ▸ hopen),
      settle_eq nodes hdecided, settle_eq nodes' (h ▸ hdecided), h]

/-- The nodes expand to the same on levels of every type. -/
def Alike (c : Context) (nodes nodes' : List Node) : Prop :=
  ∀ parent, expand c parent nodes = expand c parent nodes'

theorem alike_group (nodes : List Node) : Alike c [.group nodes] nodes := by
  intro parent
  rw [expand_singleton, expandNode]

theorem Alike.flatten {lists lists' : List (List Node)} (h : List.Forall₂ (Alike c) lists lists') :
    Alike c lists.flatten lists'.flatten := by
  intro parent
  induction h with
  | nil => rfl
  | cons hnodes _ ih =>
    rw [List.flatten_cons, List.flatten_cons, expand_append, expand_append, hnodes, ih]

theorem Alike.resolveWithin_eq {nodes nodes' : List Node} (h : Alike c nodes nodes') (levels : Nat)
    (parent : Option String) :
    resolveWithin c levels parent nodes = resolveWithin c levels parent nodes' := by
  cases levels with
  | zero => rfl
  | succ levels => exact resolveLevel_congr (h parent)

/-! ## Levels with conditions around the same fields -/

/-- The same field, or conditions on the same type around nodes that expand to the same. -/
inductive Item.Like (c : Context) : Item → Item → Prop where
  | field (head : FieldHead) (children : List Node) :
      Like c (.field head children) (.field head children)
  | condition (on : String) {children children' : List Node} :
      Alike c children children' → Like c (.condition on children) (.condition on children')

theorem Item.Like.refl (c : Context) : ∀ item : Item, item.Like c item
  | .field head children => .field head children
  | .condition on _ => .condition on fun _ => rfl

variable {items items' : List Item}

theorem forall₂_like_refl (items : List Item) : List.Forall₂ (Item.Like c) items items :=
  List.forall₂_same.2 fun item _ => .refl c item

theorem any_isConditional_of_like (h : List.Forall₂ (Item.Like c) items items') :
    items.any Item.isConditional = items'.any Item.isConditional := by
  induction h with
  | nil => rfl
  | cons hitem _ ih => cases hitem <;> simp [Item.isConditional, ih]

theorem fieldUses_of_like (h : List.Forall₂ (Item.Like c) items items') :
    fieldUses items = fieldUses items' := by
  induction h with
  | nil => rfl
  | cons hitem _ ih =>
    cases hitem with
    | field head children => exact congrArg ((head, children) :: ·) ih
    | condition => exact ih

theorem eq_of_like (h : List.Forall₂ (Item.Like c) items items')
    (hnone : items.any Item.isConditional = false) : items = items' := by
  induction h with
  | nil => rfl
  | cons hitem _ ih =>
    rw [List.any_cons, Bool.or_eq_false_iff] at hnone
    cases hitem with
    | field => rw [ih hnone.2]
    | condition => cases hnone.1

/-- The nodes under the conditions of two levels, by concrete type. -/
abbrev GroupsAlike (c : Context) :
    KeyedList (List (List Node)) → KeyedList (List (List Node)) → Prop :=
  List.Forall₂ fun group group' => group.1 = group'.1 ∧ List.Forall₂ (Alike c) group.2 group'.2

theorem variantGroups_of_like (parent : Option String) (h : List.Forall₂ (Item.Like c) items items') :
    GroupsAlike c (variantGroups c parent items) (variantGroups c parent items') := by
  refine KeyedList.forall₂_groupPairs ?_
  induction h with
  | nil => exact .nil
  | cons hitem _ ih =>
    rw [List.flatMap_cons, List.flatMap_cons]
    refine List.rel_append ?_ ih
    cases hitem with
    | field => exact .nil
    | condition on hchildren =>
      rw [List.forall₂_map_left_iff, List.forall₂_map_right_iff]
      exact List.forall₂_same.2 fun type _ => ⟨rfl, hchildren⟩

theorem resolveVariants_of_alike {groups groups' : KeyedList (List (List Node))}
    (h : GroupsAlike c groups groups') (levels : Nat) :
    resolveVariants (resolveWithin c levels) groups = resolveVariants (resolveWithin c levels) groups' := by
  induction h with
  | nil => rfl
  | @cons group group' _ _ hgroup _ ih =>
    obtain ⟨type, children⟩ := group
    obtain ⟨type', children'⟩ := group'
    obtain ⟨rfl, hchildren⟩ := hgroup
    rw [resolveVariants, resolveVariants, (Alike.flatten hchildren).resolveWithin_eq, ih]

/-- Where conditions stay open, levels come to the same if their items are alike and the same was found
on the way to them. -/
theorem resolveLevel_of_like {nodes nodes' : List Node} (hopen : c.isPolymorphic parent = true)
    (hitems : List.Forall₂ (Item.Like c) (expand c parent nodes).value
      (expand c parent nodes').value)
    (hfindings : (expand c parent nodes).findings = (expand c parent nodes').findings) (levels : Nat) :
    resolveLevel c (resolveWithin c levels) parent nodes =
      resolveLevel c (resolveWithin c levels) parent nodes' := by
  have hany := any_isConditional_of_like hitems
  cases hconditional : (expand c parent nodes).value.any Item.isConditional with
  | true =>
    rw [resolveLevel_eq_of_open (by rw [hconditional, hopen]; rfl),
      resolveLevel_eq_of_open (by rw [← hany, hconditional, hopen]; rfl), fieldUses_of_like hitems,
      resolveVariants_of_alike (variantGroups_of_like parent hitems), hfindings]
  | false =>
    have hvalue := eq_of_like hitems hconditional
    refine resolveLevel_congr ?_
    calc expand c parent nodes
        = ⟨(expand c parent nodes).value, (expand c parent nodes).findings⟩ := rfl
      _ = ⟨(expand c parent nodes').value, (expand c parent nodes').findings⟩ := by
        rw [hvalue, hfindings]

/-! ## Spots on a level -/

/-- What can stand around nodes of a level without giving them a level of their own. -/
inductive Frame where
  | group
  | condition (on : String) (label : Option String)
  | opened (fragment onType : String)

namespace Frame

def wrap : Frame → List Node → Node
  | group, nodes => .group nodes
  | condition on label, nodes => .condition on label nodes
  | opened fragment onType, nodes => .opened fragment onType fun _ => .group nodes

/-- What stands inside belongs to the level: the frame is a group, a condition that says nothing or that
a concrete type decides, or a spread that does not narrow the type. -/
def OnLevel (c : Context) (parent : Option String) : Frame → Prop
  | group => True
  | condition on label => Context.isVoid parent on label = true ∨ c.isPolymorphic parent = false
  | opened _ onType => c.narrows parent onType = false

end Frame

/-- A spot for one node on a level, with all that stands around it. -/
inductive Spot where
  | here (before after : List Node)
  | inside (before : List Node) (frame : Frame) (inner : Spot) (after : List Node)

namespace Spot

/-- The nodes of the level with a node put in the spot. -/
def plug : Spot → Node → List Node
  | here before after, node => before ++ node :: after
  | inside before frame inner after, node => before ++ frame.wrap (inner.plug node) :: after

/-- The spot is on the level itself: nothing on the way to it gives what stands inside a level of its
own. -/
def OnLevel (c : Context) (parent : Option String) : Spot → Prop
  | here .. => True
  | inside _ frame inner _ => frame.OnLevel c parent ∧ inner.OnLevel c parent

variable {spot : Spot} {node node' : Node}

/-- What a relation says of two nodes it says of the level with either of them in a spot, if it goes
through rows and frames. -/
theorem rel_plug {R : List Node → List Node → Prop} (hspot : spot.OnLevel c parent)
    (hrow : ∀ before after {node node'}, R [node] [node'] →
      R (before ++ node :: after) (before ++ node' :: after))
    (hframe : ∀ frame : Frame, frame.OnLevel c parent → ∀ {nodes nodes'}, R nodes nodes' →
      R [frame.wrap nodes] [frame.wrap nodes'])
    (h : R [node] [node']) : R (spot.plug node) (spot.plug node') := by
  induction spot with
  | here before after => exact hrow before after h
  | inside before frame inner after ih =>
    exact hrow before after (hframe frame hspot.1 (ih hspot.2))

end Spot

/-- A frame on a level is not seen, or is a condition that the level decides. -/
theorem Frame.OnLevel.cases {frame : Frame} (h : frame.OnLevel c parent) :
    (∀ nodes, expandNode c parent (frame.wrap nodes) = expand c parent nodes ∧
      settleNode c parent (frame.wrap nodes) = settle c parent nodes) ∨
    c.isPolymorphic parent = false ∧ ∃ on label, Context.isVoid parent on label = false ∧
      frame = condition on label := by
  cases frame with
  | group =>
    refine .inl fun nodes => ?_
    rw [wrap, expandNode, settleNode]
    exact ⟨rfl, rfl⟩
  | opened fragment onType =>
    have hnarrows : c.narrows parent onType = false := h
    refine .inl fun nodes => ?_
    rw [wrap, expandNode, settleNode, hnarrows, expandNode, settleNode]
    exact ⟨rfl, rfl⟩
  | condition on label =>
    cases hvoid : Context.isVoid parent on label with
    | true =>
      refine .inl fun nodes => ?_
      rw [wrap, expandNode, settleNode, if_pos hvoid, if_pos hvoid]
      exact ⟨rfl, rfl⟩
    | false => exact .inr ⟨h.resolve_left (by simp [hvoid]), on, label, hvoid, rfl⟩

theorem expandNode_condition {on : String} {label : Option String}
    (hvoid : Context.isVoid parent on label = false) (nodes : List Node) :
    expandNode c parent (.condition on label nodes) = ⟨[.condition on nodes], []⟩ := by
  rw [expandNode, hvoid]
  rfl

theorem settleNode_condition {on : String} {label : Option String}
    (hvoid : Context.isVoid parent on label = false) (nodes : List Node) :
    settleNode c parent (.condition on label nodes) =
      if c.applies parent on then
        ⟨(settle c parent nodes).value,
          (expand c parent nodes).findings ++ (settle c parent nodes).findings⟩
      else ⟨[], []⟩ := by
  rw [settleNode, hvoid]
  rfl

theorem expand_row (before : List Node) (node : Node) (after : List Node) :
    expand c parent (before ++ node :: after) =
      ⟨(expand c parent before).value ++ ((expand c parent [node]).value ++ (expand c parent after).value),
        (expand c parent before).findings ++
          ((expand c parent [node]).findings ++ (expand c parent after).findings)⟩ := by
  rw [expand_append, ← List.singleton_append, expand_append]

theorem settle_row (before : List Node) (node : Node) (after : List Node) :
    settle c parent (before ++ node :: after) =
      ⟨(settle c parent before).value ++ ((settle c parent [node]).value ++ (settle c parent after).value),
        (settle c parent before).findings ++
          ((settle c parent [node]).findings ++ (settle c parent after).findings)⟩ := by
  rw [settle_append, ← List.singleton_append, settle_append]

/-! ## Three ways of being the same on a level -/

/-- Where conditions stay open: the same items, up to how the nodes under conditions are written. -/
structure OpenLike (c : Context) (parent : Option String) (nodes nodes' : List Node) : Prop where
  items : List.Forall₂ (Item.Like c) (expand c parent nodes).value (expand c parent nodes').value
  findings : (expand c parent nodes).findings = (expand c parent nodes').findings

/-- Where conditions are decided: the same fields, and the same found at the same time. -/
structure DecidedSame (c : Context) (parent : Option String) (nodes nodes' : List Node) : Prop where
  expanded : (expand c parent nodes).findings = (expand c parent nodes').findings
  settled : settle c parent nodes = settle c parent nodes'

/-- Where conditions are decided: the same fields, and the same found sooner or later. -/
structure DecidedLike (c : Context) (parent : Option String) (nodes nodes' : List Node) : Prop where
  uses : (settle c parent nodes).value = (settle c parent nodes').value
  findings : ((expand c parent nodes).findings ++ (settle c parent nodes).findings).Perm
    ((expand c parent nodes').findings ++ (settle c parent nodes').findings)

variable {spot : Spot} {node node' : Node}

theorem OpenLike.plug (hopen : c.isPolymorphic parent = true) (hspot : spot.OnLevel c parent)
    (h : OpenLike c parent [node] [node']) : OpenLike c parent (spot.plug node) (spot.plug node') := by
  refine Spot.rel_plug hspot (fun before after _ _ h => ?_) (fun frame hframe nodes nodes' h => ?_) h
  · constructor
    · rw [expand_row, expand_row]
      exact List.rel_append (forall₂_like_refl _) (List.rel_append h.items (forall₂_like_refl _))
    · rw [expand_row, expand_row, h.findings]
  · obtain hsame | ⟨hdecided, -⟩ := hframe.cases
    · constructor <;> rw [expand_singleton, expand_singleton, (hsame nodes).1, (hsame nodes').1]
      exacts [h.items, h.findings]
    · cases hopen.symm.trans hdecided

theorem DecidedSame.plug (hspot : spot.OnLevel c parent) (h : DecidedSame c parent [node] [node']) :
    DecidedSame c parent (spot.plug node) (spot.plug node') := by
  refine Spot.rel_plug hspot (fun before after _ _ h => ?_) (fun frame hframe nodes nodes' h => ?_) h
  · constructor
    · rw [expand_row, expand_row, h.expanded]
    · rw [settle_row, settle_row, h.settled]
  · constructor <;> simp only [expand_singleton, settle_singleton]
    all_goals obtain hsame | ⟨-, on, label, hvoid, rfl⟩ := hframe.cases
    · rw [(hsame nodes).1, (hsame nodes').1, h.expanded]
    · rw [Frame.wrap, Frame.wrap, expandNode_condition hvoid, expandNode_condition hvoid]
    · rw [(hsame nodes).2, (hsame nodes').2, h.settled]
    · rw [Frame.wrap, Frame.wrap, settleNode_condition hvoid, settleNode_condition hvoid, h.expanded,
        h.settled]

theorem DecidedLike.plug (hspot : spot.OnLevel c parent) (h : DecidedLike c parent [node] [node']) :
    DecidedLike c parent (spot.plug node) (spot.plug node') := by
  refine Spot.rel_plug hspot (fun before after _ _ h => ?_) (fun frame hframe nodes nodes' h => ?_) h
  · constructor
    · rw [settle_row, settle_row, h.uses]
    · rw [expand_row, expand_row, settle_row, settle_row]
      refine List.perm_iff_count.2 fun finding => ?_
      have hcount := h.findings.count_eq finding
      simp only [List.count_append] at hcount ⊢
      omega
  · obtain hsame | ⟨-, on, label, hvoid, rfl⟩ := hframe.cases
    · constructor <;> simp only [expand_singleton, settle_singleton, hsame]
      exacts [h.uses, h.findings]
    · constructor <;>
        simp only [expand_singleton, settle_singleton, Frame.wrap, expandNode_condition hvoid,
          settleNode_condition hvoid]
      -- a condition that does not hold adds nothing, whatever stands under it
      all_goals split_ifs
      exacts [h.uses, rfl, h.findings, .refl _]

/-! ## The level of a spread -/

theorem OpenLike.resolveWithin_eq (hopen : c.isPolymorphic parent = true) {nodes nodes' : List Node}
    (h : OpenLike c parent nodes nodes') (levels : Nat) :
    resolveWithin c levels parent nodes = resolveWithin c levels parent nodes' := by
  cases levels with
  | zero => rfl
  | succ levels => exact resolveLevel_of_like hopen h.items h.findings levels

theorem DecidedSame.resolveWithin_eq (hdecided : c.isPolymorphic parent = false)
    {nodes nodes' : List Node} (h : DecidedSame c parent nodes nodes') (levels : Nat) :
    resolveWithin c levels parent nodes = resolveWithin c levels parent nodes' := by
  cases levels with
  | zero => rfl
  | succ levels =>
    rw [resolveWithin, resolveWithin, resolveLevel_eq_of_decided (by rw [hdecided, Bool.and_false]),
      resolveLevel_eq_of_decided (by rw [hdecided, Bool.and_false]), h.expanded, h.settled]

theorem DecidedLike.resolveWithin_perm (hdecided : c.isPolymorphic parent = false)
    {nodes nodes' : List Node} (h : DecidedLike c parent nodes nodes') (levels : Nat) :
    (resolveWithin c levels parent nodes).value = (resolveWithin c levels parent nodes').value ∧
      (resolveWithin c levels parent nodes).findings.Perm
        (resolveWithin c levels parent nodes').findings := by
  cases levels with
  | zero => exact ⟨rfl, .refl _⟩
  | succ levels =>
    rw [resolveWithin, resolveWithin, resolveLevel_eq_of_decided (by rw [hdecided, Bool.and_false]),
      resolveLevel_eq_of_decided (by rw [hdecided, Bool.and_false]), h.uses]
    refine ⟨rfl, ?_⟩
    dsimp only
    rw [← List.append_assoc, ← List.append_assoc]
    exact h.findings.append_right _

/-! ## A spread against a condition around the same nodes -/

variable {s : Schema} {type onType : String}

theorem narrows_self (c : Context) (type : String) : c.narrows (some type) type = false := by
  simp [Context.narrows]

theorem narrows_of_decided (hdecided : c.isPolymorphic parent = false) (onType : String) :
    c.narrows parent onType = false := by
  rw [Context.narrows, hdecided, Bool.and_false]

theorem isVoid_self (type : String) : Context.isVoid (some type) type none = true := by
  simp [Context.isVoid]

theorem isVoid_of_ne (h : onType ≠ type) : Context.isVoid (some type) onType none = false := by
  simp [Context.isVoid, h.symm]

variable {fragment : String} {nodes : List Node}

theorem expandNode_opened (h : c.narrows parent onType = false) :
    expandNode c parent (.opened fragment onType fun _ => .group nodes) = expand c parent nodes := by
  rw [expandNode, h, expandNode]
  rfl

theorem settleNode_opened :
    settleNode c parent (.opened fragment onType fun _ => .group nodes) = settle c parent nodes := by
  rw [settleNode, settleNode]

/-- Where conditions stay open, a spread is a condition on the type of its fragment. -/
theorem openLike_opened (hc : c.schema = some s) (hon : s.hasType onType = true)
    (hopen : c.isPolymorphic (some type) = true) :
    OpenLike c (some type) [.opened fragment onType fun _ => .group nodes]
      [.condition onType none nodes] := by
  by_cases hself : onType = type
  · subst hself
    constructor <;>
      rw [expand_singleton, expand_singleton, expandNode_opened (narrows_self c onType), expandNode,
        if_pos (isVoid_self onType)]
    exact forall₂_like_refl _
  · have hnarrows : c.narrows (some type) onType = true := by
      simp [Context.narrows, hc, hon, hopen, Ne.symm hself]
    constructor <;>
      rw [expand_singleton, expand_singleton, expandNode_condition (isVoid_of_ne hself), expandNode,
        if_pos hnarrows]
    · exact .cons (.condition onType (alike_group nodes)) .nil
    · rfl

/-- Where conditions are decided, a spread is the fields of its fragment. -/
theorem decidedSame_opened_group (hdecided : c.isPolymorphic parent = false) :
    DecidedSame c parent [.opened fragment onType fun _ => .group nodes] [.group nodes] := by
  constructor
  · rw [expand_singleton, expand_singleton, expandNode_opened (narrows_of_decided hdecided onType),
      expandNode]
  · rw [settle_singleton, settle_singleton, settleNode_opened, settleNode]

/-- A spread of a fragment on the level's own type is a condition on it. -/
theorem decidedSame_opened_self :
    DecidedSame c (some type) [.opened fragment type fun _ => .group nodes]
      [.condition type none nodes] := by
  constructor
  · rw [expand_singleton, expand_singleton, expandNode_opened (narrows_self c type), expandNode,
      if_pos (isVoid_self type)]
  · rw [settle_singleton, settle_singleton, settleNode_opened, settleNode, if_pos (isVoid_self type)]

/-- Where conditions are decided, a spread is a condition that holds, but for the time at which the level
under it is opened. -/
theorem decidedLike_opened (hdecided : c.isPolymorphic (some type) = false) (hself : onType ≠ type)
    (happlies : c.applies (some type) onType = true) :
    DecidedLike c (some type) [.opened fragment onType fun _ => .group nodes]
      [.condition onType none nodes] := by
  constructor <;>
    simp only [expand_singleton, settle_singleton, settleNode_opened,
      expandNode_condition (isVoid_of_ne hself), expandNode_opened (narrows_of_decided hdecided onType),
      settleNode_condition (isVoid_of_ne hself), if_pos happlies]
  exact .refl _

/-! ## Spreads and conditions -/

open Fragment

variable {known : List Fragment} {f : Fragment} {trail : List String}

/-- A spread of an acyclic fragment opens to the entries of the fragment as they would stand in its
place. -/
theorem node_spread (hf : find? f.name known = some f) (hacyclic : AcyclicFrom known f.name)
    (hled : Occurrence.IsLed known ⟨.spread f.name, trail⟩) :
    Occurrence.node known ⟨.spread f.name, trail⟩ =
      .opened f.name f.onType fun _ => .group
        (Entry.unfoldAll (openSpread known (unopened known trail) trail) f.entries) := by
  have hclear : Clear known trail f.name := fun other hother hmem =>
    hacyclic other hother (.trans_left (hled f.name (List.mem_singleton.2 rfl) other hmem) hother)
  have hbody : Entry.unfoldAll
        (openSpread known (unopened known (trail ++ [f.name])) (trail ++ [f.name])) f.entries =
      Entry.unfoldAll (openSpread known (unopened known trail) trail) f.entries := by
    refine unfoldAll_congr f.entries fun name hname => ?_
    have hspreads := spreads_of_mem hf hname
    exact openSpread_eq (hacyclic.of_spreads hspreads) (hclear.step hacyclic hspreads)
      fun other hother => hclear other (.head hspreads hother)
  rw [Occurrence.node, Entry.unfold, openSpread_of_find? hf (hclear _ .refl), map_node_all, hbody]

/-- What a level on a type comes to with an entry in one of its spots. -/
def resolveAt (c : Context) (known : List Fragment) (levels : Nat) (type : String) (spot : Spot)
    (trail : List String) (entry : Entry) : Noted Selection :=
  resolveWithin c levels (some type) (spot.plug (Occurrence.node known ⟨entry, trail⟩))

/-- Where conditions stay open, and on the type of the fragment, a spread comes to what a condition on the
fragment's type comes to. -/
theorem resolveAt_spread_eq_condition (hc : c.schema = some s) (hon : s.hasType f.onType = true)
    (hf : find? f.name known = some f) (hacyclic : AcyclicFrom known f.name)
    (hled : Occurrence.IsLed known ⟨.spread f.name, trail⟩) (hspot : spot.OnLevel c (some type))
    (h : c.isPolymorphic (some type) = true ∨ f.onType = type) (levels : Nat) :
    resolveAt c known levels type spot trail (.spread f.name) =
      resolveAt c known levels type spot trail (.condition f.onType none f.entries) := by
  rw [resolveAt, resolveAt, node_spread hf hacyclic hled, Occurrence.node, Entry.unfold]
  cases hopen : c.isPolymorphic (some type) with
  | true => exact ((openLike_opened hc hon hopen).plug hopen hspot).resolveWithin_eq hopen levels
  | false =>
    rw [h.resolve_left (by rw [hopen]; exact Bool.false_ne_true)]
    exact (decidedSame_opened_self.plug hspot).resolveWithin_eq hopen levels

/-- Where conditions are decided, a spread comes to what the entries of the fragment come to. -/
theorem resolveAt_spread_eq_group (hf : find? f.name known = some f)
    (hacyclic : AcyclicFrom known f.name) (hled : Occurrence.IsLed known ⟨.spread f.name, trail⟩)
    (hspot : spot.OnLevel c (some type)) (hdecided : c.isPolymorphic (some type) = false)
    (levels : Nat) :
    resolveAt c known levels type spot trail (.spread f.name) =
      resolveAt c known levels type spot trail (.group f.entries) := by
  rw [resolveAt, resolveAt, node_spread hf hacyclic hled, Occurrence.node, Entry.unfold]
  exact ((decidedSame_opened_group hdecided).plug hspot).resolveWithin_eq hdecided levels

/-- Where conditions are decided, a spread comes to what a condition that holds comes to, but for the order
of what is found. -/
theorem resolveAt_spread_like_condition (hf : find? f.name known = some f)
    (hacyclic : AcyclicFrom known f.name) (hled : Occurrence.IsLed known ⟨.spread f.name, trail⟩)
    (hspot : spot.OnLevel c (some type)) (hdecided : c.isPolymorphic (some type) = false)
    (hself : f.onType ≠ type) (happlies : c.applies (some type) f.onType = true) (levels : Nat) :
    (resolveAt c known levels type spot trail (.spread f.name)).value =
        (resolveAt c known levels type spot trail (.condition f.onType none f.entries)).value ∧
      (resolveAt c known levels type spot trail (.spread f.name)).findings.Perm
        (resolveAt c known levels type spot trail (.condition f.onType none f.entries)).findings := by
  rw [resolveAt, resolveAt, node_spread hf hacyclic hled, Occurrence.node, Entry.unfold]
  exact ((decidedLike_opened hdecided hself happlies).plug hspot).resolveWithin_perm hdecided levels

/-- A spread of an acyclic fragment on a level of a type that the schema has, inside of fragments that lead
to it, as those of every spread in a run do (`opening_isLed`). On an abstract type, and on the type of the
fragment, it comes to what a condition on the fragment's type comes to. On a concrete type it comes to what
the entries of the fragment come to; a condition that holds there has the same fields, and the run reports
the same with it, but for the order. -/
theorem resolveAt_spread (hc : c.schema = some s) (htype : s.hasType type = true)
    (hf : find? f.name known = some f) (hon : s.hasType f.onType = true)
    (hacyclic : AcyclicFrom known f.name) (hled : Occurrence.IsLed known ⟨.spread f.name, trail⟩)
    (hspot : spot.OnLevel c (some type)) (levels : Nat) :
    let spread := resolveAt c known levels type spot trail (.spread f.name)
    let condition := resolveAt c known levels type spot trail (.condition f.onType none f.entries)
    (s.isAbstract type = true ∨ f.onType = type → spread = condition) ∧
      (s.isAbstract type = false →
        spread = resolveAt c known levels type spot trail (.group f.entries)) ∧
      (s.admits type f.onType = true →
        spread.value = condition.value ∧
          ∀ before after, (Finding.reportOnce [] (before ++ spread.findings ++ after)).Perm
            (Finding.reportOnce [] (before ++ condition.findings ++ after))) := by
  rw [← isPolymorphic_eq hc htype, ← applies_eq_admits hc hon]
  have hsame (h : c.isPolymorphic (some type) = true ∨ f.onType = type) :=
    resolveAt_spread_eq_condition hc hon hf hacyclic hled hspot h levels
  refine ⟨hsame, fun hdecided => ?_, fun happlies => ?_⟩
  · exact resolveAt_spread_eq_group hf hacyclic hled hspot hdecided levels
  · by_cases h : c.isPolymorphic (some type) = true ∨ f.onType = type
    · rw [hsame h]
      exact ⟨rfl, fun before after => .refl _⟩
    · rw [not_or, Bool.not_eq_true] at h
      obtain ⟨hvalue, hfindings⟩ :=
        resolveAt_spread_like_condition hf hacyclic hled hspot h.1 h.2 happlies levels
      exact ⟨hvalue, fun before after =>
        Finding.reportOnce_perm ((hfindings.append_left before).append_right after) []⟩

/-- A name for every pet that has one. -/
def namedPet : Fragment where
  name := "Name"
  onType := "Named"
  entries := [.field { name := "name" } []]

/-- On a cat, which has a name, it makes no difference how the name is asked for. -/
theorem resolveAt_spread_cat :
    let c : Context := { schema := some Schema.pets }
    let card : Fragment := { name := "Card", onType := "Cat", entries := [.spread "Name"] }
    let resolve := resolveAt c [card, namedPet] 2 "Cat" (.here [] []) ["Card"]
    ((Schema.pets.hasType "Cat" = true ∧ Schema.pets.hasType "Named" = true) ∧
      AcyclicFrom [card, namedPet] "Name" ∧
      Occurrence.IsLed [card, namedPet] ⟨.spread "Name", ["Card"]⟩ ∧
      Schema.pets.isAbstract "Cat" = false ∧ Schema.pets.admits "Cat" "Named" = true) ∧
    (resolve (.spread "Name")).value = (resolve (.condition "Named" none namedPet.entries)).value ∧
    resolve (.spread "Name") = resolve (.group namedPet.entries) := by
  intro c card resolve
  have hacyclic : AcyclicFrom [card, namedPet] "Name" :=
    acyclicFrom_iff.2 fun other hother => absurd hother List.not_mem_nil
  have hcard : find? card.name [card, namedPet] = some card := rfl
  have hled : Occurrence.IsLed [card, namedPet] ⟨.spread "Name", ["Card"]⟩ :=
    isLed_start hcard _ List.mem_cons_self
  have hcat : Schema.pets.hasType "Cat" = true := by decide
  have hnamed : Schema.pets.hasType namedPet.onType = true := by decide
  have hfind : find? namedPet.name [card, namedPet] = some namedPet := rfl
  have hspot : (Spot.here [] []).OnLevel c (some "Cat") := trivial
  have h := resolveAt_spread (s := Schema.pets) rfl hcat hfind hnamed hacyclic hled hspot 2
  have hadmits : Schema.pets.admits "Cat" "Named" = true := by decide
  have habstract : Schema.pets.isAbstract "Cat" = false := by decide
  exact ⟨⟨⟨hcat, hnamed⟩, hacyclic, hled, habstract, hadmits⟩, (h.2.2 hadmits).1, h.2.1 habstract⟩

end Selection

/-! ## Where they differ -/

/-- The name of a dog. -/
def Fragment.bark : Fragment where
  name := "Bark"
  onType := "Dog"
  entries := [.field { name := "name" } []]

/-- What every pet has around its neck. -/
def Fragment.collar : Fragment where
  name := "Collar"
  onType := "Named"
  entries := [.spread "Tag"]

/-- A fragment on a cat. -/
def Fragment.cat (entries : List Entry) : Fragment where
  name := "Card"
  onType := "Cat"
  entries := entries

/-- A cat gets the name of a dog by a spread, but not by a condition. Of two unknown fragments the one in
the spread is reported first, the one in the condition last. -/
theorem Fragment.resolve_spread_ne_condition :
    let c : Selection.Context := { schema := some Schema.pets }
    let resolve (entries : List Entry) := (cat entries).resolve c [cat entries, bark, collar]
    (Schema.pets.hasType "Cat" = true ∧ Schema.pets.hasType bark.onType = true ∧
      Schema.pets.hasType collar.onType = true) ∧
    (∀ entries, AcyclicFrom [cat entries, bark, collar] "Bark" ∧
      AcyclicFrom [cat entries, bark, collar] "Collar") ∧
    ((resolve [.spread "Bark"]).selection.names = ["name"] ∧
      (resolve [.condition "Dog" none bark.entries]).selection.names = []) ∧
    ((resolve [.spread "Collar", .spread "Leash"]).findings =
        [.unknownSpread "Tag", .unknownSpread "Leash"] ∧
      (resolve [.condition "Named" none collar.entries, .spread "Leash"]).findings =
        [.unknownSpread "Leash", .unknownSpread "Tag"]) := by
  intro c resolve
  refine ⟨⟨by decide, by decide, by decide⟩, fun entries => ⟨?_, ?_⟩, ⟨by decide +kernel, by decide +kernel⟩, by decide +kernel, by decide +kernel⟩
  · exact acyclicFrom_iff.2 fun other hother => absurd hother List.not_mem_nil
  · refine acyclicFrom_iff.2 fun other hother => acyclicFrom_iff.2 fun third hthird => ?_
    obtain rfl : other = "Tag" := List.mem_singleton.1 hother
    exact absurd hthird List.not_mem_nil

end FragmentShapes
