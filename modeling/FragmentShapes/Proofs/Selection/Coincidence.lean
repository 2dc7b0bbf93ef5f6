import FragmentShapes.Proofs.Selection.Spread
import FragmentShapes.Proofs.Selection.Typename

/-!
# Rows that come to the same

A selection can be written in several ways that come to the same on every level, with the same found in
the same order. `Selection.Coincide` is generated by two of them: fields of one name that stand in one run
of fields, joined or apart, and nodes that no level sees around what stands inside of them. It goes through
rows and nodes. Main statements: `Selection.Coincide.resolveWithin_eq` and
`Fragment.resolve_eq_of_coincide`.
-/

namespace FragmentShapes

/-- What two uses of a field say of it: of type and deprecation, the first that one of them states. -/
def FieldHead.join (first second : FieldHead) : FieldHead :=
  { first with
    declaredType := first.declaredType.or second.declaredType
    deprecation := first.deprecation.or second.deprecation }

namespace Selection

variable {c : Context} {below : Below} {parent : Option String}

/-! ## Uses by name -/

/-- The uses of a name. -/
def usesOf (name : String) (uses : List FieldUse) : List FieldUse := uses.filter (·.1.name = name)

/-- The uses of all names come to the same: the names first appear in the same order, the same is stated
first about each, and the nodes under the uses of each are related. -/
structure UsesLike (R : List Node → List Node → Prop) (uses uses' : List FieldUse) : Prop where
  names : (uses.map (·.1.name)).eraseDups = (uses'.map (·.1.name)).eraseDups
  declaredType : ∀ name, (usesOf name uses).findSome? (·.1.declaredType) =
    (usesOf name uses').findSome? (·.1.declaredType)
  deprecation : ∀ name, (usesOf name uses).findSome? (·.1.deprecation) =
    (usesOf name uses').findSome? (·.1.deprecation)
  children : ∀ name, R ((usesOf name uses).flatMap (·.2)) ((usesOf name uses').flatMap (·.2))

section UsesLike

variable {R : List Node → List Node → Prop} {uses uses' uses'' more more' : List FieldUse}

theorem UsesLike.refl (hR : ∀ nodes, R nodes nodes) (uses : List FieldUse) : UsesLike R uses uses where
  names := rfl
  declaredType _ := rfl
  deprecation _ := rfl
  children _ := hR _

theorem UsesLike.trans (hR : ∀ {first second third}, R first second → R second third → R first third)
    (h : UsesLike R uses uses') (h' : UsesLike R uses' uses'') : UsesLike R uses uses'' where
  names := h.names.trans h'.names
  declaredType name := (h.declaredType name).trans (h'.declaredType name)
  deprecation name := (h.deprecation name).trans (h'.deprecation name)
  children name := hR (h.children name) (h'.children name)

theorem UsesLike.append
    (hR : ∀ {nodes nodes' more more'}, R nodes nodes' → R more more' → R (nodes ++ more) (nodes' ++ more'))
    (h : UsesLike R uses uses') (hmore : UsesLike R more more') :
    UsesLike R (uses ++ more) (uses' ++ more') where
  names := by
    rw [List.map_append, List.map_append]
    exact KeyedList.eraseDups_append_congr h.names hmore.names
  declaredType name := by
    simp only [usesOf, List.filter_append, List.findSome?_append]
    exact congrArg₂ Option.or (h.declaredType name) (hmore.declaredType name)
  deprecation name := by
    simp only [usesOf, List.filter_append, List.findSome?_append]
    exact congrArg₂ Option.or (h.deprecation name) (hmore.deprecation name)
  children name := by
    simp only [usesOf, List.filter_append, List.flatMap_append]
    exact hR (h.children name) (hmore.children name)

theorem usesOf_cons (name : String) (use : FieldUse) (uses : List FieldUse) :
    usesOf name (use :: uses) = if use.1.name = name then use :: usesOf name uses else usesOf name uses := by
  rw [usesOf, List.filter_cons]
  by_cases hname : use.1.name = name <;> simp [hname, usesOf]

theorem usesOf_eq_nil {name : String} (h : ∀ use ∈ uses, use.1.name ≠ name) : usesOf name uses = [] :=
  List.filter_eq_nil_iff.2 fun use huse hname => h use huse (of_decide_eq_true hname)

theorem UsesLike.single (hnil : R [] []) {head : FieldHead} {children children' : List Node}
    (h : R children children') : UsesLike R [(head, children)] [(head, children')] where
  names := rfl
  declaredType name := by
    rw [usesOf_cons, usesOf_cons]
    split_ifs <;> rfl
  deprecation name := by
    rw [usesOf_cons, usesOf_cons]
    split_ifs <;> rfl
  children name := by
    rw [usesOf_cons, usesOf_cons]
    split_ifs
    · simpa [usesOf] using h
    · exact hnil

/-- Only the uses of one name need a look where those of all others are the same. -/
theorem UsesLike.of_usesOf_eq (hR : ∀ nodes, R nodes nodes) (name : String)
    (hother : ∀ other, name ≠ other → usesOf other uses = usesOf other uses')
    (hnames : (uses.map (·.1.name)).eraseDups = (uses'.map (·.1.name)).eraseDups)
    (hdeclared : (usesOf name uses).findSome? (·.1.declaredType) =
      (usesOf name uses').findSome? (·.1.declaredType))
    (hdeprecation : (usesOf name uses).findSome? (·.1.deprecation) =
      (usesOf name uses').findSome? (·.1.deprecation))
    (hchildren : R ((usesOf name uses).flatMap (·.2)) ((usesOf name uses').flatMap (·.2))) :
    UsesLike R uses uses' where
  names := hnames
  declaredType other := by
    by_cases hne : name = other
    · exact hne ▸ hdeclared
    · rw [hother other hne]
  deprecation other := by
    by_cases hne : name = other
    · exact hne ▸ hdeprecation
    · rw [hother other hne]
  children other := by
    by_cases hne : name = other
    · exact hne ▸ hchildren
    · rw [hother other hne]
      exact hR _

/-- The second use of a name can be joined to the first, past uses of other names. -/
theorem UsesLike.join (hR : ∀ nodes, R nodes nodes) {head head' : FieldHead}
    {children children' : List Node} (hname : head.name = head'.name)
    (hbetween : ∀ use ∈ uses, use.1.name ≠ head.name) :
    UsesLike R ((head, children) :: (uses ++ [(head', children')]))
      ((head.join head', children ++ children') :: uses) := by
  have hjoin : (head.join head').name = head.name := rfl
  have hnone : usesOf head.name uses = [] := usesOf_eq_nil hbetween
  -- of the joined name there are the two uses against the one, of any other name the same uses
  have hsame : usesOf head.name ((head, children) :: (uses ++ [(head', children')])) =
      [(head, children), (head', children')] := by
    rw [usesOf_cons, if_pos rfl, usesOf, List.filter_append, ← usesOf, hnone]
    simp [hname]
  have hjoined : usesOf head.name ((head.join head', children ++ children') :: uses) =
      [(head.join head', children ++ children')] := by
    rw [usesOf_cons, if_pos hjoin, hnone]
  refine UsesLike.of_usesOf_eq hR head.name (fun name hne => ?_) ?_ ?_ ?_ ?_
  · rw [usesOf_cons, usesOf_cons, if_neg hne, if_neg (hjoin ▸ hne), usesOf, List.filter_append, ← usesOf]
    simp [← hname, hne]
  · have hlast : [head'.name].removeAll (head.name :: uses.map (·.1.name)) = [] := by
      simp [List.removeAll, hname]
    have hnames : (head.name :: (uses.map (·.1.name) ++ [head'.name])).eraseDups =
        (head.name :: uses.map (·.1.name)).eraseDups := by
      rw [← List.cons_append, List.eraseDups_append, hlast, List.eraseDups_nil, List.append_nil]
    simpa [hjoin] using hnames
  · rw [hsame, hjoined]
    cases hdeclared : head.declaredType <;> simp [FieldHead.join, hdeclared]
  · rw [hsame, hjoined]
    cases hdeprecation : head.deprecation <;> simp [FieldHead.join, hdeprecation]
  · rw [hsame, hjoined]
    simpa using hR (children ++ children')

end UsesLike

theorem fieldGroups_eq (uses : List FieldUse) :
    fieldGroups uses = KeyedList.tabulate (uses.map (·.1.name)).eraseDups (usesOf · uses) := by
  have hvalues : KeyedList.valuesOf (uses.map fun use => (use.1.name, use)) = (usesOf · uses) := by
    funext name
    simp [KeyedList.valuesOf, usesOf, List.filter_map, Function.comp_def]
  rw [fieldGroups, KeyedList.groupPairs_eq, hvalues, List.map_map]
  rfl

/-! ## Rows that coincide -/

/-- The fields as nodes. -/
def fieldNodes (uses : List FieldUse) : List Node := uses.map fun use => .field use.1 use.2

/-- On every level the node comes to what the inner nodes come to. -/
def OpensTo (c : Context) (node : Node) (inner : List Node) : Prop :=
  ∀ parent, expandNode c parent node = expand c parent inner ∧
    settleNode c parent node = settle c parent inner

/-- The second row comes to what the first one comes to. -/
inductive Coincide (c : Context) : List Node → List Node → Prop where
  | refl (nodes : List Node) : Coincide c nodes nodes
  | trans {first second third : List Node} : Coincide c first second → Coincide c second third →
      Coincide c first third
  | append {nodes nodes' more more' : List Node} : Coincide c nodes nodes' → Coincide c more more' →
      Coincide c (nodes ++ more) (nodes' ++ more')
  | field (head : FieldHead) {children children' : List Node} : Coincide c children children' →
      Coincide c [.field head children] [.field head children']
  | condition (on : String) (label : Option String) {children children' : List Node} :
      Coincide c children children' →
        Coincide c [.condition on label children] [.condition on label children']
  | group {children children' : List Node} : Coincide c children children' →
      Coincide c [.group children] [.group children']
  | opened (fragment onType : String) {body body' : Unit → Node} : Coincide c [body ()] [body' ()] →
      Coincide c [.opened fragment onType body] [.opened fragment onType body']
  /-- A field may stand with an earlier one of its name, if only fields of other names are between. -/
  | join {head head' : FieldHead} {children children' : List Node} {between : List FieldUse} :
      head.name = head'.name → (∀ use ∈ between, use.1.name ≠ head.name) →
        Coincide c (fieldNodes ((head, children) :: (between ++ [(head', children')])))
          (fieldNodes ((head.join head', children ++ children') :: between))
  /-- What stands inside of a node that no level sees may stand in its place, if there is any. -/
  | inline {node : Node} {inner : List Node} : OpensTo c node inner → inner ≠ [] →
      Coincide c [node] inner

variable {nodes nodes' : List Node}

theorem Coincide.cons {node node' : Node} (hnode : Coincide c [node] [node'])
    (hnodes : Coincide c nodes nodes') : Coincide c (node :: nodes) (node' :: nodes') :=
  hnode.append hnodes

theorem Coincide.isEmpty_eq (h : Coincide c nodes nodes') : nodes.isEmpty = nodes'.isEmpty := by
  induction h with
  | trans _ _ ih ih' => exact ih.trans ih'
  | @append nodes nodes' more more' _ _ ih ihmore =>
    have happend (nodes more : List Node) : (nodes ++ more).isEmpty = (nodes.isEmpty && more.isEmpty) := by
      cases nodes <;> rfl
    rw [happend, happend, ih, ihmore]
  | inline _ hinner => rw [List.isEmpty_eq_false_iff.2 hinner, List.isEmpty_cons]
  | _ => rfl

theorem Coincide.flatten {rows rows' : List (List Node)} (h : List.Forall₂ (Coincide c) rows rows') :
    Coincide c rows.flatten rows'.flatten := by
  induction h with
  | nil => exact .refl _
  | cons hrow _ ih => exact hrow.append ih

theorem unfoldAll_append (openSpread : String → Node) (entries more : List Entry) :
    Entry.unfoldAll openSpread (entries ++ more) =
      Entry.unfoldAll openSpread entries ++ Entry.unfoldAll openSpread more := by
  rw [unfoldAll_eq_map, unfoldAll_eq_map, unfoldAll_eq_map, List.map_append]

/-! ## What a level opens to -/

/-- The conditions of a level, each with what stands under it. -/
def conditions (items : List Item) : List (String × List Node) :=
  items.filterMap fun
    | .field .. => none
    | .condition on children => some (on, children)

/-- The same stands before two rows that coincide. -/
abbrev RowsAlike (c : Context) (labelled labelled' : String × List Node) : Prop :=
  labelled.1 = labelled'.1 ∧ Coincide c labelled.2 labelled'.2

theorem rowsAlike_trans {first second third : List (String × List Node)}
    (h : List.Forall₂ (RowsAlike c) first second) (h' : List.Forall₂ (RowsAlike c) second third) :
    List.Forall₂ (RowsAlike c) first third := by
  induction h generalizing third with
  | nil => exact h'
  | cons hrow _ ih =>
    obtain ⟨row'', rows'', hrow', hrows', rfl⟩ := List.forall₂_cons_left_iff.1 h'
    exact .cons ⟨hrow.1.trans hrow'.1, hrow.2.trans hrow'.2⟩ (ih hrows')

/-- On a level the rows open to fields that come to the same and to the same conditions around rows that
coincide, and the same is found. -/
structure ExpandAlike (c : Context) (parent : Option String) (nodes nodes' : List Node) : Prop where
  uses : UsesLike (Coincide c) (fieldUses (expand c parent nodes).value)
    (fieldUses (expand c parent nodes').value)
  conditions : List.Forall₂ (RowsAlike c) (conditions (expand c parent nodes).value)
    (conditions (expand c parent nodes').value)
  findings : (expand c parent nodes).findings = (expand c parent nodes').findings

theorem expand_fieldNodes (uses : List FieldUse) :
    expand c parent (fieldNodes uses) = ⟨uses.map fun use => .field use.1 use.2, []⟩ := by
  induction uses with
  | nil =>
    rw [fieldNodes, List.map_nil, expand]
    rfl
  | cons use uses ih =>
    have hcons : fieldNodes (use :: uses) = .field use.1 use.2 :: fieldNodes uses := rfl
    rw [hcons, expand_cons, ih, expandNode]
    rfl

theorem settle_fieldNodes (uses : List FieldUse) :
    settle c parent (fieldNodes uses) = ⟨uses, []⟩ := by
  induction uses with
  | nil =>
    rw [fieldNodes, List.map_nil, settle]
    rfl
  | cons use uses ih =>
    have hcons : fieldNodes (use :: uses) = .field use.1 use.2 :: fieldNodes uses := rfl
    rw [hcons, settle_cons, ih, settleNode]
    rfl

theorem expandAlike_fieldNodes {uses uses' : List FieldUse} (h : UsesLike (Coincide c) uses uses') :
    ExpandAlike c parent (fieldNodes uses) (fieldNodes uses') := by
  have huses (uses : List FieldUse) : fieldUses (uses.map fun use => .field use.1 use.2) = uses := by
    simp [fieldUses, List.filterMap_map]
  have hnone (uses : List FieldUse) :
      Selection.conditions (uses.map fun use => .field use.1 use.2) = [] := by
    simp [Selection.conditions]
  constructor
  · rw [expand_fieldNodes, expand_fieldNodes, huses, huses]
    exact h
  · rw [expand_fieldNodes, expand_fieldNodes, hnone, hnone]
    exact .nil
  · rw [expand_fieldNodes, expand_fieldNodes]

theorem ExpandAlike.refl (nodes : List Node) : ExpandAlike c parent nodes nodes where
  uses := .refl .refl _
  conditions := List.forall₂_same.2 fun _ _ => ⟨rfl, .refl _⟩
  findings := rfl

theorem ExpandAlike.of_eq {inner inner' : List Node}
    (h : expand c parent nodes = expand c parent inner)
    (h' : expand c parent nodes' = expand c parent inner') (halike : ExpandAlike c parent inner inner') :
    ExpandAlike c parent nodes nodes' := by
  obtain ⟨huses, hconditions, hfindings⟩ := halike
  constructor <;> rw [h, h']
  exacts [huses, hconditions, hfindings]

theorem expandAlike_conditions (on : String) {children children' : List Node}
    (hnodes : expand c parent nodes = ⟨[.condition on children], []⟩)
    (hnodes' : expand c parent nodes' = ⟨[.condition on children'], []⟩)
    (h : Coincide c children children') : ExpandAlike c parent nodes nodes' := by
  constructor <;> rw [hnodes, hnodes']
  · exact .refl .refl []
  · exact .cons ⟨rfl, h⟩ .nil

/-- Rows that coincide open to the same on every level. -/
theorem Coincide.expandAlike (h : Coincide c nodes nodes') (parent : Option String) :
    ExpandAlike c parent nodes nodes' := by
  induction h with
  | refl nodes => exact .refl nodes
  | trans _ _ ih ih' =>
    constructor
    · exact ih.uses.trans .trans ih'.uses
    · exact rowsAlike_trans ih.conditions ih'.conditions
    · exact ih.findings.trans ih'.findings
  | append _ _ ih ihmore =>
    constructor <;> rw [expand_append, expand_append]
    · rw [fieldUses, List.filterMap_append, fieldUses, List.filterMap_append]
      exact ih.uses.append .append ihmore.uses
    · rw [Selection.conditions, List.filterMap_append, Selection.conditions, List.filterMap_append]
      exact List.rel_append ih.conditions ihmore.conditions
    · rw [ih.findings, ihmore.findings]
  | field head h =>
    have huse : UsesLike (Coincide c) [(head, _)] [(head, _)] := .single (.refl []) h
    exact expandAlike_fieldNodes huse
  -- A condition that says nothing new opens in place, any other stays a condition of the level.
  | condition on label h ih =>
    cases hvoid : Context.isVoid parent on label with
    | true =>
      refine .of_eq ?_ ?_ ih <;> rw [expand_singleton, expandNode, if_pos hvoid]
    | false =>
      refine expandAlike_conditions on ?_ ?_ h <;>
        rw [expand_singleton, expandNode_condition hvoid]
  | group _ ih => refine .of_eq ?_ ?_ ih <;> rw [expand_singleton, expandNode]
  | opened fragment onType h ih =>
    cases hnarrows : c.narrows parent onType with
    | true =>
      refine expandAlike_conditions onType ?_ ?_ h <;>
        rw [expand_singleton, expandNode, if_pos hnarrows] <;> rfl
    | false =>
      refine .of_eq ?_ ?_ ih <;> rw [expand_singleton, expandNode, hnarrows, expand_singleton] <;> rfl
  | join hname hbetween => exact expandAlike_fieldNodes (.join .refl hname hbetween)
  | inline hopens _ => exact .of_eq (by rw [expand_singleton, (hopens parent).1]) rfl (.refl _)

/-- On a level whose conditions are decided the rows settle to fields that come to the same, and the same
is found. -/
structure SettleAlike (c : Context) (parent : Option String) (nodes nodes' : List Node) : Prop where
  uses : UsesLike (Coincide c) (settle c parent nodes).value (settle c parent nodes').value
  findings : (settle c parent nodes).findings = (settle c parent nodes').findings

theorem settleAlike_fieldNodes {uses uses' : List FieldUse} (h : UsesLike (Coincide c) uses uses') :
    SettleAlike c parent (fieldNodes uses) (fieldNodes uses') := by
  constructor <;> rw [settle_fieldNodes, settle_fieldNodes]
  exact h

theorem SettleAlike.of_eq {inner inner' : List Node} (h : settle c parent nodes = settle c parent inner)
    (h' : settle c parent nodes' = settle c parent inner') (halike : SettleAlike c parent inner inner') :
    SettleAlike c parent nodes nodes' := by
  obtain ⟨huses, hfindings⟩ := halike
  constructor <;> rw [h, h']
  exacts [huses, hfindings]

/-- Rows that coincide settle to the same on every level that decides its conditions. -/
theorem Coincide.settleAlike (h : Coincide c nodes nodes') (parent : Option String) :
    SettleAlike c parent nodes nodes' := by
  induction h with
  | refl nodes => exact ⟨.refl .refl _, rfl⟩
  | trans _ _ ih ih' => exact ⟨ih.uses.trans .trans ih'.uses, ih.findings.trans ih'.findings⟩
  | append _ _ ih ihmore =>
    constructor <;> rw [settle_append, settle_append]
    · exact ih.uses.append .append ihmore.uses
    · rw [ih.findings, ihmore.findings]
  | field head h =>
    have huse : UsesLike (Coincide c) [(head, _)] [(head, _)] := .single (.refl []) h
    exact settleAlike_fieldNodes huse
  | condition on label h ih =>
    cases hvoid : Context.isVoid parent on label with
    | true => refine .of_eq ?_ ?_ ih <;> rw [settle_singleton, settleNode, if_pos hvoid]
    | false =>
      constructor <;>
        rw [settle_singleton, settle_singleton, settleNode_condition hvoid, settleNode_condition hvoid] <;>
        split_ifs
      · exact ih.uses
      · exact .refl .refl []
      · rw [(h.expandAlike parent).findings, ih.findings]
      · rfl
  | group _ ih => refine .of_eq ?_ ?_ ih <;> rw [settle_singleton, settleNode]
  | opened fragment onType _ ih =>
    refine .of_eq ?_ ?_ ih <;> rw [settle_singleton, settle_singleton, settleNode]
  | join hname hbetween => exact settleAlike_fieldNodes (.join .refl hname hbetween)
  | inline hopens _ =>
    exact .of_eq (by rw [settle_singleton, (hopens parent).2]) rfl ⟨.refl .refl _, rfl⟩

/-! ## Levels -/

/-- What comes from below does not tell apart rows that coincide. -/
def Below.Respects (c : Context) (below : Below) : Prop :=
  ∀ {nodes nodes'}, Coincide c nodes nodes' → ∀ parent, below parent nodes = below parent nodes'

theorem resolveChildren_congr (hbelow : below.Respects c) (parent : Option String)
    (h : Coincide c nodes nodes') :
    resolveChildren below parent nodes = resolveChildren below parent nodes' := by
  rw [resolveChildren, resolveChildren, h.isEmpty_eq, hbelow h]

theorem resolveFields_congr (hbelow : below.Respects c) {uses uses' : List FieldUse}
    (h : UsesLike (Coincide c) uses uses') :
    resolveFields c below parent (fieldGroups uses) = resolveFields c below parent (fieldGroups uses') := by
  have hfield (name : String) : resolveField c below parent name (usesOf name uses) =
      resolveField c below parent name (usesOf name uses') := by
    have hchildren (parent : Option String) := resolveChildren_congr hbelow parent (h.children name)
    simp only [resolveField, h.declaredType name, h.deprecation name, hchildren]
  rw [fieldGroups_eq, fieldGroups_eq, h.names]
  induction (uses'.map (·.1.name)).eraseDups with
  | nil => rfl
  | cons name names ih =>
    have hcons (uses : List FieldUse) : KeyedList.tabulate (name :: names) (usesOf · uses) =
        (name, usesOf name uses) :: KeyedList.tabulate names (usesOf · uses) := rfl
    rw [hcons, hcons, resolveFields, resolveFields, hfield, ih]

theorem variantGroups_eq (items : List Item) : variantGroups c parent items =
    KeyedList.groupPairs ((conditions items).flatMap fun condition =>
      (c.variantTypes parent condition.1).map (·, condition.2)) := by
  rw [variantGroups]
  congr 1
  induction items with
  | nil => rfl
  | cons item items ih => cases item <;> simp [conditions, ih]

theorem any_isConditional (items : List Item) :
    items.any Item.isConditional = !(conditions items).isEmpty := by
  induction items with
  | nil => rfl
  | cons item items ih => cases item <;> simp [conditions, Item.isConditional, ih]

theorem ExpandAlike.any_isConditional (h : ExpandAlike c parent nodes nodes') :
    (expand c parent nodes).value.any Item.isConditional =
      (expand c parent nodes').value.any Item.isConditional := by
  have hlength := h.conditions.length_eq
  rw [Selection.any_isConditional, Selection.any_isConditional]
  congr 1
  rw [Bool.eq_iff_iff, List.isEmpty_iff_length_eq_zero, List.isEmpty_iff_length_eq_zero, hlength]

theorem variantGroups_alike (h : ExpandAlike c parent nodes nodes') :
    List.Forall₂ (fun group group' => group.1 = group'.1 ∧ List.Forall₂ (Coincide c) group.2 group'.2)
      (variantGroups c parent (expand c parent nodes).value)
      (variantGroups c parent (expand c parent nodes').value) := by
  rw [variantGroups_eq, variantGroups_eq]
  apply KeyedList.forall₂_groupPairs
  refine List.rel_flatMap h.conditions fun condition condition' halike => ?_
  rw [halike.1, List.forall₂_map_left_iff, List.forall₂_map_right_iff]
  exact List.forall₂_same.2 fun type _ => ⟨rfl, halike.2⟩

theorem resolveVariants_congr (hbelow : below.Respects c) {groups groups' : List (String × List (List Node))}
    (h : List.Forall₂ (fun group group' => group.1 = group'.1 ∧ List.Forall₂ (Coincide c) group.2 group'.2)
      groups groups') : resolveVariants below groups = resolveVariants below groups' := by
  induction h with
  | nil => rfl
  | @cons group group' _ _ hgroup _ ih =>
    obtain ⟨type, rows⟩ := group
    obtain ⟨type', rows'⟩ := group'
    obtain ⟨rfl, hrows⟩ := hgroup
    rw [resolveVariants, resolveVariants, hbelow (Coincide.flatten hrows), ih]

theorem respects_resolveLevel (hbelow : below.Respects c) : Below.Respects c (resolveLevel c below) := by
  intro nodes nodes' h parent
  have hexpand := h.expandAlike parent
  have hsettle := h.settleAlike parent
  cases hopen : (expand c parent nodes).value.any Item.isConditional && c.isPolymorphic parent with
  | true =>
    rw [resolveLevel_eq_of_open hopen, resolveLevel_eq_of_open (hexpand.any_isConditional ▸ hopen),
      resolveFields_congr hbelow hexpand.uses, resolveVariants_congr hbelow (variantGroups_alike hexpand),
      hexpand.findings]
  | false =>
    rw [resolveLevel_eq_of_decided hopen, resolveLevel_eq_of_decided (hexpand.any_isConditional ▸ hopen),
      resolveFields_congr hbelow hsettle.uses, hexpand.findings, hsettle.findings]

/-- Rows that coincide resolve to the same, with the same found in the same order. -/
theorem Coincide.resolveWithin_eq (h : Coincide c nodes nodes') (levels : Nat) (parent : Option String) :
    resolveWithin c levels parent nodes = resolveWithin c levels parent nodes' := by
  induction levels generalizing nodes nodes' parent with
  | zero => rfl
  | succ levels ih => exact respects_resolveLevel (fun h parent => ih h parent) h parent

end Selection

namespace Fragment

/-- More levels than a fragment has do not change what it resolves to. -/
theorem resolveWithin_eq_of_le (c : Selection.Context) {known : List Fragment} {f : Fragment}
    {levels : Nat} (h : f.levels known ≤ levels) :
    Selection.resolveWithin c levels (some f.onType) (f.unfold known) =
      Selection.resolveWithin c (f.levels known) (some f.onType) (f.unfold known) := by
  have hderives {bound : Nat} (hbound : f.levels known ≤ bound) :=
    Selection.derives_resolveWithin c known bound (some f.onType)
      (Selection.Occurrence.all [f.name] f.entries)
      fun _ ho => Nat.le_trans (weight_le_levels ho) hbound
  rw [unfold_eq_nodes]
  obtain ⟨hvalue, hfindings⟩ := (hderives h).unique (hderives (Nat.le_refl _))
  exact congrArg₂ Noted.mk hvalue hfindings

/-- Fragments that open to rows that coincide resolve to the same. -/
theorem resolve_eq_of_coincide {c : Selection.Context} {known known' : List Fragment} {f f' : Fragment}
    (hname : f.name = f'.name) (honType : f.onType = f'.onType)
    (h : Selection.Coincide c (f.unfold known) (f'.unfold known')) :
    f.resolve c known = f'.resolve c known' := by
  have hlevel : Selection.resolveWithin c (f.levels known) (some f.onType) (f.unfold known) =
      Selection.resolveWithin c (f'.levels known') (some f'.onType) (f'.unfold known') := by
    rw [← resolveWithin_eq_of_le c (Nat.le_max_left (f.levels known) (f'.levels known')),
      ← resolveWithin_eq_of_le c (Nat.le_max_right (f.levels known) (f'.levels known')), ← honType]
    exact h.resolveWithin_eq _ _
  have hown : f.ownFindings c = f'.ownFindings c := by rw [ownFindings, ownFindings, honType]
  rw [resolve, resolve, hname, honType, hown, ← honType, hlevel, honType]

end Fragment

end FragmentShapes
