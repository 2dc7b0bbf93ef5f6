import FragmentShapes.Selection.Resolve

/-!
# Resolution as rules

How a selection is resolved, with no bound on the levels and with every spread opened where it is met.
An entry carries the fragments that it stands inside of; a spread of one of these is a cycle and opens
nothing, and nothing else stops the rules. A derivation is finite, so that what has one can be resolved
in finitely many steps, and by `ResolvesLevel.unique` it resolves to one thing only.
-/

namespace FragmentShapes.Selection

/-- An entry, and the fragments that it stands inside of, outermost first. -/
structure Occurrence where
  entry : Entry
  trail : List String

/-- The entries of a selection inside the fragments of a trail. -/
def Occurrence.all (trail : List String) (entries : List Entry) : List Occurrence :=
  entries.map (⟨·, trail⟩)

/-- A use of a field on a level, with what stands under it. -/
abbrev Use := FieldHead × List Occurrence

/-- A member of a level: the use of a field, or a condition. -/
inductive Part where
  | field (use : Use)
  | condition (on : String) (children : List Occurrence)

namespace Part

def isConditional : Part → Bool
  | field _ => false
  | condition .. => true

def children : Part → List Occurrence
  | field use => use.2
  | condition _ children => children

end Part

/-- What becomes of an occurrence on a level. -/
inductive Opening where
  /-- It is a member of the level. -/
  | keep (part : Part)
  /-- Others stand in its place. -/
  | inline (children : List Occurrence)
  | drop (finding : Finding)

/-- One step of opening a level on `parent`. -/
def opening (c : Context) (known : List Fragment) (parent : Option String) : Occurrence → Opening
  | ⟨.field head selection, trail⟩ => .keep (.field (head, Occurrence.all trail selection))
  | ⟨.condition on label selection, trail⟩ =>
    if Context.isVoid parent on label then .inline (Occurrence.all trail selection)
    else .keep (.condition on (Occurrence.all trail selection))
  | ⟨.group selection, trail⟩ => .inline (Occurrence.all trail selection)
  | ⟨.spread name, trail⟩ =>
    match Fragment.find? name known with
    | none => .drop (.unknownSpread name)
    | some f =>
      if name ∈ trail then .drop (.spreadCycle (trail ++ [name]))
      else if c.narrows parent f.onType then
        .keep (.condition f.onType [⟨.group f.entries, trail ++ [name]⟩])
      else .inline (Occurrence.all (trail ++ [name]) f.entries)

/-- The occurrences open to the members of a level. -/
inductive Opens (c : Context) (known : List Fragment) (parent : Option String) :
    List Occurrence → List Part → List Finding → Prop where
  | nil : Opens c known parent [] [] []
  | keep {o : Occurrence} {os : List Occurrence} {part : Part} {parts : List Part}
      {findings : List Finding} :
      opening c known parent o = .keep part → Opens c known parent os parts findings →
        Opens c known parent (o :: os) (part :: parts) findings
  | inline {o : Occurrence} {children os : List Occurrence} {inner parts : List Part}
      {found findings : List Finding} :
      opening c known parent o = .inline children → Opens c known parent children inner found →
        Opens c known parent os parts findings →
        Opens c known parent (o :: os) (inner ++ parts) (found ++ findings)
  | drop {o : Occurrence} {os : List Occurrence} {parts : List Part} {finding : Finding}
      {findings : List Finding} :
      opening c known parent o = .drop finding → Opens c known parent os parts findings →
        Opens c known parent (o :: os) parts (finding :: findings)

/-- The fields of a level on a type that decides its conditions: what stands under a condition that
holds is opened, and the conditions in it are decided in turn. -/
inductive Decides (c : Context) (known : List Fragment) (parent : Option String) :
    List Part → List Use → List Finding → Prop where
  | nil : Decides c known parent [] [] []
  | field {use : Use} {parts : List Part} {uses : List Use} {findings : List Finding} :
      Decides c known parent parts uses findings →
        Decides c known parent (.field use :: parts) (use :: uses) findings
  | fails {on : String} {children : List Occurrence} {parts : List Part} {uses : List Use}
      {findings : List Finding} :
      c.applies parent on = false → Decides c known parent parts uses findings →
        Decides c known parent (.condition on children :: parts) uses findings
  | holds {on : String} {children : List Occurrence} {opened parts : List Part}
      {inner uses : List Use} {met found findings : List Finding} :
      c.applies parent on = true → Opens c known parent children opened met →
        Decides c known parent opened inner found → Decides c known parent parts uses findings →
        Decides c known parent (.condition on children :: parts) (inner ++ uses)
          (met ++ found ++ findings)

def partUses (parts : List Part) : List Use :=
  parts.filterMap fun
    | .field use => some use
    | .condition .. => none

/-- The uses of fields by name. -/
def useGroups (uses : List Use) : KeyedList (List Use) :=
  KeyedList.groupPairs (uses.map fun use => (use.1.name, use))

/-- What stands under the conditions of a level, by concrete type. -/
def conditionGroups (c : Context) (parent : Option String) (parts : List Part) :
    KeyedList (List (List Occurrence)) :=
  KeyedList.groupPairs (parts.flatMap fun
    | .field _ => []
    | .condition on children => (c.variantTypes parent on).map (·, children))

mutual

/-- The occurrences resolve to a selection on `parent`. -/
inductive ResolvesLevel (c : Context) (known : List Fragment) :
    Option String → List Occurrence → Selection → List Finding → Prop where
  | discriminated {parent : Option String} {os : List Occurrence} {parts : List Part}
      {fields : List SelectedField} {variants : List Variant} {opened found more : List Finding} :
      Opens c known parent os parts opened →
        (parts.any Part.isConditional && c.isPolymorphic parent) = true →
        ResolvesFields c known parent (useGroups (partUses parts)) fields found →
        ResolvesVariants c known (conditionGroups c parent parts) variants more →
        ResolvesLevel c known parent os ⟨parent, fields, variants⟩ (opened ++ (found ++ more))
  | decided {parent : Option String} {os : List Occurrence} {parts : List Part} {uses : List Use}
      {fields : List SelectedField} {opened met found : List Finding} :
      Opens c known parent os parts opened →
        (parts.any Part.isConditional && c.isPolymorphic parent) = false →
        Decides c known parent parts uses met →
        ResolvesFields c known parent (useGroups uses) fields found →
        ResolvesLevel c known parent os ⟨parent, fields, []⟩ (opened ++ (met ++ found))

/-- The selection under a field, if there is one. -/
inductive ResolvesUnder (c : Context) (known : List Fragment) :
    Option String → List Occurrence → Option Selection → List Finding → Prop where
  | leaf {parent : Option String} : ResolvesUnder c known parent [] none []
  | object {parent : Option String} {o : Occurrence} {os : List Occurrence} {selection : Selection}
      {findings : List Finding} :
      ResolvesLevel c known parent (o :: os) selection findings →
        ResolvesUnder c known parent (o :: os) (some selection) findings

/-- The field that the uses of one name come to; `none` where it is left out. -/
inductive ResolvesField (c : Context) (known : List Fragment) :
    Option String → String → List Use → Option SelectedField → List Finding → Prop where
  | typename {parent : Option String} {uses : List Use} {selection : Option Selection}
      {findings : List Finding} :
      ResolvesUnder c known (some typenameType.baseName) (uses.flatMap (·.2)) selection findings →
        ResolvesField c known parent typenameField uses
          (some ⟨{ name := typenameField, type := typenameType
                   deprecation := uses.findSome? (·.1.deprecation) }, selection⟩) findings
  | defined {parent : Option String} {name : String} {uses : List Use}
      {definition : Schema.FieldDefinition} {selection : Option Selection}
      {noted findings : List Finding} :
      name ≠ typenameField → lookUp c parent name = ⟨some definition, noted⟩ →
        ResolvesUnder c known (some definition.type.baseName) (uses.flatMap (·.2)) selection
          findings →
        ResolvesField c known parent name uses
          (some ⟨{ name, type := definition.type
                   deprecation := (uses.findSome? (·.1.deprecation)).or definition.deprecation
                   description := if c.descriptions then definition.description else none },
            selection⟩) (noted ++ findings)
  | omitted {parent : Option String} {name : String} {uses : List Use} {noted : List Finding} :
      name ≠ typenameField → lookUp c parent name = ⟨none, noted⟩ → isOmitted c parent = true →
        ResolvesField c known parent name uses none noted
  | undefined {parent : Option String} {name : String} {uses : List Use}
      {selection : Option Selection} {noted findings : List Finding} :
      name ≠ typenameField → lookUp c parent name = ⟨none, noted⟩ → isOmitted c parent = false →
        ResolvesUnder c known ((uses.findSome? (·.1.declaredType)).map (·.baseName))
          (uses.flatMap (·.2)) selection findings →
        ResolvesField c known parent name uses
          (some ⟨{ name, type := (uses.findSome? (·.1.declaredType)).getD untyped
                   deprecation := uses.findSome? (·.1.deprecation), isResolved := false },
            selection⟩) (noted ++ findings)

/-- The fields that groups of uses come to. -/
inductive ResolvesFields (c : Context) (known : List Fragment) :
    Option String → KeyedList (List Use) → List SelectedField → List Finding → Prop where
  | nil {parent : Option String} : ResolvesFields c known parent [] [] []
  | cons {parent : Option String} {name : String} {uses : List Use}
      {groups : KeyedList (List Use)} {field : Option SelectedField} {fields : List SelectedField}
      {found findings : List Finding} :
      ResolvesField c known parent name uses field found →
        ResolvesFields c known parent groups fields findings →
        ResolvesFields c known parent ((name, uses) :: groups) (field.toList ++ fields)
          (found ++ findings)

/-- The variants that groups of conditions come to. -/
inductive ResolvesVariants (c : Context) (known : List Fragment) :
    KeyedList (List (List Occurrence)) → List Variant → List Finding → Prop where
  | nil : ResolvesVariants c known [] [] []
  | cons {type : String} {children : List (List Occurrence)}
      {groups : KeyedList (List (List Occurrence))} {selection : Selection}
      {variants : List Variant} {found findings : List Finding} :
      ResolvesLevel c known (some type) children.flatten selection found →
        ResolvesVariants c known groups variants findings →
        ResolvesVariants c known ((type, children) :: groups) (⟨type, selection⟩ :: variants)
          (found ++ findings)

end

/-! ## Rules leave no choice -/

variable {c : Context} {known : List Fragment} {parent : Option String}

theorem Opens.unique {os : List Occurrence} {parts parts' : List Part}
    {findings findings' : List Finding} (h : Opens c known parent os parts findings)
    (h' : Opens c known parent os parts' findings') : parts = parts' ∧ findings = findings' := by
  -- Of each occurrence the same is opened, so that the second derivation ends in the same rule.
  induction h generalizing parts' findings' with
  | nil =>
    cases h'
    exact ⟨rfl, rfl⟩
  | keep hstep _ ih =>
    cases h' with
    | keep hstep' hrest' =>
      obtain ⟨rfl, rfl⟩ := ih hrest'
      cases hstep.symm.trans hstep'
      exact ⟨rfl, rfl⟩
    | inline hstep' => cases hstep.symm.trans hstep'
    | drop hstep' => cases hstep.symm.trans hstep'
  | inline hstep _ _ ihinner ih =>
    cases h' with
    | keep hstep' => cases hstep.symm.trans hstep'
    | inline hstep' hinner' hrest' =>
      cases hstep.symm.trans hstep'
      obtain ⟨rfl, rfl⟩ := ihinner hinner'
      obtain ⟨rfl, rfl⟩ := ih hrest'
      exact ⟨rfl, rfl⟩
    | drop hstep' => cases hstep.symm.trans hstep'
  | drop hstep _ ih =>
    cases h' with
    | keep hstep' => cases hstep.symm.trans hstep'
    | inline hstep' => cases hstep.symm.trans hstep'
    | drop hstep' hrest' =>
      cases hstep.symm.trans hstep'
      obtain ⟨rfl, rfl⟩ := ih hrest'
      exact ⟨rfl, rfl⟩

theorem Decides.unique {parts : List Part} {uses uses' : List Use}
    {findings findings' : List Finding} (h : Decides c known parent parts uses findings)
    (h' : Decides c known parent parts uses' findings') : uses = uses' ∧ findings = findings' := by
  induction h generalizing uses' findings' with
  | nil =>
    cases h'
    exact ⟨rfl, rfl⟩
  | field _ ih =>
    cases h' with
    | field hrest' =>
      obtain ⟨rfl, rfl⟩ := ih hrest'
      exact ⟨rfl, rfl⟩
  | fails happlies _ ih =>
    cases h' with
    | fails _ hrest' => exact ih hrest'
    | holds happlies' => cases happlies.symm.trans happlies'
  | holds happlies hopens _ _ ihinner ih =>
    cases h' with
    | fails happlies' => cases happlies.symm.trans happlies'
    | holds _ hopens' hinner' hrest' =>
      obtain ⟨rfl, rfl⟩ := hopens.unique hopens'
      obtain ⟨rfl, rfl⟩ := ihinner hinner'
      obtain ⟨rfl, rfl⟩ := ih hrest'
      exact ⟨rfl, rfl⟩

mutual

theorem ResolvesLevel.unique {parent : Option String} {os : List Occurrence}
    {selection selection' : Selection} {findings findings' : List Finding}
    (h : ResolvesLevel c known parent os selection findings)
    (h' : ResolvesLevel c known parent os selection' findings') :
    selection = selection' ∧ findings = findings' :=
  match h, h' with
  | .discriminated hopens hopen hfields hvariants,
    .discriminated hopens' _ hfields' hvariants' => by
    obtain ⟨rfl, rfl⟩ := hopens.unique hopens'
    obtain ⟨rfl, rfl⟩ := hfields.unique hfields'
    obtain ⟨rfl, rfl⟩ := hvariants.unique hvariants'
    exact ⟨rfl, rfl⟩
  | .discriminated hopens hopen _ _, .decided hopens' hdecided' _ _ => by
    obtain ⟨rfl, rfl⟩ := hopens.unique hopens'
    cases hopen.symm.trans hdecided'
  | .decided hopens hdecided _ _, .discriminated hopens' hopen' _ _ => by
    obtain ⟨rfl, rfl⟩ := hopens.unique hopens'
    cases hdecided.symm.trans hopen'
  | .decided hopens _ hdecides hfields, .decided hopens' _ hdecides' hfields' => by
    obtain ⟨rfl, rfl⟩ := hopens.unique hopens'
    obtain ⟨rfl, rfl⟩ := hdecides.unique hdecides'
    obtain ⟨rfl, rfl⟩ := hfields.unique hfields'
    exact ⟨rfl, rfl⟩
termination_by structural h

theorem ResolvesUnder.unique {parent : Option String} {os : List Occurrence}
    {selection selection' : Option Selection} {findings findings' : List Finding}
    (h : ResolvesUnder c known parent os selection findings)
    (h' : ResolvesUnder c known parent os selection' findings') :
    selection = selection' ∧ findings = findings' :=
  match h, h' with
  | .leaf, .leaf => ⟨rfl, rfl⟩
  | .object hlevel, .object hlevel' => by
    obtain ⟨rfl, rfl⟩ := hlevel.unique hlevel'
    exact ⟨rfl, rfl⟩
termination_by structural h

theorem ResolvesField.unique {parent : Option String} {name : String} {uses : List Use}
    {field field' : Option SelectedField} {findings findings' : List Finding}
    (h : ResolvesField c known parent name uses field findings)
    (h' : ResolvesField c known parent name uses field' findings') :
    field = field' ∧ findings = findings' :=
  match h, h' with
  | .typename hunder, .typename hunder' => by
    obtain ⟨rfl, rfl⟩ := hunder.unique hunder'
    exact ⟨rfl, rfl⟩
  | .typename _, .defined hname' _ _ => (hname' rfl).elim
  | .typename _, .omitted hname' _ _ => (hname' rfl).elim
  | .typename _, .undefined hname' _ _ _ => (hname' rfl).elim
  | .defined hname _ _, .typename _ => (hname rfl).elim
  | .defined _ hlook hunder, .defined _ hlook' hunder' => by
    cases hlook.symm.trans hlook'
    obtain ⟨rfl, rfl⟩ := hunder.unique hunder'
    exact ⟨rfl, rfl⟩
  | .defined _ hlook _, .omitted _ hlook' _ => by cases hlook.symm.trans hlook'
  | .defined _ hlook _, .undefined _ hlook' _ _ => by cases hlook.symm.trans hlook'
  | .omitted hname _ _, .typename _ => (hname rfl).elim
  | .omitted _ hlook _, .defined _ hlook' _ => by cases hlook.symm.trans hlook'
  | .omitted _ hlook _, .omitted _ hlook' _ => by
    cases hlook.symm.trans hlook'
    exact ⟨rfl, rfl⟩
  | .omitted _ _ homitted, .undefined _ _ homitted' _ => by cases homitted.symm.trans homitted'
  | .undefined hname _ _ _, .typename _ => (hname rfl).elim
  | .undefined _ hlook _ _, .defined _ hlook' _ => by cases hlook.symm.trans hlook'
  | .undefined _ _ homitted _, .omitted _ _ homitted' => by cases homitted.symm.trans homitted'
  | .undefined _ hlook _ hunder, .undefined _ hlook' _ hunder' => by
    cases hlook.symm.trans hlook'
    obtain ⟨rfl, rfl⟩ := hunder.unique hunder'
    exact ⟨rfl, rfl⟩
termination_by structural h

theorem ResolvesFields.unique {parent : Option String} {groups : KeyedList (List Use)}
    {fields fields' : List SelectedField} {findings findings' : List Finding}
    (h : ResolvesFields c known parent groups fields findings)
    (h' : ResolvesFields c known parent groups fields' findings') :
    fields = fields' ∧ findings = findings' :=
  match h, h' with
  | .nil, .nil => ⟨rfl, rfl⟩
  | .cons hfield hfields, .cons hfield' hfields' => by
    obtain ⟨rfl, rfl⟩ := hfield.unique hfield'
    obtain ⟨rfl, rfl⟩ := hfields.unique hfields'
    exact ⟨rfl, rfl⟩
termination_by structural h

theorem ResolvesVariants.unique {groups : KeyedList (List (List Occurrence))}
    {variants variants' : List Variant} {findings findings' : List Finding}
    (h : ResolvesVariants c known groups variants findings)
    (h' : ResolvesVariants c known groups variants' findings') :
    variants = variants' ∧ findings = findings' :=
  match h, h' with
  | .nil, .nil => ⟨rfl, rfl⟩
  | .cons hlevel hvariants, .cons hlevel' hvariants' => by
    obtain ⟨rfl, rfl⟩ := hlevel.unique hlevel'
    obtain ⟨rfl, rfl⟩ := hvariants.unique hvariants'
    exact ⟨rfl, rfl⟩
termination_by structural h

end

end FragmentShapes.Selection
