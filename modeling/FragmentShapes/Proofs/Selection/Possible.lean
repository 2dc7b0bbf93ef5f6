import FragmentShapes.Proofs.Selection.Inside

/-!
# Which variants a selection can have

On an interface or a union a variant is one of its possible types unless a condition of the level names
the type of the variant itself (`Fragment.possible_of_mem_variants_resolve`). Conditions on interfaces
and unions add possible types only; a condition on a type that the schema lacks is left open.
-/

namespace FragmentShapes

namespace Selection

variable {c : Context} {s : Schema} {parent : String}

/-- A condition adds to an interface or a union the possible types that it shares with it, or the type
that it names itself, which then is neither. -/
theorem possible_of_mem_variantTypes (hc : c.schema = some s) (habstract : s.isAbstract parent = true)
    {on type : String} (h : type ∈ c.variantTypes (some parent) on) :
    s.isAbstract on = true ∧ type ∈ s.possibleTypes on ∧ type ∈ s.possibleTypes parent ∨
      s.isAbstract type = false ∧ on = type := by
  have hparent : s.hasType parent = true := Schema.hasType_of_isAbstract habstract
  simp only [Context.variantTypes, hc, hparent, if_true] at h
  split_ifs at h with hon
  · obtain ⟨hmem, hshared⟩ := List.mem_filter.1 h
    exact .inl ⟨hon, hmem, List.contains_iff_mem.1 hshared⟩
  · rw [List.mem_singleton] at h
    rw [h]
    exact .inr ⟨Bool.not_eq_true _ ▸ hon, rfl⟩

namespace Level

/-- A condition on the type stands on the level, be it a spread that acts as one. -/
def HasCondition (c : Context) (level : Level) (on : String) : Prop :=
  ∃ children, Item.condition on children ∈ (expand c level.selection.typeName level.nodes).value

theorem possible_of_mem_variants (hc : c.schema = some s) {level : Level} (hlevel : level.IsResolved c)
    (hparent : level.selection.typeName = some parent) (habstract : s.isAbstract parent = true)
    {v : Variant} (hv : v ∈ level.selection.variants) :
    (v.typeName ∈ s.possibleTypes parent ∧ ∃ on, s.isAbstract on = true ∧
        v.typeName ∈ s.possibleTypes on ∧ level.HasCondition c on) ∨
      s.isAbstract v.typeName = false ∧ level.HasCondition c v.typeName := by
  obtain ⟨levels, hresolved⟩ := hlevel
  obtain ⟨on, children, hon, htype⟩ : ∃ on children,
      Item.condition on children ∈ (expand c level.selection.typeName level.nodes).value ∧
        v.typeName ∈ c.variantTypes level.selection.typeName on := by
    rw [hresolved] at hv
    cases levels with
    | zero => cases hv
    | succ levels => exact (exists_of_mem_variants_resolveLevel hv).1
  rw [hparent] at htype
  obtain ⟨habstractOn, hshared, hpossible⟩ | ⟨hconcrete, rfl⟩ :=
    possible_of_mem_variantTypes hc habstract htype
  · exact .inl ⟨hpossible, on, habstractOn, hshared, children, hon⟩
  · exact .inr ⟨hconcrete, children, hon⟩

end Level

end Selection

/-- Of every selection inside a resolved fragment there are the nodes that it has been resolved from. If
it is on an interface or a union, each of its variants is a possible type that a condition among these
nodes on an interface or a union has too, or the concrete or unknown type that one of them names. -/
theorem Fragment.possible_of_mem_variants_resolve {s : Schema} {c : Selection.Context}
    (hc : c.schema = some s) (known : List Fragment) (f : Fragment) :
    ((f.resolve c known).selection.levelsFrom c (f.unfold known)).map (·.selection) =
        (f.resolve c known).selection.allLevels ∧
      ∀ level ∈ (f.resolve c known).selection.levelsFrom c (f.unfold known), level.IsResolved c ∧
        ∀ parent, level.selection.typeName = some parent → s.isAbstract parent = true →
          ∀ v ∈ level.selection.variants,
            (v.typeName ∈ s.possibleTypes parent ∧ ∃ on, s.isAbstract on = true ∧
                v.typeName ∈ s.possibleTypes on ∧ level.HasCondition c on) ∨
              s.isAbstract v.typeName = false ∧ level.HasCondition c v.typeName := by
  refine ⟨Selection.map_selection_levelsFrom c _ _, fun level hlevel => ?_⟩
  have hresolved := Selection.isResolved_of_mem_levelsFrom hlevel
  refine ⟨hresolved, fun parent hparent habstract v hv => ?_⟩
  exact Selection.Level.possible_of_mem_variants hc hresolved hparent habstract hv

/-- A fragment with a selection on a union under `__typename`, where no slot leads. -/
def Fragment.buried : Fragment where
  name := "Buried"
  onType := "Named"
  entries :=
    [.field { name := "__typename" }
        [.field { name := "pet", declaredType := some (.named "Pet" true) }
          [.condition "Named" none [.field { name := "name" } []],
            .condition "Bird" none [.field { name := "wings" } []]]],
      .condition "Cat" none [.field { name := "tail" } []]]

/-- Under `__typename`, cats and dogs are variants by the condition on an interface, birds by that on
themselves. -/
theorem Fragment.possible_buried :
    let c : Selection.Context := { schema := some Schema.pets }
    let levels := (buried.resolve c []).selection.levelsFrom c (buried.unfold [])
    Schema.pets.isAbstract "Pet" = true ∧ ∃ level ∈ levels,
      level.selection.typeName = some "Pet" ∧
      level.selection.variants.map (·.typeName) = ["Cat", "Dog", "Bird"] ∧
      "Bird" ∉ Schema.pets.possibleTypes "Pet" ∧ level.HasCondition c "Bird" := by
  intro c levels
  have habstract : Schema.pets.isAbstract "Pet" = true := by decide
  have hbird : "Bird" ∉ Schema.pets.possibleTypes "Pet" := by decide
  obtain ⟨level, hlevel, htype, hvariants⟩ : ∃ level ∈ levels, level.selection.typeName = some "Pet" ∧
      level.selection.variants.map (·.typeName) = ["Cat", "Dog", "Bird"] := by decide +kernel
  refine ⟨habstract, level, hlevel, htype, hvariants, hbird, ?_⟩
  obtain ⟨v, hv, hname⟩ : ∃ v ∈ level.selection.variants, v.typeName = "Bird" :=
    List.mem_map.1 (by rw [hvariants]; decide)
  have hpossible := (possible_of_mem_variants_resolve rfl [] buried).2 level hlevel
  obtain ⟨h, -⟩ | ⟨-, h⟩ := hpossible.2 "Pet" htype habstract v hv
  · exact absurd (hname ▸ h) hbird
  · exact hname ▸ h

/-- A fragment on a union with conditions on an interface and on a type that the schema lacks. -/
def Fragment.strays : Fragment where
  name := "Strays"
  onType := "Pet"
  entries :=
    [.field { name := "__typename" } [],
      .condition "Named" none [.field { name := "name" } []],
      .condition "Bird" none [.field { name := "wings" } []]]

theorem Fragment.strays_ofDocument : Fragment.strays.OfDocument :=
  ⟨"fragment Strays on Pet { __typename ... on Named { name } ... on Bird { wings } }",
    [Fragment.strays], by rw [Fragment.parseDocument_ofList]; decide +kernel,
    List.mem_singleton_self _⟩

/-- A condition on a type that the schema lacks has a variant, although no pet is of that type. -/
theorem Fragment.impossible_strays :
    Schema.pets.isAbstract "Pet" = true ∧
      (strays.resolve { schema := some Schema.pets } []).selection.typeName = some "Pet" ∧
      ¬ ∀ v ∈ (strays.resolve { schema := some Schema.pets } []).selection.variants,
        v.typeName ∈ Schema.pets.possibleTypes "Pet" := by
  refine ⟨by decide, rfl, ?_⟩
  decide +kernel

end FragmentShapes
