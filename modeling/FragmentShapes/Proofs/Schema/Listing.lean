import FragmentShapes.Proofs.Schema.Search
import Mathlib.Data.List.Nodup

/-!
# Listed fields

What can be selected on a type can be looked up by name or listed. A search goes to all members of a union
and to the interfaces of an object one by one; the listing starts from the first member of a union and adds
up the fields of an object and its interfaces. Where every name that the schema mentions has a type and no
union comes back to itself by first members, the listing has the fields that can be found, each once, and
says the same of each. Main statement: `Schema.find?_fields`.
-/

namespace FragmentShapes.Schema

open Relation (ReflTransGen TransGen)

variable {s : Schema} {name : String}

/-! ## Names that have a type -/

theorem hasType_of_mem_mentions (h : s.undefinedReferences = []) {t : TypeDefinition} (ht : t ∈ s.types)
    (hname : name ∈ mentions t) : s.hasType name = true := by
  have hnone := List.flatMap_eq_nil_iff.1 h t ht
  by_contra hmissing
  have hmem : name ∈ ((mentions t).filter (!s.hasType ·)).eraseDups :=
    List.mem_eraseDups.2 (List.mem_filter.2 ⟨hname, by simpa using hmissing⟩)
  rw [List.map_eq_nil_iff.1 hnone] at hmem
  exact List.not_mem_nil hmem

/-- The type of a declared field is known. -/
theorem known_of_mem_ownFields (h : s.undefinedReferences = []) {t : TypeDefinition} (ht : t ∈ s.types)
    {f : FieldDefinition} (hf : f ∈ t.ownFields) : s.known f = some f := by
  have hmentioned : f.type.baseName ∈ mentions t := by
    have hmap := List.mem_map_of_mem (f := (·.type.baseName)) hf
    rw [TypeDefinition.ownFields] at hmap
    rw [mentions]
    split at hmap
    · next hbody =>
      rw [hbody]
      exact List.mem_append_right _ hmap
    · next hbody =>
      rw [hbody]
      exact List.mem_append_right _ hmap
    · cases hmap
  rw [known, if_pos (hasType_of_mem_mentions h ht hmentioned)]

theorem bind_known_ownField? (h : s.undefinedReferences = []) {t : TypeDefinition} (ht : t ∈ s.types)
    (name : String) : (t.ownField? name).bind s.known = t.ownField? name := by
  cases hown : t.ownField? name with
  | none => rfl
  | some f => exact known_of_mem_ownFields h ht (List.mem_of_find?_eq_some hown)

theorem interfaceField?_eq_find? (h : s.undefinedReferences = []) (interface name : String) :
    s.interfaceField? interface name = (s.interfaceFields interface).find? (·.name = name) := by
  rw [interfaceField?, interfaceFields]
  split
  · next interfaces fields hbody =>
    obtain ⟨t, ht, -, hkind⟩ := exists_of_body? hbody
    have hown : t.ownField? name = fields.find? (·.name = name) := by
      rw [TypeDefinition.ownField?, TypeDefinition.ownFields, hkind]
    rw [← hown, bind_known_ownField? h ht]
  · rfl

/-! ## Fields of several types -/

theorem find?_addMissing (fields more : List FieldDefinition) (name : String) :
    (addMissing fields more).find? (·.name = name) =
      (fields.find? (·.name = name)).or (more.find? (·.name = name)) := by
  induction more generalizing fields with
  | nil => simp [addMissing]
  | cons f more ih =>
    rw [addMissing, List.foldl_cons, ← addMissing, ih]
    by_cases hthere : fields.any (·.name = f.name) = true
    · rw [if_pos hthere]
      by_cases hname : f.name = name
      · -- the name is there already, so that the field added here does not count
        obtain ⟨g, hg, hgname⟩ := List.any_eq_true.1 hthere
        have hsome : (fields.find? (·.name = name)).isSome :=
          List.find?_isSome.2 ⟨g, hg, by simpa [hname] using hgname⟩
        obtain ⟨found, hfound⟩ := Option.isSome_iff_exists.1 hsome
        rw [hfound, Option.some_or, Option.some_or]
      · rw [List.find?_cons_of_neg (by simpa using hname)]
    · rw [if_neg hthere, List.find?_append, Option.or_assoc]
      congr 1
      by_cases hname : f.name = name
      · simp [hname]
      · simp [hname]

theorem find?_foldl_addMissing (fieldsOf : String → List FieldDefinition) (interfaces : List String)
    (fields : List FieldDefinition) (name : String) :
    (interfaces.foldl (fun fields interface => addMissing fields (fieldsOf interface)) fields).find?
        (·.name = name) =
      (fields.find? (·.name = name)).or
        (interfaces.findSome? fun interface => (fieldsOf interface).find? (·.name = name)) := by
  induction interfaces generalizing fields with
  | nil => simp
  | cons interface interfaces ih =>
    rw [List.foldl_cons, ih, find?_addMissing, List.findSome?_cons, Option.or_assoc]
    congr 1
    cases (fieldsOf interface).find? (·.name = name) <;> rfl

theorem nodup_addMissing {fields : List FieldDefinition} (h : (fields.map (·.name)).Nodup)
    (more : List FieldDefinition) : ((addMissing fields more).map (·.name)).Nodup := by
  induction more generalizing fields with
  | nil => exact h
  | cons f more ih =>
    rw [addMissing, List.foldl_cons, ← addMissing]
    refine ih ?_
    by_cases hthere : fields.any (·.name = f.name) = true
    · rwa [if_pos hthere]
    · rw [if_neg hthere, List.map_append]
      refine List.nodup_append'.2 ⟨h, List.nodup_singleton _, List.disjoint_singleton.2 ?_⟩
      intro hmem
      obtain ⟨g, hg, hname⟩ := List.mem_map.1 hmem
      exact hthere (List.any_eq_true.2 ⟨g, hg, decide_eq_true hname⟩)

theorem nodup_foldl_addMissing (fieldsOf : String → List FieldDefinition) (interfaces : List String)
    {fields : List FieldDefinition} (h : (fields.map (·.name)).Nodup) :
    ((interfaces.foldl (fun fields interface => addMissing fields (fieldsOf interface)) fields).map
      (·.name)).Nodup := by
  induction interfaces generalizing fields with
  | nil => exact h
  | cons interface interfaces ih => exact ih (nodup_addMissing h _)

/-! ## First members -/

/-- The second name is that of a union, the first that of its first member. -/
def IsFirst (s : Schema) (part whole : String) : Prop :=
  ∃ rest, s.body? whole = some (.union (part :: rest))

/-- The listing of a type, inside of types that it is not among. -/
theorem fieldsAmong_available {inside : List String} {type : String} (hentered : type ∉ inside) :
    s.fieldsAmong (s.available inside) type =
      match s.body? type with
      | some (.object interfaces fields) =>
        interfaces.foldl (fun fields interface => addMissing fields (s.interfaceFields interface)) fields
      | some (.interface _ fields) => fields
      | some (.union (first :: _)) =>
        (s.fieldsAmong (s.available (type :: inside)) first).filterMap (s.field? type ·.name)
      | _ => [] := by
  have hfind := find?_available (s := s) hentered
  rw [fieldsAmong, body?]
  split
  · next hnone =>
    rw [hfind.symm.trans hnone]
    rfl
  · next t ht =>
    rw [hfind.symm.trans ht, Option.map_some]
    dsimp only
    cases hbody : t.body with
    | union members =>
      cases members with
      | nil => rfl
      | cons first rest => rw [available_cons]
    | _ => rfl

theorem not_mem_nil_of_isFirst {type : String} :
    ∀ part, ReflTransGen s.IsFirst part type → part ∉ ([] : List String) :=
  fun _ _ => List.not_mem_nil

section Acyclic

variable (hacyclic : ∀ type, ¬ TransGen s.IsFirst type type)

include hacyclic

/-- First members are inside of what their unions are inside of, and of the unions. -/
theorem not_mem_of_isFirst {inside : List String} {first type : String} (hfirst : s.IsFirst first type)
    (hinside : ∀ part, ReflTransGen s.IsFirst part type → part ∉ inside) :
    ∀ part, ReflTransGen s.IsFirst part first → part ∉ type :: inside := by
  intro part hreach hmem
  rcases List.mem_cons.1 hmem with rfl | hmem
  · exact hacyclic part (.tail' hreach hfirst)
  · exact hinside part (hreach.tail hfirst) hmem

theorem acc_isFirst {inside : List String} {type : String}
    (hinside : ∀ part, ReflTransGen s.IsFirst part type → part ∉ inside) : Acc s.IsFirst type := by
  induction hleft : (s.available inside).length using Nat.strongRecOn generalizing inside type with
  | _ left ih =>
    refine Acc.intro type fun first hfirst => ?_
    refine ih _ ?_ (not_mem_of_isFirst hacyclic hfirst hinside) rfl
    obtain ⟨rest, hbody⟩ := hfirst
    obtain ⟨t, ht, -⟩ := Option.map_eq_some_iff.1 hbody
    rw [← hleft, available_cons]
    exact length_without_lt ((find?_available (hinside type .refl)).trans ht)

/-- What a listing is inside of makes no difference. -/
theorem fieldsAmong_eq_fields {inside : List String} {type : String}
    (hinside : ∀ part, ReflTransGen s.IsFirst part type → part ∉ inside) :
    s.fieldsAmong (s.available inside) type = s.fields type := by
  have hall : s.available [] = s.types := by simp [available]
  induction acc_isFirst hacyclic hinside generalizing inside with
  | intro type _ ih =>
    rw [fields, ← hall, fieldsAmong_available (hinside type .refl), fieldsAmong_available List.not_mem_nil]
    split
    · rfl
    · rfl
    · next first rest hbody =>
      have hfirst : s.IsFirst first type := ⟨rest, hbody⟩
      rw [ih first hfirst (not_mem_of_isFirst hacyclic hfirst hinside),
        ih first hfirst (not_mem_of_isFirst hacyclic hfirst not_mem_nil_of_isFirst)]
    · rfl

/-- The listing of a type in terms of the listings of others, with no mention of what it is inside of. -/
theorem fields_eq (type : String) : s.fields type =
    match s.body? type with
    | some (.object interfaces fields) =>
      interfaces.foldl (fun fields interface => addMissing fields (s.interfaceFields interface)) fields
    | some (.interface _ fields) => fields
    | some (.union (first :: _)) => (s.fields first).filterMap (s.field? type ·.name)
    | _ => [] := by
  rw [← fieldsAmong_eq_fields hacyclic not_mem_nil_of_isFirst, fieldsAmong_available List.not_mem_nil]
  split
  · rfl
  · rfl
  · next first rest hbody =>
    have hfirst : s.IsFirst first type := ⟨rest, hbody⟩
    rw [fieldsAmong_eq_fields hacyclic (not_mem_of_isFirst hacyclic hfirst not_mem_nil_of_isFirst)]
  · rfl

end Acyclic

/-! ## Listing and searching -/

theorem find?_filterMap_lookup {lookup : String → Option FieldDefinition}
    (hlookup : ∀ name f, lookup name = some f → f.name = name) (fields : List FieldDefinition)
    (name : String) : (fields.filterMap (lookup ·.name)).find? (·.name = name) =
      (fields.find? (·.name = name)).bind fun _ => lookup name := by
  induction fields with
  | nil => rfl
  | cons f fields ih =>
    by_cases hname : f.name = name
    · rw [List.find?_cons_of_pos (by simpa using hname), Option.bind_some]
      cases hf : lookup name with
      | none => rw [List.filterMap_cons_none (hname ▸ hf), ih, hf, Option.bind_fun_none]
      | some g =>
        rw [List.filterMap_cons_some (hname ▸ hf)]
        exact List.find?_cons_of_pos (by simpa using hlookup name g hf)
    · rw [List.find?_cons_of_neg (by simpa using hname), ← ih]
      cases hf : lookup f.name with
      | none => simp only [List.filterMap_cons, hf]
      | some g =>
        simp only [List.filterMap_cons, hf]
        exact List.find?_cons_of_neg (by simpa [hlookup _ g hf] using hname)

theorem names_filterMap_lookup {lookup : String → Option FieldDefinition}
    (hlookup : ∀ name f, lookup name = some f → f.name = name) (fields : List FieldDefinition) :
    ((fields.filterMap (lookup ·.name)).map (·.name)).Sublist (fields.map (·.name)) := by
  induction fields with
  | nil => exact .slnil
  | cons f fields ih =>
    cases hf : lookup f.name with
    | none =>
      simp only [List.filterMap_cons, hf]
      exact ih.cons _
    | some g =>
      simp only [List.filterMap_cons, hf, List.map_cons, hlookup _ g hf]
      exact ih.cons_cons _

/-- An object lists its own fields and those of its interfaces. -/
theorem find?_of_object (hdefined : s.undefinedReferences = []) {type : String}
    {interfaces : List String} {fields : List FieldDefinition}
    (hbody : s.body? type = some (.object interfaces fields)) (name : String) :
    (interfaces.foldl (fun fields interface => addMissing fields (s.interfaceFields interface)) fields).find?
      (·.name = name) = s.field? type name := by
  obtain ⟨t, ht, -, hkind⟩ := exists_of_body? hbody
  have hown : t.ownFields = fields := by rw [TypeDefinition.ownFields, hkind]
  rw [find?_foldl_addMissing, field?_of_object hbody, ← findSome?_interfaceField?]
  simp only [interfaceField?_eq_find? hdefined]
  cases hfind : fields.find? (·.name = name) with
  | none => rfl
  | some own => exact (known_of_mem_ownFields hdefined ht (hown ▸ List.mem_of_find?_eq_some hfind)).symm

theorem find?_of_interface (hdefined : s.undefinedReferences = []) {type : String}
    {interfaces : List String} {fields : List FieldDefinition}
    (hbody : s.body? type = some (.interface interfaces fields)) (name : String) :
    fields.find? (·.name = name) = s.field? type name := by
  obtain ⟨t, ht, -, hkind⟩ := exists_of_body? hbody
  have hown : t.ownField? name = fields.find? (·.name = name) := by
    rw [TypeDefinition.ownField?, TypeDefinition.ownFields, hkind]
  rw [(answers_field? s name).interface hbody, ← hown, bind_known_ownField? hdefined ht]

/-- A union lists what its first member lists, as far as all members have it. -/
theorem find?_of_union {type first : String} {rest : List String}
    (hbody : s.body? type = some (.union (first :: rest))) {fields : List FieldDefinition}
    (hfirst : ∀ name, fields.find? (·.name = name) = s.field? first name) :
    (∀ name f, s.field? type name = some f → f.name = name) ∧
      ∀ name, (fields.filterMap (s.field? type ·.name)).find? (·.name = name) = s.field? type name := by
  have hcommon {name : String} {f : FieldDefinition} (h : s.field? type name = some f) :
      s.field? first name = some f := by
    obtain ⟨_, _, heq, hf, -⟩ := ((answers_field? s name).union hbody f).1 h
    cases heq
    exact hf
  have hname : ∀ name f, s.field? type name = some f → f.name = name := by
    intro name f hf
    have hfound := (hfirst name).trans (hcommon hf)
    simpa using List.find?_some hfound
  refine ⟨hname, fun name => ?_⟩
  rw [find?_filterMap_lookup hname, hfirst]
  cases hf : s.field? type name with
  | none => exact Option.bind_fun_none _
  | some f => rw [hcommon hf, Option.bind_some]

/-- The listing of a type has the fields that can be found on it, and says of each what the search finds.
It names none twice if the types do not in what they declare. -/
theorem find?_fields (hdefined : s.undefinedReferences = [])
    (hacyclic : ∀ type, ¬ TransGen s.IsFirst type type) (type : String) :
    (∀ name, (s.fields type).find? (·.name = name) = s.field? type name) ∧
      ((∀ t ∈ s.types, (t.ownFields.map (·.name)).Nodup) → ((s.fields type).map (·.name)).Nodup) := by
  have hacc : Acc s.IsFirst type := acc_isFirst hacyclic not_mem_nil_of_isFirst
  induction hacc with
  | intro type _ ih =>
    rw [fields_eq hacyclic]
    have hother (hobject : s.isObject type = false) (hinterface : s.isInterface type = false)
        (hunion : s.isUnion type = false) (name : String) : none = s.field? type name :=
      ((answers_field? s name).other hobject hinterface hunion).symm
    cases hbody : s.body? type with
    | none =>
      exact ⟨hother (by simp [isObject, hbody]) (by simp [isInterface, hbody]) (by simp [isUnion, hbody]),
        fun _ => List.nodup_nil⟩
    | some body =>
      cases body with
      | object interfaces fields =>
        obtain ⟨t, ht, -, hkind⟩ := exists_of_body? hbody
        refine ⟨find?_of_object hdefined hbody, fun hown => nodup_foldl_addMissing _ _ ?_⟩
        simpa [TypeDefinition.ownFields, hkind] using hown t ht
      | interface interfaces fields =>
        obtain ⟨t, ht, -, hkind⟩ := exists_of_body? hbody
        refine ⟨find?_of_interface hdefined hbody, fun hown => ?_⟩
        simpa [TypeDefinition.ownFields, hkind] using hown t ht
      | union members =>
        cases members with
        | nil => exact ⟨fun name => (field?_of_union hbody name).symm, fun _ => List.nodup_nil⟩
        | cons first rest =>
          obtain ⟨hfirst, hnodup⟩ := ih first ⟨rest, hbody⟩
          obtain ⟨hname, hfind⟩ := find?_of_union hbody hfirst
          exact ⟨hfind, fun hown => (names_filterMap_lookup hname _).nodup (hnodup hown)⟩
      | _ =>
        exact ⟨hother (by simp [isObject, hbody]) (by simp [isInterface, hbody]) (by simp [isUnion, hbody]),
          fun _ => List.nodup_nil⟩

theorem not_transGen_isFirst_feed (type : String) : ¬ TransGen feed.IsFirst type type := by
  have hunion {name : String} {members : List String} (h : feed.body? name = some (.union members)) :
      name = "Item" ∧ members = ["Post", "Clip"] := by
    obtain ⟨t, ht, rfl, hkind⟩ := exists_of_body? h
    simp only [feed, initial, builtinScalars, List.map_cons, List.map_nil, List.cons_append,
      List.nil_append, List.mem_cons, List.not_mem_nil, or_false] at ht
    rcases ht with rfl | rfl | rfl | rfl | rfl | rfl | rfl | rfl | rfl | rfl <;> cases hkind
    exact ⟨rfl, rfl⟩
  intro hcycle
  obtain ⟨whole, ⟨_, hwhole⟩, -⟩ := TransGen.head'_iff.1 hcycle
  obtain ⟨first, -, ⟨_, htype⟩⟩ := TransGen.tail'_iff.1 hcycle
  obtain ⟨-, hmembers⟩ := hunion hwhole
  obtain ⟨hname, -⟩ := hunion htype
  rw [hname] at hmembers
  exact absurd (List.cons.inj hmembers).1 (by decide)

/-- The union lists the two fields that its members have in common. -/
theorem find?_fields_feed :
    feed.undefinedReferences = [] ∧ (∀ type, ¬ TransGen feed.IsFirst type type) ∧
      (feed.fields "Item").map (·.name) = ["tags", "owner"] ∧
      (∀ name, (feed.fields "Item").find? (·.name = name) = feed.field? "Item" name) ∧
      ((feed.fields "Item").map (·.name)).Nodup := by
  have hdefined : feed.undefinedReferences = [] := by decide
  have hown : ∀ t ∈ feed.types, (t.ownFields.map (·.name)).Nodup := by decide
  obtain ⟨hfind, hnodup⟩ := find?_fields hdefined not_transGen_isFirst_feed "Item"
  exact ⟨hdefined, not_transGen_isFirst_feed, by decide +kernel, hfind, hnodup hown⟩

end FragmentShapes.Schema
