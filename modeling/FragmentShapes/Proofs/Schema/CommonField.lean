import FragmentShapes.Proofs.Schema.Kinds

/-!
# What a common field promises

A field of a union speaks for a field of each member. `Schema.compatible_iff` says what goes together: the
lists nest alike, and the innermost types have one name and keep their promise not to be null, or are an
interface and an object that implements it. `Schema.exists_field?_of_union` carries this to the members of
a union. Nothing is promised of the lists themselves, nor of an interface beside its object
(`Schema.feed_overpromises`).
-/

namespace FragmentShapes

namespace TypeRef

/-- How many lists the innermost type is in. -/
def depth : TypeRef → Nat
  | named .. => 0
  | list element _ => element.depth + 1

/-- The innermost level may be null. -/
def baseIsNullable : TypeRef → Bool
  | named _ nullable => nullable
  | list element _ => element.baseIsNullable

/-- The lists nest alike, and what may not be null in the first reference may not be null in the second. -/
def IsKeptBy : TypeRef → TypeRef → Prop
  | named _ nullable, named _ nullable' => nullable = false → nullable' = false
  | list element nullable, list element' nullable' =>
    (nullable = false → nullable' = false) ∧ element.IsKeptBy element'
  | _, _ => False

end TypeRef

namespace Schema

variable {s : Schema}

/-! ## Types that go together -/

/-- One name is that of an interface, the other that of an object that implements it. -/
def related (s : Schema) (first second : String) : Bool :=
  (s.isInterface first && s.implements second first) ||
    (s.isInterface second && s.implements first second)

theorem compatible_iff {first second : TypeRef} :
    s.compatible first second = true ↔ first.depth = second.depth ∧
      (first.baseName = second.baseName →
        first.baseIsNullable = false → second.baseIsNullable = false) ∧
      (first.baseName ≠ second.baseName → s.related first.baseName second.baseName = true) := by
  induction first generalizing second with
  | named name nullable =>
    cases second with
    | list => simp [compatible, TypeRef.depth]
    | named name' nullable' =>
      rw [compatible]
      simp only [TypeRef.depth, TypeRef.baseName, TypeRef.baseIsNullable, true_and]
      by_cases hname : name = name'
      · cases nullable <;> cases nullable' <;> simp [hname]
      · rw [if_pos hname, related]
        simp [hname]
  | list element nullable ih =>
    cases second with
    | named => simp [compatible, TypeRef.depth]
    | list element' nullable' =>
      rw [compatible, ih]
      simp only [TypeRef.depth, TypeRef.baseName, TypeRef.baseIsNullable, Nat.add_right_cancel_iff]

theorem compatible_self (s : Schema) (type : TypeRef) : s.compatible type type = true :=
  compatible_iff.2 ⟨rfl, fun _ => id, fun h => absurd rfl h⟩

/-! ## Members of a union -/

/-- The common field is that of the first member, and goes together with that of each. -/
theorem compatible_of_commonField {lookup : String → Option FieldDefinition} {members : List String}
    {f : FieldDefinition} (h : s.commonField lookup members = some f) :
    ∀ member ∈ members, ∃ g, lookup member = some g ∧ s.compatible f.type g.type = true := by
  cases members with
  | nil => cases h
  | cons first rest =>
    obtain ⟨own, hown, h⟩ := Option.bind_eq_some_iff.1 h
    split_ifs at h with hall
    cases h
    intro member hmember
    rcases List.mem_cons.1 hmember with rfl | hmember
    · exact ⟨f, hown, s.compatible_self f.type⟩
    · obtain ⟨g, hg, hcompatible⟩ := Option.any_eq_true _ _ |>.1 (List.all_eq_true.1 hall member hmember)
      exact ⟨g, hg, hcompatible⟩

theorem fieldAmong_of_find? {available : List TypeDefinition} {type : String} {t : TypeDefinition}
    (h : available.find? (·.name = type) = some t) (field : String) :
    s.fieldAmong available type field =
      match t.body with
      | .object interfaces _ =>
        match t.ownField? field with
        | some own => s.known own
        | none => interfaces.findSome? (s.interfaceField? · field)
      | .interface .. => (t.ownField? field).bind s.known
      | .union members =>
        s.commonField (fun member => s.fieldAmong (without type available) member field) members
      | _ => none := by
  rw [fieldAmong]
  split
  · next hnone =>
    rw [hnone] at h
    cases h
  · next t' ht' =>
    rw [ht'] at h
    cases h
    rfl

theorem fieldAmong_of_find?_eq_none {available : List TypeDefinition} {type : String}
    (h : available.find? (·.name = type) = none) (field : String) :
    s.fieldAmong available type field = none := by
  rw [fieldAmong]
  split
  · rfl
  · next t ht =>
    rw [ht] at h
    cases h

/-- What is left out under other names changes no look-up. -/
theorem find?_name_filter {types : List TypeDefinition} {keep : TypeDefinition → Bool} {type : String}
    (h : ∀ t, t.name = type → keep t = true) :
    (types.filter keep).find? (·.name = type) = types.find? (·.name = type) := by
  rw [List.find?_filter]
  congr 1
  funext t
  by_cases ht : t.name = type
  · simp [ht, h t ht]
  · simp [ht]

theorem find?_without {types : List TypeDefinition} {name type : String} (h : type ≠ name) :
    (without name types).find? (·.name = type) = types.find? (·.name = type) :=
  find?_name_filter fun _ ht => decide_eq_true (ht ▸ h)

theorem isUnion_of_isInterface {name : String} (h : s.isInterface name = true) :
    s.isUnion name = false := by
  rw [isInterface] at h
  rw [isUnion]
  split at h
  · next hbody => rw [hbody]
  · cases h

theorem isUnion_of_mem_unionMembersOf {union member : String} (h : member ∈ s.unionMembersOf union) :
    s.isUnion union = true := by
  rw [unionMembersOf] at h
  rw [isUnion]
  split at h
  · rfl
  · cases h

/-- A union that is being looked at makes no difference to the fields of objects and interfaces. -/
theorem fieldAmong_without {union member : String} (hunion : s.isUnion union = true)
    (hmember : s.isObject member = true ∨ s.isInterface member = true) (field : String) :
    s.fieldAmong (without union s.types) member field = s.field? member field := by
  have hplain : s.isUnion member = false := hmember.elim isUnion_of_isObject isUnion_of_isInterface
  have hne : member ≠ union := by
    rintro rfl
    rw [hplain] at hunion
    cases hunion
  have hsame : (without union s.types).find? (·.name = member) = s.types.find? (·.name = member) :=
    find?_without hne
  cases ht : s.types.find? (·.name = member) with
  | none =>
    rw [field?, fieldAmong_of_find?_eq_none ht, fieldAmong_of_find?_eq_none (hsame.trans ht)]
  | some t =>
    rw [field?, fieldAmong_of_find? ht, fieldAmong_of_find? (hsame.trans ht)]
    have hbody : s.body? member = some t.body := by rw [body?, type?, ht, Option.map_some]
    rw [isUnion, hbody] at hplain
    cases hkind : t.body with
    | union members =>
      rw [hkind] at hplain
      cases hplain
    | _ => rfl

theorem field?_of_isUnion {union : String} (hunion : s.isUnion union = true) (field : String) :
    s.field? union field = s.commonField
      (fun member => s.fieldAmong (without union s.types) member field) (s.unionMembersOf union) := by
  rw [isUnion] at hunion
  split at hunion
  · next members hbody =>
    obtain ⟨t, ht, hbody'⟩ := Option.map_eq_some_iff.1 hbody
    rw [field?, fieldAmong_of_find? ht, unionMembersOf, hbody]
    dsimp only
    rw [hbody']
  · cases hunion

/-- The common field of a union of objects and interfaces is one that every member has, inside as many
lists. The innermost types have one name, and then the member's may not be null unless the common one
may, or they are an interface and an object that implements it. -/
theorem exists_field?_of_union {union field : String} {f : FieldDefinition}
    (hmembers : ∀ member ∈ s.unionMembersOf union,
      s.isObject member = true ∨ s.isInterface member = true)
    (hf : s.field? union field = some f) :
    ∀ member ∈ s.unionMembersOf union, ∃ g, s.field? member field = some g ∧
      f.type.depth = g.type.depth ∧
      (f.type.baseName = g.type.baseName →
        f.type.baseIsNullable = false → g.type.baseIsNullable = false) ∧
      (f.type.baseName ≠ g.type.baseName →
        s.related f.type.baseName g.type.baseName = true) := by
  intro member hmember
  have hunion : s.isUnion union = true := isUnion_of_mem_unionMembersOf hmember
  rw [field?_of_isUnion hunion] at hf
  obtain ⟨g, hg, hcompatible⟩ := compatible_of_commonField hf member hmember
  rw [fieldAmong_without hunion (hmembers member hmember)] at hg
  exact ⟨g, hg, compatible_iff.1 hcompatible⟩

end Schema

/-! ## A union that promises too much -/

/-- Posts have tags and an owner; clips may lack both. -/
def Schema.feed : Schema where
  types := Schema.initial.types ++ [
    { name := "Node", body := .interface [] [{ name := "id", type := .named "ID" true }] },
    { name := "User", body := .object ["Node"] [{ name := "id", type := .named "ID" true }] },
    { name := "Post"
      body := .object [] [
        { name := "tags", type := .list (.named "ID" false) false },
        { name := "owner", type := .named "Node" false }] },
    { name := "Clip"
      body := .object [] [
        { name := "tags", type := .list (.named "ID" false) true },
        { name := "owner", type := .named "User" true }] },
    { name := "Item", body := .union ["Post", "Clip"] }]

theorem Schema.parse_feed : Schema.parse
    "interface Node { id: ID }
     type User implements Node { id: ID }
     type Post { tags: [ID!]! owner: Node! }
     type Clip { tags: [ID!] owner: User }
     union Item = Post | Clip" = .ok Schema.feed := by
  rw [parse_ofList]
  decide +kernel

theorem Schema.field?_feed_tags :
    Schema.feed.field? "Item" "tags" =
        some { name := "tags", type := .list (.named "ID" false) false } ∧
      Schema.feed.field? "Clip" "tags" =
        some { name := "tags", type := .list (.named "ID" false) true } :=
  ⟨by decide +kernel, by decide +kernel⟩

theorem Schema.field?_feed_owner :
    Schema.feed.field? "Item" "owner" = some { name := "owner", type := .named "Node" false } ∧
      Schema.feed.field? "Clip" "owner" = some { name := "owner", type := .named "User" true } :=
  ⟨by decide +kernel, by decide +kernel⟩

/-- The tags of clips, if there are any, are not null, as promised. -/
theorem Schema.exists_field?_feed :
    (∀ member ∈ Schema.feed.unionMembersOf "Item",
      Schema.feed.isObject member = true ∨ Schema.feed.isInterface member = true) ∧
    ∃ f, Schema.feed.field? "Item" "tags" = some f ∧ f.type.baseIsNullable = false ∧
      ∃ g, Schema.feed.field? "Clip" "tags" = some g ∧ g.type.baseIsNullable = false := by
  have hmembers : ∀ member ∈ Schema.feed.unionMembersOf "Item",
      Schema.feed.isObject member = true ∨ Schema.feed.isInterface member = true := by decide
  obtain ⟨htags, hclip⟩ := field?_feed_tags
  refine ⟨hmembers, _, htags, rfl, _, hclip, ?_⟩
  obtain ⟨g, hg, -, hbase, -⟩ := exists_field?_of_union hmembers htags "Clip" (by decide)
  rw [hclip] at hg
  cases hg
  exact hbase rfl rfl

/-- The union of a document has fields of which a member does not keep what they promise: there may be no
list of tags, and no owner. -/
theorem Schema.feed_overpromises :
    (∃ text, Schema.parse text = .ok Schema.feed) ∧
    (∀ member ∈ Schema.feed.unionMembersOf "Item", Schema.feed.isObject member = true) ∧
    "Clip" ∈ Schema.feed.unionMembersOf "Item" ∧
    ∀ field ∈ ["tags", "owner"], ∃ f g, Schema.feed.field? "Item" field = some f ∧
      Schema.feed.field? "Clip" field = some g ∧ ¬ f.type.IsKeptBy g.type := by
  refine ⟨⟨_, parse_feed⟩, by decide, by decide, ?_⟩
  simp only [List.forall_mem_cons]
  refine ⟨⟨_, _, field?_feed_tags.1, field?_feed_tags.2, ?_⟩,
    ⟨_, _, field?_feed_owner.1, field?_feed_owner.2, ?_⟩, by simp⟩
  · rintro ⟨hlist, -⟩
    cases hlist rfl
  · intro hbase
    cases hbase rfl

end FragmentShapes
