import FragmentShapes.Target
import Mathlib.Data.List.Forall2
import Mathlib.Tactic.Common

/-!
# Targets, level by level

Whether a value may be absent is kept twice: as a flag, and in the text of the annotation, which may come
from a custom mapping. `ScalarMapping.levels_agree`: the two agree at every level of every target, and the
levels of a target are those of its reference.

Scalars can be mapped without a reference as well. This does not look at whether types that may not be
null count as such; `ScalarMapping.ofScalar_eq_ofTypeRef_iff` says where it comes to the same.
-/

namespace FragmentShapes

/-- The reference and those inside it, from the outside in. -/
def TypeRef.levels : TypeRef → List TypeRef
  | .named name nullable => [.named name nullable]
  | .list element nullable => .list element nullable :: element.levels

namespace Target

/-- The target and those inside it, from the outside in. -/
def levels : Target → List Target
  | leaf name text nullable => [leaf name text nullable]
  | list element text nullable => list element text nullable :: element.levels

def isList : Target → Bool
  | leaf .. => false
  | list .. => true

theorem levels_ofBase (base : String) (nullable : Bool) :
    (ofBase base nullable).levels = [ofBase base nullable] := rfl

theorem levels_listOf (element : Target) (nullable : Bool) :
    (listOf element nullable).levels = listOf element nullable :: element.levels := rfl

/-- The target at the base, inside all lists. -/
def innermost : Target → Target
  | leaf name text nullable => leaf name text nullable
  | list element _ _ => element.innermost

/-! ## Annotations -/

/-- What counts of an annotation: all but its spaces. -/
def withoutSpaces (text : String) : List Char := text.toList.filter (· != ' ')

theorem withoutSpaces_append (text more : String) :
    withoutSpaces (text ++ more) = withoutSpaces text ++ withoutSpaces more := by
  simp [withoutSpaces]

theorem isOptional_eq (text : String) :
    isOptional text = (withoutSpaces text == "None".toList ||
      "|None".toList.isSuffixOf (withoutSpaces text) || "None|".toList.isPrefixOf (withoutSpaces text) ||
      "Optional[".toList.isPrefixOf (withoutSpaces text) ||
      "typing.Optional[".toList.isPrefixOf (withoutSpaces text)) := rfl

/-- The mark is recognised behind every annotation. -/
theorem isOptional_marked (text : String) : isOptional (text ++ " | None") = true := by
  have hmark : withoutSpaces " | None" = "|None".toList := by decide
  have hsuffix : "|None".toList.isSuffixOf (withoutSpaces (text ++ " | None")) = true := by
    rw [withoutSpaces_append, hmark, List.isSuffixOf_iff_suffix]
    exact List.suffix_append _ _
  rw [isOptional_eq, hsuffix]
  simp

/-- The annotation of a list is not taken for an optional one, whatever that of its items is. -/
theorem isOptional_list (text : String) : isOptional ("list[" ++ text ++ "]") = false := by
  have hopen : withoutSpaces "list[" = "list[".toList := by decide
  have hclose : withoutSpaces "]" = [']'] := by decide
  have hchars : withoutSpaces ("list[" ++ text ++ "]") =
      'l' :: ("ist[".toList ++ withoutSpaces text ++ [']']) := by
    rw [withoutSpaces_append, withoutSpaces_append, hopen, hclose]
    rfl
  have hlast : "|None".toList.isSuffixOf (withoutSpaces ("list[" ++ text ++ "]")) = false := by
    rw [hchars, ← List.cons_append, List.isSuffixOf, List.reverse_append]
    rfl
  rw [isOptional_eq, hlast, hchars]
  rfl

theorem isOptional_makeOptional (text : String) : isOptional (makeOptional text) = true := by
  rw [makeOptional]
  split
  · next h => exact h
  · exact isOptional_marked text

theorem makeOptional_eq_self_iff {text : String} : makeOptional text = text ↔ isOptional text = true := by
  constructor
  · intro h
    rw [← h]
    exact isOptional_makeOptional text
  · intro h
    exact if_pos h

/-- A list that may be null is marked, once, and no other list is. -/
theorem text_listOf (element : Target) (nullable : Bool) :
    (listOf element nullable).text =
      "list[" ++ element.text ++ "]" ++ if nullable then " | None" else "" := by
  cases nullable with
  | false => simp [listOf, text]
  | true => simp [listOf, text, makeOptional, isOptional_list]

/-! ## Flags -/

theorem isNullable_listOf (element : Target) (nullable : Bool) :
    (listOf element nullable).isNullable = isOptional (listOf element nullable).text := by
  rw [text_listOf]
  cases nullable with
  | false => simp [listOf, isNullable, isOptional_list]
  | true => simp [listOf, isNullable, isOptional_marked]

theorem isNullable_ofBase (base : String) (nullable : Bool) :
    (ofBase base nullable).isNullable = isOptional (ofBase base nullable).text := by
  cases nullable with
  | false => simp [ofBase, isNullable, text]
  | true => simp [ofBase, isNullable, text, isOptional_makeOptional]

/-- Whether it may be null makes no difference to a base that is optional by itself, and only to it. -/
theorem ofBase_eq_iff {base : String} {nullable nullable' : Bool} :
    ofBase base nullable = ofBase base nullable' ↔ nullable = nullable' ∨ isOptional base = true := by
  have hmarked : ofBase base false = ofBase base true ↔ isOptional base = true := by
    constructor
    · intro h
      exact makeOptional_eq_self_iff.1 (congrArg text h).symm
    · intro h
      simp [ofBase, makeOptional_eq_self_iff.2 h, h]
  cases nullable <;> cases nullable'
  · simp
  · simp [hmarked]
  · simp [eq_comm (a := ofBase base true), hmarked]
  · simp

theorem listOf_inj {element element' : Target} {nullable : Bool} :
    listOf element nullable = listOf element' nullable ↔ element = element' := by
  constructor
  · intro h
    exact (list.inj h).1
  · rintro rfl
    rfl

/-- A target at one level, for the reference at this level: its name is the representation at the base,
its flag says what its annotation says, and it is nullable where the reference is; at the base also where
null is not ruled out at all, and where the representation is optional by itself. -/
structure Renders (representation : String) (enforceNonNull : Bool) (level : Target) (t : TypeRef) :
    Prop where
  isList : level.isList = t.isList
  name : level.name = representation
  flag : level.isNullable = true ↔ isOptional level.text = true
  ofList : t.isList = true → level.isNullable = t.isNullable
  ofBase : t.isList = false →
    (level.isNullable = true ↔
      t.isNullable = true ∨ enforceNonNull = false ∨ isOptional representation = true)

end Target

namespace ScalarMapping

/-- What stands at the base of a reference: a shape, if its path is given, else the representation of the
scalar. -/
def representation (m : ScalarMapping) (shape : Option String) (scalar : String) : String :=
  (shape.filter fun path => path ≠ "").getD (base m.custom scalar)

theorem ofTypeRef_named (m : ScalarMapping) (shape : Option String) (name : String) (nullable : Bool) :
    m.ofTypeRef shape (.named name nullable) =
      .ofBase (m.representation shape name) (nullable || !m.enforceNonNull) := by
  cases shape with
  | none => rfl
  | some path =>
    rw [ofTypeRef, representation, Option.filter_some]
    by_cases h : path = "" <;> simp [h]

theorem ofTypeRef_list (m : ScalarMapping) (shape : Option String) (element : TypeRef)
    (nullable : Bool) :
    m.ofTypeRef shape (.list element nullable) = .listOf (m.ofTypeRef shape element) nullable := rfl

theorem ofScalar_single (custom : KeyedList String) (scalar : String) (nullable : Bool) :
    ofScalar custom scalar false nullable = .ofBase (base custom scalar) nullable := rfl

theorem ofScalar_list (custom : KeyedList String) (scalar : String) (nullable : Bool) :
    ofScalar custom scalar true nullable = .listOf (.ofBase (base custom scalar) false) nullable := rfl

theorem name_ofTypeRef (m : ScalarMapping) (shape : Option String) (t : TypeRef) :
    (m.ofTypeRef shape t).name = m.representation shape t.baseName := by
  induction t with
  | named name nullable => rw [ofTypeRef_named]; rfl
  | list element nullable ih => exact ih

theorem renders_named (m : ScalarMapping) (shape : Option String) (name : String) (nullable : Bool) :
    Target.Renders (m.representation shape name) m.enforceNonNull
      (m.ofTypeRef shape (.named name nullable)) (.named name nullable) := by
  rw [ofTypeRef_named]
  refine
    { isList := rfl
      name := rfl
      flag := by rw [Target.isNullable_ofBase]
      ofList := nofun
      ofBase := fun _ => ?_ }
  simp [Target.ofBase, Target.isNullable, TypeRef.isNullable, or_assoc]

theorem renders_list (m : ScalarMapping) (shape : Option String) (element : TypeRef)
    (nullable : Bool) :
    Target.Renders (m.representation shape element.baseName) m.enforceNonNull
      (m.ofTypeRef shape (.list element nullable)) (.list element nullable) where
  isList := rfl
  name := m.name_ofTypeRef shape element
  flag := by rw [ofTypeRef_list, Target.isNullable_listOf]
  ofList := fun _ => rfl
  ofBase := nofun

/-- The target of a reference has the levels of the reference, and at each of them its flag and its
annotation agree, as do the flags and annotations of scalars that are mapped without a reference. -/
theorem levels_agree (m : ScalarMapping) :
    (∀ (shape : Option String) (t : TypeRef),
      List.Forall₂ (Target.Renders (m.representation shape t.baseName) m.enforceNonNull)
        (m.ofTypeRef shape t).levels t.levels) ∧
    ∀ (custom : KeyedList String) (scalar : String) (isList nullable : Bool),
      ∀ level ∈ (ofScalar custom scalar isList nullable).levels,
        level.isNullable = true ↔ Target.isOptional level.text = true := by
  constructor
  · intro shape t
    induction t with
    | named name nullable =>
      have hrenders := m.renders_named shape name nullable
      rw [ofTypeRef_named] at hrenders ⊢
      exact .cons hrenders .nil
    | list element nullable ih => exact .cons (m.renders_list shape element nullable) ih
  · intro custom scalar isList nullable level hlevel
    cases isList with
    | false =>
      rw [ofScalar_single, Target.levels_ofBase, List.mem_singleton] at hlevel
      rw [hlevel, Target.isNullable_ofBase]
    | true =>
      rw [ofScalar_list, Target.levels_listOf, Target.levels_ofBase, List.mem_pair] at hlevel
      rcases hlevel with hlevel | hlevel
      · rw [hlevel, Target.isNullable_listOf]
      · rw [hlevel, Target.isNullable_ofBase]

/-- A mapping to a text that is optional by itself, below two lists. -/
example :
    (({ custom := [("Date", "Optional[date]")] } : ScalarMapping).ofTypeRef none
        (.list (.list (.named "Date" false) true) false)).levels.map
      (fun level => (level.text, level.isNullable)) =
    [("list[list[Optional[date]] | None]", false), ("list[Optional[date]] | None", true),
      ("Optional[date]", true)] := by decide

/-! ## Scalars -/

theorem innermost_ofScalar (custom : KeyedList String) (scalar : String) (isList nullable : Bool) :
    (ofScalar custom scalar isList nullable).innermost =
      .ofBase (base custom scalar) (!isList && nullable) := by
  cases isList <;> rfl

theorem innermost_ofTypeRef (m : ScalarMapping) (shape : Option String) (t : TypeRef)
    (h : m.enforceNonNull = false) :
    (m.ofTypeRef shape t).innermost = .ofBase (m.representation shape t.baseName) true := by
  induction t with
  | named name nullable =>
    rw [ofTypeRef_named, h]
    simp [Target.ofBase, Target.innermost, TypeRef.baseName]
  | list element nullable ih => exact ih

/-- A scalar has the target of a reference to it, and a list of it that of a reference to a list of it
that are not null, exactly if types that may not be null count as such, the scalar may be null, or its
representation is optional by itself. Where they do not count, all that stands at the base of a
reference is nullable, but a scalar only if it is asked for, or optional by itself. -/
theorem ofScalar_eq_ofTypeRef_iff (m : ScalarMapping) (scalar : String) (nullable : Bool) :
    (ofScalar m.custom scalar false nullable = m.ofTypeRef none (.named scalar nullable) ↔
      m.enforceNonNull = true ∨ nullable = true ∨
        Target.isOptional (base m.custom scalar) = true) ∧
    (ofScalar m.custom scalar true nullable =
        m.ofTypeRef none (.list (.named scalar false) nullable) ↔
      m.enforceNonNull = true ∨ Target.isOptional (base m.custom scalar) = true) ∧
    (m.enforceNonNull = false → ∀ (shape : Option String) (t : TypeRef),
      (m.ofTypeRef shape t).innermost.isNullable = true) ∧
    ∀ isList : Bool, (ofScalar m.custom scalar isList nullable).innermost.isNullable = true ↔
      isList = false ∧ nullable = true ∨ Target.isOptional (base m.custom scalar) = true := by
  have hnamed (nullable : Bool) : m.ofTypeRef none (.named scalar nullable) =
      .ofBase (base m.custom scalar) (nullable || !m.enforceNonNull) := rfl
  refine ⟨?_, ?_, ?_, ?_⟩
  · rw [ofScalar_single, hnamed, Target.ofBase_eq_iff]
    cases nullable <;> cases m.enforceNonNull <;> simp
  · rw [ofScalar_list, ofTypeRef_list, hnamed, Target.listOf_inj, Target.ofBase_eq_iff]
    cases m.enforceNonNull <;> simp
  · intro h shape t
    rw [innermost_ofTypeRef m shape t h]
    rfl
  · intro isList
    rw [innermost_ofScalar]
    simp [Target.ofBase, Target.isNullable]

/-- Where types that may not be null do not count, a scalar is not mapped as a reference to it, and the
items of a list are not nullable. -/
theorem ofScalar_ne_ofTypeRef_int :
    ofScalar [] "Int" false false ≠
        ({ enforceNonNull := false } : ScalarMapping).ofTypeRef none (.named "Int" false) ∧
      (ofScalar [] "Int" true true).innermost.isNullable = false ∧
      (({ enforceNonNull := false } : ScalarMapping).ofTypeRef none
        (.list (.named "Int" false) true)).innermost.isNullable = true := by
  decide

end ScalarMapping

end FragmentShapes
