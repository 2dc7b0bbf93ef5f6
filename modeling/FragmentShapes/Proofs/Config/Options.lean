import FragmentShapes.Config
import FragmentShapes.Proofs.KeyedList
import Mathlib.Data.List.Nodup
import Mathlib.Tactic.Common

/-!
# Reading options

Which values a reader accepts does not depend on where they stand (`Config.Reader.Accepts`). An object is
a configuration exactly if its keys are spellings of options, none of them twice, and every option is given
a value that its reader accepts, or none: `Config.ofMembers_eq_ok_iff`.
-/

namespace FragmentShapes.Config

/-! ## Readers -/

/-- The values that a reader accepts, wherever they stand, and what they stand for. Something is said to be
wrong with all others. -/
structure Reader.Accepts {α : Type} (read : Reader α) (standsFor : Json → α → Prop) : Prop where
  ok_iff : ∀ location value a, read location value = .ok a ↔ standsFor value a
  blames : ∀ location value, read location value ≠ .error []

section Readers

variable {α β : Type}

theorem map_eq_ok_iff {x : Except (List Problem) α} {f : α → β} {b : β} :
    f <$> x = .ok b ↔ ∃ a, x = .ok a ∧ f a = b := by
  cases x <;> simp [Functor.map, Except.map]

theorem map_ne {x : Except (List Problem) α} (h : x ≠ .error []) (f : α → β) :
    f <$> x ≠ .error [] := by
  cases x with
  | ok a => nofun
  | error problems =>
    intro heq
    exact h (congrArg Except.error (Except.error.inj heq))

theorem both_eq_ok_iff {x : Except (List Problem) α} {y : Except (List Problem) β} {a : α} {b : β} :
    both x y = .ok (a, b) ↔ x = .ok a ∧ y = .ok b := by
  cases x <;> cases y <;> simp [both]

theorem both_ne {x : Except (List Problem) α} {y : Except (List Problem) β} (hx : x ≠ .error [])
    (hy : y ≠ .error []) : both x y ≠ .error [] := by
  cases x <;> cases y <;> simp_all [both]

end Readers

theorem readText_accepts : Reader.Accepts readText fun value text => value = .string text where
  ok_iff := fun location value text => by cases value <;> simp [readText, fail]
  blames := fun location value => by cases value <;> simp [readText, fail]

theorem readNonempty_accepts :
    Reader.Accepts readNonempty fun value text => value = .string text ∧ text ≠ "" where
  ok_iff := fun location value text => by
    cases value with
    | string text' =>
      by_cases h : text' = "" <;> simp only [readNonempty, h, if_true, if_false, fail]
      · simp
      · simp only [Except.ok.injEq, Json.string.injEq, iff_self_and]
        rintro rfl
        exact h
    | _ => simp [readNonempty, fail]
  blames := fun location value => by
    cases value with
    | string text => by_cases h : text = "" <;> simp [readNonempty, fail, h]
    | _ => simp [readNonempty, fail]

theorem readBool_accepts : Reader.Accepts readBool fun value b => value = .bool b where
  ok_iff := fun location value b => by cases value <;> simp [readBool, fail]
  blames := fun location value => by cases value <;> simp [readBool, fail]

theorem readNat_accepts : Reader.Accepts readNat fun value (n : Nat) => value = .integer n where
  ok_iff := fun location value n => by
    cases value with
    | integer i =>
      by_cases h : i < 0 <;> simp only [readNat, h, if_true, if_false, fail, Json.integer.injEq]
      · have hne : i ≠ n := by omega
        simp [hne]
      · rw [Except.ok.injEq]
        omega
    | _ => simp [readNat, fail]
  blames := fun location value => by
    cases value with
    | integer i => by_cases h : i < 0 <;> simp [readNat, fail, h]
    | _ => simp [readNat, fail]

theorem readTextsFrom_eq_ok_iff {location : String} {index : Nat} {items : List Json}
    {texts : List String} :
    readTextsFrom location index items = .ok texts ↔ items = texts.map .string := by
  induction items generalizing index texts with
  | nil => cases texts <;> simp [readTextsFrom]
  | cons item items ih =>
    simp only [readTextsFrom, map_eq_ok_iff, Prod.exists, both_eq_ok_iff, readText_accepts.ok_iff, ih]
    constructor
    · rintro ⟨text, more, ⟨rfl, rfl⟩, rfl⟩
      rfl
    · intro h
      cases texts with
      | nil => cases h
      | cons text more =>
        obtain ⟨hitem, hitems⟩ := List.cons.inj h
        exact ⟨text, more, ⟨hitem, hitems⟩, rfl⟩

theorem readTextsFrom_ne (location : String) (index : Nat) (items : List Json) :
    readTextsFrom location index items ≠ .error [] := by
  induction items generalizing index with
  | nil => nofun
  | cons item items ih => exact map_ne (both_ne (readText_accepts.blames _ _) (ih _)) _

theorem readTexts_accepts : Reader.Accepts readTexts fun value texts =>
    value = .array (texts.map .string) ∨ ∃ text, value = .string text ∧ texts = [text] where
  ok_iff := fun location value texts => by
    cases value with
    | array items => simp [readTexts, readTextsFrom_eq_ok_iff]
    | string text => simp [readTexts, eq_comm]
    | _ => simp [readTexts, fail]
  blames := fun location value => by
    cases value with
    | array items => exact readTextsFrom_ne location 0 items
    | _ => simp [readTexts, fail]

theorem readEntries_eq_ok_iff {location : String} {entries : List (String × Json)}
    {mapping : KeyedList String} :
    readEntries location entries = .ok mapping ↔
      entries = mapping.map fun (key, text) => (key, .string text) := by
  induction entries generalizing mapping with
  | nil => cases mapping <;> simp [readEntries]
  | cons entry entries ih =>
    obtain ⟨key, value⟩ := entry
    simp only [readEntries, map_eq_ok_iff, Prod.exists, both_eq_ok_iff, readText_accepts.ok_iff, ih]
    constructor
    · rintro ⟨text, more, ⟨rfl, rfl⟩, rfl⟩
      rfl
    · intro h
      cases mapping with
      | nil => cases h
      | cons pair more =>
        obtain ⟨hentry, hentries⟩ := List.cons.inj h
        obtain ⟨hkey, hvalue⟩ := Prod.mk.inj hentry
        exact ⟨pair.2, more, ⟨hvalue, hentries⟩, by rw [hkey]⟩

theorem readEntries_ne (location : String) (entries : List (String × Json)) :
    readEntries location entries ≠ .error [] := by
  induction entries with
  | nil => nofun
  | cons entry entries ih => exact map_ne (both_ne (readText_accepts.blames _ _) ih) _

theorem readMapping_accepts : Reader.Accepts readMapping fun value mapping =>
    value = mappingJson mapping where
  ok_iff := fun location value mapping => by
    cases value with
    | object members => simp [readMapping, mappingJson, readEntries_eq_ok_iff]
    | _ => simp [readMapping, mappingJson, fail]
  blames := fun location value => by
    cases value with
    | object members => exact readEntries_ne location members
    | _ => simp [readMapping, fail]

theorem ofName?_eq_some_iff {text : String} {policy : PlacementPolicy} :
    PlacementPolicy.ofName? text = some policy ↔ policy.name = text := by
  constructor
  · intro h
    simpa using List.find?_some h
  · rintro rfl
    cases policy <;> decide

theorem readPolicy_accepts : Reader.Accepts readPolicy fun value policy =>
    ∃ text : String, value = .string text ∧ policy.name = text.toLower where
  ok_iff := fun location value policy => by
    cases value with
    | string text =>
      simp only [readPolicy, Json.string.injEq, exists_eq_left', ← ofName?_eq_some_iff]
      cases PlacementPolicy.ofName? text.toLower <;> simp [fail]
    | _ => simp [readPolicy, fail]
  blames := fun location value => by
    cases value with
    | string text =>
      rw [readPolicy]
      split <;> simp [fail]
    | _ => simp [readPolicy, fail]

/-! ## Keys -/

/-- A key is the name of an option in one of its two spellings. -/
def Spells (key name : String) : Prop := key = name ∨ key = camelCase name

instance (key name : String) : Decidable (Spells key name) :=
  inferInstanceAs (Decidable (key = name ∨ key = camelCase name))

/-- The option whose name a key spells. -/
def optionOf? (key : String) : Option String := optionNames.find? fun name => Spells key name

/-- No key spells two options. -/
theorem optionOf?_eq_some_iff {key name : String} :
    optionOf? key = some name ↔ name ∈ optionNames ∧ Spells key name := by
  have hboth : ∀ name ∈ optionNames,
      optionOf? name = some name ∧ optionOf? (camelCase name) = some name := by decide
  constructor
  · intro h
    exact ⟨List.mem_of_find?_eq_some h, by simpa using List.find?_some h⟩
  · rintro ⟨hname, rfl | rfl⟩
    · exact (hboth key hname).1
    · exact (hboth name hname).2

variable {members : List (String × Json)} {name : String}

theorem optionOf?_of_given? (hname : name ∈ optionNames) {entry : String × Json}
    (h : given? members name = some entry) : entry ∈ members ∧ optionOf? entry.1 = some name := by
  rw [given?] at h
  split at h
  · next value hvalue =>
    cases h
    exact ⟨mem_of_lookup_eq_some hvalue, optionOf?_eq_some_iff.2 ⟨hname, .inr rfl⟩⟩
  · obtain ⟨value, hvalue, rfl⟩ := Option.map_eq_some_iff.1 h
    exact ⟨mem_of_lookup_eq_some hvalue, optionOf?_eq_some_iff.2 ⟨hname, .inl rfl⟩⟩

theorem optionOf?_ne_of_given? (h : given? members name = none) :
    ∀ entry ∈ members, optionOf? entry.1 ≠ some name := by
  intro entry hentry hoption
  rw [given?] at h
  split at h
  · cases h
  · next hcamel =>
    have hsnake := Option.map_eq_none_iff.1 h
    rcases (optionOf?_eq_some_iff.1 hoption).2 with hkey | hkey
    · exact not_mem_of_lookup_eq_none hsnake (hkey ▸ List.mem_map_of_mem hentry)
    · exact not_mem_of_lookup_eq_none hcamel (hkey ▸ List.mem_map_of_mem hentry)

/-- Every key spells an option, and no two keys the same. -/
structure WellKeyed (members : List (String × Json)) : Prop where
  spelled : none ∉ members.map fun entry => optionOf? entry.1
  distinct : (members.map fun entry => optionOf? entry.1).Nodup

theorem WellKeyed.eq_of_optionOf? (h : WellKeyed members) {entry entry' : String × Json}
    (hentry : entry ∈ members) (hentry' : entry' ∈ members)
    (heq : optionOf? entry.1 = optionOf? entry'.1) : entry = entry' :=
  List.inj_on_of_nodup_map h.distinct hentry hentry' heq

theorem unknownKeys_eq_nil_iff : unknownKeys members = [] ↔
    ∀ entry ∈ members, ∃ name ∈ optionNames, ∃ value, given? members name = some (entry.1, value) := by
  simp [unknownKeys, List.filter_eq_nil_iff]

theorem WellKeyed.unknownKeys_eq_nil (h : WellKeyed members) : unknownKeys members = [] := by
  rw [unknownKeys_eq_nil_iff]
  intro entry hentry
  cases hoption : optionOf? entry.1 with
  | none => exact absurd (hoption ▸ List.mem_map_of_mem hentry) h.spelled
  | some name =>
    have hname := (optionOf?_eq_some_iff.1 hoption).1
    cases hgiven : given? members name with
    | none => exact absurd hoption (optionOf?_ne_of_given? hgiven entry hentry)
    | some other =>
      obtain ⟨hother, hoption'⟩ := optionOf?_of_given? hname hgiven
      obtain rfl := h.eq_of_optionOf? hother hentry (hoption'.trans hoption.symm)
      exact ⟨name, hname, other.2, hgiven⟩

/-- Where no key is given twice and none is left over, one is given for each option at most. -/
theorem wellKeyed_of_unknownKeys (hkeys : (members.map Prod.fst).Nodup)
    (h : unknownKeys members = []) : WellKeyed members := by
  rw [unknownKeys_eq_nil_iff] at h
  have hgiven : ∀ entry ∈ members, ∃ name value, optionOf? entry.1 = some name ∧
      given? members name = some (entry.1, value) := by
    intro entry hentry
    obtain ⟨name, hname, value, hvalue⟩ := h entry hentry
    exact ⟨name, value, (optionOf?_of_given? hname hvalue).2, hvalue⟩
  constructor
  · intro hnone
    obtain ⟨entry, hentry, hoption⟩ := List.mem_map.1 hnone
    obtain ⟨name, -, hname, -⟩ := hgiven entry hentry
    rw [hname] at hoption
    cases hoption
  · -- two keys of one option would both be the one that it is read from
    refine List.pairwise_map.2 ((List.pairwise_map.1 hkeys).imp_of_mem ?_)
    intro entry entry' hentry hentry' hne heq
    obtain ⟨name, value, hname, hvalue⟩ := hgiven entry hentry
    obtain ⟨name', value', hname', hvalue'⟩ := hgiven entry' hentry'
    obtain rfl : name = name' := Option.some.inj (hname.symm.trans (heq.trans hname'))
    rw [hvalue, Option.some.injEq, Prod.mk.injEq] at hvalue'
    exact hne hvalue'.1

/-! ## Options -/

section Options

variable {α : Type}

/-- The object gives an option a value that stands for `a`, or it gives none and `a` is the default. -/
def Gives (members : List (String × Json)) (name : String) (default : α)
    (standsFor : Json → α → Prop) (a : α) : Prop :=
  (∃ entry ∈ members, optionOf? entry.1 = some name ∧ standsFor entry.2 a) ∨
    (∀ entry ∈ members, optionOf? entry.1 ≠ some name) ∧ a = default

theorem option_eq_iff (h : WellKeyed members) (hname : name ∈ optionNames) {read : Reader α}
    {standsFor : Json → α → Prop} (hread : read.Accepts standsFor) {default a : α} :
    option members name default read = ⟨[], a⟩ ↔ Gives members name default standsFor a := by
  rw [option]
  cases hgiven : given? members name with
  | none =>
    have hnot := optionOf?_ne_of_given? hgiven
    constructor
    · intro heq
      exact .inr ⟨hnot, (congrArg Reading.value heq).symm⟩
    · rintro (⟨entry, hentry, hoption, -⟩ | ⟨-, rfl⟩)
      · exact absurd hoption (hnot entry hentry)
      · rfl
  | some entry =>
    obtain ⟨key, value⟩ := entry
    obtain ⟨hentry, hoption⟩ := optionOf?_of_given? hname hgiven
    -- No second entry gives the option, so that the one that is found decides.
    have hgives : Gives members name default standsFor a ↔ read key value = .ok a := by
      rw [hread.ok_iff]
      constructor
      · rintro (⟨other, hother, hoption', hstands⟩ | ⟨hnot, -⟩)
        · obtain rfl := h.eq_of_optionOf? hother hentry (hoption'.trans hoption.symm)
          exact hstands
        · exact absurd hoption (hnot _ hentry)
      · intro hstands
        exact .inl ⟨_, hentry, hoption, hstands⟩
    rw [hgives]
    cases hvalue : read key value with
    | ok b => simp [hvalue]
    | error problems =>
      have hne : problems ≠ [] := fun hnil => hread.blames key value (hnil ▸ hvalue)
      simp [hvalue, hne]

theorem bind_eq_iff {β : Type} {x : Reading α} {next : α → Reading β} {b : β} :
    x >>= next = ⟨[], b⟩ ↔ ∃ a, x = ⟨[], a⟩ ∧ next a = ⟨[], b⟩ := by
  obtain ⟨problems, value⟩ := x
  show Reading.mk (problems ++ (next value).problems) (next value).value = ⟨[], b⟩ ↔ _
  rcases hnext : next value with ⟨more, result⟩
  simp [hnext, and_assoc]

end Options

/-! ## Configurations -/

/-- An object stands for a configuration: its keys spell options, and it gives each option its value, or
leaves it at its default. -/
structure StandsFor (members : List (String × Json)) (c : Config) : Prop where
  keys : WellKeyed members
  target : Gives members "namespace" ({} : Config).target
    (fun value text => value = .string text ∧ text ≠ "") c.target
  immutableTypes : Gives members "emit_immutable_value_types" ({} : Config).immutableTypes
    (fun value b => value = .bool b) c.immutableTypes
  docComments : Gives members "generate_doc_comments" ({} : Config).docComments
    (fun value b => value = .bool b) c.docComments
  useSchema : Gives members "use_schema_for_type_inference" ({} : Config).useSchema
    (fun value b => value = .bool b) c.useSchema
  schemaFiles : Gives members "schema_file_paths" ({} : Config).schemaFiles
    (fun value texts => value = .array (texts.map .string) ∨
      ∃ text, value = .string text ∧ texts = [text]) c.schemaFiles
  customScalars : Gives members "custom_scalar_mappings" ({} : Config).customScalars
    (fun value mapping => value = mappingJson mapping) c.customScalars
  enforceNonNull : Gives members "validate_non_nullable_fields" ({} : Config).enforceNonNull
    (fun value b => value = .bool b) c.enforceNonNull
  descriptions : Gives members "include_field_descriptions" ({} : Config).descriptions
    (fun value b => value = .bool b) c.descriptions
  placement : Gives members "nested_model_behavior" ({} : Config).placement
    (fun value policy => ∃ text : String, value = .string text ∧ policy.name = text.toLower) c.placement
  maxDepth : Gives members "max_nested_depth" ({} : Config).maxDepth
    (fun value (n : Nat) => value = .integer n) c.maxDepth
  customModelNames : Gives members "custom_model_name_mappings" ({} : Config).customModelNames
    (fun value mapping => value = mappingJson mapping) c.customModelNames

/-- What is read without a problem stands for the configuration. -/
theorem standsFor_of_read (hkeys : (members.map Prod.fst).Nodup) {c : Config}
    (h : read members = ⟨[], c⟩) : StandsFor members c := by
  simp only [read, bind_eq_iff] at h
  obtain ⟨target, htarget, immutableTypes, himmutableTypes, docComments, hdocComments, useSchema,
    huseSchema, schemaFiles, hschemaFiles, customScalars, hcustomScalars, enforceNonNull,
    henforceNonNull, descriptions, hdescriptions, placement, hplacement, maxDepth, hmaxDepth,
    customModelNames, hcustomModelNames, hlast⟩ := h
  rw [Reading.mk.injEq, List.map_eq_nil_iff] at hlast
  obtain ⟨hunknown, rfl⟩ := hlast
  have hwell := wellKeyed_of_unknownKeys hkeys hunknown
  exact
    { keys := hwell
      target := (option_eq_iff hwell (by decide) readNonempty_accepts).1 htarget
      immutableTypes := (option_eq_iff hwell (by decide) readBool_accepts).1 himmutableTypes
      docComments := (option_eq_iff hwell (by decide) readBool_accepts).1 hdocComments
      useSchema := (option_eq_iff hwell (by decide) readBool_accepts).1 huseSchema
      schemaFiles := (option_eq_iff hwell (by decide) readTexts_accepts).1 hschemaFiles
      customScalars := (option_eq_iff hwell (by decide) readMapping_accepts).1 hcustomScalars
      enforceNonNull := (option_eq_iff hwell (by decide) readBool_accepts).1 henforceNonNull
      descriptions := (option_eq_iff hwell (by decide) readBool_accepts).1 hdescriptions
      placement := (option_eq_iff hwell (by decide) readPolicy_accepts).1 hplacement
      maxDepth := (option_eq_iff hwell (by decide) readNat_accepts).1 hmaxDepth
      customModelNames := (option_eq_iff hwell (by decide) readMapping_accepts).1 hcustomModelNames }

/-- Nothing is wrong with an object that stands for a configuration. -/
theorem StandsFor.read_eq {c : Config} (h : StandsFor members c) : read members = ⟨[], c⟩ := by
  simp only [read, bind_eq_iff]
  refine ⟨_, (option_eq_iff h.keys (by decide) readNonempty_accepts).2 h.target,
    _, (option_eq_iff h.keys (by decide) readBool_accepts).2 h.immutableTypes,
    _, (option_eq_iff h.keys (by decide) readBool_accepts).2 h.docComments,
    _, (option_eq_iff h.keys (by decide) readBool_accepts).2 h.useSchema,
    _, (option_eq_iff h.keys (by decide) readTexts_accepts).2 h.schemaFiles,
    _, (option_eq_iff h.keys (by decide) readMapping_accepts).2 h.customScalars,
    _, (option_eq_iff h.keys (by decide) readBool_accepts).2 h.enforceNonNull,
    _, (option_eq_iff h.keys (by decide) readBool_accepts).2 h.descriptions,
    _, (option_eq_iff h.keys (by decide) readPolicy_accepts).2 h.placement,
    _, (option_eq_iff h.keys (by decide) readNat_accepts).2 h.maxDepth,
    _, (option_eq_iff h.keys (by decide) readMapping_accepts).2 h.customModelNames, ?_⟩
  rw [h.keys.unknownKeys_eq_nil]
  rfl

/-- The key that stands for the configuration itself spells no option. -/
theorem WellKeyed.not_reserved (h : WellKeyed members) : ¬ members.any (·.1 = reservedKey) = true := by
  intro hany
  obtain ⟨entry, hentry, hkey⟩ := List.any_eq_true.1 hany
  have hnone : optionOf? entry.1 = none := by
    rw [of_decide_eq_true hkey]
    decide
  exact h.spelled (hnone ▸ List.mem_map_of_mem hentry)

theorem StandsFor.ofMembers_eq {c : Config} (h : StandsFor members c) : ofMembers members = .ok c := by
  rw [ofMembers, if_neg h.keys.not_reserved, h.read_eq]
  rfl

/-- An object with each key once is a configuration exactly if it stands for it. -/
theorem ofMembers_eq_ok_iff (hkeys : (members.map Prod.fst).Nodup) {c : Config} :
    ofMembers members = .ok c ↔ StandsFor members c := by
  refine ⟨fun h => ?_, StandsFor.ofMembers_eq⟩
  by_cases hreserved : members.any (·.1 = reservedKey) = true
  · rw [ofMembers, if_pos hreserved] at h
    cases h
  · rw [ofMembers, if_neg hreserved] at h
    by_cases hproblems : (read members).problems = []
    · have hvalue : (read members).value = c := by simpa [hproblems] using h
      exact standsFor_of_read hkeys (by rw [← hproblems, ← hvalue])
    · simp [hproblems] at h

end FragmentShapes.Config
