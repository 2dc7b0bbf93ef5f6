import FragmentShapes.Proofs.Document.Language
import Mathlib.Data.List.Basic

/-!
# Schema documents by their productions

`starts_document` says that the parser of schema documents reads what their productions derive: what the
definitions declare is the value of the derivation, and their faults are what is rejected in it.
-/

namespace FragmentShapes.Schema

open Document
open Token (Kind Located)

/-! ## Parts of definitions -/

@[simp] theorem phrase_descriptionOpt :
    productions.phrase .descriptionOpt = description.reads ruleReading := by
  rw [phrase_eq_body rfl rfl]
  simp [Nonterminal.body, description, Reading.opt, Function.comp_def]

@[simp] theorem phrase_inputValue :
    productions.phrase .inputValue = inputValue.reads ruleReading := by
  rw [phrase_eq_body rfl rfl]
  simp [Nonterminal.body, inputValue, mark, Nonterminal.sign, reads_typeRef, Function.comp_def]

@[simp] theorem phrase_inputValueList :
    productions.phrase .inputValueList = inputValue.many1.reads ruleReading := by
  rw [phrase_eq_many1 (.rule .inputValue) rfl rfl rfl]
  simp

@[simp] theorem phrase_argumentsDefinitionOpt :
    productions.phrase .argumentsDefinitionOpt = .map (·.getD [])
      ((Grammar.opt (Grammar.between .openParen .closeParen (.many1 inputValue))).reads
        ruleReading) := by
  rw [phrase_eq_body rfl rfl]
  simp [Nonterminal.body, Grammar.between, Reading.map_opt, Function.comp_def]

@[simp] theorem phrase_fieldDefinition :
    productions.phrase .fieldDefinition = fieldDefinition.reads ruleReading := by
  rw [phrase_eq_body rfl rfl]
  simp [Nonterminal.body, fieldDefinition, argumentDefinitions, mark, Nonterminal.sign, reads_typeRef,
    Function.comp_def]

@[simp] theorem phrase_fieldDefinitionList :
    productions.phrase .fieldDefinitionList = fieldDefinition.many1.reads ruleReading := by
  rw [phrase_eq_many1 (.rule .fieldDefinition) rfl rfl rfl]
  simp

@[simp] theorem phrase_implementsList :
    productions.phrase .implementsList =
      (Grammar.many1 (Grammar.opt (mark .ampersand) *> typeName)).reads ruleReading := by
  rw [phrase_eq_many1 (Grammar.opt (Nonterminal.sign .ampersand) *> Nonterminal.typeName) rfl rfl rfl]
  simp [mark, Nonterminal.sign, typeName, plainName, Nonterminal.typeName, Nonterminal.identifier]

@[simp] theorem phrase_implementsOpt :
    productions.phrase .implementsOpt = interfaces.reads ruleReading := by
  rw [phrase_eq_body rfl rfl]
  simp [Nonterminal.body, interfaces, keyword, Nonterminal.word, Reading.map_opt, Function.comp_def]

@[simp] theorem phrase_unionMembers :
    productions.phrase .unionMembers = (separated .pipe).reads ruleReading := by
  rw [Productions.phrase_eq_collect List.cons (fun type list => list ++ [type]) rfl rfl rfl
    fun _ _ _ => rfl]
  simp [separated, mark, Nonterminal.sign, typeName, plainName, Nonterminal.typeName,
    Nonterminal.identifier]

@[simp] theorem phrase_unionMembersOpt :
    productions.phrase .unionMembersOpt = unionMembers.reads ruleReading := by
  rw [phrase_eq_body rfl rfl]
  simp [Nonterminal.body, unionMembers, mark, Nonterminal.sign, Reading.map_opt, Function.comp_def]

@[simp] theorem phrase_enumValue : productions.phrase .enumValue = enumValue.reads ruleReading := by
  rw [phrase_eq_body rfl rfl]
  simp [Nonterminal.body, enumValue]

@[simp] theorem phrase_enumValueList :
    productions.phrase .enumValueList = enumValue.many1.reads ruleReading := by
  rw [phrase_eq_many1 (.rule .enumValue) rfl rfl rfl]
  simp

/-- A list in braces that can be left out. -/
theorem reads_block {α : Type} {list : Nonterminal (List α)} {part : Phrase α}
    (hlist : productions.phrase list = part.many1.reads ruleReading) :
    Reading.alt ((Nonterminal.enclosed .openBrace .closeBrace list).reads productions.phrase)
      (.pure []) = (block part).reads ruleReading := by
  rw [reads_enclosed .openBrace .closeBrace id (hlist.trans (Reading.map_id _).symm) rfl]
  simp [block, Grammar.between, Reading.map_opt, Function.comp_def]

@[simp] theorem phrase_enumValuesOpt :
    productions.phrase .enumValuesOpt = (block enumValue).reads ruleReading := by
  rw [phrase_eq_body rfl rfl]
  exact reads_block phrase_enumValueList

@[simp] theorem phrase_inputFieldsOpt :
    productions.phrase .inputFieldsOpt = (block inputValue).reads ruleReading := by
  rw [phrase_eq_body rfl rfl]
  exact reads_block phrase_inputValueList

@[simp] theorem phrase_directiveLocations :
    productions.phrase .directiveLocations =
      .map (fun _ => ()) ((separated .pipe).reads ruleReading) := by
  rw [Productions.phrase_eq_collect (fun _ _ => ()) (fun _ _ => ()) rfl rfl rfl fun _ _ _ => rfl]
  simp [separated, mark, Nonterminal.sign, typeName, plainName, Nonterminal.typeName,
    Nonterminal.identifier, Function.comp_def]

/-! ## Parts that can be rejected -/

/-- A name that is there already is said again in its turn. -/
theorem repeatedNames_append (seen names : List String) (name : String) :
    repeatedNames seen (names ++ [name]) = repeatedNames seen names ++
      if name ∈ seen ∨ name ∈ names then [name] else [] := by
  induction names generalizing seen with
  | nil => by_cases hname : name ∈ seen <;> simp [repeatedNames, hname]
  | cons first names ih =>
    rw [List.cons_append, repeatedNames, repeatedNames]
    by_cases hfirst : first ∈ seen
    · have hiff : name ∈ seen ∨ name = first ∨ name ∈ names ↔ name ∈ seen ∨ name ∈ names := by
        by_cases heq : name = first <;> simp [heq, hfirst]
      simp [hfirst, ih, hiff]
    · simp [hfirst, ih, or_assoc, or_left_comm]

open Nonterminal (fieldsAgain)

theorem fieldsAgain_append (fields : List FieldDefinition) (field : FieldDefinition) :
    fieldsAgain (fields ++ [field]) = fieldsAgain fields ++
      if field.name ∈ fields.map (·.name) then [field] else [] := by
  have htake (p : FieldDefinition × Nat) (hp : p ∈ fields.zipIdx) :
      (fields ++ [field]).take p.2 = fields.take p.2 := by
    have := List.snd_lt_of_mem_zipIdx hp
    exact List.take_append_of_le_length (by omega)
  rw [fieldsAgain, List.zipIdx_append, List.filter_append, List.map_append]
  congr 1
  · rw [fieldsAgain]
    congr 1
    exact List.filter_congr fun p hp => by rw [htake p hp]
  · by_cases hagain : ∃ f ∈ fields, f.name = field.name <;> simp [hagain]

theorem name_fieldsAgain (fields : List FieldDefinition) :
    (fieldsAgain fields).map (·.name) = repeatedNames [] (fields.map (·.name)) := by
  induction fields using List.reverseRecOn with
  | nil => rfl
  | append_singleton fields field ih =>
    rw [fieldsAgain_append, List.map_append, ih, List.map_append, List.map_singleton,
      repeatedNames_append]
    split <;> simp_all

/-- The names of a block that stand in it again, with the line of its brace. -/
def FieldBlock.faults (block : FieldBlock) : List Fault :=
  (repeatedNames [] (block.fields.map (·.name))).map (.duplicateField · block.line)

@[simp] theorem phrase_fieldsDefinitionOpt :
    productions.phrase .fieldsDefinitionOpt =
      .tell (.map (fun block => (block, block.faults)) (fieldBlock.reads ruleReading)) := by
  refine phrase_eq_judged rfl ?_ (funext fun block => ?_)
  · rw [fieldBlock, Grammar.reads_map, Grammar.reads_opt, Reading.map_opt]
    simp only [Grammar.reads_seqLeft, Grammar.reads_seq, Grammar.reads_many]
    conv_rhs => rw [Reading.star_eq]
    simp [Nonterminal.body, mark, Nonterminal.sign, Reading.map_alt, Reading.seq_alt, Reading.alt_seq,
      Reading.alt_assoc, Function.comp_def]
  · rw [FieldBlock.faults, ← name_fieldsAgain, List.map_map]
    rfl

/-- An operation that does not exist. -/
def operationFaults (kind : Located) : List Fault :=
  if operationNames.contains kind.text then [] else [.unknownOperation kind]

@[simp] theorem phrase_operationType :
    productions.phrase .operationType =
      .tell (.map (fun o => (o, operationFaults o.1)) (rootBinding.reads ruleReading)) := by
  refine phrase_eq_judged rfl ?_ (funext fun o => ?_)
  · simp [Nonterminal.body, rootBinding, mark, Nonterminal.sign, typeName, plainName,
      Nonterminal.typeName, Nonterminal.identifier]
  · simp only [Nonterminal.rejects, operationFaults, List.contains_iff_mem]

@[simp] theorem phrase_operationTypeList :
    productions.phrase .operationTypeList =
      .tell (.map (fun os => (os, os.flatMap fun o => operationFaults o.1))
        (rootBinding.many1.reads ruleReading)) := by
  rw [phrase_eq_many1 (.rule .operationType) rfl rfl rfl]
  simp [Reading.map_tell, Reading.star_tell, Reading.tell_seq_tell, Function.comp_def,
    List.flatMap_map]

/-- A word other than `repeatable`. -/
def modifierFaults : Option Located → List Fault
  | some modifier => if modifier.text = "repeatable" then [] else [.unexpected modifier]
  | none => []

@[simp] theorem phrase_repeatableOpt :
    productions.phrase .repeatableOpt =
      .tell (.map (fun m => (m, modifierFaults m)) ((Grammar.opt plainName).reads ruleReading)) := by
  refine phrase_eq_judged rfl ?_ (funext fun m => by cases m <;> rfl)
  simp [Nonterminal.body, plainName, Nonterminal.identifier, Reading.opt]

/-! ## Definitions -/

/-- What a definition declares, if it is not one of a directive. -/
def Definition.declaration? : Definition → Option Declaration
  | roots bindings => some (.roots (KeyedList.ofPairs (bindings.map fun b => (b.1.text, b.2))))
  | type definition _ => some (.type definition)
  | directive _ => none

/-- What a definition declares and what is wrong with it. -/
def Definition.judged (d : Definition) : Option Declaration × List Fault := (d.declaration?, d.faults)

/-- A definition of some kind, with the description in front of it. -/
def described (g : Phrase Described) : Phrase Definition :=
  (fun description d => d description) <$> description <*> g

theorem described_orElse (g h : Phrase Described) :
    (described (g <|> h)).reads ruleReading =
      .alt ((described g).reads ruleReading) ((described h).reads ruleReading) := by
  simp [described, Reading.seq_alt]

section

open Nonterminal (word sign identifier)

/-- Objects and interfaces: their faults are those of their block. -/
theorem reads_fielded (w : Keyword) (kind : List String → List FieldDefinition → TypeBody)
    (hkind : ∀ name description interfaces fields,
      TypeDefinition.ownFields ⟨name, description, kind interfaces fields⟩ = fields) :
    Reading.map some (((fun description name interfaces _ block =>
        Declaration.type ⟨name, description, kind interfaces block.fields⟩) <$>
      .rule .descriptionOpt <*> (word w *> Nonterminal.typeName) <*> .rule .implementsOpt <*>
      .rule .directivesOpt <*> .rule .fieldsDefinitionOpt).reads productions.phrase) =
    .tell (.map Definition.judged ((described ((fun name interfaces _ fields =>
        Described.fielded kind name interfaces fields) <$>
      (keyword w *> typeName) <*> interfaces <*> directives <*> fieldBlock)).reads ruleReading)) := by
  simp only [Grammar.reads_seq, Grammar.reads_rule, phrase_fieldsDefinitionOpt]
  rw [Reading.Faultless.seq_tell]
  · simp [described, keyword, word, typeName, plainName, Nonterminal.typeName, identifier,
      Reading.map_tell, Definition.judged, Definition.declaration?, Definition.faults,
      Described.fielded, FieldBlock.faults, hkind, Function.comp_def]
  · simp only [Grammar.reads_map, Grammar.reads_rule, phrase_descriptionOpt, phrase_implementsOpt,
      phrase_directivesOpt]
    apply_rules [Reading.Faultless.seq, Reading.Faultless.map, Reading.faultless_token, faultless]

theorem some_objectDefinition :
    Reading.map some (productions.phrase .objectDefinition) =
      .tell (.map Definition.judged ((described objectDefinition).reads ruleReading)) := by
  rw [phrase_eq_body rfl rfl]
  exact reads_fielded .type .object fun _ _ _ _ => rfl

theorem some_interfaceDefinition :
    Reading.map some (productions.phrase .interfaceDefinition) =
      .tell (.map Definition.judged ((described interfaceDefinition).reads ruleReading)) := by
  rw [phrase_eq_body rfl rfl]
  exact reads_fielded .interface .interface fun _ _ _ _ => rfl

/-- A definition in which nothing can be wrong. -/
theorem tell_judged {g : Phrase Definition} {m : Reading Fault (Option Declaration)}
    (hdeclared : m = .map Definition.declaration? (g.reads ruleReading))
    (hfaults : Reading.map Definition.judged (g.reads ruleReading) =
      .map (fun d => (d.declaration?, [])) (g.reads ruleReading)) :
    m = .tell (.map Definition.judged (g.reads ruleReading)) := by
  rw [hdeclared, hfaults, ((faultless g).map Definition.declaration?).eq_tell, Reading.map_map]
  rfl

/-- Types without fields of their own: nothing can be wrong with them. -/
theorem reads_plain {α : Type} (w : Keyword) (kind : α → TypeBody) {part : Nonterminal α}
    {g : Phrase α} (hpart : productions.phrase part = g.reads ruleReading)
    (hkind : ∀ name description a, TypeDefinition.ownFields ⟨name, description, kind a⟩ = []) :
    Reading.map some (((fun description name _ a =>
        Declaration.type ⟨name, description, kind a⟩) <$>
      .rule .descriptionOpt <*> (word w *> Nonterminal.typeName) <*> .rule .directivesOpt <*>
      .rule part).reads productions.phrase) =
    .tell (.map Definition.judged ((described ((fun name _ a => Described.type name (kind a)) <$>
      (keyword w *> typeName) <*> directives <*> g)).reads ruleReading)) := by
  refine tell_judged ?_ ?_
  · simp [described, hpart, keyword, word, typeName, plainName, Nonterminal.typeName, identifier,
      Described.type, Definition.declaration?, Function.comp_def]
  · simp [described, Described.type, Definition.judged, Definition.declaration?, Definition.faults,
      hkind, repeatedNames, Function.comp_def]

theorem some_unionDefinition :
    Reading.map some (productions.phrase .unionDefinition) =
      .tell (.map Definition.judged ((described unionDefinition).reads ruleReading)) := by
  rw [phrase_eq_body rfl rfl]
  exact reads_plain .union .union phrase_unionMembersOpt fun _ _ _ => rfl

theorem some_enumDefinition :
    Reading.map some (productions.phrase .enumDefinition) =
      .tell (.map Definition.judged ((described enumDefinition).reads ruleReading)) := by
  rw [phrase_eq_body rfl rfl]
  exact reads_plain .enum .enum phrase_enumValuesOpt fun _ _ _ => rfl

theorem some_inputDefinition :
    Reading.map some (productions.phrase .inputDefinition) =
      .tell (.map Definition.judged ((described inputDefinition).reads ruleReading)) := by
  rw [phrase_eq_body rfl rfl]
  exact reads_plain .input (fun fields => .input (InputValue.distinct fields)) phrase_inputFieldsOpt
    fun _ _ _ => rfl

theorem some_scalarDefinition :
    Reading.map some (productions.phrase .scalarDefinition) =
      .tell (.map Definition.judged ((described scalarDefinition).reads ruleReading)) := by
  rw [phrase_eq_body rfl rfl]
  refine tell_judged ?_ ?_
  · simp [Nonterminal.body, described, scalarDefinition, keyword, word, typeName, plainName,
      Nonterminal.typeName, identifier, Described.type, Definition.declaration?, Function.comp_def]
  · simp [described, scalarDefinition, Described.type, Definition.judged, Definition.declaration?,
      Definition.faults, TypeDefinition.ownFields, repeatedNames, Function.comp_def]

theorem flatMap_operationFaults (bindings : List (Located × String)) :
    bindings.flatMap (fun o => operationFaults o.1) = (Definition.roots bindings).faults := by
  induction bindings with
  | nil => rfl
  | cons o bindings ih =>
    rw [List.flatMap_cons, ih, operationFaults, Definition.faults, Definition.faults,
      List.filter_cons]
    by_cases ho : o.1.text ∈ operationNames <;> simp [ho]

theorem some_schemaDefinition :
    Reading.map some (productions.phrase .schemaDefinition) =
      .tell (.map Definition.judged ((described rootsDefinition).reads ruleReading)) := by
  have hblock : (Grammar.between .openBrace .closeBrace
        (.rule .operationTypeList : Nonterminal.Side _)).reads productions.phrase =
      .tell (.map (fun os => (os, (Definition.roots os).faults))
        ((Grammar.between .openBrace .closeBrace rootBinding.many1).reads ruleReading)) := by
    simp [Grammar.between, Reading.Faultless.seq_tell, Reading.Faultless.tell_seq, Reading.map_tell,
      flatMap_operationFaults, Function.comp_def]
  rw [phrase_eq_body rfl rfl]
  simp only [Nonterminal.body, Grammar.reads_seq, Grammar.reads_map, Grammar.reads_rule, hblock,
    phrase_descriptionOpt, phrase_directivesOpt]
  rw [Reading.Faultless.seq_tell]
  · simp [described, rootsDefinition, keyword, word, Reading.map_tell, Definition.judged,
      Definition.declaration?, Function.comp_def]
  · apply_rules [Reading.Faultless.seq, Reading.Faultless.map, Reading.faultless_token, faultless]

theorem none_directiveDefinition :
    Reading.map (fun _ => none) (productions.phrase .directiveDefinition) =
      .tell (.map Definition.judged ((described directiveDefinition).reads ruleReading)) := by
  have hfaults (modifier : Option Located) :
      modifierFaults modifier = (Definition.directive modifier).faults := by
    cases modifier <;> rfl
  rw [phrase_eq_body rfl rfl]
  simp only [Nonterminal.body, Grammar.reads_seq, Grammar.reads_map, Grammar.reads_rule,
    phrase_descriptionOpt, phrase_repeatableOpt]
  rw [Reading.Faultless.seq_tell, Reading.Faultless.tell_seq]
  · simp [described, directiveDefinition, argumentDefinitions, keyword, word, sign, mark,
      Reading.map_tell, Definition.judged, Definition.declaration?, hfaults, Function.comp_def]
  · simp [word]
  · simp only [phrase_argumentsDefinitionOpt, phrase_name, sign, word, Grammar.reads_seqRight,
      Grammar.reads_token, Grammar.reads_rule]
    apply_rules [Reading.Faultless.seq, Reading.Faultless.map, Reading.faultless_token, faultless]

end

@[simp] theorem phrase_declaration :
    productions.phrase .declaration =
      .tell (.map Definition.judged (definition.reads ruleReading)) := by
  have hdefinition : definition = described (rootsDefinition <|> objectDefinition <|>
      interfaceDefinition <|> unionDefinition <|> enumDefinition <|> inputDefinition <|>
      scalarDefinition <|> directiveDefinition) := rfl
  rw [phrase_eq_body rfl rfl, hdefinition]
  simp only [Nonterminal.body, Grammar.reads_orElse, Grammar.reads_map, Grammar.reads_rule,
    some_schemaDefinition, some_objectDefinition, some_interfaceDefinition, some_unionDefinition,
    some_enumDefinition, some_inputDefinition, some_scalarDefinition, none_directiveDefinition,
    Reading.alt_tell, ← Reading.map_alt, described_orElse]

theorem phrase_schemaDocument :
    productions.phrase .schemaDocument = .tell (.map
      (fun ds => (ds.filterMap Definition.declaration?, ds.flatMap Definition.faults))
      (document.reads ruleReading)) := by
  have hlist : Nonterminal.schemaDocument.body.reads productions.phrase =
      .map (List.flatMap Option.toList) (.Star (productions.phrase .declaration)) := by
    have hmany := phrase_eq_list (.rule .declaration) (n := .declarationList)
      (List.flatMap Option.toList) (fun d list => list ++ d.toList)
      (by simp [Nonterminal.body]) rfl rfl fun _ _ => by simp
    rw [Reading.star_eq]
    simp [Nonterminal.body, hmany, Reading.map_alt]
  have hdeclared (ds : List Definition) :
      ds.flatMap (fun d => d.declaration?.toList) = ds.filterMap Definition.declaration? :=
    (List.filterMap_eq_flatMap_toList _ _).symm
  rw [phrase_eq_body rfl rfl, hlist, phrase_declaration, Reading.star_tell, Reading.map_tell]
  simp [document, Function.comp_def, Definition.judged, List.flatMap_map, hdeclared]

theorem starts_document : Starts document .schemaDocument
    fun ds => (ds.filterMap Definition.declaration?, ds.flatMap Definition.faults) where
  decided := by decide +kernel
  inhabited := by decide +kernel
  phrase := phrase_schemaDocument

end FragmentShapes.Schema
