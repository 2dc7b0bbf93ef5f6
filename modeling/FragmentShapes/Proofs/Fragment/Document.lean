import FragmentShapes.Proofs.Document.Language
import FragmentShapes.Proofs.Grammar.Ensures
import Mathlib.Data.List.Basic

/-!
# Fragment documents by their productions

The main statement is `ofTokens_eq_ok_iff`: the fragments that are read from tokens are the value of their
one derivation.
-/

namespace FragmentShapes.Fragment

open Document
open Token (Kind Located)

@[simp] theorem phrase_operationNameOpt :
    productions.phrase .operationNameOpt = (Grammar.opt nameButOn).reads ruleReading := by
  rw [phrase_eq_body rfl rfl]
  simp [Nonterminal.body, Reading.opt]

@[simp] theorem phrase_variableDefinition :
    productions.phrase .variableDefinition = variableDefinition.reads ruleReading := by
  rw [phrase_eq_body rfl rfl]
  simp [Nonterminal.body, variableDefinition, mark, Nonterminal.sign, reads_typeRef,
    Function.comp_def]

@[simp] theorem phrase_variableDefinitionList :
    productions.phrase .variableDefinitionList =
      .map (fun _ => ()) (variableDefinition.many1.reads ruleReading) := by
  rw [phrase_eq_list (.rule .variableDefinition) (fun _ => ()) (fun _ _ => ())
    (by simp [Nonterminal.body, ← Function.id_def]) rfl rfl fun _ _ => rfl]
  simp

@[simp] theorem phrase_variableDefinitionsOpt :
    productions.phrase .variableDefinitionsOpt = variableDefinitions.reads ruleReading := by
  rw [phrase_eq_body rfl rfl]
  simp [Nonterminal.body, variableDefinitions, Grammar.between, Reading.map_opt, Function.comp_def]

@[simp] theorem phrase_fragmentDefinition :
    productions.phrase .fragmentDefinition = fragmentDefinition.reads ruleReading := by
  rw [phrase_eq_body rfl rfl]
  simp [Nonterminal.body, fragmentDefinition, keyword, plainName, Nonterminal.word,
    Nonterminal.typeName, Nonterminal.identifier, reads_selectionSet, Function.comp_def]

/-- A definition and what is wrong with it. -/
def Definition.judged (d : Definition) : Definition × List Fault := (d, d.fault?.toList)

@[simp] theorem phrase_operationDefinition :
    productions.phrase .operationDefinition = .tell (.map Definition.judged
      ((operationDefinition <|> shorthandOperation).reads ruleReading)) := by
  refine phrase_eq_judged rfl ?_ (funext fun d => ?_)
  · simp [Nonterminal.body, operationDefinition, shorthandOperation, plainName,
      Nonterminal.identifier, reads_selectionSet]
  · rcases d with f | _ | kind
    · rfl
    · rfl
    · simp only [Nonterminal.rejects, Definition.fault?, List.contains_iff_mem]
      split <;> rfl

/-- A definition of a fragment document. -/
def definition : Phrase Definition := fragmentDefinition <|> operationDefinition <|> shorthandOperation

@[simp] theorem phrase_executable :
    productions.phrase .executable = .tell (.map Definition.judged (definition.reads ruleReading)) := by
  -- A fragment has no fault, whatever it is.
  have hfragment : fragmentDefinition.reads ruleReading =
      .tell (.map Definition.judged (fragmentDefinition.reads ruleReading)) := by
    refine (faultless fragmentDefinition).eq_tell.trans ?_
    simp [fragmentDefinition, Definition.judged, Definition.fault?, Function.comp_def]
  rw [phrase_eq_body rfl rfl]
  simp only [Nonterminal.body, Grammar.reads_orElse, Grammar.reads_rule, phrase_fragmentDefinition,
    phrase_operationDefinition, definition]
  conv_lhs => rw [hfragment]
  rw [Reading.alt_tell, ← Reading.map_alt]

theorem phrase_fragmentDocument :
    productions.phrase .fragmentDocument = .tell (.map
      (fun ds => (ds.filterMap Definition.fragment?, ds.filterMap Definition.fault?))
      (document.reads ruleReading)) := by
  have hlist : Nonterminal.fragmentDocument.body.reads productions.phrase =
      .map (List.filterMap Definition.fragment?) (.Star (productions.phrase .executable)) := by
    have hmany := phrase_eq_many1 (.rule .executable) (n := .executableList) rfl rfl rfl
    rw [Reading.star_eq]
    simp [Nonterminal.body, hmany, Reading.map_alt]
  have hfaults (ds : List Definition) :
      ds.flatMap (fun d => d.fault?.toList) = ds.filterMap Definition.fault? :=
    (List.filterMap_eq_flatMap_toList _ _).symm
  rw [phrase_eq_body rfl rfl, hlist, phrase_executable, Reading.star_tell, Reading.map_tell]
  simp [document, definition, Function.comp_def, Definition.judged, List.flatMap_map, hfaults]

/-! ## Reading fragment documents -/

theorem starts_document : Starts document .fragmentDocument
    fun ds => (ds.filterMap Definition.fragment?, ds.filterMap Definition.fault?) where
  decided := by decide +kernel
  inhabited := by decide +kernel
  phrase := phrase_fragmentDocument

/-- Fragments are read from exactly those tokens that can be derived without an operation of an unknown
kind, and they are the value of the derivation, of which there is one at most. -/
theorem ofTokens_eq_ok_iff (tokens : List Located) :
    (∀ fragments, ofTokens ⟨tokens, none⟩ = .ok fragments ↔
      ∃ tree, (tree, fragments, []) ∈ derivations .fragmentDocument tokens) ∧
    (derivations .fragmentDocument tokens).Subsingleton := by
  refine ⟨fun fragments => ?_, subsingleton_derivations _ _⟩
  rw [starts_document.derivations_iff]
  constructor
  · intro h
    obtain ⟨ds, hds, hfragments⟩ := exists_of_bind_eq_ok h
    obtain ⟨hparse, hfaults⟩ := parseChecked_eq_ok_iff.1 hds
    exact ⟨ds, hparse, Prod.ext (Except.ok.inj hfragments) hfaults⟩
  · rintro ⟨ds, hparse, hjudge⟩
    obtain ⟨rfl, hfaults⟩ := Prod.mk.inj hjudge
    rw [ofTokens, parseChecked_eq_ok_iff.2 ⟨hparse, hfaults⟩]
    rfl

example : ofTokens (Token.lex "query { a } fragment F on T { on ... { b } ...type }") =
    .ok [⟨"F", "T", [.field { name := "on" } [], .field { name := "b" } [], .spread "type"]⟩] := by
  decide +kernel

end FragmentShapes.Fragment
