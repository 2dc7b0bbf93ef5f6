import FragmentShapes.Proofs.Document.Productions
import FragmentShapes.Proofs.Grammar.Unambiguous

/-!
# Documents have one derivation

What can be foreseen of each nonterminal is computed from an outline of it, in which repetitions stand for
the productions that begin with the nonterminal. The main statement is `derivation_unique`: no row of
tokens has two derivations from one nonterminal.
-/

namespace FragmentShapes.Document

open Token (Kind Located)

/-- A phrase with values of some type. -/
structure Outline where
  {Value : Type}
  phrase : Phrase Value

/-- What is foreseen of the rules. -/
def rulePreview : Preview Rule where
  nullable _ := false
  firsts
    | .value => .ofList (.punctuator .openBracket :: .punctuator .openBrace :: literalKinds)
    | .typeRef => .ofList [.name, .punctuator .openBracket]
    | .selectionSet => .ofList [.punctuator .openBrace]
  singles
    | .value => .ofList literalKinds
    | .typeRef => .ofList [.name]
    | .selectionSet => .empty
  seconds
    | .value, k => (KindSet.ofList Kind.all).only
        (k = .punctuator .openBracket || k = .punctuator .openBrace)
    | .typeRef, k => ((KindSet.ofList Kind.all).only (k = .punctuator .openBracket)).union
        ((KindSet.ofList [.punctuator .bang]).only (k = .name))
    | .selectionSet, k => (KindSet.ofList Kind.all).only (k = .punctuator .openBrace)
  extensions
    | .typeRef => .ofList [.punctuator .bang]
    | _ => .empty

namespace Nonterminal

/-- A nonterminal with repetitions in place of the productions that begin with it. -/
def outline : {α : Type} → Nonterminal α → Outline
  | _, nameNoOn => ⟨nameButOn⟩
  | _, name => ⟨anyName⟩
  | _, typeRef => ⟨Document.typeRef⟩
  | _, directivesOpt => ⟨directives⟩
  | _, directiveList => ⟨Document.directive.many1⟩
  | _, directive => ⟨Document.directive⟩
  | _, argumentsOpt => ⟨arguments⟩
  | _, argumentList => ⟨Document.argument.many1⟩
  | _, argument => ⟨Document.argument⟩
  | _, defaultValueOpt => ⟨defaultValue⟩
  | _, value => ⟨Document.value⟩
  | _, valueList => ⟨Document.value.many1⟩
  | _, objectFieldList => ⟨Document.argument.many1⟩
  | _, selectionSet => ⟨Document.selectionSet⟩
  | _, selectionSetOpt => ⟨Document.selectionSet.opt⟩
  | _, selectionList => ⟨Document.selection.many1⟩
  | _, selection => ⟨Document.selection⟩
  | _, field => ⟨Document.field⟩
  | _, annotationOpt => ⟨(mark .colon *> Document.typeRef).opt⟩
  | _, fragmentSpread => ⟨mark .ellipsis *> spread⟩
  | _, inlineFragment => ⟨mark .ellipsis *> (typedSelection <|> plainSelection)⟩
  | _, fragmentDocument => ⟨Fragment.document⟩
  | _, executableList => ⟨(Fragment.fragmentDefinition <|> Fragment.operationDefinition <|>
      Fragment.shorthandOperation).many1⟩
  | _, executable => ⟨Fragment.fragmentDefinition <|> Fragment.operationDefinition <|>
      Fragment.shorthandOperation⟩
  | _, fragmentDefinition => ⟨Fragment.fragmentDefinition⟩
  | _, operationDefinition => ⟨Fragment.operationDefinition <|> Fragment.shorthandOperation⟩
  | _, operationNameOpt => ⟨nameButOn.opt⟩
  | _, variableDefinitionsOpt => ⟨Fragment.variableDefinitions⟩
  | _, variableDefinitionList => ⟨Fragment.variableDefinition.many1⟩
  | _, variableDefinition => ⟨Fragment.variableDefinition⟩
  | _, schemaDocument => ⟨Schema.document⟩
  | _, declarationList => ⟨Schema.definition.many1⟩
  | _, declaration => ⟨Schema.definition⟩
  | _, descriptionOpt => ⟨Schema.description⟩
  | _, schemaDefinition => ⟨Schema.description *> Schema.rootsDefinition⟩
  | _, operationTypeList => ⟨Schema.rootBinding.many1⟩
  | _, operationType => ⟨Schema.rootBinding⟩
  | _, objectDefinition => ⟨Schema.description *> Schema.objectDefinition⟩
  | _, interfaceDefinition => ⟨Schema.description *> Schema.interfaceDefinition⟩
  | _, implementsOpt => ⟨Schema.interfaces⟩
  | _, implementsList => ⟨((mark .ampersand).opt *> Schema.typeName).many1⟩
  | _, fieldsDefinitionOpt => ⟨Schema.fieldBlock⟩
  | _, fieldDefinitionList => ⟨Schema.fieldDefinition.many1⟩
  | _, fieldDefinition => ⟨Schema.fieldDefinition⟩
  | _, argumentsDefinitionOpt => ⟨Schema.argumentDefinitions⟩
  | _, inputValueList => ⟨Schema.inputValue.many1⟩
  | _, inputValue => ⟨Schema.inputValue⟩
  | _, unionDefinition => ⟨Schema.description *> Schema.unionDefinition⟩
  | _, unionMembersOpt => ⟨Schema.unionMembers⟩
  | _, unionMembers => ⟨Schema.separated .pipe⟩
  | _, enumDefinition => ⟨Schema.description *> Schema.enumDefinition⟩
  | _, enumValuesOpt => ⟨Schema.block Schema.enumValue⟩
  | _, enumValueList => ⟨Schema.enumValue.many1⟩
  | _, enumValue => ⟨Schema.enumValue⟩
  | _, inputDefinition => ⟨Schema.description *> Schema.inputDefinition⟩
  | _, inputFieldsOpt => ⟨Schema.block Schema.inputValue⟩
  | _, scalarDefinition => ⟨Schema.description *> Schema.scalarDefinition⟩
  | _, directiveDefinition => ⟨Schema.description *> Schema.directiveDefinition⟩
  | _, repeatableOpt => ⟨plainName.opt⟩
  | _, directiveLocations => ⟨Schema.separated .pipe⟩

end Nonterminal

/-- What is foreseen of the nonterminals. -/
def preview : Preview Nonterminal where
  nullable n := n.outline.phrase.mayBeEmpty rulePreview
  firsts n := n.outline.phrase.firsts rulePreview
  singles n := n.outline.phrase.singles rulePreview
  seconds n k := n.outline.phrase.seconds rulePreview k
  extensions n := n.outline.phrase.extensions rulePreview

theorem isForeseen {α : Type} (n : Nonterminal α) : productions.isForeseen preview n = true := by
  cases n <;> decide +kernel

/-- Tokens have at most one derivation from a nonterminal, with one value and one row of faults. -/
theorem derivation_unique {α : Type} {n : Nonterminal α} {tree tree' : Tree Nonterminal} {a a' : α}
    {faults faults' : List Fault} (h : productions.Derives (.rule n) [tree] a faults)
    (h' : productions.Derives (.rule n) [tree'] a' faults') (hyield : tree.yield = tree'.yield) :
    tree = tree' ∧ a = a' ∧ faults = faults' :=
  Productions.derives_unique (v := preview) (fun n => isForeseen n) h h' hyield

end FragmentShapes.Document
