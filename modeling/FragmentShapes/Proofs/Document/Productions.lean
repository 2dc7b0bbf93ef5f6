import FragmentShapes.Fragment.Document
import FragmentShapes.Proofs.Grammar.Derivation
import FragmentShapes.Schema.Document

/-!
# The productions of documents

Fragment documents and schema documents by the productions of their nonterminals, each with its value
and with what it rejects. A list is a first part and a production that begins with the list itself. A
production that differs from another one only by a part that can be left out stands with it.

The parser is written with repetitions and options, for three rules that need a name; that it reads these
productions is shown in the modules on the two kinds of documents.
-/

namespace FragmentShapes.Document

open Token (Kind Located)

/-- What a schema document declares. -/
inductive Declaration where
  /-- The types of operations by the words that say their kinds. -/
  | roots (operations : KeyedList String)
  | type (definition : Schema.TypeDefinition)
  deriving DecidableEq

/-- The nonterminals of documents with the types of their values. Those in `Opt` can be empty. -/
inductive Nonterminal : Type → Type where
  -- names, types, directives and values
  | nameNoOn : Nonterminal String
  | name : Nonterminal String
  | typeRef : Nonterminal TypeRef
  | directivesOpt : Nonterminal (List Directive)
  | directiveList : Nonterminal (List Directive)
  | directive : Nonterminal Directive
  | argumentsOpt : Nonterminal (KeyedList Literal)
  | argumentList : Nonterminal (KeyedList Literal)
  | argument : Nonterminal (String × Literal)
  | defaultValueOpt : Nonterminal (Option Literal)
  | value : Nonterminal Literal
  | valueList : Nonterminal (List Literal)
  | objectFieldList : Nonterminal (KeyedList Literal)
  -- selections
  | selectionSet : Nonterminal (List Entry)
  | selectionSetOpt : Nonterminal (Option (List Entry))
  | selectionList : Nonterminal (List Entry)
  | selection : Nonterminal (List Entry)
  | field : Nonterminal (List Entry)
  | annotationOpt : Nonterminal (Option TypeRef)
  | fragmentSpread : Nonterminal (List Entry)
  | inlineFragment : Nonterminal (List Entry)
  -- fragment documents
  | fragmentDocument : Nonterminal (List Fragment)
  | executableList : Nonterminal (List Fragment.Definition)
  | executable : Nonterminal Fragment.Definition
  | fragmentDefinition : Nonterminal Fragment.Definition
  | operationDefinition : Nonterminal Fragment.Definition
  | operationNameOpt : Nonterminal (Option String)
  | variableDefinitionsOpt : Nonterminal Unit
  | variableDefinitionList : Nonterminal Unit
  | variableDefinition : Nonterminal Unit
  -- schema documents
  | schemaDocument : Nonterminal (List Declaration)
  | declarationList : Nonterminal (List Declaration)
  | declaration : Nonterminal (Option Declaration)
  | descriptionOpt : Nonterminal (Option String)
  | schemaDefinition : Nonterminal Declaration
  | operationTypeList : Nonterminal (List (Located × String))
  | operationType : Nonterminal (Located × String)
  | objectDefinition : Nonterminal Declaration
  | interfaceDefinition : Nonterminal Declaration
  | implementsOpt : Nonterminal (List String)
  | implementsList : Nonterminal (List String)
  | fieldsDefinitionOpt : Nonterminal Schema.FieldBlock
  | fieldDefinitionList : Nonterminal (List Schema.FieldDefinition)
  | fieldDefinition : Nonterminal Schema.FieldDefinition
  | argumentsDefinitionOpt : Nonterminal (List Schema.InputValue)
  | inputValueList : Nonterminal (List Schema.InputValue)
  | inputValue : Nonterminal Schema.InputValue
  | unionDefinition : Nonterminal Declaration
  | unionMembersOpt : Nonterminal (List String)
  | unionMembers : Nonterminal (List String)
  | enumDefinition : Nonterminal Declaration
  | enumValuesOpt : Nonterminal (List Schema.EnumValue)
  | enumValueList : Nonterminal (List Schema.EnumValue)
  | enumValue : Nonterminal Schema.EnumValue
  | inputDefinition : Nonterminal Declaration
  | inputFieldsOpt : Nonterminal (List Schema.InputValue)
  | scalarDefinition : Nonterminal Declaration
  | directiveDefinition : Nonterminal Unit
  | repeatableOpt : Nonterminal (Option Located)
  | directiveLocations : Nonterminal Unit

namespace Nonterminal

/-- A right-hand side. -/
abbrev Side (α : Type) := Grammar Nonterminal α

def identifier : Side Located := .token [.name]

def word (w : Keyword) : Side Located := .token [.keyword w]

def sign (p : Punctuator) : Side Located := .token [.punctuator p]

def typeName : Side String := Located.text <$> identifier

/-- Two punctuators with a list between them or with nothing between them. -/
def enclosed {α : Type} (opening closing : Punctuator) (list : Nonterminal (List α)) :
    Side (List α) :=
  Grammar.between opening closing (.rule list) <|> (fun _ _ => []) <$> sign opening <*> sign closing

/-! ## Right-hand sides -/

/-- The productions that do not begin with their own nonterminal. -/
def body : {α : Type} → Nonterminal α → Side α
  | _, nameNoOn => Located.text <$> .token [.name, .keyword .fragment, .keyword .type,
      .keyword .interface, .keyword .union, .keyword .enum, .keyword .input, .keyword .scalar,
      .keyword .schema, .keyword .implements, .keyword .directive]
  | _, name => .rule nameNoOn <|> Located.text <$> word .on
  | _, typeRef =>
    (fun name bang => TypeRef.named name (bang.isNone)) <$> typeName <*> Grammar.opt (sign .bang)
    <|> (fun element bang => TypeRef.list element (bang.isNone)) <$>
      Grammar.between .openBracket .closeBracket (.rule typeRef) <*> Grammar.opt (sign .bang)
  | _, directivesOpt => .rule directiveList <|> pure []
  | _, directiveList => (fun d => [d]) <$> .rule directive
  | _, directive => Directive.mk <$> (sign .atSign *> .rule name) <*> .rule argumentsOpt
  | _, argumentsOpt => Grammar.between .openParen .closeParen (.rule argumentList) <|> pure []
  | _, argumentList => (fun a => [a]) <$> .rule argument
  | _, argument => Prod.mk <$> .rule name <*> (sign .colon *> .rule value)
  | _, defaultValueOpt => some <$> (sign .equals *> .rule value) <|> pure none
  | _, value =>
    ((fun t => literalOfToken t.token) <$> .token [.int, .float, .string, .block]
      <|> (fun t => literalOfToken t.token) <$> .token [.var]
      <|> Literal.ofName <$> .rule name)
    <|> Literal.list <$> enclosed .openBracket .closeBracket valueList
    <|> Literal.object <$> enclosed .openBrace .closeBrace objectFieldList
  | _, valueList => (fun item => [item]) <$> .rule value
  | _, objectFieldList => (fun a => [a]) <$> .rule argument
  | _, selectionSet => Grammar.between .openBrace .closeBrace (.rule selectionList)
  | _, selectionSetOpt => some <$> .rule selectionSet <|> pure none
  | _, selectionList => .rule selection
  | _, selection => .rule field <|> .rule fragmentSpread <|> .rule inlineFragment
  | _, field =>
    (fun name arguments declaredType directives selection =>
        [.field ⟨name, arguments, declaredType, Deprecation.ofDirectives directives⟩
          (selection.getD [])]) <$>
      .rule name <*> .rule argumentsOpt <*> .rule annotationOpt <*> .rule directivesOpt <*>
      .rule selectionSetOpt
  | _, annotationOpt => some <$> (sign .colon *> .rule typeRef) <|> pure none
  | _, fragmentSpread =>
    (fun name _ => [.spread name]) <$> (sign .ellipsis *> .rule nameNoOn) <*> .rule directivesOpt
  | _, inlineFragment =>
    (fun _ condition _ selection => [.condition condition none selection]) <$>
      (sign .ellipsis *> word .on) <*> typeName <*> .rule directivesOpt <*> .rule selectionSet
    <|> (fun _ _ selection => selection) <$>
      sign .ellipsis <*> .rule directivesOpt <*> .rule selectionSet
  | _, fragmentDocument =>
    List.filterMap Fragment.Definition.fragment? <$> .rule executableList <|> pure []
  | _, executableList => (fun d => [d]) <$> .rule executable
  | _, executable => .rule fragmentDefinition <|> .rule operationDefinition
  | _, fragmentDefinition =>
    (fun name onType _ selection => .fragment ⟨name, onType, selection⟩) <$>
      (word .fragment *> .rule nameNoOn) <*> (word .on *> typeName) <*> .rule directivesOpt <*>
      .rule selectionSet
  | _, operationDefinition =>
    (fun kind _ _ _ _ => .operation (some kind)) <$> identifier <*> .rule operationNameOpt <*>
      .rule variableDefinitionsOpt <*> .rule directivesOpt <*> .rule selectionSet
    <|> (fun _ => .operation none) <$> .rule selectionSet
  | _, operationNameOpt => some <$> .rule nameNoOn <|> pure none
  | _, variableDefinitionsOpt =>
    Grammar.between .openParen .closeParen (.rule variableDefinitionList) <|> pure ()
  | _, variableDefinitionList => .rule variableDefinition
  | _, variableDefinition =>
    (fun _ _ _ _ => ()) <$> .token [.var] <*> (sign .colon *> .rule typeRef) <*>
      .rule defaultValueOpt <*> .rule directivesOpt
  | _, schemaDocument => .rule declarationList <|> pure []
  | _, declarationList => Option.toList <$> .rule declaration
  | _, declaration =>
    some <$> .rule schemaDefinition
    <|> some <$> .rule objectDefinition
    <|> some <$> .rule interfaceDefinition
    <|> some <$> .rule unionDefinition
    <|> some <$> .rule enumDefinition
    <|> some <$> .rule inputDefinition
    <|> some <$> .rule scalarDefinition
    <|> (fun _ => none) <$> .rule directiveDefinition
  | _, descriptionOpt => (fun t => some t.text) <$> .token [.string, .block] <|> pure none
  | _, schemaDefinition =>
    (fun _ _ _ operations =>
        .roots (KeyedList.ofPairs (operations.map fun o => (o.1.text, o.2)))) <$>
      .rule descriptionOpt <*> word .schema <*> .rule directivesOpt <*>
      Grammar.between .openBrace .closeBrace (.rule operationTypeList)
  | _, operationTypeList => (fun o => [o]) <$> .rule operationType
  | _, operationType =>
    Prod.mk <$> identifier <*> (sign .colon *> typeName)
  | _, objectDefinition =>
    (fun description name interfaces _ block =>
        .type ⟨name, description, .object interfaces block.fields⟩) <$>
      .rule descriptionOpt <*> (word .type *> typeName) <*> .rule implementsOpt <*>
      .rule directivesOpt <*> .rule fieldsDefinitionOpt
  | _, interfaceDefinition =>
    (fun description name interfaces _ block =>
        .type ⟨name, description, .interface interfaces block.fields⟩) <$>
      .rule descriptionOpt <*> (word .interface *> typeName) <*> .rule implementsOpt <*>
      .rule directivesOpt <*> .rule fieldsDefinitionOpt
  | _, implementsOpt => word .implements *> .rule implementsList <|> pure []
  | _, implementsList => (fun type => [type]) <$> (Grammar.opt (sign .ampersand) *> typeName)
  | _, fieldsDefinitionOpt =>
    (fun brace fields => ⟨brace.line, fields⟩) <$> sign .openBrace <*>
      .rule fieldDefinitionList <* sign .closeBrace
    <|> (fun brace _ => ⟨brace.line, []⟩) <$> sign .openBrace <*> sign .closeBrace
    <|> pure ⟨0, []⟩
  | _, fieldDefinitionList => (fun field => [field]) <$> .rule fieldDefinition
  | _, fieldDefinition =>
    (fun description name arguments type directives =>
        ⟨name, type, Deprecation.ofDirectives directives, description,
          Schema.InputValue.distinct arguments⟩) <$>
      .rule descriptionOpt <*> .rule name <*> .rule argumentsDefinitionOpt <*>
      (sign .colon *> .rule typeRef) <*> .rule directivesOpt
  | _, argumentsDefinitionOpt =>
    Grammar.between .openParen .closeParen (.rule inputValueList) <|> pure []
  | _, inputValueList => (fun input => [input]) <$> .rule inputValue
  | _, inputValue =>
    (fun description name type default _ => ⟨name, type, default, description⟩) <$>
      .rule descriptionOpt <*> .rule name <*> (sign .colon *> .rule typeRef) <*>
      .rule defaultValueOpt <*> .rule directivesOpt
  | _, unionDefinition =>
    (fun description name _ members => .type ⟨name, description, .union members⟩) <$>
      .rule descriptionOpt <*> (word .union *> typeName) <*> .rule directivesOpt <*>
      .rule unionMembersOpt
  | _, unionMembersOpt => sign .equals *> .rule unionMembers <|> pure []
  | _, unionMembers => (fun type => [type]) <$> (Grammar.opt (sign .pipe) *> typeName)
  | _, enumDefinition =>
    (fun description name _ values => .type ⟨name, description, .enum values⟩) <$>
      .rule descriptionOpt <*> (word .enum *> typeName) <*> .rule directivesOpt <*>
      .rule enumValuesOpt
  | _, enumValuesOpt => enclosed .openBrace .closeBrace enumValueList <|> pure []
  | _, enumValueList => (fun value => [value]) <$> .rule enumValue
  | _, enumValue =>
    (fun description name directives =>
        ⟨name, description, Deprecation.ofDirectives directives⟩) <$>
      .rule descriptionOpt <*> .rule name <*> .rule directivesOpt
  | _, inputDefinition =>
    (fun description name _ fields =>
        .type ⟨name, description, .input (Schema.InputValue.distinct fields)⟩) <$>
      .rule descriptionOpt <*> (word .input *> typeName) <*> .rule directivesOpt <*>
      .rule inputFieldsOpt
  | _, inputFieldsOpt => enclosed .openBrace .closeBrace inputValueList <|> pure []
  | _, scalarDefinition =>
    (fun description name _ => .type ⟨name, description, .scalar false⟩) <$>
      .rule descriptionOpt <*> (word .scalar *> typeName) <*> .rule directivesOpt
  | _, directiveDefinition =>
    (fun _ _ _ _ _ _ => ()) <$> .rule descriptionOpt <*> word .directive <*>
      (sign .atSign *> .rule name) <*> .rule argumentsDefinitionOpt <*> .rule repeatableOpt <*>
      (word .on *> .rule directiveLocations)
  | _, repeatableOpt => some <$> identifier <|> pure none
  | _, directiveLocations => (fun _ => ()) <$> (Grammar.opt (sign .pipe) *> typeName)

/-- What stands behind the nonterminal in the productions that begin with it. -/
def tail : {α : Type} → Nonterminal α → Side (α → α)
  | _, directiveList => (fun d list => list ++ [d]) <$> .rule directive
  | _, argumentList => (fun a list => KeyedList.put a.1 a.2 list) <$> .rule argument
  | _, valueList => (fun item list => list ++ [item]) <$> .rule value
  | _, objectFieldList => (fun a list => KeyedList.put a.1 a.2 list) <$> .rule argument
  | _, selectionList => (fun entries list => list ++ entries) <$> .rule selection
  | _, executableList => (fun d list => list ++ [d]) <$> .rule executable
  | _, variableDefinitionList => (fun _ _ => ()) <$> .rule variableDefinition
  | _, declarationList => (fun d list => list ++ d.toList) <$> .rule declaration
  | _, operationTypeList => (fun o list => list ++ [o]) <$> .rule operationType
  | _, implementsList =>
    (fun type list => list ++ [type]) <$> (Grammar.opt (sign .ampersand) *> typeName)
  | _, fieldDefinitionList => (fun field list => list ++ [field]) <$> .rule fieldDefinition
  | _, inputValueList => (fun input list => list ++ [input]) <$> .rule inputValue
  | _, unionMembers => (fun type list => list ++ [type]) <$> (sign .pipe *> typeName)
  | _, enumValueList => (fun value list => list ++ [value]) <$> .rule enumValue
  | _, directiveLocations => (fun _ _ => ()) <$> (sign .pipe *> typeName)
  | _, _ => Productions.noTail

/-! ## Conditions -/

/-- The fields with the name of one that stands before them. -/
def fieldsAgain (fields : List Schema.FieldDefinition) : List Schema.FieldDefinition :=
  (fields.zipIdx.filter fun field =>
    (fields.take field.2).any (·.name = field.1.name)).map Prod.fst

/-- What a production rejects of its value: operations of an unknown kind, a field that is there
already, and another word than `repeatable`. -/
def rejects : {α : Type} → Nonterminal α → α → List Fault
  | _, operationDefinition, .operation (some kind) =>
    if kind.text ∈ operationNames then [] else [.unknownOperation kind]
  | _, operationType, (kind, _) =>
    if kind.text ∈ operationNames then [] else [.unknownOperation kind]
  | _, fieldsDefinitionOpt, block =>
    (fieldsAgain block.fields).map fun field => .duplicateField field.name block.line
  | _, repeatableOpt, some modifier =>
    if modifier.text = "repeatable" then [] else [.unexpected modifier]
  | _, _, _ => []

end Nonterminal

/-- The productions of fragment documents and of schema documents. -/
def productions : Productions Nonterminal Fault :=
  ⟨Nonterminal.body, Nonterminal.tail, Nonterminal.rejects⟩

end FragmentShapes.Document
