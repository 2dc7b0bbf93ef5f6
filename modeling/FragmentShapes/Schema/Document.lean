import FragmentShapes.Document.Language
import FragmentShapes.Schema.Definition

/-!
# Schema documents

The grammar of schema documents. Directive definitions are read and leave nothing behind; of the uses
of directives only `@deprecated` counts.
-/

namespace FragmentShapes.Schema

open Document
open Token (Located)

/-- The fields of an object or interface as they are written, with the line of their brace. -/
structure FieldBlock where
  line : Nat
  fields : List FieldDefinition

/-- A definition of a schema document. -/
inductive Definition where
  /-- The types of operations, each with the word that says its kind. -/
  | roots (bindings : List (Located × String))
  /-- A type, and the line on which its block of fields begins if it has one. -/
  | type (definition : TypeDefinition) (line : Nat)
  /-- A directive, with the word that stands before its locations if there is one. -/
  | directive (modifier : Option Located)
  deriving DecidableEq

/-! ## Parts of definitions -/

/-- A string or a block in front of what it describes, or nothing. -/
def description : Phrase (Option String) :=
  Grammar.opt (Located.text <$> .token [.string, .block])

/-- An argument, or a field of an input object. -/
def inputValue : Phrase InputValue :=
  (fun description name type default _ => ⟨name, type, default, description⟩) <$>
    description <*> anyName <*> (mark .colon *> typeRef) <*> defaultValue <*> directives

def argumentDefinitions : Phrase (List InputValue) :=
  (fun values => InputValue.distinct (values.getD [])) <$>
    Grammar.opt (Grammar.between .openParen .closeParen (.many1 inputValue))

def fieldDefinition : Phrase FieldDefinition :=
  (fun description name arguments type directives =>
      ⟨name, type, Deprecation.ofDirectives directives, description, arguments⟩) <$>
    description <*> anyName <*> argumentDefinitions <*> (mark .colon *> typeRef) <*> directives

def fieldBlock : Phrase FieldBlock :=
  (·.getD ⟨0, []⟩) <$>
    Grammar.opt ((fun brace fields => ⟨brace.line, fields⟩) <$>
      mark .openBrace <*> .many fieldDefinition <* mark .closeBrace)

/-- The name of a type that a definition mentions. -/
def typeName : Phrase String := Located.text <$> plainName

/-- One name or more with a mark between them, and perhaps in front of them. -/
def separated (separator : Punctuator) : Phrase (List String) :=
  List.cons <$> (Grammar.opt (mark separator) *> typeName) <*>
    .many (mark separator *> typeName)

/-- The interfaces of a type, parted by `&` or by nothing. -/
def interfaces : Phrase (List String) :=
  (·.getD []) <$>
    Grammar.opt (keyword .implements *>
      .many1 (Grammar.opt (mark .ampersand) *> typeName))

/-- The members of a union behind an equals sign, or none. -/
def unionMembers : Phrase (List String) :=
  (·.getD []) <$> Grammar.opt (mark .equals *> separated .pipe)

def enumValue : Phrase EnumValue :=
  (fun description name directives => ⟨name, description, Deprecation.ofDirectives directives⟩) <$>
    description <*> anyName <*> directives

def block {α : Type} (g : Phrase α) : Phrase (List α) :=
  (·.getD []) <$> Grammar.opt (Grammar.between .openBrace .closeBrace (.many g))

/-! ## Definitions -/

/-- A definition that still lacks the description in front of it. -/
abbrev Described := Option String → Definition

def Described.type (name : String) (body : TypeBody) : Described := fun description =>
  .type ⟨name, description, body⟩ 0

def Described.fielded (body : List String → List FieldDefinition → TypeBody) (name : String)
    (interfaces : List String) (fields : FieldBlock) : Described := fun description =>
  .type ⟨name, description, body interfaces fields.fields⟩ fields.line

def rootBinding : Phrase (Located × String) :=
  Prod.mk <$> plainName <*> (mark .colon *> typeName)

/-- The types of operations in braces, one or more. -/
def rootsDefinition : Phrase Described :=
  (fun _ bindings _ => .roots bindings) <$>
    (keyword .schema *> directives) <*>
    Grammar.between .openBrace .closeBrace (.many1 rootBinding)

def objectDefinition : Phrase Described :=
  (fun name interfaces _ fields => Described.fielded .object name interfaces fields) <$>
    (keyword .type *> typeName) <*> interfaces <*> directives <*> fieldBlock

def interfaceDefinition : Phrase Described :=
  (fun name interfaces _ fields => Described.fielded .interface name interfaces fields) <$>
    (keyword .interface *> typeName) <*> interfaces <*> directives <*> fieldBlock

def unionDefinition : Phrase Described :=
  (fun name _ members => Described.type name (.union members)) <$>
    (keyword .union *> typeName) <*> directives <*> unionMembers

def enumDefinition : Phrase Described :=
  (fun name _ values => Described.type name (.enum values)) <$>
    (keyword .enum *> typeName) <*> directives <*> block enumValue

def inputDefinition : Phrase Described :=
  (fun name _ fields => Described.type name (.input (InputValue.distinct fields))) <$>
    (keyword .input *> typeName) <*> directives <*> block inputValue

def scalarDefinition : Phrase Described :=
  (fun name _ => Described.type name (.scalar false)) <$>
    (keyword .scalar *> typeName) <*> directives

/-- A directive and the places where it may stand. -/
def directiveDefinition : Phrase Described :=
  (fun _ _ modifier _ _ => .directive modifier) <$>
    (keyword .directive *> mark .atSign *> anyName) <*> argumentDefinitions <*>
    Grammar.opt plainName <*> (keyword .on *> separated .pipe)

def definition : Phrase Definition :=
  (fun description described => described description) <$> description <*>
    (rootsDefinition <|> objectDefinition <|> interfaceDefinition <|> unionDefinition
      <|> enumDefinition <|> inputDefinition <|> scalarDefinition <|> directiveDefinition)

def document : Phrase (List Definition) := .many definition

/-! ## Conditions -/

/-- The names that stand in a list a second time, given those seen before. -/
def repeatedNames (seen : List String) : List String → List String
  | [] => []
  | name :: names =>
    if seen.contains name then name :: repeatedNames seen names
    else repeatedNames (name :: seen) names

/-- What is wrong with a definition: an operation that does not exist, a field that is declared
twice, a word other than `repeatable` before the locations of a directive. -/
def Definition.faults : Definition → List Fault
  | roots bindings =>
    (bindings.filter fun binding => !operationNames.contains binding.1.text).map fun binding =>
      .unknownOperation binding.1
  | type definition line =>
    (repeatedNames [] (definition.ownFields.map (·.name))).map (.duplicateField · line)
  | directive (some modifier) => if modifier.text = "repeatable" then [] else [.unexpected modifier]
  | directive none => []

/-- The definitions that tokens form, in order. -/
def ofTokens (stream : Token.Stream) : Except Fault (List Definition) :=
  parseChecked document (·.flatMap Definition.faults) stream

/-- The definitions of a document, in order. -/
def parseDocument (text : String) : Except Fault (List Definition) := ofTokens (Token.lex text)

end FragmentShapes.Schema
