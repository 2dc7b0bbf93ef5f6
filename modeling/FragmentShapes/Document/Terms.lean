import FragmentShapes.Document.Rule

/-!
# Terms of documents

The grammar of type references, values, arguments and directives.
-/

namespace FragmentShapes.Document

open Token (Kind Located)

/-- The literal of a token that is one by itself. -/
def literalOfToken : Token → Literal
  | .name text => .ofName text
  | .keyword word => .ofName word.spelling
  | .var label => .var label
  | .int value => .int value
  | .float value => .float value
  | .string text => .string text
  | .block text => .string text
  | .punctuator _ => .null

/-- The kinds of tokens that are literals by themselves. -/
def literalKinds : List Kind := [.int, .float, .string, .block, .var] ++ nameKinds

def value : Phrase Literal := .rule .value

def typeRef : Phrase TypeRef := .rule .typeRef

def argument : Phrase (String × Literal) := Prod.mk <$> anyName <* mark .colon <*> value

/-- The rule of values: a single token, a list or an object. -/
def valueBody : Phrase Literal :=
  (fun t => literalOfToken t.token) <$> .token literalKinds
    <|> Literal.list <$> Grammar.between .openBracket .closeBracket (.many value)
    <|> (fun members => Literal.object (KeyedList.ofPairs members)) <$>
      Grammar.between .openBrace .closeBrace (.many argument)

/-- An exclamation mark forbids null. -/
def nullability : Phrase Bool := Option.isNone <$> Grammar.opt (mark .bang)

/-- The rule of type references: a name or a list in brackets. -/
def typeRefBody : Phrase TypeRef :=
  (fun t nullable => TypeRef.named t.text nullable) <$> plainName <*> nullability
    <|> TypeRef.list <$> Grammar.between .openBracket .closeBracket typeRef <*> nullability

def arguments : Phrase (KeyedList Literal) :=
  (fun pairs => KeyedList.ofPairs (pairs.getD [])) <$>
    Grammar.opt (Grammar.between .openParen .closeParen (.many1 argument))

def directive : Phrase Directive := Directive.mk <$> (mark .atSign *> anyName) <*> arguments

def directives : Phrase (List Directive) := .many directive

/-- An equals sign and a value, or nothing. -/
def defaultValue : Phrase (Option Literal) := Grammar.opt (mark .equals *> value)

end FragmentShapes.Document
