import FragmentShapes.Document.Language

/-!
# Fragment documents

A document of fragments may hold operations too. They are read like fragments and have no further
use; only their kind has to be one that exists.
-/

namespace FragmentShapes.Fragment

open Document
open Token (Located)

/-- A definition of a fragment document. -/
inductive Definition where
  | fragment (f : Fragment)
  /-- An operation, with the word that says its kind if there is one. -/
  | operation (word : Option Located)
  deriving DecidableEq

/-- A fragment: its name, the type it is on, directives and a selection set. -/
def fragmentDefinition : Phrase Definition :=
  (fun name onType _ selection => .fragment ⟨name, onType.text, selection⟩) <$>
    (keyword .fragment *> nameButOn) <*> (keyword .on *> plainName) <*> directives <*> selectionSet

/-- A variable of an operation, with its type, default and directives. -/
def variableDefinition : Phrase Unit :=
  (fun _ _ _ _ => ()) <$>
    (.token [.var] <* mark .colon) <*> typeRef <*> defaultValue <*> directives

/-- The variables of an operation in parentheses, or none. -/
def variableDefinitions : Phrase Unit :=
  (fun _ => ()) <$>
    Grammar.opt (Grammar.between .openParen .closeParen (.many1 variableDefinition))

def operationDefinition : Phrase Definition :=
  (fun word _ _ _ _ => .operation (some word)) <$>
    plainName <*> Grammar.opt nameButOn <*> variableDefinitions <*> directives <*> selectionSet

/-- An operation that is a selection set alone. -/
def shorthandOperation : Phrase Definition := (fun _ => .operation none) <$> selectionSet

def document : Phrase (List Definition) :=
  .many (fragmentDefinition <|> operationDefinition <|> shorthandOperation)

/-- An operation of a kind that does not exist. -/
def Definition.fault? : Definition → Option Fault
  | operation (some word) =>
    if operationNames.contains word.text then none else some (.unknownOperation word)
  | _ => none

/-- The fragment of a definition that is one. -/
def Definition.fragment? : Definition → Option Fragment
  | fragment f => some f
  | operation _ => none

/-- The fragments that tokens define, in order. -/
def ofTokens (stream : Token.Stream) : Except Fault (List Fragment) := do
  let definitions ← parseChecked document (·.filterMap Definition.fault?) stream
  return definitions.filterMap Definition.fragment?

def parseDocument (text : String) : Except Fault (List Fragment) := ofTokens (Token.lex text)

/-- The fragments of a text that is given by its characters. -/
theorem parseDocument_ofList (cs : List Char) :
    parseDocument (String.ofList cs) = ofTokens (Token.lexFrom 1 cs) := by
  rw [parseDocument, Token.lex_ofList]

end FragmentShapes.Fragment
