import FragmentShapes.Document.Terms

/-!
# Selections in documents

The grammar of selection sets. A selection without a type condition belongs to the selection around
it, so that each phrase gives a row of entries.
-/

namespace FragmentShapes.Document

def selectionSet : Phrase (List Entry) := .rule .selectionSet

/-- A field: its name, arguments, a type behind a colon, directives and a selection set. -/
def field : Phrase (List Entry) :=
  (fun name arguments declaredType directives selection =>
      [.field ⟨name, arguments, declaredType, Deprecation.ofDirectives directives⟩
        (selection.getD [])]) <$>
    anyName <*> arguments <*> Grammar.opt (mark .colon *> typeRef) <*> directives <*>
    Grammar.opt selectionSet

/-- The use of a fragment, behind the dots. -/
def spread : Phrase (List Entry) := (fun name _ => [.spread name]) <$> nameButOn <*> directives

/-- A selection under a type condition, behind the dots. -/
def typedSelection : Phrase (List Entry) :=
  (fun condition _ selection => [.condition condition.text none selection]) <$>
    (keyword .on *> plainName) <*> directives <*> selectionSet

/-- A selection without a type condition, behind the dots. -/
def plainSelection : Phrase (List Entry) := directives *> selectionSet

/-- A field, or one of the three forms behind dots. -/
def selection : Phrase (List Entry) :=
  field <|> mark .ellipsis *> (spread <|> typedSelection <|> plainSelection)

def selectionSetBody : Phrase (List Entry) :=
  List.flatten <$> Grammar.between .openBrace .closeBrace (.many1 selection)

end FragmentShapes.Document
