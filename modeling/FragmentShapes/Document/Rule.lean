import FragmentShapes.Fragment
import FragmentShapes.Grammar

/-!
# Words and rules of documents

Fragment documents and schema documents share their tokens, their values and their type references.
Only three of their rules are recursive and need a name; everything else is plain grammar over them.
-/

namespace FragmentShapes.Document

open Token (Kind Located)

/-- The recursive rules. -/
inductive Rule : Type → Type where
  | value : Rule Literal
  | typeRef : Rule TypeRef
  | selectionSet : Rule (List Entry)

abbrev Phrase (α : Type) := Grammar Rule α

def keyword (word : Keyword) : Phrase Located := .token [.keyword word]

def mark (p : Punctuator) : Phrase Located := .token [.punctuator p]

/-- A name that is not reserved. -/
def plainName : Phrase Located := .token [.name]

def nameKinds : List Kind := .name :: Keyword.all.map .keyword

/-- The kinds of names and reserved words other than `on`. -/
def nameKindsButOn : List Kind := nameKinds.filter (· ≠ .keyword .on)

def anyName : Phrase String := Located.text <$> .token nameKinds

def nameButOn : Phrase String := Located.text <$> .token nameKindsButOn

end FragmentShapes.Document
