import FragmentShapes.Document.Selection
import FragmentShapes.Grammar.Predictive
import FragmentShapes.Token.Lexer

/-!
# Reading documents

A document is read in three steps: its tokens, its phrase, and the conditions that no grammar
expresses. Faults of the first two end the reading where they are found, whichever comes first in the
text. The conditions are looked at last, and the first one that fails counts.
-/

namespace FragmentShapes.Document

open Token (Kind Located)

/-- The kinds of token that the phrases of a rule start with. -/
def leads : {α : Type} → Rule α → Kind → Bool
  | _, .value, k => literalKinds.contains k || k = .punctuator .openBracket || k = .punctuator .openBrace
  | _, .typeRef, k => k = .name || k = .punctuator .openBracket
  | _, .selectionSet, k => k = .punctuator .openBrace

def body : {α : Type} → Rule α → Phrase α
  | _, .value => valueBody
  | _, .typeRef => typeRefBody
  | _, .selectionSet => selectionSetBody

def language : Language Rule := ⟨body, leads⟩

/-- Why a document cannot be read. -/
inductive Fault where
  | lexical (fault : Token.LexicalFault)
  | unexpected (t : Located)
  | endOfInput
  | unknownOperation (t : Located)
  | duplicateField (name : String) (line : Nat)
  deriving DecidableEq, Repr

/-- The document is not well formed; otherwise it holds something that has no value. -/
def Fault.isSyntactic : Fault → Bool
  | lexical fault => fault.isSyntactic
  | _ => true

def Fault.message : Fault → String
  | lexical fault => fault.message
  | unexpected t => s!"Syntax error at '{t.text}' (line {t.line})"
  | endOfInput => "Syntax error at end of input"
  | unknownOperation t => s!"Unknown operation type '{t.text}' (line {t.line})"
  | duplicateField name line => s!"Duplicate field '{name}' (line {line})"

def operationNames : List String := ["query", "mutation", "subscription"]

/-- The phrase that the tokens form, if it is one of `start`. -/
def parse {α : Type} (start : Phrase α) (stream : Token.Stream) : Except Fault α :=
  match language.parse start stream.tokens, stream.fault with
  | .error (t :: _), _ => .error (.unexpected t)
  | _, some fault => .error (.lexical fault)
  | .error [], none => .error .endOfInput
  | .ok value, none => .ok value

/-- The phrase that the tokens form, if `faults` finds nothing wrong with it. -/
def parseChecked {α : Type} (start : Phrase α) (faults : α → List Fault) (stream : Token.Stream) :
    Except Fault α := do
  let value ← parse start stream
  match faults value with
  | [] => return value
  | fault :: _ => throw fault

end FragmentShapes.Document
