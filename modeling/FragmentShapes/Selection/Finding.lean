import FragmentShapes.Diagnostic

/-!
# Findings

What the resolution of a fragment cannot settle is noted and does not stop it. A type that the schema
lacks is worth one diagnostic, however often it is met.
-/

namespace FragmentShapes

/-- Something that resolution met. -/
inductive Finding where
  | unknownSpread (fragment : String)
  | spreadCycle (chain : List String)
  | unknownType (type : String)
  | unknownField (field type : String)
  | uncommonField (field union : String)
  deriving DecidableEq, Repr

namespace Finding

def code : Finding → DiagnosticCode
  | unknownSpread _ => .fragmentSpreadNotFound
  | spreadCycle _ => .spreadCycle
  | unknownType _ => .typeNotFound
  | unknownField .. => .fieldNotFound
  | uncommonField .. => .incompatibleUnionField

def message : Finding → String
  | unknownSpread fragment => s!"Fragment spread '...{fragment}' refers to an unknown fragment"
  | spreadCycle chain => "Fragment spread cycle: " ++ " -> ".intercalate chain
  | unknownType type => s!"Type '{type}' not found in schema"
  | unknownField field type => s!"Field '{field}' not found on type '{type}'"
  | uncommonField field union =>
    s!"Field '{field}' is not common to all members of union '{union}'; omitted"

/-- The findings without the unknown types in `reported` and without those that came before. -/
def reportOnce (reported : List String) : List Finding → List Finding
  | [] => []
  | unknownType type :: findings =>
    if reported.contains type then reportOnce reported findings
    else unknownType type :: reportOnce (type :: reported) findings
  | finding :: findings => finding :: reportOnce reported findings

/-- The diagnostic of a finding about a fragment. -/
def diagnostic (fragment : String) (f : Finding) : Diagnostic :=
  .report f.code f.message (some fragment)

end Finding

/-- A value, and what was found on the way to it. -/
structure Noted (α : Type) where
  value : α
  findings : List Finding

namespace Noted

instance : Monad Noted where
  pure value := ⟨value, []⟩
  bind noted next :=
    let result := next noted.value
    ⟨result.value, noted.findings ++ result.findings⟩

def note (finding : Finding) : Noted Unit := ⟨(), [finding]⟩

end Noted

end FragmentShapes
