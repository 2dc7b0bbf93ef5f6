import FragmentShapes.UnknownName

/-!
# Diagnostics

What a run has to report: each diagnostic has a code, a severity, a message, and the fragment it is
about if there is one.
-/

namespace FragmentShapes

/-- How grave a diagnostic is. -/
inductive Severity where
  | info | warning | error
  deriving DecidableEq, Repr

namespace Severity

def name : Severity → String
  | info => "info"
  | warning => "warning"
  | error => "error"

def ofName (text : String) : Except UnknownName Severity :=
  match [info, warning, error].find? (·.name = text) with
  | some severity => .ok severity
  | none => .error ⟨"Severity", text⟩

end Severity

/-- What a diagnostic reports. -/
inductive DiagnosticCode where
  | invalidSyntax
  | noFragments
  | invalidFragmentName
  | fragmentSpreadNotFound
  | schemaFileNotFound
  | invalidSchema
  | typeNotFound
  | fieldNotFound
  | missingTypename
  | incompatibleUnionField
  | spreadCycle
  | missingSchema
  | namingCollision
  | configurationError
  deriving DecidableEq, Repr

namespace DiagnosticCode

def all : List DiagnosticCode :=
  [invalidSyntax, noFragments, invalidFragmentName, fragmentSpreadNotFound, schemaFileNotFound,
    invalidSchema, typeNotFound, fieldNotFound, missingTypename, incompatibleUnionField, spreadCycle,
    missingSchema, namingCollision, configurationError]

def label : DiagnosticCode → String × String
  | invalidSyntax => ("INVALID_SYNTAX", "GQLSG001")
  | noFragments => ("NO_FRAGMENTS", "GQLSG002")
  | invalidFragmentName => ("INVALID_FRAGMENT_NAME", "GQLSG003")
  | fragmentSpreadNotFound => ("FRAGMENT_SPREAD_NOT_FOUND", "GQLSG004")
  | schemaFileNotFound => ("SCHEMA_FILE_NOT_FOUND", "GQLSG005")
  | invalidSchema => ("INVALID_SCHEMA", "GQLSG006")
  | typeNotFound => ("TYPE_NOT_FOUND", "GQLSG007")
  | fieldNotFound => ("FIELD_NOT_FOUND", "GQLSG008")
  | missingTypename => ("MISSING_TYPENAME", "GQLSG009")
  | incompatibleUnionField => ("INCOMPATIBLE_UNION_FIELD", "GQLSG010")
  | spreadCycle => ("SPREAD_CYCLE", "GQLSG011")
  | missingSchema => ("MISSING_SCHEMA", "GQLSG012")
  | namingCollision => ("NAMING_COLLISION", "GQLSG013")
  | configurationError => ("CONFIGURATION_ERROR", "GQLSG014")

def name (c : DiagnosticCode) : String := c.label.1

def id (c : DiagnosticCode) : String := c.label.2

/-- The severity of a diagnostic that is given no other. -/
def defaultSeverity : DiagnosticCode → Severity
  | noFragments | typeNotFound | fieldNotFound | missingTypename | spreadCycle => .warning
  | incompatibleUnionField | missingSchema => .info
  | _ => .error

def ofName? (text : String) : Option DiagnosticCode := all.find? (·.name = text)

end DiagnosticCode

/-- A diagnostic. -/
structure Diagnostic where
  code : DiagnosticCode
  severity : Severity
  message : String
  fragment : Option String
  deriving DecidableEq, Repr

namespace Diagnostic

/-- A diagnostic of the severity that its code has. -/
def report (code : DiagnosticCode) (message : String) (fragment : Option String := none) :
    Diagnostic :=
  ⟨code, code.defaultSeverity, message, fragment⟩

/-- The diagnostic on one line; an empty fragment name is left out. -/
def toText (d : Diagnostic) : String :=
  let place :=
    match d.fragment with
    | some name => if name = "" then "" else s!" [{name}]"
    | none => ""
  s!"{d.code.id} {d.severity.name}{place}: {d.message}"

def ofSeverity (severity : Severity) (ds : List Diagnostic) : List Diagnostic :=
  ds.filter (·.severity = severity)

def hasCode (code : DiagnosticCode) (ds : List Diagnostic) : Bool := ds.any (·.code = code)

end Diagnostic

end FragmentShapes
