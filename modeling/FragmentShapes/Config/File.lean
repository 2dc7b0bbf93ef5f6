import FragmentShapes.Config
import FragmentShapes.Path

/-!
# Configuration files

A configuration may stand in a JSON file. Relative paths of schema files are then relative to the
directory of that file.
-/

namespace FragmentShapes.Config

/-- Why a configuration file cannot be used. -/
inductive FileError where
  | file (fault : FileFault)
  | invalidJson (path : Path)
  | overlongInteger (o : OverlongInteger)
  | notObject (path : Path)
  | config (e : Error)
  deriving DecidableEq, Repr

def FileError.message : FileError → String
  | file fault => fault.message
  | invalidJson path => "Invalid JSON in " ++ path.toText
  | overlongInteger o => o.message
  | notObject path => path.toText ++ ": top-level value must be an object"
  | config e => e.message

/-- A path as seen from the directory of the file at `base`; an absolute path stays as it is written. -/
def relativeTo (base : Path) (text : String) : String :=
  let path := Path.parse text
  if path.isAbsolute then text else (base.parent.join path).toText

def readJson (files : FileSet) (path : Path) : Except FileError Json := do
  let text ← (files.read path).mapError .file
  match Json.parse text with
  | .ok value => return value
  | .error .malformed => throw (.invalidJson path)
  | .error (.overlongInteger o) => throw (.overlongInteger o)

def load (files : FileSet) (path : Path) : Except FileError Config := do
  match ← readJson files path with
  | .object members =>
    let c ← (ofMembers members).mapError .config
    return { c with schemaFiles := c.schemaFiles.map (relativeTo path) }
  | _ => throw (.notObject path)

end FragmentShapes.Config
