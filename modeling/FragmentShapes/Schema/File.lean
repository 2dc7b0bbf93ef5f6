import FragmentShapes.Path
import FragmentShapes.Schema

/-!
# Schema files

Several files that form one schema, read in the order of their paths.
-/

namespace FragmentShapes.Schema

/-- Why files do not form a schema. -/
inductive FileError where
  | file (fault : FileFault)
  | schema (e : Error)
  deriving DecidableEq, Repr

/-- Adds the definitions of the files at some paths. -/
def loadFiles (s : Schema) (files : FileSet) : List Path → Except FileError Schema
  | [] => .ok s
  | path :: paths =>
    match files.read path with
    | .error fault => .error (.file fault)
    | .ok text =>
      match s.load text with
      | (s, none) => s.loadFiles files paths
      | (_, some e) => .error (.schema e)

end FragmentShapes.Schema
