/-!
# File paths

A path is a root (none for a relative path) and its parts. Empty parts and single dots vanish on
reading, double dots stay. A set of files answers a path by walking its parts: every part but the last
has to lead to a directory, and a double dot steps back out of one.
-/

namespace FragmentShapes

/-- A file path. The root is empty for a relative path, else one slash or two. -/
structure Path where
  root : String
  parts : List String
  deriving DecidableEq, Repr

namespace Path

/-- The pieces of a text between slashes, without the empty ones and the single dots. -/
def splitParts (cs : List Char) : List String :=
  ((cs.splitBy fun a b => a != '/' && b != '/').filter fun piece => piece != ['/'] && piece != ['.']).map
    String.ofList

/-- Exactly two slashes in front are a root of their own; any other number of them is one. -/
def rootOf : List Char → String
  | '/' :: '/' :: '/' :: _ => "/"
  | '/' :: '/' :: _ => "//"
  | '/' :: _ => "/"
  | _ => ""

def parse (text : String) : Path := ⟨rootOf text.toList, splitParts text.toList⟩

/-- The path starts at the root of the file system. -/
def isAbsolute (p : Path) : Bool := p.root != ""

/-- The path as text; the empty relative path is a dot. -/
def toText (p : Path) : String :=
  let text := p.root ++ "/".intercalate p.parts
  if text = "" then "." else text

def parent (p : Path) : Path := { p with parts := p.parts.dropLast }

/-- A relative path continued from another one. -/
def join (p relative : Path) : Path := { p with parts := p.parts ++ relative.parts }

end Path

/-- Why no text is read at a path. -/
inductive FileFault where
  | notFound
  | isDirectory
  /-- The path goes on behind something that is no directory. -/
  | notDirectory
  | nameTooLong
  | nullCharacter
  deriving DecidableEq, Repr

def FileFault.message : FileFault → String
  | notFound => "no such file or directory"
  | isDirectory => "is a directory"
  | notDirectory => "not a directory"
  | nameTooLong => "file name too long"
  | nullCharacter => "embedded null byte"

/-- Texts of files by path, as seen from one directory. -/
structure FileSet where
  files : List (String × String)

namespace FileSet

/-- Where a walk along a path has come to. -/
inductive Position where
  /-- The parts that lead there from the directory of the file set. -/
  | inside (parts : List String)
  /-- A directory above that one. What else lies there is not known. -/
  | outside
  deriving DecidableEq, Repr

def empty : FileSet := ⟨[]⟩

def entries (s : FileSet) : List (List String × String) :=
  s.files.map fun file => ((Path.parse file.1).parts, file.2)

/-- The text of the file at some parts; of several spellings of one path the last counts. -/
def text? (s : FileSet) (parts : List String) : Option String := s.entries.reverse.lookup parts

/-- The parts lead to a directory: some file lies below it, or it is that of the file set. -/
def isDirectory (s : FileSet) (parts : List String) : Bool :=
  parts.isEmpty || s.entries.any fun file => parts.isPrefixOf file.1 && file.1 != parts

/-- The greatest size of one part of a path, in bytes. -/
def partLimit : Nat := 255

/-- The greatest size of a whole path, in bytes. -/
def pathLimit : Nat := 4095

def step (s : FileSet) : Position → String → Except FileFault Position
  | .inside parts, part =>
    if !s.isDirectory parts then .error .notDirectory
    else if part = ".." then .ok (if parts.isEmpty then .outside else .inside parts.dropLast)
    else if partLimit < part.utf8ByteSize then .error .nameTooLong
    else
      let next := parts ++ [part]
      if s.isDirectory next || (s.text? next).isSome then .ok (.inside next) else .error .notFound
  | .outside, part =>
    if part = ".." then .ok .outside
    else if partLimit < part.utf8ByteSize then .error .nameTooLong
    else .error .notFound

/-- The position that a path leads to. What is wrong with the path as a whole counts before its parts, and
of those the first that fails. -/
def locate (s : FileSet) (p : Path) : Except FileFault Position :=
  let text := p.toText
  if text.toList.contains '\x00' then .error .nullCharacter
  else if pathLimit < text.utf8ByteSize then .error .nameTooLong
  else p.parts.foldlM s.step (if p.isAbsolute then .outside else .inside [])

/-- Line ends CR LF and CR become LF. -/
def unifyLineEnds : List Char → List Char
  | [] => []
  | '\r' :: '\n' :: cs => '\n' :: unifyLineEnds cs
  | '\r' :: cs => '\n' :: unifyLineEnds cs
  | c :: cs => c :: unifyLineEnds cs

/-- The text of the file at a path, with line ends unified. -/
def read (s : FileSet) (p : Path) : Except FileFault String := do
  match ← s.locate p with
  | .outside => throw .isDirectory
  | .inside parts =>
    match s.text? parts with
    | some text => return String.ofList (unifyLineEnds text.toList)
    | none => throw .isDirectory

end FileSet

end FragmentShapes
