import FragmentShapes.Text.Blank

/-!
# Blocks of text

A block is a text of several lines that is indented together with the document around it. Its value
leaves out the indentation that all lines but the first have in common, and the blank lines at its
beginning and end.
-/

namespace FragmentShapes.Text

/-- The lines of a text. CR LF is one break; a break at the end opens no further line. -/
def splitLines : List Char → List (List Char)
  | [] => []
  | '\r' :: '\n' :: cs => [] :: splitLines cs
  | c :: cs =>
    if isLineBreak c then [] :: splitLines cs
    else
      match splitLines cs with
      | [] => [[c]]
      | line :: lines => (c :: line) :: lines

/-- The lines, each but the last followed by LF. -/
def joinLines (lines : List (List Char)) : List Char := ['\n'].intercalate lines

/-- Indentation is made of spaces and tabs only. -/
def isIndent (c : Char) : Bool := c == ' ' || c == '\t'

/-- How many spaces and tabs the line begins with. -/
def indentation (line : List Char) : Nat := (line.takeWhile isIndent).length

/-- The least indentation of the lines that are not blank; zero when all are. -/
def commonIndentation (lines : List (List Char)) : Nat :=
  ((lines.filter (!isBlankText ·)).map indentation).min?.getD 0

/-- Takes the common indentation off every line but the first. -/
def dedentLines : List (List Char) → List (List Char)
  | [] => []
  | first :: rest =>
    let common := commonIndentation rest
    first :: rest.map (·.drop common)

/-- Leaves out the blank lines at both ends. -/
def trimBlankLines (lines : List (List Char)) : List (List Char) :=
  ((lines.dropWhile isBlankText).reverse.dropWhile isBlankText).reverse

/-- The value of a block whose text between the quotes is `raw`. -/
def dedent (raw : List Char) : List Char :=
  joinLines (trimBlankLines (dedentLines (splitLines raw)))

end FragmentShapes.Text
