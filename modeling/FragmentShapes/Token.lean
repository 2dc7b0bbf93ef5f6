import FragmentShapes.Numeric.Shortest

/-!
# Tokens

The words of fragment documents and of schema documents: names and reserved words, variables,
numbers, two kinds of quoted text, and punctuation. Grammars tell tokens apart by their kind.
-/

namespace FragmentShapes

/-- A reserved word. -/
inductive Keyword where
  | fragment | on | type | interface | union | enum | input | scalar | schema | implements | directive
  deriving DecidableEq, Repr

namespace Keyword

def all : List Keyword :=
  [fragment, on, type, interface, union, enum, input, scalar, schema, implements, directive]

def spelling : Keyword → String
  | fragment => "fragment"
  | on => "on"
  | type => "type"
  | interface => "interface"
  | union => "union"
  | enum => "enum"
  | input => "input"
  | scalar => "scalar"
  | schema => "schema"
  | implements => "implements"
  | directive => "directive"

def ofSpelling? (text : String) : Option Keyword := all.find? (·.spelling = text)

theorem mem_all (k : Keyword) : k ∈ all := by cases k <;> decide

end Keyword

/-- A punctuator. -/
inductive Punctuator where
  | ellipsis | openBrace | closeBrace | openBracket | closeBracket | openParen | closeParen
  | colon | bang | equals | atSign | pipe | ampersand
  deriving DecidableEq, Repr

namespace Punctuator

def all : List Punctuator :=
  [ellipsis, openBrace, closeBrace, openBracket, closeBracket, openParen, closeParen, colon, bang,
    equals, atSign, pipe, ampersand]

def spelling : Punctuator → String
  | ellipsis => "..."
  | openBrace => "\x7b"
  | closeBrace => "\x7d"
  | openBracket => "["
  | closeBracket => "]"
  | openParen => "("
  | closeParen => ")"
  | colon => ":"
  | bang => "!"
  | equals => "="
  | atSign => "@"
  | pipe => "|"
  | ampersand => "&"

theorem mem_all (p : Punctuator) : p ∈ all := by cases p <;> decide

end Punctuator

/-- A token with its value: numbers are converted, quoted texts have their escapes resolved or their
indentation taken off, and a variable is without its dollar sign. -/
inductive Token where
  | name (text : String)
  | keyword (word : Keyword)
  | var (label : String)
  | int (value : Int)
  | float (value : Binary64)
  | string (text : String)
  | block (text : String)
  | punctuator (mark : Punctuator)
  deriving DecidableEq, Repr

namespace Token

/-- What a grammar sees of a token. -/
inductive Kind where
  | name | var | int | float | string | block
  | keyword (word : Keyword)
  | punctuator (mark : Punctuator)
  deriving DecidableEq, Repr

def Kind.all : List Kind :=
  [.name, .var, .int, .float, .string, .block] ++ Keyword.all.map .keyword ++
    Punctuator.all.map .punctuator

theorem Kind.mem_all (k : Kind) : k ∈ all := by
  cases k with
  | keyword word => simp [all, Keyword.mem_all]
  | punctuator mark => simp [all, Punctuator.mem_all]
  | _ => simp [all]

def kind : Token → Kind
  | name _ => .name
  | keyword word => .keyword word
  | var _ => .var
  | int _ => .int
  | float _ => .float
  | string _ => .string
  | block _ => .block
  | punctuator mark => .punctuator mark

/-- The value of a token as text, as messages show it. -/
def text : Token → String
  | name text => text
  | keyword word => word.spelling
  | var label => label
  | int value => if value < 0 then "-" ++ Nat.repr value.natAbs else Nat.repr value.natAbs
  | float value => Numeric.Layout.standard.text value
  | string text => text
  | block text => text
  | punctuator mark => mark.spelling

/-- The token of an identifier: a reserved word, or a name. -/
def ofIdentifier (text : String) : Token :=
  match Keyword.ofSpelling? text with
  | some word => keyword word
  | none => name text

/-- A token and the line on which it starts. -/
structure Located where
  token : Token
  line : Nat
  deriving DecidableEq, Repr

def Located.kind (t : Located) : Kind := t.token.kind

def Located.text (t : Located) : String := t.token.text

end Token

end FragmentShapes
