import FragmentShapes.KeyedList
import FragmentShapes.Numeric.Overlong
import FragmentShapes.Text.Escape

/-!
# JSON

Values of JSON and their reader. An object keeps its keys in the order of the text; a repeated key
keeps its first place and takes its last value. Integers have any size, other numbers are kept as
written; `NaN`, `Infinity` and `-Infinity` are read as such numbers.
-/

namespace FragmentShapes

/-- A JSON value. -/
inductive Json where
  | null
  | bool (value : Bool)
  | integer (value : Int)
  | real (text : String)
  | string (value : String)
  | array (items : List Json)
  | object (members : List (String × Json))
  deriving Inhabited

namespace Json

/-- Blank characters between the tokens of JSON. -/
def isSpace (c : Char) : Bool := c == ' ' || c == '\t' || c == '\n' || c == '\r'

/-- The text without the blanks at its beginning. -/
def skipSpace (cs : List Char) : List Char := cs.dropWhile isSpace

/-- What a backslash and a character other than `u` stand for. -/
def simpleEscape? : Char → Option Char
  | '"' => some '"'
  | '\\' => some '\\'
  | '/' => some '/'
  | 'b' => some '\x08'
  | 'f' => some '\x0c'
  | 'n' => some '\n'
  | 'r' => some '\r'
  | 't' => some '\t'
  | _ => none

/-- Why a text is no JSON value. -/
inductive Fault where
  | malformed
  | overlongInteger (o : OverlongInteger)
  deriving DecidableEq, Repr

/-! Readers take something off the front of the characters and return it with those that remain. Of
several faults the first in the text counts. -/

/-- The code points of a string up to its closing quote, and the text behind it. A control character
or an escape that is not defined fails. -/
def readUnits : List Char → Except Fault (List Nat × List Char)
  | [] => .error .malformed
  | '"' :: rest => .ok ([], rest)
  | '\\' :: 'u' :: a :: b :: c :: d :: rest =>
    match Text.hexUnit? a b c d with
    | none => .error .malformed
    | some unit => do
      let (units, rest) ← readUnits rest
      return (unit :: units, rest)
  | '\\' :: c :: rest =>
    match simpleEscape? c with
    | none => .error .malformed
    | some escaped => do
      let (units, rest) ← readUnits rest
      return (escaped.toNat :: units, rest)
  | c :: rest =>
    if c.toNat < 0x20 then .error .malformed
    else do
      let (units, rest) ← readUnits rest
      return (c.toNat :: units, rest)

def readString (cs : List Char) : Except Fault (String × List Char) := do
  let (units, rest) ← readUnits cs
  return (String.ofList (Text.joinSurrogates units), rest)

/-- The whole part of a number: a single zero, or digits of which the first is none. -/
def splitWhole : List Char → List Char × List Char
  | '0' :: rest => (['0'], rest)
  | cs => cs.span Char.isDigit

/-- The part of a number behind the point, with the point; empty without a digit there. -/
def splitFraction : List Char → List Char × List Char
  | '.' :: rest =>
    match rest.span Char.isDigit with
    | ([], _) => ([], '.' :: rest)
    | (digits, rest) => ('.' :: digits, rest)
  | cs => ([], cs)

/-- The sign of an exponent; empty where there is none. -/
def splitSign : List Char → List Char × List Char
  | '+' :: rest => (['+'], rest)
  | '-' :: rest => (['-'], rest)
  | cs => ([], cs)

/-- The exponent of a number with its letter and sign; empty without a digit there. -/
def splitExponent : List Char → List Char × List Char
  | [] => ([], [])
  | c :: rest =>
    if c = 'e' ∨ c = 'E' then
      let (sign, behind) := splitSign rest
      match behind.span Char.isDigit with
      | ([], _) => ([], c :: rest)
      | (digits, behind) => (c :: (sign ++ digits), behind)
    else ([], c :: rest)

def naturalOfDigits (digits : List Char) : Nat :=
  digits.foldl (fun n c => 10 * n + (c.toNat - 48)) 0

/-- The value of an integer without a sign. -/
def readInteger (negative : Bool) (digits : List Char) : Except Fault Json :=
  match OverlongInteger.check? digits.length with
  | some o => .error (.overlongInteger o)
  | none =>
    let n := Int.ofNat (naturalOfDigits digits)
    .ok (integer (if negative then -n else n))

/-- A number without its sign: the longest one at the head of the text. -/
def readUnsigned (negative : Bool) (cs : List Char) : Except Fault (Json × List Char) :=
  match splitWhole cs with
  | ([], _) => .error .malformed
  | (whole, rest) =>
    let (fraction, rest) := splitFraction rest
    let (exponent, rest) := splitExponent rest
    if fraction.isEmpty && exponent.isEmpty then do
      let value ← readInteger negative whole
      return (value, rest)
    else
      let text := whole ++ fraction ++ exponent
      .ok (real (String.ofList (if negative then '-' :: text else text)), rest)

mutual

/-- A value at the head of the text, nested at most `depth` deep. -/
def readValue (depth : Nat) (cs : List Char) : Except Fault (Json × List Char) :=
  match depth with
  | 0 => .error .malformed
  | depth + 1 =>
    match cs with
    | 'n' :: 'u' :: 'l' :: 'l' :: rest => .ok (null, rest)
    | 't' :: 'r' :: 'u' :: 'e' :: rest => .ok (bool true, rest)
    | 'f' :: 'a' :: 'l' :: 's' :: 'e' :: rest => .ok (bool false, rest)
    | 'N' :: 'a' :: 'N' :: rest => .ok (real "NaN", rest)
    | 'I' :: 'n' :: 'f' :: 'i' :: 'n' :: 'i' :: 't' :: 'y' :: rest => .ok (real "Infinity", rest)
    | '-' :: 'I' :: 'n' :: 'f' :: 'i' :: 'n' :: 'i' :: 't' :: 'y' :: rest =>
      .ok (real "-Infinity", rest)
    | '"' :: rest => do
      let (value, rest) ← readString rest
      return (string value, rest)
    | '[' :: rest =>
      match skipSpace rest with
      | ']' :: rest => .ok (array [], rest)
      | rest => do
        let (items, rest) ← readItems depth rest
        return (array items, rest)
    | '{' :: rest =>
      match skipSpace rest with
      | '}' :: rest => .ok (object [], rest)
      | rest => do
        let (members, rest) ← readMembers depth rest
        return (object (KeyedList.ofPairs members), rest)
    | '-' :: rest => readUnsigned true rest
    | rest => readUnsigned false rest
termination_by structural depth

/-- The items of an array behind its bracket, with the closing bracket. -/
def readItems (depth : Nat) (cs : List Char) : Except Fault (List Json × List Char) :=
  match depth with
  | 0 => .error .malformed
  | depth + 1 => do
    let (item, rest) ← readValue depth cs
    match skipSpace rest with
    | ']' :: rest => return ([item], rest)
    | ',' :: rest =>
      let (items, rest) ← readItems depth (skipSpace rest)
      return (item :: items, rest)
    | _ => .error .malformed
termination_by structural depth

/-- The members of an object behind its brace, with the closing brace. -/
def readMembers (depth : Nat) (cs : List Char) : Except Fault (List (String × Json) × List Char) :=
  match depth with
  | 0 => .error .malformed
  | depth + 1 =>
    match cs with
    | '"' :: rest => do
      let (key, rest) ← readString rest
      match skipSpace rest with
      | ':' :: rest =>
        let (value, rest) ← readValue depth (skipSpace rest)
        match skipSpace rest with
        | '}' :: rest => return ([(key, value)], rest)
        | ',' :: rest =>
          let (members, rest) ← readMembers depth (skipSpace rest)
          return ((key, value) :: members, rest)
        | _ => .error .malformed
      | _ => .error .malformed
    | _ => .error .malformed
termination_by structural depth

end

/-- The value that a text denotes. Each level of recursion takes a character, so that the length of
the text bounds the depth. -/
def parse (text : String) : Except Fault Json := do
  let cs := text.toList
  let (value, rest) ← readValue (cs.length + 1) (skipSpace cs)
  if (skipSpace rest).isEmpty then return value else throw .malformed

end Json

end FragmentShapes
