/-!
# Escapes in quoted text

A backslash in a quoted text stands with the next character for one character, or with `u` and four
hexadecimal digits for one UTF-16 unit. Two units that form a surrogate pair are one character.
-/

namespace FragmentShapes.Text

/-- The value of a hexadecimal digit, `none` for any other character. -/
def hexDigit? (c : Char) : Option Nat :=
  if c.isDigit then some (c.toNat - 48)
  else if 'a' ≤ c ∧ c ≤ 'f' then some (c.toNat - 87)
  else if 'A' ≤ c ∧ c ≤ 'F' then some (c.toNat - 55)
  else none

/-- The unit that four hexadecimal digits denote. -/
def hexUnit? (a b c d : Char) : Option Nat := do
  return 0x1000 * (← hexDigit? a) + 0x100 * (← hexDigit? b) + 0x10 * (← hexDigit? c) + (← hexDigit? d)

/-- What a backslash and the character `c` stand for; `c` itself where nothing else is said. -/
def escapedChar (c : Char) : Char :=
  match c with
  | 'b' => '\x08'
  | 'f' => '\x0c'
  | 'n' => '\n'
  | 'r' => '\r'
  | 't' => '\t'
  | c => c

/-- The code points of a quoted text, surrogates kept apart. A `\u` without four hexadecimal digits
fails with the characters that stand in their place, at most four. -/
def unescapeUnits : List Char → Except (List Char) (List Nat)
  | [] => .ok []
  | '\\' :: 'u' :: a :: b :: c :: d :: rest =>
    match hexUnit? a b c d with
    | some unit => (unit :: ·) <$> unescapeUnits rest
    | none => .error [a, b, c, d]
  | '\\' :: 'u' :: rest => .error rest
  | '\\' :: c :: rest => ((escapedChar c).toNat :: ·) <$> unescapeUnits rest
  | c :: rest => (c.toNat :: ·) <$> unescapeUnits rest

/-- The first unit of a surrogate pair. -/
def isHighSurrogate (n : Nat) : Bool := 0xD800 ≤ n && n < 0xDC00

/-- The second unit of a surrogate pair. -/
def isLowSurrogate (n : Nat) : Bool := 0xDC00 ≤ n && n < 0xE000

/-- The character of a code point; a surrogate without its partner becomes U+FFFD. -/
def charOfUnit (n : Nat) : Char :=
  if isHighSurrogate n || isLowSurrogate n then '\ufffd' else Char.ofNat n

/-- The characters of a row of code points, surrogate pairs joined. -/
def joinSurrogates : List Nat → List Char
  | [] => []
  | [n] => [charOfUnit n]
  | high :: low :: rest =>
    if isHighSurrogate high && isLowSurrogate low then
      Char.ofNat (0x10000 + 0x400 * (high - 0xD800) + (low - 0xDC00)) :: joinSurrogates rest
    else
      charOfUnit high :: joinSurrogates (low :: rest)

/-- The value of a quoted text, or the characters of its first malformed `\u` escape. -/
def unescape (raw : List Char) : Except (List Char) (List Char) :=
  joinSurrogates <$> unescapeUnits raw

end FragmentShapes.Text
