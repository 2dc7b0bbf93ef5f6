import FragmentShapes.Numeric.Overlong
import FragmentShapes.Text.Block
import FragmentShapes.Text.DecimalDigit
import FragmentShapes.Text.Escape
import FragmentShapes.Text.Identifier
import FragmentShapes.Token

/-!
# Reading tokens

A text is cut into lexemes from left to right: tokens, and blanks, commas, line ends and comments,
which mean nothing. A lexeme is the longest one of its class at the head of the text. Lines are
counted by LF alone, and a token stands on the line of its first character. Reading ends at the
first character that begins no lexeme, the first malformed escape and the first overlong integer; the
tokens before it remain.

The main statements are `scan_append`, by which the lexemes put together are the text that was read,
and `scan_lexeme_ne_nil`, by which reading ends.
-/

namespace FragmentShapes.Token

/-- What one lexeme means. -/
inductive Meaning where
  | token (t : Token)
  | nothing
  | badEscape (digits : List Char)
  | overlong (o : OverlongInteger)

/-- A lexeme at the head of a text, and the text behind it. -/
structure Scan where
  lexeme : List Char
  meaning : Meaning
  rest : List Char

/-! ## Quoted text -/

/-- The inside of a block up to its closing quotes. -/
structure BlockBody where
  /-- The characters read, closing quotes included. -/
  raw : List Char
  /-- The text between the quotes, with an escaped triple quote resolved. -/
  value : List Char
  rest : List Char

/-- Puts a character in front of a block. -/
def BlockBody.cons (c : Char) (b : BlockBody) : BlockBody :=
  { b with raw := c :: b.raw, value := c :: b.value }

/-- Reads a block up to the first three quotes without a backslash in front. Where none follow, the
last escaped ones close it after all, and the backslash stays in the text. -/
def blockBody : List Char → Option BlockBody
  | [] => none
  | '\\' :: '"' :: '"' :: '"' :: cs =>
    match blockBody cs with
    | some b =>
      some ⟨'\\' :: '"' :: '"' :: '"' :: b.raw, '"' :: '"' :: '"' :: b.value, b.rest⟩
    | none => some ⟨['\\', '"', '"', '"'], ['\\'], cs⟩
  | '"' :: '"' :: '"' :: cs => some ⟨['"', '"', '"'], [], cs⟩
  | c :: cs => (blockBody cs).map (·.cons c)

/-- The inside of a quoted string, escapes not yet resolved, and the text behind the closing quote.
The string ends on its line. -/
def stringBody : List Char → Option (List Char × List Char)
  | [] => none
  | '"' :: cs => some ([], cs)
  | '\\' :: c :: cs =>
    if c = '\n' then none
    else (stringBody cs).map fun (body, rest) => ('\\' :: c :: body, rest)
  | c :: cs =>
    if c = '\n' ∨ c = '\\' then none
    else (stringBody cs).map fun (body, rest) => (c :: body, rest)

def BlockBody.token (b : BlockBody) : Token := block (String.ofList (Text.dedent b.value))

/-- What the inside of a quoted string means. -/
def stringMeaning (body : List Char) : Meaning :=
  match Text.unescape body with
  | .ok text => .token (string (String.ofList text))
  | .error digits => .badEscape digits

/-- A string, whose opening quote has been read. -/
def scanString (cs : List Char) : Option Scan :=
  (stringBody cs).map fun (body, rest) => ⟨'"' :: (body ++ ['"']), stringMeaning body, rest⟩

/-- A quoted text: a block if three quotes open it and it can be closed, else a string. -/
def scanQuoted : List Char → Option Scan
  | '"' :: '"' :: cs =>
    match blockBody cs with
    | some b => some ⟨'"' :: '"' :: '"' :: b.raw, .token b.token, b.rest⟩
    | none => scanString ('"' :: '"' :: cs)
  | cs => scanString cs

/-! ## Numbers -/

/-- An optional sign in front of an exponent. -/
def exponentSign : List Char → List Char × List Char
  | '+' :: cs => (['+'], cs)
  | '-' :: cs => (['-'], cs)
  | cs => ([], cs)

/-- A part of a number: the characters read, and the digits among them. -/
structure NumberPart where
  lexeme : List Char
  digits : List Char
  rest : List Char

/-- An exponent: `e` or `E`, a sign or none, and digits. -/
def exponentPart? : List Char → Option NumberPart
  | [] => none
  | c :: cs =>
    if c = 'e' ∨ c = 'E' then
      let (sign, cs) := exponentSign cs
      let digits := cs.takeWhile Text.isDecimalDigit
      if digits = [] then none
      else some ⟨c :: (sign ++ digits), digits, cs.dropWhile Text.isDecimalDigit⟩
    else none

def fractionPart? : List Char → Option NumberPart
  | '.' :: cs =>
    let digits := cs.takeWhile Text.isDecimalDigit
    if digits = [] then none
    else some ⟨'.' :: digits, digits, cs.dropWhile Text.isDecimalDigit⟩
  | _ => none

def NumberPart.exponent (p : NumberPart) : Int :=
  let n := Int.ofNat (Text.decimalValue p.digits)
  if p.lexeme.contains '-' then -n else n

def integerMeaning (negative : Bool) (digits : List Char) : Meaning :=
  match OverlongInteger.check? digits.length with
  | some o => .overlong o
  | none =>
    let n := Int.ofNat (Text.decimalValue digits)
    .token (int (if negative then -n else n))

/-- A number behind its sign: digits, then a fraction, an exponent or both for a float. -/
def scanUnsigned (negative : Bool) (cs : List Char) : Option Scan :=
  let whole := cs.takeWhile Text.isDecimalDigit
  let rest := cs.dropWhile Text.isDecimalDigit
  if whole = [] then none
  else
    let fraction := (fractionPart? rest).getD ⟨[], [], rest⟩
    let exponent := (exponentPart? fraction.rest).getD ⟨[], [], fraction.rest⟩
    let lexeme := whole ++ (fraction.lexeme ++ exponent.lexeme)
    let meaning :=
      if fraction.lexeme.isEmpty && exponent.lexeme.isEmpty then integerMeaning negative whole
      else
        .token (float (.ofDecimal negative (Text.decimalValue (whole ++ fraction.digits))
          (exponent.exponent - Int.ofNat fraction.digits.length)))
    some ⟨lexeme, meaning, exponent.rest⟩

def scanNumber : List Char → Option Scan
  | '-' :: cs => (scanUnsigned true cs).map fun s => { s with lexeme := '-' :: s.lexeme }
  | cs => scanUnsigned false cs

/-! ## Names, variables and punctuation -/

def scanIdentifier : List Char → Option Scan
  | [] => none
  | c :: cs =>
    if Text.isAsciiNameStart c then
      let more := cs.takeWhile Text.isAsciiNamePart
      some ⟨c :: more, .token (ofIdentifier (String.ofList (c :: more))),
        cs.dropWhile Text.isAsciiNamePart⟩
    else none

def scanVariable : List Char → Option Scan
  | [] => none
  | c :: cs =>
    if Text.isAsciiNameStart c then
      let more := cs.takeWhile Text.isAsciiNamePart
      some ⟨'$' :: c :: more, .token (var (String.ofList (c :: more))),
        cs.dropWhile Text.isAsciiNamePart⟩
    else none

def punctuator? : Char → Option Punctuator
  | '{' => some .openBrace
  | '}' => some .closeBrace
  | '[' => some .openBracket
  | ']' => some .closeBracket
  | '(' => some .openParen
  | ')' => some .closeParen
  | ':' => some .colon
  | '!' => some .bang
  | '=' => some .equals
  | '@' => some .atSign
  | '|' => some .pipe
  | '&' => some .ampersand
  | _ => none

/-- Blanks, commas and line ends, which only part tokens. -/
def isSeparator (c : Char) : Bool := c == ' ' || c == '\t' || c == '\r' || c == ',' || c == '\n'

/-- Any other lexeme than a quoted text or a variable. -/
def scanPlain (c : Char) (cs : List Char) : Option Scan :=
  if isSeparator c then some ⟨[c], .nothing, cs⟩
  else
    match punctuator? c with
    | some mark => some ⟨[c], .token (punctuator mark), cs⟩
    | none =>
      if c = '-' ∨ Text.isDecimalDigit c = true then scanNumber (c :: cs)
      else scanIdentifier (c :: cs)

/-! ## The whole text -/

/-- The lexeme at the head of a text; `none` at the end and at a character that begins none. -/
def scan : List Char → Option Scan
  | [] => none
  | '"' :: cs => scanQuoted cs
  | '$' :: cs => scanVariable cs
  | '#' :: cs =>
    some ⟨'#' :: cs.takeWhile (· != '\n'), .nothing, cs.dropWhile (· != '\n')⟩
  | '.' :: '.' :: '.' :: cs => some ⟨['.', '.', '.'], .token (punctuator .ellipsis), cs⟩
  | c :: cs => scanPlain c cs

/-! ## Lexemes cover the text -/

theorem blockBody_append {cs : List Char} :
    ∀ {b : BlockBody}, blockBody cs = some b → b.raw ++ b.rest = cs := by
  fun_induction blockBody cs with
  | case1 => intro b h; cases h
  | case2 cs inner hinner ih => intro b h; cases h; simp [ih hinner]
  | case3 cs hnone ih => intro b h; cases h; rfl
  | case4 cs => intro b h; cases h; rfl
  | case5 c cs _ _ ih =>
    intro b h
    obtain ⟨inner, hinner, rfl⟩ := Option.map_eq_some_iff.1 h
    simp [BlockBody.cons, ih hinner]

theorem stringBody_append {cs : List Char} :
    ∀ {body rest : List Char}, stringBody cs = some (body, rest) → body ++ '"' :: rest = cs := by
  fun_induction stringBody cs with
  | case1 => intro body rest h; cases h
  | case2 cs => intro body rest h; cases h; rfl
  | case3 => intro body rest h; cases h
  | case4 c cs _ ih =>
    intro body rest h
    obtain ⟨⟨inner, tail⟩, hinner, hpair⟩ := Option.map_eq_some_iff.1 h
    cases hpair
    simp [ih hinner]
  | case5 => intro body rest h; cases h
  | case6 c cs _ _ _ ih =>
    intro body rest h
    obtain ⟨⟨inner, tail⟩, hinner, hpair⟩ := Option.map_eq_some_iff.1 h
    cases hpair
    simp [ih hinner]

/-- A scan of `cs` that reads something and loses nothing. -/
def Scan.Covers (s : Scan) (cs : List Char) : Prop := s.lexeme ++ s.rest = cs ∧ s.lexeme ≠ []

theorem scanString_covers {cs : List Char} {s : Scan} (h : scanString cs = some s) :
    s.Covers ('"' :: cs) := by
  obtain ⟨⟨body, rest⟩, hbody, rfl⟩ := Option.map_eq_some_iff.1 h
  exact ⟨by simp [stringBody_append hbody], by simp⟩

theorem scanQuoted_covers {cs : List Char} {s : Scan} (h : scanQuoted cs = some s) :
    s.Covers ('"' :: cs) := by
  unfold scanQuoted at h
  split at h
  · next cs =>
    split at h
    · next b hb =>
      cases h
      exact ⟨by simp [blockBody_append hb], by simp⟩
    · exact scanString_covers h
  · exact scanString_covers h

theorem fractionPart_append {cs : List Char} {p : NumberPart} (h : fractionPart? cs = some p) :
    p.lexeme ++ p.rest = cs := by
  unfold fractionPart? at h
  split at h
  · dsimp only at h
    split at h
    · cases h
    · cases h; simp
  · cases h

theorem exponentSign_append (cs : List Char) : (exponentSign cs).1 ++ (exponentSign cs).2 = cs := by
  unfold exponentSign
  split <;> rfl

theorem exponentPart_append {cs : List Char} {p : NumberPart} (h : exponentPart? cs = some p) :
    p.lexeme ++ p.rest = cs := by
  unfold exponentPart? at h
  split at h
  · cases h
  · next c cs =>
    split at h
    · dsimp only at h
      split at h
      · cases h
      · cases h
        simp [exponentSign_append]
    · cases h

theorem getD_part_append {cs : List Char} {part : Option NumberPart}
    (h : ∀ p, part = some p → p.lexeme ++ p.rest = cs) :
    (part.getD ⟨[], [], cs⟩).lexeme ++ (part.getD ⟨[], [], cs⟩).rest = cs := by
  cases part with
  | none => rfl
  | some p => exact h p rfl

theorem scanUnsigned_covers {negative : Bool} {cs : List Char} {s : Scan}
    (h : scanUnsigned negative cs = some s) : s.Covers cs := by
  unfold scanUnsigned at h
  dsimp only at h
  split at h
  · cases h
  · next hwhole =>
    cases h
    refine ⟨?_, by simp [hwhole]⟩
    simp only [List.append_assoc]
    rw [getD_part_append fun _ => exponentPart_append, getD_part_append fun _ => fractionPart_append,
      List.takeWhile_append_dropWhile]

theorem scanNumber_covers {cs : List Char} {s : Scan} (h : scanNumber cs = some s) :
    s.Covers cs := by
  unfold scanNumber at h
  split at h
  · obtain ⟨t, ht, rfl⟩ := Option.map_eq_some_iff.1 h
    exact ⟨by simp [(scanUnsigned_covers ht).1], by simp⟩
  · exact scanUnsigned_covers h

theorem scanIdentifier_covers {cs : List Char} {s : Scan} (h : scanIdentifier cs = some s) :
    s.Covers cs := by
  unfold scanIdentifier at h
  split at h
  · cases h
  · next c cs =>
    split at h
    · cases h
      exact ⟨by simp, by simp⟩
    · cases h

theorem scanVariable_covers {cs : List Char} {s : Scan} (h : scanVariable cs = some s) :
    s.Covers ('$' :: cs) := by
  unfold scanVariable at h
  split at h
  · cases h
  · next c cs =>
    split at h
    · cases h
      exact ⟨by simp, by simp⟩
    · cases h

theorem scanPlain_covers {c : Char} {cs : List Char} {s : Scan} (h : scanPlain c cs = some s) :
    s.Covers (c :: cs) := by
  unfold scanPlain at h
  split at h
  · cases h; exact ⟨rfl, by simp⟩
  · split at h
    · cases h; exact ⟨rfl, by simp⟩
    · split at h
      · exact scanNumber_covers h
      · exact scanIdentifier_covers h

theorem scan_covers {cs : List Char} {s : Scan} (h : scan cs = some s) : s.Covers cs := by
  unfold scan at h
  split at h
  · cases h
  · exact scanQuoted_covers h
  · exact scanVariable_covers h
  · cases h
    exact ⟨by simp, by simp⟩
  · cases h; exact ⟨rfl, by simp⟩
  · exact scanPlain_covers h

/-- Nothing is lost: the lexeme and what follows it are the text. -/
theorem scan_append {cs : List Char} {s : Scan} (h : scan cs = some s) : s.lexeme ++ s.rest = cs :=
  (scan_covers h).1

theorem scan_lexeme_ne_nil {cs : List Char} {s : Scan} (h : scan cs = some s) : s.lexeme ≠ [] :=
  (scan_covers h).2

theorem length_rest_lt {cs : List Char} {s : Scan} (h : scan cs = some s) :
    s.rest.length < cs.length := by
  have happend := congrArg List.length (scan_append h)
  have hpos := List.length_pos_iff.2 (scan_lexeme_ne_nil h)
  rw [List.length_append] at happend
  omega

/-! ## The whole text -/

/-- Why reading ended before the end of the text. -/
inductive LexicalFault where
  | illegalCharacter (c : Char) (line : Nat)
  | invalidEscape (digits : String) (line : Nat)
  | overlongInteger (o : OverlongInteger)
  deriving DecidableEq, Repr

namespace LexicalFault

/-- The text is not well formed. An overlong integer is, but has no value. -/
def isSyntactic : LexicalFault → Bool
  | overlongInteger _ => false
  | _ => true

def message : LexicalFault → String
  | illegalCharacter c line => s!"Illegal character '{c}' at line {line}"
  | invalidEscape digits line => s!"Invalid unicode escape '\\u{digits}' at line {line}"
  | overlongInteger o => o.message

end LexicalFault

/-- The tokens of a text in order, and the fault behind the last of them if there is one. -/
structure Stream where
  tokens : List Located
  fault : Option LexicalFault
  deriving DecidableEq, Repr

/-- Puts a token in front. -/
def Stream.cons (t : Located) (s : Stream) : Stream := { s with tokens := t :: s.tokens }

/-- The fault at a text that begins with no lexeme. -/
def faultAt (line : Nat) : List Char → Option LexicalFault
  | [] => none
  | c :: _ => some (.illegalCharacter c line)

/-- Reads a text whose first character stands on the line `line`. -/
def lexFrom (line : Nat) (cs : List Char) : Stream :=
  match h : scan cs with
  | none => ⟨[], faultAt line cs⟩
  | some s =>
    have := length_rest_lt h
    let next := line + s.lexeme.count '\n'
    match s.meaning with
    | .token t => (lexFrom next s.rest).cons ⟨t, line⟩
    | .nothing => lexFrom next s.rest
    | .badEscape digits => ⟨[], some (.invalidEscape (String.ofList digits) line)⟩
    | .overlong o => ⟨[], some (.overlongInteger o)⟩
termination_by cs.length

/-- Reads a text; its first line is line 1. -/
def lex (text : String) : Stream := lexFrom 1 text.toList

/-- A text that is given by its characters need not be taken apart. -/
theorem lex_ofList (cs : List Char) : lex (String.ofList cs) = lexFrom 1 cs := by
  rw [lex, String.toList_ofList]

end FragmentShapes.Token
