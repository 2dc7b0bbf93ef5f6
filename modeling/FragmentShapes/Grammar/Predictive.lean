import FragmentShapes.Grammar

/-!
# Predictive parsing

A parser that chooses by the next token and never goes back. It fails at the first token with which
no phrase can go on, and hands back the tokens from there; none are left when the input ends too
early.
-/

namespace FragmentShapes

open Token (Kind Located)

/-- A parser takes a phrase off the front of the tokens, or fails at the first of those it gives back. -/
abbrev Parser (α : Type) := List Located → Except (List Located) (α × List Located)

namespace Parser

variable {α β : Type}

def token (kinds : List Kind) : Parser Located
  | [] => .error []
  | t :: rest => if kinds.contains t.kind then .ok (t, rest) else .error (t :: rest)

/-- The next token is of a kind that the test accepts. -/
def next (accepts : Kind → Bool) : List Located → Bool
  | [] => false
  | t :: _ => accepts t.kind

/-- Phrases one after another as long as the next token starts one, at most one for each token of
`bound`. -/
def many (accepts : Kind → Bool) (p : Parser α) : (bound : List Located) → Parser (List α)
  | [], tokens => .ok ([], tokens)
  | _ :: bound, tokens =>
    if next accepts tokens then do
      let (value, rest) ← p tokens
      let (values, rest) ← many accepts p bound rest
      return (value :: values, rest)
    else .ok ([], tokens)

end Parser

namespace Language

variable {R : Type → Type}

/-- The parser of a grammar, given parsers of the rules. Of two alternatives the second is taken
unless the next token starts the first. -/
def parser (L : Language R) (call : {α : Type} → R α → Parser α) :
    {α : Type} → Grammar R α → Parser α
  | _, .token kinds => Parser.token kinds
  | _, .pure value => fun tokens => .ok (value, tokens)
  | _, .map f g => fun tokens => do
    let (value, rest) ← L.parser call g tokens
    return (f value, rest)
  | _, .seq g h => fun tokens => do
    let (f, rest) ← L.parser call g tokens
    let (value, rest) ← L.parser call h rest
    return (f value, rest)
  | _, .alt g h => fun tokens =>
    if Parser.next (g.starts L.leads ·) tokens then L.parser call g tokens
    else L.parser call h tokens
  | _, .many g => fun tokens =>
    Parser.many (g.starts L.leads ·) (L.parser call g) tokens tokens
  | _, .rule r => call r

/-- The parser of a rule with rules inside rules up to a depth. -/
def ruleParser (L : Language R) : (depth : Nat) → {α : Type} → R α → Parser α
  | 0, _, _ => .error
  | depth + 1, _, r => L.parser (L.ruleParser depth) (L.body r)

/-- Reads all tokens as one phrase. A rule inside a rule comes at least one token later, so that the
number of tokens bounds the depth. -/
def parse {α : Type} (L : Language R) (start : Grammar R α) (tokens : List Located) :
    Except (List Located) α :=
  match L.parser (L.ruleParser (tokens.length + 1)) start tokens with
  | .ok (value, []) => .ok value
  | .ok (_, rest) => .error rest
  | .error rest => .error rest

end Language

end FragmentShapes
