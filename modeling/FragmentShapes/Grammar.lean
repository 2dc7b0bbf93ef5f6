import FragmentShapes.Token

/-!
# Grammars

A grammar describes phrases of tokens and the value of each phrase. It is data: alternatives,
sequences, repetition, and references to named rules, which make recursion possible. What a phrase
can start with, and whether it can be empty, is read off the grammar, and this is all that is needed
to choose between alternatives by one token.
-/

namespace FragmentShapes

open Token (Kind Located)

/-- A grammar over the rules `R`, where `R α` are the rules whose phrases have values in `α`. -/
inductive Grammar (R : Type → Type) : Type → Type 1 where
  /-- One token of the listed kinds. -/
  | token (kinds : List Kind) : Grammar R Located
  /-- The empty phrase. -/
  | pure {α : Type} (value : α) : Grammar R α
  /-- The phrases of `g`, with `f` of their values. -/
  | map {α β : Type} (f : α → β) (g : Grammar R α) : Grammar R β
  /-- A phrase of `g` and behind it a phrase of `h`. -/
  | seq {α β : Type} (g : Grammar R (α → β)) (h : Grammar R α) : Grammar R β
  /-- A phrase of `g` or of `h`. -/
  | alt {α : Type} (g h : Grammar R α) : Grammar R α
  /-- Any number of phrases of `g`. -/
  | many {α : Type} (g : Grammar R α) : Grammar R (List α)
  /-- A phrase of a rule. -/
  | rule {α : Type} (r : R α) : Grammar R α

namespace Grammar

variable {R : Type → Type} {α β : Type}

instance : Applicative (Grammar R) where
  pure := .pure
  map := .map
  seq g h := .seq g (h ())

instance : OrElse (Grammar R α) where
  orElse g h := .alt g (h ())

/-- A phrase of `g` or nothing. -/
def opt (g : Grammar R α) : Grammar R (Option α) := some <$> g <|> pure none

def many1 (g : Grammar R α) : Grammar R (List α) := List.cons <$> g <*> g.many

/-- A phrase of `g` inside two punctuators. -/
def between (opening closing : Punctuator) (g : Grammar R α) : Grammar R α :=
  token [.punctuator opening] *> g <* token [.punctuator closing]

/-- The phrase can be empty. No rule has an empty phrase. -/
def nullable : {α : Type} → Grammar R α → Bool
  | _, token _ => false
  | _, pure _ => true
  | _, map _ g => g.nullable
  | _, seq g h => g.nullable && h.nullable
  | _, alt g h => g.nullable || h.nullable
  | _, many _ => true
  | _, rule _ => false

/-- A phrase can start with a token of the kind `k`, given the kinds that each rule starts with. -/
def starts (leads : {α : Type} → R α → Kind → Bool) (k : Kind) : {α : Type} → Grammar R α → Bool
  | _, token kinds => kinds.contains k
  | _, pure _ => false
  | _, map _ g => g.starts leads k
  | _, seq g h => g.starts leads k || (g.nullable && h.starts leads k)
  | _, alt g h => g.starts leads k || h.starts leads k
  | _, many g => g.starts leads k
  | _, rule r => leads r k

end Grammar

/-- The rules of a language: for each its grammar, and the kinds of token its phrases start with. -/
structure Language (R : Type → Type) where
  body : {α : Type} → R α → Grammar R α
  leads : {α : Type} → R α → Kind → Bool

end FragmentShapes
