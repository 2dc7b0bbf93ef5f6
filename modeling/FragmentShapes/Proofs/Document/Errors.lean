import FragmentShapes.Proofs.Fragment.Document
import FragmentShapes.Proofs.Schema.Document
import FragmentShapes.Proofs.Token.Lexemes

/-!
# Where the errors of documents are

A parser goes through the tokens once and stops at the first with which no document goes on. `IsPlaced`
says this of each kind of error, and `isPlaced_of_parse` of the errors of both parsers.
-/

namespace FragmentShapes.Document

open Token (Located lex)

/-- An error stands at the first place where the text is not that of a document: at the first token with
which no document goes on, at the end of tokens that lack others, or at the first fault behind tokens
with which a document begins. -/
def IsPlaced {α : Type} (n : Nonterminal α) (text : String) : Fault → Prop
  | .unexpected t => ∃ front behind, (lex text).tokens = front ++ t :: behind ∧
      IsPrefix n front ∧ ¬ IsPrefix n (front ++ [t])
  | .endOfInput => (lex text).fault = none ∧ IsPrefix n (lex text).tokens ∧
      ¬ IsDocument n (lex text).tokens
  | .lexical fault => IsPrefix n (lex text).tokens ∧ Token.StopsAt text (lex text).tokens fault
  | _ => False

section

variable {α β : Type} {start : Phrase α} {n : Nonterminal β} {judge : α → β × List Fault} {text : String}
  {fault : Fault}

/-- Where the tokens are not parsed, a front of them is that of a document, and it ends before the first
token that is left. -/
theorem Starts.of_parse_eq_error (h : Starts start n judge) {tokens rest : List Located}
    (hparse : language.parse start tokens = .error rest) :
    ∃ front, front ++ rest = tokens ∧ IsPrefix n front ∧
      ∀ t ∈ rest.head?, ¬ IsPrefix n (front ++ [t]) := by
  simp only [h.isPrefix_iff]
  exact Language.of_parse_eq_error language_isForeseen h.decided h.inhabited hparse

theorem Starts.isPrefix_of_parse_eq_error (h : Starts start n judge) {tokens : List Located}
    (hparse : language.parse start tokens = .error []) : IsPrefix n tokens := by
  obtain ⟨front, rfl, hprefix, _⟩ := h.of_parse_eq_error hparse
  rwa [List.append_nil]

theorem Starts.isPlaced (h : Starts start n judge) (hfault : parse start (lex text) = .error fault) :
    IsPlaced n text fault := by
  -- A token that cannot stand there is told first, then a fault of the lexer, then a text that ends
  -- early.
  unfold parse at hfault
  split at hfault
  case h_1 t rest hparse =>
    obtain rfl := Except.error.inj hfault
    obtain ⟨front, hfront, hviable, hstop⟩ := h.of_parse_eq_error hparse
    exact ⟨front, rest, hfront.symm, hviable, hstop t rfl⟩
  case h_2 lexical hlexical hother =>
    obtain rfl := Except.error.inj hfault
    refine ⟨?_, Token.stopsAt_of_fault hlexical⟩
    cases hparse : language.parse start (lex text).tokens with
    | ok a => exact (h.isDocument_iff.2 ⟨a, hparse⟩).isPrefix
    | error rest =>
      cases rest with
      | nil => exact h.isPrefix_of_parse_eq_error hparse
      | cons t rest => exact absurd hparse (hother t rest)
  case h_3 hparse hnone =>
    obtain rfl := Except.error.inj hfault
    refine ⟨hnone, h.isPrefix_of_parse_eq_error hparse, fun hdocument => ?_⟩
    obtain ⟨a, hok⟩ := h.isDocument_iff.1 hdocument
    cases hparse.symm.trans hok
  case h_4 => cases hfault

end

theorem parseChecked_of_parse_eq_error {α : Type} {start : Phrase α} {faults : α → List Fault}
    {stream : Token.Stream} {fault : Fault} (h : parse start stream = .error fault) :
    parseChecked start faults stream = .error fault := by
  rw [parseChecked, h]
  rfl

/-- What stops one of the two parsers is placed at the first token that does not go on as a document, or
at the first fault of the text, and it is the error of reading the text. -/
theorem isPlaced_of_parse_eq_error (text : String) :
    (∀ fault, parse Fragment.document (lex text) = .error fault →
      IsPlaced .fragmentDocument text fault ∧ Fragment.parseDocument text = .error fault) ∧
    ∀ fault, parse Schema.document (lex text) = .error fault →
      IsPlaced .schemaDocument text fault ∧ Schema.parseDocument text = .error fault := by
  constructor
  · intro fault h
    refine ⟨Fragment.starts_document.isPlaced h, ?_⟩
    rw [Fragment.parseDocument, Fragment.ofTokens, parseChecked_of_parse_eq_error h]
    rfl
  · exact fun fault h => ⟨Schema.starts_document.isPlaced h, parseChecked_of_parse_eq_error h⟩

/-- A type without a name, a fragment that ends early, and a mark that begins no token. -/
theorem isPlaced_in_texts :
    IsPlaced .schemaDocument "type !" (.unexpected ⟨.punctuator .bang, 1⟩) ∧
    IsPlaced .fragmentDocument "fragment F on T" .endOfInput ∧
    IsPlaced .fragmentDocument "fragment F on ?" (.lexical (.illegalCharacter '?' 1)) :=
  ⟨((isPlaced_of_parse_eq_error "type !").2 _ (by decide +kernel)).1,
    ((isPlaced_of_parse_eq_error "fragment F on T").1 _ (by decide +kernel)).1,
    ((isPlaced_of_parse_eq_error "fragment F on ?").1 _ (by decide +kernel)).1⟩

end FragmentShapes.Document
