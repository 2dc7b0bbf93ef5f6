import FragmentShapes.Proofs.Document.Phrases
import FragmentShapes.Proofs.Document.Unambiguous
import FragmentShapes.Proofs.Grammar.Run
import Mathlib.Data.Set.Subsingleton

/-!
# Parsing documents

`Starts` ties a grammar that the parser starts with to a nonterminal of the productions. For such a pair
`Starts.derivations_iff` says that exactly the tokens that can be derived are parsed, and with the value
of their derivation. There is no second derivation, by `subsingleton_derivations`.
-/

namespace FragmentShapes.Document

open Token (Kind Located)

/-- The rules of documents can be read with one token of lookahead. -/
theorem language_isForeseen : language.IsForeseen rulePreview ruleReading where
  reads := ruleReading_eq
  shows {_ r _ _ _} h := by
    obtain ⟨tree, rfl, h⟩ := h
    have hshows := Productions.shows_yield (v := preview)
      (fun n => Productions.isForeseen_of (isForeseen n)) h
    cases r <;> exact hshows
  nullable _ := rfl
  leads n k := by
    cases n <;>
      simp [rulePreview, language, leads, Bool.or_comm, Bool.or_left_comm, Bool.or_assoc]
  decided n := by cases n <;> decide +kernel
  guarded n := by cases n <;> decide +kernel
  extensions n k h := by
    refine KindSet.of_within ?_ h
    cases n <;> decide +kernel
  ground n := by cases n <;> decide +kernel
  inhabited n := by cases n <;> decide +kernel

/-- A derivation of tokens from a nonterminal: its tree, its value and what is rejected in it, in the order
in which the productions are completed. -/
def derivations {α : Type} (n : Nonterminal α) (tokens : List Located) :
    Set (Tree Nonterminal × α × List Fault) :=
  { d | d.1.yield = tokens ∧ productions.Derives (.rule n) [d.1] d.2.1 d.2.2 }

/-- The tokens of a whole document. -/
def IsDocument {α : Type} (n : Nonterminal α) (tokens : List Located) : Prop :=
  (derivations n tokens).Nonempty

/-- Tokens with which a document begins. -/
def IsPrefix {α : Type} (n : Nonterminal α) (tokens : List Located) : Prop :=
  ∃ more, IsDocument n (tokens ++ more)

theorem IsDocument.isPrefix {α : Type} {n : Nonterminal α} {tokens : List Located}
    (h : IsDocument n tokens) : IsPrefix n tokens := ⟨[], by rwa [List.append_nil]⟩

theorem subsingleton_derivations {α : Type} (n : Nonterminal α) (tokens : List Located) :
    (derivations n tokens).Subsingleton := by
  rintro ⟨tree, a, faults⟩ ⟨hyield, h⟩ ⟨tree', a', faults'⟩ ⟨hyield', h'⟩
  obtain ⟨rfl, rfl, rfl⟩ := derivation_unique h h' (hyield.trans hyield'.symm)
  rfl

/-- The parser of `start` reads what can be derived from `n`; `judge` says what that is the value of, and
what is rejected in it. -/
structure Starts {α β : Type} (start : Phrase α) (n : Nonterminal β) (judge : α → β × List Fault) :
    Prop where
  decided : start.isDecided rulePreview false = true
  inhabited : start.isInhabited = true
  phrase : productions.phrase n = .tell (.map judge (start.reads ruleReading))

section

variable {α β : Type} {start : Phrase α} {n : Nonterminal β} {judge : α → β × List Fault}
  {tokens : List Located}

theorem Starts.derivations_iff (h : Starts start n judge) {b : β} {faults : List Fault} :
    (∃ tree, (tree, b, faults) ∈ derivations n tokens) ↔
      ∃ a, language.parse start tokens = .ok a ∧ judge a = (b, faults) := by
  have hphrase : productions.phrase n tokens b faults ↔
      ∃ a, start.reads ruleReading tokens a [] ∧ judge a = (b, faults) := by
    rw [h.phrase]
    exact Iff.rfl
  simp only [Language.parse_eq_ok_iff language_isForeseen h.decided]
  exact hphrase

theorem Starts.isDocument_iff (h : Starts start n judge) :
    IsDocument n tokens ↔ ∃ a, language.parse start tokens = .ok a := by
  constructor
  · rintro ⟨⟨tree, b, faults⟩, hd⟩
    obtain ⟨a, ha, _⟩ := h.derivations_iff.1 ⟨tree, hd⟩
    exact ⟨a, ha⟩
  · rintro ⟨a, ha⟩
    obtain ⟨tree, hd⟩ := h.derivations_iff.2 ⟨a, ha, rfl⟩
    exact ⟨_, hd⟩

theorem Starts.isPrefix_iff (h : Starts start n judge) :
    IsPrefix n tokens ↔ Language.IsViable ruleReading start tokens := by
  simp only [IsPrefix, Language.IsViable, h.isDocument_iff,
    Language.parse_eq_ok_iff language_isForeseen h.decided]

theorem parse_none :
    parse start ⟨tokens, none⟩ = match language.parse start tokens with
      | .ok a => .ok a
      | .error (t :: _) => .error (.unexpected t)
      | .error [] => .error .endOfInput := by
  unfold parse
  rcases language.parse start tokens with (_ | ⟨t, rest⟩) | a <;> rfl

/-- A value is read if the tokens are parsed and nothing is wrong with it. -/
theorem parseChecked_eq_ok_iff {faults : α → List Fault} {a : α} :
    parseChecked start faults ⟨tokens, none⟩ = .ok a ↔
      language.parse start tokens = .ok a ∧ faults a = [] := by
  rw [parseChecked, parse_none]
  rcases language.parse start tokens with (_ | ⟨t, rest⟩) | b
  · simp [bind, Except.bind]
  · simp [bind, Except.bind]
  · simp only [bind, Except.bind, Except.ok.injEq]
    cases hfaults : faults b with
    | nil =>
      constructor
      · intro h
        obtain rfl := Except.ok.inj h
        exact ⟨rfl, hfaults⟩
      · rintro ⟨rfl, _⟩
        rfl
    | cons fault others =>
      constructor
      · intro h
        cases h
      · rintro ⟨rfl, h⟩
        cases hfaults.symm.trans h

/-- Of what is wrong with a value that is parsed, the first is the error. -/
theorem parseChecked_eq_error {faults : α → List Fault} {a : α} {fault : Fault} {others : List Fault}
    (hparse : language.parse start tokens = .ok a) (hfaults : faults a = fault :: others) :
    parseChecked start faults ⟨tokens, none⟩ = .error fault := by
  simp only [parseChecked, parse_none, hparse, bind, Except.bind, hfaults]
  rfl

end

end FragmentShapes.Document
