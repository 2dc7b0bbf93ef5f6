import FragmentShapes.Proofs.Document.Lines
import FragmentShapes.Proofs.Token.Layout

/-!
# Documents and their layout

What stands between the tokens of a document decides on which lines they are, and nothing else.

The main statement is `Token.Layout.lex_text_and_alike`: a text that is laid out has just its tokens, each
on its line, and other layouts of the same tokens are read alike.
-/

namespace FragmentShapes

open Document
open Token (Located Layout)

/-- The error without its line. -/
def Schema.Error.unplaced : Schema.Error → Schema.Error
  | document fault => document fault.unplaced
  | alreadyDefined name => alreadyDefined name

/-! ## Texts of the same tokens -/

theorem mapError_eq_of_alike {ε α : Type} {f : ε → ε} {x y : Except ε α}
    (h : Alike (fun e e' => f e = f e') Eq x y) : x.mapError f = y.mapError f := by
  cases h with
  | ok h => exact congrArg Except.ok h
  | error h => exact congrArg Except.error h

section

variable {text text' : String} {tokens tokens' : List Located}

theorem Fragment.parseDocument_alike (h : Token.lex text = ⟨tokens, none⟩)
    (h' : Token.lex text' = ⟨tokens', none⟩) (hsame : SameTokens tokens tokens') :
    (Fragment.parseDocument text).mapError Fault.unplaced =
      (Fragment.parseDocument text').mapError Fault.unplaced := by
  rw [Fragment.parseDocument, Fragment.parseDocument, h, h']
  exact mapError_eq_of_alike (Fragment.ofTokens_alike hsame)

theorem Schema.load_alike (h : Token.lex text = ⟨tokens, none⟩) (h' : Token.lex text' = ⟨tokens', none⟩)
    (hsame : SameTokens tokens tokens') (s : Schema) :
    (s.load text).1 = (s.load text').1 ∧
      (s.load text).2.map Schema.Error.unplaced = (s.load text').2.map Schema.Error.unplaced := by
  have houtcome := Schema.ofTokens_alike hsame
  rw [Schema.load, Schema.load, Schema.parseDocument, Schema.parseDocument, h, h']
  generalize Schema.ofTokens ⟨tokens, none⟩ = x at houtcome ⊢
  generalize Schema.ofTokens ⟨tokens', none⟩ = y at houtcome ⊢
  cases houtcome with
  | error hfault =>
    exact ⟨rfl, congrArg (fun fault => some (Schema.Error.document fault)) hfault⟩
  | @ok ds es hsame =>
    have happly : s.applyAll ds = s.applyAll es := by
      rw [← Schema.applyAll_unplaced, hsame, Schema.applyAll_unplaced]
    exact ⟨congrArg Prod.fst happly, congrArg (fun outcome => outcome.2.map Schema.Error.unplaced) happly⟩

end

/-! ## Layouts -/

namespace Token.Layout

theorem map_token_located (l : Layout) : l.located.map (·.token) = l.tokens := by
  apply List.ext_getElem
  · simp [located, tokens]
  · intro i hi hi'
    simp [located, tokens]

theorem sameTokens_of_map_eq {ts us : List Located} (h : ts.map (·.token) = us.map (·.token)) :
    SameTokens ts us := by
  have hmap := List.forall₂_eq_eq_eq ▸ h
  rwa [List.forall₂_map_left_iff, List.forall₂_map_right_iff] at hmap

/-- A text that is laid out has the tokens that were written, each on the line that it was written on. Of
other layouts of these tokens, fragment documents and schema documents come out the same, but for the
lines in what is wrong with them. -/
theorem lex_text_and_alike (l : Layout) :
    lex l.text = ⟨l.located, none⟩ ∧
      ∀ m : Layout, m.tokens = l.tokens →
        (lex m.text).tokens.map (·.token) = (lex l.text).tokens.map (·.token) ∧
        (Fragment.parseDocument m.text).mapError Fault.unplaced =
          (Fragment.parseDocument l.text).mapError Fault.unplaced ∧
        ∀ s : Schema, (s.load m.text).1 = (s.load l.text).1 ∧
          (s.load m.text).2.map Schema.Error.unplaced =
            (s.load l.text).2.map Schema.Error.unplaced := by
  refine ⟨l.lex_text, fun m htokens => ?_⟩
  have hmap : m.located.map (·.token) = l.located.map (·.token) := by
    rw [map_token_located, map_token_located, htokens]
  have hsame := sameTokens_of_map_eq hmap
  refine ⟨?_, Fragment.parseDocument_alike m.lex_text l.lex_text hsame,
    Schema.load_alike m.lex_text l.lex_text hsame⟩
  rw [m.lex_text, l.lex_text]
  exact hmap

/-- A fragment with a string that holds a quote, the sign of a comment, a backslash and an end of line. -/
def quotingFragment : List Token :=
  [keyword .fragment, name "F", keyword .on, name "T", punctuator .openBrace, name "a",
    punctuator .openParen, name "s", punctuator .colon, string "\"#\\\n", name "n", punctuator .colon,
    int (-5), punctuator .closeParen, punctuator .closeBrace]

theorem lex_text_and_alike_quotingFragment : ∃ l m : Layout,
    l.text = "fragment F on T \x7b a ( s : \"\\\"#\\\\\\n\" n : -5 ) \x7d " ∧
      m.text = String.ofList
        (quotingFragment.flatMap fun t => t.spelling.toList ++ [',', '#', ' ', '"', '\r', '\n']) ∧
      m.tokens = l.tokens ∧ lex l.text = ⟨l.located, none⟩ ∧
      (Fragment.parseDocument m.text).mapError Fault.unplaced =
        (Fragment.parseDocument l.text).mapError Fault.unplaced := by
  have hspelling : ∀ t ∈ quotingFragment, t.HasSpelling := by decide
  have hblank : IsGap [' '] := .separator (by decide) .nil
  have hcomment : IsGap [',', '#', ' ', '"', '\r', '\n'] :=
    .separator (by decide) (IsGap.comment (by decide : '\n' ∉ [' ', '"', '\r']) .nil)
  have htokens : (spaced _ hcomment (by decide) _ hspelling).tokens =
      (spaced _ hblank (by decide) _ hspelling).tokens := by
    rw [tokens_spaced, tokens_spaced]
  have h := lex_text_and_alike (spaced _ hblank (by decide) _ hspelling)
  refine ⟨_, _, ?_, text_spaced _ _ _, htokens, h.1, (h.2 _ htokens).2.1⟩
  rw [text_spaced]
  decide +kernel

end Token.Layout

end FragmentShapes
