import FragmentShapes.Proofs.Document.Annotation
import FragmentShapes.Proofs.Token.Layout

/-!
# Reading type references

The notation of a reference and the phrases of the nonterminal for types are inverse to each other: the
notation of a reference reads as the reference, and a phrase, its tokens put together, is the notation
of its value. The argument goes along the levels of a reference; `phrase_typeRef_iff` says what the
phrase of each level is.

The main statement is `TypeRef.notation_and_reading`.
-/

namespace FragmentShapes

open Document
open Token (Kind Located)

namespace TypeRef

/-- The token of a level that may not be null. -/
def markerTokens (nullable : Bool) : List Token := if nullable then [] else [.punctuator .bang]

/-- The tokens of the notation. -/
def tokens : TypeRef → List Token
  | named name nullable => .name name :: markerTokens nullable
  | list element nullable =>
    .punctuator .openBracket :: (element.tokens ++ .punctuator .closeBracket :: markerTokens nullable)

/-- The type that the reference is about has a name that is not reserved. -/
def IsPlain (t : TypeRef) : Prop := (Token.name t.baseName).HasSpelling

instance (t : TypeRef) : Decidable t.IsPlain :=
  inferInstanceAs (Decidable (Token.name t.baseName).HasSpelling)

/-! ## Phrases -/

theorem kind_eq_punctuator_iff {t : Located} {mark : Punctuator} :
    t.kind = .punctuator mark ↔ t.token = .punctuator mark := by
  obtain ⟨token, line⟩ := t
  cases token <;> simp [Located.kind, Token.kind]

/-- A phrase in brackets or braces. -/
theorem reads_between_iff {α : Type} {opening closing : Punctuator} {g : Phrase α} {tokens : List Located}
    {a : α} {faults : List Document.Fault} :
    (Grammar.between opening closing g).reads ruleReading tokens a faults ↔
      ∃ first inside last, first.token = .punctuator opening ∧ last.token = .punctuator closing ∧
        g.reads ruleReading inside a faults ∧ tokens = first :: (inside ++ [last]) := by
  simp only [← kind_eq_punctuator_iff]
  constructor
  · rintro ⟨_, _, before, _, last, behind, ⟨_, ⟨_, _, _, inside, _, between, ⟨first, ⟨rfl, hfirst, rfl⟩, rfl⟩,
      hinside, rfl, rfl, rfl⟩, rfl⟩, ⟨rfl, hlast, rfl⟩, rfl, rfl, rfl⟩
    refine ⟨first, inside, last, List.mem_singleton.1 hfirst, List.mem_singleton.1 hlast, ?_, rfl⟩
    simpa using hinside
  · rintro ⟨first, inside, last, hfirst, hlast, hinside, rfl⟩
    exact ⟨_, _, faults, [last], last, [], ⟨_, ⟨[first], _, [], inside, a, faults,
      ⟨first, ⟨rfl, List.mem_singleton.2 hfirst, rfl⟩, rfl⟩, hinside, rfl, rfl, rfl⟩, rfl⟩,
      ⟨rfl, List.mem_singleton.2 hlast, rfl⟩, rfl, rfl, List.append_nil _⟩

section

variable {tokens marks : List Located} {t : TypeRef} {nullable : Bool} {faults : List Document.Fault}

/-- What stands behind a level. -/
theorem reads_nullability_iff :
    nullability.reads ruleReading marks nullable faults ↔
      marks.map (·.token) = markerTokens nullable ∧ faults = [] := by
  constructor
  · rintro ⟨bang, ⟨word, ⟨rfl, hkind, rfl⟩, rfl⟩ | ⟨rfl, rfl, rfl⟩, rfl⟩
    · have htoken := kind_eq_punctuator_iff.1 (List.mem_singleton.1 hkind)
      simp [markerTokens, htoken]
    · simp [markerTokens]
  · rintro ⟨hmarks, rfl⟩
    cases nullable with
    | true =>
      obtain rfl : marks = [] := List.map_eq_nil_iff.1 hmarks
      exact ⟨none, .inr ⟨rfl, rfl, rfl⟩, rfl⟩
    | false =>
      obtain ⟨word, rest, rfl, hword, hrest⟩ := List.map_eq_cons_iff.1 hmarks
      obtain rfl : rest = [] := List.map_eq_nil_iff.1 hrest
      have hkind := kind_eq_punctuator_iff.2 hword
      exact ⟨some word, .inl ⟨word, ⟨rfl, List.mem_singleton.2 hkind, rfl⟩, rfl⟩, rfl⟩

/-- The phrase of a level is a name, or the phrase of another level in brackets. -/
theorem phrase_typeRef_iff :
    productions.phrase .typeRef tokens t faults ↔
      (∃ word marks nullable, word.kind = .name ∧ marks.map (·.token) = markerTokens nullable ∧
        tokens = word :: marks ∧ t = named word.text nullable ∧ faults = []) ∨
      ∃ first inside last marks element nullable, first.token = .punctuator .openBracket ∧
        last.token = .punctuator .closeBracket ∧
        productions.phrase .typeRef inside element faults ∧ marks.map (·.token) = markerTokens nullable ∧
        tokens = first :: (inside ++ [last]) ++ marks ∧ t = list element nullable := by
  have hbody : productions.phrase .typeRef tokens t faults ↔
      typeRefBody.reads ruleReading tokens t faults := by
    rw [phrase_typeRef]
  rw [hbody]
  constructor
  · rintro (⟨_, _, _, marks, nullable, _, ⟨word, ⟨rfl, hkind, rfl⟩, rfl⟩, hnull, rfl, rfl, rfl⟩ |
      ⟨_, _, before, marks, nullable, _, ⟨element, hlist, rfl⟩, hnull, rfl, rfl, rfl⟩)
    · obtain ⟨hmarks, hfaults⟩ := reads_nullability_iff.1 hnull
      exact .inl ⟨word, marks, nullable, List.mem_singleton.1 hkind, hmarks, rfl, rfl, hfaults⟩
    · obtain ⟨hmarks, rfl⟩ := reads_nullability_iff.1 hnull
      obtain ⟨first, inside, last, hfirst, hlast, hinside, rfl⟩ := reads_between_iff.1 hlist
      rw [reads_typeRef, ← List.append_nil before] at hinside
      exact .inr ⟨first, inside, last, marks, element, nullable, hfirst, hlast, hinside, hmarks, rfl, rfl⟩
  · rintro (⟨word, marks, nullable, hkind, hmarks, rfl, rfl, rfl⟩ |
      ⟨first, inside, last, marks, element, nullable, hfirst, hlast, hinside, hmarks, rfl, rfl⟩)
    · exact .inl ⟨[word], _, [], marks, nullable, [], ⟨word, ⟨rfl, List.mem_singleton.2 hkind, rfl⟩, rfl⟩,
        reads_nullability_iff.2 ⟨hmarks, rfl⟩, rfl, rfl, rfl⟩
    · rw [← reads_typeRef] at hinside
      exact .inr ⟨_, _, faults, marks, nullable, [],
        ⟨element, reads_between_iff.2 ⟨first, inside, last, hfirst, hlast, hinside, rfl⟩, rfl⟩,
        reads_nullability_iff.2 ⟨hmarks, rfl⟩, rfl, rfl, List.append_nil _⟩

/-- The tokens of a reference are a phrase of it. -/
theorem phrase_of_map_token_eq (h : tokens.map (·.token) = t.tokens) :
    productions.phrase .typeRef tokens t [] := by
  rw [phrase_typeRef_iff]
  induction t generalizing tokens with
  | named name nullable =>
    obtain ⟨word, marks, rfl, hword, hmarks⟩ := List.map_eq_cons_iff.1 h
    refine .inl ⟨word, marks, nullable, congrArg Token.kind hword, hmarks, rfl, ?_, rfl⟩
    rw [Located.text, hword]
    rfl
  | list element nullable ih =>
    obtain ⟨first, others, rfl, hfirst, hothers⟩ := List.map_eq_cons_iff.1 h
    obtain ⟨inside, behind, rfl, hinside, hbehind⟩ := List.map_eq_append_iff.1 hothers
    obtain ⟨last, marks, rfl, hlast, hmarks⟩ := List.map_eq_cons_iff.1 hbehind
    refine .inr ⟨first, inside, last, marks, element, nullable, hfirst, hlast, ?_, hmarks, ?_, rfl⟩
    · exact phrase_typeRef_iff.2 (ih hinside)
    · simp

theorem join_marks (h : marks.map (·.token) = markerTokens nullable) :
    String.join (marks.map (·.text)) = marker nullable := by
  have htext : marks.map (·.text) = (markerTokens nullable).map Token.text := by
    rw [← h, List.map_map]
    rfl
  rw [htext]
  cases nullable <;> decide

/-- The tokens of a phrase, put together, are the notation of its value. -/
theorem join_of_phrase (h : productions.phrase .typeRef tokens t faults) :
    String.join (tokens.map (·.text)) = t.notationText := by
  induction t generalizing tokens faults with
  | named name nullable =>
    obtain ⟨word, marks, null, hkind, hmarks, rfl, hvalue, -⟩ | ⟨_, _, _, _, _, _, _, _, _, _, _, hvalue⟩ :=
      phrase_typeRef_iff.1 h
    · obtain ⟨rfl, rfl⟩ := TypeRef.named.inj hvalue
      rw [List.map_cons, String.join_cons, join_marks hmarks, notationText]
    · cases hvalue
  | list element nullable ih =>
    obtain ⟨_, _, _, _, _, _, hvalue, _⟩ |
      ⟨first, inside, last, marks, inner, null, hfirst, hlast, hinside, hmarks, rfl, hvalue⟩ :=
      phrase_typeRef_iff.1 h
    · cases hvalue
    · obtain ⟨rfl, rfl⟩ := TypeRef.list.inj hvalue
      have hopening : first.text = "[" := by rw [Located.text, hfirst]; rfl
      have hclosing : last.text = "]" := by rw [Located.text, hlast]; rfl
      simp [notationText, ih hinside, join_marks hmarks, hopening, hclosing, String.join_cons,
        String.append_assoc]

/-- From names that documents can write, a reference to such a name is read. -/
theorem wellNamed_of_phrase (h : productions.phrase .typeRef tokens t faults)
    (htokens : ∀ u ∈ tokens, u.WellNamed) : t.WellNamed := by
  obtain rfl : faults = [] := faultless typeRef tokens t faults h
  have hdecided : typeRef.isDecided rulePreview false = true := by decide +kernel
  have hparse := (Language.parse_eq_ok_iff language_isForeseen hdecided).2 h
  have hstart : NamesEnsure typeRef TypeRef.WellNamed := fun _ ht => ht
  exact Language.parse_ensures body_ensures hstart htokens hparse

end

/-! ## Lexemes -/

section

open Token (Reads EndsNames endsNames_cons reads_mark reads_name)

/-- The notation ends in a name. -/
def EndsInName : TypeRef → Prop
  | named _ nullable => nullable = true
  | list .. => False

variable {rest : List Char}

theorem reads_marker (nullable : Bool) (line : Nat) (rest : List Char) :
    Reads ⟨line, (marker nullable).toList ++ rest⟩ ((markerTokens nullable).map (⟨·, line⟩))
      ⟨line, rest⟩ := by
  cases nullable with
  | true => exact .refl _
  | false => exact reads_mark .bang line rest

/-- A notation is read as its tokens, if no name in it goes on into what is behind it. -/
theorem reads_notationText {t : TypeRef} (h : t.IsPlain) (hrest : t.EndsInName → EndsNames rest)
    (line : Nat) :
    Reads ⟨line, t.notationText.toList ++ rest⟩ (t.tokens.map (⟨·, line⟩)) ⟨line, rest⟩ := by
  induction t generalizing rest with
  | named name nullable =>
    have hbehind : EndsNames ((marker nullable).toList ++ rest) := by
      cases nullable with
      | true => exact hrest rfl
      | false => exact endsNames_cons (by decide) rest
    rw [toList_notationText_named, List.append_assoc]
    exact (reads_name h hbehind line).trans (reads_marker nullable line rest)
  | list element nullable ih =>
    have hclosing : EndsNames (']' :: ((marker nullable).toList ++ rest)) := endsNames_cons (by decide) _
    have hinside := (reads_mark .openBracket line _).trans (ih h fun _ => hclosing)
    have hbehind := (reads_mark .closeBracket line _).trans (reads_marker nullable line rest)
    have hlevel := hinside.trans hbehind
    rw [toList_notationText_list]
    simpa [tokens, Punctuator.spelling] using hlevel

end

/-! ## Texts -/

section

open Token (Reads EndsNames endsNames_cons endsNames_blank reads_mark reads_name reads_word reads_spaced lex)

variable {name onType field : String} {t : TypeRef}

/-- The tokens of a field that has a name and a type, on the first line. -/
def fieldTokens (field : String) (t : TypeRef) : List Located :=
  [⟨Token.ofIdentifier field, 1⟩] ++ ⟨.punctuator .colon, 1⟩ :: t.tokens.map (⟨·, 1⟩)

/-- A block of one field. -/
theorem reads_block (hfield : Text.isAsciiName field = true) (ht : t.IsPlain) :
    Reads
      ⟨1, "\x7b ".toList ++
        (field.toList ++ (": ".toList ++ (t.notationText.toList ++ " \x7d".toList)))⟩
      (⟨.punctuator .openBrace, 1⟩ :: fieldTokens field t ++ [⟨.punctuator .closeBrace, 1⟩])
      ⟨1, []⟩ := by
  have hcolon (rest : List Char) : EndsNames (Punctuator.colon.spelling.toList ++ rest) :=
    endsNames_cons (by decide) rest
  have htype := reads_spaced (reads_notationText ht (fun _ => endsNames_blank _) 1)
    (reads_mark .closeBrace 1 [])
  have htyped := reads_spaced (reads_mark .colon 1 _) htype
  have hblock := reads_spaced (reads_mark .openBrace 1 _) ((reads_word hfield (hcolon _) 1).trans htyped)
  rw [fieldTokens, List.cons_append, List.append_assoc]
  exact hblock

theorem lex_fragmentText (hname : (Token.name name).HasSpelling) (honType : (Token.name onType).HasSpelling)
    (hfield : Text.isAsciiName field = true) (ht : t.IsPlain) :
    lex ("fragment " ++ name ++ " on " ++ onType ++ " \x7b " ++ field ++ ": " ++ t.notationText ++
        " \x7d") =
      ⟨fragmentTokens 1 name onType (fieldTokens field t), none⟩ := by
  have hfragment : Text.isAsciiName "fragment" = true := by decide
  have hon : Text.isAsciiName "on" = true := by decide
  have hconditioned := reads_spaced (reads_name honType (endsNames_blank _) 1) (reads_block hfield ht)
  have hnamed := reads_spaced (reads_name hname (endsNames_blank _) 1)
    (reads_spaced (reads_word hon (endsNames_blank _) 1) hconditioned)
  have hdocument := reads_spaced (reads_word hfragment (endsNames_blank _) 1) hnamed
  rw [lex]
  simp only [String.toList_append, List.append_assoc]
  exact hdocument.lexFrom_end

theorem lex_objectText (hname : (Token.name name).HasSpelling) (hfield : Text.isAsciiName field = true)
    (ht : t.IsPlain) :
    lex ("type " ++ name ++ " \x7b " ++ field ++ ": " ++ t.notationText ++ " \x7d") =
      ⟨objectTokens 1 name (fieldTokens field t), none⟩ := by
  have htype : Text.isAsciiName "type" = true := by decide
  have hnamed := reads_spaced (reads_name hname (endsNames_blank _) 1) (reads_block hfield ht)
  have hdocument := reads_spaced (reads_word htype (endsNames_blank _) 1) hnamed
  rw [lex]
  simp only [String.toList_append, List.append_assoc]
  exact hdocument.lexFrom_end

theorem isReadAs_tokens (t : TypeRef) (line : Nat) :
    IsReadAs .typeRef (t.tokens.map (⟨·, line⟩)) t := by
  have htokens : (t.tokens.map (⟨·, line⟩ : Token → Located)).map (·.token) = t.tokens := by
    rw [List.map_map]
    exact List.map_id' _
  exact isReadAs_iff_phrase.2 (phrase_of_map_token_eq htokens)

theorem annotates_tokens (t : TypeRef) (line : Nat) : Annotates (t.tokens.map (⟨·, line⟩)) t :=
  (isReadAs_tokens t line).annotates

theorem parseDocument_fragmentText (hname : (Token.name name).HasSpelling)
    (honType : (Token.name onType).HasSpelling) (hfield : Text.isAsciiName field = true) (ht : t.IsPlain) :
    Fragment.parseDocument ("fragment " ++ name ++ " on " ++ onType ++ " \x7b " ++ field ++ ": " ++
        t.notationText ++ " \x7d") =
      .ok [⟨name, onType, [.field ⟨field, [], some t, none⟩ []]⟩] := by
  rw [Fragment.parseDocument, lex_fragmentText hname honType hfield ht]
  exact ofTokens_fragmentTokens 1 name onType
    ((annotates_tokens t 1).field_alone (isReadAs_name field 1) 1)

theorem parseDocument_objectText (hname : (Token.name name).HasSpelling)
    (hfield : Text.isAsciiName field = true) (ht : t.IsPlain) :
    Schema.parseDocument ("type " ++ name ++ " \x7b " ++ field ++ ": " ++ t.notationText ++ " \x7d") =
      .ok [.type ⟨name, none, .object [] [⟨field, t, none, none, []⟩]⟩ 1] := by
  rw [Schema.parseDocument, lex_objectText hname hfield ht]
  exact ofTokens_objectTokens 1 name
    ((annotates_tokens t 1).fieldDefinition_alone (isReadAs_name field 1) 1)

/-- Tokens of some text are read as the reference. -/
def IsRead (t : TypeRef) : Prop :=
  ∃ text tokens, tokens <:+: (lex text).tokens ∧ IsReadAs .typeRef tokens t

theorem IsRead.wellNamed (h : t.IsRead) : t.WellNamed := by
  obtain ⟨text, tokens, hwithin, hread⟩ := h
  exact wellNamed_of_phrase (isReadAs_iff_phrase.1 hread) fun u hu =>
    Token.lex_wellNamed text u (hwithin.subset hu)

theorem IsPlain.isRead (h : t.IsPlain) : t.IsRead := by
  have hend : t.EndsInName → EndsNames [] := fun _ => nofun
  have hreads := reads_notationText h hend 1
  rw [List.append_nil] at hreads
  have htokens : (lex t.notationText).tokens = t.tokens.map (⟨·, 1⟩) := by rw [lex, hreads.lexFrom_end]
  exact ⟨t.notationText, _, htokens ▸ List.infix_rfl, isReadAs_tokens t 1⟩

/-- The notation of a reference to a type whose name is not reserved is read as the reference: its tokens
are those of the reference wherever it stands, and they give a field their type. A phrase of the
nonterminal for types is the notation of its value. So references that are read have their notation for
themselves. -/
theorem notation_and_reading :
    (∀ t : TypeRef, t.IsPlain →
      (∀ rest, (t.EndsInName → EndsNames rest) → ∀ line, ∃ typeTokens, Annotates typeTokens t ∧
        Reads ⟨line, t.notationText.toList ++ rest⟩ typeTokens ⟨line, rest⟩) ∧
      ∀ name onType field, (Token.name name).HasSpelling → (Token.name onType).HasSpelling →
        Text.isAsciiName field = true →
        Fragment.parseDocument ("fragment " ++ name ++ " on " ++ onType ++ " \x7b " ++ field ++ ": " ++
            t.notationText ++ " \x7d") =
          .ok [⟨name, onType, [.field ⟨field, [], some t, none⟩ []]⟩] ∧
        Schema.parseDocument ("type " ++ onType ++ " \x7b " ++ field ++ ": " ++ t.notationText ++
            " \x7d") =
          .ok [.type ⟨onType, none, .object [] [⟨field, t, none, none, []⟩]⟩ 1]) ∧
    (∀ tokens tree t faults, (tree, t, faults) ∈ derivations .typeRef tokens →
      String.join (tokens.map (·.text)) = t.notationText) ∧
    ∀ t u : TypeRef, t.IsRead → u.IsRead → t.notationText = u.notationText → t = u := by
  refine ⟨fun t ht => ⟨fun rest hrest line => ?_, ?_⟩, ?_, ?_⟩
  · exact ⟨_, annotates_tokens t line, reads_notationText ht hrest line⟩
  · intro name onType field hname honType hfield
    exact ⟨parseDocument_fragmentText hname honType hfield ht, parseDocument_objectText honType hfield ht⟩
  · intro tokens tree t faults h
    exact join_of_phrase ⟨tree, h⟩
  · intro t u ht hu h
    exact notationText_injective ht.wellNamed hu.wellNamed h

/-- Lists that may be null in a list that may not. -/
def nested : TypeRef := list (list (named "A" false) true) false

/-- Each mark stays at its level. -/
theorem notation_and_reading_nested :
    nested.IsPlain ∧ nested.IsRead ∧ nested.notationText = "[[A!]]!" ∧
      Fragment.parseDocument ("fragment " ++ "F" ++ " on " ++ "T" ++ " \x7b " ++ "f" ++ ": " ++ "[[A!]]!" ++
        " \x7d") = .ok [⟨"F", "T", [.field ⟨"f", [], some nested, none⟩ []]⟩] ∧
      Schema.parseDocument ("type " ++ "T" ++ " \x7b " ++ "f" ++ ": " ++ "[[A!]]!" ++ " \x7d") =
        .ok [.type ⟨"T", none, .object [] [⟨"f", nested, none, none, []⟩]⟩ 1] ∧
      String.join ((nested.tokens.map (⟨·, 1⟩ : Token → Located)).map (·.text)) = "[[A!]]!" ∧
      nested = list (list (named "A" false) true) false := by
  have hplain : nested.IsPlain := by decide
  have htext : nested.notationText = "[[A!]]!" := by decide
  obtain ⟨tree, hread⟩ := isReadAs_tokens nested 1
  have hmem : (tree, nested, []) ∈ derivations .typeRef (nested.tokens.map (⟨·, 1⟩)) := by simp [hread]
  obtain ⟨hreading, hspelling, hinjective⟩ := notation_and_reading
  obtain ⟨hfragment, hobject⟩ := (hreading nested hplain).2 "F" "T" "f" (by decide) (by decide) (by decide)
  rw [htext] at hfragment hobject
  have hjoin := hspelling _ tree nested [] hmem
  have hsame := hinjective nested nested hplain.isRead hplain.isRead rfl
  rw [htext] at hjoin
  exact ⟨hplain, hplain.isRead, htext, hfragment, hobject, hjoin, hsame⟩

end

end TypeRef

end FragmentShapes
