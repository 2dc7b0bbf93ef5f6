import FragmentShapes.Proofs.Document.Language
import FragmentShapes.Proofs.Document.Names
import FragmentShapes.Proofs.Fragment.Document
import FragmentShapes.Proofs.Schema.Document

/-!
# Types of fields

A field of a fragment may be annotated with a type, and a field of a schema has one. Both get the type
that the tokens behind the colon are read as, whatever else belongs to the field, and a document that
holds the field gets the field.

`Matches` is the reading of a phrase without anything rejected; there is one lemma for each way to put
phrases together.
-/

namespace FragmentShapes.Document

open Token (Kind Located)

/-- The phrase reads the tokens as the value. -/
def Matches {α : Type} (g : Phrase α) (tokens : List Located) (a : α) : Prop :=
  g.reads ruleReading tokens a []

/-- The nonterminal has one derivation of the tokens; nothing is rejected in it, and `a` is its value. -/
def IsReadAs {α : Type} (n : Nonterminal α) (tokens : List Located) (a : α) : Prop :=
  ∃ tree, derivations n tokens = {(tree, a, [])}

theorem isReadAs_iff_phrase {α : Type} {n : Nonterminal α} {tokens : List Located} {a : α} :
    IsReadAs n tokens a ↔ productions.phrase n tokens a [] := by
  constructor
  · rintro ⟨tree, h⟩
    have hmem : (tree, a, []) ∈ derivations n tokens := h ▸ Set.mem_singleton _
    exact ⟨tree, hmem⟩
  · rintro ⟨tree, h⟩
    exact ⟨tree, (subsingleton_derivations n tokens).eq_singleton_of_mem h⟩

theorem isReadAs_iff {α : Type} {n : Nonterminal α} {g : Phrase α}
    (h : productions.phrase n = g.reads ruleReading) {tokens : List Located} {a : α} :
    IsReadAs n tokens a ↔ Matches g tokens a := by
  rw [isReadAs_iff_phrase, h]
  exact Iff.rfl

/-! ## Phrases -/

namespace Matches

variable {α β : Type} {front back : List Located}

theorem token {kinds : List Kind} {word : Located} (h : word.kind ∈ kinds) :
    Matches (.token kinds) [word] word := ⟨rfl, h, rfl⟩

theorem map {g : Phrase α} {a : α} (f : α → β) (h : Matches g front a) : Matches (f <$> g) front (f a) :=
  ⟨a, h, rfl⟩

theorem seq {g : Phrase (α → β)} {h : Phrase α} {f : α → β} {a : α} (hg : Matches g front f)
    (hh : Matches h back a) : Matches (g <*> h) (front ++ back) (f a) :=
  ⟨front, f, [], back, a, [], hg, hh, rfl, rfl, rfl⟩

theorem right {g : Phrase α} {h : Phrase β} {a : α} {b : β} (hg : Matches g front a)
    (hh : Matches h back b) : Matches (g *> h) (front ++ back) b := seq (map _ hg) hh

theorem left {g : Phrase α} {h : Phrase β} {a : α} {b : β} (hg : Matches g front a)
    (hh : Matches h back b) : Matches (g <* h) (front ++ back) a := seq (map _ hg) hh

variable {g : Phrase α} {a : α}

theorem opt_some (h : Matches g front a) : Matches g.opt front (some a) := .inl (map some h)

theorem opt_none : Matches g.opt [] none := .inr ⟨rfl, rfl, rfl⟩

theorem many_nil : Matches g.many [] [] := .nil

theorem many_single (h : Matches g front a) : Matches g.many front [a] := Reading.star_single h

theorem many1_single (h : Matches g front a) : Matches g.many1 front [a] := by
  have hmany : Matches g.many1 (front ++ []) [a] := seq (map List.cons h) many_nil
  rwa [List.append_nil] at hmany

theorem mark (p : Punctuator) (line : Nat) :
    Matches (mark p) [⟨.punctuator p, line⟩] ⟨.punctuator p, line⟩ := token (List.mem_singleton.2 rfl)

theorem keyword (word : Keyword) (line : Nat) :
    Matches (keyword word) [⟨.keyword word, line⟩] ⟨.keyword word, line⟩ :=
  token (List.mem_singleton.2 rfl)

theorem plainName (name : String) (line : Nat) :
    Matches plainName [⟨.name name, line⟩] ⟨.name name, line⟩ := token (List.mem_singleton.2 rfl)

theorem between (opening closing : Punctuator) (line line' : Nat) (h : Matches g front a) :
    Matches (.between opening closing g)
      (⟨.punctuator opening, line⟩ :: front ++ [⟨.punctuator closing, line'⟩]) a :=
  left (right (mark opening line) h) (mark closing line')

end Matches

/-! ## Fields -/

/-- Behind a colon the tokens give a field the type, whatever else belongs to the field: its name, its
arguments, directives and selection in a fragment, and its description, name, arguments and directives in
a schema. -/
structure Annotates (typeTokens : List Located) (t : TypeRef) : Prop where
  field {nameTokens argumentTokens usedTokens selectionTokens : List Located} {name : String}
    {arguments : KeyedList Literal} {used : List Directive} {entries : Option (List Entry)} (line : Nat)
    (hname : IsReadAs .name nameTokens name) (harguments : IsReadAs .argumentsOpt argumentTokens arguments)
    (hused : IsReadAs .directivesOpt usedTokens used)
    (hentries : IsReadAs .selectionSetOpt selectionTokens entries) :
    IsReadAs .field (nameTokens ++ argumentTokens ++ ⟨.punctuator .colon, line⟩ :: typeTokens ++
        usedTokens ++ selectionTokens)
      [.field ⟨name, arguments, some t, Deprecation.ofDirectives used⟩ (entries.getD [])]
  fieldDefinition {descriptionTokens nameTokens argumentTokens usedTokens : List Located}
    {description : Option String} {name : String} {arguments : List Schema.InputValue}
    {used : List Directive} (line : Nat)
    (hdescription : IsReadAs .descriptionOpt descriptionTokens description)
    (hname : IsReadAs .name nameTokens name)
    (harguments : IsReadAs .argumentsDefinitionOpt argumentTokens arguments)
    (hused : IsReadAs .directivesOpt usedTokens used) :
    IsReadAs .fieldDefinition (descriptionTokens ++ nameTokens ++ argumentTokens ++
        ⟨.punctuator .colon, line⟩ :: typeTokens ++ usedTokens)
      ⟨name, t, Deprecation.ofDirectives used, description, Schema.InputValue.distinct arguments⟩

/-- The tokens of a type annotate a field with it. -/
theorem IsReadAs.annotates {typeTokens : List Located} {t : TypeRef} (h : IsReadAs .typeRef typeTokens t) :
    Annotates typeTokens t := by
  have htyped (line : Nat) :
      Matches (mark .colon *> typeRef) (⟨.punctuator .colon, line⟩ :: typeTokens) t :=
    .right (.mark .colon line) (isReadAs_iff_phrase.1 h)
  constructor
  case field =>
    intro _ _ _ _ _ _ _ _ line hname harguments hused hentries
    rw [isReadAs_iff phrase_name] at hname
    rw [isReadAs_iff phrase_argumentsOpt] at harguments
    rw [isReadAs_iff phrase_directivesOpt] at hused
    rw [isReadAs_iff phrase_selectionSetOpt] at hentries
    rw [isReadAs_iff phrase_field]
    exact .seq (.seq (.seq (.seq (.map _ hname) harguments) (htyped line).opt_some) hused) hentries
  case fieldDefinition =>
    intro _ _ _ _ _ _ _ _ line hdescription hname harguments hused
    rw [isReadAs_iff Schema.phrase_descriptionOpt] at hdescription
    rw [isReadAs_iff phrase_name] at hname
    rw [isReadAs_iff_phrase, Schema.phrase_argumentsDefinitionOpt] at harguments
    obtain ⟨values, hvalues, rfl⟩ := harguments
    rw [isReadAs_iff phrase_directivesOpt] at hused
    rw [isReadAs_iff Schema.phrase_fieldDefinition]
    exact .seq (.seq (.seq (.seq (.map _ hdescription) hname) (.map _ hvalues)) (htyped line)) hused

section

variable {typeTokens nameTokens : List Located} {t : TypeRef} {name : String}

/-- A field of a fragment that has no more than a name and a type. -/
theorem Annotates.field_alone (h : Annotates typeTokens t)
    (hname : IsReadAs .name nameTokens name) (line : Nat) :
    IsReadAs .field (nameTokens ++ ⟨.punctuator .colon, line⟩ :: typeTokens)
      [.field ⟨name, [], some t, none⟩ []] := by
  have harguments : IsReadAs .argumentsOpt [] [] := (isReadAs_iff phrase_argumentsOpt).2 (.map _ .opt_none)
  have hused : IsReadAs .directivesOpt [] [] := (isReadAs_iff phrase_directivesOpt).2 .many_nil
  have hentries : IsReadAs .selectionSetOpt [] none := (isReadAs_iff phrase_selectionSetOpt).2 .opt_none
  have hfield := h.field line hname harguments hused hentries
  rwa [List.append_nil, List.append_nil, List.append_nil] at hfield

/-- A field of a schema that has no more than a name and a type. -/
theorem Annotates.fieldDefinition_alone (h : Annotates typeTokens t)
    (hname : IsReadAs .name nameTokens name) (line : Nat) :
    IsReadAs .fieldDefinition (nameTokens ++ ⟨.punctuator .colon, line⟩ :: typeTokens)
      ⟨name, t, none, none, []⟩ := by
  have hdescription : IsReadAs .descriptionOpt [] none :=
    (isReadAs_iff Schema.phrase_descriptionOpt).2 .opt_none
  have harguments : IsReadAs .argumentsDefinitionOpt [] [] := by
    rw [isReadAs_iff_phrase, Schema.phrase_argumentsDefinitionOpt]
    exact ⟨none, Matches.opt_none, rfl⟩
  have hused : IsReadAs .directivesOpt [] [] := (isReadAs_iff phrase_directivesOpt).2 .many_nil
  have hfield := h.fieldDefinition line hdescription hname harguments hused
  rwa [List.append_nil, List.append_nil, List.nil_append] at hfield

end

/-- The word of a token is its text, whether it is reserved or not. -/
theorem isReadAs_name (word : String) (line : Nat) :
    IsReadAs .name [⟨Token.ofIdentifier word, line⟩] word := by
  have htoken : (Token.ofIdentifier word).kind ∈ nameKinds ∧ (Token.ofIdentifier word).text = word := by
    unfold Token.ofIdentifier
    split
    · next k hk =>
      rw [Keyword.ofSpelling?] at hk
      have hspelling : k.spelling = word := by simpa using List.find?_some hk
      exact ⟨Token.Kind.mem_nameKinds.2 (.inr ⟨k, rfl⟩), hspelling⟩
    · exact ⟨List.mem_cons_self .., rfl⟩
  have hname : Matches anyName [⟨Token.ofIdentifier word, line⟩] (Token.ofIdentifier word).text :=
    .map Located.text (.token htoken.1)
  rw [htoken.2] at hname
  exact (isReadAs_iff phrase_name).2 hname

/-! ## Documents of one field -/

section

variable {fieldTokens : List Located} (line : Nat)

/-- A fragment with one field, all but the field on one line. -/
def fragmentTokens (name onType : String) (fieldTokens : List Located) : List Located :=
  [⟨.keyword .fragment, line⟩, ⟨.name name, line⟩] ++ [⟨.keyword .on, line⟩, ⟨.name onType, line⟩] ++
    (⟨.punctuator .openBrace, line⟩ :: fieldTokens ++ [⟨.punctuator .closeBrace, line⟩])

theorem ofTokens_fragmentTokens (name onType : String) {entries : List Entry}
    (h : IsReadAs .field fieldTokens entries) :
    Fragment.ofTokens ⟨fragmentTokens line name onType fieldTokens, none⟩ =
      .ok [⟨name, onType, entries⟩] := by
  have hkind : Kind.name ∈ nameKindsButOn := by decide
  have hselection : Matches selection fieldTokens entries := .inl ((isReadAs_iff phrase_field).1 h)
  have hbody := Matches.map List.flatten
    (.between .openBrace .closeBrace line line hselection.many1_single)
  rw [List.flatten_singleton] at hbody
  have hset : Matches selectionSet _ entries :=
    isReadAs_iff_phrase.1 ((isReadAs_iff phrase_selectionSet).2 hbody)
  have hname : Matches nameButOn [⟨.name name, line⟩] name := .map Located.text (.token hkind)
  have hfragment : Matches Fragment.fragmentDefinition
      (fragmentTokens line name onType fieldTokens) (.fragment ⟨name, onType, entries⟩) :=
    .seq (.seq (.seq (.map _ (.right (.keyword .fragment line) hname))
      (.right (.keyword .on line) (.plainName onType line))) .many_nil) hset
  have hdocument : Matches Fragment.document _ _ := .many_single (.inl hfragment)
  have hparse := (Language.parse_eq_ok_iff language_isForeseen Fragment.starts_document.decided).2 hdocument
  rw [Fragment.ofTokens, parseChecked_eq_ok_iff.2 ⟨hparse, rfl⟩]
  rfl

/-- An object type with one field, all but the field on one line. -/
def objectTokens (name : String) (fieldTokens : List Located) : List Located :=
  [⟨.keyword .type, line⟩, ⟨.name name, line⟩] ++
    (⟨.punctuator .openBrace, line⟩ :: fieldTokens ++ [⟨.punctuator .closeBrace, line⟩])

theorem ofTokens_objectTokens (name : String) {field : Schema.FieldDefinition}
    (h : IsReadAs .fieldDefinition fieldTokens field) :
    Schema.ofTokens ⟨objectTokens line name fieldTokens, none⟩ =
      .ok [.type ⟨name, none, .object [] [field]⟩ line] := by
  have hfield : Matches Schema.fieldDefinition fieldTokens field :=
    (isReadAs_iff Schema.phrase_fieldDefinition).1 h
  have hblock : Matches Schema.fieldBlock _ ⟨line, [field]⟩ :=
    .map _ (.opt_some (.left (.seq (.map _ (.mark .openBrace line)) hfield.many_single)
      (.mark .closeBrace line)))
  have hname : Matches Schema.typeName [⟨.name name, line⟩] name := .map Located.text (.plainName name line)
  have hobject : Matches Schema.objectDefinition (objectTokens line name fieldTokens)
      (Schema.Described.fielded .object name [] ⟨line, [field]⟩) :=
    .seq (.seq (.seq (.map _ (.right (.keyword .type line) hname)) (.map _ .opt_none)) .many_nil) hblock
  have hdefinition : Matches Schema.definition ([] ++ objectTokens line name fieldTokens) _ :=
    .seq (.map _ .opt_none) (.inr (.inl hobject))
  have hdocument : Matches Schema.document _ _ := .many_single hdefinition
  have hparse := (Language.parse_eq_ok_iff language_isForeseen Schema.starts_document.decided).2 hdocument
  exact parseChecked_eq_ok_iff.2 ⟨hparse, rfl⟩

end

end FragmentShapes.Document
