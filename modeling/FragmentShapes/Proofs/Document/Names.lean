import FragmentShapes.Fragment.Document
import FragmentShapes.Proofs.Grammar.Ensures

/-!
# Names in fragment documents

A name of a document is a letter or an underscore followed by letters, digits and underscores, all of
them ASCII. `WellNamed` says this of every name in an entry or a fragment, also of the names inside type
references.

The main statement is `Fragment.wellNamed_of_parseDocument`: what a document defines is well named.
-/

namespace FragmentShapes

open Token (Kind Located)

/-! ## Tokens -/

/-- If the token is a word, its text is a name. -/
def Token.Located.WellNamed (t : Located) : Prop :=
  t.kind ∈ Document.nameKinds → Text.isAsciiName t.text = true

theorem Keyword.isAsciiName_spelling (word : Keyword) : Text.isAsciiName word.spelling = true := by
  cases word <;> decide

namespace Token

theorem Kind.mem_nameKinds {k : Kind} : k ∈ Document.nameKinds ↔ k = .name ∨ ∃ w, k = .keyword w := by
  simp only [Document.nameKinds, List.mem_cons, List.mem_map]
  constructor
  · rintro (h | ⟨w, -, h⟩)
    · exact .inl h
    · exact .inr ⟨w, h.symm⟩
  · rintro (h | ⟨w, h⟩)
    · exact .inl h
    · exact .inr ⟨w, Keyword.mem_all w, h.symm⟩

theorem ofIdentifier_wellNamed {text : String} (h : Text.isAsciiName text = true) (line : Nat) :
    Located.WellNamed ⟨ofIdentifier text, line⟩ := by
  intro _
  show Text.isAsciiName (ofIdentifier text).text = true
  unfold ofIdentifier
  split
  · next word _ => exact Keyword.isAsciiName_spelling word
  · exact h

theorem wellNamed_of_not_mem {t : Token} (h : t.kind ∉ Document.nameKinds) (line : Nat) :
    Located.WellNamed ⟨t, line⟩ := fun hmem => absurd hmem h

/-- A meaning whose token, if it has one, is well named. -/
def Meaning.WellNamed (m : Meaning) : Prop := ∀ t line, m = .token t → Located.WellNamed ⟨t, line⟩

theorem stringMeaning_wellNamed (body : List Char) : (stringMeaning body).WellNamed := by
  intro t line h
  unfold stringMeaning at h
  split at h <;> cases h
  exact wellNamed_of_not_mem (by simp [Kind.mem_nameKinds, kind]) line

theorem scanString_wellNamed {cs : List Char} {s : Scan} (h : scanString cs = some s) :
    s.meaning.WellNamed := by
  obtain ⟨⟨body, rest⟩, -, rfl⟩ := Option.map_eq_some_iff.1 h
  exact stringMeaning_wellNamed body

theorem scanQuoted_wellNamed {cs : List Char} {s : Scan} (h : scanQuoted cs = some s) :
    s.meaning.WellNamed := by
  unfold scanQuoted at h
  split at h
  · split at h
    · cases h
      rintro t line ⟨⟩
      exact wellNamed_of_not_mem (by simp [Kind.mem_nameKinds, kind, BlockBody.token]) line
    · exact scanString_wellNamed h
  · exact scanString_wellNamed h

theorem integerMeaning_wellNamed (negative : Bool) (digits : List Char) :
    (integerMeaning negative digits).WellNamed := by
  intro t line h
  unfold integerMeaning at h
  split at h <;> cases h
  exact wellNamed_of_not_mem (by simp [Kind.mem_nameKinds, kind]) line

theorem scanUnsigned_wellNamed {negative : Bool} {cs : List Char} {s : Scan}
    (h : scanUnsigned negative cs = some s) : s.meaning.WellNamed := by
  unfold scanUnsigned at h
  dsimp only at h
  split at h
  · cases h
  · cases h
    dsimp only
    split
    · exact integerMeaning_wellNamed _ _
    · rintro t line ⟨⟩
      exact wellNamed_of_not_mem (by simp [Kind.mem_nameKinds, kind]) line

theorem scanNumber_wellNamed {cs : List Char} {s : Scan} (h : scanNumber cs = some s) :
    s.meaning.WellNamed := by
  unfold scanNumber at h
  split at h
  · obtain ⟨u, hu, rfl⟩ := Option.map_eq_some_iff.1 h
    show u.meaning.WellNamed
    exact scanUnsigned_wellNamed hu
  · exact scanUnsigned_wellNamed h

theorem isAsciiName_takeWhile {c : Char} (h : Text.isAsciiNameStart c = true) (cs : List Char) :
    Text.isAsciiName (String.ofList (c :: cs.takeWhile Text.isAsciiNamePart)) = true := by
  simp [Text.isAsciiName, h]

theorem scanIdentifier_wellNamed {cs : List Char} {s : Scan} (h : scanIdentifier cs = some s) :
    s.meaning.WellNamed := by
  unfold scanIdentifier at h
  split at h
  · cases h
  · next c cs =>
    split at h
    · next hstart =>
      cases h
      rintro t line ⟨⟩
      exact ofIdentifier_wellNamed (isAsciiName_takeWhile hstart cs) line
    · cases h

theorem scanVariable_wellNamed {cs : List Char} {s : Scan} (h : scanVariable cs = some s) :
    s.meaning.WellNamed := by
  unfold scanVariable at h
  split at h
  · cases h
  · split at h
    · cases h
      rintro t line ⟨⟩
      exact wellNamed_of_not_mem (by simp [Kind.mem_nameKinds, kind]) line
    · cases h

theorem scanPlain_wellNamed {c : Char} {cs : List Char} {s : Scan} (h : scanPlain c cs = some s) :
    s.meaning.WellNamed := by
  unfold scanPlain at h
  split at h
  · cases h
    rintro t line ⟨⟩
  · split at h
    · cases h
      rintro t line ⟨⟩
      exact wellNamed_of_not_mem (by simp [Kind.mem_nameKinds, kind]) line
    · split at h
      · exact scanNumber_wellNamed h
      · exact scanIdentifier_wellNamed h

theorem scan_wellNamed {cs : List Char} {s : Scan} (h : scan cs = some s) : s.meaning.WellNamed := by
  unfold scan at h
  split at h
  · cases h
  · exact scanQuoted_wellNamed h
  · exact scanVariable_wellNamed h
  · cases h
    rintro t line ⟨⟩
  · cases h
    rintro t line ⟨⟩
    exact wellNamed_of_not_mem (by simp [Kind.mem_nameKinds, kind]) line
  · exact scanPlain_wellNamed h

theorem lexFrom_wellNamed (line : Nat) (cs : List Char) :
    ∀ t ∈ (lexFrom line cs).tokens, t.WellNamed := by
  fun_induction lexFrom line cs with
  | case1 => simp
  | case2 line cs s hscan hlt next t hmeaning ih =>
    intro u hu
    rcases List.mem_cons.1 hu with rfl | hu
    · exact scan_wellNamed hscan t line hmeaning
    · exact ih u hu
  | case3 line cs s hscan hlt next hmeaning ih => exact ih
  | case4 => simp
  | case5 => simp

/-- Every word of a text is a name. -/
theorem lex_wellNamed (text : String) : ∀ t ∈ (lex text).tokens, t.WellNamed :=
  lexFrom_wellNamed 1 text.toList

end Token

/-! ## Entries -/

/-- The named type inside the reference has a name that documents can write. -/
def TypeRef.WellNamed (t : TypeRef) : Prop := Text.isAsciiName t.baseName = true

mutual

/-- Every name in the entry is one that documents can write. -/
def Entry.WellNamed : Entry → Prop
  | .field head selection =>
    Text.isAsciiName head.name = true ∧ (∀ t ∈ head.declaredType, t.WellNamed) ∧
      Entry.AllWellNamed selection
  | .spread _ => True
  | .condition on _ selection => Text.isAsciiName on = true ∧ Entry.AllWellNamed selection
  | .group selection => Entry.AllWellNamed selection

/-- Every name in the entries is one that documents can write. -/
def Entry.AllWellNamed : List Entry → Prop
  | [] => True
  | entry :: entries => entry.WellNamed ∧ Entry.AllWellNamed entries

end

theorem Entry.allWellNamed_iff {entries : List Entry} :
    Entry.AllWellNamed entries ↔ ∀ entry ∈ entries, entry.WellNamed := by
  induction entries with
  | nil => simp [Entry.AllWellNamed]
  | cons entry entries ih => simp [Entry.AllWellNamed, ih]

/-- Every name in the fragment is one that documents can write. -/
def Fragment.WellNamed (f : Fragment) : Prop :=
  Text.isAsciiName f.name = true ∧ Text.isAsciiName f.onType = true ∧
    ∀ entry ∈ f.entries, entry.WellNamed

/-! ## Rules -/

namespace Document

/-- What holds of the value of a rule: every name in it is one that documents can write. -/
def RuleWellNamed : {α : Type} → Rule α → α → Prop
  | _, .value, _ => True
  | _, .typeRef, t => t.WellNamed
  | _, .selectionSet, entries => ∀ entry ∈ entries, entry.WellNamed

/-- The values of a phrase satisfy `post`, if its words are names. -/
abbrev NamesEnsure {α : Type} (g : Phrase α) (post : α → Prop) : Prop :=
  g.Ensures Located.WellNamed RuleWellNamed post

theorem plainName_ensures : NamesEnsure plainName fun t => Text.isAsciiName t.text = true := by
  intro t ht hkind
  exact ht (by simp_all [Token.Kind.mem_nameKinds])

theorem anyName_ensures : NamesEnsure anyName fun name => Text.isAsciiName name = true :=
  fun _ ht hkind => ht hkind

theorem nameButOn_ensures : NamesEnsure nameButOn fun name => Text.isAsciiName name = true :=
  fun _ ht hkind => ht (List.mem_filter.1 hkind).1

theorem selectionSet_ensures :
    NamesEnsure selectionSet fun entries => ∀ entry ∈ entries, entry.WellNamed := fun _ h => h

theorem typeRefBody_ensures : NamesEnsure typeRefBody TypeRef.WellNamed := by
  refine ⟨plainName_ensures.mono fun t ht => ?_, ?_⟩
  · exact Grammar.ensures_of_forall nullability fun _ => ht
  · refine fun _ _ _ => fun element helement => fun _ _ _ => ?_
    exact Grammar.ensures_of_forall nullability fun _ => helement

theorem declaredType_ensures : NamesEnsure (Grammar.opt (mark .colon *> typeRef)) fun declared =>
    ∀ t ∈ declared, t.WellNamed := by
  refine ⟨fun _ _ _ t ht u hu => ?_, by simp⟩
  cases hu
  exact ht

theorem fieldSelection_ensures : NamesEnsure (Grammar.opt selectionSet) fun selection =>
    ∀ entry ∈ selection.getD [], entry.WellNamed :=
  ⟨fun _ h => h, by simp⟩

theorem field_ensures : NamesEnsure field fun entries => ∀ entry ∈ entries, entry.WellNamed := by
  simp only [NamesEnsure, field, Grammar.ensures_seq, Grammar.ensures_map]
  refine anyName_ensures.mono fun name hname => ?_
  refine Grammar.ensures_of_forall arguments fun _ => ?_
  refine declaredType_ensures.mono fun declared hdeclared => ?_
  refine Grammar.ensures_of_forall directives fun _ => ?_
  refine fieldSelection_ensures.mono fun selection hselection => ?_
  rw [List.forall_mem_singleton]
  exact ⟨hname, hdeclared, Entry.allWellNamed_iff.2 hselection⟩

theorem spread_ensures : NamesEnsure spread fun entries => ∀ entry ∈ entries, entry.WellNamed := by
  simp only [NamesEnsure, spread, Grammar.ensures_seq, Grammar.ensures_map]
  refine nameButOn_ensures.mono fun name _ => ?_
  exact Grammar.ensures_of_forall directives fun _ => by simp [Entry.WellNamed]

theorem typedSelection_ensures :
    NamesEnsure typedSelection fun entries => ∀ entry ∈ entries, entry.WellNamed := by
  refine fun _ _ _ => plainName_ensures.mono fun t ht => ?_
  refine Grammar.ensures_of_forall directives fun _ => ?_
  refine selectionSet_ensures.mono fun selection hselection => ?_
  simpa [Entry.WellNamed, ht, Entry.allWellNamed_iff] using hselection

theorem plainSelection_ensures :
    NamesEnsure plainSelection fun entries => ∀ entry ∈ entries, entry.WellNamed :=
  Grammar.ensures_of_forall directives fun _ => selectionSet_ensures

theorem selection_ensures :
    NamesEnsure selection fun entries => ∀ entry ∈ entries, entry.WellNamed :=
  ⟨field_ensures, fun _ _ _ => ⟨spread_ensures, typedSelection_ensures, plainSelection_ensures⟩⟩

theorem selectionSetBody_ensures :
    NamesEnsure selectionSetBody fun entries => ∀ entry ∈ entries, entry.WellNamed := by
  refine fun _ _ _ => (Grammar.ensures_many1 selection_ensures).mono fun rows hrows => ?_
  intro _ _ _ entry hentry
  obtain ⟨row, hrow, hmem⟩ := List.mem_flatten.1 hentry
  exact hrows row hrow entry hmem

/-- Every rule keeps to names, if the rules inside it do. -/
theorem body_ensures {α : Type} (r : Rule α) : NamesEnsure (language.body r) (RuleWellNamed r) := by
  cases r with
  | value => exact Grammar.ensures_of_forall valueBody fun _ => trivial
  | typeRef => exact typeRefBody_ensures
  | selectionSet => exact selectionSetBody_ensures

/-- What the phrase ensures holds of what is read from a text. -/
theorem parse_lex_ensures {α : Type} {start : Phrase α} {post : α → Prop}
    (hstart : NamesEnsure start post) {text : String} {value : α}
    (h : parse start (Token.lex text) = .ok value) : post value := by
  unfold parse at h
  split at h <;> cases h
  next hparse =>
  exact Language.parse_ensures body_ensures hstart (Token.lex_wellNamed text) hparse

theorem parse_of_parseChecked {α : Type} {start : Phrase α} {faults : α → List Fault}
    {stream : Token.Stream} {value : α} (h : parseChecked start faults stream = .ok value) :
    parse start stream = .ok value := by
  obtain ⟨v, hv, h⟩ := exists_of_bind_eq_ok h
  split at h <;> cases h
  exact hv

end Document

/-! ## Fragments -/

namespace Fragment

open Document

theorem fragmentDefinition_ensures : NamesEnsure fragmentDefinition fun d =>
    ∀ f ∈ d.fragment?, f.WellNamed := by
  refine fun _ _ _ => nameButOn_ensures.mono fun name hname => ?_
  refine fun _ _ _ => plainName_ensures.mono fun onType hon => ?_
  refine Grammar.ensures_of_forall directives fun _ => ?_
  refine selectionSet_ensures.mono fun selection hselection => ?_
  rintro f ⟨⟩
  exact ⟨hname, hon, hselection⟩

theorem document_ensures : NamesEnsure document fun definitions =>
    ∀ d ∈ definitions, ∀ f ∈ d.fragment?, f.WellNamed := by
  refine Grammar.ensures_many ⟨fragmentDefinition_ensures, ?_, ?_⟩
  · simp only [operationDefinition, Grammar.ensures_seq, Grammar.ensures_map]
    refine Grammar.ensures_of_forall _ fun _ => Grammar.ensures_of_forall _ fun _ => ?_
    refine Grammar.ensures_of_forall _ fun _ => Grammar.ensures_of_forall _ fun _ => ?_
    exact Grammar.ensures_of_forall _ fun _ => by simp [Definition.fragment?]
  · simp only [shorthandOperation, Grammar.ensures_map]
    exact Grammar.ensures_of_forall _ fun _ => by simp [Definition.fragment?]

/-- What a document defines is well named. -/
theorem wellNamed_of_parseDocument {text : String} {fragments : List Fragment}
    (h : parseDocument text = .ok fragments) : ∀ f ∈ fragments, f.WellNamed := by
  obtain ⟨definitions, hdefinitions, h⟩ := exists_of_bind_eq_ok h
  cases h
  intro f hf
  obtain ⟨d, hd, hfd⟩ := List.mem_filterMap.1 hf
  exact parse_lex_ensures document_ensures (parse_of_parseChecked hdefinitions) d hd f hfd

end Fragment

end FragmentShapes
