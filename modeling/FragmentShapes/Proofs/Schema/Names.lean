import FragmentShapes.Proofs.Document.Names
import FragmentShapes.Schema

/-!
# Names in schemas

`Schema.OfDocuments` says that a schema has come from texts, of which some may have been refused half-way.
The main statement is `Schema.OfDocuments.wellNamed`: in such a schema every type, every member of a union
and every type reference of a field has a name that documents can write.
-/

namespace FragmentShapes

namespace Schema

open Document
open Token (Located)

/-- The schemas that come from texts, one loaded after the other; what a refused text has defined stays. -/
inductive OfDocuments : Schema → Prop
  | initial : OfDocuments initial
  | load {s : Schema} (h : OfDocuments s) (text : String) : OfDocuments (s.load text).1

/-- What a text alone is read as comes from a text. -/
theorem OfDocuments.of_parse {text : String} {s : Schema} (h : parse text = .ok s) : s.OfDocuments := by
  have hload := OfDocuments.load .initial text
  rw [parse] at h
  split at h
  · next heq =>
    cases h
    rwa [heq] at hload
  · cases h

/-- Every name that the definition gives to itself, to the types of its fields and to its members is one
that documents can write. -/
structure TypeDefinition.WellNamed (t : TypeDefinition) : Prop where
  name : Text.isAsciiName t.name = true
  fields : ∀ f ∈ t.ownFields, Text.isAsciiName f.name = true ∧ f.type.WellNamed
  members : ∀ members, t.body = .union members → ∀ m ∈ members, Text.isAsciiName m = true

/-- Every type of the schema is well named. -/
def WellNamed (s : Schema) : Prop := ∀ t ∈ s.types, t.WellNamed

/-! ## Reading definitions -/

/-- The definition is no type, or a well-named one. -/
def Definition.WellNamed (d : Definition) : Prop := ∀ t line, d = .type t line → t.WellNamed

/-- Whatever its description, the definition is well named. -/
def Described.WellNamed (d : Described) : Prop := ∀ description, (d description).WellNamed

theorem typeName_ensures : NamesEnsure typeName fun name => Text.isAsciiName name = true :=
  plainName_ensures

theorem fieldDefinition_ensures : NamesEnsure fieldDefinition fun f =>
    Text.isAsciiName f.name = true ∧ f.type.WellNamed := by
  simp only [NamesEnsure, fieldDefinition, Grammar.ensures_seq, Grammar.ensures_map]
  refine Grammar.ensures_of_forall description fun _ => ?_
  refine anyName_ensures.mono fun name hname => ?_
  refine Grammar.ensures_of_forall argumentDefinitions fun _ => ?_
  refine fun _ _ _ t ht => ?_
  exact Grammar.ensures_of_forall directives fun _ => ⟨hname, ht⟩

theorem fieldBlock_ensures : NamesEnsure fieldBlock fun b =>
    ∀ f ∈ b.fields, Text.isAsciiName f.name = true ∧ f.type.WellNamed := by
  refine ⟨fun _ _ _ => ?_, by simp⟩
  exact (Grammar.ensures_many fieldDefinition_ensures).mono fun fields hfields _ _ _ => hfields

theorem separated_ensures (separator : Punctuator) : NamesEnsure (separated separator) fun names =>
    ∀ name ∈ names, Text.isAsciiName name = true := by
  simp only [NamesEnsure, separated, Grammar.ensures_seq, Grammar.ensures_map,
    Grammar.ensures_seqRight]
  refine Grammar.ensures_of_forall _ fun _ => ?_
  refine typeName_ensures.mono fun first hfirst => ?_
  have hmore : NamesEnsure (mark separator *> typeName) fun name => Text.isAsciiName name = true :=
    fun _ _ _ => typeName_ensures
  exact (Grammar.ensures_many hmore).mono fun names hnames => by simpa using ⟨hfirst, hnames⟩

theorem unionMembers_ensures : NamesEnsure unionMembers fun members =>
    ∀ m ∈ members, Text.isAsciiName m = true :=
  ⟨fun _ _ _ => separated_ensures .pipe, by simp⟩

theorem type_wellNamed {name : String} {body : TypeBody} (hname : Text.isAsciiName name = true)
    (hfields : ∀ description, ∀ f ∈ (TypeDefinition.mk name description body).ownFields,
      Text.isAsciiName f.name = true ∧ f.type.WellNamed)
    (hmembers : ∀ members, body = .union members → ∀ m ∈ members, Text.isAsciiName m = true) :
    (Described.type name body).WellNamed := by
  rintro description t line ⟨⟩
  exact ⟨hname, hfields description, hmembers⟩

theorem fielded_wellNamed {body : List String → List FieldDefinition → TypeBody}
    (hbody : body = .object ∨ body = .interface) {name : String}
    (hname : Text.isAsciiName name = true) (interfaces : List String) {b : FieldBlock}
    (hfields : ∀ f ∈ b.fields, Text.isAsciiName f.name = true ∧ f.type.WellNamed) :
    (Described.fielded body name interfaces b).WellNamed := by
  rintro description t line ⟨⟩
  rcases hbody with rfl | rfl
  · exact ⟨hname, hfields, by simp⟩
  · exact ⟨hname, hfields, by simp⟩

theorem rootsDefinition_ensures : NamesEnsure rootsDefinition Described.WellNamed := by
  simp only [NamesEnsure, rootsDefinition, Grammar.ensures_seq, Grammar.ensures_map]
  refine Grammar.ensures_of_forall _ fun _ => Grammar.ensures_of_forall _ fun _ => ?_
  rintro description t line ⟨⟩

theorem objectDefinition_ensures : NamesEnsure objectDefinition Described.WellNamed := by
  simp only [NamesEnsure, objectDefinition, Grammar.ensures_seq, Grammar.ensures_map]
  refine fun _ _ _ => typeName_ensures.mono fun name hname => ?_
  refine Grammar.ensures_of_forall _ fun interfaces => Grammar.ensures_of_forall _ fun _ => ?_
  exact fieldBlock_ensures.mono fun b hb => fielded_wellNamed (.inl rfl) hname interfaces hb

theorem interfaceDefinition_ensures : NamesEnsure interfaceDefinition Described.WellNamed := by
  simp only [NamesEnsure, interfaceDefinition, Grammar.ensures_seq, Grammar.ensures_map]
  refine fun _ _ _ => typeName_ensures.mono fun name hname => ?_
  refine Grammar.ensures_of_forall _ fun interfaces => Grammar.ensures_of_forall _ fun _ => ?_
  exact fieldBlock_ensures.mono fun b hb => fielded_wellNamed (.inr rfl) hname interfaces hb

theorem unionDefinition_ensures : NamesEnsure unionDefinition Described.WellNamed := by
  simp only [NamesEnsure, unionDefinition, Grammar.ensures_seq, Grammar.ensures_map]
  refine fun _ _ _ => typeName_ensures.mono fun name hname => ?_
  refine Grammar.ensures_of_forall _ fun _ => unionMembers_ensures.mono fun members hmembers => ?_
  exact type_wellNamed hname (by simp [TypeDefinition.ownFields]) (by rintro _ ⟨⟩; exact hmembers)

theorem enumDefinition_ensures : NamesEnsure enumDefinition Described.WellNamed := by
  simp only [NamesEnsure, enumDefinition, Grammar.ensures_seq, Grammar.ensures_map]
  refine fun _ _ _ => typeName_ensures.mono fun name hname => ?_
  refine Grammar.ensures_of_forall _ fun _ => Grammar.ensures_of_forall _ fun _ => ?_
  exact type_wellNamed hname (by simp [TypeDefinition.ownFields]) (by simp)

theorem inputDefinition_ensures : NamesEnsure inputDefinition Described.WellNamed := by
  simp only [NamesEnsure, inputDefinition, Grammar.ensures_seq, Grammar.ensures_map]
  refine fun _ _ _ => typeName_ensures.mono fun name hname => ?_
  refine Grammar.ensures_of_forall _ fun _ => Grammar.ensures_of_forall _ fun _ => ?_
  exact type_wellNamed hname (by simp [TypeDefinition.ownFields]) (by simp)

theorem scalarDefinition_ensures : NamesEnsure scalarDefinition Described.WellNamed := by
  simp only [NamesEnsure, scalarDefinition, Grammar.ensures_seq, Grammar.ensures_map]
  refine fun _ _ _ => typeName_ensures.mono fun name hname => ?_
  refine Grammar.ensures_of_forall _ fun _ => ?_
  exact type_wellNamed hname (by simp [TypeDefinition.ownFields]) (by simp)

theorem directiveDefinition_ensures : NamesEnsure directiveDefinition Described.WellNamed := by
  simp only [NamesEnsure, directiveDefinition, Grammar.ensures_seq, Grammar.ensures_map]
  refine Grammar.ensures_of_forall _ fun _ => Grammar.ensures_of_forall _ fun _ => ?_
  refine Grammar.ensures_of_forall _ fun _ => Grammar.ensures_of_forall _ fun _ => ?_
  rintro description t line ⟨⟩

theorem definition_ensures : NamesEnsure definition Definition.WellNamed := by
  simp only [NamesEnsure, definition, Grammar.ensures_seq, Grammar.ensures_map, Grammar.ensures_orElse]
  refine Grammar.ensures_of_forall _ fun description => ?_
  have hdescribed {g : Phrase Described} (h : NamesEnsure g Described.WellNamed) :
      NamesEnsure g fun d => (d description).WellNamed := h.mono fun d hd => hd description
  exact ⟨hdescribed rootsDefinition_ensures, hdescribed objectDefinition_ensures,
    hdescribed interfaceDefinition_ensures, hdescribed unionDefinition_ensures,
    hdescribed enumDefinition_ensures, hdescribed inputDefinition_ensures,
    hdescribed scalarDefinition_ensures, hdescribed directiveDefinition_ensures⟩

theorem document_ensures : NamesEnsure document fun definitions =>
    ∀ d ∈ definitions, d.WellNamed := Grammar.ensures_many definition_ensures

theorem wellNamed_of_parseDocument {text : String} {definitions : List Definition}
    (h : parseDocument text = .ok definitions) : ∀ d ∈ definitions, d.WellNamed :=
  parse_lex_ensures document_ensures (parse_of_parseChecked h)

/-! ## Applying definitions -/

theorem isAsciiName_of_mem_builtinScalars :
    ∀ name ∈ builtinScalars, Text.isAsciiName name = true := by decide

theorem initial_wellNamed : initial.WellNamed := by
  intro t ht
  obtain ⟨name, hname, rfl⟩ := List.mem_map.1 ht
  exact ⟨isAsciiName_of_mem_builtinScalars name hname, by simp [TypeDefinition.ownFields], by simp⟩

theorem setRoot_types (s : Schema) (operation type : String) :
    (s.setRoot operation type).types = s.types := by
  unfold setRoot
  split_ifs <;> rfl

theorem foldl_setRoot_types (bindings : List (Located × String)) (s : Schema) :
    (bindings.foldl (fun s binding => s.setRoot binding.1.text binding.2) s).types = s.types := by
  induction bindings generalizing s with
  | nil => rfl
  | cons binding bindings ih => rw [List.foldl_cons, ih, setRoot_types]

theorem define_wellNamed {s s' : Schema} {t : TypeDefinition} (hs : s.WellNamed) (ht : t.WellNamed)
    (h : s.define t = .ok s') : s'.WellNamed := by
  unfold define at h
  split at h
  · cases h
    intro u hu
    rcases List.mem_append.1 hu with hu | hu
    · exact hs u hu
    · rw [List.mem_singleton.1 hu]
      exact ht
  · split_ifs at h
    cases h
    exact hs

theorem apply_wellNamed {s s' : Schema} {d : Definition} (hs : s.WellNamed) (hd : d.WellNamed)
    (h : s.apply d = .ok s') : s'.WellNamed := by
  cases d with
  | roots bindings =>
    cases h
    rw [WellNamed, foldl_setRoot_types]
    exact hs
  | type definition line => exact define_wellNamed hs (hd definition line rfl) h
  | directive modifier =>
    cases h
    exact hs

theorem applyAll_wellNamed {definitions : List Definition} {s : Schema} (hs : s.WellNamed)
    (hdefinitions : ∀ d ∈ definitions, d.WellNamed) : (s.applyAll definitions).1.WellNamed := by
  induction definitions generalizing s with
  | nil => exact hs
  | cons d definitions ih =>
    rw [applyAll]
    split
    · next s' hs' =>
      exact ih (apply_wellNamed hs (hdefinitions d (by simp)) hs')
        fun e he => hdefinitions e (by simp [he])
    · exact hs

theorem load_wellNamed {s : Schema} (hs : s.WellNamed) (text : String) :
    (s.load text).1.WellNamed := by
  unfold load
  split
  · next definitions hdefinitions =>
    exact applyAll_wellNamed hs (wellNamed_of_parseDocument hdefinitions)
  · exact hs

/-- In a schema that comes from texts every type is well named. -/
theorem OfDocuments.wellNamed {s : Schema} (h : s.OfDocuments) : s.WellNamed := by
  induction h with
  | initial => exact initial_wellNamed
  | load _ text ih => exact load_wellNamed ih text

end Schema

end FragmentShapes
