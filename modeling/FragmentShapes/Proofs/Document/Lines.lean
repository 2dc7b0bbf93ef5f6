import FragmentShapes.Fragment.Document
import FragmentShapes.Proofs.Grammar.Agreement
import FragmentShapes.Schema

/-!
# Documents and the lines of their tokens

Lines go into messages and nowhere else. `unplaced` takes them out of definitions and faults, and what is
left depends on the tokens alone.

The main statements are `Fragment.ofTokens_alike` and `Schema.ofTokens_alike`: documents of the same tokens
are read alike.
-/

namespace FragmentShapes

open Token (Kind Located)

namespace Token.Located

/-- The token without its line. -/
def unplaced (t : Located) : Located := { t with line := 0 }

@[simp] theorem text_unplaced (t : Located) : t.unplaced.text = t.text := rfl

theorem unplaced_eq_iff {t u : Located} : t.unplaced = u.unplaced ↔ t.SameToken u := by
  simp [unplaced, SameToken]

end Token.Located

namespace Document

/-! ## Terms and selections -/

theorem steady_anyName : anyName.Steady := fun _ _ h _ => h.text_eq

theorem steady_nameButOn : nameButOn.Steady := fun _ _ h _ => h.text_eq

theorem steady_value : value.Steady := Grammar.steady_rule _

theorem steady_typeRef : typeRef.Steady := Grammar.steady_rule _

theorem steady_selectionSet : selectionSet.Steady := Grammar.steady_rule _

theorem steady_argument : argument.Steady := steady_anyName.map.left.seq steady_value

theorem steady_arguments : arguments.Steady := (steady_argument.many1.between _ _).opt.map

theorem steady_directives : directives.Steady :=
  (steady_anyName.right.map.seq steady_arguments).many

theorem steady_defaultValue : defaultValue.Steady := steady_value.right.opt

theorem steady_valueBody : valueBody.Steady := by
  refine .orElse ?_ (.orElse ?_ ?_)
  · exact fun t u h _ => congrArg literalOfToken h
  · exact (steady_value.many.between _ _).map
  · exact (steady_argument.many.between _ _).map

/-- Only whether there is a mark counts. -/
theorem steady_nullability : nullability.Steady := ⟨fun _ _ _ _ => rfl, rfl⟩

theorem steady_typeRefBody : typeRefBody.Steady := by
  refine .orElse (.seq ?_ steady_nullability) (.seq ?_ steady_nullability)
  · intro t u h _
    simp only [h.text_eq]
  · exact (steady_typeRef.between _ _).map

theorem steady_field : field.Steady :=
  (((steady_anyName.map.seq steady_arguments).seq steady_typeRef.right.opt).seq steady_directives).seq
    steady_selectionSet.opt

theorem steady_spread : spread.Steady := steady_nameButOn.map.seq steady_directives

theorem steady_typedSelection : typedSelection.Steady := by
  refine .seq (.seq ?_ steady_directives) steady_selectionSet
  intro _ _ _ _ t u h _
  simp only [Function.const, id, h.text_eq]

theorem steady_selection : selection.Steady :=
  steady_field.orElse
    (steady_spread.orElse (steady_typedSelection.orElse steady_selectionSet.right)).right

theorem steady_selectionSetBody : selectionSetBody.Steady := (steady_selection.many1.between _ _).map

/-- No rule depends on lines. -/
theorem steady_body {α : Type} (r : Rule α) : (language.body r).Steady := by
  cases r with
  | value => exact steady_valueBody
  | typeRef => exact steady_typeRefBody
  | selectionSet => exact steady_selectionSetBody

/-! ## Faults -/

end Document

/-- The fault without its line. -/
def Token.LexicalFault.unplaced : LexicalFault → LexicalFault
  | illegalCharacter c _ => illegalCharacter c 0
  | invalidEscape digits _ => invalidEscape digits 0
  | overlongInteger o => overlongInteger o

namespace Document

/-- The fault without its line. -/
def Fault.unplaced : Fault → Fault
  | lexical fault => lexical fault.unplaced
  | unexpected t => unexpected t.unplaced
  | endOfInput => endOfInput
  | unknownOperation t => unknownOperation t.unplaced
  | duplicateField name _ => duplicateField name 0

/-- The same fault, perhaps on another line. -/
def Fault.SameFault (e e' : Fault) : Prop := e.unplaced = e'.unplaced

section

variable {α : Type} {start : Phrase α} {post : α → α → Prop} {tokens tokens' : List Located}

theorem parse_alike (hstart : start.Agree post) (h : SameTokens tokens tokens') :
    Alike Fault.SameFault post (parse start ⟨tokens, none⟩) (parse start ⟨tokens', none⟩) := by
  have hparse := language.parse_agree steady_body hstart h
  unfold parse
  dsimp only
  generalize language.parse start tokens = x at hparse ⊢
  generalize language.parse start tokens' = y at hparse ⊢
  cases hparse with
  | ok hab => exact .ok hab
  | error hrest =>
    cases hrest with
    | nil => exact .error rfl
    | cons ht _ => exact .error (congrArg Fault.unexpected (Located.unplaced_eq_iff.2 ht))

theorem parseChecked_alike {faults : α → List Fault} (hstart : start.Agree post)
    (hfaults : ∀ a b, post a b → (faults a).map Fault.unplaced = (faults b).map Fault.unplaced)
    (h : SameTokens tokens tokens') :
    Alike Fault.SameFault post (parseChecked start faults ⟨tokens, none⟩)
      (parseChecked start faults ⟨tokens', none⟩) := by
  rw [parseChecked, parseChecked]
  refine (parse_alike hstart h).bind fun a b hab => ?_
  have hsame := hfaults a b hab
  generalize faults a = fs at hsame
  generalize faults b = gs at hsame
  cases fs with
  | nil =>
    obtain rfl : gs = [] := List.map_eq_nil_iff.1 hsame.symm
    exact .ok hab
  | cons f fs =>
    obtain ⟨g, gs, rfl, hfault, -⟩ := List.map_eq_cons_iff.1 hsame.symm
    exact .error hfault.symm

theorem map_eq_of_forall₂ {β γ : Type} {f : β → γ} {as bs : List β}
    (h : List.Forall₂ (fun a b => f a = f b) as bs) : as.map f = bs.map f := by
  induction h with
  | nil => rfl
  | cons hab _ ih => rw [List.map_cons, List.map_cons, hab, ih]

end

end Document

/-! ## Fragment documents -/

namespace Fragment

open Document

/-- The definition without lines. -/
def Definition.unplaced : Definition → Definition
  | fragment f => fragment f
  | operation word => operation (word.map Located.unplaced)

@[simp] theorem Definition.fragment?_unplaced (d : Definition) : d.unplaced.fragment? = d.fragment? := by
  cases d with
  | fragment f => rfl
  | operation word => rfl

@[simp] theorem Definition.fault?_unplaced (d : Definition) :
    d.unplaced.fault? = d.fault?.map Fault.unplaced := by
  match d with
  | fragment f => rfl
  | operation none => rfl
  | operation (some word) =>
    show (if operationNames.contains word.text then none else some (Fault.unknownOperation word.unplaced)) =
      (if operationNames.contains word.text then none else some (Fault.unknownOperation word)).map _
    split
    · rfl
    · rfl

/-- The same definition, perhaps on other lines. -/
def Definition.Same (d e : Definition) : Prop := d.unplaced = e.unplaced

theorem agree_fragmentDefinition : fragmentDefinition.Agree Definition.Same := by
  refine .seq (.seq (.seq (.map steady_nameButOn.right ?_) (Grammar.agree_token _).right)
    steady_directives) steady_selectionSet
  rintro name _ rfl t u h directives _ rfl selection _ rfl
  show Definition.fragment ⟨name, t.text, selection⟩ = .fragment ⟨name, u.text, selection⟩
  rw [h.text_eq]

/-- Of an operation nothing is kept but the word. -/
theorem agree_operationDefinition : operationDefinition.Agree Definition.Same := by
  refine .seq (.seq (.seq (.seq (.map (Grammar.agree_token _) ?_) (steady_nameButOn.opt))
    (Grammar.agree_of_forall variableDefinitions fun _ _ => trivial)) steady_directives)
    steady_selectionSet
  intro t u h _ _ _ _ _ _ _ _ _ _ _ _
  exact congrArg (fun t => Definition.operation (some t)) (Located.unplaced_eq_iff.2 h)

theorem agree_document :
    document.Agree fun ds es => ds.map Definition.unplaced = es.map Definition.unplaced := by
  refine .mono (.many (.orElse agree_fragmentDefinition (.orElse agree_operationDefinition ?_)))
    fun ds es h => map_eq_of_forall₂ h
  exact .map steady_selectionSet fun _ _ _ => rfl

theorem map_unplaced_faults (ds : List Definition) :
    (ds.filterMap Definition.fault?).map Fault.unplaced =
      (ds.map Definition.unplaced).filterMap Definition.fault? := by
  rw [List.filterMap_map, List.map_filterMap]
  exact congrArg (List.filterMap · ds) (funext fun d => d.fault?_unplaced.symm)

theorem faults_alike {ds es : List Definition}
    (h : ds.map Definition.unplaced = es.map Definition.unplaced) :
    (ds.filterMap Definition.fault?).map Fault.unplaced =
      (es.filterMap Definition.fault?).map Fault.unplaced := by
  rw [map_unplaced_faults, h, map_unplaced_faults]

theorem filterMap_fragment_unplaced (ds : List Definition) :
    (ds.map Definition.unplaced).filterMap Definition.fragment? = ds.filterMap Definition.fragment? := by
  rw [List.filterMap_map]
  exact congrArg (List.filterMap · ds) (funext fun d => d.fragment?_unplaced)

/-- Fragment documents of the same tokens have the same fragments, or fail alike. -/
theorem ofTokens_alike {tokens tokens' : List Located} (h : SameTokens tokens tokens') :
    Alike Fault.SameFault Eq (ofTokens ⟨tokens, none⟩) (ofTokens ⟨tokens', none⟩) := by
  rw [ofTokens, ofTokens]
  refine (parseChecked_alike agree_document (fun _ _ => faults_alike) h).bind fun ds es hsame => .ok ?_
  rw [← filterMap_fragment_unplaced, hsame, filterMap_fragment_unplaced]

end Fragment

/-! ## Schema documents -/

namespace Schema

open Document

/-- The definition without lines. -/
def Definition.unplaced : Definition → Definition
  | roots bindings => roots (bindings.map fun binding => (binding.1.unplaced, binding.2))
  | type definition _ => type definition 0
  | directive modifier => directive (modifier.map Located.unplaced)

theorem Definition.faults_unplaced (d : Definition) :
    d.unplaced.faults = d.faults.map Fault.unplaced := by
  match d with
  | roots bindings =>
    simp only [unplaced, faults, List.filter_map, List.map_map]
    rfl
  | type definition line => simp [unplaced, faults, Function.comp_def, Fault.unplaced]
  | directive none => rfl
  | directive (some modifier) =>
    show (if modifier.text = "repeatable" then [] else [Fault.unexpected modifier.unplaced]) =
      (if modifier.text = "repeatable" then [] else [Fault.unexpected modifier]).map _
    split
    · rfl
    · rfl

/-- What a definition does to a schema does not depend on lines. -/
theorem apply_unplaced (s : Schema) (d : Definition) : s.apply d.unplaced = s.apply d := by
  cases d with
  | roots bindings => simp [Definition.unplaced, apply, List.foldl_map]
  | type definition line => rfl
  | directive modifier => rfl

theorem applyAll_unplaced (s : Schema) (ds : List Definition) :
    s.applyAll (ds.map Definition.unplaced) = s.applyAll ds := by
  induction ds generalizing s with
  | nil => rfl
  | cons d ds ih =>
    rw [List.map_cons, applyAll, applyAll, apply_unplaced]
    cases s.apply d with
    | ok s => exact ih s
    | error e => rfl

/-! ### Parts -/

theorem steady_description : description.Steady := by
  refine .opt ?_
  exact fun t u h _ => h.text_eq

theorem steady_inputValue : inputValue.Steady :=
  (((steady_description.map.seq steady_anyName).seq steady_typeRef.right).seq steady_defaultValue).seq
    steady_directives

theorem steady_argumentDefinitions : argumentDefinitions.Steady :=
  (steady_inputValue.many1.between _ _).opt.map

theorem steady_fieldDefinition : fieldDefinition.Steady :=
  (((steady_description.map.seq steady_anyName).seq steady_argumentDefinitions).seq
    steady_typeRef.right).seq steady_directives

/-- Of a block the line of its brace is kept besides the fields. -/
theorem agree_fieldBlock : fieldBlock.Agree fun a b => a.fields = b.fields := by
  refine .map (.opt (?_ : Grammar.Agree _ fun a b : FieldBlock => a.fields = b.fields)) ?_
  · refine .left (.seq (.map (Grammar.agree_token _) ?_) steady_fieldDefinition.many)
    exact fun t u _ fields others h => h
  · intro a b h
    cases h with
    | some hfields => exact hfields
    | none => rfl

theorem steady_typeName : typeName.Steady := fun _ _ h _ => h.text_eq

theorem steady_separated (separator : Punctuator) : (separated separator).Steady :=
  steady_typeName.right.map.seq steady_typeName.right.many

theorem steady_interfaces : interfaces.Steady := steady_typeName.right.many1.right.opt.map

theorem steady_unionMembers : unionMembers.Steady := (steady_separated _).right.opt.map

theorem steady_enumValue : enumValue.Steady :=
  (steady_description.map.seq steady_anyName).seq steady_directives

theorem steady_block {α : Type} {g : Phrase α} (hg : g.Steady) : (block g).Steady :=
  (hg.many.between _ _).opt.map

/-! ### Definitions -/

/-- The same definition behind any description, perhaps on other lines. -/
def Described.Same (d e : Described) : Prop :=
  ∀ description, (d description).unplaced = (e description).unplaced

theorem Described.same_of_eq {d e : Described} (h : d = e) : d.Same e := by
  rw [h]
  exact fun _ => rfl

theorem Described.same_fielded (body : List String → List FieldDefinition → TypeBody) (name : String)
    (interfaces : List String) {a b : FieldBlock} (h : a.fields = b.fields) :
    (Described.fielded body name interfaces a).Same (Described.fielded body name interfaces b) := by
  intro description
  simp only [fielded, Definition.unplaced, h]

theorem agree_rootBinding :
    rootBinding.Agree fun a b => (a.1.unplaced, a.2) = (b.1.unplaced, b.2) := by
  refine .seq (.map (Grammar.agree_token _) ?_) steady_typeName.right
  rintro t u h name _ rfl
  rw [Located.unplaced_eq_iff.2 h]

theorem agree_rootsDefinition : rootsDefinition.Agree Described.Same := by
  refine .seq (.map steady_directives.right ?_) (agree_rootBinding.many1.between _ _)
  rintro _ _ _ as bs h description
  exact congrArg Definition.roots (map_eq_of_forall₂ h)

theorem agree_objectDefinition : objectDefinition.Agree Described.Same := by
  refine .seq (.seq (.seq (.map steady_typeName.right ?_) steady_interfaces) steady_directives)
    agree_fieldBlock
  rintro name _ rfl interfaces _ rfl directives _ rfl a b h
  exact Described.same_fielded .object name interfaces h

theorem agree_interfaceDefinition : interfaceDefinition.Agree Described.Same := by
  refine .seq (.seq (.seq (.map steady_typeName.right ?_) steady_interfaces) steady_directives)
    agree_fieldBlock
  rintro name _ rfl interfaces _ rfl directives _ rfl a b h
  exact Described.same_fielded .interface name interfaces h

theorem steady_unionDefinition : unionDefinition.Steady :=
  (steady_typeName.right.map.seq steady_directives).seq steady_unionMembers

theorem steady_enumDefinition : enumDefinition.Steady :=
  (steady_typeName.right.map.seq steady_directives).seq (steady_block steady_enumValue)

theorem steady_inputDefinition : inputDefinition.Steady :=
  (steady_typeName.right.map.seq steady_directives).seq (steady_block steady_inputValue)

theorem steady_scalarDefinition : scalarDefinition.Steady :=
  steady_typeName.right.map.seq steady_directives

/-- Of a directive nothing is kept but the word before its locations. -/
theorem agree_directiveDefinition : directiveDefinition.Agree Described.Same := by
  refine .seq (.seq (.seq (.map steady_anyName.right ?_) steady_argumentDefinitions)
    (.opt (Grammar.agree_token _))) (steady_separated .pipe).right
  rintro _ _ _ _ _ _ a b h _ _ _ description
  cases h with
  | some h => exact congrArg (fun t => Definition.directive (some t)) (Located.unplaced_eq_iff.2 h)
  | none => rfl

theorem agree_definition : definition.Agree fun d e => d.unplaced = e.unplaced := by
  refine .seq (.map steady_description ?_) (.orElse agree_rootsDefinition <|
    .orElse agree_objectDefinition <| .orElse agree_interfaceDefinition <|
    .orElse (.mono steady_unionDefinition ?_) <| .orElse (.mono steady_enumDefinition ?_) <|
    .orElse (.mono steady_inputDefinition ?_) <| .orElse (.mono steady_scalarDefinition ?_)
    agree_directiveDefinition)
  · rintro description _ rfl d e h
    exact h description
  all_goals exact fun d e h => Described.same_of_eq h

theorem agree_document :
    document.Agree fun ds es => ds.map Definition.unplaced = es.map Definition.unplaced :=
  .mono (.many agree_definition) fun _ _ h => map_eq_of_forall₂ h

theorem map_unplaced_faults (ds : List Definition) :
    (ds.flatMap Definition.faults).map Fault.unplaced =
      (ds.map Definition.unplaced).flatMap Definition.faults := by
  rw [List.map_flatMap, List.flatMap_map]
  exact congrArg (List.flatMap · ds) (funext fun d => d.faults_unplaced.symm)

theorem faults_alike {ds es : List Definition}
    (h : ds.map Definition.unplaced = es.map Definition.unplaced) :
    (ds.flatMap Definition.faults).map Fault.unplaced =
      (es.flatMap Definition.faults).map Fault.unplaced := by
  rw [map_unplaced_faults, h, map_unplaced_faults]

/-- Schema documents of the same tokens have the same definitions, or fail alike. -/
theorem ofTokens_alike {tokens tokens' : List Located} (h : SameTokens tokens tokens') :
    Alike Fault.SameFault (fun ds es => ds.map Definition.unplaced = es.map Definition.unplaced)
      (ofTokens ⟨tokens, none⟩) (ofTokens ⟨tokens', none⟩) :=
  parseChecked_alike agree_document (fun _ _ => faults_alike) h

end Schema

end FragmentShapes
