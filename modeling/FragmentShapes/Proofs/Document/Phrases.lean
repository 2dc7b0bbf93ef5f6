import FragmentShapes.Proofs.Document.Productions

/-!
# Terms and selections by their productions

Each nonterminal for names, types, directives, values and selections reads what the phrase of that name
reads.
-/

namespace FragmentShapes.Document

open Token (Kind Located)

attribute [local simp] Nonterminal.body

/-- The nonterminal of a rule. -/
def Rule.nonterminal : {α : Type} → Rule α → Nonterminal α
  | _, .value => .value
  | _, .typeRef => .typeRef
  | _, .selectionSet => .selectionSet

/-- What a rule reads by the productions. -/
def ruleReading {α : Type} (r : Rule α) : Reading Fault α := productions.phrase r.nonterminal

/-- A nonterminal that rejects nothing and has no production that begins with itself. -/
theorem phrase_eq_body {α : Type} {n : Nonterminal α} (htail : n.tail = Productions.noTail)
    (hrejects : n.rejects = fun _ => []) :
    productions.phrase n = n.body.reads productions.phrase := by
  rw [Productions.phrase_eq (show productions.tail n = _ from htail)]
  rw [show productions.rejects n = fun _ => [] from hrejects, Reading.judge_nil]
  rfl

/-- A nonterminal for a list that rejects nothing, with one kind of parts. -/
theorem phrase_eq_list {α β : Type} {n : Nonterminal α} (part : Nonterminal.Side β)
    (collect : List β → α) (extend : β → α → α)
    (hbody : n.body.reads productions.phrase =
      .map (fun b => collect [b]) (part.reads productions.phrase)) (htail : n.tail = extend <$> part)
    (hrejects : n.rejects = fun _ => [])
    (hcollect : ∀ bs b, collect (bs ++ [b]) = extend b (collect bs)) :
    productions.phrase n = .map collect (part.many1.reads productions.phrase) := by
  rw [Productions.phrase_eq_collect (fun b bs => collect (b :: bs)) extend hrejects hbody htail
    fun b bs c => hcollect (b :: bs) c]
  simp [Function.comp_def]

/-- A nonterminal for the list of its parts. -/
theorem phrase_eq_many1 {β : Type} {n : Nonterminal (List β)} (part : Nonterminal.Side β)
    (hbody : n.body = (fun b => [b]) <$> part) (htail : n.tail = (fun b list => list ++ [b]) <$> part)
    (hrejects : n.rejects = fun _ => []) :
    productions.phrase n = part.many1.reads productions.phrase := by
  rw [phrase_eq_list part id (fun b list => list ++ [b]) (by rw [hbody]; rfl) htail hrejects fun _ _ => rfl,
    Reading.map_id]

/-- A list between two punctuators, whether something stands there or nothing. -/
theorem reads_enclosed {α β : Type} (opening closing : Punctuator) {list : Nonterminal (List α)}
    {part : Phrase β} (collect : List β → List α)
    (hlist : productions.phrase list = .map collect (part.many1.reads ruleReading))
    (hnil : collect [] = []) :
    (Nonterminal.enclosed opening closing list).reads productions.phrase =
      .seq (.seq (.map (fun _ parts _ => collect parts) (.token [.punctuator opening]))
        (.Star (part.reads ruleReading))) (.token [.punctuator closing]) := by
  conv_rhs => rw [Reading.star_eq]
  simp [Nonterminal.enclosed, Nonterminal.sign, Grammar.between, hlist, hnil, Reading.seq_alt,
    Reading.alt_seq, Function.comp_def]

@[simp] theorem phrase_nameNoOn : productions.phrase .nameNoOn = nameButOn.reads ruleReading := by
  rw [phrase_eq_body rfl rfl]
  rfl

@[simp] theorem phrase_name : productions.phrase .name = anyName.reads ruleReading := by
  have hkinds (k : Kind) : k ∈ nameKinds ↔ k ∈ nameKindsButOn ∨ k ∈ [.keyword .on] := by
    rcases k with _ | _ | _ | _ | _ | _ | word | mark
    case keyword => cases word <;> decide
    case punctuator => cases mark <;> decide
    all_goals decide
  rw [phrase_eq_body rfl rfl]
  simp [nameButOn, anyName, Nonterminal.word, ← Reading.map_alt, Reading.alt_token _ hkinds]

theorem phrase_typeRef : productions.phrase .typeRef = typeRefBody.reads ruleReading := by
  rw [phrase_eq_body rfl rfl]
  simp [typeRefBody, plainName, nullability, typeRef, mark, Nonterminal.typeName,
    Nonterminal.identifier,
    Nonterminal.sign, Grammar.between, ruleReading, Rule.nonterminal, Function.comp_def]

theorem reads_value : value.reads ruleReading = productions.phrase .value := rfl

theorem reads_typeRef : typeRef.reads ruleReading = productions.phrase .typeRef := rfl

theorem reads_selectionSet :
    selectionSet.reads ruleReading = productions.phrase .selectionSet := rfl

@[simp] theorem phrase_argument : productions.phrase .argument = argument.reads ruleReading := by
  rw [phrase_eq_body rfl rfl]
  simp [argument, mark, Nonterminal.sign, reads_value, Function.comp_def]

@[simp] theorem phrase_argumentList :
    productions.phrase .argumentList = .map KeyedList.ofPairs (argument.many1.reads ruleReading) := by
  rw [phrase_eq_list (.rule .argument) KeyedList.ofPairs
    (fun a list => KeyedList.put a.1 a.2 list) rfl rfl rfl fun _ _ => by simp [KeyedList.ofPairs]]
  simp

@[simp] theorem phrase_objectFieldList :
    productions.phrase .objectFieldList =
      .map KeyedList.ofPairs (argument.many1.reads ruleReading) := by
  rw [phrase_eq_list (.rule .argument) KeyedList.ofPairs
    (fun a list => KeyedList.put a.1 a.2 list) rfl rfl rfl fun _ _ => by simp [KeyedList.ofPairs]]
  simp

@[simp] theorem phrase_argumentsOpt :
    productions.phrase .argumentsOpt = arguments.reads ruleReading := by
  rw [phrase_eq_body rfl rfl]
  simp [arguments, Grammar.between, Reading.map_opt, KeyedList.ofPairs,
    Function.comp_def]

@[simp] theorem phrase_directive : productions.phrase .directive = directive.reads ruleReading := by
  rw [phrase_eq_body rfl rfl]
  simp [directive, mark, Nonterminal.sign]

@[simp] theorem phrase_directiveList :
    productions.phrase .directiveList = directive.many1.reads ruleReading := by
  rw [phrase_eq_many1 (.rule .directive) rfl rfl rfl]
  simp

@[simp] theorem phrase_directivesOpt :
    productions.phrase .directivesOpt = directives.reads ruleReading := by
  rw [phrase_eq_body rfl rfl, directives, Grammar.reads_many, Reading.star_eq]
  simp

@[simp] theorem phrase_defaultValueOpt :
    productions.phrase .defaultValueOpt = defaultValue.reads ruleReading := by
  rw [phrase_eq_body rfl rfl]
  simp [defaultValue, mark, Nonterminal.sign, reads_value, Reading.opt]

@[simp] theorem phrase_valueList :
    productions.phrase .valueList = value.many1.reads ruleReading := by
  rw [phrase_eq_many1 (.rule .value) rfl rfl rfl]
  simp [reads_value]

/-- The tokens that are literals by themselves, in three groups. -/
theorem reads_literal :
    (Reading.map (fun t => literalOfToken t.token) (.token literalKinds) : Reading Fault Literal) =
      .alt (.map (fun t => literalOfToken t.token) (.token [.int, .float, .string, .block]))
        (.alt (.map (fun t => literalOfToken t.token) (.token [.var]))
          (.map Literal.ofName (anyName.reads ruleReading))) := by
  have hname : (Reading.map Literal.ofName (anyName.reads ruleReading) : Reading Fault Literal) =
      .map (fun t => literalOfToken t.token) (.token nameKinds) := by
    rw [anyName, Grammar.reads_map, Reading.map_map, Grammar.reads_token]
    refine Reading.map_token fun t ht => ?_
    obtain ⟨token, line⟩ := t
    cases token <;> first | rfl | simp [nameKinds, Located.kind, Token.kind] at ht
  rw [hname, ← Reading.map_alt, ← Reading.map_alt, Reading.alt_token (.var :: nameKinds),
    Reading.alt_token literalKinds]
  · simp [literalKinds, or_assoc]
  · simp

theorem phrase_value : productions.phrase .value = valueBody.reads ruleReading := by
  have hlist := reads_enclosed .openBracket .closeBracket id
    (phrase_valueList.trans (Reading.map_id _).symm) rfl
  have hobject := reads_enclosed .openBrace .closeBrace KeyedList.ofPairs
    phrase_objectFieldList rfl
  rw [phrase_eq_body rfl rfl]
  simp [valueBody, Grammar.between, reads_literal, hlist, hobject,
    Function.comp_def]

/-! ## Selections -/

@[simp] theorem phrase_annotationOpt :
    productions.phrase .annotationOpt = (Grammar.opt (mark .colon *> typeRef)).reads ruleReading := by
  rw [phrase_eq_body rfl rfl]
  simp [mark, Nonterminal.sign, reads_typeRef, Reading.opt]

@[simp] theorem phrase_selectionSetOpt :
    productions.phrase .selectionSetOpt = (Grammar.opt selectionSet).reads ruleReading := by
  rw [phrase_eq_body rfl rfl]
  simp [reads_selectionSet, Reading.opt]

@[simp] theorem phrase_field : productions.phrase .field = field.reads ruleReading := by
  rw [phrase_eq_body rfl rfl]
  simp [field]

@[simp] theorem phrase_fragmentSpread :
    productions.phrase .fragmentSpread = (mark .ellipsis *> spread).reads ruleReading := by
  rw [phrase_eq_body rfl rfl]
  simp [spread, mark, Nonterminal.sign, Function.comp_def]

@[simp] theorem phrase_inlineFragment :
    productions.phrase .inlineFragment =
      (mark .ellipsis *> (typedSelection <|> plainSelection)).reads ruleReading := by
  rw [phrase_eq_body rfl rfl]
  simp [typedSelection, plainSelection, mark, keyword, plainName, Nonterminal.sign,
    Nonterminal.word, Nonterminal.typeName, Nonterminal.identifier, reads_selectionSet, Reading.seq_alt, Function.comp_def]

@[simp] theorem phrase_selection : productions.phrase .selection = selection.reads ruleReading := by
  rw [phrase_eq_body rfl rfl]
  simp [selection, Reading.seq_alt]

@[simp] theorem phrase_selectionList :
    productions.phrase .selectionList = .map List.flatten (selection.many1.reads ruleReading) := by
  rw [phrase_eq_list (.rule .selection) List.flatten (fun entries list => list ++ entries)
    (by simp [← Function.id_def]) rfl rfl
    fun _ _ => by simp]
  simp

theorem phrase_selectionSet :
    productions.phrase .selectionSet = selectionSetBody.reads ruleReading := by
  rw [phrase_eq_body rfl rfl]
  simp [selectionSetBody, Grammar.between, Function.comp_def]

/-- Each rule reads what its grammar reads. -/
theorem ruleReading_eq {α : Type} (r : Rule α) : ruleReading r = (body r).reads ruleReading :=
  match r with
  | .value => phrase_value
  | .typeRef => phrase_typeRef
  | .selectionSet => phrase_selectionSet

/-! ## Terms and selections reject nothing -/

/-- The nonterminals of names, types, directives, values and selections. -/
def Nonterminal.isTerm : {α : Type} → Nonterminal α → Bool
  | _, nameNoOn | _, name | _, typeRef | _, directivesOpt | _, directiveList | _, directive => true
  | _, argumentsOpt | _, argumentList | _, argument | _, defaultValueOpt => true
  | _, value | _, valueList | _, objectFieldList => true
  | _, selectionSet | _, selectionSetOpt | _, selectionList | _, selection | _, field => true
  | _, annotationOpt | _, fragmentSpread | _, inlineFragment => true
  | _, _ => false

theorem faultless_ruleReading {α : Type} (r : Rule α) : (ruleReading r).Faultless := by
  have hclosed {β : Type} (n : Nonterminal β) (hn : n.isTerm = true) :
      Productions.isOver Nonterminal.isTerm n.body = true ∧
        Productions.isOver Nonterminal.isTerm n.tail = true ∧ n.rejects = fun _ => [] := by
    cases n <;> first | exact ⟨rfl, rfl, rfl⟩ | cases hn
  rintro tokens value faults ⟨tree, _, h⟩
  exact h.faults_eq_nil hclosed (by cases r <;> rfl)

@[simp] theorem faultless {α : Type} (g : Phrase α) : (g.reads ruleReading).Faultless :=
  Grammar.faultless_reads faultless_ruleReading g

/-- A nonterminal that rejects something of its value. -/
theorem phrase_eq_judged {α : Type} {n : Nonterminal α} {g : Phrase α} {faults : α → List Fault}
    (htail : n.tail = Productions.noTail)
    (hbody : n.body.reads productions.phrase = g.reads ruleReading) (hrejects : n.rejects = faults) :
    productions.phrase n = .tell (.map (fun a => (a, faults a)) (g.reads ruleReading)) := by
  rw [Productions.phrase_eq (show productions.tail n = _ from htail), ← (faultless g).judge_eq_tell,
    ← hbody, ← hrejects]
  rfl

end FragmentShapes.Document
