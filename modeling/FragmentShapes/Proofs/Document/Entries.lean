import FragmentShapes.Proofs.Document.Names
import FragmentShapes.Proofs.Selection.Names

/-!
# Entries in fragment documents

A selection set is never empty, and of what an entry can be it has fields, spreads and conditions without a
label only: a selection without a condition belongs to the one around it. The main statement is
`Fragment.OfDocument.areWritten`.
-/

namespace FragmentShapes

/-- The entry is one that a document can write: no group, and no condition with a label. -/
def Entry.IsWritten : Entry → Prop
  | .condition _ label _ => label = none
  | .group _ => False
  | _ => True

/-- There are entries, each of which a document can write. -/
def Entry.AreWritten (entries : List Entry) : Prop := entries ≠ [] ∧ ∀ entry ∈ entries, entry.IsWritten

theorem Entry.areWritten_singleton {entry : Entry} (h : entry.IsWritten) : AreWritten [entry] :=
  ⟨List.cons_ne_nil _ _, List.forall_mem_singleton.2 h⟩

open Entry (AreWritten areWritten_singleton)

namespace Document

/-- What holds of the value of a rule: the entries of a selection set are written. -/
def RuleWritten : {α : Type} → Rule α → α → Prop
  | _, .value, _ => True
  | _, .typeRef, _ => True
  | _, .selectionSet, entries => AreWritten entries

/-- The values of a phrase satisfy `post`, if selection sets are written. -/
abbrev EntriesEnsure {α : Type} (g : Phrase α) (post : α → Prop) : Prop :=
  g.Ensures (fun _ => True) RuleWritten post

theorem selectionSet_written : EntriesEnsure selectionSet AreWritten := fun _ h => h

theorem selection_written : EntriesEnsure selection AreWritten := by
  refine ⟨?_, fun _ _ _ => ⟨?_, ?_, ?_⟩⟩
  · simp only [field, Grammar.ensures_seq, Grammar.ensures_map]
    refine Grammar.ensures_of_forall _ fun _ => Grammar.ensures_of_forall _ fun _ => ?_
    refine Grammar.ensures_of_forall _ fun _ => Grammar.ensures_of_forall _ fun _ => ?_
    exact Grammar.ensures_of_forall _ fun _ => areWritten_singleton trivial
  · simp only [spread, Grammar.ensures_seq, Grammar.ensures_map]
    refine Grammar.ensures_of_forall _ fun _ => Grammar.ensures_of_forall _ fun _ => ?_
    exact areWritten_singleton trivial
  · refine fun _ _ _ => Grammar.ensures_of_forall _ fun _ => Grammar.ensures_of_forall _ fun _ => ?_
    exact Grammar.ensures_of_forall _ fun _ => areWritten_singleton rfl
  · exact Grammar.ensures_of_forall directives fun _ => selectionSet_written

theorem selectionSetBody_written : EntriesEnsure selectionSetBody AreWritten := by
  refine fun _ _ _ => selection_written.mono fun row hrow => ?_
  refine ⟨AreWritten, selection_written, fun rows hrows => ?_⟩
  intro _ _ _
  have hall : ∀ row' ∈ row :: rows, AreWritten row' := List.forall_mem_cons.2 ⟨hrow, hrows⟩
  refine ⟨fun hnil => hrow.1 (List.append_eq_nil_iff.1 hnil).1, fun entry hentry => ?_⟩
  obtain ⟨row', hrow', hmem⟩ := List.mem_flatten.1 hentry
  exact (hall row' hrow').2 entry hmem

theorem body_written {α : Type} (r : Rule α) : EntriesEnsure (language.body r) (RuleWritten r) := by
  cases r with
  | value => exact Grammar.ensures_of_forall valueBody fun _ => trivial
  | typeRef => exact Grammar.ensures_of_forall typeRefBody fun _ => trivial
  | selectionSet => exact selectionSetBody_written

end Document

namespace Fragment

open Document

theorem document_written : EntriesEnsure document fun definitions =>
    ∀ d ∈ definitions, ∀ f ∈ d.fragment?, AreWritten f.entries := by
  refine Grammar.ensures_many ⟨?_, ?_, ?_⟩
  · refine fun _ _ _ => Grammar.ensures_of_forall _ fun _ => fun _ _ _ => ?_
    refine Grammar.ensures_of_forall _ fun _ => Grammar.ensures_of_forall _ fun _ => ?_
    refine selectionSet_written.mono fun selection hselection => ?_
    rintro f ⟨⟩
    exact hselection
  · simp only [operationDefinition, Grammar.ensures_seq, Grammar.ensures_map]
    refine Grammar.ensures_of_forall _ fun _ => Grammar.ensures_of_forall _ fun _ => ?_
    refine Grammar.ensures_of_forall _ fun _ => Grammar.ensures_of_forall _ fun _ => ?_
    exact Grammar.ensures_of_forall _ fun _ => by simp [Definition.fragment?]
  · simp only [shorthandOperation, Grammar.ensures_map]
    exact Grammar.ensures_of_forall _ fun _ => by simp [Definition.fragment?]

/-- A fragment of a document has entries, each of which a document can write. -/
theorem OfDocument.areWritten {f : Fragment} (h : f.OfDocument) : AreWritten f.entries := by
  obtain ⟨text, fragments, hparse, hf⟩ := h
  obtain ⟨definitions, hdefinitions, heq⟩ := exists_of_bind_eq_ok hparse
  cases heq
  obtain ⟨d, hd, hfd⟩ := List.mem_filterMap.1 hf
  have hread := parse_of_parseChecked hdefinitions
  unfold Document.parse at hread
  split at hread <;> cases hread
  next hread => exact Language.parse_ensures body_written document_written (by simp) hread d hd f hfd

end Fragment

end FragmentShapes
