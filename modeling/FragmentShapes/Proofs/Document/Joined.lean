import FragmentShapes.Proofs.Document.Language
import FragmentShapes.Proofs.Document.Lines
import FragmentShapes.Proofs.Document.Names
import FragmentShapes.Proofs.Fragment.Document
import FragmentShapes.Proofs.Schema.Document
import FragmentShapes.Proofs.Token.Layout

/-!
# Documents one behind the other

A document is a row of definitions, and none of them can be absorbed by the end of the one in front of
it, neither its characters, if a new line begins between them, nor its tokens, since a document is read in
one way only. So two documents that can be read make one that can be read, with the definitions of both.
A block is an exception: what opens it in the first document could be closed by the second.

The main statement is `Document.joined_documents`.
-/

namespace FragmentShapes

open Token (Located)

/-! ## Tokens -/

namespace Token

/-- The line on which a text begins decides on the lines of its tokens only. -/
theorem lexFrom_sameTokens (line line' : Nat) (cs : List Char) :
    SameTokens (lexFrom line cs).tokens (lexFrom line' cs).tokens ∧
      ((lexFrom line cs).fault = none → (lexFrom line' cs).fault = none) := by
  fun_induction lexFrom line cs generalizing line' with
  | case1 line cs hscan =>
    rw [lexFrom_of_none hscan]
    refine ⟨.nil, fun h => ?_⟩
    cases cs with
    | nil => rfl
    | cons c cs => cases h
  | case2 line cs s hscan hlt next t hmeaning ih =>
    rw [lexFrom_of_token hscan hmeaning]
    obtain ⟨htokens, hfault⟩ := ih (line' + s.lexeme.count '\n')
    exact ⟨.cons rfl htokens, hfault⟩
  | case3 line cs s hscan hlt next hmeaning ih =>
    rw [lexFrom_of_nothing hscan hmeaning]
    exact ih _
  | case4 line cs s hscan hlt digits hmeaning =>
    rw [lexFrom_of_scan hscan, hmeaning]
    exact ⟨.nil, fun h => absurd h (Option.some_ne_none _)⟩
  | case5 line cs s hscan hlt o hmeaning =>
    rw [lexFrom_of_scan hscan, hmeaning]
    exact ⟨.nil, fun h => absurd h (Option.some_ne_none _)⟩

/-- Two texts with a new line between them have the tokens of the first and then those of the second. -/
theorem lex_joined {first second : String} {front back : List Located}
    (hblock : ¬['"', '"', '"'] <:+: first.toList) (hfirst : lex first = ⟨front, none⟩)
    (hsecond : lex second = ⟨back, none⟩) :
    ∃ back', SameTokens back back' ∧ lex (first ++ "\n" ++ second) = ⟨front ++ back', none⟩ := by
  have hfront := reads_of_fault_eq_none (congrArg Stream.fault hfirst)
  have hbehind := hfront.append hblock second.toList
  have hnewline (line : Nat) : Reads ⟨line, '\n' :: second.toList⟩ [] ⟨line + 1, second.toList⟩ :=
    .nothing (scan_separator (by decide) _) rfl (.refl _)
  have hlex := (hbehind.trans (hnewline _)).lexFrom_eq
  obtain ⟨htokens, hfault⟩ := lexFrom_sameTokens 1 (1 + first.toList.count '\n' + 1) second.toList
  rw [← lex, hsecond] at htokens hfault
  rw [hfault rfl, ← lex, hfirst, List.append_nil] at hlex
  refine ⟨_, htokens, ?_⟩
  rw [lex, String.toList_append, String.toList_append, List.append_assoc]
  exact hlex

end Token

/-! ## Phrases -/

theorem Reading.Star.append {E α : Type} {m : Reading E α} {front back : List Located} {as bs : List α}
    {before behind : List E} (h : Star m front as before) (h' : Star m back bs behind) :
    Star m (front ++ back) (as ++ bs) (before ++ behind) := by
  induction h with
  | nil => exact h'
  | cons first rest ih =>
    rw [List.append_assoc, List.append_assoc]
    exact .cons first ih

namespace Document

variable {α : Type} {g : Phrase α} {faults : List α → List Fault} {same : List α → List α → Prop}
  {front back back' : List Located} {as bs : List α}

theorem fault_eq_none_of_parseChecked {β : Type} {start : Phrase β} {faults : β → List Fault}
    {stream : Token.Stream} {b : β} (h : parseChecked start faults stream = .ok b) :
    stream.fault = none := by
  have hparse := parse_of_parseChecked h
  unfold parse at hparse
  split at hparse
  · cases hparse
  · cases hparse
  · cases hparse
  · next hfault => exact hfault

/-- What can be read on its own can be read behind something else that can. -/
theorem parseChecked_append (hdecided : g.many.isDecided rulePreview false = true)
    (hsame : g.many.Agree same)
    (hfaults : ∀ as bs, same as bs → (faults as).map Fault.unplaced = (faults bs).map Fault.unplaced)
    (happend : ∀ as bs, faults (as ++ bs) = faults as ++ faults bs) (hback : SameTokens back back')
    (hfirst : parseChecked g.many faults ⟨front, none⟩ = .ok as)
    (hsecond : parseChecked g.many faults ⟨back, none⟩ = .ok bs) :
    ∃ bs', same bs bs' ∧ parseChecked g.many faults ⟨front ++ back', none⟩ = .ok (as ++ bs') := by
  have hlater := parseChecked_alike hsame hfaults hback
  rw [hsecond] at hlater
  generalize hback' : parseChecked g.many faults ⟨back', none⟩ = outcome at hlater
  cases hlater with
  | @ok _ bs' hbs =>
    rw [parseChecked_eq_ok_iff] at hfirst hback'
    rw [Language.parse_eq_ok_iff language_isForeseen hdecided] at hfirst hback'
    refine ⟨bs', hbs, ?_⟩
    rw [parseChecked_eq_ok_iff, Language.parse_eq_ok_iff language_isForeseen hdecided, happend,
      hfirst.2, hback'.2]
    exact ⟨Reading.Star.append hfirst.1 hback'.1, rfl⟩

/-- The same for texts with a new line between them. -/
theorem parseChecked_joined {first second : String} (hblock : ¬['"', '"', '"'] <:+: first.toList)
    (hdecided : g.many.isDecided rulePreview false = true) (hsame : g.many.Agree same)
    (hfaults : ∀ as bs, same as bs → (faults as).map Fault.unplaced = (faults bs).map Fault.unplaced)
    (happend : ∀ as bs, faults (as ++ bs) = faults as ++ faults bs)
    (hfirst : parseChecked g.many faults (Token.lex first) = .ok as)
    (hsecond : parseChecked g.many faults (Token.lex second) = .ok bs) :
    ∃ bs', same bs bs' ∧
      parseChecked g.many faults (Token.lex (first ++ "\n" ++ second)) = .ok (as ++ bs') := by
  have hfront := fault_eq_none_of_parseChecked hfirst
  have hback := fault_eq_none_of_parseChecked hsecond
  generalize hlex : Token.lex first = front at hfirst hfront
  generalize hlex' : Token.lex second = back at hsecond hback
  obtain ⟨front, fault⟩ := front
  obtain ⟨back, fault'⟩ := back
  obtain rfl : fault = none := hfront
  obtain rfl : fault' = none := hback
  obtain ⟨back', htokens, hjoined⟩ := Token.lex_joined hblock hlex hlex'
  rw [hjoined]
  exact parseChecked_append hdecided hsame hfaults happend htokens hfirst hsecond

end Document

/-! ## Fragment documents -/

theorem Fragment.parseDocument_joined {first second : String}
    (hblock : ¬['"', '"', '"'] <:+: first.toList) {fs gs : List Fragment}
    (hfirst : Fragment.parseDocument first = .ok fs) (hsecond : Fragment.parseDocument second = .ok gs) :
    Fragment.parseDocument (first ++ "\n" ++ second) = .ok (fs ++ gs) := by
  obtain ⟨ds, hds, hfs⟩ := exists_of_bind_eq_ok hfirst
  obtain ⟨es, hes, hgs⟩ := exists_of_bind_eq_ok hsecond
  obtain rfl := Except.ok.inj hfs
  obtain rfl := Except.ok.inj hgs
  obtain ⟨es', hsame, hjoined⟩ := Document.parseChecked_joined hblock Fragment.starts_document.decided
    Fragment.agree_document (fun _ _ => Fragment.faults_alike) (fun _ _ => List.filterMap_append) hds hes
  have hfragments : es'.filterMap Fragment.Definition.fragment? =
      es.filterMap Fragment.Definition.fragment? := by
    rw [← Fragment.filterMap_fragment_unplaced, ← hsame, Fragment.filterMap_fragment_unplaced]
  have hchecked : Document.parseChecked Fragment.document (·.filterMap Fragment.Definition.fault?)
      (Token.lex (first ++ "\n" ++ second)) = .ok (ds ++ es') := hjoined
  rw [Fragment.parseDocument, Fragment.ofTokens, hchecked, ← hfragments, ← List.filterMap_append]
  rfl

/-! ## Schema documents -/

namespace Schema

/-- Adds the definitions of documents in order, up to the first document that fails. -/
def loadAll (s : Schema) : List String → Schema × Option Error
  | [] => (s, none)
  | text :: texts =>
    match s.load text with
    | (s, none) => s.loadAll texts
    | (s, some e) => (s, some e)

theorem applyAll_append (s : Schema) (ds es : List Definition) :
    s.applyAll (ds ++ es) = match s.applyAll ds with
      | (s, none) => s.applyAll es
      | (s, some e) => (s, some e) := by
  induction ds generalizing s with
  | nil => rfl
  | cons d ds ih =>
    rw [List.cons_append, applyAll, applyAll]
    cases s.apply d with
    | ok s => exact ih s
    | error e => rfl

theorem load_joined {first second : String} (hblock : ¬['"', '"', '"'] <:+: first.toList)
    {ds es : List Definition} (hfirst : parseDocument first = .ok ds)
    (hsecond : parseDocument second = .ok es) (s : Schema) :
    s.load (first ++ "\n" ++ second) = s.loadAll [first, second] := by
  obtain ⟨es', hsame, hjoined⟩ := Document.parseChecked_joined hblock starts_document.decided
    agree_document (fun _ _ => faults_alike) (fun _ _ => List.flatMap_append) hfirst hsecond
  have hparse : parseDocument (first ++ "\n" ++ second) = .ok (ds ++ es') := hjoined
  have happly (s : Schema) : s.applyAll es' = s.applyAll es := by
    rw [← applyAll_unplaced, ← hsame, applyAll_unplaced]
  simp only [loadAll, load, hparse, hfirst, hsecond, applyAll_append, happly]
  cases hds : s.applyAll ds with
  | mk middle error =>
    cases error with
    | some e => rfl
    | none =>
      cases hes : middle.applyAll es with
      | mk last error =>
        cases error with
        | some e => simp only [hes]
        | none => simp only [hes]

end Schema

/-! ## Both kinds of documents -/

namespace Document

/-- Two documents that can be read, with a new line between them, are one that can be read, and nothing is
lost or added: the fragments are those of both, and a schema takes the definitions in the same order, up
to the same one that fails. -/
theorem joined_documents {first second : String} (hblock : ¬['"', '"', '"'] <:+: first.toList) :
    (∀ fs gs, Fragment.parseDocument first = .ok fs → Fragment.parseDocument second = .ok gs →
      Fragment.parseDocument (first ++ "\n" ++ second) = .ok (fs ++ gs)) ∧
    (∀ ds es, Schema.parseDocument first = .ok ds → Schema.parseDocument second = .ok es →
      ∀ s : Schema, s.load (first ++ "\n" ++ second) = s.loadAll [first, second]) := by
  constructor
  · intro fs gs hfirst hsecond
    exact Fragment.parseDocument_joined hblock hfirst hsecond
  · intro ds es hfirst hsecond
    exact Schema.load_joined hblock hfirst hsecond

/-- Documents that end in a comment: with a quote in it, and where another interface could have followed. -/
theorem joined_documents_commented :
    Fragment.parseDocument
        ("fragment F on T \x7b a(s: \"\") \x7d # \"\"" ++ "\n" ++ "fragment G on T \x7b b \x7d") =
      .ok [⟨"F", "T", [.field ⟨"a", [("s", .string "")], none, none⟩ []]⟩,
        ⟨"G", "T", [.field ⟨"b", [], none, none⟩ []]⟩] ∧
      Schema.initial.load ("type A implements B # &" ++ "\n" ++ "union C = A type A") =
        Schema.initial.loadAll ["type A implements B # &", "union C = A type A"] :=
  ⟨(@joined_documents "fragment F on T \x7b a(s: \"\") \x7d # \"\"" "fragment G on T \x7b b \x7d"
      (by decide +kernel)).1 [⟨"F", "T", [.field ⟨"a", [("s", .string "")], none, none⟩ []]⟩]
      [⟨"G", "T", [.field ⟨"b", [], none, none⟩ []]⟩] (by decide +kernel) (by decide +kernel),
    (@joined_documents "type A implements B # &" "union C = A type A" (by decide +kernel)).2
      [.type ⟨"A", none, .object ["B"] []⟩ 0]
      [.type ⟨"C", none, .union ["A"]⟩ 0, .type ⟨"A", none, .object [] []⟩ 0] (by decide +kernel) (by decide +kernel) _⟩

end Document

end FragmentShapes
