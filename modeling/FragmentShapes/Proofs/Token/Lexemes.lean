import FragmentShapes.Token.Lexer
import Mathlib.Tactic.Common

/-!
# Where reading tokens ends

`Reads` says which tokens stand between two places of a text, lexeme by lexeme, and `Place.fault?` why
reading cannot go on at a place. Places are reached in one way only, and so `stopsAt_of_fault` holds: the
fault of a text is at the first place that has one, behind all tokens that are returned.
-/

namespace FragmentShapes.Token

/-- A place in a text: its line, and the characters from there on. -/
structure Place where
  line : Nat
  rest : List Char

/-- The place behind a lexeme. -/
def Place.behind (p : Place) (s : Scan) : Place := ⟨p.line + s.lexeme.count '\n', s.rest⟩

/-- Why reading cannot go on at a place: no lexeme begins there, or it has no meaning. -/
def Place.fault? (p : Place) : Option LexicalFault :=
  match scan p.rest with
  | none => faultAt p.line p.rest
  | some s =>
    match s.meaning with
    | .badEscape digits => some (.invalidEscape (String.ofList digits) p.line)
    | .overlong o => some (.overlongInteger o)
    | .token _ => none
    | .nothing => none

/-- Lexemes without a fault lead from one place to another, and the tokens are those among them. -/
inductive Reads : Place → List Located → Place → Prop where
  | refl (p : Place) : Reads p [] p
  | token {p q : Place} {s : Scan} {t : Token} {tokens : List Located} (hscan : scan p.rest = some s)
    (hmeaning : s.meaning = .token t) (more : Reads (p.behind s) tokens q) :
    Reads p (⟨t, p.line⟩ :: tokens) q
  | nothing {p q : Place} {s : Scan} {tokens : List Located} (hscan : scan p.rest = some s)
    (hmeaning : s.meaning = .nothing) (more : Reads (p.behind s) tokens q) : Reads p tokens q

/-- The text has the fault behind the tokens, and no other place that is reached has one. -/
def StopsAt (text : String) (tokens : List Located) (fault : LexicalFault) : Prop :=
  ∃ q : Place, q.rest <:+ text.toList ∧ Reads ⟨1, text.toList⟩ tokens q ∧ q.fault? = some fault ∧
    ∀ others q', Reads ⟨1, text.toList⟩ others q' → q'.fault?.isSome → others = tokens ∧ q' = q

section

variable {p q : Place} {s : Scan} {t : Token} {tokens : List Located}

theorem Reads.isSuffix (h : Reads p tokens q) : q.rest <:+ p.rest := by
  induction h with
  | refl p => exact List.suffix_rfl
  | token hscan hmeaning more ih => exact ih.trans ⟨_, scan_append hscan⟩
  | nothing hscan hmeaning more ih => exact ih.trans ⟨_, scan_append hscan⟩

theorem fault?_of_token (hscan : scan p.rest = some s) (hmeaning : s.meaning = .token t) :
    p.fault? = none := by simp [Place.fault?, hscan, hmeaning]

theorem fault?_of_nothing (hscan : scan p.rest = some s) (hmeaning : s.meaning = .nothing) :
    p.fault? = none := by simp [Place.fault?, hscan, hmeaning]

/-- Of the places that are reached from one place, one at most has a fault. -/
theorem Reads.eq_of_fault (h : Reads p tokens q) (hfault : q.fault?.isSome)
    {others : List Located} {q' : Place} (h' : Reads p others q') (hfault' : q'.fault?.isSome) :
    others = tokens ∧ q' = q := by
  -- Where reading goes on there is no fault, so that both go on or both end.
  induction h generalizing others with
  | refl p =>
    cases h' with
    | refl => exact ⟨rfl, rfl⟩
    | token hscan hmeaning => simp [fault?_of_token hscan hmeaning] at hfault
    | nothing hscan hmeaning => simp [fault?_of_nothing hscan hmeaning] at hfault
  | token hscan hmeaning more ih =>
    cases h' with
    | refl => simp [fault?_of_token hscan hmeaning] at hfault'
    | token hscan' hmeaning' more' =>
      obtain rfl := Option.some.inj (hscan.symm.trans hscan')
      obtain rfl := Meaning.token.inj (hmeaning.symm.trans hmeaning')
      obtain ⟨rfl, heq⟩ := ih hfault more'
      exact ⟨rfl, heq⟩
    | nothing hscan' hmeaning' =>
      obtain rfl := Option.some.inj (hscan.symm.trans hscan')
      cases hmeaning.symm.trans hmeaning'
  | nothing hscan hmeaning more ih =>
    cases h' with
    | refl => simp [fault?_of_nothing hscan hmeaning] at hfault'
    | token hscan' hmeaning' =>
      obtain rfl := Option.some.inj (hscan.symm.trans hscan')
      cases hmeaning.symm.trans hmeaning'
    | nothing hscan' hmeaning' more' =>
      obtain rfl := Option.some.inj (hscan.symm.trans hscan')
      exact ih hfault more'

end

/-- Reading ends behind the tokens that are returned, and with the fault of that place. -/
theorem reads_lexFrom (line : Nat) (cs : List Char) :
    ∃ q, Reads ⟨line, cs⟩ (lexFrom line cs).tokens q ∧ q.fault? = (lexFrom line cs).fault := by
  fun_induction lexFrom line cs with
  | case1 line cs hscan => exact ⟨_, .refl _, by simp [Place.fault?, hscan]⟩
  | case2 line cs s hscan hlt next t hmeaning ih =>
    obtain ⟨q, hreads, hfault⟩ := ih
    exact ⟨q, .token hscan hmeaning hreads, hfault⟩
  | case3 line cs s hscan hlt next hmeaning ih =>
    obtain ⟨q, hreads, hfault⟩ := ih
    exact ⟨q, .nothing hscan hmeaning hreads, hfault⟩
  | case4 line cs s hscan hlt digits hmeaning =>
    exact ⟨_, .refl _, by simp [Place.fault?, hscan, hmeaning]⟩
  | case5 line cs s hscan hlt o hmeaning =>
    exact ⟨_, .refl _, by simp [Place.fault?, hscan, hmeaning]⟩

/-- The fault of a text is at the first place that has one. -/
theorem stopsAt_of_fault {text : String} {fault : LexicalFault} (h : (lex text).fault = some fault) :
    StopsAt text (lex text).tokens fault := by
  obtain ⟨q, hreads, hfault⟩ := reads_lexFrom 1 text.toList
  rw [← lex, h] at hfault
  refine ⟨q, hreads.isSuffix, hreads, hfault, fun others q' h' hfault' => ?_⟩
  exact hreads.eq_of_fault (by simp [hfault]) h' hfault'

end FragmentShapes.Token
