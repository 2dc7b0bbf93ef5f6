import FragmentShapes.Proofs.Token.Spelling
import Mathlib.Algebra.Group.Nat.Defs

/-!
# Layouts

A layout writes tokens one after another, each in its plainest spelling, and decides what stands
between them: blanks, commas, ends of lines and comments, in any number. A comment may hold quotes, and a
quoted text the sign of a comment.

The main statement is `Layout.lex_text`: a text that is laid out has just the tokens that were written,
each on its line. An integer with more digits than are read is not among them (`lex_overlong`).
-/

namespace FragmentShapes.Token

/-- What may part tokens: separators, and comments up to the end of their line. -/
inductive IsGap : List Char → Prop where
  | nil : IsGap []
  | separator {c : Char} {gap : List Char} (hc : c ∈ [' ', '\t', '\r', ',', '\n']) (more : IsGap gap) :
    IsGap (c :: gap)
  | comment {body gap : List Char} (hbody : '\n' ∉ body) (more : IsGap gap) :
    IsGap ('#' :: (body ++ '\n' :: gap))

/-- A token that has a spelling, and what parts it from the next. -/
structure Piece where
  token : Token
  gap : List Char
  hasSpelling : token.HasSpelling
  isGap : IsGap gap

def Piece.chars (p : Piece) : List Char := p.token.spelling.toList ++ p.gap

/-- There is something behind each piece but the last. -/
def Parted (pieces : List Piece) : Prop := ∀ p ∈ pieces.dropLast, p.gap ≠ []

/-- Tokens with something between any two of them, and perhaps something in front. -/
structure Layout where
  lead : List Char
  pieces : List Piece
  isGap_lead : IsGap lead
  parted : Parted pieces

namespace Layout

def tokens (l : Layout) : List Token := l.pieces.map (·.token)

def text (l : Layout) : String := String.ofList (l.lead ++ l.pieces.flatMap Piece.chars)

/-- The tokens, each on the line that the ends of lines in front of it make. -/
def located (l : Layout) : List Located :=
  l.pieces.mapIdx fun i p =>
    ⟨p.token, 1 + (l.lead ++ (l.pieces.take i).flatMap Piece.chars).count '\n'⟩

end Layout

section

variable {gap rest : List Char}

theorem isSeparator_of_mem {c : Char} (hc : c ∈ [' ', '\t', '\r', ',', '\n']) : isSeparator c = true := by
  have hall : ∀ d ∈ [' ', '\t', '\r', ',', '\n'], isSeparator d = true := by
    rw [← List.forall_iff_forall_mem]
    decide
  exact hall c hc

theorem scan_separator {c : Char} (hc : c ∈ [' ', '\t', '\r', ',', '\n']) (cs : List Char) :
    scan (c :: cs) = some ⟨[c], .nothing, cs⟩ := by
  have hplain : ∀ d ∈ [' ', '\t', '\r', ',', '\n'], d ∉ ['"', '$', '#', '.'] := by
    rw [← List.forall_iff_forall_mem]
    decide
  rw [scan_plain (hplain c hc), scanPlain, if_pos (isSeparator_of_mem hc)]

theorem scan_comment {body : List Char} (hbody : '\n' ∉ body) (cs : List Char) :
    scan ('#' :: (body ++ '\n' :: cs)) = some ⟨'#' :: body, .nothing, '\n' :: cs⟩ := by
  have hstop : ∀ c ∈ ('\n' :: cs).head?, (c != '\n') = false := by simp
  have hall : ∀ c ∈ body, (c != '\n') = true := by
    intro c hc
    rw [bne_iff_ne]
    rintro rfl
    exact hbody hc
  rw [scan, takeWhile_append_stop hstop, dropWhile_append_stop hstop, List.takeWhile_eq_self_iff.2 hall,
    List.dropWhile_eq_nil_iff.2 hall, List.nil_append]

theorem Reads.line_of_append {line last : Nat} {cs : List Char} {tokens : List Located}
    (h : Reads ⟨line, cs ++ rest⟩ tokens ⟨last, rest⟩) : last = line + cs.count '\n' := by
  have hline : last + rest.count '\n' = line + (cs ++ rest).count '\n' := h.line_eq
  rw [List.count_append] at hline
  omega

/-- Between tokens nothing is read but lines. -/
theorem IsGap.reads (h : IsGap gap) (line : Nat) (rest : List Char) :
    Reads ⟨line, gap ++ rest⟩ [] ⟨line + gap.count '\n', rest⟩ := by
  have hreads : ∃ last, Reads ⟨line, gap ++ rest⟩ [] ⟨last, rest⟩ := by
    induction h generalizing line with
    | nil => exact ⟨line, .refl _⟩
    | @separator c gap hc more ih =>
      obtain ⟨last, hmore⟩ := ih (line + [c].count '\n')
      exact ⟨last, .nothing (scan_separator hc _) rfl hmore⟩
    | @comment body gap hbody more ih =>
      obtain ⟨last, hmore⟩ := ih (line + ('#' :: body).count '\n' + ['\n'].count '\n')
      rw [List.cons_append, List.append_assoc, List.cons_append]
      exact ⟨last, .nothing (scan_comment hbody _) rfl (.nothing (scan_separator (by decide) _) rfl hmore)⟩
  obtain ⟨last, hreads⟩ := hreads
  rw [← hreads.line_of_append]
  exact hreads

theorem IsGap.atBoundary (h : IsGap gap) (hne : gap ≠ []) (rest : List Char) :
    AtBoundary (gap ++ rest) := by
  intro c hc
  cases h with
  | nil => exact absurd rfl hne
  | @separator d gap hd more =>
    obtain rfl := Option.some.inj hc
    have hall : ∀ e ∈ [' ', '\t', '\r', ',', '\n'], Text.isAsciiNamePart e = false ∧
        Text.isDecimalDigit e = false ∧ e ∉ ['.', '"', '+', '-'] := by
      rw [← List.forall_iff_forall_mem]
      decide
    exact hall d hd
  | comment hbody more =>
    obtain rfl := Option.some.inj hc
    decide

/-- No piece goes on into what is behind it, the last with `rest` behind it. -/
def Fits : List Piece → List Char → Prop
  | [], _ => True
  | p :: pieces, rest => AtBoundary (p.gap ++ (pieces.flatMap Piece.chars ++ rest)) ∧ Fits pieces rest

variable {p : Piece} {pieces : List Piece}

theorem Parted.fits (h : Parted pieces) : Fits pieces [] := by
  induction pieces with
  | nil => trivial
  | cons p pieces ih =>
    cases pieces with
    | nil =>
      refine ⟨?_, trivial⟩
      by_cases hgap : p.gap = []
      · rw [hgap]
        exact .nil
      · exact p.isGap.atBoundary hgap _
    | cons q pieces =>
      refine ⟨p.isGap.atBoundary (h p List.mem_cons_self) _, ih fun r hr => ?_⟩
      exact h r (List.mem_cons_of_mem p hr)

/-- A piece in front of others is read as its token. -/
theorem Fits.reads_head (h : Fits (p :: pieces) rest) (line : Nat) :
    Reads ⟨line, (p :: pieces).flatMap Piece.chars ++ rest⟩ [⟨p.token, line⟩]
      ⟨line + p.chars.count '\n', pieces.flatMap Piece.chars ++ rest⟩ := by
  rw [List.flatMap_cons, Piece.chars, List.append_assoc, List.append_assoc, List.count_append,
    ← Nat.add_assoc]
  exact .token (scan_spelling_append p.hasSpelling h.1) rfl (p.isGap.reads _ _)

/-- Pieces are read as their tokens, each on the line that the pieces in front of it make. -/
theorem Fits.reads (h : Fits pieces rest) (line : Nat) :
    Reads ⟨line, pieces.flatMap Piece.chars ++ rest⟩
      (pieces.mapIdx fun i p => ⟨p.token, line + ((pieces.take i).flatMap Piece.chars).count '\n'⟩)
      ⟨line + (pieces.flatMap Piece.chars).count '\n', rest⟩ := by
  induction pieces generalizing line with
  | nil => exact .refl _
  | cons p pieces ih =>
    have hmore := ih h.2 (line + p.chars.count '\n')
    simp only [Nat.add_assoc, ← List.count_append, ← List.flatMap_cons, ← List.take_succ_cons] at hmore
    rw [List.mapIdx_cons]
    exact (h.reads_head line).trans hmore

end

/-- Reading undoes writing, whatever the layout. -/
theorem Layout.lex_text (l : Layout) : lex l.text = ⟨l.located, none⟩ := by
  have hlead := l.isGap_lead.reads 1 (l.pieces.flatMap Piece.chars)
  have hpieces := l.parted.fits.reads (1 + l.lead.count '\n')
  simp only [Nat.add_assoc, ← List.count_append, List.append_nil] at hpieces
  rw [lex, text, String.toList_ofList]
  exact (hlead.trans hpieces).lexFrom_end

/-- The layout with the same gap behind all tokens. -/
def Layout.spaced (gap : List Char) (hgap : IsGap gap) (hne : gap ≠ []) (tokens : List Token)
    (h : ∀ t ∈ tokens, t.HasSpelling) : Layout where
  lead := []
  pieces := tokens.pmap (fun t ht => ⟨t, gap, ht, hgap⟩) h
  isGap_lead := .nil
  parted p hp := by
    obtain ⟨t, ht, rfl⟩ := List.mem_pmap.1 (List.dropLast_subset _ hp)
    exact hne

/-- Any tokens with spellings can be laid out, with any gap between them. -/
theorem Layout.tokens_spaced {gap : List Char} (hgap : IsGap gap) (hne : gap ≠ []) {tokens : List Token}
    (h : ∀ t ∈ tokens, t.HasSpelling) : (spaced gap hgap hne tokens h).tokens = tokens := by
  rw [Layout.tokens, spaced, List.map_pmap, List.pmap_eq_map, List.map_id']

theorem Layout.text_spaced {gap : List Char} (hgap : IsGap gap) (hne : gap ≠ []) {tokens : List Token}
    (h : ∀ t ∈ tokens, t.HasSpelling) :
    (spaced gap hgap hne tokens h).text =
      String.ofList (tokens.flatMap fun t => t.spelling.toList ++ gap) := by
  have hchars : (spaced gap hgap hne tokens h).pieces.map Piece.chars =
      tokens.map fun t => t.spelling.toList ++ gap := by
    simp [spaced, List.map_pmap, Piece.chars]
  rw [Layout.text, List.flatMap_def, hchars, ← List.flatMap_def]
  rfl

/-! ## Words on one line -/

section

variable {rest : List Char}

theorem endsNames_cons {c : Char} (h : Text.isAsciiNamePart c = false) (rest : List Char) :
    EndsNames (c :: rest) := by
  intro d hd
  obtain rfl := Option.some.inj hd
  exact h

/-- A lexeme without an end of a line is one token, on its line. -/
theorem reads_lexeme {word : String} {t : Token} (hline : '\n' ∉ word.toList)
    (hscan : scan (word.toList ++ rest) = some ⟨word.toList, .token t, rest⟩) (line : Nat) :
    Reads ⟨line, word.toList ++ rest⟩ [⟨t, line⟩] ⟨line, rest⟩ := by
  have hbehind := Reads.token (p := ⟨line, word.toList ++ rest⟩) hscan rfl (.refl _)
  rwa [Place.behind, List.count_eq_zero.2 hline] at hbehind

theorem reads_mark (mark : Punctuator) (line : Nat) (rest : List Char) :
    Reads ⟨line, mark.spelling.toList ++ rest⟩ [⟨.punctuator mark, line⟩] ⟨line, rest⟩ := by
  have hline : '\n' ∉ mark.spelling.toList := by cases mark <;> decide
  exact reads_lexeme hline (scan_punctuator mark rest) line

theorem reads_word {word : String} (h : Text.isAsciiName word = true) (hrest : EndsNames rest)
    (line : Nat) :
    Reads ⟨line, word.toList ++ rest⟩ [⟨ofIdentifier word, line⟩] ⟨line, rest⟩ := by
  have hline : '\n' ∉ word.toList := fun hmem =>
    absurd ((Text.isAsciiName_chars h).2 _ hmem) (by decide)
  exact reads_lexeme hline (scan_identifier h hrest) line

theorem reads_name {name : String} (h : (Token.name name).HasSpelling) (hrest : EndsNames rest)
    (line : Nat) : Reads ⟨line, name.toList ++ rest⟩ [⟨.name name, line⟩] ⟨line, rest⟩ := by
  have hname := reads_word h.1 hrest line
  rwa [ofIdentifier, h.2] at hname

theorem endsNames_blank (rest : List Char) : EndsNames (' ' :: rest) := endsNames_cons (by decide) rest

theorem reads_spaced {p q : Place} {tokens more : List Located} {line : Nat}
    (h : Reads p tokens ⟨line, ' ' :: rest⟩) (hmore : Reads ⟨line, rest⟩ more q) :
    Reads p (tokens ++ more) q :=
  h.trans (.nothing (scan_separator (by decide) rest) rfl hmore)

end

/-! ## Integers that are not read -/

/-- An integer with too many digits ends the reading of a text. -/
theorem lex_overlong (value : Int)
    (h : OverlongInteger.limit < (Nat.toDigits 10 value.natAbs).length) :
    lex (spelling (int value)) =
      ⟨[], some (.overlongInteger ⟨(Nat.toDigits 10 value.natAbs).length⟩)⟩ := by
  have hscan := scan_decimal value
  rw [integerMeaning, OverlongInteger.check?, if_pos h] at hscan
  rw [lex, lexFrom_of_scan hscan]

theorem length_toDigits_pow (n : Nat) : (Nat.toDigits 10 (10 ^ n)).length = n + 1 := by
  have hupper : (Nat.toDigits 10 (10 ^ n)).length ≤ n + 1 := by
    rw [Nat.length_toDigits_le_iff (by decide) n.succ_pos]
    exact Nat.pow_lt_pow_right (by decide) n.lt_succ_self
  have hlower : ¬(Nat.toDigits 10 (10 ^ n)).length ≤ n := by
    intro h
    cases n with
    | zero => exact absurd h (by decide)
    | succ n =>
      rw [Nat.length_toDigits_le_iff (by decide) n.succ_pos] at h
      exact lt_irrefl _ h
  omega

/-- The least integer that is not read, although its spelling is decimal. -/
theorem lex_least_overlong :
    lex (spelling (int ((10 ^ OverlongInteger.limit : Nat) : Int))) =
        ⟨[], some (.overlongInteger ⟨4301⟩)⟩ ∧
      lex (spelling (int ((10 ^ OverlongInteger.limit : Nat) : Int))) ≠
        ⟨[⟨int ((10 ^ OverlongInteger.limit : Nat) : Int), 1⟩], none⟩ := by
  have h := lex_overlong ((10 ^ OverlongInteger.limit : Nat) : Int)
  rw [Int.natAbs_natCast, length_toDigits_pow] at h
  have hlex := h (Nat.lt_succ_self _)
  refine ⟨hlex, fun hread => ?_⟩
  cases congrArg Stream.tokens (hlex.symm.trans hread)

end FragmentShapes.Token
