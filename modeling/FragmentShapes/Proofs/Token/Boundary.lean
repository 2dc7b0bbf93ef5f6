import FragmentShapes.Proofs.Token.Lexemes
import FragmentShapes.Proofs.TypeRef.Notation

/-!
# Where a lexeme ends

A lexeme is the longest of its class, so that what follows it matters. `AtBoundary` says of a text that
no lexeme in front of it goes on into it, and `scan_append` that a lexeme then reads the same, whether
the text ends behind it or goes on. Two kinds are set apart: a comment, which only the end of a line ends,
and three quotes, which open a block that may be closed far behind.

The main statement is `Reads.append`: what is read from a whole text is read from its front as well, if
a new line begins behind it.
-/

namespace FragmentShapes.Token

/-! ## Reading in steps -/

section

variable {p q r : Place} {tokens more : List Located}

theorem Reads.trans (h : Reads p tokens q) (h' : Reads q more r) : Reads p (tokens ++ more) r := by
  induction h with
  | refl p => exact h'
  | token hscan hmeaning _ ih => exact .token hscan hmeaning (ih h')
  | nothing hscan hmeaning _ ih => exact .nothing hscan hmeaning (ih h')

theorem lexFrom_of_none {cs : List Char} (hscan : scan cs = none) (line : Nat) :
    lexFrom line cs = ⟨[], faultAt line cs⟩ := by
  rw [lexFrom]
  split
  · rfl
  · next s hs => cases hscan.symm.trans hs

theorem lexFrom_of_scan {cs : List Char} {s : Scan} (hscan : scan cs = some s) (line : Nat) :
    lexFrom line cs =
      match s.meaning with
      | .token t => (lexFrom (line + s.lexeme.count '\n') s.rest).cons ⟨t, line⟩
      | .nothing => lexFrom (line + s.lexeme.count '\n') s.rest
      | .badEscape digits => ⟨[], some (.invalidEscape (String.ofList digits) line)⟩
      | .overlong o => ⟨[], some (.overlongInteger o)⟩ := by
  rw [lexFrom]
  split
  · next hnone => cases hscan.symm.trans hnone
  · next s' hs' =>
    obtain rfl := Option.some.inj (hscan.symm.trans hs')
    rfl

theorem lexFrom_of_token {line : Nat} {cs : List Char} {s : Scan} {t : Token} (hscan : scan cs = some s)
    (hmeaning : s.meaning = .token t) :
    lexFrom line cs = (lexFrom (line + s.lexeme.count '\n') s.rest).cons ⟨t, line⟩ := by
  rw [lexFrom_of_scan hscan, hmeaning]

theorem lexFrom_of_nothing {line : Nat} {cs : List Char} {s : Scan} (hscan : scan cs = some s)
    (hmeaning : s.meaning = .nothing) :
    lexFrom line cs = lexFrom (line + s.lexeme.count '\n') s.rest := by
  rw [lexFrom_of_scan hscan, hmeaning]

/-- From one place on, the tokens are those up to another place and those from there on. -/
theorem Reads.lexFrom_eq (h : Reads p tokens q) :
    lexFrom p.line p.rest =
      ⟨tokens ++ (lexFrom q.line q.rest).tokens, (lexFrom q.line q.rest).fault⟩ := by
  induction h with
  | refl p => rfl
  | token hscan hmeaning _ ih =>
    rw [lexFrom_of_token hscan hmeaning]
    exact congrArg (Stream.cons _) ih
  | nothing hscan hmeaning _ ih =>
    rw [lexFrom_of_nothing hscan hmeaning]
    exact ih

theorem lexFrom_nil (line : Nat) : lexFrom line [] = ⟨[], none⟩ := by
  rw [lexFrom]
  rfl

/-- What is read up to the end of a text. -/
theorem Reads.lexFrom_end {line : Nat} (h : Reads p tokens ⟨line, []⟩) :
    lexFrom p.line p.rest = ⟨tokens, none⟩ := by
  rw [h.lexFrom_eq, lexFrom_nil, List.append_nil]

theorem isSuffix_behind {s : Scan} (h : scan p.rest = some s) : (p.behind s).rest <:+ p.rest :=
  ⟨s.lexeme, scan_append h⟩

theorem count_rest {cs : List Char} {s : Scan} (h : scan cs = some s) :
    s.lexeme.count '\n' + s.rest.count '\n' = cs.count '\n' := by
  rw [← List.count_append, scan_append h]

/-- Lines are counted by their ends. -/
theorem Reads.line_eq (h : Reads p tokens q) : q.line + q.rest.count '\n' = p.line + p.rest.count '\n' := by
  induction h with
  | refl p => rfl
  | token hscan _ _ ih =>
    have hcount := count_rest hscan
    simp only [Place.behind] at ih
    omega
  | nothing hscan _ _ ih =>
    have hcount := count_rest hscan
    simp only [Place.behind] at ih
    omega

/-- A text without a fault is read to its end. -/
theorem reads_of_fault_eq_none {line : Nat} {cs : List Char} (h : (lexFrom line cs).fault = none) :
    Reads ⟨line, cs⟩ (lexFrom line cs).tokens ⟨line + cs.count '\n', []⟩ := by
  have hend : ∃ last, Reads ⟨line, cs⟩ (lexFrom line cs).tokens ⟨last, []⟩ := by
    fun_induction lexFrom line cs with
    | case1 line cs hscan =>
      cases cs with
      | nil => exact ⟨line, .refl _⟩
      | cons c cs => cases h
    | case2 line cs s hscan hlt next t hmeaning ih =>
      obtain ⟨last, hreads⟩ := ih h
      exact ⟨last, .token hscan hmeaning hreads⟩
    | case3 line cs s hscan hlt next hmeaning ih =>
      obtain ⟨last, hreads⟩ := ih h
      exact ⟨last, .nothing hscan hmeaning hreads⟩
    | case4 line cs s hscan hlt digits hmeaning => cases h
    | case5 line cs s hscan hlt o hmeaning => cases h
  obtain ⟨last, hreads⟩ := hend
  obtain rfl : last = line + cs.count '\n' := by simpa using hreads.line_eq
  exact hreads

end

/-! ## Boundaries -/

/-- No name can go on into the text. -/
def EndsNames (rest : List Char) : Prop := ∀ c ∈ rest.head?, Text.isAsciiNamePart c = false

/-- No lexeme can go on into the text: it begins neither with a part of a name or number nor with a
quote. -/
def AtBoundary (rest : List Char) : Prop :=
  ∀ c ∈ rest.head?, Text.isAsciiNamePart c = false ∧ Text.isDecimalDigit c = false ∧
    c ∉ ['.', '"', '+', '-']

section

variable {cs rest : List Char}

theorem AtBoundary.nil : AtBoundary [] := fun c hc => by cases hc

theorem AtBoundary.not_name (h : AtBoundary rest) : EndsNames rest := fun c hc => (h c hc).1

theorem AtBoundary.not_digit (h : AtBoundary rest) :
    ∀ c ∈ rest.head?, Text.isDecimalDigit c = false := fun c hc => (h c hc).2.1

theorem AtBoundary.head_ne (h : AtBoundary rest) {c : Char} (hc : c ∈ ['.', '"', '+', '-'])
    (cs : List Char) : rest ≠ c :: cs := by
  rintro rfl
  exact (h c rfl).2.2 hc

theorem takeWhile_append_stop {p : Char → Bool} (hrest : ∀ c ∈ rest.head?, p c = false)
    (cs : List Char) : (cs ++ rest).takeWhile p = cs.takeWhile p := by
  induction cs with
  | nil =>
    cases rest with
    | nil => rfl
    | cons c rest => simp [hrest c rfl]
  | cons c cs ih =>
    rw [List.cons_append, List.takeWhile_cons, List.takeWhile_cons, ih]

theorem dropWhile_append_stop {p : Char → Bool} (hrest : ∀ c ∈ rest.head?, p c = false)
    (cs : List Char) : (cs ++ rest).dropWhile p = cs.dropWhile p ++ rest := by
  induction cs with
  | nil =>
    cases rest with
    | nil => rfl
    | cons c rest => simp [hrest c rfl]
  | cons c cs ih =>
    rw [List.cons_append, List.dropWhile_cons, List.dropWhile_cons, ih]
    split
    · rfl
    · rfl

/-! ## Lexemes and what follows them -/

/-- The same scan of a text that goes on. -/
def Scan.followedBy (s : Scan) (rest : List Char) : Scan := { s with rest := s.rest ++ rest }

theorem stringBody_followedBy (rest : List Char) :
    ∀ {body tail : List Char}, stringBody cs = some (body, tail) →
      stringBody (cs ++ rest) = some (body, tail ++ rest) := by
  fun_induction stringBody cs with
  | case1 => intro body tail h; cases h
  | case2 cs =>
    intro body tail h
    cases h
    simp [stringBody]
  | case3 => intro body tail h; cases h
  | case4 c cs hc ih =>
    intro body tail h
    obtain ⟨⟨inner, last⟩, hinner, hpair⟩ := Option.map_eq_some_iff.1 h
    cases hpair
    simp [stringBody, hc, ih hinner]
  | case5 => intro body tail h; cases h
  | case6 c cs hquote hescape hc ih =>
    intro body tail h
    obtain ⟨⟨inner, last⟩, hinner, hpair⟩ := Option.map_eq_some_iff.1 h
    cases hpair
    rw [not_or] at hc
    have hne : c ≠ '"' := fun h => hquote h
    rw [List.cons_append, stringBody]
    · simp [hc, ih hinner]
    · exact hne
    · exact fun d ds h _ => hc.2 h

theorem scanString_followedBy {s : Scan} (h : scanString cs = some s) (rest : List Char) :
    scanString (cs ++ rest) = some (s.followedBy rest) := by
  obtain ⟨⟨body, tail⟩, hbody, rfl⟩ := Option.map_eq_some_iff.1 h
  rw [scanString, stringBody_followedBy rest hbody]
  rfl

theorem scanQuoted_eq_scanString (h : ¬['"', '"'] <+: cs) : scanQuoted cs = scanString cs := by
  unfold scanQuoted
  split
  · next cs => exact absurd ⟨cs, rfl⟩ h
  · rfl

/-- A string stays one unless a third quote turns its first two into the opening of a block. -/
theorem scanQuoted_followedBy {s : Scan} (h : scanQuoted cs = some s) (hblock : ¬['"', '"'] <+: cs)
    (hrest : AtBoundary rest) : scanQuoted (cs ++ rest) = some (s.followedBy rest) := by
  rw [scanQuoted_eq_scanString hblock] at h
  have hlonger : ¬['"', '"'] <+: cs ++ rest := by
    match cs with
    | [] => cases h
    | [c] =>
      rintro ⟨others, heq⟩
      exact hrest.head_ne (by simp) others (List.cons.inj heq).2.symm
    | c :: d :: cs =>
      rintro ⟨others, heq⟩
      have htail := (List.cons.inj heq).2
      obtain rfl := (List.cons.inj heq).1
      obtain rfl := (List.cons.inj htail).1
      exact hblock ⟨cs, rfl⟩
  rw [scanQuoted_eq_scanString hlonger]
  exact scanString_followedBy h rest

/-- The same part of a number in a text that goes on. -/
def NumberPart.followedBy (p : NumberPart) (rest : List Char) : NumberPart :=
  { p with rest := p.rest ++ rest }

theorem fractionPart_followedBy (hrest : AtBoundary rest) (cs : List Char) :
    fractionPart? (cs ++ rest) = (fractionPart? cs).map (·.followedBy rest) := by
  match cs with
  | [] =>
    rw [List.nil_append, fractionPart?]
    · rfl
    · exact hrest.head_ne (by simp)
  | c :: cs =>
    by_cases hc : c = '.'
    · subst hc
      simp only [List.cons_append, fractionPart?, takeWhile_append_stop hrest.not_digit,
        dropWhile_append_stop hrest.not_digit]
      split
      · rfl
      · rfl
    · rw [List.cons_append, fractionPart?, fractionPart?]
      · rfl
      · exact fun ds h => hc (List.cons.inj h).1
      · exact fun ds h => hc (List.cons.inj h).1

theorem exponentSign_followedBy (hrest : AtBoundary rest) (cs : List Char) :
    exponentSign (cs ++ rest) = ((exponentSign cs).1, (exponentSign cs).2 ++ rest) := by
  match cs with
  | [] =>
    rw [List.nil_append, exponentSign]
    · rfl
    · exact hrest.head_ne (by simp)
    · exact hrest.head_ne (by simp)
  | c :: cs =>
    unfold exponentSign
    split
    · next h => cases h; rfl
    · next h => cases h; rfl
    · next hplus hminus =>
      split
      · next h => cases h; exact absurd rfl (hplus _)
      · next h => cases h; exact absurd rfl (hminus _)
      · rfl

theorem exponentPart_followedBy (hrest : AtBoundary rest) (cs : List Char) :
    exponentPart? (cs ++ rest) = (exponentPart? cs).map (·.followedBy rest) := by
  match cs with
  | [] =>
    match rest with
    | [] => rfl
    | c :: rest =>
      have hname := hrest.not_name c rfl
      have hne : ¬(c = 'e' ∨ c = 'E') := by
        rintro (rfl | rfl)
        · exact absurd hname (by decide)
        · exact absurd hname (by decide)
      simp [exponentPart?, hne]
  | c :: cs =>
    simp only [List.cons_append, exponentPart?, exponentSign_followedBy hrest,
      takeWhile_append_stop hrest.not_digit, dropWhile_append_stop hrest.not_digit]
    split
    · split
      · rfl
      · rfl
    · rfl

/-- A part of a number that need not be there, in front of a text. -/
def optionalPart (part? : List Char → Option NumberPart) (cs : List Char) : NumberPart :=
  (part? cs).getD ⟨[], [], cs⟩

theorem optionalPart_followedBy {part? : List Char → Option NumberPart}
    (h : part? (cs ++ rest) = (part? cs).map (·.followedBy rest)) :
    optionalPart part? (cs ++ rest) = (optionalPart part? cs).followedBy rest := by
  rw [optionalPart, optionalPart, h]
  cases part? cs with
  | none => rfl
  | some p => rfl

/-- The number of a whole part, a fraction and an exponent. -/
def numberScan (negative : Bool) (whole : List Char) (fraction exponent : NumberPart) : Scan where
  lexeme := whole ++ (fraction.lexeme ++ exponent.lexeme)
  meaning :=
    if fraction.lexeme.isEmpty && exponent.lexeme.isEmpty then integerMeaning negative whole
    else
      .token (float (.ofDecimal negative (Text.decimalValue (whole ++ fraction.digits))
        (exponent.exponent - Int.ofNat fraction.digits.length)))
  rest := exponent.rest

theorem scanUnsigned_eq (negative : Bool) (cs : List Char) :
    scanUnsigned negative cs =
      if cs.takeWhile Text.isDecimalDigit = [] then none
      else
        let fraction := optionalPart fractionPart? (cs.dropWhile Text.isDecimalDigit)
        some (numberScan negative (cs.takeWhile Text.isDecimalDigit) fraction
          (optionalPart exponentPart? fraction.rest)) := rfl

theorem scanUnsigned_followedBy {negative : Bool} {s : Scan} (h : scanUnsigned negative cs = some s)
    (hrest : AtBoundary rest) : scanUnsigned negative (cs ++ rest) = some (s.followedBy rest) := by
  rw [scanUnsigned_eq] at h ⊢
  rw [takeWhile_append_stop hrest.not_digit, dropWhile_append_stop hrest.not_digit,
    optionalPart_followedBy (fractionPart_followedBy hrest _)]
  split_ifs at h ⊢
  obtain rfl := Option.some.inj h
  simp only [NumberPart.followedBy]
  rw [optionalPart_followedBy (exponentPart_followedBy hrest _)]
  rfl

theorem scanNumber_followedBy {s : Scan} (h : scanNumber cs = some s) (hrest : AtBoundary rest) :
    scanNumber (cs ++ rest) = some (s.followedBy rest) := by
  match cs with
  | [] => cases h
  | c :: cs =>
    by_cases hc : c = '-'
    · subst hc
      obtain ⟨u, hu, rfl⟩ := Option.map_eq_some_iff.1 h
      rw [List.cons_append, scanNumber, scanUnsigned_followedBy hu hrest]
      rfl
    · rw [scanNumber] at h
      · rw [List.cons_append, scanNumber]
        · exact scanUnsigned_followedBy h hrest
        · exact fun ds h => hc (List.cons.inj h).1
      · exact fun ds h => hc (List.cons.inj h).1

theorem scanIdentifier_followedBy {s : Scan} (h : scanIdentifier cs = some s)
    (hrest : AtBoundary rest) : scanIdentifier (cs ++ rest) = some (s.followedBy rest) := by
  match cs with
  | [] => cases h
  | c :: cs =>
    simp only [List.cons_append, scanIdentifier, takeWhile_append_stop hrest.not_name,
      dropWhile_append_stop hrest.not_name] at h ⊢
    split_ifs at h ⊢
    obtain rfl := Option.some.inj h
    rfl

theorem scanVariable_followedBy {s : Scan} (h : scanVariable cs = some s)
    (hrest : AtBoundary rest) : scanVariable (cs ++ rest) = some (s.followedBy rest) := by
  match cs with
  | [] => cases h
  | c :: cs =>
    simp only [List.cons_append, scanVariable, takeWhile_append_stop hrest.not_name,
      dropWhile_append_stop hrest.not_name] at h ⊢
    split_ifs at h ⊢
    obtain rfl := Option.some.inj h
    rfl

theorem scanPlain_followedBy {c : Char} {s : Scan} (h : scanPlain c cs = some s)
    (hrest : AtBoundary rest) : scanPlain c (cs ++ rest) = some (s.followedBy rest) := by
  unfold scanPlain at h ⊢
  by_cases hseparator : isSeparator c
  · rw [if_pos hseparator] at h ⊢
    obtain rfl := Option.some.inj h
    rfl
  · rw [if_neg hseparator] at h ⊢
    cases hmark : punctuator? c with
    | some mark =>
      rw [hmark] at h
      obtain rfl := Option.some.inj h
      rfl
    | none =>
      rw [hmark] at h
      dsimp only at h ⊢
      split_ifs at h ⊢
      · exact scanNumber_followedBy h hrest
      · exact scanIdentifier_followedBy h hrest

theorem scanPlain_dot (cs : List Char) : scanPlain '.' cs = none := rfl

/-- A lexeme other than a comment stays the same in front of a boundary, if no three quotes open it. -/
theorem scan_followedBy {s : Scan} (h : scan cs = some s) (hcomment : cs.head? ≠ some '#')
    (hblock : ¬['"', '"', '"'] <+: cs) (hrest : AtBoundary rest) :
    scan (cs ++ rest) = some (s.followedBy rest) := by
  unfold scan at h
  split at h
  · cases h
  · next cs =>
    refine scanQuoted_followedBy h (fun hprefix => hblock ?_) hrest
    exact List.cons_prefix_cons.2 ⟨rfl, hprefix⟩
  · exact scanVariable_followedBy h hrest
  · exact absurd rfl hcomment
  · obtain rfl := Option.some.inj h
    rfl
  · next c cs hquote hdollar hhash hdots =>
    rw [List.cons_append, scan]
    · exact scanPlain_followedBy h hrest
    · exact hquote
    · exact hdollar
    · exact hhash
    · rintro ds rfl _
      cases (scanPlain_dot cs).symm.trans h

theorem atBoundary_lineFeed (rest : List Char) : AtBoundary ('\n' :: rest) := by
  intro c hc
  obtain rfl := Option.some.inj hc
  decide

/-- The end of a line ends a comment as well. -/
theorem scan_followedBy_lineFeed {s : Scan} (h : scan cs = some s) (hblock : ¬['"', '"', '"'] <+: cs)
    (rest : List Char) : scan (cs ++ '\n' :: rest) = some (s.followedBy ('\n' :: rest)) := by
  by_cases hcomment : cs.head? = some '#'
  · obtain ⟨cs, rfl⟩ := List.head?_eq_some_iff.1 hcomment
    have hstop : ∀ c ∈ ('\n' :: rest).head?, (c != '\n') = false := by simp
    rw [scan] at h
    obtain rfl := Option.some.inj h
    rw [List.cons_append, scan, takeWhile_append_stop hstop, dropWhile_append_stop hstop]
    rfl
  · exact scan_followedBy h hcomment hblock (atBoundary_lineFeed rest)

end

/-! ## Texts and what follows them -/

/-- What is read of a text without blocks is read of its front as well, if a new line begins behind. -/
theorem Reads.append {p q : Place} {tokens : List Located} (h : Reads p tokens q)
    (hblock : ¬['"', '"', '"'] <:+: p.rest) (rest : List Char) :
    Reads ⟨p.line, p.rest ++ '\n' :: rest⟩ tokens ⟨q.line, q.rest ++ '\n' :: rest⟩ := by
  induction h with
  | refl p => exact .refl _
  | @token p q s t tokens hscan hmeaning more ih =>
    have hfollowed := scan_followedBy_lineFeed hscan (fun hprefix => hblock hprefix.isInfix) rest
    have hwithin := (isSuffix_behind hscan).isInfix
    exact .token hfollowed hmeaning (ih fun hmore => hblock (hmore.trans hwithin))
  | @nothing p q s tokens hscan hmeaning more ih =>
    have hfollowed := scan_followedBy_lineFeed hscan (fun hprefix => hblock hprefix.isInfix) rest
    have hwithin := (isSuffix_behind hscan).isInfix
    exact .nothing hfollowed hmeaning (ih fun hmore => hblock (hmore.trans hwithin))


end FragmentShapes.Token
