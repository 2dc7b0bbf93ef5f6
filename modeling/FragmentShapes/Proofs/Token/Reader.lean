import FragmentShapes.Proofs.Token.Boundary

/-!
# One reader for many texts

A reader is fed a text and asked for tokens, and may be fed the next text at any time: when the last one is
read, in the middle of it or after a fault. It counts lines by rules of its own: an end of line between
tokens, those inside a block, and a new beginning with each text. No other lexeme has ends of lines in it
(`lineEnds_eq_count`), so that the lines are true.

A reader that remembers the characters it has read, instead of counting, finds the same
(`Reader.ask_map`). Main statement: `lines_answers`.
-/

namespace FragmentShapes.Token

/-! ## Line ends inside lexemes -/

theorem lineFeed_not_mem_takeWhile {p : Char → Bool} (hp : p '\n' = false) (cs : List Char) :
    '\n' ∉ cs.takeWhile p := by
  intro hmem
  cases hp.symm.trans (List.all_eq_true.1 List.all_takeWhile _ hmem)

theorem lineFeed_not_mem_stringBody {cs : List Char} :
    ∀ {body rest : List Char}, stringBody cs = some (body, rest) → '\n' ∉ body := by
  fun_induction stringBody cs with
  | case1 => intro body rest h; cases h
  | case2 cs => intro body rest h; cases h; exact List.not_mem_nil
  | case3 => intro body rest h; cases h
  | case4 c cs hc ih =>
    intro body rest h
    obtain ⟨⟨inner, tail⟩, hinner, hpair⟩ := Option.map_eq_some_iff.1 h
    cases hpair
    simp [ih hinner, Ne.symm hc]
  | case5 => intro body rest h; cases h
  | case6 c cs _ _ hc ih =>
    intro body rest h
    obtain ⟨⟨inner, tail⟩, hinner, hpair⟩ := Option.map_eq_some_iff.1 h
    cases hpair
    simp [ih hinner, Ne.symm (not_or.1 hc).1]

theorem lineFeed_not_mem_fractionPart (cs : List Char) :
    '\n' ∉ (optionalPart fractionPart? cs).lexeme := by
  rw [optionalPart]
  unfold fractionPart?
  split
  · dsimp only
    split_ifs
    · exact List.not_mem_nil
    · exact List.not_mem_cons_of_ne_of_not_mem (by decide) (lineFeed_not_mem_takeWhile (by decide) _)
  · exact List.not_mem_nil

theorem lineFeed_not_mem_exponentSign (cs : List Char) : '\n' ∉ (exponentSign cs).1 := by
  unfold exponentSign
  split <;> simp

theorem lineFeed_not_mem_exponentPart (cs : List Char) :
    '\n' ∉ (optionalPart exponentPart? cs).lexeme := by
  rw [optionalPart]
  unfold exponentPart?
  split
  · exact List.not_mem_nil
  · next c cs =>
    split_ifs with hc
    · dsimp only
      split_ifs
      · exact List.not_mem_nil
      · have hne : '\n' ≠ c := by rcases hc with rfl | rfl <;> decide
        have hdigits := lineFeed_not_mem_takeWhile (p := Text.isDecimalDigit) (by decide) (exponentSign cs).2
        simp [hne, hdigits, lineFeed_not_mem_exponentSign cs]
    · exact List.not_mem_nil

variable {cs : List Char} {s : Scan}

theorem lineFeed_not_mem_scanUnsigned {negative : Bool} (h : scanUnsigned negative cs = some s) :
    '\n' ∉ s.lexeme := by
  rw [scanUnsigned_eq] at h
  split_ifs at h
  obtain rfl := Option.some.inj h
  have hwhole := lineFeed_not_mem_takeWhile (p := Text.isDecimalDigit) (by decide) cs
  simp [numberScan, hwhole, lineFeed_not_mem_fractionPart, lineFeed_not_mem_exponentPart]

theorem lineFeed_not_mem_scanNumber (h : scanNumber cs = some s) : '\n' ∉ s.lexeme := by
  unfold scanNumber at h
  split at h
  · obtain ⟨unsigned, hunsigned, rfl⟩ := Option.map_eq_some_iff.1 h
    exact List.not_mem_cons_of_ne_of_not_mem (by decide) (lineFeed_not_mem_scanUnsigned hunsigned)
  · exact lineFeed_not_mem_scanUnsigned h

theorem ne_lineFeed_of_isAsciiNameStart {c : Char} (h : Text.isAsciiNameStart c = true) : '\n' ≠ c := by
  rintro rfl
  exact absurd h (by decide)

theorem lineFeed_not_mem_scanIdentifier (h : scanIdentifier cs = some s) : '\n' ∉ s.lexeme := by
  unfold scanIdentifier at h
  split at h
  · cases h
  · split_ifs at h with hc
    obtain rfl := Option.some.inj h
    exact List.not_mem_cons_of_ne_of_not_mem (ne_lineFeed_of_isAsciiNameStart hc)
      (lineFeed_not_mem_takeWhile (by decide) _)

theorem lineFeed_not_mem_scanVariable (h : scanVariable cs = some s) : '\n' ∉ s.lexeme := by
  unfold scanVariable at h
  split at h
  · cases h
  · split_ifs at h with hc
    obtain rfl := Option.some.inj h
    exact List.not_mem_cons_of_ne_of_not_mem (by decide) (List.not_mem_cons_of_ne_of_not_mem
      (ne_lineFeed_of_isAsciiNameStart hc) (lineFeed_not_mem_takeWhile (by decide) _))

theorem lineFeed_not_mem_scanString (h : scanString cs = some s) : '\n' ∉ s.lexeme := by
  obtain ⟨⟨body, rest⟩, hbody, rfl⟩ := Option.map_eq_some_iff.1 h
  simp [lineFeed_not_mem_stringBody hbody]

/-- Only blocks have ends of lines in them; else an end of line is a lexeme of its own. -/
theorem scan_lineFeed (h : scan cs = some s) (hmem : '\n' ∈ s.lexeme) :
    s.lexeme = ['\n'] ∧ s.meaning = .nothing ∨ ∃ text, s.meaning = .token (.block text) := by
  unfold scan at h
  split at h
  · cases h
  · unfold scanQuoted at h
    split at h
    · split at h
      · obtain rfl := Option.some.inj h
        exact .inr ⟨_, rfl⟩
      · exact absurd hmem (lineFeed_not_mem_scanString h)
    · exact absurd hmem (lineFeed_not_mem_scanString h)
  · exact absurd hmem (lineFeed_not_mem_scanVariable h)
  · obtain rfl := Option.some.inj h
    exact absurd hmem (List.not_mem_cons_of_ne_of_not_mem (by decide)
      (lineFeed_not_mem_takeWhile (by decide) _))
  · obtain rfl := Option.some.inj h
    simp at hmem
  · -- a separator is its own lexeme; words and numbers stop in front of one
    next c cs _ _ _ _ =>
    unfold scanPlain at h
    split_ifs at h with hseparator hnumber
    · obtain rfl := Option.some.inj h
      obtain rfl := List.mem_singleton.1 hmem
      exact .inl ⟨rfl, rfl⟩
    · split at h
      · obtain rfl := Option.some.inj h
        obtain rfl := List.mem_singleton.1 hmem
        exact absurd rfl hseparator
      · exact absurd hmem (lineFeed_not_mem_scanNumber h)
    · split at h
      · obtain rfl := Option.some.inj h
        obtain rfl := List.mem_singleton.1 hmem
        exact absurd rfl hseparator
      · exact absurd hmem (lineFeed_not_mem_scanIdentifier h)

/-- The ends of lines that are counted for a lexeme: one between tokens, and those inside a block. -/
def Scan.lineEnds (s : Scan) : Nat :=
  match s.meaning with
  | .nothing => if s.lexeme.head? = some '\n' then s.lexeme.length else 0
  | .token (.block _) => s.lexeme.count '\n'
  | .token _ => 0
  | .badEscape _ => 0
  | .overlong _ => 0

/-- All ends of lines are counted. -/
theorem lineEnds_eq_count (h : scan cs = some s) : s.lineEnds = s.lexeme.count '\n' := by
  by_cases hmem : '\n' ∈ s.lexeme
  · obtain ⟨hlexeme, hmeaning⟩ | ⟨text, hmeaning⟩ := scan_lineFeed h hmem
    · rw [Scan.lineEnds, hmeaning, hlexeme]
      rfl
    · rw [Scan.lineEnds, hmeaning]
  · have hhead : s.lexeme.head? ≠ some '\n' := fun hhead => hmem (List.mem_of_mem_head? hhead)
    have hcount : s.lexeme.count '\n' = 0 := List.count_eq_zero.2 hmem
    unfold Scan.lineEnds
    split
    · rw [if_neg hhead, hcount]
    · rfl
    · exact hcount.symm
    · exact hcount.symm
    · exact hcount.symm

/-! ## Readers -/

/-- What is found in a text: a token, its end, or why there is no token. -/
inductive Find where
  | token (t : Token)
  | finished
  | illegal (c : Char)
  | badEscape (digits : List Char)
  | overlong (o : OverlongInteger)

/-- What is found where no lexeme begins. -/
def Find.ofRest : List Char → Find
  | [] => finished
  | c :: _ => illegal c

/-- What a lexeme is, if it means anything. -/
def Scan.find? (s : Scan) : Option Find :=
  match s.meaning with
  | .token t => some (.token t)
  | .nothing => none
  | .badEscape digits => some (.badEscape digits)
  | .overlong o => some (.overlong o)

/-- What is found at the head of a text, if it does not begin with a lexeme that means nothing. -/
def findAt? (cs : List Char) : Option Find :=
  match scan cs with
  | none => some (.ofRest cs)
  | some s => s.find?

/-- A reader in a text: what it keeps of the characters that it has read, and those that are left. -/
structure Reader (κ : Type) where
  kept : κ
  rest : List Char

namespace Reader

variable {κ ℓ : Type} (keep : κ → Scan → κ)

/-- What comes next, with what was kept in front of it. A reader stays at a character that begins no
lexeme, and goes behind any lexeme that it has read. -/
def next (r : Reader κ) : (κ × Find) × Reader κ :=
  match h : scan r.rest with
  | none => ((r.kept, .ofRest r.rest), r)
  | some s =>
    have := length_rest_lt h
    let behind : Reader κ := ⟨keep r.kept s, s.rest⟩
    match s.find? with
    | some find => ((r.kept, find), behind)
    | none => behind.next
termination_by r.rest.length

/-- What comes next, so many times. -/
def ask (r : Reader κ) : Nat → List (κ × Find) × Reader κ
  | 0 => ([], r)
  | n + 1 =>
    let (found, behind) := r.next keep
    let (more, last) := behind.ask n
    (found :: more, last)

/-- Begins with a text, wherever the reader is in another one. -/
def feed (r : Reader κ) (start : κ) (text : String) : Reader κ :=
  { r with kept := start, rest := text.toList }

/-- Reads in texts, in each so many times. -/
def readAll (start : κ) (r : Reader κ) : List (String × Nat) → List (List (κ × Find))
  | [] => []
  | (text, n) :: texts =>
    let (found, last) := (r.feed start text).ask keep n
    found :: readAll start last texts

/-! ## Readers that keep different things -/

variable {keep} {keep' : ℓ → Scan → ℓ} {f : κ → ℓ}

def map (f : κ → ℓ) (r : Reader κ) : Reader ℓ := ⟨f r.kept, r.rest⟩

theorem next_of_none {r : Reader κ} (h : scan r.rest = none) :
    r.next keep = ((r.kept, .ofRest r.rest), r) := by
  rw [next]
  split
  · rfl
  · next s hs => cases h.symm.trans hs

theorem next_of_scan {r : Reader κ} {s : Scan} (h : scan r.rest = some s) :
    r.next keep = match s.find? with
      | some find => ((r.kept, find), ⟨keep r.kept s, s.rest⟩)
      | none => next keep ⟨keep r.kept s, s.rest⟩ := by
  rw [next]
  split
  · next hnone => cases h.symm.trans hnone
  · next s' hs' =>
    obtain rfl := Option.some.inj (h.symm.trans hs')
    rfl

/-- What a reader keeps decides neither what it finds nor where. -/
theorem next_map (hkeep : ∀ kept cs s, scan cs = some s → f (keep kept s) = keep' (f kept) s)
    (r : Reader κ) :
    (r.map f).next keep' = (((r.next keep).1.map f id), (r.next keep).2.map f) := by
  fun_induction next keep r with
  | case1 r hscan =>
    rw [next_of_none (r := r.map f) hscan]
    rfl
  | case2 r s hscan hlt behind find hfind =>
    have hscan' : scan (r.map f).rest = some s := hscan
    have hbehind : behind.map f = ⟨keep' (f r.kept) s, s.rest⟩ :=
      congrArg (Reader.mk · s.rest) (hkeep r.kept r.rest s hscan)
    rw [next_of_scan hscan', hfind, hbehind]
    rfl
  | case3 r s hscan hlt behind hfind ih =>
    have hscan' : scan (r.map f).rest = some s := hscan
    have hbehind : behind.map f = ⟨keep' (f r.kept) s, s.rest⟩ :=
      congrArg (Reader.mk · s.rest) (hkeep r.kept r.rest s hscan)
    rw [next_of_scan hscan', hfind, ← ih, hbehind]
    rfl

theorem ask_map (hkeep : ∀ kept cs s, scan cs = some s → f (keep kept s) = keep' (f kept) s)
    (r : Reader κ) (n : Nat) :
    (r.map f).ask keep' n = ((r.ask keep n).1.map (Prod.map f id), (r.ask keep n).2.map f) := by
  induction n generalizing r with
  | zero => rfl
  | succ n ih =>
    rw [ask, next_map hkeep]
    dsimp only
    rw [ih]
    rfl

/-- Reading in a text goes on from its beginning, whatever was read before. -/
theorem readAll_eq (start : κ) (r : Reader κ) (texts : List (String × Nat)) :
    r.readAll keep start texts = texts.map fun (text, n) => (ask keep ⟨start, text.toList⟩ n).1 := by
  induction texts generalizing r with
  | nil => rfl
  | cons first texts ih =>
    rw [readAll, List.map_cons]
    exact congrArg (_ :: ·) (ih _)

end Reader

/-! ## Lines -/

/-- The answer to a request for a token, by a reader that is on a line. -/
def Find.answer (line : Nat) : Find → Except LexicalFault (Option Located)
  | token t => .ok (some ⟨t, line⟩)
  | finished => .ok none
  | illegal c => .error (.illegalCharacter c line)
  | badEscape digits => .error (.invalidEscape (String.ofList digits) line)
  | overlong o => .error (.overlongInteger o)

/-- Counts the lines that a lexeme ends. -/
def countLines (line : Nat) (s : Scan) : Nat := line + s.lineEnds

/-- The answers of a reader that counts lines, which is asked for so many tokens of each text. -/
def answers (r : Reader Nat) (texts : List (String × Nat)) :
    List (List (Except LexicalFault (Option Located))) :=
  (r.readAll countLines 1 texts).map (List.map fun (line, find) => find.answer line)

/-- Remembers the characters that have been read. -/
def remember (front : List Char) (s : Scan) : List Char := front ++ s.lexeme

/-- What is found in a text that is asked for so many tokens, with the characters in front of it. -/
def finds (text : String) (n : Nat) : List (List Char × Find) :=
  (Reader.ask remember ⟨[], text.toList⟩ n).1

/-- The line of the character behind these. -/
def lineBehind (front : List Char) : Nat := 1 + front.count '\n'

theorem lineBehind_remember (front cs : List Char) (s : Scan) (h : scan cs = some s) :
    lineBehind (remember front s) = countLines (lineBehind front) s := by
  rw [lineBehind, countLines, lineBehind, remember, lineEnds_eq_count h, List.count_append,
    Nat.add_assoc]

/-- A reader that counts lines has the line on which what it finds begins. -/
theorem answers_eq (r : Reader Nat) (texts : List (String × Nat)) :
    answers r texts = texts.map fun (text, n) =>
      (finds text n).map fun (front, find) => find.answer (lineBehind front) := by
  rw [answers, Reader.readAll_eq, List.map_map]
  refine List.map_congr_left fun ⟨text, n⟩ _ => ?_
  have hmap : Reader.ask countLines ⟨1, text.toList⟩ n = _ :=
    Reader.ask_map lineBehind_remember ⟨[], text.toList⟩ n
  change List.map _ (Reader.ask countLines ⟨1, text.toList⟩ n).1 = _
  rw [hmap, List.map_map]
  rfl

/-- What comes next begins behind what has been read, and the reader goes on behind its beginning. -/
theorem next_remember (r : Reader (List Char)) :
    let ((front, find), r') := r.next remember
    r.kept <+: front ∧ front <+: r'.kept ∧ r'.kept ++ r'.rest = r.kept ++ r.rest ∧
      ∃ rest, front ++ rest = r.kept ++ r.rest ∧ findAt? rest = some find := by
  fun_induction Reader.next remember r with
  | case1 r hscan => exact ⟨List.prefix_rfl, List.prefix_rfl, rfl, r.rest, rfl, by rw [findAt?, hscan]⟩
  | case2 r s hscan hlt behind find hfind =>
    refine ⟨List.prefix_rfl, List.prefix_append _ _, ?_, r.rest, rfl, by rw [findAt?, hscan]; exact hfind⟩
    exact (List.append_assoc _ _ _).trans (congrArg _ (scan_append hscan))
  | case3 r s hscan hlt behind hfind ih =>
    have hbehind : behind.kept ++ behind.rest = r.kept ++ r.rest :=
      (List.append_assoc _ _ _).trans (congrArg _ (scan_append hscan))
    rw [hbehind] at ih
    exact ⟨(List.prefix_append _ _).trans ih.1, ih.2⟩

/-- What is found stands in the text behind the characters in front of it, one behind the other. -/
theorem ask_remember (r : Reader (List Char)) (n : Nat) :
    (r.ask remember n).1.Pairwise (fun found later => found.1 <+: later.1) ∧
      ∀ found ∈ (r.ask remember n).1, r.kept <+: found.1 ∧
        ∃ rest, found.1 ++ rest = r.kept ++ r.rest ∧ findAt? rest = some found.2 := by
  induction n generalizing r with
  | zero => exact ⟨.nil, nofun⟩
  | succ n ih =>
    obtain ⟨hfront, hbehind, htext, hfound⟩ := next_remember r
    obtain ⟨hpairwise, hall⟩ := ih (r.next remember).2
    refine ⟨.cons (fun later hlater => hbehind.trans (hall later hlater).1) hpairwise, ?_⟩
    refine List.forall_mem_cons.2 ⟨⟨hfront, hfound⟩, fun later hlater => ?_⟩
    obtain ⟨hlaterFront, hlaterFound⟩ := hall later hlater
    exact ⟨(hfront.trans hbehind).trans hlaterFront, htext ▸ hlaterFound⟩

/-! ## Faults -/

theorem quote_append_atLine (front : String) (line : Nat) :
    front ++ "' at line " ++ toString line = front ++ "'" ++ " at line " ++ toString line := by
  have hquote : "' at line " = "'" ++ " at line " := by decide
  rw [hquote, ← String.append_assoc]

/-- The message of a fault of syntax ends with the line of what is at fault. -/
theorem message_of_answer {find : Find} {line : Nat} {fault : LexicalFault}
    (h : find.answer line = .error fault) (hsyntactic : fault.isSyntactic = true) :
    ∃ what : String, fault.message = what ++ " at line " ++ toString line := by
  cases find with
  | token t => cases h
  | finished => cases h
  | illegal c =>
    cases h
    exact ⟨_, quote_append_atLine _ line⟩
  | badEscape digits =>
    cases h
    exact ⟨_, quote_append_atLine _ line⟩
  | overlong o =>
    cases h
    cases hsyntactic

/-! ## Texts that are read to the end -/

/-- The answers of a reader to a text that it reads to the end or to a fault. -/
def Stream.answers (s : Stream) : List (Except LexicalFault (Option Located)) :=
  s.tokens.map (fun t => .ok (some t)) ++
    [match s.fault with
      | none => .ok none
      | some f => .error f]

/-- A reader that is asked until it has no more tokens gives those of the text, and then its fault. -/
theorem ask_lexFrom (line : Nat) (cs : List Char) :
    (Reader.ask countLines ⟨line, cs⟩ ((lexFrom line cs).tokens.length + 1)).1.map
        (fun (line, find) => find.answer line) = (lexFrom line cs).answers := by
  -- One step of the reader for each lexeme, where the lines that it counts are those of the text.
  fun_induction lexFrom line cs with
  | case1 line cs hscan =>
    rw [Reader.ask, Reader.next_of_none hscan]
    cases cs <;> rfl
  | case2 line cs s hscan hlt next t hmeaning ih =>
    have hfind : s.find? = some (.token t) := by rw [Scan.find?, hmeaning]
    have hnext : countLines line s = next := by rw [countLines, lineEnds_eq_count hscan]
    rw [Reader.ask, Reader.next_of_scan (r := ⟨line, cs⟩) hscan, hfind, hnext]
    exact congrArg (Except.ok (some ⟨t, line⟩) :: ·) ih
  | case3 line cs s hscan hlt next hmeaning ih =>
    have hfind : s.find? = none := by rw [Scan.find?, hmeaning]
    have hnext : countLines line s = next := by rw [countLines, lineEnds_eq_count hscan]
    rw [Reader.ask, Reader.next_of_scan (r := ⟨line, cs⟩) hscan, hfind, hnext]
    exact ih
  | case4 line cs s hscan hlt digits hmeaning =>
    have hfind : s.find? = some (.badEscape digits) := by rw [Scan.find?, hmeaning]
    rw [Reader.ask, Reader.next_of_scan (r := ⟨line, cs⟩) hscan, hfind]
    rfl
  | case5 line cs s hscan hlt o hmeaning =>
    have hfind : s.find? = some (.overlong o) := by rw [Scan.find?, hmeaning]
    rw [Reader.ask, Reader.next_of_scan (r := ⟨line, cs⟩) hscan, hfind]
    rfl

/-- Read to its end, a text has its tokens and its fault, whatever was read before. -/
theorem answers_lex (r : Reader Nat) (texts : List String) :
    answers r (texts.map fun text => (text, (lex text).tokens.length + 1)) =
      texts.map fun text => (lex text).answers := by
  rw [answers, Reader.readAll_eq, List.map_map, List.map_map]
  exact List.map_congr_left fun text _ => ask_lexFrom 1 text.toList

/-- Lines are those of the text that is read, whatever was read before, to its end, in part or up to a
fault: each token and each fault is on the line whose number is one more than the ends of lines in front
of it, and the message of a fault of syntax names this line. What is in front is the text up to there.
Texts that are read to the end have the tokens and the fault that they have by themselves. -/
theorem lines_answers (r : Reader Nat) (texts : List (String × Nat)) :
    (answers r texts = texts.map fun (text, n) =>
      (finds text n).map fun (front, find) => find.answer (1 + front.count '\n')) ∧
    (∀ text n, (finds text n).Pairwise (fun found later => found.1 <+: later.1) ∧
      ∀ found ∈ finds text n, ∃ rest, found.1 ++ rest = text.toList ∧ findAt? rest = some found.2) ∧
    (∀ (find : Find) (line : Nat) (fault : LexicalFault), find.answer line = .error fault →
      fault.isSyntactic = true →
        ∃ what : String, fault.message = what ++ " at line " ++ toString line) ∧
    ∀ whole : List String, answers r (whole.map fun text => (text, (lex text).tokens.length + 1)) =
      whole.map fun text => (lex text).answers := by
  refine ⟨answers_eq r texts, fun text n => ?_, fun _ _ _ => message_of_answer, answers_lex r⟩
  obtain ⟨hpairwise, hall⟩ := ask_remember ⟨[], text.toList⟩ n
  exact ⟨hpairwise, fun found hfound => (hall found hfound).2⟩

/-- Texts that fail on the third and on the second line, the first behind a block of two lines, and one
that is read in part. Carriage returns and comments end no lines. -/
theorem lines_answers_three :
    answers ⟨7, ['?']⟩
        [("\"\"\"a\nb\"\"\" c\r # d\n?", 4), ("\n\"\\u12\" e", 2), ("\r, f\ng", 1)] =
      [[.ok (some ⟨.block "a\nb", 1⟩), .ok (some ⟨.name "c", 2⟩), .error (.illegalCharacter '?' 3),
          .error (.illegalCharacter '?' 3)],
        [.error (.invalidEscape "12" 2), .ok (some ⟨.name "e", 2⟩)], [.ok (some ⟨.name "f", 1⟩)]] ∧
    ∃ what : String, (LexicalFault.illegalCharacter '?' 3).message = what ++ " at line " ++ toString 3 :=
  ⟨by decide +kernel, (lines_answers ⟨7, ['?']⟩ []).2.2.1 (.illegal '?') 3 _ rfl rfl⟩

end FragmentShapes.Token
