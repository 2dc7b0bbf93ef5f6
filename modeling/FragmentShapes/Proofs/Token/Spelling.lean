import FragmentShapes.Proofs.Token.Boundary
import Mathlib.Data.List.Basic
import Mathlib.Data.List.TakeWhile

/-!
# Spelling tokens

Each token other than a float or a block has one spelling that is plainest: a name as it is, an integer
in decimal, a string on one line with as few escapes as it can have. `scan_spelling` says that reading
undoes it, whatever begins at the boundary behind.
-/

namespace FragmentShapes

namespace Text

/-- How a character is written between quotes. -/
def spelledChar : Char → List Char
  | '"' => ['\\', '"']
  | '\\' => ['\\', '\\']
  | '\n' => ['\\', 'n']
  | c => [c]

/-- The text with all that its quotes would not keep escaped. -/
def spelled (cs : List Char) : List Char := cs.flatMap spelledChar

/-! ## Quoting is undone -/

theorem unescapeUnits_spelledChar (c : Char) (rest : List Char) :
    unescapeUnits (spelledChar c ++ rest) = (c.toNat :: ·) <$> unescapeUnits rest := by
  unfold spelledChar
  split
  · rw [List.cons_append, List.cons_append, List.nil_append, unescapeUnits]
    · rfl
    · simp
    · simp
  · rw [List.cons_append, List.cons_append, List.nil_append, unescapeUnits]
    · rfl
    · simp
    · simp
  · rw [List.cons_append, List.cons_append, List.nil_append, unescapeUnits]
    · rfl
    · simp
    · simp
  · next c hquote hbackslash hlineFeed =>
    rw [List.cons_append, List.nil_append, unescapeUnits]
    · exact fun a b c d ds h _ => hbackslash h
    · exact fun ds h _ => hbackslash h
    · exact fun d ds h _ => hbackslash h

theorem unescapeUnits_spelled (cs : List Char) :
    unescapeUnits (spelled cs) = .ok (cs.map Char.toNat) := by
  induction cs with
  | nil => rfl
  | cons c cs ih =>
    rw [spelled, List.flatMap_cons, unescapeUnits_spelledChar, ← spelled, ih]
    rfl

theorem isSurrogate_toNat (c : Char) :
    isHighSurrogate c.toNat = false ∧ isLowSurrogate c.toNat = false := by
  have hvalid : c.toNat < 0xD800 ∨ 0xDFFF < c.toNat ∧ c.toNat < 0x110000 := c.valid
  simp only [isHighSurrogate, isLowSurrogate, Bool.and_eq_false_iff, decide_eq_false_iff_not]
  omega

theorem charOfUnit_toNat (c : Char) : charOfUnit c.toNat = c := by
  have hsurrogate := isSurrogate_toNat c
  simp [charOfUnit, hsurrogate]

/-- A text without surrogates has none to join. -/
theorem joinSurrogates_toNat (cs : List Char) : joinSurrogates (cs.map Char.toNat) = cs := by
  induction cs with
  | nil => rfl
  | cons c cs ih =>
    cases cs with
    | nil => simp [joinSurrogates, charOfUnit_toNat]
    | cons d cs =>
      have hsurrogate := isSurrogate_toNat c
      simp only [List.map_cons] at ih ⊢
      simp [joinSurrogates, hsurrogate, charOfUnit_toNat, ih]

theorem unescape_spelled (cs : List Char) : unescape (spelled cs) = .ok cs := by
  rw [unescape, unescapeUnits_spelled]
  exact congrArg Except.ok (joinSurrogates_toNat cs)

end Text

namespace Token

theorem stringBody_spelledChar (c : Char) (rest : List Char) :
    stringBody (Text.spelledChar c ++ rest) =
      (stringBody rest).map fun (body, tail) => (Text.spelledChar c ++ body, tail) := by
  unfold Text.spelledChar
  split
  · simp [stringBody]
  · simp [stringBody]
  · simp [stringBody]
  · next c hquote hbackslash hlineFeed =>
    rw [List.cons_append, List.nil_append, stringBody]
    · rw [if_neg (not_or.2 ⟨hlineFeed, hbackslash⟩)]
      rfl
    · exact hquote
    · exact fun d ds h _ => hbackslash h

theorem stringBody_spelled (cs rest : List Char) :
    stringBody (Text.spelled cs ++ '"' :: rest) = some (Text.spelled cs, rest) := by
  induction cs with
  | nil => simp [Text.spelled, stringBody]
  | cons c cs ih =>
    rw [Text.spelled, List.flatMap_cons, List.append_assoc, stringBody_spelledChar, ← Text.spelled, ih]
    rfl

/-! ## Spellings -/

/-- The plainest way to write a token. Floats and blocks have more than one that is plain. -/
def spelling : Token → String
  | var label => "$" ++ label
  | string text => String.ofList ('"' :: (Text.spelled text.toList ++ ['"']))
  | t => t.text

/-- The token is what its spelling reads as: names are ASCII and not reserved, and integers have no more
digits than are read. -/
def HasSpelling : Token → Prop
  | name text => Text.isAsciiName text = true ∧ Keyword.ofSpelling? text = none
  | var label => Text.isAsciiName label = true
  | int value => (Nat.toDigits 10 value.natAbs).length ≤ OverlongInteger.limit
  | float _ | block _ => False
  | keyword _ | string _ | punctuator _ => True

instance (t : Token) : Decidable t.HasSpelling :=
  match t with
  | name text =>
    inferInstanceAs (Decidable (Text.isAsciiName text = true ∧ Keyword.ofSpelling? text = none))
  | var label => inferInstanceAs (Decidable (Text.isAsciiName label = true))
  | int value =>
    inferInstanceAs (Decidable ((Nat.toDigits 10 value.natAbs).length ≤ OverlongInteger.limit))
  | float _ | block _ => inferInstanceAs (Decidable False)
  | keyword _ | string _ | punctuator _ => inferInstanceAs (Decidable True)

section

variable {c : Char} {cs : List Char}

theorem scan_plain (h : c ∉ ['"', '$', '#', '.']) (cs : List Char) : scan (c :: cs) = scanPlain c cs := by
  simp only [List.mem_cons, List.not_mem_nil, or_false, not_or] at h
  rw [scan]
  · exact h.1
  · exact h.2.1
  · exact h.2.2.1
  · exact fun ds hdot _ => h.2.2.2 hdot

/-- The characters that begin something else than a name or a number. -/
def marks : List Char :=
  ['"', '$', '#', '.', ' ', '\t', '\r', ',', '\n', '\x7b', '\x7d', '[', ']', '(', ')', ':', '!', '=', '@',
    '|', '&']

theorem isSeparator_of_not_mem (h : c ∉ marks) : isSeparator c = false := by
  simp only [marks, List.mem_cons, List.not_mem_nil, or_false, not_or] at h
  simp [isSeparator, h]

theorem punctuator_of_not_mem (h : c ∉ marks) : punctuator? c = none := by
  unfold punctuator?
  split
  all_goals first | rfl | exact absurd (by decide) h

theorem scan_of_not_mem (h : c ∉ marks) (cs : List Char) :
    scan (c :: cs) =
      if c = '-' ∨ Text.isDecimalDigit c = true then scanNumber (c :: cs)
      else scanIdentifier (c :: cs) := by
  have hplain : c ∉ ['"', '$', '#', '.'] := fun hc => h (List.mem_append_left _ hc)
  rw [scan_plain hplain, scanPlain, isSeparator_of_not_mem h, punctuator_of_not_mem h]
  rfl

/-! ### Words -/

theorem not_mem_marks_of_nameStart (h : Text.isAsciiNameStart c = true) : c ∉ marks := by
  have hmarks : ∀ d ∈ marks, Text.isAsciiNameStart d = false := by
    rw [← List.forall_iff_forall_mem]
    decide
  intro hc
  exact Bool.false_ne_true ((hmarks c hc).symm.trans h)

theorem isDecimalDigit_of_lt (h : c.toNat < 128) : Text.isDecimalDigit c = c.isDigit := by
  simp only [Text.isDecimalDigit, Text.decimalDigit?, if_pos h]
  split
  · next hdigit => exact hdigit.symm
  · next hdigit => exact (Bool.eq_false_iff.2 hdigit).symm

/-- A name does not begin with a digit. -/
theorem not_digit_of_nameStart (h : Text.isAsciiNameStart c = true) : Text.isDecimalDigit c = false := by
  have hrange : c.toNat < 128 ∧ 57 < c.toNat := by
    rcases (Bool.or_eq_true _ _).mp h with h | h
    · rcases (Bool.or_eq_true _ _).mp h with h | h
      · have hupper : 65 ≤ c.toNat ∧ c.toNat ≤ 90 := of_decide_eq_true h
        omega
      · have hlower := (Bool.and_eq_true _ _).mp h
        have hlow : 97 ≤ c.toNat := of_decide_eq_true hlower.1
        have hhigh : c.toNat ≤ 122 := of_decide_eq_true hlower.2
        omega
    · obtain rfl := eq_of_beq h
      decide
  rw [isDecimalDigit_of_lt hrange.1, Bool.eq_false_iff, ne_eq, Char.isDigit_iff_toNat]
  rintro ⟨_, hnine⟩
  have hhigh : c.toNat ≤ 57 := hnine
  omega

theorem scan_name (hstart : Text.isAsciiNameStart c = true)
    (hparts : ∀ d ∈ cs, Text.isAsciiNamePart d = true) {rest : List Char}
    (hrest : EndsNames rest) :
    scan (c :: (cs ++ rest)) = some ⟨c :: cs, .token (ofIdentifier (String.ofList (c :: cs))), rest⟩ := by
  have hne : c ≠ '-' := by
    rintro rfl
    exact absurd hstart (by decide)
  rw [scan_of_not_mem (not_mem_marks_of_nameStart hstart),
    if_neg (by simp [hne, not_digit_of_nameStart hstart]), scanIdentifier, if_pos hstart]
  dsimp only
  rw [takeWhile_append_stop hrest, dropWhile_append_stop hrest, List.takeWhile_eq_self_iff.2 hparts,
    List.dropWhile_eq_nil_iff.2 hparts, List.nil_append]

theorem scan_variable (hstart : Text.isAsciiNameStart c = true)
    (hparts : ∀ d ∈ cs, Text.isAsciiNamePart d = true) :
    scan ('$' :: c :: cs) = some ⟨'$' :: c :: cs, .token (var (String.ofList (c :: cs))), []⟩ := by
  rw [scan, scanVariable, if_pos hstart]
  dsimp only
  rw [List.takeWhile_eq_self_iff.2 hparts, List.dropWhile_eq_nil_iff.2 hparts]

/-- A name in characters. -/
theorem exists_of_isAsciiName {text : String} (h : Text.isAsciiName text = true) :
    ∃ c cs, text.toList = c :: cs ∧ Text.isAsciiNameStart c = true ∧
      ∀ d ∈ cs, Text.isAsciiNamePart d = true := by
  rw [Text.isAsciiName] at h
  split at h
  · cases h
  · next c cs hcs =>
    rw [Bool.and_eq_true, List.all_eq_true] at h
    exact ⟨c, cs, hcs, h.1, h.2⟩

/-! ### Integers -/

theorem isDecimalDigit_of_isDigit (h : c.isDigit = true) : Text.isDecimalDigit c = true := by
  have hhigh : c.toNat ≤ 57 := (Char.isDigit_iff_toNat.1 h).2
  rw [isDecimalDigit_of_lt (by omega)]
  exact h

theorem not_mem_marks_of_isDigit (h : c.isDigit = true) : c ∉ marks := by
  have hmarks : ∀ d ∈ marks, d.isDigit = false := by
    rw [← List.forall_iff_forall_mem]
    decide
  intro hc
  exact Bool.false_ne_true ((hmarks c hc).symm.trans h)

theorem decimalDigit_of_isDigit (h : c.isDigit = true) :
    Text.decimalDigit? c = some (c.toNat - '0'.toNat) := by
  have hhigh : c.toNat ≤ 57 := (Char.isDigit_iff_toNat.1 h).2
  rw [Text.decimalDigit?, if_pos (show c.toNat < 128 by omega), if_pos h]
  rfl

theorem decimalValue_toDigits (n : Nat) : Text.decimalValue (Nat.toDigits 10 n) = n := by
  have hfold : Text.decimalValue (Nat.toDigits 10 n) = Nat.ofDigitChars 10 (Nat.toDigits 10 n) 0 := by
    rw [Nat.ofDigitChars_eq_foldl]
    refine List.foldl_ext _ _ 0 fun value c hc => ?_
    rw [decimalDigit_of_isDigit (Nat.isDigit_of_mem_toDigits (by decide) (by decide) hc)]
    rfl
  rw [hfold, Nat.ofDigitChars_ten_toDigits]

theorem scanUnsigned_digits {digits : List Char} (hne : digits ≠ [])
    (hdigits : ∀ d ∈ digits, Text.isDecimalDigit d = true) (negative : Bool) :
    scanUnsigned negative digits = some ⟨digits, integerMeaning negative digits, []⟩ := by
  rw [scanUnsigned_eq, List.takeWhile_eq_self_iff.2 hdigits, List.dropWhile_eq_nil_iff.2 hdigits,
    if_neg hne]
  simp [optionalPart, fractionPart?, exponentPart?, numberScan]

theorem toList_spelling_int (value : Int) :
    (spelling (int value)).toList =
      if value < 0 then '-' :: Nat.toDigits 10 value.natAbs else Nat.toDigits 10 value.natAbs := by
  rw [spelling, text]
  · split
    · rw [String.toList_append, Nat.toList_repr]
      rfl
    · rw [Nat.toList_repr]
  · simp
  · simp

/-- The decimal notation of an integer, whether it is read or too long. -/
theorem scan_decimal (value : Int) :
    scan (spelling (int value)).toList =
      some ⟨(spelling (int value)).toList,
        integerMeaning (decide (value < 0)) (Nat.toDigits 10 value.natAbs), []⟩ := by
  have hdigits : ∀ d ∈ Nat.toDigits 10 value.natAbs, d.isDigit = true := fun d hd =>
    Nat.isDigit_of_mem_toDigits (by decide) (by decide) hd
  have hscan (negative : Bool) : scanUnsigned negative (Nat.toDigits 10 value.natAbs) =
      some ⟨_, integerMeaning negative (Nat.toDigits 10 value.natAbs), []⟩ :=
    scanUnsigned_digits Nat.toDigits_ne_nil (fun d hd => isDecimalDigit_of_isDigit (hdigits d hd)) negative
  -- A minus is read with the digits behind it; without one the first digit begins the number.
  rw [toList_spelling_int]
  split
  · next hnegative =>
    rw [scan_of_not_mem (by decide), if_pos (.inl rfl), scanNumber, hscan, decide_eq_true hnegative]
    rfl
  · next hnegative =>
    obtain ⟨d, ds, hds⟩ := List.exists_cons_of_ne_nil (Nat.toDigits_ne_nil (b := 10) (n := value.natAbs))
    have hd : d.isDigit = true := hdigits d (by rw [hds]; exact List.mem_cons_self)
    have hne : d ≠ '-' := by
      rintro rfl
      exact absurd hd (by decide)
    rw [hds] at hscan ⊢
    rw [scan_of_not_mem (not_mem_marks_of_isDigit hd), if_pos (.inr (isDecimalDigit_of_isDigit hd)),
      scanNumber, hscan, decide_eq_false hnegative]
    exact fun cs h => hne (List.cons.inj h).1

theorem integerMeaning_toDigits {value : Int}
    (h : (Nat.toDigits 10 value.natAbs).length ≤ OverlongInteger.limit) :
    integerMeaning (decide (value < 0)) (Nat.toDigits 10 value.natAbs) = .token (int value) := by
  have hcheck : OverlongInteger.check? (Nat.toDigits 10 value.natAbs).length = none :=
    if_neg (Nat.not_lt.2 h)
  rw [integerMeaning, hcheck]
  simp only [decimalValue_toDigits, decide_eq_true_eq, Int.ofNat_eq_natCast]
  congr 2
  split
  · omega
  · omega

/-! ### All tokens -/

theorem exists_spelledChar (c : Char) : ∃ d ds, Text.spelledChar c = d :: ds ∧ d ≠ '"' := by
  unfold Text.spelledChar
  split
  · exact ⟨'\\', ['"'], rfl, by decide⟩
  · exact ⟨'\\', ['\\'], rfl, by decide⟩
  · exact ⟨'\\', ['n'], rfl, by decide⟩
  · next hquote _ _ => exact ⟨_, [], rfl, hquote⟩

/-- A string does not look like the opening of a block. -/
theorem not_prefix_spelled (cs : List Char) : ¬['"', '"'] <+: Text.spelled cs ++ ['"'] := by
  rintro ⟨others, heq⟩
  cases cs with
  | nil => cases heq
  | cons c cs =>
    obtain ⟨d, ds, hd, hne⟩ := exists_spelledChar c
    rw [Text.spelled, List.flatMap_cons, hd] at heq
    exact hne (List.cons.inj heq).1.symm

theorem scan_string (text : String) :
    scan (spelling (string text)).toList =
      some ⟨(spelling (string text)).toList, .token (string text), []⟩ := by
  rw [spelling, String.toList_ofList, scan, scanQuoted_eq_scanString (not_prefix_spelled _), scanString,
    stringBody_spelled]
  simp [stringMeaning, Text.unescape_spelled]

theorem scan_punctuator (mark : Punctuator) (rest : List Char) :
    scan (mark.spelling.toList ++ rest) =
      some ⟨mark.spelling.toList, .token (punctuator mark), rest⟩ := by
  cases mark <;> rfl

theorem ofIdentifier_keyword (word : Keyword) : ofIdentifier word.spelling = keyword word := by
  cases word <;> decide

theorem scan_identifier {text : String} (h : Text.isAsciiName text = true) {rest : List Char}
    (hrest : EndsNames rest) :
    scan (text.toList ++ rest) = some ⟨text.toList, .token (ofIdentifier text), rest⟩ := by
  obtain ⟨c, cs, hcs, hstart, hparts⟩ := exists_of_isAsciiName h
  rw [hcs, List.cons_append, scan_name hstart hparts hrest, ← hcs, String.ofList_toList]

/-- Reading undoes spelling. -/
theorem scan_spelling {t : Token} (h : t.HasSpelling) :
    scan t.spelling.toList = some ⟨t.spelling.toList, .token t, []⟩ := by
  have hnil : EndsNames [] := nofun
  cases t with
  | name text =>
    have hscan := scan_identifier h.1 hnil
    rw [ofIdentifier, h.2, List.append_nil] at hscan
    exact hscan
  | keyword word =>
    have hscan := scan_identifier (Keyword.isAsciiName_spelling word) hnil
    rw [ofIdentifier_keyword, List.append_nil] at hscan
    exact hscan
  | var label =>
    obtain ⟨c, cs, hcs, hstart, hparts⟩ := exists_of_isAsciiName h
    have hspelling : (spelling (var label)).toList = '$' :: c :: cs := by
      rw [spelling, String.toList_append, hcs]
      rfl
    rw [hspelling, scan_variable hstart hparts, ← hcs, String.ofList_toList]
  | int value => rw [scan_decimal, integerMeaning_toDigits h]
  | float value => exact h.elim
  | string text => exact scan_string text
  | block text => exact h.elim
  | punctuator mark =>
    have hscan := scan_punctuator mark []
    rw [List.append_nil] at hscan
    exact hscan

/-- Three quotes begin a block, or a string that ends before the third. -/
theorem not_quotes_of_scan {s : Scan} (h : scan cs = some s) (hrest : s.rest = [])
    (hblock : ∀ text, s.meaning ≠ .token (block text)) : ¬['"', '"', '"'] <+: cs := by
  rintro ⟨tail, rfl⟩
  have hquoted : scanQuoted ('"' :: '"' :: tail) = some s := h
  rw [scanQuoted] at hquoted
  split at hquoted
  · next b hb =>
    obtain rfl := Option.some.inj hquoted
    exact hblock _ rfl
  · simp only [scanString, stringBody, Option.map_some, Option.some.injEq] at hquoted
    subst hquoted
    cases hrest

theorem head_ne_of_scan {s : Scan} (h : scan cs = some s) {t : Token} (hmeaning : s.meaning = .token t) :
    cs.head? ≠ some '#' := by
  intro hhead
  obtain ⟨cs, rfl⟩ := List.head?_eq_some_iff.1 hhead
  rw [scan] at h
  obtain rfl := Option.some.inj h
  cases hmeaning

/-- Reading undoes spelling, also in front of a boundary. -/
theorem scan_spelling_append {t : Token} (h : t.HasSpelling) {rest : List Char}
    (hrest : AtBoundary rest) :
    scan (t.spelling.toList ++ rest) = some ⟨t.spelling.toList, .token t, rest⟩ := by
  have hscan := scan_spelling h
  refine scan_followedBy hscan (head_ne_of_scan hscan rfl) ?_ hrest
  refine not_quotes_of_scan hscan rfl fun text hmeaning => ?_
  obtain rfl : t = block text := Meaning.token.inj hmeaning
  exact h

end

end Token

end FragmentShapes
