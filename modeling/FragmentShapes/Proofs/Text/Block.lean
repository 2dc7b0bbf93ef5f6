import FragmentShapes.Text.Block
import Mathlib.Data.List.DropRight
import Mathlib.Tactic.Common

/-!
# Values of blocks

A block that is moved to the right with the document around it keeps its value: what is put in front of
the lines behind the first is part of the indentation that they have in common (`dedent_indented`). What
is left out of a block is blank, so that the ink of the text, its characters that are not blank, is all
there in the same order (`ink_dedent`).

Main statement: `dedent_moved_and_whole`.
-/

namespace FragmentShapes.Text

/-! ## Ink -/

/-- The characters of a text that are not blank, in order. -/
def ink (cs : List Char) : List Char := cs.filter (!isBlank ·)

/-- The ink of all lines. -/
def inkOfLines (lines : List (List Char)) : List Char := lines.flatMap ink

theorem ink_append (front behind : List Char) : ink (front ++ behind) = ink front ++ ink behind :=
  List.filter_append ..

theorem ink_cons (c : Char) (cs : List Char) : ink (c :: cs) = ink [c] ++ ink cs := ink_append [c] cs

theorem ink_cons_of_blank {c : Char} (h : isBlank c = true) (cs : List Char) : ink (c :: cs) = ink cs :=
  List.filter_cons_of_neg (by rw [h]; decide)

theorem ink_eq_nil_iff {cs : List Char} : ink cs = [] ↔ isBlankText cs = true := by
  simp [ink, isBlankText, List.filter_eq_nil_iff]

theorem isBlankText_append (front behind : List Char) :
    isBlankText (front ++ behind) = (isBlankText front && isBlankText behind) := List.all_append

/-- What breaks lines is blank, and all else is in some line. -/
theorem ink_splitLines (cs : List Char) : inkOfLines (splitLines cs) = ink cs := by
  have hbreak : ∀ {c : Char}, isLineBreak c = true → ∀ cs, ink (c :: cs) = ink cs := fun h =>
    ink_cons_of_blank (isBlank_of_isLineBreak h)
  fun_induction splitLines cs with
  | case1 => rfl
  | case2 cs ih =>
    rw [hbreak (by decide), hbreak (by decide), ← ih]
    rfl
  | case3 c cs _ hc ih =>
    rw [hbreak hc, ← ih]
    rfl
  | case4 c cs _ _ hnone ih =>
    rw [ink_cons, ← ih, hnone]
    rfl
  | case5 c cs _ _ line lines hlines ih =>
    rw [ink_cons, ← ih, hlines, inkOfLines, inkOfLines, List.flatMap_cons, List.flatMap_cons,
      ink_cons c line, List.append_assoc]

theorem ink_joinLines (lines : List (List Char)) : ink (joinLines lines) = inkOfLines lines := by
  induction lines with
  | nil => rfl
  | cons line lines ih =>
    cases lines with
    | nil => simp [joinLines, inkOfLines]
    | cons next lines =>
      rw [joinLines, List.intercalate_cons_cons, ink_append, ink_append, ← joinLines, ih, inkOfLines,
        inkOfLines, List.flatMap_cons (x := line), show ink ['\n'] = [] by decide, List.append_nil]

/-! ## Indentation -/

theorem isBlank_of_isIndent {c : Char} (h : isIndent c = true) : isBlank c = true := by
  rw [isIndent, Bool.or_eq_true, beq_iff_eq, beq_iff_eq] at h
  rcases h with rfl | rfl <;> decide

theorem isBlankText_of_isIndent {cs : List Char} (h : ∀ c ∈ cs, isIndent c = true) :
    isBlankText cs = true :=
  List.all_eq_true.2 fun c hc => isBlank_of_isIndent (h c hc)

/-- A part of the indentation of a line has no ink. -/
theorem ink_drop_of_le {n : Nat} {line : List Char} (h : n ≤ indentation line) :
    ink (line.drop n) = ink line := by
  have hfront : line.take n = (line.takeWhile isIndent).take n := by
    conv_lhs => rw [← List.takeWhile_append_dropWhile (p := isIndent) (l := line)]
    exact List.take_append_of_le_length h
  have hblank : ink (line.take n) = [] := by
    rw [ink_eq_nil_iff, hfront]
    exact isBlankText_of_isIndent fun c hc =>
      List.mem_takeWhile_imp (List.mem_of_mem_take hc)
  conv_rhs => rw [← List.take_append_drop n line, ink_append, hblank, List.nil_append]

theorem ink_drop_of_blank {line : List Char} (h : isBlankText line = true) (n : Nat) :
    ink (line.drop n) = ink line := by
  have hdrop : isBlankText (line.drop n) = true :=
    List.all_eq_true.2 fun c hc => List.all_eq_true.1 h c (List.mem_of_mem_drop hc)
  rw [ink_eq_nil_iff.2 hdrop, ink_eq_nil_iff.2 h]

section

variable {lines : List (List Char)} {line w : List Char}

/-- The lines that the common indentation is taken of. -/
theorem mem_indentations {n : Nat} :
    n ∈ (lines.filter (!isBlankText ·)).map indentation ↔
      ∃ line ∈ lines, isBlankText line = false ∧ indentation line = n := by
  simp [and_assoc]

theorem commonIndentation_le (hline : line ∈ lines) (hblank : isBlankText line = false) :
    commonIndentation lines ≤ indentation line :=
  List.min?_getD_le_of_mem (mem_indentations.2 ⟨line, hline, hblank, rfl⟩)

/-- The common indentation is that of some line that is not blank, and no such line has less. -/
theorem commonIndentation_eq {n : Nat} (hline : line ∈ lines) (hblank : isBlankText line = false)
    (hn : indentation line = n)
    (hleast : ∀ other ∈ lines, isBlankText other = false → n ≤ indentation other) :
    commonIndentation lines = n := by
  have hmin : ((lines.filter (!isBlankText ·)).map indentation).min? = some n := by
    refine List.min?_eq_some_iff.2 ⟨mem_indentations.2 ⟨line, hline, hblank, hn⟩, fun m hm => ?_⟩
    obtain ⟨other, hother, hink, rfl⟩ := mem_indentations.1 hm
    exact hleast other hother hink
  rw [commonIndentation, hmin, Option.getD_some]

theorem exists_commonIndentation (h : ∃ line ∈ lines, isBlankText line = false) :
    ∃ line ∈ lines, isBlankText line = false ∧ indentation line = commonIndentation lines := by
  obtain ⟨line, hline, hblank⟩ := h
  cases hmin : ((lines.filter (!isBlankText ·)).map indentation).min? with
  | none =>
    have hnil := List.min?_eq_none_iff.1 hmin
    have hmem := mem_indentations.2 ⟨line, hline, hblank, rfl⟩
    rw [hnil] at hmem
    cases hmem
  | some n =>
    rw [commonIndentation, hmin, Option.getD_some]
    exact mem_indentations.1 (List.min?_mem hmin)

/-- Lines that are dedented keep their ink. -/
theorem ink_dedentLines (lines : List (List Char)) : inkOfLines (dedentLines lines) = inkOfLines lines := by
  cases lines with
  | nil => rfl
  | cons first rest =>
    rw [dedentLines, inkOfLines, inkOfLines, List.flatMap_cons, List.flatMap_cons, List.flatMap_map]
    refine congrArg (ink first ++ ·) (List.flatMap_congr fun line hline => ?_)
    cases hblank : isBlankText line with
    | true => exact ink_drop_of_blank hblank _
    | false => exact ink_drop_of_le (commonIndentation_le hline hblank)

theorem indentation_append (hw : ∀ c ∈ w, isIndent c = true) (line : List Char) :
    indentation (w ++ line) = w.length + indentation line := by
  rw [indentation, List.takeWhile_append_of_pos hw, List.length_append, indentation]

theorem isBlankText_indented (hw : ∀ c ∈ w, isIndent c = true) (line : List Char) :
    isBlankText (w ++ line) = isBlankText line := by
  rw [isBlankText_append, isBlankText_of_isIndent hw, Bool.true_and]

/-- What is put in front of lines is common to them, if one of them is not blank. -/
theorem commonIndentation_indented (hw : ∀ c ∈ w, isIndent c = true)
    (h : ∃ line ∈ lines, isBlankText line = false) :
    commonIndentation (lines.map (w ++ ·)) = w.length + commonIndentation lines := by
  obtain ⟨line, hline, hblank, hleast⟩ := exists_commonIndentation h
  refine commonIndentation_eq (List.mem_map_of_mem hline) ?_ ?_ fun other hother hink => ?_
  · rw [isBlankText_indented hw, hblank]
  · rw [indentation_append hw, hleast]
  · obtain ⟨old, hold, rfl⟩ := List.mem_map.1 hother
    rw [isBlankText_indented hw] at hink
    rw [indentation_append hw]
    exact Nat.add_le_add_left (commonIndentation_le hold hink) _

end

/-! ## Blank lines at the ends -/

theorem ink_dropWhile_blank (lines : List (List Char)) :
    inkOfLines (lines.dropWhile isBlankText) = inkOfLines lines := by
  induction lines with
  | nil => rfl
  | cons line lines ih =>
    rw [List.dropWhile_cons]
    split_ifs with hblank
    · rw [ih, inkOfLines, inkOfLines, List.flatMap_cons, ink_eq_nil_iff.2 hblank, List.nil_append]
    · rfl

/-- The lines without the blank ones at the end. -/
theorem ink_dropWhile_reverse (lines : List (List Char)) :
    inkOfLines (lines.reverse.dropWhile isBlankText).reverse = inkOfLines lines := by
  induction lines using List.reverseRecOn with
  | nil => rfl
  | append_singleton lines line ih =>
    rw [List.reverse_append, List.reverse_singleton, List.singleton_append, List.dropWhile_cons]
    split_ifs with hblank
    · rw [ih, inkOfLines, inkOfLines, List.flatMap_append, List.flatMap_singleton,
        ink_eq_nil_iff.2 hblank, List.append_nil]
    · rw [List.reverse_cons, List.reverse_reverse]

theorem ink_trimBlankLines (lines : List (List Char)) :
    inkOfLines (trimBlankLines lines) = inkOfLines lines := by
  rw [trimBlankLines, ink_dropWhile_reverse, ink_dropWhile_blank]

/-- Blank lines at the end make no difference. -/
theorem trimBlankLines_append {blank : List (List Char)} (h : ∀ line ∈ blank, isBlankText line = true)
    (lines : List (List Char)) : trimBlankLines (lines ++ blank) = trimBlankLines lines := by
  have hreverse : ∀ line ∈ blank.reverse, isBlankText line = true := fun line hline =>
    h line (List.mem_reverse.1 hline)
  rw [trimBlankLines, trimBlankLines, List.dropWhile_append]
  split_ifs with hempty
  · rw [List.isEmpty_iff.1 hempty, List.dropWhile_eq_nil_iff.2 h]
  · rw [List.reverse_append, List.dropWhile_append, List.dropWhile_eq_nil_iff.2 hreverse]
    rfl

/-! ## Lines -/

/-- Nothing in the line ends it. -/
def IsLine (line : List Char) : Prop := ∀ c ∈ line, isLineBreak c = false

theorem IsLine.tail {c : Char} {cs : List Char} (h : IsLine (c :: cs)) : IsLine cs :=
  fun d hd => h d (List.mem_cons_of_mem c hd)

theorem splitLines_cons {c : Char} (h : isLineBreak c = false) (cs : List Char) :
    splitLines (c :: cs) = match splitLines cs with
      | [] => [[c]]
      | line :: lines => (c :: line) :: lines := by
  have hreturn : c ≠ '\r' := by
    rintro rfl
    exact absurd h (by decide)
  refine (splitLines.eq_3 c cs fun rest hc => absurd hc hreturn).trans ?_
  refine (if_neg (by rw [h]; decide)).trans ?_
  cases splitLines cs <;> rfl

theorem splitLines_of_isLine {line : List Char} (h : IsLine line) (hne : line ≠ []) :
    splitLines line = [line] := by
  induction line with
  | nil => exact absurd rfl hne
  | cons c cs ih =>
    rw [splitLines_cons (h c List.mem_cons_self)]
    by_cases hcs : cs = []
    · rw [hcs, splitLines]
    · rw [ih h.tail hcs]

theorem splitLines_append {line : List Char} (h : IsLine line) (cs : List Char) :
    splitLines (line ++ '\n' :: cs) = line :: splitLines cs := by
  induction line with
  | nil => rw [List.nil_append, splitLines, if_pos (by decide)]; rintro _ ⟨⟩
  | cons c line ih => rw [List.cons_append, splitLines_cons (h c List.mem_cons_self), ih h.tail]

/-- Splitting undoes joining, but for an empty line at the end. -/
theorem splitLines_joinLines {lines : List (List Char)} (h : ∀ line ∈ lines, IsLine line) :
    splitLines (joinLines lines) = lines ∨ splitLines (joinLines lines) ++ [[]] = lines := by
  induction lines with
  | nil => exact .inl rfl
  | cons line lines ih =>
    obtain ⟨hline, hlines⟩ := List.forall_mem_cons.1 h
    cases lines with
    | nil =>
      rw [joinLines, List.intercalate_singleton]
      by_cases hne : line = []
      · exact .inr (by rw [hne]; rfl)
      · exact .inl (splitLines_of_isLine hline hne)
    | cons next lines =>
      have hjoin : joinLines (line :: next :: lines) = line ++ '\n' :: joinLines (next :: lines) := by
        rw [joinLines, List.intercalate_cons_cons, List.append_assoc, List.singleton_append, joinLines]
      rw [hjoin, splitLines_append hline, List.cons_append]
      exact (ih hlines).imp (congrArg (line :: ·)) (congrArg (line :: ·))

/-- An empty line at the end is not indented, and it is left out. -/
theorem trimBlankLines_dedentLines_append (lines : List (List Char)) :
    trimBlankLines (dedentLines (lines ++ [[]])) = trimBlankLines (dedentLines lines) := by
  cases lines with
  | nil => rfl
  | cons first rest =>
    have hcommon : commonIndentation (rest ++ [[]]) = commonIndentation rest := by
      rw [commonIndentation, List.filter_append]
      exact congrArg (fun lines => (lines.map indentation).min?.getD 0) (List.append_nil _)
    rw [List.cons_append, dedentLines, dedentLines, hcommon, List.map_append, ← List.cons_append]
    exact trimBlankLines_append (by simp [isBlankText]) _

/-- The value of a block of lines. -/
theorem dedent_joinLines {lines : List (List Char)} (h : ∀ line ∈ lines, IsLine line) :
    dedent (joinLines lines) = joinLines (trimBlankLines (dedentLines lines)) := by
  rw [dedent]
  rcases splitLines_joinLines h with hsplit | hsplit
  · rw [hsplit]
  · rw [← trimBlankLines_dedentLines_append, hsplit]

/-! ## Values -/

/-- Lines that are moved to the right come to the same, since blank ones at the end are left out. -/
theorem trimBlankLines_dedentLines_indented {w : List Char} (hw : ∀ c ∈ w, isIndent c = true)
    (first : List Char) (rest : List (List Char)) :
    trimBlankLines (dedentLines (first :: rest.map (w ++ ·))) =
      trimBlankLines (dedentLines (first :: rest)) := by
  by_cases hink : ∃ line ∈ rest, isBlankText line = false
  · -- what is put in front is cut off again with the common indentation
    have hdrop : ∀ line : List Char, (w ++ line).drop (w.length + commonIndentation rest) =
        line.drop (commonIndentation rest) := fun line => List.drop_length_add_append _
    rw [dedentLines, dedentLines, commonIndentation_indented hw hink, List.map_map]
    exact congrArg (fun lines => trimBlankLines (first :: lines)) (List.map_congr_left fun line _ =>
      hdrop line)
  · -- all lines behind the first are blank, however much of them is cut off
    have hblank : ∀ line ∈ rest, isBlankText line = true := fun line hline => by
      by_contra hne
      exact hink ⟨line, hline, Bool.eq_false_iff.2 hne⟩
    have hfirst : ∀ {lines : List (List Char)}, (∀ line ∈ lines, isBlankText line = true) →
        trimBlankLines (dedentLines (first :: lines)) = trimBlankLines [first] := by
      intro lines hlines
      rw [dedentLines, ← List.singleton_append]
      refine trimBlankLines_append (fun line hline => ?_) [first]
      obtain ⟨old, hold, rfl⟩ := List.mem_map.1 hline
      rw [← ink_eq_nil_iff, ink_drop_of_blank (hlines old hold), ink_eq_nil_iff.2 (hlines old hold)]
    rw [hfirst hblank, hfirst]
    intro line hline
    obtain ⟨old, hold, rfl⟩ := List.mem_map.1 hline
    rw [isBlankText_indented hw, hblank old hold]

/-- A block that is moved to the right has the same value. -/
theorem dedent_indented {w first : List Char} {rest : List (List Char)}
    (hw : ∀ c ∈ w, isIndent c = true) (hlines : ∀ line ∈ first :: rest, IsLine line) :
    dedent (joinLines (first :: rest.map (w ++ ·))) = dedent (joinLines (first :: rest)) := by
  have hindent : IsLine w := by
    intro c hc
    have hone := hw c hc
    rw [isIndent, Bool.or_eq_true, beq_iff_eq, beq_iff_eq] at hone
    rcases hone with rfl | rfl <;> decide
  have hmoved : ∀ line ∈ first :: rest.map (w ++ ·), IsLine line := by
    obtain ⟨hfirst, hrest⟩ := List.forall_mem_cons.1 hlines
    refine List.forall_mem_cons.2 ⟨hfirst, fun line hline => ?_⟩
    obtain ⟨old, hold, rfl⟩ := List.mem_map.1 hline
    exact List.forall_mem_append.2 ⟨hindent, hrest old hold⟩
  rw [dedent_joinLines hmoved, dedent_joinLines hlines, trimBlankLines_dedentLines_indented hw]

/-- The value of a block has all the ink of its text. -/
theorem ink_dedent (raw : List Char) : ink (dedent raw) = ink raw := by
  rw [dedent, ink_joinLines, ink_trimBlankLines, ink_dedentLines, ink_splitLines]

/-- However far a block stands to the right, its value is the same: indentation `w` in front of all lines
but the first makes no difference. And whatever the text of a block, its characters that are not blank are
those of its value in the same order. -/
theorem dedent_moved_and_whole :
    (∀ (w first : List Char) (rest : List (List Char)), (∀ c ∈ w, c = ' ' ∨ c = '\t') →
      (∀ line ∈ first :: rest, ∀ c ∈ line, isLineBreak c = false) →
      dedent (joinLines (first :: rest.map (w ++ ·))) = dedent (joinLines (first :: rest))) ∧
    ∀ raw : List Char, (dedent raw).filter (!isBlank ·) = raw.filter (!isBlank ·) := by
  refine ⟨fun w first rest hw hlines => dedent_indented (fun c hc => ?_) hlines, ink_dedent⟩
  rw [isIndent, Bool.or_eq_true, beq_iff_eq, beq_iff_eq]
  exact hw c hc

/-- A block with an indented first line, a blank line that is shorter than the indentation, one that is
longer and ends in a no-break space, and blank lines at the end. -/
theorem dedent_moved_verse :
    dedent (joinLines ("  one".toList ::
        ["    two", " ", "   \t  \u00a0", "  three ", "", " "].map ("\t ".toList ++ ·.toList))) =
      dedent (joinLines ("  one".toList ::
        ["    two", " ", "   \t  \u00a0", "  three ", "", " "].map String.toList)) ∧
    dedent "  one\n    two\n \n   \t  \u00a0\n  three \n\n ".toList =
      "  one\n  two\n\n \t  \u00a0\nthree ".toList := by
  have hindent : ∀ c ∈ "\t ".toList, c = ' ' ∨ c = '\t' := by simp
  have hlines : (("  one".toList :: ["    two", " ", "   \t  \u00a0", "  three ", "", " "].map
      String.toList).all fun line => line.all fun c => !isLineBreak c) = true := by decide +kernel
  constructor
  · have hmoved := dedent_moved_and_whole.1 "\t ".toList "  one".toList
      (["    two", " ", "   \t  \u00a0", "  three ", "", " "].map String.toList) hindent
      fun line hline c hc => by
        simpa using List.all_eq_true.1 (List.all_eq_true.1 hlines line hline) c hc
    rwa [List.map_map] at hmoved
  · decide +kernel

end FragmentShapes.Text
