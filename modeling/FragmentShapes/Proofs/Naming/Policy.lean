import FragmentShapes.Naming.Policy
import FragmentShapes.Proofs.TypeRef.Notation

/-!
# Names that a policy assigns

For names that documents can write no naming step fails: `NamingPolicy.assignName_eq_ok`, for policies
without custom names. Model names and root names are told apart by their suffixes.
-/

namespace FragmentShapes

/-! ## Names of ASCII characters -/

namespace Text

theorem isAsciiName_iff {name : String} :
    isAsciiName name = true ↔ ∃ c cs, name.toList = c :: cs ∧ isAsciiNameStart c = true ∧
      ∀ d ∈ cs, isAsciiNamePart d = true := by
  rw [isAsciiName]
  cases name.toList with
  | nil => simp
  | cons c cs => simp

theorem isAsciiName_append {name more : String} (hname : isAsciiName name = true)
    (hmore : more.toList.all isAsciiNamePart = true) : isAsciiName (name ++ more) = true := by
  obtain ⟨c, cs, hcs, hstart, hparts⟩ := isAsciiName_iff.1 hname
  refine isAsciiName_iff.2 ⟨c, cs ++ more.toList, ?_, hstart, fun d hd => ?_⟩
  · rw [String.toList_append, hcs, List.cons_append]
  · exact (List.mem_append.1 hd).elim (hparts d) (List.all_eq_true.1 hmore d)

theorem toNat_lt_of_isAsciiNamePart {c : Char} (h : isAsciiNamePart c = true) : c.toNat < 128 := by
  have hclass : (decide ('A'.val ≤ c.val ∧ c.val ≤ 'Z'.val) ||
      decide ('a'.val ≤ c.val) && decide (c.val ≤ 'z'.val) ||
      decide ('0'.val ≤ c.val) && decide (c.val ≤ '9'.val) || c == '_') = true := h
  simp only [Bool.or_eq_true, Bool.and_eq_true, decide_eq_true_eq, beq_iff_eq] at hclass
  rcases hclass with ((⟨-, h⟩ | ⟨-, h⟩) | ⟨-, h⟩) | rfl
  · exact Nat.lt_of_le_of_lt h (by decide)
  · exact Nat.lt_of_le_of_lt h (by decide)
  · exact Nat.lt_of_le_of_lt h (by decide)
  · decide

theorem isIdentifier_of_isAsciiName {name : String} (h : isAsciiName name = true) :
    isIdentifier name = true := by
  obtain ⟨c, cs, hcs, hstart, hparts⟩ := isAsciiName_iff.1 h
  have hc := toNat_lt_of_isAsciiNamePart (isAsciiNamePart_of_start hstart)
  rw [isIdentifier, hcs]
  refine Bool.and_eq_true_iff.2 ⟨?_, List.all_eq_true.2 fun d hd => ?_⟩
  · rw [isIdentifierStart, if_pos hc, hstart]
  · rw [isIdentifierPart, if_pos (toNat_lt_of_isAsciiNamePart (hparts d hd)), hparts d hd]

theorem isBlank_eq_false_of_isAsciiNameStart {c : Char} (h : isAsciiNameStart c = true) :
    isBlank c = false := by
  have hlt := toNat_lt_of_isAsciiNamePart (isAsciiNamePart_of_start h)
  have hall : ∀ n < 128, isAsciiNameStart (Char.ofNat n) = true → isBlank (Char.ofNat n) = false := by
    decide
  have hc := hall c.toNat hlt
  rw [Char.ofNat_toNat] at hc
  exact hc h

theorem isBlankText_eq_false {name : String} (h : isAsciiName name = true) :
    isBlankText name.toList = false := by
  obtain ⟨c, cs, hcs, hstart, -⟩ := isAsciiName_iff.1 h
  rw [hcs, isBlankText, List.all_cons, isBlank_eq_false_of_isAsciiNameStart hstart, Bool.false_and]

theorem isAsciiName_capitalize {name : String} (h : isAsciiName name = true) :
    isAsciiName (capitalize name) = true := by
  obtain ⟨c, cs, hcs, hstart, hparts⟩ := isAsciiName_iff.1 h
  have hlt := toNat_lt_of_isAsciiNamePart (isAsciiNamePart_of_start hstart)
  have hall : ∀ n < 128, isAsciiNameStart (Char.ofNat n) = true →
      isAsciiNameStart (Char.ofNat n).toUpper = true := by
    decide
  have hupper := hall c.toNat hlt
  rw [Char.ofNat_toNat] at hupper
  refine isAsciiName_iff.2 ⟨c.toUpper, cs, ?_, hupper hstart, hparts⟩
  rw [capitalize, hcs]
  simp only [upperCase, hlt, if_true, String.toList_ofList, List.singleton_append]

theorem ne_empty_of_isAsciiName {name : String} (h : isAsciiName name = true) : name ≠ "" := by
  rintro rfl
  cases h

end Text

/-! ## Suffixes -/

namespace NamingPolicy

theorem hasSuffix_append (suffix text : String) : hasSuffix suffix (text ++ suffix) = true := by
  rw [hasSuffix, List.isSuffixOf_iff_suffix, String.toList_append]
  exact List.suffix_append _ _

/-- The stem in front of the suffix is found again. -/
theorem stemPart_append {stem : String} (h : stem ≠ "") : stemPart (stem ++ modelSuffix) = stem := by
  have hne : stem ++ modelSuffix ≠ modelSuffix := by
    intro heq
    have hlist : stem.toList ++ modelSuffix.toList = modelSuffix.toList := by
      rw [← String.toList_append, heq]
    exact h (String.toList_injective (List.append_left_eq_self.1 hlist))
  have hlength : (stem ++ modelSuffix).length - modelSuffix.length = stem.toList.length := by
    rw [String.length_append, Nat.add_sub_cancel, String.length_toList]
  rw [stemPart, if_pos (by rw [hasSuffix_append, Bool.true_and, decide_eq_true hne]), hlength,
    String.toList_append, List.take_left, String.ofList_toList]

theorem hasSuffix_withFragmentSuffix (fragment : String) :
    hasSuffix fragmentSuffix (withFragmentSuffix fragment) = true := by
  rw [withFragmentSuffix]
  split
  · assumption
  · exact hasSuffix_append _ _

/-- A root model is never named like a model below it. -/
theorem append_modelSuffix_ne (stem fragment : String) :
    stem ++ modelSuffix ≠ withFragmentSuffix fragment := by
  intro heq
  have hsuffix := hasSuffix_withFragmentSuffix fragment
  rw [← heq] at hsuffix
  rw [hasSuffix, List.isSuffixOf_iff_suffix, String.toList_append] at hsuffix
  obtain ⟨front, hfront⟩ := hsuffix
  have hlast := congrArg List.getLast? hfront
  have hfragment : fragmentSuffix.toList.getLast? = some 't' := by decide
  have hmodel : modelSuffix.toList.getLast? = some 'l' := by decide
  rw [List.getLast?_append, List.getLast?_append, hfragment, hmodel, Option.some_or,
    Option.some_or] at hlast
  exact absurd (Option.some.inj hlast) (by decide)

/-! ## Assigned names -/

variable {p : NamingPolicy} {field : String} {type : Option String}

theorem assignName_eq_ok (hcustom : p.custom = []) (hfield : Text.isAsciiName field = true)
    {context : Option String} (hcontext : ∀ c ∈ context, Text.isAsciiName c = true) :
    p.assignName field context type =
      .ok (inContext context (Text.capitalize field ++ modelSuffix)) := by
  have hbare : p.bareName field type = .ok (Text.capitalize field ++ modelSuffix) := by
    have hnone : p.customName? field type = none := by
      cases type <;> simp [customName?, hcustom, KeyedList.get?]
    rw [bareName, hnone]
  have hname : Text.isAsciiName (Text.capitalize field ++ modelSuffix) = true :=
    Text.isAsciiName_append (Text.isAsciiName_capitalize hfield) (by decide)
  have hwhole : Text.isIdentifier (inContext context (Text.capitalize field ++ modelSuffix)) = true := by
    refine Text.isIdentifier_of_isAsciiName ?_
    cases context with
    | none => exact hname
    | some c =>
      have hc := hcontext c rfl
      rw [inContext, if_neg (Text.ne_empty_of_isAsciiName hc)]
      exact Text.isAsciiName_append (Text.isAsciiName_append hc (by decide))
        (List.all_eq_true.2 (Text.isAsciiName_chars hname).2)
  rw [assignName, Text.isBlankText_eq_false hfield, hbare]
  exact if_pos hwhole

theorem rootName_eq_ok {fragment : String} (h : Text.isAsciiName fragment = true) :
    rootName fragment = .ok (withFragmentSuffix fragment) := by
  rw [rootName, if_pos (Text.isIdentifier_of_isAsciiName h)]

theorem exceedsDepth_succ {depth : Int} (h : p.exceedsDepth depth = true) :
    p.exceedsDepth (depth + 1) = true := by
  simp only [exceedsDepth, Bool.and_eq_true, decide_eq_true_eq] at h ⊢
  omega

/-- Under the mixed policy a model goes to the top beyond the depth limit, or where it is shared. -/
theorem assignScope_of_mixed (hmixed : p.placement = .mixed) (parent : String) (depth : Int)
    (shared : Bool) : p.assignScope parent depth shared =
      if p.exceedsDepth depth || shared then (globalScope, .hoisted) else (parent, .nested) := by
  rw [assignScope, hoists, hmixed]
  simp

end NamingPolicy

end FragmentShapes
