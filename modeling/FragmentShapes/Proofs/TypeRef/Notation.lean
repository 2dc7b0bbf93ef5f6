import FragmentShapes.Proofs.Document.Names

/-!
# The notation of type references

`notationText_injective`: two references with names that documents can write are equal if their
notations are. Without a restriction on names this fails, since a name could hold brackets or an
exclamation mark.
-/

namespace FragmentShapes

theorem Text.isAsciiNamePart_of_start {c : Char} (h : isAsciiNameStart c = true) :
    isAsciiNamePart c = true := by
  rw [isAsciiNameStart, Bool.or_eq_true] at h
  rw [isAsciiNamePart, Bool.or_eq_true, Char.isAlphanum, Bool.or_eq_true]
  exact h.imp .inl id

theorem Text.isAsciiName_chars {name : String} (h : isAsciiName name = true) :
    name.toList ≠ [] ∧ ∀ c ∈ name.toList, isAsciiNamePart c = true := by
  rw [isAsciiName] at h
  split at h
  · cases h
  · next c cs hcs =>
    rw [Bool.and_eq_true, List.all_eq_true] at h
    rw [hcs]
    refine ⟨by simp, fun d hd => ?_⟩
    rcases List.mem_cons.1 hd with rfl | hd
    · exact isAsciiNamePart_of_start h.1
    · exact h.2 d hd

namespace TypeRef

theorem toList_notationText_named (name : String) (nullable : Bool) :
    (named name nullable).notationText.toList = name.toList ++ (marker nullable).toList := by
  rw [notationText, String.toList_append]

theorem toList_notationText_list (element : TypeRef) (nullable : Bool) :
    (list element nullable).notationText.toList =
      ('[' :: element.notationText.toList ++ [']']) ++ (marker nullable).toList := by
  rw [notationText, String.toList_append, String.toList_append, String.toList_append]
  rfl

/-- A text that does not end in an exclamation mark can be told from the mark behind it. -/
theorem append_marker_inj {x y : List Char} (hx : x.getLast? ≠ some '!') (hy : y.getLast? ≠ some '!')
    {a b : Bool} (h : x ++ (marker a).toList = y ++ (marker b).toList) : x = y ∧ a = b := by
  have hmark : (marker false).toList = ['!'] := by decide
  have hnone : (marker true).toList = [] := by decide
  cases a <;> cases b
  · exact ⟨List.append_cancel_right h, rfl⟩
  · rw [hmark, hnone, List.append_nil] at h
    rw [← h, List.getLast?_concat] at hy
    exact absurd rfl hy
  · rw [hmark, hnone, List.append_nil] at h
    rw [h, List.getLast?_concat] at hx
    exact absurd rfl hx
  · exact ⟨List.append_cancel_right h, rfl⟩

theorem getLast?_name_ne {name : String} (h : Text.isAsciiName name = true) :
    name.toList.getLast? ≠ some '!' := by
  intro hlast
  have := (Text.isAsciiName_chars h).2 '!' (List.mem_of_getLast? hlast)
  exact absurd this (by decide)

theorem getLast?_list_ne (chars : List Char) : ('[' :: chars ++ [']']).getLast? ≠ some '!' := by
  rw [List.getLast?_concat]
  decide

theorem head?_name_ne {name : String} (h : Text.isAsciiName name = true) (rest : List Char) :
    name.toList ≠ '[' :: rest := by
  intro heq
  have := (Text.isAsciiName_chars h).2 '[' (by simp [heq])
  exact absurd this (by decide)

/-- References with names that documents can write are told apart by their notation. -/
theorem notationText_injective {t u : TypeRef} (ht : t.WellNamed) (hu : u.WellNamed)
    (h : t.notationText = u.notationText) : t = u := by
  -- A list ends in a bracket and a name does not, so that what is in front of the mark for non-null
  -- is the same in both.
  induction t generalizing u with
  | named name nullable =>
    have htext := congrArg String.toList h
    rw [toList_notationText_named] at htext
    cases u with
    | named name' nullable' =>
      rw [toList_notationText_named] at htext
      obtain ⟨hname, hnull⟩ := append_marker_inj (getLast?_name_ne ht) (getLast?_name_ne hu) htext
      have hsame : name = name' := String.toList_injective hname
      rw [hsame, hnull]
    | list element nullable' =>
      rw [toList_notationText_list] at htext
      obtain ⟨hname, -⟩ := append_marker_inj (getLast?_name_ne ht) (getLast?_list_ne _) htext
      exact absurd hname (head?_name_ne ht _)
  | list element nullable ih =>
    have htext := congrArg String.toList h
    rw [toList_notationText_list] at htext
    cases u with
    | named name' nullable' =>
      rw [toList_notationText_named] at htext
      obtain ⟨hname, -⟩ := append_marker_inj (getLast?_list_ne _) (getLast?_name_ne hu) htext
      exact absurd hname.symm (head?_name_ne hu _)
    | list element' nullable' =>
      rw [toList_notationText_list] at htext
      obtain ⟨hinner, hnull⟩ := append_marker_inj (getLast?_list_ne _) (getLast?_list_ne _) htext
      have htail := List.append_cancel_right hinner
      have helement : element.notationText = element'.notationText :=
        String.toList_injective (List.cons.inj htail).2
      have hinside : element'.WellNamed := hu
      rw [ih ht hinside helement, hnull]

end TypeRef

end FragmentShapes
