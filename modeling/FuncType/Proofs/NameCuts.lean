import FuncType.Proofs.AcceptedSignatures

/-!
# Where names are cut from types

Commas and the end of a list are found by depth, so every segment is an item. The cut between name
and type is found by white space alone. It keeps name and type items if it stands in no group of the
segment (`CutsOutside`); otherwise, as in `func(e error) error` with no name in front, it runs
through a group and leaves its opening parenthesis in the name and its closing one in the type
(`level_type`). So the names and types of an accepted signature are balanced exactly if every cut
of a segment stands outside its groups.
-/

namespace FuncType

open Declaration

/-- The first white space between the ends of a segment, where its name ends, stands in no group:
what stands in front of it closes all the groups that it opens. -/
def CutsOutside (segment : List Char) : Prop :=
  ∀ front c back, trim segment = front ++ c :: back → ¬ HasSpace front → isSpace c = true →
    level front = 0

/-! ## Cuts of a segment -/

theorem isItem_trim {segment : List Char} : IsItem (trim segment) ↔ IsItem segment :=
  isItem_congr (signs_trim segment)

theorem isItem_name_of_bare {segment : List Char} (hitem : IsItem segment)
    (hbare : (ofSegment segment).type? = none) : IsItem (ofSegment segment).name.toList := by
  rw [← trim_of_bare hbare]
  exact isItem_trim.mpr hitem

theorem cutsOutside_of_bare {segment : List Char} (hbare : (ofSegment segment).type? = none) :
    CutsOutside segment := by
  intro front c back htext _ hc
  exact absurd ⟨c, by rw [htext]; simp, hc⟩ (type?_eq_none_iff.mp hbare)

variable {segment : List Char} {type : String}

theorem signs_of_typed (htype : (ofSegment segment).type? = some type) :
    signs segment = signs (ofSegment segment).name.toList ++ signs type.toList := by
  obtain ⟨run, -, hrun, htext⟩ := trim_of_typed htype
  rw [← signs_trim segment, htext, signs_append, signs_append, signs_of_isBlank hrun]
  simp

/-- Where there is a type, name and type make up the segment but for plain symbols. -/
theorem isItem_name_append_type (htype : (ofSegment segment).type? = some type) :
    IsItem ((ofSegment segment).name.toList ++ type.toList) ↔ IsItem segment := by
  apply isItem_congr
  rw [signs_append, signs_of_typed htype]

theorem level_name_nonneg (hitem : IsItem segment) (htype : (ofSegment segment).type? = some type) :
    0 ≤ level (ofSegment segment).name.toList :=
  ((isItem_name_append_type htype).mpr hitem).balanced.level_front_nonneg

/-- The type of an item closes what its name leaves open. -/
theorem level_type (hitem : IsItem segment) (htype : (ofSegment segment).type? = some type) :
    level type.toList = - level (ofSegment segment).name.toList := by
  have hlevel := ((isItem_name_append_type htype).mpr hitem).balanced.level_eq_zero
  rw [level_append] at hlevel
  omega

theorem cutsOutside_iff_level (htype : (ofSegment segment).type? = some type) :
    CutsOutside segment ↔ level (ofSegment segment).name.toList = 0 := by
  obtain ⟨run, hne, hrun, htext⟩ := trim_of_typed htype
  obtain ⟨c, run, rfl, hc⟩ := exists_cons_of_isBlank hne hrun
  constructor
  · intro h
    refine h _ c (run ++ type.toList) ?_ (not_hasSpace_name segment) hc
    rw [htext]
    simp
  · intro hlevel front d back hfront hno hd
    have hword : word (trim segment) = front := by
      rw [hfront]
      exact word_append hno (by simpa using hd)
    rw [← hword, ← name_ofSegment]
    exact hlevel

/-- A cut outside all groups leaves two items. -/
theorem cutsOutside_iff_isItem (hitem : IsItem segment)
    (htype : (ofSegment segment).type? = some type) :
    CutsOutside segment ↔ IsItem (ofSegment segment).name.toList ∧ IsItem type.toList := by
  rw [cutsOutside_iff_level htype]
  constructor
  · intro hlevel
    exact (isItem_append hlevel).mp ((isItem_name_append_type htype).mpr hitem)
  · intro h
    exact h.1.balanced.level_eq_zero

/-- What is cut off is an item of its own only if the cut stands outside. -/
theorem isItem_type_iff (hitem : IsItem segment) (htype : (ofSegment segment).type? = some type) :
    IsItem type.toList ↔ CutsOutside segment := by
  constructor
  · intro h
    have hlevel := level_type hitem htype
    rw [h.balanced.level_eq_zero] at hlevel
    rw [cutsOutside_iff_level htype]
    omega
  · intro h
    exact ((cutsOutside_iff_isItem hitem htype).mp h).2

/-! ## Cuts of a signature -/

namespace Signature

/-- The names and types of an accepted signature are balanced exactly if all cuts between them stand
outside the groups of their segments. -/
theorem balanced_parts_iff {mode : Mode} {text : String} {s : Signature}
    (h : parse mode text = .ok s) :
    ∃ segs rest, SignatureOf segs rest text.toList ∧
      ((∀ p ∈ s.params, Balanced p.name.toList ∧ Balanced p.type.toList) ↔
        ∀ segment ∈ segs, CutsOutside segment) := by
  obtain ⟨segs, rest, hsig, hparams, -⟩ := exists_declarations_of_parse h
  refine ⟨segs, rest, hsig, fun hbalanced segment hmem => ?_, fun hcuts p hp => ?_⟩
  · cases htype : (ofSegment segment).type? with
    | none => exact cutsOutside_of_bare htype
    | some type =>
      have hp : ⟨(ofSegment segment).name, type⟩ ∈ s.params := by
        rw [hparams]
        exact ParameterList.mem_expand_of_typed hmem htype
      exact (cutsOutside_iff_level htype).mpr (hbalanced _ hp).1.level_eq_zero
  · rw [hparams] at hp
    obtain ⟨⟨segment, hmem, -, hname, htype⟩, source, hmem', htype'⟩ :=
      ParameterList.exists_segments_of_mem_expand hp
    have hsource := (cutsOutside_iff_isItem (hsig.isItem source hmem') htype').mp (hcuts source hmem')
    refine ⟨?_, hsource.2.balanced⟩
    rw [← hname]
    rcases htype with htype | hbare
    · have hparts := (cutsOutside_iff_isItem (hsig.isItem segment hmem) htype).mp (hcuts segment hmem)
      exact hparts.1.balanced
    · exact (isItem_name_of_bare (hsig.isItem segment hmem) hbare).balanced

/-- A function type with a name in front of it is cut outside of its parentheses. -/
theorem balanced_parts_iff_at_named_function :
    parse .lenient "func(f func(e error) error)" = .ok ⟨[⟨"f", "func(e error) error"⟩], ""⟩ ∧
      ∃ segs rest, SignatureOf segs rest "func(f func(e error) error)".toList ∧
        ((∀ p ∈ [Parameter.mk "f" "func(e error) error"],
            Balanced p.name.toList ∧ Balanced p.type.toList) ↔
          ∀ segment ∈ segs, CutsOutside segment) := by
  have h : parse .lenient "func(f func(e error) error)" =
      .ok ⟨[⟨"f", "func(e error) error"⟩], ""⟩ := rfl
  exact ⟨h, balanced_parts_iff h⟩

/-- A function type without a name in front of it is cut inside of its parentheses, in both modes. -/
theorem not_balanced_of_cut_inside :
    parse .strict "func(func(e error) error)" = .ok ⟨[⟨"func(e", "error) error"⟩], ""⟩ ∧
      parse .lenient "func(func(e error) error)" = .ok ⟨[⟨"func(e", "error) error"⟩], ""⟩ ∧
      ¬ Balanced "func(e".toList ∧ ¬ Balanced "error) error".toList := by
  refine ⟨rfl, rfl, fun h => ?_, fun h => ?_⟩
  · have hlevel := h.level_eq_zero
    revert hlevel
    decide
  · have hlevel := h.level_eq_zero
    revert hlevel
    decide

end Signature

end FuncType
