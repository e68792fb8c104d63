import FuncType.Proofs.LeftOver
import FuncType.Proofs.Refusals

/-!
# The strict mode and the lenient one

What the strict mode accepts, the lenient mode accepts with the same result, and what the lenient mode
refuses, the strict mode refuses with the same error (`Restricts`). The two can differ only where the
lenient mode passes something over: a blank segment of a list with several segments, names that are left
over, or text behind the end of a list. A result of the lenient mode is one of the strict mode exactly if
none of these has occurred (`strict_restricts_lenient`).
-/

namespace FuncType

/-- A reading accepts less than another one: it has the same result wherever it accepts, and the same
error wherever the other one refuses. -/
structure Restricts {α : Type} (strict lenient : Except SignatureError α) : Prop where
  same_result : ∀ a, strict = .ok a → lenient = .ok a
  same_error : ∀ e, lenient = .error e → strict = .error e

/-- None of several segments is blank. -/
def NoneBlank (segs : List (List Char)) : Prop :=
  segs.length = 1 ∨ ∀ segment ∈ segs, isBlank segment = false

theorem Restricts.of_eq {α : Type} {strict lenient : Except SignatureError α} (h : strict = lenient) :
    Restricts strict lenient :=
  ⟨fun _ ha => h ▸ ha, fun _ he => h ▸ he⟩

theorem Restricts.of_ok {α : Type} {strict lenient : Except SignatureError α} {a : α}
    (hlenient : lenient = .ok a) (h : ∀ b, strict = .ok b → lenient = .ok b) :
    Restricts strict lenient := by
  refine ⟨h, fun e he => ?_⟩
  rw [hlenient] at he
  cases he

namespace ParameterList

variable {segs : List (List Char)} {ps : List Parameter} {names : List String} {text : String}

/-- A single segment may be blank, since it is then the one of an empty list. -/
theorem noneBlank_iff :
    NoneBlank segs ↔ isEmpty segs = true ∨ ∀ segment ∈ segs, isBlank segment = false := by
  constructor
  · rintro (hone | hno)
    · obtain ⟨only, rfl⟩ := List.length_eq_one_iff.mp hone
      cases hblank : isBlank only with
      | true => exact Or.inl (isEmpty_iff.mpr ⟨only, rfl, hblank⟩)
      | false => exact Or.inr (by simpa using hblank)
    · exact Or.inr hno
  · rintro (hempty | hno)
    · obtain ⟨only, rfl, -⟩ := isEmpty_iff.mp hempty
      exact Or.inl rfl
    · exact Or.inr hno

theorem ofSegments_strict_iff :
    ofSegments .strict segs = .ok (ps, names) ↔
      LeavesOver segs ps names ∧ NoneBlank segs ∧ names = [] := by
  rw [ofSegments_eq_ok_iff, expand_declarations_iff, noneBlank_iff]
  simp

/-- A text is refused in both modes alike, or there is a list in its front. -/
theorem same_error_or_listOf (text : String) :
    (∃ e, ∀ mode, parse mode text = .error e) ∨
      (text.toList.head? = some '(' ∧ text.toList.getLast? = some ')' ∧
        ∃ segs list rest, ListOf segs list ∧ text.toList = list ++ rest) := by
  by_cases hopen : text.toList.head? = some '(' ∧ text.toList.getLast? = some ')'
  case neg => exact Or.inl ⟨_, fun _ => parse_of_not_enclosed hopen⟩
  obtain ⟨hhead, hlast⟩ := hopen
  rcases level_ne_or_exists_firstReturn hhead with hnever | ⟨list, hfirst⟩
  · exact Or.inl ⟨_, fun _ => parse_of_level_ne hhead hlast hnever⟩
  · obtain ⟨segs, rest, hsegs, htext⟩ := hfirst.exists_listOf hhead
    exact Or.inr ⟨hhead, hlast, segs, list, rest, hsegs, htext⟩

section List

variable {list rest : List Char} (hhead : text.toList.head? = some '(')
  (hlast : text.toList.getLast? = some ')') (hsegs : ListOf segs list) (htext : text.toList = list ++ rest)

include hhead hlast hsegs htext

/-- A text with a list in its front is accepted by the lenient mode with what its segments declare. -/
theorem parse_lenient_iff : parse .lenient text = .ok ps ↔ ∃ names, LeavesOver segs ps names := by
  rw [parse_of_append hhead hlast hsegs htext, if_neg (by simp), ofSegments_lenient]
  simp only [← expand_declarations_iff, Except.ok.injEq]
  constructor
  · rintro rfl
    exact ⟨_, rfl⟩
  · rintro ⟨names, heq⟩
    rw [heq]

theorem parse_strict_iff :
    parse .strict text = .ok ps ↔ LeavesOver segs ps [] ∧ NoneBlank segs ∧ rest = [] := by
  by_cases hrest : rest = []
  · rw [hrest, List.append_nil] at htext
    rw [parse_eq_ok_iff_of_listOf (htext ▸ hsegs)]
    simp [ofSegments_strict_iff, hrest]
  · rw [parse_of_append hhead hlast hsegs htext, if_pos ⟨rfl, hrest⟩]
    simp [hrest]

end List

theorem restricts (text : String) : Restricts (parse .strict text) (parse .lenient text) := by
  rcases same_error_or_listOf text with ⟨e, he⟩ | ⟨hhead, hlast, segs, list, rest, hsegs, htext⟩
  · exact .of_eq ((he .strict).trans (he .lenient).symm)
  · have hlenient := expand_declarations_iff.mp (Eq.refl (Parameter.expand (declarations segs)))
    refine .of_ok ((parse_lenient_iff hhead hlast hsegs htext).mpr ⟨_, hlenient⟩) fun ps hps => ?_
    obtain ⟨hleaves, -, -⟩ := (parse_strict_iff hhead hlast hsegs htext).mp hps
    exact (parse_lenient_iff hhead hlast hsegs htext).mpr ⟨[], hleaves⟩

theorem parse_strict_iff_of_lenient (h : parse .lenient text = .ok ps) :
    ∃ segs list rest names, ListOf segs list ∧ text.toList = list ++ rest ∧ LeavesOver segs ps names ∧
      (parse .strict text = .ok ps ↔ NoneBlank segs ∧ names = [] ∧ rest = []) := by
  rcases same_error_or_listOf text with ⟨e, he⟩ | ⟨hhead, hlast, segs, list, rest, hsegs, htext⟩
  · rw [he .lenient] at h
    cases h
  · obtain ⟨names, hleaves⟩ := (parse_lenient_iff hhead hlast hsegs htext).mp h
    refine ⟨segs, list, rest, names, hsegs, htext, hleaves, ?_⟩
    rw [parse_strict_iff hhead hlast hsegs htext]
    -- the names left over are those of the segments, whatever the mode, so `names` must be empty
    constructor
    · rintro ⟨hall, hno, hrest⟩
      exact ⟨hno, hleaves.names_eq hall, hrest⟩
    · rintro ⟨hno, rfl, hrest⟩
      exact ⟨hleaves, hno, hrest⟩

end ParameterList

namespace Signature

open ParameterList

variable {segs : List (List Char)} {rest : List Char} {s : Signature} {text : String}

theorem same_error_or_signatureOf (text : String) :
    (∃ e, ∀ mode, parse mode text = .error e) ∨ ∃ segs rest, SignatureOf segs rest text.toList := by
  by_cases hstart : "func(".toList <+: text.toList
  case neg => exact Or.inl ⟨_, fun _ => parse_of_not_start hstart⟩
  obtain ⟨after, hafter⟩ := hstart
  have htext : text.toList = "func".toList ++ '(' :: after := hafter.symm
  have hhead : ('(' :: after).head? = some '(' := rfl
  rcases level_ne_or_exists_firstReturn hhead with hnever | ⟨list, hfirst⟩
  · exact Or.inl ⟨_, fun _ => parse_of_level_ne htext hnever⟩
  · obtain ⟨segs, rest, hsegs, hlist⟩ := hfirst.exists_listOf hhead
    refine Or.inr ⟨segs, rest, list, hsegs, ?_⟩
    rw [htext, hlist, ← List.append_assoc]
    rfl

theorem parse_lenient_iff (h : SignatureOf segs rest text.toList) :
    parse .lenient text = .ok s ↔
      (∃ names, LeavesOver segs s.params names) ∧ s.returns.toList = trim rest := by
  rw [parse_eq_ok_iff_of_signatureOf h]
  simp only [ofSegments_lenient_iff]

theorem parse_strict_iff (h : SignatureOf segs rest text.toList) :
    parse .strict text = .ok s ↔
      LeavesOver segs s.params [] ∧ NoneBlank segs ∧ s.returns.toList = trim rest := by
  rw [parse_eq_ok_iff_of_signatureOf h]
  simp [ofSegments_strict_iff, and_assoc]

theorem restricts (text : String) : Restricts (parse .strict text) (parse .lenient text) := by
  rcases same_error_or_signatureOf text with ⟨e, he⟩ | ⟨segs, rest, hsig⟩
  · exact .of_eq ((he .strict).trans (he .lenient).symm)
  · have hlenient := expand_declarations_iff.mp (Eq.refl (Parameter.expand (declarations segs)))
    have hok : parse .lenient text =
        .ok ⟨(Parameter.expand (declarations segs)).1, String.ofList (trim rest)⟩ :=
      (parse_lenient_iff hsig).mpr ⟨⟨_, hlenient⟩, String.toList_ofList⟩
    refine .of_ok hok fun s hs => ?_
    obtain ⟨hleaves, -, hreturns⟩ := (parse_strict_iff hsig).mp hs
    exact (parse_lenient_iff hsig).mpr ⟨⟨[], hleaves⟩, hreturns⟩

theorem parse_strict_iff_of_lenient (h : parse .lenient text = .ok s) :
    ∃ segs rest names, SignatureOf segs rest text.toList ∧ LeavesOver segs s.params names ∧
      (parse .strict text = .ok s ↔ NoneBlank segs ∧ names = []) := by
  obtain ⟨segs, rest, hsig⟩ := exists_signatureOf_of_parse h
  obtain ⟨⟨names, hleaves⟩, hreturns⟩ := (parse_lenient_iff hsig).mp h
  refine ⟨segs, rest, names, hsig, hleaves, ?_⟩
  rw [parse_strict_iff hsig]
  constructor
  · rintro ⟨hall, hno, -⟩
    exact ⟨hno, hleaves.names_eq hall⟩
  · rintro ⟨hno, rfl⟩
    exact ⟨hleaves, hno, hreturns⟩

end Signature

/-- Of signatures as of lists, the strict mode accepts less than the lenient one. A lenient result is a
strict one exactly if none of several segments is blank, no name is left over and, for a list read on its
own, no text stands behind its end. -/
theorem strict_restricts_lenient (text : String) :
    Restricts (Signature.parse .strict text) (Signature.parse .lenient text) ∧
    (∀ s, Signature.parse .lenient text = .ok s →
      ∃ segs rest names, SignatureOf segs rest text.toList ∧
        ParameterList.LeavesOver segs s.params names ∧
        (Signature.parse .strict text = .ok s ↔ NoneBlank segs ∧ names = [])) ∧
    Restricts (ParameterList.parse .strict text) (ParameterList.parse .lenient text) ∧
    (∀ ps, ParameterList.parse .lenient text = .ok ps →
      ∃ segs list rest names, ListOf segs list ∧ text.toList = list ++ rest ∧
        ParameterList.LeavesOver segs ps names ∧
        (ParameterList.parse .strict text = .ok ps ↔ NoneBlank segs ∧ names = [] ∧ rest = [])) :=
  ⟨Signature.restricts text, fun _ => Signature.parse_strict_iff_of_lenient,
    ParameterList.restricts text, fun _ => ParameterList.parse_strict_iff_of_lenient⟩

/-- A list with text behind it is accepted by the lenient mode alone, and a text with nothing to pass
over by both. -/
theorem strict_restricts_lenient_at_trailing_list :
    (ParameterList.parse .lenient "(a, b int)(c d)" = .ok [⟨"a", "int"⟩, ⟨"b", "int"⟩] ∧
      Signature.parse .strict "(a, b int)(c d)" =
        .error (.signature .missingKeyword "(a, b int)(c d)") ∧
      ∃ segs list rest names, ListOf segs list ∧ "(a, b int)(c d)".toList = list ++ rest ∧
        ParameterList.LeavesOver segs [⟨"a", "int"⟩, ⟨"b", "int"⟩] names ∧
        (ParameterList.parse .strict "(a, b int)(c d)" = .ok [⟨"a", "int"⟩, ⟨"b", "int"⟩] ↔
          NoneBlank segs ∧ names = [] ∧ rest = [])) ∧
    Signature.parse .lenient "func(a, b int) c" = .ok ⟨[⟨"a", "int"⟩, ⟨"b", "int"⟩], "c"⟩ ∧
      ∃ segs rest names, SignatureOf segs rest "func(a, b int) c".toList ∧
        ParameterList.LeavesOver segs [⟨"a", "int"⟩, ⟨"b", "int"⟩] names ∧
        (Signature.parse .strict "func(a, b int) c" = .ok ⟨[⟨"a", "int"⟩, ⟨"b", "int"⟩], "c"⟩ ↔
          NoneBlank segs ∧ names = []) := by
  have hlist : ParameterList.parse .lenient "(a, b int)(c d)" = .ok [⟨"a", "int"⟩, ⟨"b", "int"⟩] := rfl
  have hstrict : Signature.parse .strict "func(a, b int) c" =
      .ok ⟨[⟨"a", "int"⟩, ⟨"b", "int"⟩], "c"⟩ := rfl
  obtain ⟨hrestricts, -, -, hlenient⟩ := strict_restricts_lenient "(a, b int)(c d)"
  obtain ⟨hrestricts', hlenient', -, -⟩ := strict_restricts_lenient "func(a, b int) c"
  have hsignature := hrestricts'.same_result _ hstrict
  exact ⟨⟨hlist, hrestricts.same_error _ rfl, hlenient _ hlist⟩, hsignature, hlenient' _ hsignature⟩

end FuncType
