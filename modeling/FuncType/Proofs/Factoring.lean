import FuncType.Proofs.Refusals
import Mathlib.Logic.ExistsUnique

/-!
# Signatures read through their lists

A signature is `func`, a list whose level first returns to zero at its end, and a rest. Reading it is
reading the list: the parameters, or the error, are those of the list alone, and the rest is trimmed
and kept whatever it holds (`Signature.parse_func_append`). In what is accepted the list and the rest
can be found in one way only.
-/

namespace FuncType

namespace Signature

/-- What is read of a list and a rest is what is read of the list, with the rest for its returns. -/
theorem parse_append {mode : Mode} {list : String} (h : ClosesAtEnd list.toList) (rest : String) :
    parse mode ("func" ++ list ++ rest) =
      (ParameterList.parse mode list).map fun params =>
        { params, returns := String.ofList (trim rest.toList) } := by
  obtain ⟨segs, hsegs⟩ := closesAtEnd_iff_listOf.mp h
  have htext : ("func" ++ list ++ rest).toList = keyword.toList ++ list.toList ++ rest.toList := by
    rw [String.toList_append, String.toList_append]
    rfl
  rw [parse_of_signatureOf hsegs htext, String.ofList_toList]

/-- A text is a signature with some segments exactly if it is `func`, a list and a rest. -/
theorem exists_append_of_signatureOf {segs : List (List Char)} {rest : List Char} {text : String}
    (h : SignatureOf segs rest text.toList) :
    ∃ list, ClosesAtEnd list.toList ∧ text = "func" ++ list ++ String.ofList rest := by
  obtain ⟨list, hlist, htext⟩ := h
  refine ⟨String.ofList list, ?_, ?_⟩
  · rw [String.toList_ofList]
    exact closesAtEnd_iff_listOf.mpr ⟨segs, hlist⟩
  · apply String.toList_inj.mp
    rw [htext]
    simp only [String.toList_append, String.toList_ofList]
    rfl

theorem append_inj {list list' rest rest' : String} (h : ClosesAtEnd list.toList)
    (h' : ClosesAtEnd list'.toList) (htext : "func" ++ list ++ rest = "func" ++ list' ++ rest') :
    list = list' ∧ rest = rest' := by
  have hlists : list.toList ++ rest.toList = list'.toList ++ rest'.toList := by
    have hchars := congrArg String.toList htext
    simp only [String.toList_append, List.append_assoc, List.append_cancel_left_eq] at hchars
    exact hchars
  have hfirst : FirstReturn (list.toList ++ rest.toList) list.toList :=
    firstReturn_append_iff.mpr h.firstReturn
  have hfirst' : FirstReturn (list'.toList ++ rest'.toList) list'.toList :=
    firstReturn_append_iff.mpr h'.firstReturn
  rw [← hlists] at hfirst'
  have hlist : list.toList = list'.toList := hfirst.unique hfirst'
  rw [hlist, List.append_cancel_left_eq] at hlists
  exact ⟨String.toList_inj.mp hlist, String.toList_inj.mp hlists⟩

/-- With any text behind its list, a signature has the parameters or the error of the list alone, and
the trimmed text for its returns. What is accepted is `func`, a list and a text in one way only. -/
theorem parse_func_append (mode : Mode) :
    (∀ list rest : String, ClosesAtEnd list.toList →
      (∀ params, ParameterList.parse mode list = .ok params →
        parse mode ("func" ++ list ++ rest) = .ok ⟨params, String.ofList (trim rest.toList)⟩) ∧
      (∀ e, ParameterList.parse mode list = .error e →
        parse mode ("func" ++ list ++ rest) = .error e ∧ e.subject = "parameter list" ∧
          e.input = list)) ∧
    ∀ text s, parse mode text = .ok s →
      ∃! parts : String × String,
        ClosesAtEnd parts.1.toList ∧ text = "func" ++ parts.1 ++ parts.2 := by
  refine ⟨fun list rest hlist => ⟨?_, ?_⟩, fun text s h => ?_⟩
  · intro params hparams
    rw [parse_append hlist, hparams]
    rfl
  · intro e he
    obtain ⟨hsubject, hinput, -⟩ := ParameterList.failsWith_iff.mp ⟨e, he, rfl, rfl, rfl⟩
    rw [parse_append hlist, he]
    exact ⟨rfl, hsubject, hinput⟩
  · obtain ⟨segs, rest, hsig⟩ := exists_signatureOf_of_parse h
    obtain ⟨list, hlist, htext⟩ := exists_append_of_signatureOf hsig
    refine ⟨(list, String.ofList rest), ⟨hlist, htext⟩, ?_⟩
    rintro ⟨list', rest'⟩ ⟨hlist', htext'⟩
    obtain ⟨rfl, rfl⟩ := append_inj hlist' hlist (htext'.symm.trans htext)
    rfl

/-- Text behind a list may hold closing parentheses and commas of any kind. -/
theorem parse_func_append_at_stray_signs :
    ClosesAtEnd "(a, f func(b) c)".toList ∧ ClosesAtEnd "(a, )".toList ∧
      parse .strict ("func" ++ "(a, f func(b) c)" ++ " ), (d ") =
        .ok ⟨[⟨"a", "func(b) c"⟩, ⟨"f", "func(b) c"⟩], "), (d"⟩ ∧
      parse .strict ("func" ++ "(a, )" ++ " ), (d ") =
        .error (.parameterList .emptyParameter "(a, )") ∧
      ∃! parts : String × String,
        ClosesAtEnd parts.1.toList ∧ "func(a, f func(b) c) ), (d " = "func" ++ parts.1 ++ parts.2 := by
  have hlist : ClosesAtEnd "(a, f func(b) c)".toList := Group.closesAtEnd_of_cut? rfl
  have hempty : ClosesAtEnd "(a, )".toList := Group.closesAtEnd_of_cut? rfl
  obtain ⟨hread, hsplit⟩ := parse_func_append .strict
  exact ⟨hlist, hempty, (hread _ _ hlist).1 _ rfl, ((hread _ _ hempty).2 _ rfl).1, hsplit _ _ rfl⟩

end Signature

end FuncType
