import FuncType.Signature
import FuncType.Proofs.CheckedScans
import FuncType.Proofs.LosslessSplit

/-!
# Reading without undefined steps

The readers of lists, signatures and results, written over the checked scans. They take the list of a
signature, what stands behind its keyword and what stands behind its list by byte offsets, and look
whether a list ends with a text by comparing its end with the length of the text less one. So they fail
if one of these offsets is out of range or inside a character, if the length of an empty text is
lowered, or if a scan fails.

Main statement: for no text does any of them fail, and what they read is what the readers of the library
read (`Checked.reading_eq`).
-/

namespace FuncType

namespace Checked

/-! ## Readers -/

/-- Whether the byte at an offset is the last one of a text. -/
def isLast (text : List Char) (offset : Nat) : Except Trap Bool := do
  return offset == (← lower (utf8 text).length)

/-- Whether a list that is closed at an offset may stand in a text: the strict mode wants it to be the
whole text. -/
def mayClose (mode : Mode) (text : List Char) (close : Nat) : Except Trap Bool :=
  match mode with
  | .strict => isLast text close
  | .lenient => .ok true

/-- Reads a text as a parameter list. -/
def parameterList (mode : Mode) (text : String) :
    Except Trap (Except SignatureError (List Parameter)) :=
  if ParameterList.isEnclosed text.toList = false then
    return .error (.parameterList .notEnclosed text)
  else do
    match ← split text.toList with
    | none => return .error (.parameterList .unbalanced text)
    | some (segs, close) =>
      if ← mayClose mode text.toList close then
        match ParameterList.ofSegments mode segs with
        | .error fault => return .error (.parameterList fault text)
        | .ok (params, _) => return .ok params
      else return .error (.parameterList .trailingText text)

/-- Reads a text as a signature. -/
def signature (mode : Mode) (text : String) : Except Trap (Except SignatureError Signature) :=
  if (Signature.keyword.toList ++ ['(']).isPrefixOf text.toList then do
    let start := (utf8 Signature.keyword.toList).length
    match ← closeOffset (← sliceFrom text.toList start) with
    | none => return .error (.signature .unbalanced text)
    | some close =>
      let stop := start + close + 1
      let list ← slice text.toList start stop
      match ← parameterList mode (String.ofList list) with
      | .error e => return .error e
      | .ok params =>
        let rest ← sliceFrom text.toList stop
        return .ok { params, returns := String.ofList (trim rest) }
  else return .error (.signature .missingKeyword text)

/-- Reads a text as a list of results. -/
def results (text : String) : Except Trap (List String) :=
  let trimmed := trim text.toList
  if trimmed = [] then return []
  else if trimmed.head? ≠ some '(' then return [String.ofList trimmed]
  else do
    match ← split trimmed with
    | none => return [String.ofList trimmed]
    | some (segs, close) =>
      if ← isLast trimmed close then return ResultList.ofSegments segs
      else return [String.ofList trimmed]

/-! ## Nothing fails -/

theorem length_utf8_text (g : Group Char) : (utf8 g.text).length = g.closeOffset + 1 := by
  rw [Group.text, List.cons_append, length_utf8_cons, utf8_append, List.length_append, Group.closeOffset,
    Nat.add_comm]
  rfl

/-- The closing parenthesis is the last byte of a text if nothing follows the group. -/
theorem isLast_closeOffset {text : List Char} {g : Group Char} (h : Group.cut? text = some g) :
    isLast text g.closeOffset = .ok (decide (g.rest = [])) := by
  have hlength : (utf8 text).length = (g.closeOffset + (utf8 g.rest).length) + 1 := by
    rw [Group.text_of_cut? h, utf8_append, List.length_append, length_utf8_text]
    omega
  have hlast : (g.closeOffset == g.closeOffset + (utf8 g.rest).length) = decide (g.rest = []) := by
    cases g.rest with
    | nil => simp
    | cons c more =>
      have hsize := Char.utf8Size_pos c
      rw [length_utf8_cons]
      simp
      omega
  rw [isLast, hlength, lower, ok_bind, hlast]
  rfl

theorem mayClose_closeOffset {mode : Mode} {text : List Char} {g : Group Char}
    (h : Group.cut? text = some g) :
    mayClose mode text g.closeOffset = .ok (decide (¬ (mode = .strict ∧ g.rest ≠ []))) := by
  cases mode with
  | strict =>
    rw [mayClose, isLast_closeOffset h]
    simp
  | lenient => rfl

theorem parameterList_eq (mode : Mode) (text : String) :
    parameterList mode text = .ok (ParameterList.parse mode text) := by
  rw [ParameterList.parse_eq, parameterList]
  split
  case isTrue => rfl
  case isFalse =>
    rw [split_eq, ok_bind]
    cases hcut : Group.cut? text.toList with
    | none => rfl
    | some g =>
      rw [Option.map_some]
      dsimp only
      rw [mayClose_closeOffset hcut, ok_bind]
      by_cases htrailing : mode = .strict ∧ g.rest ≠ []
      · rw [if_pos htrailing, if_neg (by simpa using htrailing)]
        rfl
      · rw [if_neg htrailing, if_pos (decide_eq_true htrailing)]
        cases ParameterList.ofSegments mode g.segments <;> rfl

theorem signature_eq (mode : Mode) (text : String) :
    signature mode text = .ok (Signature.parse mode text) := by
  rw [Signature.parse_eq, signature, Signature.afterKeyword?]
  split
  case isFalse => rfl
  case isTrue hstart =>
    obtain ⟨more, htext⟩ := List.isPrefixOf_iff_prefix.mp hstart
    rw [List.append_assoc, List.singleton_append] at htext
    have hdrop : text.toList.drop Signature.keyword.length = '(' :: more := by
      rw [← htext]
      rfl
    rw [hdrop, ← htext]
    dsimp only
    rw [sliceFrom_append, ok_bind, closeOffset_eq, ok_bind]
    cases hcut : Group.cut? ('(' :: more) with
    | none => rfl
    | some g =>
      -- the list ends with the byte behind `start` and the offset at which its parenthesis closes
      have hstop : (utf8 Signature.keyword.toList).length + g.closeOffset + 1 =
          (utf8 (Signature.keyword.toList ++ g.text)).length := by
        rw [utf8_append, List.length_append, length_utf8_text]
        rfl
      rw [Option.map_some]
      dsimp only
      rw [hstop, Group.text_of_cut? hcut, ← List.append_assoc, slice_append, ok_bind, parameterList_eq,
        ok_bind, sliceFrom_append]
      cases ParameterList.parse mode (String.ofList g.text) <;> rfl

theorem results_eq (text : String) : results text = .ok (ResultList.parse text) := by
  rw [ResultList.parse_eq, results]
  split
  case isTrue hnil =>
    rw [hnil]
    rfl
  case isFalse hne =>
    have hsingle : [String.ofList (trim text.toList)] = ResultList.single (trim text.toList) :=
      (if_neg hne).symm
    rw [hsingle]
    split
    case isTrue hhead =>
      rw [cut?_of_head_ne hhead]
      rfl
    case isFalse hhead =>
      rw [split_eq, ok_bind]
      cases hcut : Group.cut? (trim text.toList) with
      | none => rfl
      | some g =>
        rw [Option.map_some]
        dsimp only
        rw [isLast_closeOffset hcut, ok_bind]
        by_cases hrest : g.rest = []
        · rw [if_pos hrest, if_pos (decide_eq_true hrest)]
          rfl
        · rw [if_neg hrest, if_neg (by simpa using hrest)]
          rfl

/-- No scan and no reader comes to a step that is not defined, whatever the text and the mode: with all
steps checked, each of them finds what it finds without the checks. -/
theorem reading_eq (mode : Mode) (text : String) :
    closeOffset text.toList = .ok (closingOffset? text).value ∧
    split text.toList =
      .ok ((Group.split? text.toList).value.map fun g => (g.segments, g.closeOffset)) ∧
    parameterList mode text = .ok (ParameterList.parse mode text) ∧
    signature mode text = .ok (Signature.parse mode text) ∧
    results text = .ok (ResultList.parse text) := by
  rw [value_closingOffset?, Group.value_split?]
  exact ⟨closeOffset_eq _, split_eq _, parameterList_eq mode text, signature_eq mode text,
    results_eq text⟩

end Checked

end FuncType
