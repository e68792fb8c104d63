import FuncType.Signature
import FuncType.Proofs.AcceptedLists

/-!
# Which signatures are accepted

A signature is the keyword, a parameter list in parentheses and whatever follows (`SignatureOf`). No
text is one in two ways, because the list ends where its first parenthesis is closed; so reading a
signature is reading its list, and what follows the list goes into the returns without a look at it
(`Signature.parse_of_signatureOf`).
-/

namespace FuncType

/-- A text is a signature with some segments and a rest: the keyword, the list of the segments, and
the rest. -/
def SignatureOf (segs : List (List Char)) (rest text : List Char) : Prop :=
  ∃ list, ListOf segs list ∧ text = Signature.keyword.toList ++ list ++ rest

theorem SignatureOf.isItem {segs : List (List Char)} {rest text : List Char}
    (h : SignatureOf segs rest text) : ∀ segment ∈ segs, IsItem segment := by
  obtain ⟨list, hlist, -⟩ := h
  exact hlist.isItem

/-- A text is a signature in one way only. -/
theorem SignatureOf.unique {segs segs' : List (List Char)} {rest rest' text : List Char}
    (h : SignatureOf segs rest text) (h' : SignatureOf segs' rest' text) :
    segs = segs' ∧ rest = rest' := by
  obtain ⟨list, hlist, rfl⟩ := h
  obtain ⟨list', hlist', htext⟩ := h'
  rw [List.append_assoc, List.append_assoc, List.append_cancel_left_eq] at htext
  have hcut := hlist.cut?_append rest
  rw [htext, hlist'.cut?_append] at hcut
  obtain ⟨hbody, hrest⟩ := Group.mk.inj (Option.some.inj hcut)
  rw [← hlist.segments_eq, ← hlist'.segments_eq, hbody]
  exact ⟨rfl, hrest.symm⟩

namespace Signature

theorem afterKeyword?_eq_some_iff {text after : List Char} :
    afterKeyword? text = some after ↔
      text = keyword.toList ++ after ∧ ∃ more, after = '(' :: more := by
  rw [afterKeyword?]
  constructor
  · intro h
    split at h
    case isTrue hstart =>
      obtain ⟨more, rfl⟩ := List.isPrefixOf_iff_prefix.mp hstart
      obtain rfl := Option.some.inj h
      exact ⟨rfl, more, rfl⟩
    case isFalse => cases h
  · rintro ⟨rfl, more, rfl⟩
    rfl

theorem afterKeyword?_of_listOf {segs : List (List Char)} {text list rest : List Char}
    (hlist : ListOf segs list) (htext : text = keyword.toList ++ list ++ rest) :
    afterKeyword? text = some (list ++ rest) := by
  rw [afterKeyword?_eq_some_iff, htext, List.append_assoc, hlist.text_eq]
  exact ⟨rfl, _, rfl⟩

/-- Reading a signature is reading its parameter list; what follows the list is kept without the
white space around it. -/
theorem parse_of_signatureOf {mode : Mode} {text : String} {list rest : List Char}
    {segs : List (List Char)} (hlist : ListOf segs list)
    (htext : text.toList = keyword.toList ++ list ++ rest) :
    parse mode text = (ParameterList.parse mode (String.ofList list)).map fun params =>
      { params, returns := String.ofList (trim rest) } := by
  obtain ⟨group, hcut, hgroup, hrest, -⟩ := hlist.exists_group rest
  rw [parse_eq, afterKeyword?_of_listOf hlist htext]
  simp only [hcut, hgroup, hrest]

/-- What is accepted is a signature. -/
theorem exists_signatureOf_of_parse {mode : Mode} {text : String} {s : Signature}
    (h : parse mode text = .ok s) : ∃ segs rest, SignatureOf segs rest text.toList := by
  rw [parse_eq] at h
  cases hafter : afterKeyword? text.toList with
  | none => rw [hafter] at h; cases h
  | some after =>
    obtain ⟨htext, -⟩ := afterKeyword?_eq_some_iff.mp hafter
    rw [hafter] at h
    cases hcut : Group.cut? after with
    | none => simp only [hcut] at h; cases h
    | some group =>
      obtain ⟨rfl, hbody⟩ := Group.cut?_eq_some_iff.mp hcut
      refine ⟨group.segments, group.rest, group.text, Group.listOf_segments hbody, ?_⟩
      rw [htext, List.append_assoc]

/-- A signature is accepted if its segments are; these give the parameters, and the rest gives the
returns. -/
theorem parse_eq_ok_iff_of_signatureOf {mode : Mode} {text : String} {rest : List Char}
    {segs : List (List Char)} {s : Signature} (h : SignatureOf segs rest text.toList) :
    parse mode text = .ok s ↔
      (∃ leftOver, ParameterList.ofSegments mode segs = .ok (s.params, leftOver)) ∧
        s.returns.toList = trim rest := by
  obtain ⟨list, hlist, htext⟩ := h
  have hlist' : ListOf segs (String.ofList list).toList := by rwa [String.toList_ofList]
  rw [parse_of_signatureOf hlist htext, ← ParameterList.parse_eq_ok_iff_of_listOf hlist']
  obtain ⟨params, returns⟩ := s
  cases ParameterList.parse mode (String.ofList list) with
  | error e => simp [Except.map]
  | ok ps =>
    simp only [Except.map, Except.ok.injEq, Signature.mk.injEq, and_congr_right_iff]
    intro _
    constructor
    · rintro rfl
      exact String.toList_ofList
    · intro hreturns
      rw [← hreturns, String.ofList_toList]

/-- The parameters of an accepted signature are those of its declarations, and its returns are what
follows the list, trimmed. -/
theorem exists_declarations_of_parse {mode : Mode} {text : String} {s : Signature}
    (h : parse mode text = .ok s) :
    ∃ segs rest, SignatureOf segs rest text.toList ∧
      s.params = (Parameter.expand (ParameterList.declarations segs)).1 ∧
      s.returns.toList = trim rest := by
  obtain ⟨segs, rest, hsig⟩ := exists_signatureOf_of_parse h
  obtain ⟨⟨leftOver, hok⟩, hreturns⟩ := (parse_eq_ok_iff_of_signatureOf hsig).mp h
  obtain ⟨hexpand, -⟩ := ParameterList.ofSegments_eq_ok_iff.mp hok
  exact ⟨segs, rest, hsig, by rw [hexpand], hreturns⟩

end Signature

end FuncType
