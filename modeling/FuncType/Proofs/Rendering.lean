import FuncType.Proofs.NameCuts

/-!
# Signatures as they are written

A written signature is the keyword, the list of the written parameters and, after a space, the
returns. This module says what its characters are (`Signature.toList_render`), what the segments of
the list are if no parameter has a comma or a parenthesis out of place (`Parameter.written`), and
what reading makes of these (`Signature.parse_render_of_readable`).
-/

namespace FuncType

open Declaration

/-! ## Parameters -/

/-- A parameter with a single word for a name and a trimmed type, as all accepted parameters are. -/
structure Parameter.Tidy (p : Parameter) : Prop where
  name_ne : p.name ≠ ""
  name_noSpace : ¬ HasSpace p.name.toList
  type_ne : p.type ≠ ""
  type_trimmed : IsTrimmed p.type.toList

/-- A parameter that can be told from its written form: it is tidy, and written it is an item. -/
structure Parameter.Readable (p : Parameter) : Prop extends p.Tidy where
  isItem : IsItem p.render.toList

namespace Parameter

theorem toList_render (p : Parameter) : p.render.toList = p.name.toList ++ [' '] ++ p.type.toList := by
  simp [render]

theorem signs_render (p : Parameter) :
    signs p.render.toList = signs p.name.toList ++ signs p.type.toList := by
  have hspace : signs [' '] = [] := signs_of_isBlank rfl
  rw [toList_render, signs_append, signs_append, hspace, List.append_nil]

theorem isItem_render_iff {p : Parameter} :
    IsItem p.render.toList ↔ IsItem (p.name.toList ++ p.type.toList) :=
  isItem_congr (by rw [signs_render, signs_append])

theorem level_render (p : Parameter) :
    level p.render.toList = level p.name.toList + level p.type.toList := by
  have hspace : level [' '] = 0 := rfl
  rw [toList_render, level_append, level_append, hspace]
  omega

/-- With an item for a name, a written parameter is an item if its type is one. -/
theorem isItem_render_iff_of_name {p : Parameter} (hname : IsItem p.name.toList) :
    IsItem p.render.toList ↔ IsItem p.type.toList := by
  rw [isItem_render_iff, isItem_append hname.balanced.level_eq_zero]
  exact and_iff_right hname

/-- After white space or none, a written parameter declares that parameter. -/
theorem Tidy.ofSegment_render {p : Parameter} (h : p.Tidy) {u : List Char} (hu : isBlank u) :
    ofSegment (u ++ p.render.toList) = ⟨p.name, some p.type⟩ := by
  have hrun : isBlank [' '] = true := rfl
  have hnil : isBlank [] = true := rfl
  have hsegment := ofSegment_append hu h.name_ne h.name_noSpace (List.cons_ne_nil ' ' []) hrun
    h.type_ne h.type_trimmed hnil
  rwa [List.append_nil, ← toList_render] at hsegment

/-- The texts between the commas of a written list. -/
def written : List Parameter → List (List Char)
  | [] => [[]]
  | p :: more => p.render.toList :: more.map fun q => ' ' :: q.render.toList

theorem written_ne_nil (ps : List Parameter) : written ps ≠ [] := by
  cases ps <;> simp [written]

/-- A comma and a space between two texts are a comma and a space in front of the second. -/
theorem intercalate_map_cons (text : List Char) (more : List (List Char)) :
    [','].intercalate (text :: more.map (' ' :: ·)) = [',', ' '].intercalate (text :: more) := by
  induction more generalizing text with
  | nil => simp
  | cons next rest ih =>
    rw [List.map_cons, List.intercalate_cons_cons, List.intercalate_cons_cons, ih]
    cases rest <;> simp [List.intercalate_cons_cons]

theorem intercalate_written (ps : List Parameter) :
    [','].intercalate (written ps) = [',', ' '].intercalate (ps.map fun p => p.render.toList) := by
  cases ps with
  | nil => rfl
  | cons p more =>
    have h := intercalate_map_cons p.render.toList (more.map fun q => q.render.toList)
    rw [List.map_map] at h
    exact h

theorem isItem_of_mem_written {ps : List Parameter} (h : ∀ p ∈ ps, IsItem p.render.toList) :
    ∀ segment ∈ written ps, IsItem segment := by
  cases ps with
  | nil =>
    intro segment hmem
    rw [List.mem_singleton.mp hmem]
    exact itemFrom_nil.mpr rfl
  | cons p more =>
    obtain ⟨hp, hmore⟩ := List.forall_mem_cons.mp h
    refine List.forall_mem_cons.mpr ⟨hp, ?_⟩
    intro segment hmem
    obtain ⟨q, hq, rfl⟩ := List.mem_map.mp hmem
    exact (isItem_congr (signs_append [' '] _)).mpr (hmore q hq)

theorem map_ofSegment_written {ps : List Parameter} (hne : ps ≠ []) (h : ∀ p ∈ ps, p.Tidy) :
    (written ps).map ofSegment = ps.map fun p => ⟨p.name, some p.type⟩ := by
  obtain ⟨p, more, rfl⟩ := List.exists_cons_of_ne_nil hne
  obtain ⟨hp, hmore⟩ := List.forall_mem_cons.mp h
  have hfirst : ofSegment p.render.toList = ⟨p.name, some p.type⟩ :=
    hp.ofSegment_render (u := []) rfl
  have hrest : more.map (ofSegment ∘ fun q => ' ' :: q.render.toList) =
      more.map fun q => ⟨q.name, some q.type⟩ :=
    List.map_congr_left fun q hq => (hmore q hq).ofSegment_render (u := [' ']) rfl
  rw [written, List.map_cons, List.map_cons, List.map_map, hfirst, hrest]

theorem isBlank_of_mem_written {ps : List Parameter} (hne : ps ≠ []) (h : ∀ p ∈ ps, p.Tidy) :
    ∀ segment ∈ written ps, isBlank segment = false := by
  intro segment hmem
  have hmem' := List.mem_map_of_mem (f := ofSegment) hmem
  rw [map_ofSegment_written hne h] at hmem'
  obtain ⟨q, -, hq⟩ := List.mem_map.mp hmem'
  have htype : (ofSegment segment).type? = some q.type := by rw [← hq]
  exact isBlank_of_typed htype

/-- Tidy parameters are what their written forms declare. -/
theorem ofSegments_written {mode : Mode} {ps : List Parameter} (h : ∀ p ∈ ps, p.Tidy) :
    ParameterList.ofSegments mode (written ps) = .ok (ps, []) := by
  rw [ParameterList.ofSegments_eq_ok_iff]
  by_cases hne : ps = []
  · rw [hne]
    exact ⟨rfl, fun _ => ⟨Or.inl rfl, rfl⟩⟩
  have hno := isBlank_of_mem_written hne h
  rw [ParameterList.declarations_of_noBlank hno, map_ofSegment_written hne h, expand_typed]
  exact ⟨rfl, fun _ => ⟨Or.inr hno, rfl⟩⟩

end Parameter

/-! ## Signatures -/

namespace Signature

/-- What is written behind the list of a signature. -/
def tail (s : Signature) : List Char :=
  if s.isVoid then [] else ' ' :: s.returns.toList

/-- A written signature is the keyword, the written parameters in parentheses, and the returns. -/
theorem toList_render (s : Signature) :
    s.render.toList = keyword.toList ++ ('(' :: [','].intercalate (Parameter.written s.params) ++ [')'])
      ++ s.tail := by
  have htail : (if s.isVoid then "" else " " ++ s.returns).toList = s.tail := by
    unfold tail
    split <;> simp
  have hparams : (renderParams s.params).toList =
      '(' :: [','].intercalate (Parameter.written s.params) ++ [')'] := by
    rw [Parameter.intercalate_written, renderParams]
    simp [String.toList_intercalate, Function.comp_def]
  rw [render, String.toList_append, String.toList_append, htail, hparams]

theorem trim_tail (s : Signature) : trim s.tail = trim s.returns.toList := by
  have hspace : isBlank [' '] = true := rfl
  unfold tail
  split
  case isTrue hvoid =>
    rw [String.isEmpty_iff.mp hvoid]
    rfl
  case isFalse =>
    rw [trim, trim, ← List.singleton_append, trimStart_append hspace]

/-- A signature with readable parameters and trimmed returns is read from its written form. -/
theorem parse_render_of_readable {mode : Mode} {s : Signature} (hreturns : IsTrimmed s.returns.toList)
    (hparams : ∀ p ∈ s.params, p.Readable) : parse mode s.render = .ok s := by
  have hsig : SignatureOf (Parameter.written s.params) s.tail s.render.toList := by
    refine ⟨_, ⟨Parameter.written_ne_nil _, ?_, rfl⟩, toList_render s⟩
    exact Parameter.isItem_of_mem_written fun p hp => (hparams p hp).isItem
  rw [parse_eq_ok_iff_of_signatureOf hsig, trim_tail, trim_eq_self hreturns]
  exact ⟨⟨[], Parameter.ofSegments_written fun p hp => (hparams p hp).toTidy⟩, rfl⟩

end Signature

end FuncType
