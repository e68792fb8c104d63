import FuncType.Proofs.FirstReturn
import FuncType.Proofs.RoundTrip

/-!
# Torn parameters

A parameter of an accepted text is *torn* if its written form is no item. Its name was declared without
a type, and the type that it shares was cut off inside of a group: it closes a group that it does not
open (`Parameter.torn_of_mem_expand`). So if a signature with a torn parameter is written out, its list
ends inside the type of the first one. What is read again is the parameters in front of it, and then
whatever the cut off text declares (`Signature.exists_signatureOf_of_torn`).
-/

namespace FuncType

open Declaration ParameterList

/-! ## Counting opening parentheses -/

theorem count_le_of_mem_intercalate (sep : List Char) {piece : List Char}
    {pieces : List (List Char)} (hmem : piece ∈ pieces) (c : Char) :
    piece.count c ≤ (sep.intercalate pieces).count c := by
  induction pieces with
  | nil => cases hmem
  | cons first more ih =>
    cases more with
    | nil =>
      rw [List.mem_singleton.mp hmem]
      simp
    | cons next rest =>
      rw [List.intercalate_cons_cons, List.count_append, List.count_append]
      rcases List.mem_cons.mp hmem with rfl | hmem
      · omega
      · have hle := ih hmem
        omega

theorem count_le_of_mem_segments {segment text : List Char} (hmem : segment ∈ segments text)
    (c : Char) : segment.count c ≤ text.count c := by
  have hle := count_le_of_mem_intercalate [','] hmem c
  rwa [intercalate_segments] at hle

/-- The type of a segment that is cut inside of a group lacks an opening parenthesis of it. -/
theorem count_type_lt {segment : List Char} {type : String} (hitem : IsItem segment)
    (htype : (ofSegment segment).type? = some type) (hcut : ¬ CutsOutside segment) :
    type.toList.count '(' < segment.count '(' := by
  have hnonneg := level_name_nonneg hitem htype
  have hne : level (ofSegment segment).name.toList ≠ 0 := by
    rwa [ne_eq, ← cutsOutside_iff_level htype]
  have hname : 0 < (ofSegment segment).name.toList.count '(' := by
    rw [level_eq_count_sub_count] at hnonneg hne
    omega
  obtain ⟨run, -, -, htrim⟩ := trim_of_typed htype
  obtain ⟨u, v, -, -, htext⟩ := exists_trim segment
  have hcount := congrArg (List.count '(') htext
  rw [htrim] at hcount
  simp only [List.count_append] at hcount
  omega

/-! ## Names in front of a blank -/

theorem word_trimEnd (text : List Char) : word (trimEnd text) = word text := by
  obtain ⟨v, hv, htext⟩ := exists_trimEnd text
  have hend : word v = [] := by
    cases v with
    | nil => rfl
    | cons c more =>
      have hc : isSpace c = true := isBlank_iff.mp hv c List.mem_cons_self
      rw [word, List.takeWhile_cons_of_neg (by simp [hc])]
  have happend : word (trimEnd text ++ v) = word (trimEnd text) := by
    unfold word at hend ⊢
    rw [List.takeWhile_append, hend]
    split
    case isTrue hall =>
      rw [List.append_nil]
      exact ((List.takeWhile_prefix _).eq_of_length hall).symm
    case isFalse => rfl
  rw [← happend, ← htext]

/-- A word with a blank behind it is the name that a segment declares. -/
theorem name_ofSegment_append {u name : List Char} {c : Char} (hu : isBlank u) (hne : name ≠ [])
    (hno : ¬ HasSpace name) (hc : isSpace c = true) (more : List Char) :
    (ofSegment (u ++ name ++ c :: more)).name.toList = name := by
  have hstart : trimStart (u ++ name ++ c :: more) = name ++ c :: more := by
    rw [List.append_assoc, trimStart_append hu]
    refine trimStart_eq_self ?_
    obtain ⟨d, rest, rfl⟩ := List.exists_cons_of_ne_nil hne
    intro e he
    obtain rfl : d = e := by simpa using he
    exact not_hasSpace_iff.mp hno d List.mem_cons_self
  rw [name_ofSegment, trim, word_trimEnd, hstart]
  exact word_append hno (by simpa using hc)

theorem isItem_padded {blank name : List Char} (hblank : isBlank blank) (hname : IsItem name) :
    IsItem (blank ++ name ++ [' ']) := by
  have hspace : signs [' '] = [] := signs_of_isBlank rfl
  refine (isItem_congr ?_).mpr hname
  rw [signs_append, signs_append, hspace, signs_of_isBlank hblank]
  simp

/-! ## What is known of a torn parameter -/

namespace Parameter

variable {segs : List (List Char)} {p : Parameter}

/-- A torn parameter has an item for its name, and its type was cut off inside of a group. -/
theorem torn_of_mem_expand (hitems : ∀ segment ∈ segs, IsItem segment)
    (hp : p ∈ (expand (declarations segs)).1) (htorn : ¬ IsItem p.render.toList) :
    IsItem p.name.toList ∧ level p.type.toList < 0 ∧
      ∃ source ∈ segs, (ofSegment source).type? = some p.type ∧ ¬ CutsOutside source := by
  obtain ⟨⟨segment, hmem, -, hname, hsegment⟩, source, hsource, htype⟩ :=
    exists_segments_of_mem_expand hp
  rcases hsegment with htyped | hbare
  · exact absurd (isItem_render_of_typed (hitems segment hmem) hname htyped) htorn
  have hitem := isItem_name_of_bare (hitems segment hmem) hbare
  rw [hname] at hitem
  have hcut : ¬ CutsOutside source := by
    rwa [← isItem_type_iff (hitems source hsource) htype, ← isItem_render_iff_of_name hitem]
  have hnonneg := level_name_nonneg (hitems source hsource) htype
  have hlevel := level_type (hitems source hsource) htype
  have hne : level (ofSegment source).name.toList ≠ 0 := by
    rwa [ne_eq, ← cutsOutside_iff_level htype]
  exact ⟨hitem, by omega, source, hsource, htype, hcut⟩

/-- Where there is a torn parameter, there is a first one. -/
theorem exists_first_torn (ps : List Parameter) :
    (∀ p ∈ ps, IsItem p.render.toList) ∨
      ∃ whole p rest, ps = whole ++ p :: rest ∧ (∀ q ∈ whole, IsItem q.render.toList) ∧
        ¬ IsItem p.render.toList := by
  induction ps with
  | nil => exact Or.inl (by simp)
  | cons p more ih =>
    by_cases hp : IsItem p.render.toList
    · rcases ih with hall | ⟨whole, q, rest, rfl, hwhole, hq⟩
      · exact Or.inl (List.forall_mem_cons.mpr ⟨hp, hall⟩)
      · exact Or.inr ⟨p :: whole, q, rest, rfl, List.forall_mem_cons.mpr ⟨hp, hwhole⟩, hq⟩
    · exact Or.inr ⟨[], p, more, rfl, by simp, hp⟩

/-- Parameters with types of their own are in front of those that further declarations stand for. -/
theorem expand_typed_append (ps : List Parameter) (ds : List Declaration) :
    expand (ps.map (fun p => ⟨p.name, some p.type⟩) ++ ds) = (ps ++ (expand ds).1, (expand ds).2) := by
  induction ps with
  | nil => rfl
  | cons p more ih => rw [List.map_cons, List.cons_append, expand, ih, List.cons_append]

end Parameter

theorem ParameterList.declarations_append (xs ys : List (List Char)) :
    declarations (xs ++ ys) = declarations xs ++ declarations ys := by
  simp [declarations]

/-! ## The written list of a torn parameter -/

theorem intercalate_append_left {sep tail : List Char} {xs ys : List (List Char)} (hxs : xs ≠ [])
    (hys : ys ≠ []) (h : sep.intercalate ys = sep.intercalate xs ++ tail)
    (front : List (List Char)) :
    sep.intercalate (front ++ ys) = sep.intercalate (front ++ xs) ++ tail := by
  induction front with
  | nil => exact h
  | cons first more ih =>
    have hcons : ∀ pieces : List (List Char), more ++ pieces ≠ [] →
        sep.intercalate (first :: (more ++ pieces)) =
          first ++ sep ++ sep.intercalate (more ++ pieces) := by
      intro pieces hne
      obtain ⟨next, rest, heq⟩ := List.exists_cons_of_ne_nil hne
      rw [heq, List.intercalate_cons_cons]
    rw [List.cons_append, List.cons_append, hcons ys (by simp [hys]), hcons xs (by simp [hxs]), ih]
    simp

theorem intercalate_cons_append {sep x y : List Char} (back : List (List Char)) :
    sep.intercalate ((x ++ y) :: back) = x ++ sep.intercalate (y :: back) := by
  cases back with
  | nil => simp
  | cons next rest => simp [List.intercalate_cons_cons]

namespace Parameter

/-- The written list of parameters, cut in front of one of them. -/
theorem written_append {whole : List Parameter} {p : Parameter} (rest : List Parameter)
    (htidy : ∀ q ∈ whole, q.Tidy) (hwhole : ∀ q ∈ whole, IsItem q.render.toList) :
    ∃ front blank back, isBlank blank ∧ (∀ segment ∈ front, IsItem segment) ∧
      declarations front = whole.map (fun q => ⟨q.name, some q.type⟩) ∧
      written (whole ++ p :: rest) = front ++ (blank ++ p.render.toList) :: back := by
  cases whole with
  | nil => exact ⟨[], [], _, rfl, by simp, rfl, rfl⟩
  | cons q more =>
    have hne : q :: more ≠ [] := List.cons_ne_nil q more
    refine ⟨written (q :: more), [' '], rest.map fun q => ' ' :: q.render.toList, rfl,
      isItem_of_mem_written hwhole, ?_, by simp [written]⟩
    rw [declarations_of_noBlank (isBlank_of_mem_written hne htidy), map_ofSegment_written hne htidy]

end Parameter

namespace Signature

/-- The written form of a signature with a torn parameter, and whole ones in front of it, is a
signature whose list ends inside the type of that parameter. -/
theorem exists_signatureOf_of_torn {s : Signature} {whole rest : List Parameter} {p : Parameter}
    {body after : List Char} (htidy : ∀ q ∈ s.params, q.Tidy) (hparams : s.params = whole ++ p :: rest)
    (hwhole : ∀ q ∈ whole, IsItem q.render.toList) (hname : IsItem p.name.toList)
    (htype : p.type.toList = body ++ ')' :: after) (hbody : Balanced body) :
    ∃ front blank returns, isBlank blank ∧
      declarations front = whole.map (fun q => ⟨q.name, some q.type⟩) ∧
      SignatureOf (front ++ segments (blank ++ p.name.toList ++ [' '] ++ body)) returns
        s.render.toList := by
  have htidy' : ∀ q ∈ whole, q.Tidy := by
    intro q hq
    exact htidy q (by rw [hparams]; exact List.mem_append_left _ hq)
  obtain ⟨front, blank, back, hblank, hfront, hdeclares, hwritten⟩ :=
    Parameter.written_append (p := p) rest htidy' hwhole
  refine ⟨front, blank, [','].intercalate (after :: back) ++ [')'] ++ s.tail, hblank, hdeclares, ?_⟩
  have hpiece : Balanced (blank ++ p.name.toList ++ [' '] ++ body) := by
    have hfirst := (isItem_padded hblank hname).balanced
    exact (balanced_append hfirst.level_eq_zero).mpr ⟨hfirst, hbody⟩
  have hsegment : blank ++ p.render.toList =
      (blank ++ p.name.toList ++ [' '] ++ body) ++ ')' :: after := by
    rw [Parameter.toList_render, htype]
    simp
  -- the parenthesis behind `body` closes the list, although it was written inside of `p`
  have hlist : [','].intercalate (Parameter.written s.params) =
      [','].intercalate (front ++ segments (blank ++ p.name.toList ++ [' '] ++ body)) ++
        ')' :: [','].intercalate (after :: back) := by
    rw [hparams, hwritten, hsegment]
    refine intercalate_append_left (segments_ne_nil _) (List.cons_ne_nil _ _) ?_ front
    rw [intercalate_segments, intercalate_cons_append]
    exact congrArg _ (intercalate_cons_append (x := [')']) back)
  refine ⟨_, ⟨by simp [segments_ne_nil], ?_, rfl⟩, ?_⟩
  · intro segment hmem
    rcases List.mem_append.mp hmem with hmem | hmem
    · exact hfront segment hmem
    · exact isItem_of_mem_segments hpiece segment hmem
  · rw [toList_render, hlist]
    simp

end Signature

end FuncType
