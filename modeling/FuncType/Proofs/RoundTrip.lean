import FuncType.Proofs.Rendering

/-!
# Reading what was written

If a written signature is read as the signature that was written, all its parameters are readable
(`Signature.readable_of_parse_render`). That their names are words and their types trimmed is so for
all accepted texts. That they are items is a matter of counting: a written parameter never opens
more groups than it closes (`Parameter.level_render_nonpos`), the list as a whole opens as many as
it closes, and so each parameter does.

An accepted signature itself may fail to be read from its written form: it does if a bare name takes
the type of a segment that is cut inside of a group (`Signature.parse_render_iff_of_parse`).
-/

namespace FuncType

open Declaration ParameterList

/-! ## Parameters of accepted segments -/

namespace Parameter

variable {segs : List (List Char)} {segment : List Char} {p : Parameter}

theorem tidy_of_mem_expand (hp : p ∈ (expand (declarations segs)).1) : p.Tidy := by
  obtain ⟨⟨segment, -, hblank, hname, -⟩, source, -, htype⟩ := exists_segments_of_mem_expand hp
  refine ⟨?_, ?_, type_ne_empty htype, isTrimmed_type htype⟩
  · rw [← hname]
    exact name_ne_empty hblank
  · rw [← hname]
    exact not_hasSpace_name segment

/-- A parameter is written with the signs of its segment, if that has the type, too. -/
theorem isItem_render_of_typed (hitem : IsItem segment) (hname : (ofSegment segment).name = p.name)
    (htype : (ofSegment segment).type? = some p.type) : IsItem p.render.toList := by
  rw [isItem_render_iff, ← hname, isItem_name_append_type htype]
  exact hitem

/-- A written parameter never opens more groups than it closes, and if it opens as many it is an
item: a name that opens a group keeps the type it was declared with. -/
theorem level_render_nonpos (hitems : ∀ segment ∈ segs, IsItem segment)
    (hp : p ∈ (expand (declarations segs)).1) :
    level p.render.toList ≤ 0 ∧ (level p.render.toList = 0 → IsItem p.render.toList) := by
  obtain ⟨⟨segment, hmem, -, hname, hsegment⟩, source, hsource, htype⟩ :=
    exists_segments_of_mem_expand hp
  rcases hsegment with htyped | hbare
  · have hitem := isItem_render_of_typed (hitems segment hmem) hname htyped
    have hzero := hitem.balanced.level_eq_zero
    exact ⟨by omega, fun _ => hitem⟩
  · have hitem := isItem_name_of_bare (hitems segment hmem) hbare
    rw [hname] at hitem
    have hnonneg := level_name_nonneg (hitems source hsource) htype
    have hlevel := level_type (hitems source hsource) htype
    rw [level_render, hitem.balanced.level_eq_zero, hlevel]
    refine ⟨by omega, fun hzero => ?_⟩
    rw [isItem_render_iff_of_name hitem, isItem_type_iff (hitems source hsource) htype,
      cutsOutside_iff_level htype]
    omega

end Parameter

/-! ## Signatures read from their written form -/

namespace Signature

variable {mode : Mode} {s : Signature}

theorem tidy_of_parse {text : String} (h : parse mode text = .ok s) :
    IsTrimmed s.returns.toList ∧ ∀ p ∈ s.params, p.Tidy := by
  obtain ⟨segs, rest, -, hparams, hreturns⟩ := exists_declarations_of_parse h
  refine ⟨by rw [hreturns]; exact isTrimmed_trim rest, fun p hp => ?_⟩
  rw [hparams] at hp
  exact Parameter.tidy_of_mem_expand hp

/-- A written parameter of an accepted signature opens no more groups than it closes, and is an item if
it opens as many. -/
theorem level_render_of_parse {text : String} (h : parse mode text = .ok s) :
    ∀ p ∈ s.params,
      level p.render.toList ≤ 0 ∧ (level p.render.toList = 0 → IsItem p.render.toList) := by
  obtain ⟨segs, rest, hsig, hparams, -⟩ := exists_declarations_of_parse h
  intro p hp
  rw [hparams] at hp
  exact Parameter.level_render_nonpos hsig.isItem hp

/-- If a signature is read from its written form, its list is found where it was written. -/
theorem level_written_of_parse_render (h : parse mode s.render = .ok s) :
    level ([','].intercalate (Parameter.written s.params)) = 0 := by
  obtain ⟨segs, rest, ⟨list, hlist, htext⟩, -, hreturns⟩ := exists_declarations_of_parse h
  have hrest : signs s.tail = signs rest := by
    rw [← signs_trim s.tail, trim_tail, signs_trim, hreturns, signs_trim]
  have hbody : [','].intercalate (Parameter.written s.params) = [','].intercalate segs := by
    rw [toList_render, hlist.text_eq] at htext
    simp only [List.cons_append, List.append_assoc, List.nil_append, List.append_cancel_left_eq,
      List.cons.injEq, true_and] at htext
    exact append_cons_inj (by decide) htext hrest
  have hcut := Group.cut?_eq_some_iff.mp (hlist.cut?_append [])
  rw [hbody]
  exact hcut.2.level_eq_zero

theorem readable_of_parse_render (h : parse mode s.render = .ok s) :
    IsTrimmed s.returns.toList ∧ ∀ p ∈ s.params, p.Readable := by
  obtain ⟨hreturns, htidy⟩ := tidy_of_parse h
  have hlevels := level_render_of_parse h
  have hle : ∀ piece ∈ s.params.map fun p => p.render.toList, level piece ≤ 0 := by
    intro piece hmem
    obtain ⟨p, hp, rfl⟩ := List.mem_map.mp hmem
    exact (hlevels p hp).1
  have hsum := level_written_of_parse_render h
  rw [Parameter.intercalate_written] at hsum
  refine ⟨hreturns, fun p hp => ⟨htidy p hp, (hlevels p hp).2 ?_⟩⟩
  have hsep : level [',', ' '] = 0 := rfl
  exact (level_intercalate_nonpos hsep hle).2 hsum _ (List.mem_map_of_mem hp)

/-- In both modes, a signature is read from its written form exactly if its returns are trimmed and
its parameters are readable: the name is one word, the type is trimmed, and the two together have
neither a parenthesis nor a comma out of place. -/
theorem parse_render_eq_ok_iff (mode : Mode) (s : Signature) :
    parse mode s.render = .ok s ↔
      IsTrimmed s.returns.toList ∧ ∀ p ∈ s.params, p.Readable := by
  constructor
  · exact readable_of_parse_render
  · rintro ⟨hreturns, hparams⟩
    exact parse_render_of_readable hreturns hparams

end Signature

/-! ## Accepted signatures written out -/

/-- No segment behind a bare name, which takes its type from there on, is cut inside of a group. -/
def SharesOutside (segs : List (List Char)) : Prop :=
  ∀ segment next, [segment, next] <:+: segs → HasSpace (trim segment) ∨ CutsOutside next

theorem sharesOutside_of_length_le {segs : List (List Char)} (h : segs.length ≤ 1) :
    SharesOutside segs := by
  intro segment next hin
  have hlength := hin.length_le
  simp only [List.length_cons, List.length_nil] at hlength
  omega

theorem sharesOutside_cons_cons {segment next : List Char} {more : List (List Char)} :
    SharesOutside (segment :: next :: more) ↔
      (HasSpace (trim segment) ∨ CutsOutside next) ∧ SharesOutside (next :: more) := by
  constructor
  · intro h
    refine ⟨h segment next ⟨[], more, rfl⟩, fun a b hin => h a b ?_⟩
    exact List.infix_cons_iff.mpr (Or.inr hin)
  · rintro ⟨hfirst, hmore⟩ a b hin
    rcases List.infix_cons_iff.mp hin with hfront | hin
    · simp only [List.cons_prefix_cons] at hfront
      obtain ⟨rfl, rfl, -⟩ := hfront
      exact hfirst
    · exact hmore a b hin

namespace Parameter

/-- A bare name is written with the type that the next parameter has. -/
theorem isItem_render_of_bare {segment next : List Char} {q : Parameter}
    (hbare : (ofSegment segment).type? = none) (hsegment : IsItem segment) (hnext : IsItem next)
    (hq : IsItem q.render.toList) (hname : q.name = (ofSegment next).name)
    (htype : ∀ type, (ofSegment next).type? = some type → q.type = type) :
    IsItem (render ⟨(ofSegment segment).name, q.type⟩).toList ↔ CutsOutside next := by
  have hrender : IsItem (render ⟨(ofSegment segment).name, q.type⟩).toList ↔ IsItem q.type.toList :=
    isItem_render_iff_of_name (isItem_name_of_bare hsegment hbare)
  rw [hrender]
  cases hdeclared : (ofSegment next).type? with
  | some type =>
    rw [htype type hdeclared]
    exact isItem_type_iff hnext hdeclared
  | none =>
    have hword : IsItem q.name.toList := by
      rw [hname]
      exact isItem_name_of_bare hnext hdeclared
    have hqtype : IsItem q.type.toList := (isItem_render_iff_of_name hword).mp hq
    exact iff_of_true hqtype (cutsOutside_of_bare hdeclared)

/-- If no name is left over, the written parameters are items exactly if no type is shared that
was cut off inside of a group. -/
theorem isItem_expand_iff {segs : List (List Char)} (hitems : ∀ segment ∈ segs, IsItem segment)
    (hleft : (expand (segs.map ofSegment)).2 = []) :
    (∀ p ∈ (expand (segs.map ofSegment)).1, IsItem p.render.toList) ↔ SharesOutside segs := by
  induction segs with
  | nil =>
    have hnil : SharesOutside [] := sharesOutside_of_length_le (Nat.zero_le 1)
    exact iff_of_true (fun p hp => by cases hp) hnil
  | cons segment more ih =>
    obtain ⟨hsegment, hmore⟩ := List.forall_mem_cons.mp hitems
    rw [List.map_cons] at hleft ⊢
    obtain ⟨type, htype, heq⟩ | ⟨q, qs, hbare, hparams, heq⟩ | ⟨-, -, heq⟩ :=
      expand_cons (ofSegment segment) (more.map ofSegment)
    · -- a type of its own: the segment is written as it was, and nothing is asked of the next one
      rw [heq] at hleft ⊢
      rw [List.forall_mem_cons, ih hmore hleft]
      have hitem : IsItem (render ⟨(ofSegment segment).name, type⟩).toList :=
        isItem_render_of_typed hsegment rfl htype
      have hspace : HasSpace (trim segment) :=
        (afterFirstRun_iff.mp (type?_eq_some_iff.mp htype)).1
      cases more with
      | nil =>
        have hone : SharesOutside [segment] := sharesOutside_of_length_le (Nat.le_refl 1)
        exact iff_of_true ⟨hitem, sharesOutside_of_length_le (Nat.zero_le 1)⟩ hone
      | cons next rest =>
        rw [sharesOutside_cons_cons]
        exact and_congr_left fun _ => iff_of_true hitem (Or.inl hspace)
    · -- a bare name: its type was cut from the next segment or is that of the next bare name
      rw [heq] at hleft ⊢
      cases more with
      | nil => cases hparams
      | cons next rest =>
        have hnext : IsItem next := hmore next List.mem_cons_self
        obtain ⟨hname, htype⟩ := head_expand hparams
        have hno : ¬ HasSpace (trim segment) := type?_eq_none_iff.mp hbare
        rw [List.forall_mem_cons, ← hparams, ih hmore hleft, sharesOutside_cons_cons]
        refine and_congr_left fun hshares => ?_
        have hq : IsItem q.render.toList := by
          refine (ih hmore hleft).mpr hshares q ?_
          rw [hparams]
          exact List.mem_cons_self
        rw [isItem_render_of_bare hbare hsegment hnext hq hname htype]
        exact (or_iff_right hno).symm
    · rw [heq] at hleft
      cases hleft

end Parameter

namespace Signature

/-- An accepted signature is read from its written form exactly if it shares no type that was cut
off inside of a group. -/
theorem parse_render_iff_of_parse {text : String} {s : Signature}
    (h : parse .strict text = .ok s) :
    ∃ segs rest, SignatureOf segs rest text.toList ∧
      (parse .strict s.render = .ok s ↔ SharesOutside segs) := by
  obtain ⟨segs, rest, hsig⟩ := exists_signatureOf_of_parse h
  obtain ⟨⟨leftOver, hok⟩, -⟩ := (parse_eq_ok_iff_of_signatureOf hsig).mp h
  obtain ⟨hexpand, hstrict⟩ := ofSegments_eq_ok_iff.mp hok
  obtain ⟨hreturns, htidy⟩ := tidy_of_parse h
  have hreread : parse .strict s.render = .ok s ↔ ∀ p ∈ s.params, IsItem p.render.toList := by
    constructor
    · intro hrender p hp
      exact ((readable_of_parse_render hrender).2 p hp).isItem
    · intro hitem
      exact parse_render_of_readable hreturns fun p hp => ⟨htidy p hp, hitem p hp⟩
  refine ⟨segs, rest, hsig, hreread.trans ?_⟩
  obtain ⟨hempty | hno, rfl⟩ := hstrict rfl
  · obtain ⟨segment, rfl, -⟩ := isEmpty_iff.mp hempty
    rw [declarations_of_isEmpty hempty] at hexpand
    have hparams : s.params = [] := (congrArg Prod.fst hexpand).symm
    refine iff_of_true (fun p hp => ?_) (sharesOutside_of_length_le (Nat.le_refl 1))
    rw [hparams] at hp
    cases hp
  · rw [declarations_of_noBlank hno] at hexpand
    have hiff := Parameter.isItem_expand_iff hsig.isItem (by rw [hexpand])
    rw [hexpand] at hiff
    exact hiff

/-- Two names with a type in common are read from their written form if no group is cut. -/
theorem parse_render_iff_at_two_names :
    parse .strict "func(a, b int)" = .ok ⟨[⟨"a", "int"⟩, ⟨"b", "int"⟩], ""⟩ ∧
      ∃ segs rest, SignatureOf segs rest "func(a, b int)".toList ∧
        (parse .strict (render ⟨[⟨"a", "int"⟩, ⟨"b", "int"⟩], ""⟩) =
            .ok ⟨[⟨"a", "int"⟩, ⟨"b", "int"⟩], ""⟩ ↔ SharesOutside segs) :=
  ⟨rfl, parse_render_iff_of_parse rfl⟩

/-- A bare name in front of a function type without a name takes the end of that type, and its
parenthesis then closes the written list. -/
theorem parse_render_ne_of_shared_cut :
    ∃ s, parse .strict "func(a, func(e error) error)" = .ok s ∧ parse .strict s.render ≠ .ok s := by
  refine ⟨⟨[⟨"a", "error) error"⟩, ⟨"func(e", "error) error"⟩], ""⟩, rfl, ?_⟩
  have hread : parse .strict "func(a error) error, func(e error) error)" =
      .ok ⟨[⟨"a", "error"⟩], "error, func(e error) error)"⟩ := rfl
  intro h
  have hsame := hread.symm.trans h
  simp at hsame

end Signature

end FuncType
