import FuncType.Proofs.RoundTrip

/-!
# Which signatures some text stands for

Not every signature is read from a text. The returns and the parameters of one that is read are tidy,
and a parameter whose written form is no item has an item for its name and shares its type with the
parameter behind it: its name was declared without a type (`Parameter.separable_expand`). These
conditions are also enough. A parameter that is an item when written is declared in that form, every
other one by its bare name, and the list of these declarations is read as the parameters, in both modes
(`Parameter.exists_segments`). So both modes read the same signatures
(`Signature.exists_parse_iff_attainable`), with those among them that are not read from their own
written form.
-/

namespace FuncType

open Declaration ParameterList

/-- Each parameter is an item when written, or its name is one and the next parameter has its type. -/
def Parameter.Separable (ps : List Parameter) : Prop :=
  ∀ (i : Nat) (p : Parameter), ps[i]? = some p →
    IsItem p.render.toList ∨
      (IsItem p.name.toList ∧ ∃ next, ps[i + 1]? = some next ∧ next.type = p.type)

/-- A signature that some text stands for. -/
structure Signature.Attainable (s : Signature) : Prop where
  returns_trimmed : IsTrimmed s.returns.toList
  tidy : ∀ p ∈ s.params, p.Tidy
  separable : Parameter.Separable s.params

/-! ## From segments to parameters -/

namespace Parameter

theorem separable_cons {p : Parameter} {more : List Parameter} :
    Separable (p :: more) ↔
      (IsItem p.render.toList ∨
        (IsItem p.name.toList ∧ ∃ next rest, more = next :: rest ∧ next.type = p.type)) ∧
      Separable more := by
  constructor
  · intro h
    refine ⟨?_, fun i q hq => h (i + 1) q hq⟩
    rcases h 0 p rfl with hitem | ⟨hname, next, hnext, htype⟩
    · exact Or.inl hitem
    · cases more with
      | nil => cases hnext
      | cons q rest =>
        obtain rfl : q = next := Option.some.inj hnext
        exact Or.inr ⟨hname, q, rest, rfl, htype⟩
  · rintro ⟨hfirst, hmore⟩ i q hq
    cases i with
    | zero =>
      obtain rfl : p = q := Option.some.inj hq
      rcases hfirst with hitem | ⟨hname, next, rest, rfl, htype⟩
      · exact Or.inl hitem
      · exact Or.inr ⟨hname, next, rfl, htype⟩
    | succ i => exact hmore i q hq

/-- The parameters that items declare are separable. -/
theorem separable_expand {segs : List (List Char)} (hitems : ∀ segment ∈ segs, IsItem segment) :
    Separable (expand (segs.map ofSegment)).1 := by
  induction segs with
  | nil =>
    intro i p hp
    cases hp
  | cons segment more ih =>
    obtain ⟨hsegment, hmore⟩ := List.forall_mem_cons.mp hitems
    rw [List.map_cons]
    obtain ⟨type, htype, heq⟩ | ⟨next, rest, hbare, hparams, heq⟩ | ⟨-, -, heq⟩ :=
      expand_cons (ofSegment segment) (more.map ofSegment)
    · rw [heq, separable_cons]
      exact ⟨Or.inl (isItem_render_of_typed hsegment rfl htype), ih hmore⟩
    · rw [heq, separable_cons, ← hparams]
      have hname : IsItem (ofSegment segment).name.toList := isItem_name_of_bare hsegment hbare
      exact ⟨Or.inr ⟨hname, next, rest, hparams, rfl⟩, ih hmore⟩
    · rw [heq]
      intro i p hp
      cases hp

/-! ## From parameters to segments -/

/-- A word is read as a bare name. -/
theorem ofSegment_word {name : String} (hno : ¬ HasSpace name.toList) :
    ofSegment name.toList = ⟨name, none⟩ := by
  have hspace := not_hasSpace_iff.mp hno
  have htrimmed : IsTrimmed name.toList :=
    ⟨fun c hc => hspace c (List.mem_of_mem_head? hc), fun c hc => hspace c (List.mem_of_getLast? hc)⟩
  have htrim : trim name.toList = name.toList := trim_eq_self htrimmed
  have hbare : (ofSegment name.toList).type? = none := by
    rw [type?_eq_none_iff, htrim]
    exact hno
  have hname : (ofSegment name.toList).name = name := by
    rw [← String.toList_inj, ← trim_of_bare hbare, htrim]
  rcases hsegment : ofSegment name.toList with ⟨name', type?⟩
  rw [hsegment] at hbare hname
  obtain rfl : type? = none := hbare
  obtain rfl : name' = name := hname
  rfl

theorem isBlank_of_tidy {p : Parameter} (h : p.Tidy) : isBlank p.name.toList = false := by
  have hne : p.name.toList ≠ [] := by simpa using h.name_ne
  obtain ⟨c, more, hcons⟩ := List.exists_cons_of_ne_nil hne
  have hc : isSpace c = false := not_hasSpace_iff.mp h.name_noSpace c (by rw [hcons]; simp)
  rw [hcons, isBlank, List.all_cons, hc, Bool.false_and]

/-- Separable parameters have segments that declare them, one for each. -/
theorem exists_segments {ps : List Parameter} (htidy : ∀ p ∈ ps, p.Tidy) (hsep : Separable ps) :
    ∃ segs : List (List Char), segs.length = ps.length ∧ (∀ segment ∈ segs, IsItem segment) ∧
      (∀ segment ∈ segs, isBlank segment = false) ∧ expand (segs.map ofSegment) = (ps, []) := by
  induction ps with
  | nil => exact ⟨[], rfl, by simp, by simp, rfl⟩
  | cons p more ih =>
    obtain ⟨hp, hmore⟩ := List.forall_mem_cons.mp htidy
    obtain ⟨hfirst, hrest⟩ := separable_cons.mp hsep
    obtain ⟨segs, hlength, hitems, hno, hexpand⟩ := ih hmore hrest
    rcases hfirst with hitem | ⟨hname, next, rest, rfl, htype⟩
    · have hdeclares : ofSegment p.render.toList = ⟨p.name, some p.type⟩ :=
        hp.ofSegment_render (u := []) rfl
      have hblank : isBlank p.render.toList = false :=
        isBlank_of_typed (congrArg Declaration.type? hdeclares)
      refine ⟨p.render.toList :: segs, by simp [hlength], List.forall_mem_cons.mpr ⟨hitem, hitems⟩,
        List.forall_mem_cons.mpr ⟨hblank, hno⟩, ?_⟩
      rw [List.map_cons, hdeclares, expand, hexpand]
    · -- the bare name takes the type of `next`, which is the one it has
      refine ⟨p.name.toList :: segs, by simp [hlength], List.forall_mem_cons.mpr ⟨hname, hitems⟩,
        List.forall_mem_cons.mpr ⟨isBlank_of_tidy hp, hno⟩, ?_⟩
      rw [List.map_cons, ofSegment_word hp.name_noSpace, expand, hexpand]
      simp only [htype]

end Parameter

/-! ## Signatures -/

namespace Signature

variable {mode : Mode} {s : Signature}

theorem attainable_of_parse {text : String} (h : parse mode text = .ok s) : s.Attainable := by
  obtain ⟨hreturns, htidy⟩ := tidy_of_parse h
  obtain ⟨segs, rest, hsig, hparams, -⟩ := exists_declarations_of_parse h
  refine ⟨hreturns, htidy, ?_⟩
  rw [hparams, declarations]
  exact Parameter.separable_expand fun segment hmem => hsig.isItem segment (List.mem_filter.mp hmem).1

/-- Segments of tidy, separable parameters that are a list, that of no parameters included. -/
theorem Attainable.exists_list (h : s.Attainable) (mode : Mode) :
    ∃ segs : List (List Char), segs ≠ [] ∧ (∀ segment ∈ segs, IsItem segment) ∧
      ofSegments mode segs = .ok (s.params, []) := by
  obtain ⟨segs, hlength, hitems, hno, hexpand⟩ := Parameter.exists_segments h.tidy h.separable
  by_cases hparams : s.params = []
  · refine ⟨[[]], List.cons_ne_nil _ _, ?_, ?_⟩
    · intro segment hmem
      rw [List.mem_singleton.mp hmem]
      exact itemFrom_nil.mpr rfl
    · rw [hparams]
      rfl
  · refine ⟨segs, ?_, hitems, ?_⟩
    · rintro rfl
      exact hparams (List.length_eq_zero_iff.mp hlength.symm)
    · rw [ofSegments_eq_ok_iff, declarations_of_noBlank hno, hexpand]
      exact ⟨rfl, fun _ => ⟨Or.inr hno, rfl⟩⟩

/-- In both modes, a signature is read from some text exactly if it is attainable: its returns and its
parameters are tidy, and each parameter is an item when written or is a name that shares the type of the
next parameter. -/
theorem exists_parse_iff_attainable (mode : Mode) (s : Signature) :
    (∃ text, parse mode text = .ok s) ↔ s.Attainable := by
  constructor
  · rintro ⟨text, h⟩
    exact attainable_of_parse h
  · intro h
    obtain ⟨segs, hne, hitems, hread⟩ := h.exists_list mode
    have hlist : ListOf segs ('(' :: [','].intercalate segs ++ [')']) := ⟨hne, hitems, rfl⟩
    have hsig : SignatureOf segs s.returns.toList
        (String.ofList (keyword.toList ++ ('(' :: [','].intercalate segs ++ [')']) ++
          s.returns.toList)).toList :=
      ⟨_, hlist, String.toList_ofList⟩
    refine ⟨_, (parse_eq_ok_iff_of_signatureOf hsig).mpr ⟨⟨[], hread⟩, ?_⟩⟩
    exact (trim_eq_self h.returns_trimmed).symm

end Signature

end FuncType
