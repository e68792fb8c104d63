import FuncType.Proofs.WhiteSpace

/-!
# What declarations stand for

A segment declares its first word as a name, and as its type what follows the first white space in
it (`Declaration.type?_eq_some_iff`); a segment of one word is a bare name. Over a list of
declarations, each parameter has the name of a declaration and the type of the first declaration
from there on that has one (`Parameter.type_of_getElem?_expand`). No name is left over exactly if
the last declaration has a type (`Parameter.leftOver_eq_nil_iff`).
-/

namespace FuncType

attribute [ext] Parameter

namespace Declaration

theorem name_ofSegment (segment : List Char) :
    (ofSegment segment).name.toList = word (trim segment) :=
  String.toList_ofList

/-- A trimmed text has nothing behind its first word if it has no white space in it. -/
theorem afterWord_eq_nil_iff {text : List Char} (h : IsTrimmed text) :
    afterWord text = [] ↔ ¬ HasSpace text := by
  constructor
  · intro hafter
    rcases eq_word_or text with ⟨htext, -⟩ | ⟨run, hne, hrun, htext⟩
    · rw [htext]
      exact not_hasSpace_word text
    · -- a run of white space at the end of the text would be its end
      rw [hafter, List.append_nil] at htext
      obtain ⟨front, c, rfl⟩ := (List.eq_nil_or_concat run).resolve_left hne
      have hlast : isSpace c = false := h.last c (by rw [htext]; simp)
      rw [isBlank_iff.mp hrun c (by simp)] at hlast
      cases hlast
  · intro hno
    rcases eq_word_or text with ⟨-, hafter⟩ | ⟨run, hne, hrun, htext⟩
    · exact hafter
    · rw [htext] at hno
      exact absurd (hasSpace_of_run hne hrun) hno

theorem type?_eq_none_iff {segment : List Char} :
    (ofSegment segment).type? = none ↔ ¬ HasSpace (trim segment) := by
  rw [← afterWord_eq_nil_iff (isTrimmed_trim segment)]
  simp [ofSegment]

/-- The type of a declaration is what follows the first white space in its segment. -/
theorem type?_eq_some_iff {segment : List Char} {type : String} :
    (ofSegment segment).type? = some type ↔ AfterFirstRun (trim segment) type.toList := by
  rw [afterFirstRun_iff]
  have hiff := afterWord_eq_nil_iff (isTrimmed_trim segment)
  by_cases hafter : afterWord (trim segment) = []
  · have hno : ¬ HasSpace (trim segment) := hiff.mp hafter
    simp [ofSegment, hafter, hno]
  · have hspace : HasSpace (trim segment) := Classical.not_not.mp fun h => hafter (hiff.mpr h)
    simp only [ofSegment, hafter, if_false, Option.some.injEq, hspace, true_and]
    constructor
    · rintro rfl
      exact String.toList_ofList
    · intro h
      rw [← h, String.ofList_toList]

/-- A bare name is all there is between the blanks of its segment. -/
theorem trim_of_bare {segment : List Char} (h : (ofSegment segment).type? = none) :
    trim segment = (ofSegment segment).name.toList := by
  rw [name_ofSegment]
  rcases eq_word_or (trim segment) with ⟨htext, -⟩ | ⟨run, hne, hrun, htext⟩
  · exact htext
  · have hno : ¬ HasSpace (trim segment) := type?_eq_none_iff.mp h
    rw [htext] at hno
    exact absurd (hasSpace_of_run hne hrun) hno

/-- With a type, there are the name, white space and the type between the blanks of a segment. -/
theorem trim_of_typed {segment : List Char} {type : String}
    (h : (ofSegment segment).type? = some type) :
    ∃ run, run ≠ [] ∧ isBlank run ∧
      trim segment = (ofSegment segment).name.toList ++ run ++ type.toList := by
  obtain ⟨hspace, htype⟩ := afterFirstRun_iff.mp (type?_eq_some_iff.mp h)
  rw [name_ofSegment, htype]
  rcases eq_word_or (trim segment) with ⟨htext, -⟩ | hrun
  · rw [htext] at hspace
    exact absurd hspace (not_hasSpace_word _)
  · exact hrun

theorem isBlank_of_typed {segment : List Char} {type : String}
    (h : (ofSegment segment).type? = some type) : isBlank segment = false := by
  cases hblank : isBlank segment with
  | false => rfl
  | true =>
    obtain ⟨⟨c, hc, -⟩, -⟩ := afterFirstRun_iff.mp (type?_eq_some_iff.mp h)
    rw [trim_eq_nil_iff.mpr hblank] at hc
    cases hc

theorem not_hasSpace_name (segment : List Char) : ¬ HasSpace (ofSegment segment).name.toList := by
  rw [name_ofSegment]
  exact not_hasSpace_word _

theorem name_ne_empty {segment : List Char} (h : isBlank segment = false) :
    (ofSegment segment).name ≠ "" := by
  intro hname
  have hword : word (trim segment) = [] := by rw [← name_ofSegment, hname]; rfl
  cases htext : trim segment with
  | nil => rw [trim_eq_nil_iff.mp htext] at h; cases h
  | cons c text =>
    have hc : isSpace c = false := (isTrimmed_trim segment).head c (by rw [htext]; rfl)
    rw [htext, word, List.takeWhile_cons_of_pos (by simp [hc])] at hword
    cases hword

theorem type_ne_empty {segment : List Char} {type : String}
    (h : (ofSegment segment).type? = some type) : type ≠ "" := by
  rintro rfl
  obtain ⟨hspace, hafter⟩ := afterFirstRun_iff.mp (type?_eq_some_iff.mp h)
  exact (afterWord_eq_nil_iff (isTrimmed_trim segment)).mp hafter.symm hspace

theorem isTrimmed_type {segment : List Char} {type : String}
    (h : (ofSegment segment).type? = some type) : IsTrimmed type.toList := by
  obtain ⟨run, hne, hrun, htext⟩ := trim_of_typed h
  have htype : type.toList = afterWord (trim segment) :=
    (afterFirstRun_iff.mp (type?_eq_some_iff.mp h)).2
  refine ⟨?_, fun c hc => (isTrimmed_trim segment).last c ?_⟩
  · rw [htype]
    exact head_trimStart _
  · rw [htext, List.getLast?_append, Option.mem_def.mp hc]
    rfl

/-- Blanks, a name, white space and a type make a declaration of that name and that type. -/
theorem ofSegment_append {u run v : List Char} {name type : String} (hu : isBlank u)
    (hname : name ≠ "") (hno : ¬ HasSpace name.toList) (hne : run ≠ []) (hrun : isBlank run)
    (htype : type ≠ "") (htrim : IsTrimmed type.toList) (hv : isBlank v) :
    ofSegment (u ++ (name.toList ++ run ++ type.toList) ++ v) = ⟨name, some type⟩ := by
  have hname' : name.toList ≠ [] := by simpa using hname
  have htype' : type.toList ≠ [] := by simpa using htype
  have htext : IsTrimmed (name.toList ++ run ++ type.toList) :=
    isTrimmed_append hname' hno htype' htrim run
  obtain ⟨c, run, rfl, hc⟩ := exists_cons_of_isBlank hne hrun
  have hword : word (name.toList ++ (c :: run) ++ type.toList) = name.toList := by
    rw [List.append_assoc]
    exact word_append hno (by simpa using hc)
  have hafter : afterWord (name.toList ++ (c :: run) ++ type.toList) = type.toList := by
    rw [List.append_assoc, afterWord_append hno (by simpa using hc), trimStart_append hrun,
      trimStart_eq_self htrim.head]
  rw [ofSegment, trim_append hu htext hv]
  simp only [hword, hafter, if_neg htype', String.ofList_toList]

end Declaration

theorem findSome?_drop_eq_some_iff {α β : Type} {f : α → Option β} {l : List α} {i : Nat} {b : β} :
    (l.drop i).findSome? f = some b ↔
      ∃ j a, i ≤ j ∧ l[j]? = some a ∧ f a = some b ∧
        ∀ k c, i ≤ k → k < j → l[k]? = some c → f c = none := by
  rw [List.findSome?_eq_some_iff]
  constructor
  · rintro ⟨front, a, back, hdrop, ha, hfront⟩
    refine ⟨i + front.length, a, by omega, ?_, ha, fun k c hik hkj hc => hfront c ?_⟩
    · rw [← List.getElem?_drop, hdrop]
      simp
    · obtain ⟨n, rfl⟩ := Nat.exists_eq_add_of_le hik
      rw [← List.getElem?_drop, hdrop, List.getElem?_append_left (by omega)] at hc
      exact List.mem_of_getElem? hc
  · rintro ⟨j, a, hij, hj, ha, hfront⟩
    obtain ⟨n, rfl⟩ := Nat.exists_eq_add_of_le hij
    obtain ⟨hlt, rfl⟩ := List.getElem?_eq_some_iff.mp hj
    refine ⟨(l.drop i).take n, l[i + n], l.drop (i + n + 1), ?_, ha, fun c hc => ?_⟩
    · rw [← List.drop_eq_getElem_cons hlt, ← List.drop_drop, List.take_append_drop]
    · obtain ⟨m, hm, rfl⟩ := List.mem_iff_getElem.mp hc
      rw [List.length_take] at hm
      refine hfront (i + m) _ (by omega) (by omega) ?_
      rw [← List.getElem?_drop, List.getElem_take, List.getElem?_eq_getElem]

namespace Parameter

/-- One more declaration in front adds a parameter in front, or none if it is a bare name with no
parameter behind it. -/
theorem expand_cons (d : Declaration) (more : List Declaration) :
    (∃ type, d.type? = some type ∧
        expand (d :: more) = (⟨d.name, type⟩ :: (expand more).1, (expand more).2)) ∨
      (∃ next rest, d.type? = none ∧ (expand more).1 = next :: rest ∧
        expand (d :: more) = (⟨d.name, next.type⟩ :: next :: rest, (expand more).2)) ∨
      (d.type? = none ∧ (expand more).1 = [] ∧ expand (d :: more) = ([], d.name :: (expand more).2)) := by
  rcases hmore : expand more with ⟨params, leftOver⟩
  rcases d with ⟨name, _ | type⟩
  · cases params with
    | nil => exact Or.inr (Or.inr ⟨rfl, rfl, by simp [expand, hmore]⟩)
    | cons next rest => exact Or.inr (Or.inl ⟨next, rest, rfl, rfl, by simp [expand, hmore]⟩)
  · exact Or.inl ⟨type, rfl, by simp [expand, hmore]⟩

/-- The first declaration gives the first parameter its name, and its type if it has one. -/
theorem head_expand {d : Declaration} {more : List Declaration} {q : Parameter}
    {qs : List Parameter} (h : (expand (d :: more)).1 = q :: qs) :
    q.name = d.name ∧ ∀ type, d.type? = some type → q.type = type := by
  obtain ⟨t, ht, heq⟩ | ⟨next, rest, hbare, -, heq⟩ | ⟨-, -, heq⟩ := expand_cons d more
  · rw [heq] at h
    obtain ⟨rfl, -⟩ := List.cons.inj h
    exact ⟨rfl, fun type htype => Option.some.inj (ht.symm.trans htype)⟩
  · rw [heq] at h
    obtain ⟨rfl, -⟩ := List.cons.inj h
    refine ⟨rfl, fun type htype => ?_⟩
    rw [hbare] at htype
    cases htype
  · rw [heq] at h
    cases h

theorem expand_typed (ps : List Parameter) :
    expand (ps.map fun p => ⟨p.name, some p.type⟩) = (ps, []) := by
  induction ps with
  | nil => rfl
  | cons p more ih => rw [List.map_cons, expand, ih]

theorem mem_expand_of_typed {ds : List Declaration} {d : Declaration} {type : String} (hd : d ∈ ds)
    (htype : d.type? = some type) : ⟨d.name, type⟩ ∈ (expand ds).1 := by
  induction ds with
  | nil => cases hd
  | cons e more ih =>
    obtain ⟨t, ht, heq⟩ | ⟨next, rest, hbare, hmore, heq⟩ | ⟨hbare, hmore, heq⟩ := expand_cons e more
      <;> rw [heq] <;> rcases List.mem_cons.mp hd with rfl | hd
    · rw [ht] at htype
      obtain rfl := Option.some.inj htype
      exact List.mem_cons_self
    · exact List.mem_cons_of_mem _ (ih hd)
    · rw [hbare] at htype
      cases htype
    · rw [← hmore]
      exact List.mem_cons_of_mem _ (ih hd)
    · rw [hbare] at htype
      cases htype
    · rw [← hmore]
      exact ih hd

/-- A parameter has the name of a declaration, which is a bare name if it has not the type, too. -/
theorem exists_name_of_mem_expand {ds : List Declaration} {p : Parameter}
    (hp : p ∈ (expand ds).1) :
    ∃ d ∈ ds, d.name = p.name ∧ (d.type? = some p.type ∨ d.type? = none) := by
  induction ds with
  | nil => cases hp
  | cons e more ih =>
    have hstep : p ∈ (expand more).1 →
        ∃ d ∈ e :: more, d.name = p.name ∧ (d.type? = some p.type ∨ d.type? = none) := by
      intro hp
      obtain ⟨d, hd, h⟩ := ih hp
      exact ⟨d, List.mem_cons_of_mem e hd, h⟩
    obtain ⟨type, htype, heq⟩ | ⟨next, rest, hbare, hmore, heq⟩ | ⟨-, -, heq⟩ := expand_cons e more
    · rw [heq] at hp
      rcases List.mem_cons.mp hp with rfl | hp
      · exact ⟨e, List.mem_cons_self, rfl, Or.inl htype⟩
      · exact hstep hp
    · rw [heq] at hp
      rcases List.mem_cons.mp hp with rfl | hp
      · exact ⟨e, List.mem_cons_self, rfl, Or.inr hbare⟩
      · exact hstep (by rw [hmore]; exact hp)
    · rw [heq] at hp
      cases hp

theorem exists_type_of_mem_expand {ds : List Declaration} {p : Parameter}
    (hp : p ∈ (expand ds).1) : ∃ d ∈ ds, d.type? = some p.type := by
  induction ds generalizing p with
  | nil => cases hp
  | cons e more ih =>
    have hstep : ∀ {q : Parameter}, q ∈ (expand more).1 → ∃ d ∈ e :: more, d.type? = some q.type := by
      intro q hq
      obtain ⟨d, hd, h⟩ := ih hq
      exact ⟨d, List.mem_cons_of_mem e hd, h⟩
    obtain ⟨type, htype, heq⟩ | ⟨next, rest, hbare, hmore, heq⟩ | ⟨-, -, heq⟩ := expand_cons e more
    · rw [heq] at hp
      rcases List.mem_cons.mp hp with rfl | hp
      · exact ⟨e, List.mem_cons_self, htype⟩
      · exact hstep hp
    · rw [heq] at hp
      rcases List.mem_cons.mp hp with rfl | hp
      · exact hstep (q := next) (by rw [hmore]; exact List.mem_cons_self)
      · exact hstep (by rw [hmore]; exact hp)
    · rw [heq] at hp
      cases hp

/-- The type of a parameter is the first type declared from its place on. -/
theorem type_of_getElem?_expand {ds : List Declaration} {i : Nat} {p : Parameter}
    (hp : (expand ds).1[i]? = some p) : (ds.drop i).findSome? Declaration.type? = some p.type := by
  induction ds generalizing i p with
  | nil => simp [expand] at hp
  | cons d more ih =>
    obtain ⟨type, htype, heq⟩ | ⟨next, rest, hbare, hmore, heq⟩ | ⟨-, -, heq⟩ := expand_cons d more
    · rw [heq] at hp
      cases i with
      | zero =>
        obtain rfl := Option.some.inj hp
        simp [htype]
      | succ i => exact ih hp
    · rw [heq] at hp
      cases i with
      | zero =>
        obtain rfl := Option.some.inj hp
        have hnext := ih (i := 0) (p := next) (by rw [hmore]; rfl)
        simpa [hbare] using hnext
      | succ i => exact ih (by rw [hmore]; exact hp)
    · rw [heq] at hp
      cases hp

/-- No name is left over exactly if the last declaration has a type. -/
theorem leftOver_eq_nil_iff {ds : List Declaration} :
    (expand ds).2 = [] ↔ ∀ d ∈ ds.getLast?, d.type? ≠ none := by
  induction ds with
  | nil => simp [expand]
  | cons d more ih =>
    cases more with
    | nil =>
      rcases d with ⟨name, _ | type⟩ <;> simp [expand]
    | cons next rest =>
      rw [List.getLast?_cons_cons, ← ih]
      obtain ⟨type, htype, heq⟩ | ⟨q, qs, hbare, hmore, heq⟩ | ⟨hbare, hmore, heq⟩ :=
        expand_cons d (next :: rest)
      · rw [heq]
      · rw [heq]
      · -- without parameters behind it, both this name and those behind it are left over
        have hnames := names_expand (next :: rest)
        rw [hmore] at hnames
        rw [heq]
        constructor
        · intro h
          cases h
        · intro h
          rw [h] at hnames
          cases hnames

end Parameter

end FuncType
