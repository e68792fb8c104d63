import FuncType.Proofs.Splitting

/-!
# Where the level first returns to zero

The scan for the end of a group keeps a depth and stops where it reaches zero. Said without the
scan, the group is the shortest front part of the text, other than the empty one, that opens as many
groups as it closes (`FirstReturn`), and the scan fails exactly if there is no such front part
(`Group.cut?_eq_none_iff`).

A front part of this kind is a list in parentheses, whatever follows it: it can be taken apart into
segments (`closesAtEnd_iff_listOf`), and in one way only (`ListOf.unique`).
-/

namespace FuncType

/-- The shortest front part of a text, other than the empty one, that has level zero. -/
structure FirstReturn (text front : List Char) : Prop where
  isFront : front <+: text
  ne_nil : front ≠ []
  level_eq : level front = 0
  shortest : ∀ other, other <+: text → other ≠ [] → level other = 0 → front.length ≤ other.length

/-- A text that starts with an opening parenthesis, and whose level first returns to zero at its very
end. -/
structure ClosesAtEnd (list : List Char) : Prop where
  head_eq : list.head? = some '('
  firstReturn : FirstReturn list list

/-! ## First returns -/

theorem FirstReturn.unique {text front front' : List Char} (h : FirstReturn text front)
    (h' : FirstReturn text front') : front = front' := by
  have hle := h.shortest front' h'.isFront h'.ne_nil h'.level_eq
  have hge := h'.shortest front h.isFront h.ne_nil h.level_eq
  have hfront := List.prefix_of_prefix_length_le h.isFront h'.isFront hle
  exact hfront.eq_of_length (Nat.le_antisymm hle hge)

/-- Whatever follows a front part, the level first returns to zero at its end or not. -/
theorem firstReturn_append_iff {front rest : List Char} :
    FirstReturn (front ++ rest) front ↔ FirstReturn front front := by
  constructor
  · intro h
    refine ⟨List.prefix_rfl, h.ne_nil, h.level_eq, ?_⟩
    intro other hother hne hlevel
    exact h.shortest other (hother.trans (List.prefix_append front rest)) hne hlevel
  · intro h
    refine ⟨List.prefix_append front rest, h.ne_nil, h.level_eq, ?_⟩
    intro other hother hne hlevel
    rcases Nat.le_total front.length other.length with hle | hlt
    · exact hle
    · -- a shorter one does not reach into `rest`
      have hinside := List.prefix_of_prefix_length_le hother (List.prefix_append front rest) hlt
      exact h.shortest other hinside hne hlevel

/-! ## What a scan does not find -/

/-- Reading on inside a group finds no end exactly if no front part closes more groups than are open. -/
theorem Group.closeFrom_eq_none_iff {α : Type} [Alphabet α] {depth : Nat} {text : List α} :
    closeFrom depth text = none ↔ ∀ front, front <+: text → 0 ≤ depth + level front := by
  induction text generalizing depth with
  | nil =>
    refine iff_of_true rfl ?_
    intro front hfront
    rw [List.prefix_nil.mp hfront, level_nil]
    omega
  | cons a text ih =>
    rw [closeFrom]
    by_cases hclose : role a = .closes ∧ depth = 0
    · obtain ⟨hrole, rfl⟩ := hclose
      rw [if_pos ⟨hrole, rfl⟩]
      refine iff_of_false (by simp) ?_
      intro h
      have hone := h [a] ⟨text, rfl⟩
      simp [level, hrole] at hone
    · have hdepth : role a = .closes → depth ≠ 0 := fun hrole hzero => hclose ⟨hrole, hzero⟩
      rw [if_neg hclose, Option.map_eq_none_iff, ih]
      constructor
      · intro h front hfront
        rcases List.prefix_cons_iff.mp hfront with rfl | ⟨front', rfl, hfront'⟩
        · rw [level_nil]
          omega
        · rw [add_level_cons hdepth]
          exact h front' hfront'
      · intro h front hfront
        rw [← add_level_cons hdepth]
        exact h (a :: front) ((List.prefix_cons_inj a).mpr hfront)

/-- A text that closes more groups than it opens closes the group it is read in. -/
theorem Group.exists_closing_of_level_neg {text : List Char} (h : level text < 0) :
    ∃ body rest, text = body ++ ')' :: rest ∧ Balanced body := by
  cases hclose : closeFrom 0 text with
  | none =>
    have hnonneg := closeFrom_eq_none_iff.mp hclose text List.prefix_rfl
    omega
  | some group =>
    obtain ⟨-, -, -, hbody⟩ := closeFrom_eq_some_iff.mp hclose
    exact ⟨group.body, group.rest, eq_of_closeFrom hclose, hbody⟩

theorem Group.level_text {g : Group Char} (h : Balanced g.body) : level g.text = 0 :=
  (h.level_enclosed rfl rfl).1

/-- In a text that starts with an opening parenthesis, the parenthesis is never closed exactly if no
front part but the empty one has level zero. -/
theorem Group.cut?_eq_none_iff {more : List Char} :
    cut? ('(' :: more) = none ↔
      ∀ front, front <+: '(' :: more → front ≠ [] → level front ≠ 0 := by
  have hcut : cut? ('(' :: more) = closeFrom 0 more := rfl
  rw [hcut]
  constructor
  · intro h front hfront hne hlevel
    rcases List.prefix_cons_iff.mp hfront with rfl | ⟨front', rfl, hfront'⟩
    · exact hne rfl
    · have hnonneg := closeFrom_eq_none_iff.mp h front' hfront'
      rw [level_cons_of_opens rfl] at hlevel
      omega
  · intro h
    cases hclose : closeFrom 0 more with
    | none => rfl
    | some group =>
      obtain ⟨-, -, -, hbody⟩ := closeFrom_eq_some_iff.mp hclose
      refine absurd (level_text hbody) (h group.text ?_ (List.cons_ne_nil _ _))
      exact ⟨group.rest, (text_of_cut? (hcut.trans hclose)).symm⟩

/-! ## What a scan finds -/

/-- The level of a group is zero at its end and at no earlier place behind its first symbol. -/
theorem Group.firstReturn_text {g : Group Char} (h : Balanced g.body) : FirstReturn g.text g.text := by
  refine ⟨List.prefix_rfl, List.cons_ne_nil _ _, level_text h, ?_⟩
  intro other hother hne hlevel
  by_cases hall : other = g.text
  · exact Nat.le_of_eq (congrArg List.length hall.symm)
  · have hpos := (h.level_enclosed rfl rfl).2 other hother hne hall
    omega

theorem Group.closesAtEnd_of_cut? {text body : List Char} (h : cut? text = some ⟨body, []⟩) :
    ClosesAtEnd text := by
  obtain ⟨htext, hbody⟩ := cut?_eq_some_iff.mp h
  rw [List.append_nil] at htext
  rw [htext]
  exact ⟨rfl, firstReturn_text hbody⟩

/-- A text whose level first returns to zero at its end is the list of some segments. -/
theorem closesAtEnd_iff_listOf {list : List Char} : ClosesAtEnd list ↔ ∃ segs, ListOf segs list := by
  constructor
  · intro h
    obtain ⟨more, rfl⟩ := List.head?_eq_some_iff.mp h.head_eq
    cases hcut : Group.cut? ('(' :: more) with
    | none =>
      have hne := Group.cut?_eq_none_iff.mp hcut _ List.prefix_rfl h.firstReturn.ne_nil
      exact absurd h.firstReturn.level_eq hne
    | some group =>
      obtain ⟨htext, hbody⟩ := Group.cut?_eq_some_iff.mp hcut
      have hfirst : FirstReturn ('(' :: more) group.text := by
        rw [htext]
        exact firstReturn_append_iff.mpr (Group.firstReturn_text hbody)
      rw [h.firstReturn.unique hfirst]
      exact ⟨group.segments, Group.listOf_segments hbody⟩
  · rintro ⟨segs, h⟩
    have hcut := h.cut?_append []
    rw [List.append_nil] at hcut
    exact Group.closesAtEnd_of_cut? hcut

/-- What a text holds up to the first return is a list, if it starts with an opening parenthesis. -/
theorem FirstReturn.exists_listOf {text list : List Char} (h : FirstReturn text list)
    (hhead : text.head? = some '(') : ∃ segs rest, ListOf segs list ∧ text = list ++ rest := by
  obtain ⟨rest, rfl⟩ := h.isFront
  have hlist : ClosesAtEnd list := by
    refine ⟨?_, firstReturn_append_iff.mp h⟩
    obtain ⟨c, more, rfl⟩ := List.exists_cons_of_ne_nil h.ne_nil
    exact hhead
  obtain ⟨segs, hsegs⟩ := closesAtEnd_iff_listOf.mp hlist
  exact ⟨segs, rest, hsegs, rfl⟩

/-- The level of a text that starts with an opening parenthesis returns to zero somewhere or never. -/
theorem level_ne_or_exists_firstReturn {text : List Char} (hhead : text.head? = some '(') :
    (∀ front, front <+: text → front ≠ [] → level front ≠ 0) ∨ ∃ list, FirstReturn text list := by
  obtain ⟨more, rfl⟩ := List.head?_eq_some_iff.mp hhead
  cases hcut : Group.cut? ('(' :: more) with
  | none => exact Or.inl (Group.cut?_eq_none_iff.mp hcut)
  | some group =>
    obtain ⟨htext, hbody⟩ := Group.cut?_eq_some_iff.mp hcut
    refine Or.inr ⟨group.text, ?_⟩
    rw [htext]
    exact firstReturn_append_iff.mpr (Group.firstReturn_text hbody)

end FuncType
