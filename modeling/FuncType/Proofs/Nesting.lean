import FuncType.Group

/-!
# Nesting, counted

The scanner keeps a running depth. Here the nesting of a text is said without it, by counting: the
`level` of a text is the number of its opening symbols less the number of its closing ones, a text
is *balanced* if no front part of it has a negative level and the whole text has level zero, and an
*item* is a balanced text with no separator where the level is zero.

Both notions are stated for a text that is read inside `depth` open groups, since that is what a
scanner in the middle of a text has left to read. Read from left to right they obey the step rules
`balancedFrom_cons` and `itemFrom_cons`, which carry every induction over a scan; cut in two where
the level is zero they obey `isItem_append`. Plain symbols count for nothing (`isItem_congr`).
-/

namespace FuncType

variable {α : Type} [Alphabet α]

/-- How many more groups a text opens than it closes. -/
def level (text : List α) : Int :=
  (text.countP fun a => role a = .opens) - (text.countP fun a => role a = .closes)

/-- A text that closes the `depth` groups it is read in, and never more groups than are open. -/
structure BalancedFrom (depth : Nat) (text : List α) : Prop where
  level_nonneg : ∀ front, front <+: text → 0 ≤ depth + level front
  level_eq : depth + level text = 0

/-- A text is balanced if no front part of it closes more groups than it opens, and the whole text
closes as many groups as it opens. -/
def Balanced (text : List α) : Prop :=
  BalancedFrom 0 text

/-- The rest of an item, read inside `depth` groups of it. -/
structure ItemFrom (depth : Nat) (text : List α) : Prop extends BalancedFrom depth text where
  level_ne : ∀ front a, front ++ [a] <+: text → role a = .separates → depth + level front ≠ 0

/-- An item of a list: a balanced text all of whose separators stand inside its groups, that is,
not after a front part that opens as many groups as it closes. -/
def IsItem (text : List α) : Prop :=
  ItemFrom 0 text

/-! ## Levels -/

theorem level_nil : level ([] : List α) = 0 := rfl

@[simp] theorem level_append (s t : List α) : level (s ++ t) = level s + level t := by
  simp only [level, List.countP_append]
  omega

/-- One more symbol changes the level as it changes the depth of a scan, but for a closing symbol
at depth zero. -/
theorem add_level_cons {depth : Nat} {a : α} (h : role a = .closes → depth ≠ 0) (text : List α) :
    depth + level (a :: text) = ((role a).depthAfter depth : Nat) + level text := by
  unfold level
  cases ha : role a with
  | opens => simp [Role.depthAfter, ha]; omega
  | closes => have := h ha; simp [Role.depthAfter, ha]; omega
  | separates => simp [Role.depthAfter, ha]
  | plain => simp [Role.depthAfter, ha]

theorem level_cons_of_opens {a : α} (ha : role a = .opens) (text : List α) :
    level (a :: text) = 1 + level text := by
  have hcons : ((0 : Nat) : Int) + level (a :: text) = ((role a).depthAfter 0 : Nat) + level text :=
    add_level_cons (by simp [ha]) text
  rw [ha] at hcons
  simpa [Role.depthAfter] using hcons

/-- On characters, the level counts the two parentheses. -/
theorem level_eq_count_sub_count (text : List Char) :
    level text = text.count '(' - text.count ')' := by
  have hopens : (fun c : Char => decide (role c = .opens)) = (· == '(') := by
    funext c
    simp [role_char_eq_opens_iff, Bool.beq_eq_decide_eq]
  have hcloses : (fun c : Char => decide (role c = .closes)) = (· == ')') := by
    funext c
    simp [role_char_eq_closes_iff, Bool.beq_eq_decide_eq]
  rw [level, hopens, hcloses]
  rfl

/-- Pieces that open no group, with separators between them, have the level zero together only if
each of them has. -/
theorem level_intercalate_nonpos {sep : List α} (hsep : level sep = 0) {pieces : List (List α)}
    (hle : ∀ piece ∈ pieces, level piece ≤ 0) :
    level (sep.intercalate pieces) ≤ 0 ∧
      (level (sep.intercalate pieces) = 0 → ∀ piece ∈ pieces, level piece = 0) := by
  induction pieces with
  | nil => exact ⟨Int.le_refl 0, fun _ piece hmem => by cases hmem⟩
  | cons piece more ih =>
    obtain ⟨hpiece, hmore⟩ := List.forall_mem_cons.mp hle
    obtain ⟨hnonpos, hzero⟩ := ih hmore
    have hlevel : level (sep.intercalate (piece :: more)) =
        level piece + level (sep.intercalate more) := by
      cases more with
      | nil => simp [level_nil]
      | cons next rest =>
        rw [List.intercalate_cons_cons, level_append, level_append, hsep]
        omega
    rw [hlevel]
    refine ⟨by omega, fun h => List.forall_mem_cons.mpr ⟨?_, hzero ?_⟩⟩
    · omega
    · omega

/-! ## Step rules -/

theorem balancedFrom_nil {depth : Nat} : BalancedFrom depth ([] : List α) ↔ depth = 0 := by
  constructor
  · intro h
    have := h.level_eq
    rw [level_nil] at this
    omega
  · rintro rfl
    refine ⟨fun front hfront => ?_, rfl⟩
    rw [List.prefix_nil.mp hfront]
    exact Int.le_refl 0

/-- A closing symbol must have something to close; what follows a symbol is read at the depth after
it. -/
theorem balancedFrom_cons {depth : Nat} {a : α} {text : List α} :
    BalancedFrom depth (a :: text) ↔
      (role a = .closes → depth ≠ 0) ∧ BalancedFrom ((role a).depthAfter depth) text := by
  constructor
  · intro h
    have hclose : role a = .closes → depth ≠ 0 := by
      rintro ha rfl
      have := h.level_nonneg [a] ⟨text, rfl⟩
      simp [level, ha] at this
    refine ⟨hclose, fun front hfront => ?_, ?_⟩
    · rw [← add_level_cons hclose]
      exact h.level_nonneg (a :: front) ((List.prefix_cons_inj a).mpr hfront)
    · rw [← add_level_cons hclose]
      exact h.level_eq
  · rintro ⟨hclose, h⟩
    refine ⟨fun front hfront => ?_, ?_⟩
    · rcases List.prefix_cons_iff.mp hfront with rfl | ⟨front', rfl, hfront'⟩
      · simp [level_nil]
      · rw [add_level_cons hclose]
        exact h.level_nonneg front' hfront'
    · rw [add_level_cons hclose]
      exact h.level_eq

theorem itemFrom_nil {depth : Nat} : ItemFrom depth ([] : List α) ↔ depth = 0 := by
  constructor
  · intro h
    exact balancedFrom_nil.mp h.toBalancedFrom
  · intro h
    refine ⟨balancedFrom_nil.mpr h, fun front a hfront _ => ?_⟩
    simp at hfront

/-- In an item a separator, too, must stand inside something. -/
theorem itemFrom_cons {depth : Nat} {a : α} {text : List α} :
    ItemFrom depth (a :: text) ↔
      (role a = .closes ∨ role a = .separates → depth ≠ 0) ∧
        ItemFrom ((role a).depthAfter depth) text := by
  constructor
  · intro h
    obtain ⟨hclose, hbalanced⟩ := balancedFrom_cons.mp h.toBalancedFrom
    have hcut : role a = .closes ∨ role a = .separates → depth ≠ 0 := by
      rintro (ha | ha)
      · exact hclose ha
      · have := h.level_ne [] a ⟨text, rfl⟩ ha
        rw [level_nil] at this
        omega
    refine ⟨hcut, hbalanced, fun front b hfront hb => ?_⟩
    rw [← add_level_cons hclose]
    exact h.level_ne (a :: front) b ((List.prefix_cons_inj a).mpr hfront) hb
  · rintro ⟨hcut, h⟩
    have hclose : role a = .closes → depth ≠ 0 := fun ha => hcut (Or.inl ha)
    refine ⟨balancedFrom_cons.mpr ⟨hclose, h.toBalancedFrom⟩, fun front b hfront hb => ?_⟩
    rcases List.prefix_cons_iff.mp hfront with hnil | ⟨front', hcons, hfront'⟩
    · simp at hnil
    · cases front with
      | nil =>
        obtain ⟨rfl, -⟩ := List.cons.inj hcons
        have := hcut (Or.inr hb)
        rw [level_nil]
        omega
      | cons c front =>
        obtain ⟨rfl, rfl⟩ := List.cons.inj hcons
        rw [add_level_cons hclose]
        exact h.level_ne front b hfront' hb

/-! ## Texts cut in two -/

theorem Balanced.level_eq_zero {text : List α} (h : Balanced text) : level text = 0 := by
  have := h.level_eq
  omega

theorem IsItem.balanced {text : List α} (h : IsItem text) : Balanced text :=
  h.toBalancedFrom

theorem Balanced.level_front_nonneg {s t : List α} (h : Balanced (s ++ t)) : 0 ≤ level s := by
  have := h.level_nonneg s ⟨t, rfl⟩
  omega

/-- Between an opening and a closing symbol, the level of a balanced text is positive up to the closing
symbol, and zero behind it. -/
theorem Balanced.level_enclosed {a b : α} {body : List α} (h : Balanced body) (ha : role a = .opens)
    (hb : role b = .closes) :
    level (a :: (body ++ [b])) = 0 ∧ ∀ front, front <+: a :: (body ++ [b]) → front ≠ [] →
      front ≠ a :: (body ++ [b]) → 0 < level front := by
  have hend : level [b] = -1 := by simp [level, hb]
  refine ⟨?_, fun front hfront hne hall => ?_⟩
  · rw [level_cons_of_opens ha, level_append, h.level_eq_zero, hend]
    rfl
  · rcases List.prefix_cons_iff.mp hfront with hnil | ⟨front', rfl, hfront'⟩
    · exact absurd hnil hne
    · rcases List.prefix_concat_iff.mp hfront' with rfl | hinside
      · exact absurd rfl hall
      · -- inside the body no group has been closed that was not opened there
        have hnonneg := h.level_nonneg front' hinside
        rw [level_cons_of_opens ha]
        omega

/-- Where all groups are closed, a text can be cut in two and put together again. -/
theorem balanced_append {s t : List α} (hs : level s = 0) :
    Balanced (s ++ t) ↔ Balanced s ∧ Balanced t := by
  suffices h : ∀ depth : Nat, depth + level s = 0 →
      (BalancedFrom depth (s ++ t) ↔ BalancedFrom depth s ∧ Balanced t) from h 0 (by omega)
  clear hs
  induction s with
  | nil =>
    intro depth hdepth
    obtain rfl : depth = 0 := by rw [level_nil] at hdepth; omega
    simp [balancedFrom_nil, Balanced]
  | cons a s ih =>
    intro depth hdepth
    rw [List.cons_append, balancedFrom_cons, balancedFrom_cons, and_assoc]
    refine and_congr_right fun hclose => ih _ ?_
    rw [← add_level_cons hclose]
    exact hdepth

theorem isItem_append {s t : List α} (hs : level s = 0) :
    IsItem (s ++ t) ↔ IsItem s ∧ IsItem t := by
  suffices h : ∀ depth : Nat, depth + level s = 0 →
      (ItemFrom depth (s ++ t) ↔ ItemFrom depth s ∧ IsItem t) from h 0 (by omega)
  clear hs
  induction s with
  | nil =>
    intro depth hdepth
    obtain rfl : depth = 0 := by rw [level_nil] at hdepth; omega
    simp [itemFrom_nil, IsItem]
  | cons a s ih =>
    intro depth hdepth
    rw [List.cons_append, itemFrom_cons, itemFrom_cons, and_assoc]
    refine and_congr_right fun hcut => ih _ ?_
    rw [← add_level_cons fun ha => hcut (Or.inl ha)]
    exact hdepth

/-! ## Plain symbols -/

/-- The symbols of a text that are not plain. -/
def signs (text : List α) : List α :=
  text.filter fun a => role a ≠ .plain

@[simp] theorem signs_append (s t : List α) : signs (s ++ t) = signs s ++ signs t := by
  simp [signs]

theorem signs_eq_nil {text : List α} (h : ∀ a ∈ text, role a = .plain) : signs text = [] := by
  simpa [signs] using h

theorem signs_cons_of_ne {a : α} (ha : role a ≠ .plain) (text : List α) :
    signs (a :: text) = a :: signs text := by
  simp [signs, ha]

/-- A sign with the same signs behind it cuts a text in one way only. -/
theorem append_cons_inj {a : α} {s t u v : List α} (ha : role a ≠ .plain)
    (h : s ++ a :: u = t ++ a :: v) (hsigns : signs u = signs v) : s = t := by
  have hnil : ∀ {x y between : List α}, a :: x = between ++ a :: y → signs x = signs y →
      between = [] := by
    intro x y between hcons hxy
    cases between with
    | nil => rfl
    | cons b between =>
      rw [List.cons_append] at hcons
      obtain ⟨-, rfl⟩ := List.cons.inj hcons
      rw [signs_append, signs_cons_of_ne ha] at hxy
      have hlength := congrArg List.length hxy
      rw [List.length_append, List.length_cons] at hlength
      omega
  rcases List.append_eq_append_iff.mp h with ⟨between, rfl, hu⟩ | ⟨between, rfl, hv⟩
  · rw [hnil hu hsigns, List.append_nil]
  · rw [hnil hv hsigns.symm, List.append_nil]

/-- Whether a text is an item depends on its signs only. -/
theorem isItem_signs (text : List α) : IsItem (signs text) ↔ IsItem text := by
  suffices h : ∀ depth : Nat, ItemFrom depth (signs text) ↔ ItemFrom depth text from h 0
  induction text with
  | nil => intro depth; rfl
  | cons a text ih =>
    intro depth
    by_cases ha : role a = .plain
    · have hsigns : signs (a :: text) = signs text := by simp [signs, ha]
      rw [hsigns, itemFrom_cons, ih, ha]
      simp [Role.depthAfter]
    · rw [signs_cons_of_ne ha, itemFrom_cons, itemFrom_cons, ih]

theorem isItem_congr {s t : List α} (h : signs s = signs t) : IsItem s ↔ IsItem t := by
  rw [← isItem_signs s, h, isItem_signs t]

end FuncType
