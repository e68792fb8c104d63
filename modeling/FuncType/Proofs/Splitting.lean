import FuncType.Scan
import FuncType.Proofs.Nesting

/-!
# Cutting texts at their parentheses and commas

What the scanner takes for the group at the head of a text is the one balanced body in parentheses
that the text starts with (`Group.cut?_eq_some_iff`), whatever follows it. The segments of a
balanced text are items, and items joined by commas have no other segments than themselves
(`segments_intercalate`); so a list in parentheses is the list of its segments in exactly one way
(`ListOf.unique`).
-/

namespace FuncType

variable {α : Type} [Alphabet α]

/-! ## The end of a group -/

/-- Reading on inside a group stops at the first closing symbol that has a text in front of it which
closes all inner groups. -/
theorem Group.closeFrom_eq_some_iff {depth : Nat} {text : List α} {g : Group α} :
    closeFrom depth text = some g ↔
      ∃ a, role a = .closes ∧ text = g.body ++ a :: g.rest ∧ BalancedFrom depth g.body := by
  induction text generalizing depth g with
  | nil => simp [closeFrom]
  | cons b text ih =>
    rw [closeFrom]
    obtain ⟨body, rest⟩ := g
    split
    case isTrue hb =>
      obtain ⟨hrole, rfl⟩ := hb
      constructor
      · intro h
        obtain ⟨rfl, rfl⟩ := Group.mk.inj (Option.some.inj h)
        exact ⟨b, hrole, rfl, balancedFrom_nil.mpr rfl⟩
      · rintro ⟨a, -, htext, hbody⟩
        cases body with
        | nil =>
          obtain ⟨-, rfl⟩ := List.cons.inj htext
          rfl
        | cons c body =>
          obtain ⟨rfl, -⟩ := List.cons.inj htext
          exact absurd rfl ((balancedFrom_cons.mp hbody).1 hrole)
    case isFalse hb =>
      constructor
      · intro h
        obtain ⟨g', hg', heq⟩ := Option.map_eq_some_iff.mp h
        obtain ⟨rfl, rfl⟩ := Group.mk.inj heq
        obtain ⟨a, ha, htext, hbody⟩ := ih.mp hg'
        refine ⟨a, ha, by rw [htext]; rfl, balancedFrom_cons.mpr ⟨?_, hbody⟩⟩
        intro hrole hdepth
        exact hb ⟨hrole, hdepth⟩
      · rintro ⟨a, ha, htext, hbody⟩
        cases body with
        | nil =>
          obtain ⟨rfl, -⟩ := List.cons.inj htext
          exact absurd ⟨ha, balancedFrom_nil.mp hbody⟩ hb
        | cons c body =>
          obtain ⟨rfl, rfl⟩ := List.cons.inj htext
          have hrest : closeFrom ((role b).depthAfter depth) (body ++ a :: rest) = some ⟨body, rest⟩ :=
            ih.mpr ⟨a, ha, rfl, (balancedFrom_cons.mp hbody).2⟩
          show Option.map (consBody b) (closeFrom _ (body ++ a :: rest)) = _
          rw [hrest]
          rfl

/-- The group at the head of a text is a balanced body between an opening and a closing symbol. -/
theorem Group.exists_of_cut? {text : List α} {g : Group α} (h : cut? text = some g) :
    ∃ a b, role a = .opens ∧ role b = .closes ∧ text = a :: (g.body ++ b :: g.rest) ∧
      Balanced g.body := by
  cases text with
  | nil => simp [cut?] at h
  | cons a text =>
    rw [cut?] at h
    split at h
    case isTrue ha =>
      obtain ⟨b, hb, rfl, hbody⟩ := closeFrom_eq_some_iff.mp h
      exact ⟨a, b, ha, hb, rfl, hbody⟩
    case isFalse => simp at h

/-- A text has a group at its head if it starts with a balanced body in parentheses, and then no
other. -/
theorem Group.cut?_eq_some_iff {text : List Char} {g : Group Char} :
    cut? text = some g ↔ text = g.text ++ g.rest ∧ Balanced g.body := by
  constructor
  · intro h
    obtain ⟨-, -, -, -, -, hbody⟩ := exists_of_cut? h
    exact ⟨text_of_cut? h, hbody⟩
  · rintro ⟨rfl, hbody⟩
    have hclose : closeFrom 0 (g.body ++ ')' :: g.rest) = some g :=
      closeFrom_eq_some_iff.mpr ⟨')', rfl, rfl, hbody⟩
    simpa [text, cut?, role] using hclose

/-! ## Segments -/

/-- The end of an item in front of a text belongs to the first segment and cuts nothing. -/
theorem segmentsFrom_item_append {depth : Nat} {front : List α} (h : ItemFrom depth front)
    (text : List α) :
    segmentsFrom depth (front ++ text) = (segments text).modifyHead (front ++ ·) := by
  induction front generalizing depth with
  | nil =>
    obtain rfl := itemFrom_nil.mp h
    rw [List.nil_append]
    show segments text = _
    cases segments text <;> rfl
  | cons a front ih =>
    obtain ⟨hcut, hfront⟩ := itemFrom_cons.mp h
    have hnot : ¬ (role a = .separates ∧ depth = 0) := fun ha => hcut (Or.inr ha.1) ha.2
    rw [List.cons_append, segmentsFrom, if_neg hnot, ih hfront, List.modifyHead_modifyHead]
    rfl

/-- Items with separators between them are cut at these separators and nowhere else. -/
theorem segments_intercalate {a : α} (ha : role a = .separates) {items : List (List α)}
    (hne : items ≠ []) (hitems : ∀ item ∈ items, IsItem item) :
    segments ([a].intercalate items) = items := by
  induction items with
  | nil => exact absurd rfl hne
  | cons item more ih =>
    have hitem : IsItem item := hitems item List.mem_cons_self
    cases more with
    | nil =>
      have := segmentsFrom_item_append hitem []
      simpa [segments, segmentsFrom] using this
    | cons next rest =>
      have hmore : segments ([a].intercalate (next :: rest)) = next :: rest :=
        ih (List.cons_ne_nil _ _) fun i hi => hitems i (List.mem_cons_of_mem _ hi)
      have hcut : segments ([a] ++ [a].intercalate (next :: rest)) = [] :: next :: rest := by
        rw [List.singleton_append, segments, segmentsFrom, if_pos ⟨ha, rfl⟩]
        exact congrArg ([] :: ·) hmore
      rw [List.intercalate_cons_cons, List.append_assoc, segments, segmentsFrom_item_append hitem,
        hcut]
      simp

/-- Cutting a text that closes all the groups it is read in gives the end of an item and items. -/
theorem segmentsFrom_eq_cons {depth : Nat} {text : List α} (h : BalancedFrom depth text) :
    ∃ first more, segmentsFrom depth text = first :: more ∧ ItemFrom depth first ∧
      ∀ segment ∈ more, IsItem segment := by
  induction text generalizing depth with
  | nil => exact ⟨[], [], rfl, itemFrom_nil.mpr (balancedFrom_nil.mp h), by simp⟩
  | cons a text ih =>
    obtain ⟨hclose, htext⟩ := balancedFrom_cons.mp h
    rw [segmentsFrom]
    split
    case isTrue ha =>
      obtain ⟨hrole, rfl⟩ := ha
      have hdepth : (role a).depthAfter 0 = 0 := by rw [hrole]; rfl
      rw [hdepth] at htext
      obtain ⟨first, more, heq, hfirst, hmore⟩ := ih htext
      refine ⟨[], segmentsFrom 0 text, rfl, itemFrom_nil.mpr rfl, ?_⟩
      rw [heq]
      exact List.forall_mem_cons.mpr ⟨hfirst, hmore⟩
    case isFalse ha =>
      obtain ⟨first, more, heq, hfirst, hmore⟩ := ih htext
      rw [heq]
      refine ⟨a :: first, more, rfl, itemFrom_cons.mpr ⟨?_, hfirst⟩, hmore⟩
      rintro (hrole | hrole) hdepth
      · exact hclose hrole hdepth
      · exact ha ⟨hrole, hdepth⟩

theorem isItem_of_mem_segments {text : List α} (h : Balanced text) :
    ∀ segment ∈ segments text, IsItem segment := by
  obtain ⟨first, more, heq, hfirst, hmore⟩ := segmentsFrom_eq_cons h
  rw [segments, heq]
  exact List.forall_mem_cons.mpr ⟨hfirst, hmore⟩

/-- Items with balanced texts between them make a balanced text. -/
theorem balanced_intercalate {sep : List α} (hsep : Balanced sep) {items : List (List α)}
    (hitems : ∀ item ∈ items, Balanced item) : Balanced (sep.intercalate items) := by
  induction items with
  | nil => exact balancedFrom_nil.mpr rfl
  | cons item more ih =>
    obtain ⟨hitem, hrest⟩ := List.forall_mem_cons.mp hitems
    cases more with
    | nil => simpa using hitem
    | cons next rest =>
      rw [List.intercalate_cons_cons, List.append_assoc, balanced_append hitem.level_eq_zero,
        balanced_append hsep.level_eq_zero]
      exact ⟨hitem, hsep, ih hrest⟩

/-! ## Lists in parentheses -/

/-- A text is the list of some segments: it holds them in parentheses with a comma between each two,
there is at least one, and all of them are items. -/
structure ListOf (segments : List (List Char)) (text : List Char) : Prop where
  ne_nil : segments ≠ []
  isItem : ∀ segment ∈ segments, IsItem segment
  text_eq : text = '(' :: [','].intercalate segments ++ [')']

namespace ListOf

variable {segs : List (List Char)} {text : List Char}

/-- Whatever follows a list, the list is the group at the head. -/
theorem cut?_append (h : ListOf segs text) (rest : List Char) :
    Group.cut? (text ++ rest) = some ⟨[','].intercalate segs, rest⟩ := by
  have hcomma : Balanced [','] := by
    unfold Balanced
    rw [balancedFrom_cons, balancedFrom_nil]
    simp [role, Role.depthAfter]
  refine Group.cut?_eq_some_iff.mpr ⟨?_, ?_⟩
  · rw [h.text_eq]
    rfl
  · exact balanced_intercalate hcomma fun segment hmem => (h.isItem segment hmem).balanced

theorem segments_eq (h : ListOf segs text) : segments ([','].intercalate segs) = segs :=
  segments_intercalate rfl h.ne_nil h.isItem

/-- A list is the group at its head, whatever follows, and its segments are the segments of the group. -/
theorem exists_group (h : ListOf segs text) (rest : List Char) :
    ∃ g, Group.cut? (text ++ rest) = some g ∧ g.text = text ∧ g.rest = rest ∧ g.segments = segs :=
  ⟨_, h.cut?_append rest, h.text_eq.symm, rfl, h.segments_eq⟩

/-- A text is the list of its segments in one way only. -/
theorem unique {segs' : List (List Char)} (h : ListOf segs text) (h' : ListOf segs' text) :
    segs = segs' := by
  have hcut : some (Group.mk ([','].intercalate segs) []) = some ⟨[','].intercalate segs', []⟩ := by
    rw [← h.cut?_append, h'.cut?_append]
  have hbody := congrArg Group.body (Option.some.inj hcut)
  rw [← h.segments_eq, ← h'.segments_eq]
  exact congrArg segments hbody

end ListOf

/-- The group at the head of a text is the list of its segments. -/
theorem Group.listOf_segments {g : Group Char} (h : Balanced g.body) : ListOf g.segments g.text where
  ne_nil := segments_ne_nil g.body
  isItem := isItem_of_mem_segments h
  text_eq := by
    unfold Group.segments
    rw [intercalate_segments]
    rfl

end FuncType
