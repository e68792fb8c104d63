import FuncType.Role

/-!
# Parenthesized groups

A text that starts with an opening parenthesis has a *group* at its head if that parenthesis is
closed again. `Group.cut?` takes the group off, whatever follows it, and `segments` cuts the body
of a group at the commas that stand in no inner group. Nothing is lost on the way: the group and
what follows it make up the text again (`Group.text_of_cut?`), and a text always has at least one
segment (`segments_ne_nil`).

`visits` tells how far a scan for the closing parenthesis reads, and the depth it has reached after
each symbol.
-/

namespace FuncType

variable {α : Type} [Alphabet α]

/-- A parenthesized group at the head of a text. -/
structure Group (α : Type) where
  /-- What stands between the parentheses. -/
  body : List α
  /-- What follows the closing parenthesis. -/
  rest : List α
deriving DecidableEq, Repr

namespace Group

/-- The same group with one more symbol at the start of its body. -/
def consBody (a : α) (g : Group α) : Group α :=
  { g with body := a :: g.body }

/-- Reads on inside a group, `depth` inner groups of which are open, to the symbol that closes the
group itself. -/
def closeFrom (depth : Nat) : List α → Option (Group α)
  | [] => none
  | a :: text =>
    if role a = .closes ∧ depth = 0 then some ⟨[], text⟩
    else (closeFrom ((role a).depthAfter depth) text).map (consBody a)

/-- The group at the head of a text; `none` if the text starts with no opening symbol, or with one
that is never closed. -/
def cut? : List α → Option (Group α)
  | [] => none
  | a :: text => if role a = .opens then closeFrom 0 text else none

/-- The characters of a group, its parentheses included. -/
def text (g : Group Char) : List Char :=
  '(' :: g.body ++ [')']

end Group

/-- Cuts a text that starts inside `depth` open groups at the separators outside all groups. -/
def segmentsFrom (depth : Nat) : List α → List (List α)
  | [] => [[]]
  | a :: text =>
    if role a = .separates ∧ depth = 0 then [] :: segmentsFrom 0 text
    else (segmentsFrom ((role a).depthAfter depth) text).modifyHead (a :: ·)

/-- The pieces of a text between the separators outside all groups. -/
def segments (text : List α) : List (List α) :=
  segmentsFrom 0 text

/-- The symbols that a scan reads from depth `depth` on, each with the depth after it. The scan ends
with the first symbol that brings the depth back to zero. -/
def visitsFrom (depth : Nat) : List α → List (α × Nat)
  | [] => []
  | a :: text =>
    let after := (role a).depthAfter depth
    (a, after) :: if after = 0 then [] else visitsFrom after text

/-- The symbols that the scan for the end of the group at the head of a text reads, each with the
depth after it; none if the text starts with no opening symbol. -/
def visits : List α → List (α × Nat)
  | [] => []
  | a :: text => if role a = .opens then visitsFrom 0 (a :: text) else []

/-! ## Nothing is lost -/

theorem segmentsFrom_ne_nil (depth : Nat) (text : List α) : segmentsFrom depth text ≠ [] := by
  induction text generalizing depth with
  | nil => simp [segmentsFrom]
  | cons a text ih =>
    rw [segmentsFrom]
    split
    · simp
    · simpa [List.modifyHead_eq_nil_iff] using ih _

theorem segments_ne_nil (text : List α) : segments text ≠ [] :=
  segmentsFrom_ne_nil 0 text

/-- A text read on inside a group is the body, a closing parenthesis and the rest. -/
theorem Group.eq_of_closeFrom {depth : Nat} {text : List Char} {g : Group Char}
    (h : closeFrom depth text = some g) : text = g.body ++ ')' :: g.rest := by
  induction text generalizing depth g with
  | nil => simp [closeFrom] at h
  | cons c text ih =>
    rw [closeFrom] at h
    split at h
    case isTrue hc =>
      obtain rfl := Option.some.inj h
      simp [role_char_eq_closes_iff.mp hc.1]
    case isFalse =>
      obtain ⟨g', hg', rfl⟩ := Option.map_eq_some_iff.mp h
      simpa [consBody] using ih hg'

/-- A text with a group at its head is that group and what follows it. -/
theorem Group.text_of_cut? {text : List Char} {g : Group Char} (h : cut? text = some g) :
    text = g.text ++ g.rest := by
  cases text with
  | nil => simp [cut?] at h
  | cons c text =>
    rw [cut?] at h
    split at h
    case isTrue hc =>
      rw [role_char_eq_opens_iff.mp hc, eq_of_closeFrom h]
      simp [Group.text]
    case isFalse => simp at h

/-- The segments of a text, joined by commas, are the text again. -/
theorem intercalate_segmentsFrom (depth : Nat) (text : List Char) :
    [','].intercalate (segmentsFrom depth text) = text := by
  induction text generalizing depth with
  | nil => rfl
  | cons c text ih =>
    rw [segmentsFrom]
    split
    case isTrue hc =>
      rw [role_char_eq_separates_iff.mp hc.1]
      cases h : segmentsFrom 0 text with
      | nil => exact absurd h (segmentsFrom_ne_nil 0 text)
      | cons segment more =>
        have := ih 0
        rw [h] at this
        simpa [List.intercalate] using this
    case isFalse =>
      generalize (role c).depthAfter depth = after
      have := ih after
      cases h : segmentsFrom after text with
      | nil => exact absurd h (segmentsFrom_ne_nil after text)
      | cons segment more =>
        rw [h] at this
        cases more <;> simp_all [List.intercalate, List.modifyHead]

theorem intercalate_segments (text : List Char) : [','].intercalate (segments text) = text :=
  intercalate_segmentsFrom 0 text

/-! ## Plain text is passed over -/

/-- Plain symbols in front are part of the body and change nothing else. -/
theorem Group.closeFrom_append {front : List α} (h : ∀ a ∈ front, role a = .plain) (depth : Nat)
    (text : List α) :
    closeFrom depth (front ++ text) =
      (closeFrom depth text).map fun g => { g with body := front ++ g.body } := by
  induction front with
  | nil => simp
  | cons a front ih =>
    have ha : role a = .plain := h a List.mem_cons_self
    rw [List.cons_append, closeFrom, ha, if_neg (by simp), Role.depthAfter,
      ih fun b hb => h b (List.mem_cons_of_mem a hb), Option.map_map]
    rfl

/-- Plain symbols in front belong to the first segment and change nothing else. -/
theorem segmentsFrom_append {front : List α} (h : ∀ a ∈ front, role a = .plain) (depth : Nat)
    (text : List α) :
    segmentsFrom depth (front ++ text) = (segmentsFrom depth text).modifyHead (front ++ ·) := by
  induction front with
  | nil =>
    rw [List.nil_append]
    cases segmentsFrom depth text <;> rfl
  | cons a front ih =>
    have ha : role a = .plain := h a List.mem_cons_self
    rw [List.cons_append, segmentsFrom, ha, if_neg (by simp), Role.depthAfter,
      ih fun b hb => h b (List.mem_cons_of_mem a hb), List.modifyHead_modifyHead]
    rfl

end FuncType
