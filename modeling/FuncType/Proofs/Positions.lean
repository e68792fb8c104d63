import FuncType.Proofs.CheckedScans
import FuncType.Proofs.LosslessSplit
import FuncType.Proofs.ScanEvents

/-!
# Scans by position

The scans of a list can be written with positions only: a loop counts the symbols that it has read and
the depth, answers with the position of the symbol that brings the depth back to zero, and marks the
positions of the separators and closing symbols that it meets at depth one. The segments are what stands
between the marks. Such a loop can be run over the bytes of a text as well as over its characters.

Over any symbols, it finds the group at the head of a text and the segments of its body
(`Positions.split?_eq`). Since encoding a text changes neither (`Group.cut?_utf8`, `segments_utf8`), the
loop over the bytes and the loop over the characters tell the same story: the one answers with the number
of bytes in front of the character that the other answers with, and its segments are the encodings of the
other's (`byteScans_eq_characterScans`).
-/

namespace FuncType

/-- The number of bytes in front of the character at a position. -/
def byteOffset (text : List Char) (position : Nat) : Nat :=
  (utf8 (text.take position)).length

namespace Positions

variable {α : Type} [Alphabet α]

/-- The position of the first symbol behind which the depth is zero; the symbols still to be read start at
`position`. -/
def closeFrom (position depth : Nat) : List α → Option Nat
  | [] => none
  | a :: unread =>
    if (role a).depthAfter depth = 0 then some position
    else closeFrom (position + 1) ((role a).depthAfter depth) unread

/-- The position of the symbol that closes the group at the head of a text. -/
def close? : List α → Option Nat
  | [] => none
  | a :: text => if role a = .opens then closeFrom 0 0 (a :: text) else none

/-- The positions of the separators and closing symbols in front of which the depth is one; the symbols
still to be read start at `position`. -/
def marksFrom (position depth : Nat) : List α → List Nat
  | [] => []
  | a :: unread =>
    if depth = 1 ∧ (role a = .separates ∨ role a = .closes) then
      position :: marksFrom (position + 1) ((role a).depthAfter depth) unread
    else marksFrom (position + 1) ((role a).depthAfter depth) unread

/-- The pieces of a text in front of some marks: the first starts at `start`, each of the others behind
the mark of the one before it. -/
def pieces (text : List α) (start : Nat) : List Nat → List (List α)
  | [] => []
  | mark :: more => (text.take mark).drop start :: pieces text (mark + 1) more

/-- The segments of the group at the head of a text, and the position of its closing symbol. -/
def split? (text : List α) : Option (List (List α) × Nat) :=
  (close? text).map fun close => (pieces text 1 (marksFrom 0 0 (text.take (close + 1))), close)

/-! ## The closing symbol -/

/-- Inside a group, the loop stops at the symbol that closes the group. -/
theorem closeFrom_succ (position depth : Nat) (text : List α) :
    closeFrom position (depth + 1) text =
      (Group.closeFrom depth text).map fun g => position + g.body.length := by
  induction text generalizing position depth with
  | nil => rfl
  | cons a text ih =>
    rw [closeFrom, Group.closeFrom]
    by_cases hend : role a = .closes ∧ depth = 0
    · obtain ⟨hrole, rfl⟩ := hend
      have hzero : (role a).depthAfter (0 + 1) = 0 := by rw [hrole]; rfl
      rw [if_pos hzero, if_pos ⟨hrole, rfl⟩]
      rfl
    · have hcloses : role a = .closes → depth ≠ 0 := fun hrole hzero => hend ⟨hrole, hzero⟩
      rw [if_neg hend, Role.depthAfter_succ hcloses, if_neg (Nat.succ_ne_zero _), ih, Option.map_map]
      congr 1
      funext g
      show position + 1 + g.body.length = position + (g.body.length + 1)
      omega

theorem close?_eq (text : List α) :
    close? text = (Group.cut? text).map fun g => g.body.length + 1 := by
  cases text with
  | nil => rfl
  | cons a text =>
    rw [close?, Group.cut?]
    split
    case isTrue ha =>
      rw [closeFrom, ha]
      show closeFrom 1 (0 + 1) text = _
      rw [closeFrom_succ]
      congr 1
      funext g
      exact Nat.add_comm 1 _
    case isFalse => rfl

/-! ## The segments -/

/-- From any place of a list on, the pieces in front of the marks are the segments; what has been read of
the first of them, `piece`, is put in front. -/
theorem pieces_marksFrom (front piece : List α) {text todo rest : List α} {b : α} {depth : Nat}
    (htext : text = front ++ piece ++ (todo ++ b :: rest)) (hb : role b = .closes)
    (htodo : BalancedFrom depth todo) :
    pieces text front.length (marksFrom (front.length + piece.length) (depth + 1) (todo ++ [b])) =
      (segmentsFrom depth todo).modifyHead (piece ++ ·) := by
  induction todo generalizing front piece depth with
  | nil =>
    obtain rfl := balancedFrom_nil.mp htodo
    rw [List.nil_append, marksFrom, if_pos ⟨rfl, Or.inr hb⟩, marksFrom, pieces, pieces, htext,
      take_drop_middle]
    show [piece] = [piece ++ []]
    rw [List.append_nil]
  | cons a todo ih =>
    obtain ⟨hcloses, hrest⟩ := balancedFrom_cons.mp htodo
    rw [List.cons_append, marksFrom, segmentsFrom, Role.depthAfter_succ hcloses]
    by_cases hcut : role a = .separates ∧ depth = 0
    · -- the symbol is a mark, and an empty piece starts behind it
      have hnext := ih (front ++ piece ++ [a]) [] (by simp [htext]) hrest
      have hstart : (front ++ piece ++ [a]).length = front.length + piece.length + 1 := by
        rw [List.length_append, List.length_append, List.length_singleton]
      have hwhole := congrFun List.modifyHead_id (segmentsFrom ((role a).depthAfter depth) todo)
      rw [hstart] at hnext
      rw [if_pos ((Role.ends_iff hcloses).mpr hcut), if_pos hcut, pieces, htext, take_drop_middle, ← htext]
      obtain ⟨hrole, rfl⟩ := hcut
      rw [hrole] at hnext hwhole ⊢
      show piece :: _ = (piece ++ []) :: segmentsFrom 0 todo
      rw [List.append_nil]
      exact congrArg (piece :: ·) (hnext.trans hwhole)
    · -- the symbol belongs to the piece that is read
      have hread := ih front (piece ++ [a]) (by simp [htext]) hrest
      rw [List.length_append, List.length_singleton, ← Nat.add_assoc] at hread
      rw [if_neg ((not_congr (Role.ends_iff hcloses)).mpr hcut), if_neg hcut, hread, List.modifyHead_modifyHead]
      congr 1
      funext segment
      simp

theorem split?_eq (text : List α) :
    split? text = (Group.cut? text).map fun g => (segments g.body, g.body.length + 1) := by
  rw [split?, close?_eq, Option.map_map]
  cases hcut : Group.cut? text with
  | none => rfl
  | some g =>
    obtain ⟨a, b, ha, hb, htext, hbody⟩ := Group.exists_of_cut? hcut
    have hlist : text = a :: (g.body ++ [b]) ++ g.rest := by
      rw [htext]
      simp
    have htake : text.take (g.body.length + 1 + 1) = a :: (g.body ++ [b]) := by
      rw [hlist, List.take_left' (by simp)]
    have hmarks : marksFrom 0 0 (a :: (g.body ++ [b])) = marksFrom (1 + 0) (0 + 1) (g.body ++ [b]) := by
      rw [marksFrom, if_neg (by simp), ha]
      rfl
    have hpieces := pieces_marksFrom [a] [] htext hb hbody
    have hwhole := congrFun List.modifyHead_id (segmentsFrom 0 g.body)
    show some (pieces text 1 (marksFrom 0 0 (text.take (g.body.length + 1 + 1))), _) = _
    rw [htake, hmarks]
    exact congrArg (fun segs => some (segs, g.body.length + 1)) (hpieces.trans hwhole)

/-! ## Bytes and characters -/

/-- In front of the character that closes a group stand as many bytes as the offset of this character
tells. -/
theorem byteOffset_of_cut? {text : List Char} {g : Group Char} (h : Group.cut? text = some g) :
    byteOffset text (g.body.length + 1) = g.closeOffset := by
  have htake : text.take (g.body.length + 1) = '(' :: g.body := by
    rw [Group.text_of_cut? h, Group.text, List.append_assoc, List.take_left' (by simp)]
  rw [byteOffset, htake, utf8_cons, List.length_append, Nat.add_comm]
  rfl

/-- The bytes are closed where the characters are. -/
theorem close?_utf8 (text : List Char) :
    close? (utf8 text) = (close? text).map (byteOffset text) := by
  rw [close?_eq, close?_eq, Group.cut?_utf8, Option.map_map, Option.map_map]
  cases hcut : Group.cut? text with
  | none => rfl
  | some g => exact congrArg some (byteOffset_of_cut? hcut).symm

/-- The group at the head of a text, as its characters give it. -/
theorem map_cut?_eq (text : List Char) :
    (Group.cut? text).map (fun g => (g.segments, g.closeOffset)) =
      (split? text).map fun s => (s.1, byteOffset text s.2) := by
  rw [split?_eq, Option.map_map]
  cases hcut : Group.cut? text with
  | none => rfl
  | some g =>
    show some (g.segments, g.closeOffset) = some (g.segments, byteOffset text (g.body.length + 1))
    rw [byteOffset_of_cut? hcut]

/-- The bytes are split where the characters are. -/
theorem split?_utf8 (text : List Char) :
    split? (utf8 text) = (split? text).map fun s => (s.1.map utf8, byteOffset text s.2) := by
  have hbytes : split? (utf8 text) =
      (Group.cut? text).map fun g => (g.segments.map utf8, g.closeOffset) := by
    rw [split?_eq, Group.cut?_utf8, Option.map_map]
    congr 1
    funext g
    exact congrArg (·, g.closeOffset) (segments_utf8 g.body)
  have hchars := congrArg (Option.map fun s : List (List Char) × Nat => (s.1.map utf8, s.2))
    (map_cut?_eq text)
  rw [Option.map_map, Option.map_map] at hchars
  exact hbytes.trans hchars

end Positions

/-- The closing parenthesis that is found among the bytes of a text is the one that the same loop finds
among its characters, at the number of bytes in front of it; and the segments that are cut out of the bytes
are the encodings of those between the marks of the loop over the characters. So these are the segments of
the text, and a splitting that takes them at byte offsets, and checks that it cuts between characters, has
them as its result. -/
theorem byteScans_eq_characterScans (text : String) :
    (closingOffset? text).value = Positions.close? (utf8 text.toList) ∧
    Positions.close? (utf8 text.toList) =
      (Positions.close? text.toList).map (byteOffset text.toList) ∧
    Positions.split? (utf8 text.toList) =
      (Positions.split? text.toList).map (fun s => (s.1.map utf8, byteOffset text.toList s.2)) ∧
    (Group.split? text.toList).value.map (fun g => (g.segments, g.closeOffset)) =
      (Positions.split? text.toList).map (fun s => (s.1, byteOffset text.toList s.2)) ∧
    Checked.split text.toList =
      .ok ((Positions.split? text.toList).map fun s => (s.1, byteOffset text.toList s.2)) := by
  refine ⟨(Positions.close?_eq _).symm, Positions.close?_utf8 _, Positions.split?_utf8 _, ?_, ?_⟩
  · rw [Group.value_split?]
    exact Positions.map_cut?_eq text.toList
  · rw [Checked.split_eq, Positions.map_cut?_eq]

example : Positions.split? "(ö, f(x, y)))(".toList = some (["ö".toList, " f(x, y)".toList], 11) ∧
    byteOffset "(ö, f(x, y)))(".toList 11 = 12 :=
  ⟨rfl, rfl⟩

end FuncType
