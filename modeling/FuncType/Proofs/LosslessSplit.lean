import FuncType.Group.Encoded
import FuncType.Proofs.Splitting

/-!
# Splitting a list loses nothing

A text is split into segments exactly if the parenthesis that it starts with is closed. The segments,
with a comma between each two of them, are then all that stands between the two parentheses, and all of
them are items. Nothing else is a splitting of the text: items with commas between them, in parentheses,
are split into these items, whatever follows (`Group.split?_lossless`).
-/

namespace FuncType

/-- The closing parenthesis that is found among the bytes of a text is that of the group at its head. -/
theorem value_closingOffset? (text : String) :
    (closingOffset? text).value = (Group.cut? text.toList).map Group.closeOffset := by
  rw [closingOffset?, Group.cut?_utf8, Option.map_map]
  rfl

namespace Group

/-- The body of a group lies between its first byte and its closing parenthesis. -/
theorem utf8_body {text : List Char} {g : Group Char} (h : cut? text = some g) :
    utf8 g.body = ((utf8 text).take g.closeOffset).drop 1 := by
  have hbytes : utf8 text = 0x28 :: (utf8 g.body ++ utf8 (')' :: g.rest)) := by
    rw [text_of_cut? h, Group.text, List.append_assoc, List.cons_append, utf8_cons, utf8_append]
    rfl
  rw [hbytes, closeOffset, List.take_succ_cons, List.drop_succ_cons, List.drop_zero, List.take_left]

/-- A text is split where its first parenthesis is closed, and then into the items that make up its
list when they are joined by commas; and the list of any items is split into these items, whatever
follows it. -/
theorem split?_lossless :
    (∀ text : String,
      ((split? text.toList).value = none ↔ (closingOffset? text).value = none) ∧
      ∀ g, (split? text.toList).value = some g →
        (closingOffset? text).value = some g.closeOffset ∧ g.segments ≠ [] ∧
        utf8 ([','].intercalate g.segments) = ((utf8 text.toList).take g.closeOffset).drop 1 ∧
        ∀ segment ∈ g.segments, IsItem segment) ∧
    ∀ (segs : List (List Char)) (rest : List Char), segs ≠ [] → (∀ segment ∈ segs, IsItem segment) →
      ∃ g, (split? ('(' :: [','].intercalate segs ++ ')' :: rest)).value = some g ∧ g.segments = segs ∧
        g.closeOffset = (utf8 ('(' :: [','].intercalate segs)).length := by
  refine ⟨fun text => ?_, fun segs rest hne hitems => ?_⟩
  · rw [value_split?, value_closingOffset?]
    refine ⟨Option.map_eq_none_iff.symm, fun g hcut => ?_⟩
    obtain ⟨-, hbody⟩ := cut?_eq_some_iff.mp hcut
    refine ⟨by rw [hcut]; rfl, segments_ne_nil g.body, ?_, isItem_of_mem_segments hbody⟩
    have hjoin : [','].intercalate g.segments = g.body := intercalate_segments g.body
    rw [hjoin, utf8_body hcut]
  · have hlist : ListOf segs ('(' :: [','].intercalate segs ++ [')']) := ⟨hne, hitems, rfl⟩
    have hcut := hlist.cut?_append rest
    rw [List.append_assoc, List.singleton_append] at hcut
    rw [value_split?, hcut]
    refine ⟨_, rfl, hlist.segments_eq, ?_⟩
    rw [closeOffset, utf8_cons, List.length_append, Nat.add_comm]
    rfl

/-- A comma of an inner group, a letter of two bytes and parentheses behind the list. -/
theorem split?_lossless_at_inner_comma :
    (split? "(ö, f(x, y)))(".toList).value = some ⟨"ö, f(x, y)".toList, ")(".toList⟩ ∧
      (closingOffset? "(ö, f(x, y)))(").value = some 12 ∧
      (∀ segment ∈ ["ö".toList, " f(x, y)".toList], IsItem segment) ∧
      ∃ g, (split? ('(' :: [','].intercalate ["ö".toList, " f(x, y)".toList] ++
          ')' :: ")(".toList)).value = some g ∧
        g.segments = ["ö".toList, " f(x, y)".toList] ∧
        g.closeOffset = (utf8 ('(' :: [','].intercalate ["ö".toList, " f(x, y)".toList])).length := by
  have hsplit : (split? "(ö, f(x, y)))(".toList).value = some ⟨"ö, f(x, y)".toList, ")(".toList⟩ := by
    rw [value_split?]
    rfl
  obtain ⟨hclose, -, -, hitems⟩ := (split?_lossless.1 _).2 _ hsplit
  exact ⟨hsplit, hclose, hitems, split?_lossless.2 _ _ (List.cons_ne_nil _ _) hitems⟩

end Group

end FuncType
