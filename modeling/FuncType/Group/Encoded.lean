import FuncType.Group

/-!
# Groups of encoded texts

Cutting a text and encoding the pieces gives the same as encoding the text and cutting its bytes:
the group at the head of the bytes is the encoded group (`Group.cut?_utf8`), and the segments of the
bytes are the encoded segments (`segments_utf8`). So the bytes of a text may be scanned and the
text cut where the scan says, and no cut falls inside a character.
-/

namespace FuncType

/-- The group of bytes that a group of characters is encoded as. -/
def Group.encode (g : Group Char) : Group UInt8 :=
  { body := utf8 g.body, rest := utf8 g.rest }

/-- A character that is not plain is a single byte of the same role. -/
theorem utf8EncodeChar_of_not_plain {c : Char} (h : role c ≠ .plain) :
    ∃ b : UInt8, String.utf8EncodeChar c = [b] ∧ role b = role c := by
  cases hc : role c with
  | opens => exact ⟨0x28, by rw [role_char_eq_opens_iff.mp hc]; rfl, rfl⟩
  | closes => exact ⟨0x29, by rw [role_char_eq_closes_iff.mp hc]; rfl, rfl⟩
  | separates => exact ⟨0x2C, by rw [role_char_eq_separates_iff.mp hc]; rfl, rfl⟩
  | plain => exact absurd hc h

theorem Group.closeFrom_utf8 (depth : Nat) (text : List Char) :
    closeFrom depth (utf8 text) = (closeFrom depth text).map encode := by
  induction text generalizing depth with
  | nil => rfl
  | cons c text ih =>
    by_cases hc : role c = .plain
    · rw [utf8_cons, closeFrom_append (fun _ hb => role_of_mem_utf8EncodeChar hc hb), ih,
        closeFrom, hc, if_neg (by simp), Role.depthAfter, Option.map_map, Option.map_map]
      rfl
    · obtain ⟨b, hb, hrole⟩ := utf8EncodeChar_of_not_plain hc
      rw [utf8_cons, hb, List.singleton_append, closeFrom, closeFrom, hrole]
      split
      · rfl
      · rw [ih, Option.map_map, Option.map_map]
        congr 1
        funext g
        simp [encode, consBody, hb]

theorem Group.cut?_utf8 (text : List Char) : cut? (utf8 text) = (cut? text).map encode := by
  cases text with
  | nil => rfl
  | cons c text =>
    by_cases hc : role c = .plain
    · obtain ⟨b, bytes, hb⟩ : ∃ b bytes, String.utf8EncodeChar c = b :: bytes :=
        List.exists_cons_of_length_pos
          (by rw [String.length_utf8EncodeChar]; exact Char.utf8Size_pos c)
      have hplain : role b = .plain := role_of_mem_utf8EncodeChar hc (by simp [hb])
      simp [cut?, hb, hc, hplain]
    · obtain ⟨b, hb, hrole⟩ := utf8EncodeChar_of_not_plain hc
      rw [utf8_cons, hb, List.singleton_append, cut?, cut?, hrole]
      split
      · exact closeFrom_utf8 0 text
      · rfl

theorem segmentsFrom_utf8 (depth : Nat) (text : List Char) :
    segmentsFrom depth (utf8 text) = (segmentsFrom depth text).map utf8 := by
  induction text generalizing depth with
  | nil => rfl
  | cons c text ih =>
    have map_modifyHead : ∀ pieces : List (List Char),
        (pieces.modifyHead (c :: ·)).map utf8 =
          (pieces.map utf8).modifyHead (String.utf8EncodeChar c ++ ·) := by
      intro pieces
      cases pieces <;> rfl
    by_cases hc : role c = .plain
    · rw [utf8_cons, segmentsFrom_append (fun _ hb => role_of_mem_utf8EncodeChar hc hb), ih,
        segmentsFrom, hc, if_neg (by simp), Role.depthAfter, map_modifyHead]
    · obtain ⟨b, hb, hrole⟩ := utf8EncodeChar_of_not_plain hc
      rw [utf8_cons, hb, List.singleton_append, segmentsFrom, segmentsFrom, hrole]
      split
      · rw [ih]
        rfl
      · rw [ih, map_modifyHead, hb]
        rfl

theorem segments_utf8 (text : List Char) : segments (utf8 text) = (segments text).map utf8 :=
  segmentsFrom_utf8 0 text

end FuncType
