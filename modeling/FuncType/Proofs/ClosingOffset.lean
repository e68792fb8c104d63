import FuncType.Proofs.ScanEvents

/-!
# The offset of the closing parenthesis

The scan for the end of a group looks at the bytes of a text and answers with the offset of one of them.
Said by counting, this is the first byte up to which there are as many closing as opening parentheses,
and there is no answer if there are more opening ones up to every byte, or if the text starts with
something else (`closingOffset?_finds_first_return`).

Both conditions look at the bytes up to the answer and at nothing behind it. So a text can be cut anywhere
behind the closing parenthesis and go on in another way, and the answer is the same.
-/

namespace FuncType

/-- Some bytes hold as many opening as closing parentheses up to the byte at an offset, this byte
included, and more opening ones up to any byte in front of it. -/
structure ClosesFirstAt (bytes : List UInt8) (offset : Nat) : Prop where
  lt_length : offset < bytes.length
  count_eq : (bytes.take (offset + 1)).count 0x28 = (bytes.take (offset + 1)).count 0x29
  count_lt : ∀ n, 0 < n → n ≤ offset → (bytes.take n).count 0x29 < (bytes.take n).count 0x28

namespace ClosesFirstAt

variable {bytes front : List UInt8} {offset : Nat}

theorem unique {offset' : Nat} (h : ClosesFirstAt bytes offset) (h' : ClosesFirstAt bytes offset') :
    offset = offset' := by
  rcases Nat.lt_trichotomy offset offset' with hlt | heq | hgt
  · have hcount := h'.count_lt (offset + 1) (Nat.succ_pos _) hlt
    exact absurd h.count_eq (Nat.ne_of_gt hcount)
  · exact heq
  · have hcount := h.count_lt (offset' + 1) (Nat.succ_pos _) hgt
    exact absurd h'.count_eq (Nat.ne_of_gt hcount)

/-- What stands behind the byte has no part in the condition. -/
theorem append_iff (hlt : offset < front.length) (rest : List UInt8) :
    ClosesFirstAt (front ++ rest) offset ↔ ClosesFirstAt front offset := by
  have htake : ∀ n, n ≤ offset + 1 → (front ++ rest).take n = front.take n := fun n hn =>
    List.take_append_of_le_length (Nat.le_trans hn hlt)
  constructor
  · rintro ⟨-, heq, hless⟩
    rw [htake _ (Nat.le_refl _)] at heq
    refine ⟨hlt, heq, fun n hpos hle => ?_⟩
    rw [← htake n (Nat.le_succ_of_le hle)]
    exact hless n hpos hle
  · rintro ⟨-, heq, hless⟩
    refine ⟨?_, ?_, fun n hpos hle => ?_⟩
    · rw [List.length_append]
      omega
    · rw [htake _ (Nat.le_refl _)]
      exact heq
    · rw [htake n (Nat.le_succ_of_le hle)]
      exact hless n hpos hle

end ClosesFirstAt

/-! ## What the scan answers -/

section Bytes

variable {bytes : List UInt8}

/-- The byte behind the body of a group is the closing parenthesis, and the first byte at which the counts
are equal. -/
theorem closesFirstAt_of_cut? {g : Group UInt8} (h : Group.cut? bytes = some g) :
    ClosesFirstAt bytes (g.body.length + 1) ∧ bytes[g.body.length + 1]? = some 0x29 := by
  obtain ⟨a, b, ha, hb, rfl, hbody⟩ := Group.exists_of_cut? h
  obtain ⟨hopen, hlevel⟩ := openToEnd_of_balanced ha hb hbody
  have hlist : a :: (g.body ++ b :: g.rest) = a :: (g.body ++ [b]) ++ g.rest := by simp
  have hlength : (a :: (g.body ++ [b])).length = g.body.length + 1 + 1 := by simp
  refine ⟨?_, ?_⟩
  · rw [hlist, ClosesFirstAt.append_iff (by omega)]
    refine ⟨by omega, ?_, fun n hpos hle => ?_⟩
    · rw [← hlength, List.take_length]
      rw [level_bytes] at hlevel
      omega
    · have hcount := hopen.level_take_pos hpos (by omega)
      rw [level_bytes] at hcount
      omega
  · have hclose : b = 0x29 := by
      simp only [role] at hb
      grind
    simp [hclose]

/-- Without an answer there are more opening than closing parentheses up to every byte. -/
theorem count_lt_of_cut?_eq_none (hhead : bytes.head? = some 0x28) (h : Group.cut? bytes = none) {n : Nat}
    (hpos : 0 < n) (hle : n ≤ bytes.length) : (bytes.take n).count 0x29 < (bytes.take n).count 0x28 := by
  obtain ⟨more, rfl⟩ := List.head?_eq_some_iff.mp hhead
  obtain ⟨hopen, hall⟩ := openToEnd_of_cut?_eq_none (a := 0x28) rfl h
  suffices hlevel : 0 < level ((0x28 :: more).take n) by
    rw [level_bytes] at hlevel
    omega
  rcases Nat.lt_or_eq_of_le hle with hlt | rfl
  · have hlevel := hopen.level_take_pos hpos hlt
    omega
  · rw [List.take_length]
    exact hall

end Bytes

/-- Where the group at the head of a text is closed, seen from its bytes. -/
theorem value_closingOffset?_eq_some_iff {text : String} {offset : Nat} :
    (closingOffset? text).value = some offset ↔
      ∃ g, Group.cut? (utf8 text.toList) = some g ∧ g.body.length + 1 = offset :=
  Option.map_eq_some_iff

theorem value_closingOffset?_eq_none_iff {text : String} :
    (closingOffset? text).value = none ↔ Group.cut? (utf8 text.toList) = none :=
  Option.map_eq_none_iff

/-- A scan that answers has started at an opening parenthesis. -/
theorem head?_of_closingOffset? {text : String} {offset : Nat}
    (h : (closingOffset? text).value = some offset) : text.toList.head? = some '(' := by
  cases hcut : Group.cut? text.toList with
  | none =>
    rw [closingOffset?, Group.cut?_utf8, hcut] at h
    cases h
  | some g =>
    rw [Group.text_of_cut? hcut]
    rfl

/-- The answer is the first offset at which the counts are equal, in a text that starts with an opening
parenthesis. -/
theorem value_closingOffset?_iff {text : String} {offset : Nat} :
    (closingOffset? text).value = some offset ↔
      text.toList.head? = some '(' ∧ ClosesFirstAt (utf8 text.toList) offset := by
  constructor
  · intro h
    obtain ⟨g, hcut, rfl⟩ := value_closingOffset?_eq_some_iff.mp h
    exact ⟨head?_of_closingOffset? h, (closesFirstAt_of_cut? hcut).1⟩
  · rintro ⟨hhead, hcloses⟩
    have hbytes : (utf8 text.toList).head? = some 0x28 := by
      obtain ⟨more, hmore⟩ := List.head?_eq_some_iff.mp hhead
      rw [hmore]
      rfl
    cases hcut : Group.cut? (utf8 text.toList) with
    | none =>
      have hcount := count_lt_of_cut?_eq_none hbytes hcut (Nat.succ_pos offset) hcloses.lt_length
      exact absurd hcloses.count_eq (Nat.ne_of_gt hcount)
    | some g =>
      have hsame := (closesFirstAt_of_cut? hcut).1.unique hcloses
      exact value_closingOffset?_eq_some_iff.mpr ⟨g, hcut, hsame⟩

/-- There is no answer for a text that starts with something else, and for one with more opening than
closing parentheses up to every byte. -/
theorem value_closingOffset?_eq_none_iff_count {text : String} :
    (closingOffset? text).value = none ↔
      text.toList.head? ≠ some '(' ∨
        ∀ n, 0 < n → n ≤ (utf8 text.toList).length →
          ((utf8 text.toList).take n).count 0x29 < ((utf8 text.toList).take n).count 0x28 := by
  constructor
  · intro h
    by_cases hhead : text.toList.head? = some '('
    · right
      intro n hpos hle
      obtain ⟨more, hmore⟩ := List.head?_eq_some_iff.mp hhead
      have hcut := value_closingOffset?_eq_none_iff.mp h
      rw [hmore] at hcut hle ⊢
      exact count_lt_of_cut?_eq_none rfl hcut hpos hle
    · exact Or.inl hhead
  · intro h
    cases hvalue : (closingOffset? text).value with
    | none => rfl
    | some offset =>
      obtain ⟨hhead, hcloses⟩ := value_closingOffset?_iff.mp hvalue
      rcases h with hother | hless
      · exact absurd hhead hother
      · have hcount := hless (offset + 1) (Nat.succ_pos offset) hcloses.lt_length
        exact absurd hcloses.count_eq (Nat.ne_of_gt hcount)

/-- An answer that lies inside a front part of the text is the answer for whatever starts with it. -/
theorem value_closingOffset?_append {front rest : String} {offset : Nat}
    (h : (closingOffset? (front ++ rest)).value = some offset)
    (hlt : offset < (utf8 front.toList).length) (rest' : String) :
    (closingOffset? (front ++ rest')).value = some offset := by
  obtain ⟨hhead, hcloses⟩ := value_closingOffset?_iff.mp h
  rw [String.toList_append] at hhead hcloses
  rw [utf8_append, ClosesFirstAt.append_iff hlt] at hcloses
  refine value_closingOffset?_iff.mpr ⟨?_, ?_⟩
  · have hpos : front.toList ≠ [] := by
      rintro hnil
      rw [hnil] at hlt
      exact absurd hlt (Nat.not_lt_zero offset)
    obtain ⟨c, more, hfront⟩ := List.exists_cons_of_ne_nil hpos
    rw [hfront] at hhead
    rw [String.toList_append, hfront]
    exact hhead
  · rw [String.toList_append, utf8_append, ClosesFirstAt.append_iff hlt]
    exact hcloses

/-- The scan of a text that starts with an opening parenthesis answers with the first offset up to which
there are as many closing as opening parentheses, and a closing one stands there. There is no answer
exactly if the text starts with something else or holds more opening than closing parentheses up to every
byte. A text that goes on in another way behind the answer has the same answer. -/
theorem closingOffset?_finds_first_return :
    (∀ (text : String) (offset : Nat),
      (closingOffset? text).value = some offset ↔
        text.toList.head? = some '(' ∧ ClosesFirstAt (utf8 text.toList) offset) ∧
    (∀ text : String,
      (closingOffset? text).value = none ↔
        text.toList.head? ≠ some '(' ∨
          ∀ n, 0 < n → n ≤ (utf8 text.toList).length →
            ((utf8 text.toList).take n).count 0x29 < ((utf8 text.toList).take n).count 0x28) ∧
    (∀ (text : String) (offset : Nat),
      (closingOffset? text).value = some offset → (utf8 text.toList)[offset]? = some 0x29) ∧
    ∀ (front rest rest' : String) (offset : Nat),
      (closingOffset? (front ++ rest)).value = some offset → offset < (utf8 front.toList).length →
        (closingOffset? (front ++ rest')).value = some offset := by
  refine ⟨fun text offset => value_closingOffset?_iff,
    fun text => value_closingOffset?_eq_none_iff_count, fun text offset h => ?_,
    fun front rest rest' offset h hlt => value_closingOffset?_append h hlt rest'⟩
  obtain ⟨g, hcut, rfl⟩ := value_closingOffset?_eq_some_iff.mp h
  exact (closesFirstAt_of_cut? hcut).2

/-- A letter of two bytes inside the list, and parentheses that match nothing behind it. -/
theorem closingOffset?_finds_first_return_at_two_bytes :
    (closingOffset? ("(ö(x))" ++ " y")).value = some 6 ∧ 6 < (utf8 "(ö(x))".toList).length ∧
      (utf8 ("(ö(x))" ++ " y").toList)[6]? = some 0x29 ∧
      (closingOffset? ("(ö(x))" ++ "))(")).value = some 6 := by
  have hvalue : (closingOffset? ("(ö(x))" ++ " y")).value = some 6 := rfl
  have hlt : 6 < (utf8 "(ö(x))".toList).length := by decide
  exact ⟨hvalue, hlt, closingOffset?_finds_first_return.2.2.1 _ _ hvalue,
    closingOffset?_finds_first_return.2.2.2 _ _ _ _ hvalue hlt⟩

end FuncType
