import FuncType.Group.Encoded
import FuncType.Scan
import FuncType.Proofs.Splitting

/-!
# Scans that check every step

The scans of this library cannot go wrong: a depth is lowered no further than zero, and texts are cut
between characters. A scan over bytes can. It lowers a depth that may be zero already, it takes pieces
of the text between two byte offsets that may be in the wrong order, lie behind the end or fall inside
a character. Here both scans are written in this way, over the bytes and with offsets. Each step that
may not be defined is checked, and the scan ends with a `Trap` if it is not.

No check ever fails, and the checked scans find what the scans of the library find: the same closing
parenthesis (`Checked.closeOffset_eq`) and the same segments (`Checked.split_eq`), for every text.
-/

namespace FuncType

/-- A step of a scan that is not defined. -/
inductive Trap where
  /-- One is taken from zero. -/
  | belowZero
  /-- A depth grows above the number of bytes of the text. -/
  | aboveLength
  /-- A piece of a text is taken that ends before it starts or behind its last possible place. -/
  | outOfRange
  /-- A piece of a text is taken that starts or ends inside a character. -/
  | insideCharacter
deriving DecidableEq, Repr

namespace Checked

/-! ## Steps -/

/-- One less than a number. -/
def lower : Nat → Except Trap Nat
  | 0 => .error .belowZero
  | n + 1 => .ok n

/-- One more than a number that is below a limit. -/
def raise (limit n : Nat) : Except Trap Nat :=
  if n < limit then .ok (n + 1) else .error .aboveLength

/-- The nesting depth after a symbol, at most `limit`. -/
def depthAfter (limit depth : Nat) : Role → Except Trap Nat
  | .opens => raise limit depth
  | .closes => lower depth
  | .separates => .ok depth
  | .plain => .ok depth

/-- The two parts of a text in front of a byte offset and behind it. -/
def cutAt : (offset : Nat) → List Char → Except Trap (List Char × List Char)
  | 0, text => .ok ([], text)
  | _ + 1, [] => .error .outOfRange
  | offset + 1, c :: text =>
    if offset + 1 < c.utf8Size then .error .insideCharacter
    else (cutAt (offset + 1 - c.utf8Size) text).map fun parts => (c :: parts.1, parts.2)

/-- What stands in a text behind a byte offset. -/
def sliceFrom (text : List Char) (start : Nat) : Except Trap (List Char) :=
  (cutAt start text).map Prod.snd

/-- What stands in a text between two byte offsets. -/
def slice (text : List Char) (start stop : Nat) : Except Trap (List Char) := do
  sliceFrom (← cutAt stop text).1 start

/-- The segment between two byte offsets of a list that is closed at the offset `close`. -/
def segment (text : List Char) (close start stop : Nat) : Except Trap (List Char) :=
  if stop ≤ close ∧ close < (utf8 text).length then slice text start stop else .error .outOfRange

/-! ## Scans -/

/-- The offset of the first of some bytes behind which the depth is zero. -/
def closeOffsetFrom (limit : Nat) : (offset depth : Nat) → List UInt8 → Except Trap (Option Nat)
  | _, _, [] => .ok none
  | offset, depth, b :: bytes => do
    let after ← depthAfter limit depth (role b)
    if after = 0 then return some offset else closeOffsetFrom limit (offset + 1) after bytes

/-- The byte offset of the parenthesis that closes the group at the head of a text. -/
def closeOffset (text : List Char) : Except Trap (Option Nat) :=
  if text.head? = some '(' then closeOffsetFrom (utf8 text).length 0 0 (utf8 text) else .ok none

/-- The segments of a list that is closed at the offset `close`, from the one that starts at the
offset `start` on; the bytes from `offset` to the end of the list are still to be read. -/
def segmentsFrom (text : List Char) (close : Nat) :
    (start offset depth : Nat) → List UInt8 → Except Trap (List (List Char))
  | _, _, _, [] => .ok []
  | start, offset, depth, b :: bytes => do
    let after ← depthAfter (utf8 text).length depth (role b)
    if depth = 1 ∧ (role b = .separates ∨ role b = .closes) then
      let first ← segment text close start offset
      let more ← segmentsFrom text close (offset + 1) (offset + 1) after bytes
      return first :: more
    else segmentsFrom text close start (offset + 1) after bytes

/-- The segments of the group at the head of a text, and the offset of its closing parenthesis. -/
def split (text : List Char) : Except Trap (Option (List (List Char) × Nat)) := do
  match ← closeOffset text with
  | none => return none
  | some close =>
    let segs ← segmentsFrom text close 1 0 0 ((utf8 text).take (close + 1))
    return some (segs, close)

/-! ## Steps that are defined -/

theorem ok_bind {α β : Type} (a : α) (f : α → Except Trap β) : (Except.ok a >>= f) = f a :=
  rfl

theorem depthAfter_le (r : Role) (depth : Nat) : r.depthAfter depth ≤ depth + 1 := by
  cases r <;> simp only [Role.depthAfter] <;> omega

theorem depthAfter_succ {limit depth : Nat} {r : Role} (hcloses : r = .closes → depth ≠ 0)
    (hlimit : depth + 1 < limit) : depthAfter limit (depth + 1) r = .ok (r.depthAfter depth + 1) := by
  cases r with
  | opens => exact if_pos hlimit
  | closes =>
    obtain ⟨n, rfl⟩ := Nat.exists_eq_succ_of_ne_zero (hcloses rfl)
    rfl
  | separates => rfl
  | plain => rfl

theorem depthAfter_zero {limit : Nat} (hlimit : 0 < limit) : depthAfter limit 0 .opens = .ok 1 :=
  if_pos hlimit

theorem length_utf8_cons (c : Char) (text : List Char) :
    (utf8 (c :: text)).length = c.utf8Size + (utf8 text).length := by
  rw [utf8_cons, List.length_append, String.length_utf8EncodeChar]

theorem cutAt_append (front back : List Char) :
    cutAt (utf8 front).length (front ++ back) = .ok (front, back) := by
  induction front with
  | nil => cases back <;> rfl
  | cons c front ih =>
    obtain ⟨n, hn⟩ := Nat.exists_eq_succ_of_ne_zero (Nat.ne_of_gt (Char.utf8Size_pos c))
    have hlength : (utf8 (c :: front)).length = (n + (utf8 front).length) + 1 := by
      rw [length_utf8_cons, hn]
      omega
    have hrest : n + (utf8 front).length + 1 - c.utf8Size = (utf8 front).length := by omega
    rw [hlength, List.cons_append, cutAt, if_neg (by omega), hrest, ih]
    rfl

/-- A text can be cut at the byte offsets at which one of its characters starts or the text ends, and
at no others. -/
theorem cutAt_eq_ok_iff {offset : Nat} {text front back : List Char} :
    cutAt offset text = .ok (front, back) ↔ text = front ++ back ∧ (utf8 front).length = offset := by
  constructor
  · intro h
    induction text generalizing offset front with
    | nil =>
      cases offset with
      | zero =>
        obtain ⟨rfl, rfl⟩ := Prod.mk.inj (Except.ok.inj h)
        exact ⟨rfl, rfl⟩
      | succ offset => cases h
    | cons c text ih =>
      cases offset with
      | zero =>
        obtain ⟨rfl, rfl⟩ := Prod.mk.inj (Except.ok.inj h)
        exact ⟨rfl, rfl⟩
      | succ offset =>
        rw [cutAt] at h
        split at h
        case isTrue => cases h
        case isFalse hle =>
          cases hparts : cutAt (offset + 1 - c.utf8Size) text with
          | error trap => rw [hparts] at h; cases h
          | ok parts =>
            rw [hparts] at h
            obtain ⟨rfl, rfl⟩ := Prod.mk.inj (Except.ok.inj h)
            obtain ⟨htext, hlength⟩ := ih hparts
            refine ⟨by rw [htext]; rfl, ?_⟩
            rw [length_utf8_cons, hlength]
            omega
  · rintro ⟨rfl, rfl⟩
    exact cutAt_append front back

example : cutAt 2 ['(', 'é', ')'] = .error .insideCharacter := rfl

theorem sliceFrom_append (front back : List Char) :
    sliceFrom (front ++ back) (utf8 front).length = .ok back := by
  rw [sliceFrom, cutAt_append]
  rfl

theorem slice_append (front piece back : List Char) :
    slice (front ++ piece ++ back) (utf8 front).length (utf8 (front ++ piece)).length = .ok piece := by
  rw [slice, cutAt_append]
  exact sliceFrom_append front piece

/-! ## The scan for the end -/

/-- Inside a group, the checked scan finds the symbol that closes the group. -/
theorem closeOffsetFrom_eq {limit offset depth : Nat} {bytes : List UInt8} (hdepth : depth < offset)
    (hlimit : offset + bytes.length = limit) :
    closeOffsetFrom limit offset (depth + 1) bytes =
      .ok ((Group.closeFrom depth bytes).map fun g => offset + g.body.length) := by
  induction bytes generalizing offset depth with
  | nil => rfl
  | cons b bytes ih =>
    rw [List.length_cons] at hlimit
    rw [closeOffsetFrom, Group.closeFrom]
    by_cases hend : role b = .closes ∧ depth = 0
    · obtain ⟨hrole, rfl⟩ := hend
      rw [if_pos ⟨hrole, rfl⟩, hrole]
      rfl
    · have hcloses : role b = .closes → depth ≠ 0 := fun hrole hzero => hend ⟨hrole, hzero⟩
      have hafter : (role b).depthAfter depth < offset + 1 :=
        Nat.lt_of_le_of_lt (depthAfter_le _ depth) (Nat.succ_lt_succ hdepth)
      have hrest : closeOffsetFrom limit (offset + 1) ((role b).depthAfter depth + 1) bytes = _ :=
        ih hafter (by omega)
      rw [if_neg hend, depthAfter_succ hcloses (by omega), ok_bind, if_neg (Nat.succ_ne_zero _), hrest,
        Option.map_map]
      congr 2
      funext g
      show offset + 1 + g.body.length = offset + (g.body.length + 1)
      omega

theorem cut?_of_head_ne {text : List Char} (h : text.head? ≠ some '(') : Group.cut? text = none := by
  cases text with
  | nil => rfl
  | cons c more =>
    have hopens : role c ≠ .opens := by simpa [role_char_eq_opens_iff] using h
    rw [Group.cut?, if_neg hopens]

/-- The checked scan for the end of a group finds what the scan finds. -/
theorem closeOffset_eq (text : List Char) :
    closeOffset text = .ok ((Group.cut? text).map Group.closeOffset) := by
  unfold closeOffset
  split
  case isTrue hhead =>
    obtain ⟨more, rfl⟩ := List.head?_eq_some_iff.mp hhead
    have hbytes : utf8 ('(' :: more) = 0x28 :: utf8 more := rfl
    have hrole : role (0x28 : UInt8) = .opens := rfl
    have hcut : Group.cut? ('(' :: more) = Group.closeFrom 0 more := rfl
    rw [hcut, hbytes, closeOffsetFrom, hrole, depthAfter_zero (by simp), ok_bind, if_neg Nat.one_ne_zero,
      closeOffsetFrom_eq Nat.zero_lt_one (by rw [List.length_cons, Nat.add_comm]), Group.closeFrom_utf8,
      Option.map_map]
    congr 2
    funext g
    exact Nat.add_comm 1 _
  case isFalse hhead =>
    rw [cut?_of_head_ne hhead]
    rfl

/-! ## The scan for the segments -/

/-- Where the checked scan for the segments stands: the segment that it reads starts at the offset
`start`, it has read the text `piece` of this segment, and the text `todo` is left of the list. -/
structure At (text : List Char) (close start offset : Nat) (piece todo : List Char) : Prop where
  exists_text : ∃ front rest, text = front ++ piece ++ (todo ++ ')' :: rest) ∧ start = (utf8 front).length
  offset_eq : offset = start + (utf8 piece).length
  close_eq : close = offset + (utf8 todo).length

namespace At

variable {text piece todo : List Char} {close start offset : Nat}

theorem lt_length (h : At text close start offset piece todo) : close < (utf8 text).length := by
  obtain ⟨front, rest, rfl, rfl⟩ := h.exists_text
  have hoffset := h.offset_eq
  have hclose := h.close_eq
  have hlast : 0 < (utf8 (')' :: rest)).length := by
    rw [length_utf8_cons]
    exact Nat.add_pos_left (Char.utf8Size_pos ')') _
  simp only [utf8_append, List.length_append] at hlast ⊢
  omega

/-- The segment that has been read is the piece between its two offsets. -/
theorem segment_eq (h : At text close start offset piece todo) :
    segment text close start offset = .ok piece := by
  have hlt := h.lt_length
  obtain ⟨front, rest, rfl, rfl⟩ := h.exists_text
  have hoffset : offset = (utf8 (front ++ piece)).length := by
    rw [h.offset_eq, utf8_append, List.length_append]
  rw [segment, if_pos ⟨by rw [h.close_eq]; omega, hlt⟩, hoffset]
  exact slice_append front piece _

/-- One more character of the segment is read. -/
theorem cons {c : Char} (h : At text close start offset piece (c :: todo)) :
    At text close start (offset + c.utf8Size) (piece ++ [c]) todo := by
  obtain ⟨front, rest, htext, hstart⟩ := h.exists_text
  refine ⟨⟨front, rest, by simp [htext], hstart⟩, ?_, ?_⟩
  · rw [h.offset_eq, utf8_append, List.length_append, length_utf8_cons]
    simp [Nat.add_assoc]
  · rw [h.close_eq, length_utf8_cons, Nat.add_assoc]

/-- The next segment starts behind the sign that ends this one. -/
theorem next {c : Char} (h : At text close start offset piece (c :: todo)) :
    At text close (offset + c.utf8Size) (offset + c.utf8Size) [] todo := by
  obtain ⟨front, rest, htext, hstart⟩ := h.cons.exists_text
  refine ⟨⟨front ++ (piece ++ [c]), rest, by simp [htext], ?_⟩, by simp, h.cons.close_eq⟩
  rw [h.cons.offset_eq, hstart, utf8_append front, List.length_append]

end At

/-- Bytes that are plain are passed over. -/
theorem segmentsFrom_append {front : List UInt8} (h : ∀ b ∈ front, role b = .plain) (text : List Char)
    (close start offset depth : Nat) (bytes : List UInt8) :
    segmentsFrom text close start offset depth (front ++ bytes) =
      segmentsFrom text close start (offset + front.length) depth bytes := by
  induction front generalizing offset with
  | nil => rfl
  | cons b front ih =>
    obtain ⟨hb, hfront⟩ := List.forall_mem_cons.mp h
    rw [List.cons_append, segmentsFrom, hb, depthAfter, ok_bind, if_neg (by simp), ih hfront,
      List.length_cons, Nat.add_assoc, Nat.add_comm 1]

/-- From any place of a list on, the checked scan finds the segments that the splitting finds; what has
been read of the first of them is put in front. -/
theorem segmentsFrom_eq {text piece todo : List Char} {close start offset depth : Nat}
    (h : At text close start offset piece todo) (hdepth : depth < offset)
    (htodo : BalancedFrom depth todo) :
    segmentsFrom text close start offset (depth + 1) (utf8 (todo ++ [')'])) =
      .ok ((FuncType.segmentsFrom depth todo).modifyHead (piece ++ ·)) := by
  induction todo generalizing piece start offset depth with
  | nil =>
    obtain rfl := balancedFrom_nil.mp htodo
    have hbytes : utf8 ([] ++ [')']) = [0x29] := rfl
    have hrole : role (0x29 : UInt8) = .closes := rfl
    have hafter : depthAfter (utf8 text).length (0 + 1) .closes = .ok 0 := rfl
    rw [hbytes, segmentsFrom, hrole, hafter, ok_bind, if_pos ⟨rfl, Or.inr rfl⟩, h.segment_eq, ok_bind,
      segmentsFrom, ok_bind]
    show Except.ok [piece] = .ok [piece ++ []]
    rw [List.append_nil]
  | cons c todo ih =>
    obtain ⟨hcloses, hrest⟩ := balancedFrom_cons.mp htodo
    have hlimit : depth + 1 < (utf8 text).length := by
      have hclose := h.close_eq
      have hlt := h.lt_length
      omega
    have hafter : (role c).depthAfter depth < offset + c.utf8Size := by
      have hsize := Char.utf8Size_pos c
      have hle := depthAfter_le (role c) depth
      omega
    have hread := ih h.cons hafter hrest
    rw [List.cons_append, utf8_cons, FuncType.segmentsFrom]
    by_cases hplain : role c = .plain
    · have hbytes : ∀ b ∈ String.utf8EncodeChar c, role b = .plain := fun _ hb =>
        role_of_mem_utf8EncodeChar hplain hb
      have hsame : (Role.plain).depthAfter depth = depth := rfl
      rw [hplain, hsame] at hread
      rw [segmentsFrom_append hbytes, String.length_utf8EncodeChar, hplain, hsame, if_neg (by simp),
        List.modifyHead_modifyHead, hread]
      simp [Function.comp_def]
    · obtain ⟨b, hb, hrole⟩ := utf8EncodeChar_of_not_plain hplain
      have hsize : c.utf8Size = 1 := by rw [← String.length_utf8EncodeChar, hb]; rfl
      rw [hb, List.singleton_append, segmentsFrom, hrole, depthAfter_succ hcloses hlimit, ok_bind]
      by_cases hcut : role c = .separates ∧ depth = 0
      · obtain ⟨hcomma, rfl⟩ := hcut
        have hnext := ih h.next hafter hrest
        rw [hcomma, hsize] at hnext
        rw [hcomma, if_pos ⟨rfl, Or.inl rfl⟩, if_pos ⟨rfl, rfl⟩, h.segment_eq, ok_bind, hnext, ok_bind]
        cases hmore : FuncType.segmentsFrom 0 todo <;> simp [Role.depthAfter, hmore] <;> rfl
      · rw [hsize] at hread
        rw [if_neg ((not_congr (Role.ends_iff hcloses)).mpr hcut), if_neg hcut, hread, List.modifyHead_modifyHead]
        simp [Function.comp_def]

/-- The checked scans of a group find its segments and its end. -/
theorem split_eq (text : List Char) :
    split text = .ok ((Group.cut? text).map fun g => (g.segments, g.closeOffset)) := by
  rw [split, closeOffset_eq, ok_bind]
  cases hcut : Group.cut? text with
  | none => rfl
  | some g =>
    obtain ⟨htext, hbody⟩ := Group.cut?_eq_some_iff.mp hcut
    have hstart : At text g.closeOffset 1 1 [] g.body := by
      refine ⟨⟨['('], g.rest, by simp [htext, Group.text], rfl⟩, rfl, ?_⟩
      rw [Group.closeOffset, Nat.add_comm]
    have hbytes : (utf8 text).take (g.closeOffset + 1) = 0x28 :: utf8 (g.body ++ [')']) := by
      have hlist : utf8 g.text = 0x28 :: utf8 (g.body ++ [')']) := rfl
      have hlength : g.closeOffset + 1 = (utf8 g.text).length := by
        rw [hlist, List.length_cons, utf8_append, List.length_append]
        rfl
      rw [htext, utf8_append, hlength, List.take_left, hlist]
    have hrole : role (0x28 : UInt8) = .opens := rfl
    have hlimit : 0 < (utf8 text).length := Nat.lt_of_le_of_lt (Nat.zero_le _) hstart.lt_length
    have hread := segmentsFrom_eq hstart Nat.zero_lt_one hbody
    have hwhole : (FuncType.segmentsFrom 0 g.body).modifyHead ([] ++ ·) = g.segments :=
      congrFun List.modifyHead_id g.segments
    rw [Option.map_some, Option.map_some]
    dsimp only
    rw [hbytes, segmentsFrom, hrole, depthAfter_zero hlimit, ok_bind, if_neg (by simp), hread, ok_bind,
      hwhole]
    rfl

end Checked

end FuncType
