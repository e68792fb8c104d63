import FuncType.Group.Encoded
import FuncType.Proofs.FirstReturn

/-!
# What a scan notes

A scan notes one event for each byte that it reads: the offset of the byte, the byte, and the depth after
it. The depth is the number of opening parentheses less that of closing ones up to this byte, and it is
positive up to the last byte that is read (`ScanOf`). A group is read to its end whatever follows it
(`ListOf.scanEvents_append`), and a text that closes no group is read to its end, too
(`scanOf_of_unclosed`).

The segments of a list are then placed without a gap: the first starts behind the opening parenthesis,
each of the others behind the comma that ends the one before it, and the last ends at the closing
parenthesis (`Tiles`).
-/

namespace FuncType

/-- Events are the scan of all of some bytes. -/
structure ScanOf (bytes : List UInt8) (events : List Event) : Prop where
  length_eq : events.length = bytes.length
  event : ∀ (i : Nat) (byte : UInt8), bytes[i]? = some byte →
    ∃ depth : Nat, events[i]? = some (.scan i byte depth) ∧
      (depth : Int) = (bytes.take (i + 1)).count 0x28 - (bytes.take (i + 1)).count 0x29 ∧
      (i + 1 < bytes.length → 0 < depth)

/-- The first front part of some bytes, other than the empty one, with as many opening as closing
parentheses ends with the byte at an offset. -/
structure ReturnsAt (bytes : List UInt8) (offset : Nat) : Prop where
  lt_length : offset < bytes.length
  level_eq : level (bytes.take (offset + 1)) = 0
  level_ne : ∀ n, 0 < n → n ≤ offset → level (bytes.take n) ≠ 0

/-- Events place segments one behind the other from an offset `start` on, with a comma behind each but
the last, which ends at the offset `close`. -/
inductive Tiles (bytes : List UInt8) (close : Nat) : (start : Nat) → List (List Char) → List Event → Prop
    where
  /-- The last segment. -/
  | last {start : Nat} {segment : List Char} (hle : start ≤ close)
      (hsegment : utf8 segment = (bytes.take close).drop start) :
      Tiles bytes close start [segment] [.boundary start close (String.ofList segment)]
  /-- A segment with a comma behind it, and those behind the comma. -/
  | next {start stop : Nat} {segment : List Char} {more : List (List Char)} {events : List Event}
      (hle : start ≤ stop) (hsegment : utf8 segment = (bytes.take stop).drop start)
      (hcomma : bytes[stop]? = some 0x2C) (hmore : Tiles bytes close (stop + 1) more events) :
      Tiles bytes close start (segment :: more)
        (.boundary start stop (String.ofList segment) :: events)

/-! ## Symbols read -/

section Visits

variable {α : Type} [Alphabet α] {depth : Nat}

/-- A text read from a depth on that comes to depth zero nowhere before its end. -/
structure OpenToEnd (depth : Nat) (text : List α) : Prop where
  level_pos : ∀ front, front <+: text → front ≠ [] → front ≠ text → 0 < depth + level front
  level_nonneg : 0 ≤ depth + level text

theorem OpenToEnd.level_take_pos {text : List α} (h : OpenToEnd depth text) {n : Nat} (hpos : 0 < n)
    (hlt : n < text.length) : 0 < depth + level (text.take n) := by
  have hlength : (text.take n).length = n := List.length_take_of_le (by omega)
  refine h.level_pos _ (List.take_prefix n text) ?_ ?_
  · exact List.ne_nil_of_length_pos (by omega)
  · intro hall
    rw [hall] at hlength
    omega

theorem OpenToEnd.of_cons {a : α} {text : List α} (h : OpenToEnd depth (a :: text)) :
    (role a = .closes → depth ≠ 0) ∧ (text ≠ [] → (role a).depthAfter depth ≠ 0) ∧
      OpenToEnd ((role a).depthAfter depth) text := by
  have hfirst : text ≠ [] → 0 < depth + level [a] := by
    intro hne
    exact h.level_pos [a] ⟨text, rfl⟩ (List.cons_ne_nil a []) (by simpa using hne.symm)
  have hclose : role a = .closes → depth ≠ 0 := by
    rintro ha rfl
    have hone : level [a] = -1 := by simp [level, ha]
    cases text with
    | nil =>
      have hnonneg := h.level_nonneg
      omega
    | cons b text =>
      have hpos := hfirst (List.cons_ne_nil b text)
      omega
  refine ⟨hclose, fun hne => ?_, fun front hfront hne hall => ?_, ?_⟩
  · have hpos := hfirst hne
    rw [add_level_cons hclose, level_nil] at hpos
    omega
  · rw [← add_level_cons hclose]
    exact h.level_pos (a :: front) ((List.prefix_cons_inj a).mpr hfront) (List.cons_ne_nil a front)
      (by simpa using hall)
  · rw [← add_level_cons hclose]
    exact h.level_nonneg

theorem OpenToEnd.visitsFrom_cons {a : α} {text : List α} (h : OpenToEnd depth (a :: text)) :
    visitsFrom depth (a :: text) =
      (a, (role a).depthAfter depth) :: visitsFrom ((role a).depthAfter depth) text := by
  rw [visitsFrom]
  cases text with
  | nil => simp [visitsFrom]
  | cons b text => rw [if_neg (h.of_cons.2.1 (List.cons_ne_nil b text))]

/-- Such a text is read to its end, each symbol with the level of the text up to it. -/
theorem OpenToEnd.visitsFrom_eq {text : List α} (h : OpenToEnd depth text) :
    (visitsFrom depth text).length = text.length ∧
      ∀ (i : Nat) (a : α), text[i]? = some a →
        ∃ d : Nat, (visitsFrom depth text)[i]? = some (a, d) ∧
          (d : Int) = depth + level (text.take (i + 1)) := by
  induction text generalizing depth with
  | nil => exact ⟨rfl, fun i a hi => by simp at hi⟩
  | cons b text ih =>
    obtain ⟨hclose, -, hrest⟩ := h.of_cons
    obtain ⟨hlength, hvisit⟩ := ih hrest
    rw [h.visitsFrom_cons]
    refine ⟨by rw [List.length_cons, List.length_cons, hlength], fun i a hi => ?_⟩
    cases i with
    | zero =>
      obtain rfl : b = a := by simpa using hi
      refine ⟨_, rfl, ?_⟩
      rw [List.take_succ_cons, List.take_zero, add_level_cons hclose, level_nil, Int.add_zero]
    | succ i =>
      obtain ⟨d, hd, hlevel⟩ := hvisit i a (by simpa using hi)
      refine ⟨d, by simpa using hd, ?_⟩
      rw [List.take_succ_cons, add_level_cons hclose]
      exact hlevel

/-- What stands behind the place where the depth is zero is not read. -/
theorem OpenToEnd.visitsFrom_append {front : List α} (h : OpenToEnd depth front) (hne : front ≠ [])
    (hlevel : depth + level front = 0) (rest : List α) :
    visitsFrom depth (front ++ rest) = visitsFrom depth front := by
  induction front generalizing depth with
  | nil => exact absurd rfl hne
  | cons a front ih =>
    obtain ⟨hclose, hnext, hrest⟩ := h.of_cons
    rw [add_level_cons hclose] at hlevel
    rw [List.cons_append, visitsFrom, visitsFrom]
    cases front with
    | nil =>
      -- the depth is zero behind `a`, and here alone the scan stops
      have hzero : (role a).depthAfter depth = 0 := by rw [level_nil] at hlevel; omega
      rw [hzero, if_pos rfl, if_pos rfl]
    | cons b front =>
      have hcons : b :: front ≠ [] := List.cons_ne_nil b front
      rw [if_neg (hnext hcons), if_neg (hnext hcons), ih hrest hcons hlevel]

theorem openToEnd_of_cut?_eq_none {a : α} {text : List α} (ha : role a = .opens)
    (h : Group.cut? (a :: text) = none) : OpenToEnd 0 (a :: text) ∧ 0 < level (a :: text) := by
  rw [Group.cut?, if_pos ha, Group.closeFrom_eq_none_iff] at h
  have hpos : ∀ front, front <+: text → 0 < level (a :: front) := by
    intro front hfront
    have hnonneg := h front hfront
    rw [level_cons_of_opens ha]
    omega
  have hall := hpos text List.prefix_rfl
  refine ⟨⟨fun front hfront hne _ => ?_, by omega⟩, hall⟩
  rcases List.prefix_cons_iff.mp hfront with hnil | ⟨front', rfl, hfront'⟩
  · exact absurd hnil hne
  · have hfront := hpos front' hfront'
    omega

theorem openToEnd_of_balanced {a b : α} {body : List α} (ha : role a = .opens) (hb : role b = .closes)
    (hbody : Balanced body) :
    OpenToEnd 0 (a :: (body ++ [b])) ∧ level (a :: (body ++ [b])) = 0 := by
  obtain ⟨hlevel, hpos⟩ := hbody.level_enclosed ha hb
  refine ⟨⟨fun front hfront hne hall => ?_, by omega⟩, hlevel⟩
  have hfront := hpos front hfront hne hall
  omega

end Visits

/-! ## Bytes read -/

theorem level_bytes (bytes : List UInt8) : level bytes = bytes.count 0x28 - bytes.count 0x29 := by
  have hopens : (fun b : UInt8 => decide (role b = .opens)) = (· == 0x28) := by
    funext b
    simp only [role]
    grind
  have hcloses : (fun b : UInt8 => decide (role b = .closes)) = (· == 0x29) := by
    funext b
    simp only [role]
    grind
  rw [level, hopens, hcloses]
  rfl

theorem Balanced.utf8 {text : List Char} (h : Balanced text) : Balanced (FuncType.utf8 text) := by
  have hchars : Group.closeFrom 0 (text ++ [')']) = some ⟨text, []⟩ :=
    Group.closeFrom_eq_some_iff.mpr ⟨')', rfl, rfl, h⟩
  have hbytes := Group.closeFrom_utf8 0 (text ++ [')'])
  rw [hchars] at hbytes
  obtain ⟨-, -, -, hbody⟩ := Group.closeFrom_eq_some_iff.mp hbytes
  exact hbody

theorem visits_utf8_cons (more : List Char) :
    visits (utf8 ('(' :: more)) = visitsFrom 0 (utf8 ('(' :: more)) :=
  rfl

theorem scanOf_of_openToEnd {more : List Char} (h : OpenToEnd 0 (utf8 ('(' :: more))) :
    ScanOf (utf8 ('(' :: more)) (scanEvents ('(' :: more)) := by
  obtain ⟨hlength, hvisit⟩ := h.visitsFrom_eq
  rw [← visits_utf8_cons] at hlength hvisit
  refine ⟨by rw [scanEvents, List.length_map, List.length_zipIdx, hlength], ?_⟩
  intro i byte hi
  obtain ⟨depth, hdepth, hlevel⟩ := hvisit i byte hi
  refine ⟨depth, ?_, ?_, ?_⟩
  · rw [scanEvents, List.getElem?_map, List.getElem?_zipIdx, hdepth]
    simp
  · rw [← level_bytes]
    omega
  · intro hlt
    have hpos := h.level_take_pos (n := i + 1) (by omega) hlt
    omega

/-- Without an end of the group, the scan reads the whole text, and the depth returns nowhere. -/
theorem scanOf_of_unclosed {more : List Char} (h : Group.cut? ('(' :: more) = none) :
    ScanOf (utf8 ('(' :: more)) (scanEvents ('(' :: more)) ∧
      ∀ offset, ¬ ReturnsAt (utf8 ('(' :: more)) offset := by
  have hbytes : Group.cut? (utf8 ('(' :: more)) = none := by rw [Group.cut?_utf8, h]; rfl
  obtain ⟨hopen, hall⟩ : OpenToEnd 0 (utf8 ('(' :: more)) ∧ 0 < level (utf8 ('(' :: more)) :=
    openToEnd_of_cut?_eq_none (a := 0x28) rfl hbytes
  refine ⟨scanOf_of_openToEnd hopen, fun offset hreturns => ?_⟩
  have hlevel : level ((utf8 ('(' :: more)).take (offset + 1)) = 0 := hreturns.level_eq
  rcases Nat.lt_or_ge (offset + 1) (utf8 ('(' :: more)).length with hlt | hge
  · have hpos := hopen.level_take_pos (n := offset + 1) (by omega) hlt
    omega
  · rw [List.take_of_length_le hge] at hlevel
    omega

namespace ListOf

variable {segs : List (List Char)} {list : List Char}

theorem utf8_eq (h : ListOf segs list) :
    utf8 list = 0x28 :: (utf8 ([','].intercalate segs) ++ [0x29]) := by
  rw [h.text_eq, List.cons_append, utf8_cons, utf8_append]
  rfl

theorem openToEnd (h : ListOf segs list) : OpenToEnd 0 (utf8 list) ∧ level (utf8 list) = 0 := by
  obtain ⟨-, hbody⟩ := Group.cut?_eq_some_iff.mp (h.cut?_append [])
  rw [h.utf8_eq]
  exact openToEnd_of_balanced rfl rfl hbody.utf8

theorem scanOf (h : ListOf segs list) : ScanOf (utf8 list) (scanEvents list) := by
  have hopen := h.openToEnd.1
  obtain ⟨more, rfl⟩ : ∃ more, list = '(' :: more := ⟨_, h.text_eq⟩
  exact scanOf_of_openToEnd hopen

/-- A list is scanned in the same way whatever follows it. -/
theorem scanEvents_append (h : ListOf segs list) (rest : List Char) :
    scanEvents (list ++ rest) = scanEvents list := by
  obtain ⟨hopen, hlevel⟩ := h.openToEnd
  obtain ⟨more, rfl⟩ : ∃ more, list = '(' :: more := ⟨_, h.text_eq⟩
  have hvisits := hopen.visitsFrom_append (by rw [h.utf8_eq]; simp) (by omega) (utf8 rest)
  rw [scanEvents, scanEvents, List.cons_append, visits_utf8_cons, visits_utf8_cons, ← List.cons_append,
    utf8_append, hvisits]

/-- The depth first returns to zero at the closing parenthesis of a list. -/
theorem returnsAt (h : ListOf segs list) (rest : List Char) :
    ∃ close, close + 1 = (utf8 list).length ∧ ReturnsAt (utf8 (list ++ rest)) close := by
  obtain ⟨hopen, hlevel⟩ := h.openToEnd
  have hlength : (utf8 ([','].intercalate segs)).length + 1 + 1 = (utf8 list).length := by
    simp [h.utf8_eq]
  refine ⟨_, hlength, ?_, ?_, fun n hpos hle => ?_⟩
  · rw [utf8_append, List.length_append]
    omega
  · rw [hlength, utf8_append, List.take_left]
    exact hlevel
  · rw [utf8_append, List.take_append_of_le_length (by omega)]
    have htake := hopen.level_take_pos hpos (by omega)
    omega

end ListOf

/-! ## Segments placed -/

theorem take_drop_middle {α : Type} (front middle back : List α) :
    ((front ++ middle ++ back).take (front.length + middle.length)).drop front.length = middle := by
  rw [List.take_left' (by simp), List.drop_left]

theorem tiles_boundaryEvents (front : List UInt8) {bytes back : List UInt8} {segs : List (List Char)}
    {start close : Nat} (hne : segs ≠ []) (hbytes : bytes = front ++ utf8 ([','].intercalate segs) ++ back)
    (hstart : start = front.length) (hclose : close = start + (utf8 ([','].intercalate segs)).length) :
    Tiles bytes close start segs (boundaryEvents start segs) := by
  induction segs generalizing front start with
  | nil => exact absurd rfl hne
  | cons segment more ih =>
    cases more with
    | nil =>
      rw [List.intercalate_singleton] at hbytes hclose
      rw [boundaryEvents, boundaryEvents, ← hclose]
      refine .last (by omega) ?_
      rw [hbytes, hclose, hstart, take_drop_middle]
    | cons next rest =>
      have hbody : utf8 ([','].intercalate (segment :: next :: rest)) =
          utf8 segment ++ 0x2C :: utf8 ([','].intercalate (next :: rest)) := by
        rw [List.intercalate_cons_cons, utf8_append, utf8_append, List.append_assoc]
        rfl
      rw [hbody] at hbytes hclose
      rw [boundaryEvents]
      -- the segment and its comma join the bytes in front of the segments that are left
      refine .next (by omega) ?_ ?_ (ih (front ++ utf8 segment ++ [0x2C]) (by simp) ?_ ?_ ?_)
      · rw [hbytes, hstart, ← List.append_assoc, List.append_assoc (front ++ utf8 segment),
          take_drop_middle]
      · rw [hbytes, hstart]
        simp
      · rw [hbytes]
        simp
      · simp [hstart, Nat.add_assoc]
      · rw [hclose, List.length_append, List.length_cons]
        omega

/-- The segments of a list are placed from the byte behind its opening parenthesis to its closing one. -/
theorem ListOf.tiles {segs : List (List Char)} {list : List Char} {close : Nat} (h : ListOf segs list)
    (hclose : close + 1 = (FuncType.utf8 list).length) :
    Tiles (FuncType.utf8 list) close 1 segs (boundaryEvents 1 segs) := by
  rw [h.utf8_eq] at hclose ⊢
  refine tiles_boundaryEvents [0x28] h.ne_nil rfl rfl ?_
  rw [List.length_cons, List.length_append, List.length_singleton] at hclose
  omega

end FuncType
