import FuncType.Event
import FuncType.Space

/-!
# Quoted texts in the lines of events

In a quoted text a character stands as it is, or as a sign of its own behind a backslash, or as its number
(`Shown`). None of the three looks like another one, so that one sees where each character ends
(`Shown.append_inj`), where a quotation ends (`quoted_append_inj`), and where a list of quotations ends
(`quotedList_append_inj`), whatever follows. Hence a line tells all that it reports: the text that was
refused and the reason (`Event.message_rejected_inj`), the names that were left out and their list
(`Event.message_dropped_inj`), and the value that means nothing (`Event.message_unrecognized_inj`). No text
can end the line that quotes it, since nothing unprintable is left in a quotation
(`isUnprintable_of_mem_quoted`), and no white space but spaces (`eq_space_of_mem_quoted`).
-/

namespace FuncType

/-- Characters that have a sign of their own behind a backslash, with this sign. -/
def ownSigns : List (Char × Char) :=
  [('"', '"'), ('\\', '\\'), ('\t', 't'), ('\r', 'r'), ('\n', 'n'), ('\x00', '0')]

/-- How a character stands in a quoted text. -/
inductive Shown : Char → List Char → Prop where
  /-- A printable character stands as it is. -/
  | itself {c : Char} (hown : ∀ sign, (c, sign) ∉ ownSigns) (hprintable : isUnprintable c = false) :
      Shown c [c]
  /-- A character with a sign of its own. -/
  | sign {c sign : Char} (hown : (c, sign) ∈ ownSigns) : Shown c ['\\', sign]
  /-- Any other unprintable character stands as its number, in hexadecimal digits. -/
  | number {c : Char} (hown : ∀ sign, (c, sign) ∉ ownSigns) (hunprintable : isUnprintable c = true) :
      Shown c ('\\' :: 'u' :: '\x7b' :: (Nat.toDigits 16 c.toNat ++ ['\x7d']))

/-! ## Numbers -/

theorem exists_digit_of_mem_toDigits {n : Nat} {c : Char} (h : c ∈ Nat.toDigits 16 n) :
    ∃ d < 16, c = Nat.digitChar d := by
  induction n using Nat.strongRecOn with
  | ind n ih =>
    rw [Nat.toDigits_eq_if (by decide)] at h
    split at h
    case isTrue hlt => exact ⟨n, hlt, List.mem_singleton.mp h⟩
    case isFalse hle =>
      rcases List.mem_append.mp h with hmem | hmem
      · exact ih (n / 16) (by omega) hmem
      · exact ⟨n % 16, by omega, List.mem_singleton.mp hmem⟩

theorem eq_of_digitChar_eq {d e : Nat} (hd : d < 16) (he : e < 16)
    (h : Nat.digitChar d = Nat.digitChar e) : d = e := by
  have hall : ∀ d e : Fin 16, Nat.digitChar d = Nat.digitChar e → d = e := by decide
  exact congrArg Fin.val (hall ⟨d, hd⟩ ⟨e, he⟩ h)

theorem eq_of_toDigits_eq {m n : Nat} (h : Nat.toDigits 16 m = Nat.toDigits 16 n) : m = n := by
  induction m using Nat.strongRecOn generalizing n with
  | ind m ih =>
    rw [Nat.toDigits_eq_if (by decide), Nat.toDigits_eq_if (n := n) (by decide)] at h
    by_cases hm : m < 16 <;> by_cases hn : n < 16
    · rw [if_pos hm, if_pos hn] at h
      exact eq_of_digitChar_eq hm hn (List.singleton_inj.mp h)
    · simp [hm, hn, List.singleton_eq_append_iff] at h
    · simp [hm, hn, List.append_eq_singleton_iff] at h
    · rw [if_neg hm, if_neg hn] at h
      obtain ⟨hfront, hlast⟩ := List.append_inj' h rfl
      have hquotient := ih (m / 16) (by omega) hfront
      have hremainder := eq_of_digitChar_eq (by omega) (by omega) (List.singleton_inj.mp hlast)
      omega

/-! ## Characters -/

/-- A sign stands for one character only. -/
theorem eq_of_mem_ownSigns {c d sign : Char} (hc : (c, sign) ∈ ownSigns) (hd : (d, sign) ∈ ownSigns) :
    c = d := by
  have hall : ∀ p ∈ ownSigns, ∀ q ∈ ownSigns, p.2 = q.2 → p.1 = q.1 := by decide
  exact hall _ hc _ hd rfl

theorem ne_of_mem_ownSigns {c d sign : Char} (hown : ∀ sign, (c, sign) ∉ ownSigns)
    (hmem : (d, sign) ∈ ownSigns) : c ≠ d := by
  rintro rfl
  exact hown sign hmem

theorem quotedChar_of_mem {c sign : Char} (hown : (c, sign) ∈ ownSigns) :
    quotedChar c = ['\\', sign] := by
  simp only [ownSigns, List.mem_cons, Prod.mk.injEq, List.not_mem_nil, or_false] at hown
  rcases hown with ⟨rfl, rfl⟩ | ⟨rfl, rfl⟩ | ⟨rfl, rfl⟩ | ⟨rfl, rfl⟩ | ⟨rfl, rfl⟩ | ⟨rfl, rfl⟩ <;> rfl

theorem quotedChar_of_not_mem {c : Char} (hown : ∀ sign, (c, sign) ∉ ownSigns) :
    quotedChar c =
      if isUnprintable c then '\\' :: 'u' :: '\x7b' :: (Nat.toDigits 16 c.toNat ++ ['\x7d'])
      else [c] := by
  have hne : ∀ d sign, (d, sign) ∈ ownSigns → c ≠ d := fun _ _ => ne_of_mem_ownSigns hown
  rw [quotedChar, if_neg (hne '"' '"' (by decide)), if_neg (hne '\\' '\\' (by decide)),
    if_neg (hne '\t' 't' (by decide)), if_neg (hne '\r' 'r' (by decide)),
    if_neg (hne '\n' 'n' (by decide)), if_neg (hne '\x00' '0' (by decide))]
  rfl

/-- A character is shown in one of the three ways, and in one way only. -/
theorem quotedChar_eq_iff {c : Char} {s : List Char} : quotedChar c = s ↔ Shown c s := by
  constructor
  · rintro rfl
    by_cases hown : ∃ sign, (c, sign) ∈ ownSigns
    · obtain ⟨sign, hmem⟩ := hown
      rw [quotedChar_of_mem hmem]
      exact .sign hmem
    · have hnone : ∀ sign, (c, sign) ∉ ownSigns := not_exists.mp hown
      rw [quotedChar_of_not_mem hnone]
      cases hprint : isUnprintable c with
      | true => exact .number hnone hprint
      | false => exact .itself hnone hprint
  · intro h
    cases h with
    | itself hown hprintable => simp [quotedChar_of_not_mem hown, hprintable]
    | sign hown => exact quotedChar_of_mem hown
    | number hown hunprintable => simp [quotedChar_of_not_mem hown, hunprintable]

theorem shown_quotedChar (c : Char) : Shown c (quotedChar c) :=
  quotedChar_eq_iff.mp rfl

/-- Two texts are the same if the same sign, which is in neither of them, stands behind both. -/
theorem append_cons_inj_of_not_mem {α : Type} {a : α} {s t u v : List α} (hs : a ∉ s) (ht : a ∉ t)
    (h : s ++ a :: u = t ++ a :: v) : s = t ∧ u = v := by
  induction s generalizing t with
  | nil =>
    cases t with
    | nil => exact ⟨rfl, (List.cons.inj h).2⟩
    | cons b t => exact absurd (List.mem_cons.mpr (Or.inl (List.cons.inj h).1)) ht
  | cons b s ih =>
    cases t with
    | nil => exact absurd (List.mem_cons.mpr (Or.inl (List.cons.inj h).1.symm)) hs
    | cons c t =>
      obtain ⟨rfl, hrest⟩ := List.cons.inj h
      obtain ⟨rfl, huv⟩ := ih (List.not_mem_of_not_mem_cons hs) (List.not_mem_of_not_mem_cons ht) hrest
      exact ⟨rfl, huv⟩

/-- One sees which character is shown, and where it ends. -/
theorem Shown.append_inj {c d : Char} {s t u v : List Char} (hc : Shown c s) (hd : Shown d t)
    (h : s ++ u = t ++ v) : c = d ∧ u = v := by
  -- a backslash tells the first kind from the others, the character behind it the second from the third
  have hbackslash : ('\\', '\\') ∈ ownSigns := by decide
  have hnumber : ∀ c, (c, 'u') ∉ ownSigns := by simp [ownSigns]
  cases hc with
  | itself hown =>
    have hne := ne_of_mem_ownSigns hown hbackslash
    cases hd with
    | itself => exact List.cons.inj h
    | sign => exact absurd (List.cons.inj h).1 hne
    | number => exact absurd (List.cons.inj h).1 hne
  | sign hown =>
    cases hd with
    | itself hown' => exact absurd (List.cons.inj h).1.symm (ne_of_mem_ownSigns hown' hbackslash)
    | sign hown' =>
      obtain ⟨rfl, hrest⟩ := List.cons.inj (List.cons.inj h).2
      exact ⟨eq_of_mem_ownSigns hown hown', hrest⟩
    | number =>
      obtain ⟨rfl, -⟩ := List.cons.inj (List.cons.inj h).2
      exact absurd hown (hnumber c)
  | number =>
    cases hd with
    | itself hown' => exact absurd (List.cons.inj h).1.symm (ne_of_mem_ownSigns hown' hbackslash)
    | sign hown' =>
      obtain ⟨rfl, -⟩ := List.cons.inj (List.cons.inj h).2
      exact absurd hown' (hnumber d)
    | number =>
      have hend : ∀ n, '\x7d' ∉ Nat.toDigits 16 n := by
        intro n hmem
        obtain ⟨digit, hlt, hdigit⟩ := exists_digit_of_mem_toDigits hmem
        have hall : ∀ digit < 16, '\x7d' ≠ Nat.digitChar digit := by decide
        exact hall digit hlt hdigit
      simp only [List.cons_append, List.append_assoc, List.nil_append, List.cons.injEq,
        true_and] at h
      obtain ⟨hdigits, hrest⟩ := append_cons_inj_of_not_mem (hend _) (hend _) h
      exact ⟨Char.toNat_inj.mp (eq_of_toDigits_eq hdigits), hrest⟩

/-- No character is shown as a text that starts with a double quote. -/
theorem Shown.cons_ne_append {c : Char} {s : List Char} (h : Shown c s) (u v : List Char) :
    '"' :: u ≠ s ++ v := by
  have hquote : ('"', '"') ∈ ownSigns := by decide
  intro heq
  cases h with
  | itself hown => exact ne_of_mem_ownSigns hown hquote (List.cons.inj heq).1.symm
  | sign => simp at heq
  | number => simp at heq

/-! ## Texts -/

theorem toList_quoted (text : String) :
    (quoted text).toList = '"' :: text.toList.flatMap quotedChar ++ ['"'] :=
  String.toList_ofList

/-- One sees where a quotation ends. -/
theorem flatMap_quotedChar_append_inj {s t u v : List Char}
    (h : s.flatMap quotedChar ++ '"' :: u = t.flatMap quotedChar ++ '"' :: v) : s = t ∧ u = v := by
  induction s generalizing t with
  | nil =>
    cases t with
    | nil => exact ⟨rfl, (List.cons.inj h).2⟩
    | cons d t =>
      rw [List.flatMap_cons, List.append_assoc] at h
      exact absurd h ((shown_quotedChar d).cons_ne_append _ _)
  | cons c s ih =>
    rw [List.flatMap_cons, List.append_assoc] at h
    cases t with
    | nil => exact absurd h.symm ((shown_quotedChar c).cons_ne_append _ _)
    | cons d t =>
      rw [List.flatMap_cons, List.append_assoc] at h
      obtain ⟨rfl, hrest⟩ := (shown_quotedChar c).append_inj (shown_quotedChar d) h
      obtain ⟨rfl, huv⟩ := ih hrest
      exact ⟨rfl, huv⟩

/-- A quotation tells the text, and where what follows begins. -/
theorem quoted_append_inj {s t : String} {u v : List Char} :
    (quoted s).toList ++ u = (quoted t).toList ++ v ↔ s = t ∧ u = v := by
  constructor
  · intro h
    rw [toList_quoted, toList_quoted, List.append_assoc, List.append_assoc] at h
    obtain ⟨hchars, huv⟩ := flatMap_quotedChar_append_inj (List.cons.inj h).2
    exact ⟨String.toList_inj.mp hchars, huv⟩
  · rintro ⟨rfl, rfl⟩
    rfl

theorem quoted_inj {s t : String} : quoted s = quoted t ↔ s = t := by
  have h : (quoted s).toList ++ [] = (quoted t).toList ++ [] ↔ _ := quoted_append_inj
  simpa [String.toList_inj] using h

theorem Shown.isUnprintable_eq_false {c d : Char} {s : List Char} (h : Shown c s) (hd : d ∈ s) :
    isUnprintable d = false := by
  cases h with
  | itself hown hprintable =>
    rw [List.mem_singleton.mp hd]
    exact hprintable
  | sign hown =>
    have hall : ∀ p ∈ ownSigns, 0x20 ≤ p.2.toNat ∧ p.2.toNat < 0x7F := by decide
    simp only [List.mem_cons, List.not_mem_nil, or_false] at hd
    rcases hd with rfl | rfl
    · exact isUnprintable_of_ascii (by decide) (by decide)
    · exact isUnprintable_of_ascii (hall _ hown).1 (hall _ hown).2
  | number hown =>
    have hall : ∀ digit < 16,
        0x20 ≤ (Nat.digitChar digit).toNat ∧ (Nat.digitChar digit).toNat < 0x7F := by decide
    simp only [List.mem_cons, List.mem_append, List.not_mem_nil, or_false] at hd
    rcases hd with rfl | rfl | rfl | hmem | rfl
    case inr.inr.inr.inl =>
      obtain ⟨digit, hlt, rfl⟩ := exists_digit_of_mem_toDigits hmem
      exact isUnprintable_of_ascii (hall digit hlt).1 (hall digit hlt).2
    all_goals exact isUnprintable_of_ascii (by decide) (by decide)

/-- Nothing in a quoted text is unprintable. -/
theorem isUnprintable_of_mem_quoted {text : String} {c : Char} (h : c ∈ (quoted text).toList) :
    isUnprintable c = false := by
  have hquote : isUnprintable '"' = false := isUnprintable_of_ascii (by decide) (by decide)
  rw [toList_quoted, List.mem_append, List.mem_cons, List.mem_singleton] at h
  rcases h with (rfl | hmem) | rfl
  · exact hquote
  · obtain ⟨d, -, hd⟩ := List.mem_flatMap.mp hmem
    exact (shown_quotedChar d).isUnprintable_eq_false hd
  · exact hquote

/-- All white space is unprintable, but for the space. -/
theorem isUnprintable_of_isSpace {c : Char} (h : isSpace c = true) (hne : c ≠ ' ') :
    isUnprintable c = true := by
  have hinside : ∀ range ∈ spaceRanges, range = (0x20, 0x20) ∨
      ∃ outer ∈ unprintableRanges, outer.1 ≤ range.1 ∧ range.2 ≤ outer.2 := by
    decide +kernel
  obtain ⟨range, hmem, hmin, hmax⟩ := isSpace_iff.mp h
  rcases hinside range hmem with rfl | ⟨outer, houter, hfirst, hlast⟩
  · have hcode : c.toNat = ' '.toNat := Nat.le_antisymm hmax hmin
    exact absurd (Char.toNat_inj.mp hcode) hne
  · exact isUnprintable_iff.mpr ⟨outer, houter, Nat.le_trans hfirst hmin, Nat.le_trans hmax hlast⟩

/-- No white space is left in a quoted text but spaces, and so no end of a line. -/
theorem eq_space_of_mem_quoted {text : String} {c : Char} (h : c ∈ (quoted text).toList)
    (hspace : isSpace c = true) : c = ' ' := by
  apply Decidable.byContradiction
  intro hne
  have hprintable := isUnprintable_of_mem_quoted h
  rw [isUnprintable_of_isSpace hspace hne] at hprintable
  cases hprintable

/-! ## Lists of texts -/

theorem intercalate_cons_eq_flatMap {α : Type} (sep piece : List α) (more : List (List α)) :
    sep.intercalate (piece :: more) = piece ++ more.flatMap (sep ++ ·) := by
  induction more generalizing piece with
  | nil => simp
  | cons next more ih =>
    rw [List.intercalate_cons_cons, ih, List.flatMap_cons, List.append_assoc, List.append_assoc]

/-- The texts behind the first one of a list, as they stand in the list. -/
def listTail (texts : List String) : List Char :=
  texts.flatMap fun text => [',', ' '] ++ (quoted text).toList

theorem listTail_cons_append (text : String) (more : List String) (u : List Char) :
    listTail (text :: more) ++ u = ',' :: ' ' :: ((quoted text).toList ++ (listTail more ++ u)) := by
  simp [listTail]

theorem quotedList_cons_append (first : String) (more : List String) (u : List Char) :
    (quotedList (first :: more)).toList ++ u =
      '[' :: ((quoted first).toList ++ (listTail more ++ ']' :: u)) := by
  rw [quotedList, String.toList_append, String.toList_append, String.toList_intercalate, List.map_cons,
    List.map_cons, intercalate_cons_eq_flatMap, List.map_map, List.flatMap_map]
  simp [listTail]

theorem listTail_append_inj {xs ys : List String} {u v : List Char}
    (h : listTail xs ++ ']' :: u = listTail ys ++ ']' :: v) : xs = ys ∧ u = v := by
  induction xs generalizing ys with
  | nil =>
    cases ys with
    | nil => exact ⟨rfl, (List.cons.inj h).2⟩
    | cons y ys =>
      rw [listTail_cons_append] at h
      exact absurd (List.cons.inj h).1 (by decide)
  | cons x xs ih =>
    rw [listTail_cons_append] at h
    cases ys with
    | nil => exact absurd (List.cons.inj h).1 (by decide)
    | cons y ys =>
      rw [listTail_cons_append] at h
      obtain ⟨rfl, hrest⟩ := quoted_append_inj.mp (List.cons.inj (List.cons.inj h).2).2
      obtain ⟨rfl, huv⟩ := ih hrest
      exact ⟨rfl, huv⟩

/-- A list of quotations tells the texts, and where what follows begins. -/
theorem quotedList_append_inj {xs ys : List String} {u v : List Char} :
    (quotedList xs).toList ++ u = (quotedList ys).toList ++ v ↔ xs = ys ∧ u = v := by
  have hne : ∀ (text : String) (w w' : List Char), ']' :: w ≠ (quoted text).toList ++ w' := by
    intro text w w' h
    rw [toList_quoted] at h
    exact absurd (List.cons.inj h).1 (by decide)
  constructor
  case mpr =>
    rintro ⟨rfl, rfl⟩
    rfl
  intro h
  cases xs with
  | nil =>
    cases ys with
    | nil => exact ⟨rfl, (List.cons.inj (List.cons.inj h).2).2⟩
    | cons y ys =>
      rw [quotedList_cons_append] at h
      exact absurd (List.cons.inj h).2 (hne y u _)
  | cons x xs =>
    rw [quotedList_cons_append] at h
    cases ys with
    | nil => exact absurd (List.cons.inj h).2.symm (hne x v _)
    | cons y ys =>
      rw [quotedList_cons_append] at h
      obtain ⟨rfl, htail⟩ := quoted_append_inj.mp (List.cons.inj h).2
      obtain ⟨rfl, huv⟩ := listTail_append_inj htail
      exact ⟨rfl, huv⟩

/-! ## Lines -/

theorem SignatureFault.reason_inj {f g : SignatureFault} : f.reason = g.reason ↔ f = g := by
  cases f <;> cases g <;> simp [SignatureFault.reason]

theorem ListFault.reason_inj {f g : ListFault} : f.reason = g.reason ↔ f = g := by
  cases f <;> cases g <;> simp [ListFault.reason]

namespace Event

/-- The line of names that are left out tells the names, and the list. -/
theorem message_dropped_inj {names names' : List String} {list list' : String} :
    (dropped names list).message = (dropped names' list').message ↔ names = names' ∧ list = list' := by
  refine ⟨fun h => ?_, fun ⟨hnames, hlist⟩ => by rw [hnames, hlist]⟩
  have hline : ("Dropping untyped parameters " ++ quotedList names ++ " from " ++ quoted list).toList =
      ("Dropping untyped parameters " ++ quotedList names' ++ " from " ++ quoted list').toList :=
    congrArg String.toList h
  simp only [String.toList_append, List.append_assoc, List.append_cancel_left_eq] at hline
  obtain ⟨hnames, hrest⟩ := quotedList_append_inj.mp hline
  exact ⟨hnames, quoted_inj.mp (String.toList_inj.mp (List.append_cancel_left hrest))⟩

example : (dropped ["a\t", "\u200b"] "(a\t, \u200b)").message =
    "Dropping untyped parameters [\"a\\t\", \"\\u\x7b200b\x7d\"] from \"(a\\t, \\u\x7b200b\x7d)\"" := by
  decide +kernel

/-- The line of a value that means nothing tells the value. -/
theorem message_unrecognized_inj {setting value value' : String} :
    (unrecognized setting value).message = (unrecognized setting value').message ↔ value = value' := by
  refine ⟨fun h => ?_, fun hvalue => by rw [hvalue]⟩
  have hline : ("Unrecognized " ++ setting ++ " value " ++ quoted value ++
      ", falling back to strict parsing").toList = ("Unrecognized " ++ setting ++ " value " ++
        quoted value' ++ ", falling back to strict parsing").toList :=
    congrArg String.toList h
  simp only [String.toList_append, List.append_assoc, List.append_cancel_left_eq] at hline
  exact (quoted_append_inj.mp hline).1

/-- The line of a refusal tells what the text was taken for, the text, and the reason. -/
theorem message_rejected_inj {e e' : SignatureError} :
    (rejected e).message = (rejected e').message ↔ e = e' := by
  refine ⟨fun h => ?_, fun he => by rw [he]⟩
  have hline : ("Rejecting " ++ e.subject ++ " " ++ quoted e.input ++ ": " ++ e.reason).toList =
      ("Rejecting " ++ e'.subject ++ " " ++ quoted e'.input ++ ": " ++ e'.reason).toList :=
    congrArg String.toList h
  simp only [String.toList_append, List.append_assoc, List.append_cancel_left_eq] at hline
  -- behind the same subject stand the quoted text and the reason
  have hparts : e.subject = e'.subject → e.input = e'.input ∧ e.reason = e'.reason := by
    intro hsubject
    rw [hsubject, List.append_cancel_left_eq, List.append_cancel_left_eq] at hline
    obtain ⟨hinput, hreason⟩ := quoted_append_inj.mp hline
    exact ⟨hinput, String.toList_inj.mp (List.append_cancel_left hreason)⟩
  cases e with
  | signature fault input =>
    cases e' with
    | signature fault' input' =>
      obtain ⟨hinput, hreason⟩ := hparts rfl
      rw [SignatureFault.reason_inj.mp hreason]
      exact congrArg _ hinput
    | parameterList => simp [SignatureError.subject] at hline
  | parameterList fault input =>
    cases e' with
    | signature => simp [SignatureError.subject] at hline
    | parameterList fault' input' =>
      obtain ⟨hinput, hreason⟩ := hparts rfl
      rw [ListFault.reason_inj.mp hreason]
      exact congrArg _ hinput

end Event

end FuncType
