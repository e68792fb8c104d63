import FuncType.Mode
import FuncType.Proofs.Quoting
import FuncType.Proofs.WhiteSpace
import Mathlib.Data.List.Forall2

/-!
# What a setting asks for

The mode is chosen by the plain form of a setting. Said without it, a value spells a word if it is this
word with white space around it and with any of its ASCII letters in the other case (`Mode.Spells`). The
mode is lenient exactly for the values that spell one of four words, and a warning is given exactly for
those that spell none of the eight words that mean something (`Mode.ofEnvironment_relaxes_on_request`).

Trimming commutes with the change to lower case, since an ASCII letter is white space in neither case
(`isSpace_toLower`). So white space around a value and the case of its letters do not show in its plain
form, on which the mode and the warning depend.
-/

namespace FuncType

/-- Two characters are the same, or one of them is an ASCII capital and the other its small letter. -/
def SameLetter (c d : Char) : Prop :=
  c = d ∨ (c.isUpper = true ∧ d.toNat = c.toNat + 32) ∨ (d.isUpper = true ∧ c.toNat = d.toNat + 32)

/-! ## Letters -/

theorem isUpper_iff {c : Char} : c.isUpper = true ↔ 65 ≤ c.toNat ∧ c.toNat ≤ 90 := by
  have hupper : c.isUpper = decide (65 ≤ c.toNat ∧ c.toNat ≤ 90) := rfl
  rw [hupper, decide_eq_true_iff]

theorem isLower_iff {c : Char} : c.isLower = true ↔ 97 ≤ c.toNat ∧ c.toNat ≤ 122 := by
  have hlower : c.isLower = (decide (97 ≤ c.toNat) && decide (c.toNat ≤ 122)) := rfl
  rw [hlower, Bool.and_eq_true, decide_eq_true_iff, decide_eq_true_iff]

theorem isAlphanum_iff {c : Char} :
    c.isAlphanum = true ↔
      (65 ≤ c.toNat ∧ c.toNat ≤ 90) ∨ (97 ≤ c.toNat ∧ c.toNat ≤ 122) ∨
        (48 ≤ c.toNat ∧ c.toNat ≤ 57) := by
  have halphanum : c.isAlphanum = (c.isUpper || c.isLower || c.isDigit) := rfl
  have hdigit : c.isDigit = true ↔ 48 ≤ c.toNat ∧ c.toNat ≤ 57 := Char.isDigit_iff_toNat
  rw [halphanum, Bool.or_eq_true, Bool.or_eq_true, isUpper_iff, isLower_iff, hdigit, or_assoc]

theorem toNat_toLower (c : Char) :
    c.toLower.toNat = if 65 ≤ c.toNat ∧ c.toNat ≤ 90 then c.toNat + 32 else c.toNat := by
  delta Char.toLower
  split
  case isTrue hcode =>
    have hrange : 65 ≤ c.toNat ∧ c.toNat ≤ 90 := isUpper_iff.mp (decide_eq_true hcode)
    have hsum : (c.val + 32).toNat = (c.toNat + 32) % 2 ^ 32 := UInt32.toNat_add c.val 32
    rw [if_pos hrange]
    exact hsum.trans (Nat.mod_eq_of_lt (by omega))
  case isFalse hcode =>
    rw [if_neg fun hrange => hcode (of_decide_eq_true (isUpper_iff.mpr hrange))]

theorem isUpper_toLower (c : Char) : c.toLower.isUpper = false := by
  rw [← Bool.not_eq_true, isUpper_iff, toNat_toLower]
  split <;> omega

theorem toLower_eq_self {c : Char} (h : c.isUpper = false) : c.toLower = c := by
  rw [← Bool.not_eq_true, isUpper_iff] at h
  rw [← Char.toNat_inj, toNat_toLower, if_neg h]

/-- Two characters have the same small letter if they differ at most in the case of an ASCII letter. -/
theorem toLower_eq_toLower_iff {c d : Char} : c.toLower = d.toLower ↔ SameLetter c d := by
  rw [← Char.toNat_inj, toNat_toLower, toNat_toLower, SameLetter, isUpper_iff, isUpper_iff,
    ← Char.toNat_inj]
  split <;> split <;> omega

theorem map_toLower_eq_iff {s t : List Char} :
    s.map Char.toLower = t.map Char.toLower ↔ List.Forall₂ SameLetter s t := by
  rw [← List.forall₂_eq_eq_eq, List.forall₂_map_left_iff, List.forall₂_map_right_iff]
  simp only [toLower_eq_toLower_iff]

theorem isAlphanum_toLower (c : Char) : c.toLower.isAlphanum = c.isAlphanum := by
  rw [Bool.eq_iff_iff, isAlphanum_iff, isAlphanum_iff, toNat_toLower]
  split <;> omega

theorem isSpace_toLower (c : Char) : isSpace c.toLower = isSpace c := by
  rw [Bool.eq_iff_iff, isSpace_iff, isSpace_iff, toNat_toLower]
  split
  case isTrue hupper =>
    -- no range of white space touches the letters, of either case
    simp [spaceRanges]
    omega
  case isFalse => exact Iff.rfl

/-! ## Words and plain forms -/

namespace Mode

/-- A value is a word but for white space around it and the case of ASCII letters. -/
def Spells (value word : String) : Prop :=
  ∃ u core v, value.toList = u ++ core ++ v ∧ isBlank u = true ∧ isBlank v = true ∧ IsTrimmed core ∧
    List.Forall₂ SameLetter core word.toList

/-- A text is a value without the white space around it and with small ASCII letters for the capitals. -/
structure IsPlainForm (value plain : String) : Prop where
  spells : Spells value plain
  noCapital : ∀ c ∈ plain.toList, c.isUpper = false

/-- An event warns of a value: it quotes the plain form of the value. -/
structure Warns (value : String) (event : Event) : Prop where
  level_eq : event.level = .warn
  message_eq : ∃ plain, IsPlainForm value plain ∧
    event.message =
      "Unrecognized GOSIG_STRICT_PARAMS value " ++ quoted plain ++ ", falling back to strict parsing"

/-- The environment holds a text that spells no word with a meaning. -/
def NotUnderstood (bytes : Option ByteArray) : Prop :=
  ∃ value : String, bytes = some value.toUTF8 ∧
    ∀ word ∈ ["0", "false", "no", "off", "1", "true", "yes", "on"], ¬ Spells value word

variable {value word : String}

/-- What the line of a warning quotes is the plain form of the value. -/
theorem Warns.isPlainForm {event : Event} {plain : String} (h : Warns value event)
    (hline : event.message =
      "Unrecognized GOSIG_STRICT_PARAMS value " ++ quoted plain ++ ", falling back to strict parsing") :
    IsPlainForm value plain := by
  obtain ⟨plain', hplain, hline'⟩ := h.message_eq
  have hchars := congrArg String.toList (hline.symm.trans hline')
  simp only [String.toList_append, List.append_assoc, List.append_cancel_left_eq] at hchars
  rw [(quoted_append_inj.mp hchars).1]
  exact hplain

theorem toList_plainSetting (value : String) :
    (plainSetting value).toList = (trim value.toList).map Char.toLower :=
  String.toList_ofList

/-- A value spells a word without capitals if the word is its plain form. -/
theorem spells_iff (hword : ∀ c ∈ word.toList, c.isUpper = false) :
    Spells value word ↔ plainSetting value = word := by
  have hsmall : word.toList.map Char.toLower = word.toList :=
    (List.map_congr_left fun c hc => toLower_eq_self (hword c hc)).trans (List.map_id _)
  constructor
  · rintro ⟨u, core, v, hvalue, hu, hv, htrim, hsame⟩
    have hcore : trim value.toList = core := by
      rw [hvalue]
      exact trim_append hu htrim hv
    rw [← String.toList_inj, toList_plainSetting, hcore, map_toLower_eq_iff.mpr hsame, hsmall]
  · rintro rfl
    obtain ⟨u, v, hu, hv, hvalue⟩ := exists_trim value.toList
    refine ⟨u, trim value.toList, v, hvalue, hu, hv, isTrimmed_trim _, ?_⟩
    rw [← map_toLower_eq_iff, hsmall, toList_plainSetting]

theorem isPlainForm_plainSetting (value : String) : IsPlainForm value (plainSetting value) := by
  have hsmall : ∀ c ∈ (plainSetting value).toList, c.isUpper = false := by
    intro c hc
    rw [toList_plainSetting] at hc
    obtain ⟨d, -, rfl⟩ := List.mem_map.mp hc
    exact isUpper_toLower d
  exact ⟨(spells_iff hsmall).mpr rfl, hsmall⟩

/-- White space around a value and another case of its letters do not show in its plain form. -/
theorem plainSetting_padded {padded : String} {u core v : List Char} (hu : isBlank u = true)
    (hv : isBlank v = true) (hsame : List.Forall₂ SameLetter value.toList core)
    (hpadded : padded.toList = u ++ core ++ v) : plainSetting padded = plainSetting value := by
  rw [← String.toList_inj, toList_plainSetting, toList_plainSetting, ← trim_map isSpace_toLower,
    ← trim_map isSpace_toLower, map_toLower_eq_iff.mpr hsame, hpadded, trim_map isSpace_toLower,
    trim_padded hu hv, trim_map isSpace_toLower]

/-! ## Words with a meaning -/

theorem exists_spells_iff {words : List String}
    (hwords : ∀ word ∈ words, ∀ c ∈ word.toList, c.isUpper = false) :
    (∃ word ∈ words, Spells value word) ↔ plainSetting value ∈ words := by
  constructor
  · rintro ⟨word, hmem, hspells⟩
    rw [(spells_iff (hwords word hmem)).mp hspells]
    exact hmem
  · intro hmem
    exact ⟨_, hmem, (isPlainForm_plainSetting value).spells⟩

theorem ofPlainSetting?_eq_lenient_iff {plain : String} :
    ofPlainSetting? plain = some .lenient ↔ plain ∈ ["0", "false", "no", "off"] := by
  rw [ofPlainSetting?]
  split
  case isTrue hstrict =>
    simp only [List.mem_cons, List.not_mem_nil, or_false] at hstrict
    refine iff_of_false (by simp) ?_
    rcases hstrict with rfl | rfl | rfl | rfl <;> decide
  case isFalse =>
    split
    case isTrue hlenient => exact iff_of_true rfl hlenient
    case isFalse hother => exact iff_of_false (by simp) hother

theorem ofPlainSetting?_eq_none_iff {plain : String} :
    ofPlainSetting? plain = none ↔
      plain ∉ ["0", "false", "no", "off", "1", "true", "yes", "on"] := by
  have happend : ["0", "false", "no", "off", "1", "true", "yes", "on"] =
      ["0", "false", "no", "off"] ++ ["1", "true", "yes", "on"] := rfl
  rw [ofPlainSetting?, happend, List.mem_append, not_or]
  split
  case isTrue hstrict => exact iff_of_false (by simp) fun h => h.2 hstrict
  case isFalse hnot =>
    split
    case isTrue hlenient => exact iff_of_false (by simp) fun h => h.1 hlenient
    case isFalse hother => exact iff_of_true rfl ⟨hother, hnot⟩

theorem ofSetting_some (value : String) :
    ofSetting (some value) =
      match ofPlainSetting? (plainSetting value) with
      | some mode => ⟨mode, []⟩
      | none => ⟨.strict, [.unrecognized settingName (plainSetting value)]⟩ := by
  rw [ofSetting]
  cases ofPlainSetting? (plainSetting value) <;> rfl

theorem value_ofSetting_eq_lenient_iff :
    (ofSetting (some value)).value = .lenient ↔
      plainSetting value ∈ ["0", "false", "no", "off"] := by
  rw [← ofPlainSetting?_eq_lenient_iff, ofSetting_some]
  cases ofPlainSetting? (plainSetting value) <;> simp

/-! ## The environment -/

theorem fromUTF8?_toUTF8 (value : String) : String.fromUTF8? value.toUTF8 = some value :=
  dif_pos value.isValidUTF8

/-- The environment holds a text if the bytes there are its encoding. -/
theorem bind_fromUTF8?_eq_some_iff {bytes : Option ByteArray} :
    bytes.bind String.fromUTF8? = some value ↔ bytes = some value.toUTF8 := by
  constructor
  · intro h
    obtain ⟨array, rfl, harray⟩ := Option.bind_eq_some_iff.mp h
    rw [String.fromUTF8?] at harray
    split at harray
    case isTrue hvalid =>
      obtain rfl := Option.some.inj harray
      rfl
    case isFalse => cases harray
  · rintro rfl
    exact fromUTF8?_toUTF8 value

theorem ofEnvironment_toUTF8 (value : String) :
    ofEnvironment (some value.toUTF8) = ofSetting (some value) := by
  rw [ofEnvironment, Option.bind_some, fromUTF8?_toUTF8]

/-- The mode is lenient if the environment holds a text that spells one of four words. -/
theorem value_ofEnvironment_eq_lenient_iff {bytes : Option ByteArray} :
    (ofEnvironment bytes).value = .lenient ↔
      ∃ value : String, bytes = some value.toUTF8 ∧
        ∃ word ∈ ["0", "false", "no", "off"], Spells value word := by
  have hwords : ∀ word ∈ ["0", "false", "no", "off"], ∀ c ∈ word.toList, c.isUpper = false := by simp
  simp only [← bind_fromUTF8?_eq_some_iff, exists_spells_iff hwords]
  rw [ofEnvironment]
  cases bytes.bind String.fromUTF8? with
  | none => exact iff_of_false (by decide) (by simp)
  | some value =>
    rw [value_ofSetting_eq_lenient_iff]
    simp

theorem notUnderstood_iff {bytes : Option ByteArray} :
    NotUnderstood bytes ↔
      ∃ value, bytes.bind String.fromUTF8? = some value ∧ ofPlainSetting? (plainSetting value) = none := by
  have hwords : ∀ word ∈ ["0", "false", "no", "off", "1", "true", "yes", "on"],
      ∀ c ∈ word.toList, c.isUpper = false := by simp
  refine exists_congr fun value => and_congr bind_fromUTF8?_eq_some_iff.symm ?_
  rw [ofPlainSetting?_eq_none_iff, ← exists_spells_iff hwords]
  simp only [not_exists, not_and]

/-- A text that spells no word with a meaning is warned of. -/
theorem exists_warns_of_notUnderstood {bytes : Option ByteArray} (h : NotUnderstood bytes) :
    ∃ value event, bytes = some value.toUTF8 ∧ Warns value event ∧
      (ofEnvironment bytes).events = [event] := by
  obtain ⟨value, hvalue, hnone⟩ := notUnderstood_iff.mp h
  refine ⟨value, .unrecognized settingName (plainSetting value), bind_fromUTF8?_eq_some_iff.mp hvalue,
    ⟨rfl, plainSetting value, isPlainForm_plainSetting value, rfl⟩, ?_⟩
  rw [ofEnvironment, hvalue, ofSetting_some, hnone]

/-- Nothing else is warned of. -/
theorem events_eq_nil_of_understood {bytes : Option ByteArray} (h : ¬ NotUnderstood bytes) :
    (ofEnvironment bytes).events = [] := by
  rw [ofEnvironment]
  cases hvalue : bytes.bind String.fromUTF8? with
  | none => rfl
  | some value =>
    rw [ofSetting_some]
    cases hplain : ofPlainSetting? (plainSetting value) with
    | none => exact absurd (notUnderstood_iff.mpr ⟨value, hvalue, hplain⟩) h
    | some mode => rfl

/-- A value that asks for leniency holds ASCII letters and digits and white space only. -/
theorem isAlphanum_of_lenient {c : Char} (h : (ofEnvironment (some value.toUTF8)).value = .lenient)
    (hc : c ∈ value.toList) (hspace : isSpace c = false) : c.isAlphanum = true := by
  have hwords : ∀ word ∈ ["0", "false", "no", "off"], ∀ c ∈ word.toList, c.isAlphanum = true := by simp
  rw [ofEnvironment_toUTF8, value_ofSetting_eq_lenient_iff] at h
  have hplain : c.toLower ∈ (plainSetting value).toList := by
    rw [toList_plainSetting]
    exact List.mem_map_of_mem (mem_trim hc hspace)
  rw [← isAlphanum_toLower]
  exact hwords _ h _ hplain

/-- For every state of the environment: the mode is lenient exactly if there is a text that spells one of
four words, and there is a warning, which quotes the plain form of the text, exactly if there is a text
that spells none of eight words, and otherwise there is no event. White space around a text and another
case of its letters change neither the mode nor the warning. A text with a character that is neither white
space nor an ASCII letter or digit leaves the mode strict. -/
theorem ofEnvironment_relaxes_on_request :
    (∀ bytes : Option ByteArray,
      ((ofEnvironment bytes).value = .lenient ↔
        ∃ value : String, bytes = some value.toUTF8 ∧
          ∃ word ∈ ["0", "false", "no", "off"], Spells value word) ∧
      ((∃ value event, bytes = some value.toUTF8 ∧ Warns value event ∧
        (ofEnvironment bytes).events = [event]) ↔ NotUnderstood bytes) ∧
      ((ofEnvironment bytes).events = [] ↔ ¬ NotUnderstood bytes)) ∧
    (∀ (value padded : String) (u core v : List Char), isBlank u = true → isBlank v = true →
      List.Forall₂ SameLetter value.toList core → padded.toList = u ++ core ++ v →
      ofEnvironment (some padded.toUTF8) = ofEnvironment (some value.toUTF8)) ∧
    ∀ (value : String) (c : Char), c ∈ value.toList → isSpace c = false → c.isAlphanum = false →
      (ofEnvironment (some value.toUTF8)).value = .strict := by
  refine ⟨fun bytes => ⟨value_ofEnvironment_eq_lenient_iff, ⟨?_, exists_warns_of_notUnderstood⟩,
    ?_, events_eq_nil_of_understood⟩, ?_, ?_⟩
  · rintro ⟨value, event, -, -, hevents⟩
    by_contra hunderstood
    rw [events_eq_nil_of_understood hunderstood] at hevents
    cases hevents
  · intro hevents hnot
    obtain ⟨value, event, -, -, hwarns⟩ := exists_warns_of_notUnderstood hnot
    rw [hevents] at hwarns
    cases hwarns
  · intro value padded u core v hu hv hsame hpadded
    rw [ofEnvironment_toUTF8, ofEnvironment_toUTF8, ofSetting_some, ofSetting_some,
      plainSetting_padded hu hv hsame hpadded]
  · intro value c hc hspace halphanum
    cases hmode : (ofEnvironment (some value.toUTF8)).value with
    | strict => rfl
    | lenient =>
      rw [isAlphanum_of_lenient hmode hc hspace] at halphanum
      cases halphanum

/-- A word with capitals between an ideographic space and a tab; the same word with a ligature in it, and
with a separator that is no white space behind it. -/
theorem ofEnvironment_relaxes_on_request_at_look_alike :
    isBlank ['\u3000'] = true ∧ isBlank ['\t'] = true ∧
      List.Forall₂ SameLetter "off".toList "oFF".toList ∧
      "\u3000oFF\t".toList = ['\u3000'] ++ "oFF".toList ++ ['\t'] ∧
      ofEnvironment (some "\u3000oFF\t".toUTF8) = ofEnvironment (some "off".toUTF8) ∧
      (ofEnvironment (some "off".toUTF8)).value = .lenient ∧
      '\ufb00' ∈ "o\ufb00".toList ∧ (ofEnvironment (some "o\ufb00".toUTF8)).value = .strict ∧
      '\x1f' ∈ "off\x1f".toList ∧ (ofEnvironment (some "off\x1f".toUTF8)).value = .strict := by
  have hsame : List.Forall₂ SameLetter "off".toList "oFF".toList :=
    map_toLower_eq_iff.mp (by simp)
  have hplain : plainSetting "off" = "off" := by
    rw [← String.toList_inj, toList_plainSetting]
    rfl
  have hspells : Spells "off" "off" := (spells_iff (by simp)).mpr hplain
  have hlenient : (ofEnvironment (some "off".toUTF8)).value = .lenient :=
    (ofEnvironment_relaxes_on_request.1 _).1.mpr ⟨"off", rfl, "off", by decide, hspells⟩
  have hligature : '\ufb00' ∈ "o\ufb00".toList := by decide
  have hseparator : '\x1f' ∈ "off\x1f".toList := by decide
  exact ⟨rfl, rfl, hsame, rfl,
    ofEnvironment_relaxes_on_request.2.1 "off" _ ['\u3000'] "oFF".toList ['\t'] rfl rfl hsame rfl,
    hlenient,
    hligature, ofEnvironment_relaxes_on_request.2.2 _ _ hligature rfl rfl,
    hseparator, ofEnvironment_relaxes_on_request.2.2 _ _ hseparator rfl rfl⟩

end Mode

end FuncType
