import FuncType.CodeRanges

/-!
# White space

The blanks around the items of a list, and the blank between a name and its type, are the
characters with the Unicode property `White_Space`. The control characters that do not have it
(`U+001C` to `U+001F`) and the invisible characters that do not (the zero width ones, the byte
order mark) are part of an item like any letter.
-/

namespace FuncType

/-- The characters with the property `White_Space`. -/
def spaceRanges : CodeRanges :=
  [(0x09, 0x0D), (0x20, 0x20), (0x85, 0x85), (0xA0, 0xA0), (0x1680, 0x1680), (0x2000, 0x200A),
   (0x2028, 0x2029), (0x202F, 0x202F), (0x205F, 0x205F), (0x3000, 0x3000)]

/-- Whether a character is white space. -/
def isSpace (c : Char) : Bool :=
  CodeRanges.covers c.toNat spaceRanges

/-- A text without the white space at its start. -/
def trimStart (text : List Char) : List Char :=
  text.dropWhile isSpace

/-- A text without the white space at its end. -/
def trimEnd (text : List Char) : List Char :=
  (text.reverse.dropWhile isSpace).reverse

/-- A text without the white space at either end. -/
def trim (text : List Char) : List Char :=
  trimEnd (trimStart text)

/-- Whether a text is white space only. -/
def isBlank (text : List Char) : Bool :=
  text.all isSpace

/-! ## Basic facts -/

theorem spaceRanges_isIncreasing : CodeRanges.isIncreasing spaceRanges := by
  decide

theorem isSpace_iff {c : Char} :
    isSpace c = true ↔ ∃ range ∈ spaceRanges, range.1 ≤ c.toNat ∧ c.toNat ≤ range.2 :=
  CodeRanges.covers_iff spaceRanges_isIncreasing

/-- The three signs of a list are no white space. -/
theorem isSpace_signs : isSpace '(' = false ∧ isSpace ')' = false ∧ isSpace ',' = false := by
  decide

theorem trimStart_eq_nil_iff {text : List Char} : trimStart text = [] ↔ isBlank text := by
  induction text with
  | nil => exact ⟨fun _ => rfl, fun _ => rfl⟩
  | cons c text ih => cases hc : isSpace c <;> simp_all [trimStart, isBlank]

theorem isBlank_reverse (text : List Char) : isBlank text.reverse = isBlank text := by
  simp [isBlank]

theorem trimEnd_eq_nil_iff {text : List Char} : trimEnd text = [] ↔ isBlank text := by
  rw [trimEnd, List.reverse_eq_nil_iff, ← isBlank_reverse]
  exact trimStart_eq_nil_iff

theorem isBlank_trimStart (text : List Char) : isBlank (trimStart text) = isBlank text := by
  induction text with
  | nil => rfl
  | cons c text ih => cases hc : isSpace c <;> simp_all [trimStart, isBlank]

/-- Trimming leaves nothing of the blank texts, and something of all others. -/
theorem trim_eq_nil_iff {text : List Char} : trim text = [] ↔ isBlank text := by
  rw [trim, trimEnd_eq_nil_iff, isBlank_trimStart]

end FuncType
