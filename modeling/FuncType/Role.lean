/-!
# The roles of symbols

A function type is cut up by looking at three signs only: the two parentheses and the comma. The
same cutting is done on characters, to get at the pieces, and on UTF-8 bytes, to say where they
lie; so everything about nesting is stated for an alphabet whose symbols have a `Role`. That the
two alphabets tell the same story comes down to one fact: the three signs are single bytes, and no
byte of any other character is one of them (`role_of_mem_utf8EncodeChar`).
-/

namespace FuncType

/-- What a symbol does to the nesting of a text. -/
inductive Role where
  /-- It opens a group. -/
  | opens
  /-- It closes the innermost group that is open. -/
  | closes
  /-- It separates two items of a list. -/
  | separates
  /-- It is part of an item. -/
  | plain
deriving DecidableEq, Repr

/-- An alphabet whose symbols have roles. -/
class Alphabet (α : Type) where
  /-- The role of a symbol. -/
  role : α → Role

export Alphabet (role)

/-- The nesting depth after a symbol of this role that is met at depth `depth`. At depth zero a
closing symbol has nothing to close; no scan of this library meets one there. -/
def Role.depthAfter (depth : Nat) : Role → Nat
  | .opens => depth + 1
  | .closes => depth - 1
  | .separates => depth
  | .plain => depth

/-- A depth counted from outside a group is one more than the depth counted from inside it, up to the
symbol that closes the group. -/
theorem Role.depthAfter_succ {r : Role} {depth : Nat} (h : r = .closes → depth ≠ 0) :
    r.depthAfter (depth + 1) = r.depthAfter depth + 1 := by
  cases r with
  | opens => rfl
  | closes =>
    obtain ⟨n, rfl⟩ := Nat.exists_eq_succ_of_ne_zero (h rfl)
    rfl
  | separates => rfl
  | plain => rfl

/-- Inside a group, only a separator ends a segment of the group, whether the depth is counted from outside
the group or from inside it. -/
theorem Role.ends_iff {r : Role} {depth : Nat} (h : r = .closes → depth ≠ 0) :
    (depth + 1 = 1 ∧ (r = .separates ∨ r = .closes)) ↔ r = .separates ∧ depth = 0 := by
  constructor
  · rintro ⟨hone, hseparates | hcloses⟩
    · exact ⟨hseparates, Nat.succ.inj hone⟩
    · exact absurd (Nat.succ.inj hone) (h hcloses)
  · rintro ⟨hseparates, rfl⟩
    exact ⟨rfl, Or.inl hseparates⟩

/-! ## Characters and bytes -/

/-- Parentheses open and close, commas separate. -/
instance : Alphabet Char where
  role c :=
    if c = '(' then .opens
    else if c = ')' then .closes
    else if c = ',' then .separates
    else .plain

/-- The bytes of the two parentheses and of the comma have the roles of those characters. -/
instance : Alphabet UInt8 where
  role b :=
    if b = 0x28 then .opens
    else if b = 0x29 then .closes
    else if b = 0x2C then .separates
    else .plain

/-- The UTF-8 bytes of a text. -/
def utf8 (text : List Char) : List UInt8 :=
  text.flatMap String.utf8EncodeChar

theorem role_char_eq_opens_iff {c : Char} : role c = .opens ↔ c = '(' := by
  simp only [role]
  grind

theorem role_char_eq_closes_iff {c : Char} : role c = .closes ↔ c = ')' := by
  simp only [role]
  grind

theorem role_char_eq_separates_iff {c : Char} : role c = .separates ↔ c = ',' := by
  simp only [role]
  grind

/-- Every byte from `0x80` on is plain. -/
theorem role_byte_of_le {b : UInt8} (h : 0x80 ≤ b.toNat) : role b = .plain := by
  have ne : ∀ k : UInt8, k.toNat < 0x80 → b ≠ k := by
    rintro k hk rfl
    omega
  simp only [role, ne 0x28 (by decide), ne 0x29 (by decide), ne 0x2C (by decide), if_false]

/-- A byte with one of the lead or continuation marks of a longer encoding is plain. -/
theorem role_byte_or {mark : UInt8} (h : 0x80 ≤ mark.toNat) (b : UInt8) :
    role (b ||| mark) = .plain := by
  refine role_byte_of_le (Nat.le_trans h ?_)
  rw [UInt8.toNat_or]
  exact Nat.right_le_or

/-- No byte of a plain character is a parenthesis or a comma. -/
theorem role_of_mem_utf8EncodeChar {c : Char} (h : role c = .plain) {b : UInt8}
    (hb : b ∈ String.utf8EncodeChar c) : role b = .plain := by
  obtain h1 | h2 | h3 | h4 := Char.utf8Size_eq c
  · have hsize : c.val.toNat ≤ 127 := UInt32.le_iff_toNat_le.mp (Char.utf8Size_eq_one_iff.mp h1)
    rw [String.utf8EncodeChar_eq_singleton h1, List.mem_singleton] at hb
    have ne : ∀ d : Char, d.val.toNat ≤ 127 → c ≠ d → b ≠ d.val.toUInt8 := by
      intro d hd hcd hbd
      have := congrArg UInt8.toNat (hb.symm.trans hbd)
      rw [UInt32.toNat_toUInt8, UInt32.toNat_toUInt8] at this
      exact hcd (Char.ext (UInt32.toNat_inj.mp (by omega)))
    have hopens : c ≠ '(' := fun e => by simp [role_char_eq_opens_iff.mpr e] at h
    have hcloses : c ≠ ')' := fun e => by simp [role_char_eq_closes_iff.mpr e] at h
    have hcomma : c ≠ ',' := fun e => by simp [role_char_eq_separates_iff.mpr e] at h
    have h28 : b ≠ 0x28 := ne '(' (by decide) hopens
    have h29 : b ≠ 0x29 := ne ')' (by decide) hcloses
    have h2C : b ≠ 0x2C := ne ',' (by decide) hcomma
    simp only [role, h28, h29, h2C, if_false]
  · rw [String.utf8EncodeChar_eq_cons_cons h2] at hb
    simp only [List.mem_cons, List.not_mem_nil, or_false] at hb
    rcases hb with rfl | rfl <;> exact role_byte_or (by decide) _
  · rw [String.utf8EncodeChar_eq_cons_cons_cons h3] at hb
    simp only [List.mem_cons, List.not_mem_nil, or_false] at hb
    rcases hb with rfl | rfl | rfl <;> exact role_byte_or (by decide) _
  · rw [String.utf8EncodeChar_eq_cons_cons_cons_cons h4] at hb
    simp only [List.mem_cons, List.not_mem_nil, or_false] at hb
    rcases hb with rfl | rfl | rfl | rfl <;> exact role_byte_or (by decide) _

@[simp] theorem utf8_nil : utf8 [] = [] := rfl

@[simp] theorem utf8_cons (c : Char) (text : List Char) :
    utf8 (c :: text) = String.utf8EncodeChar c ++ utf8 text := rfl

@[simp] theorem utf8_append (s t : List Char) : utf8 (s ++ t) = utf8 s ++ utf8 t :=
  List.flatMap_append

end FuncType
