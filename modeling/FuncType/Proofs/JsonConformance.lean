import FuncType.Proofs.JsonSpellings

/-!
# The JSON values that are accepted

Whether a value can be read as a record is a matter of its form: an object in which the required fields
are there, and those that are there conform in their turn, or a list of conforming fields.
`Parameter.Conforms`, `Signature.Conforms` and `Mode.Conforms` say so without naming the record that is
read. Readers accept exactly the values that conform (`Parameter.accepts`, `Signature.accepts`,
`Mode.accepts`).
-/

namespace FuncType

variable {α β γ : Type}

/-! ## Conforming values -/

/-- The values that conform to a record of two fields. -/
inductive ConformsToPair (key : String) (First : Json → Prop) (key' : String) (Second : Json → Prop) :
    Json → Prop where
  /-- An object in which both fields are there and conform, next to any other members. -/
  | object {members : List (String × Json)} {x y : Json} (hx : (key, x) ∈ members)
      (hy : (key', y) ∈ members) (hfirst : First x) (hsecond : Second y) :
      ConformsToPair key First key' Second (.object members)
  /-- The list of the two fields. -/
  | list {x y : Json} (hfirst : First x) (hsecond : Second y) :
      ConformsToPair key First key' Second (.array [x, y])

/-- The values that conform to a record of one field that may be left out. -/
inductive ConformsToOptional (key : String) (First : Json → Prop) : Json → Prop where
  /-- An object in which the field conforms if it is there. -/
  | object {members : List (String × Json)} (hfirst : ∀ x, (key, x) ∈ members → First x) :
      ConformsToOptional key First (.object members)
  /-- The list without the field. -/
  | empty : ConformsToOptional key First (.array [])
  /-- The list with the field. -/
  | list {x : Json} (hfirst : First x) : ConformsToOptional key First (.array [x])

/-- The texts. -/
def Json.IsString (value : Json) : Prop :=
  ∃ text, value = .string text

/-- The truth values. -/
def Json.IsBoolean (value : Json) : Prop :=
  ∃ truth, value = .boolean truth

/-- The lists whose items conform. -/
def Json.IsListOf (Item : Json → Prop) (value : Json) : Prop :=
  ∃ items, value = .array items ∧ ∀ item ∈ items, Item item

/-- The values that conform to a parameter. -/
def Parameter.Conforms : Json → Prop :=
  ConformsToPair "name" Json.IsString "type" Json.IsString

/-- The values that conform to a signature. -/
def Signature.Conforms : Json → Prop :=
  ConformsToPair "params" (Json.IsListOf Parameter.Conforms) "returns" Json.IsString

/-- The values that conform to the options of a reader. -/
def Mode.Conforms : Json → Prop :=
  ConformsToOptional "strict" Json.IsBoolean

/-! ## Accepting readers -/

/-- A reader reads something from the conforming values, and refuses all others. -/
def Accepts (read : Json → Except DecodeError α) (Conforms : Json → Prop) : Prop :=
  ∀ value, value.DistinctKeys → ((∃ a, read value = .ok a) ↔ Conforms value)

theorem Accepts.exists_error_iff {read : Json → Except DecodeError α} {Conforms : Json → Prop}
    (h : Accepts read Conforms) {value : Json} (hvalue : value.DistinctKeys) :
    (∃ e, read value = .error e) ↔ ¬Conforms value := by
  rw [← h value hvalue]
  cases read value <;> simp

theorem accepts_string : Accepts Json.asString Json.IsString := by
  intro value _
  cases value <;> simp [Json.asString, Json.IsString]

theorem accepts_boolean : Accepts Json.asBoolean Json.IsBoolean := by
  intro value _
  cases value <;> simp [Json.asBoolean, Json.IsBoolean]

theorem exists_mapM_eq_ok_iff {read : Json → Except DecodeError α} {items : List Json} :
    (∃ as, items.mapM read = .ok as) ↔ ∀ item ∈ items, ∃ a, read item = .ok a := by
  induction items with
  | nil => exact iff_of_true ⟨[], rfl⟩ (by simp)
  | cons item more ih =>
    rw [List.forall_mem_cons, ← ih]
    simp only [List.mapM_cons, bind_eq_ok_iff]
    constructor
    · rintro ⟨_, a, hitem, as, hmore, -⟩
      exact ⟨⟨a, hitem⟩, as, hmore⟩
    · rintro ⟨⟨a, hitem⟩, as, hmore⟩
      exact ⟨a :: as, a, hitem, as, hmore, rfl⟩

theorem accepts_list {read : Json → Except DecodeError α} {Conforms : Json → Prop}
    (h : Accepts read Conforms) : Accepts (Json.asList read) (Json.IsListOf Conforms) := by
  intro value hvalue
  cases hvalue with
  | array hitems =>
    rename_i items
    calc (∃ as, items.mapM read = .ok as)
        ↔ ∀ item ∈ items, ∃ a, read item = .ok a := exists_mapM_eq_ok_iff
      _ ↔ ∀ item ∈ items, Conforms item := forall₂_congr fun item hitem => h item (hitems item hitem)
      _ ↔ Json.IsListOf Conforms (.array items) := by simp [Json.IsListOf]
  | _ => exact iff_of_false (by simp [Json.asList]) (by simp [Json.IsListOf])

section Records

variable {first : Field α} {second : Field β} {First Second : Json → Prop}
  {members : List (String × Json)}

/-- A field is read from an object if it is there and conforms. -/
theorem Field.exists_readMember_eq_some_iff (h : Accepts first.read First)
    (hnodup : (members.map Prod.fst).Nodup) (hvalues : ∀ member ∈ members, member.2.DistinctKeys) :
    (∃ a, first.readMember members = .ok (some a)) ↔ ∃ x, (first.key, x) ∈ members ∧ First x := by
  constructor
  · rintro ⟨a, ha⟩
    obtain ⟨x, hlookup, hx⟩ := Field.readMember_eq_some_iff.mp ha
    have hmem := mem_of_lookup hlookup
    exact ⟨x, hmem, (h x (hvalues _ hmem)).mp ⟨a, hx⟩⟩
  · rintro ⟨x, hmem, hx⟩
    obtain ⟨a, ha⟩ := (h x (hvalues _ hmem)).mpr hx
    exact ⟨a, Field.readMember_eq_some_iff.mpr ⟨x, (lookup_eq_some_iff_mem hnodup).mpr hmem, ha⟩⟩

theorem accepts_pair (hfirst : Accepts first.read First) (hsecond : Accepts second.read Second)
    (record : RecordName) (make : α → β → γ) :
    Accepts (readPair record first second make) (ConformsToPair first.key First second.key Second) := by
  intro value hvalue
  cases hvalue with
  | object hnodup hvalues =>
    have hmember := Field.exists_readMember_eq_some_iff hfirst hnodup hvalues
    have hmember' := Field.exists_readMember_eq_some_iff hsecond hnodup hvalues
    constructor
    · rintro ⟨c, hread⟩
      obtain ⟨a, b, ha, hb, -⟩ := readPair_object_eq_ok_iff.mp hread
      obtain ⟨x, hx, hconforms⟩ := hmember.mp ⟨a, ha⟩
      obtain ⟨y, hy, hconforms'⟩ := hmember'.mp ⟨b, hb⟩
      exact .object hx hy hconforms hconforms'
    · rintro (⟨hx, hy, hconforms, hconforms'⟩ | _)
      obtain ⟨a, ha⟩ := hmember.mpr ⟨_, hx, hconforms⟩
      obtain ⟨b, hb⟩ := hmember'.mpr ⟨_, hy, hconforms'⟩
      exact ⟨make a b, readPair_object_eq_ok_iff.mpr ⟨a, b, ha, hb, rfl⟩⟩
  | array hitems =>
    constructor
    · rintro ⟨c, hread⟩
      obtain ⟨x, y, a, b, rfl, hx, hy, -⟩ := readPair_array_eq_ok_iff.mp hread
      exact .list ((hfirst x (hitems x (by simp))).mp ⟨a, hx⟩)
        ((hsecond y (hitems y (by simp))).mp ⟨b, hy⟩)
    · rintro (_ | ⟨hconforms, hconforms'⟩)
      obtain ⟨a, ha⟩ := (hfirst _ (hitems _ (by simp))).mpr hconforms
      obtain ⟨b, hb⟩ := (hsecond _ (hitems _ (by simp))).mpr hconforms'
      exact ⟨make a b, readPair_array_eq_ok_iff.mpr ⟨_, _, a, b, rfl, ha, hb, rfl⟩⟩
  | _ => exact iff_of_false (by rintro ⟨c, hread⟩; cases hread) (by rintro ⟨⟩)

theorem accepts_optional (hfirst : Accepts first.read First) (record : RecordName)
    (make : Option α → γ) :
    Accepts (readOptional record first make) (ConformsToOptional first.key First) := by
  intro value hvalue
  cases hvalue with
  | object hnodup hvalues =>
    rename_i members
    have hmember := Field.exists_readMember_eq_some_iff hfirst hnodup hvalues
    constructor
    · rintro ⟨c, hread⟩
      obtain ⟨a?, ha, -⟩ := readOptional_object_eq_ok_iff.mp hread
      refine .object fun x hx => ?_
      have hlookup := (lookup_eq_some_iff_mem hnodup).mpr hx
      cases a? with
      | none =>
        rw [Field.readMember_eq_none_iff.mp ha] at hlookup
        cases hlookup
      | some a =>
        -- the keys are distinct, so what was read is `x`
        obtain ⟨y, hy, hconforms⟩ := hmember.mp ⟨a, ha⟩
        rw [(lookup_eq_some_iff_mem hnodup).mpr hy] at hlookup
        rwa [← Option.some.inj hlookup]
    · rintro (hconforms | _ | _)
      cases hlookup : members.lookup first.key with
      | none =>
        exact ⟨make none, readOptional_object_eq_ok_iff.mpr
          ⟨none, Field.readMember_eq_none_iff.mpr hlookup, rfl⟩⟩
      | some x =>
        have hx := mem_of_lookup hlookup
        obtain ⟨a, ha⟩ := hmember.mpr ⟨x, hx, hconforms x hx⟩
        exact ⟨make (some a), readOptional_object_eq_ok_iff.mpr ⟨some a, ha, rfl⟩⟩
  | array hitems =>
    constructor
    · rintro ⟨c, hread⟩
      obtain ⟨rfl, -⟩ | ⟨x, a, rfl, hx, -⟩ := readOptional_array_eq_ok_iff.mp hread
      · exact .empty
      · exact .list ((hfirst x (hitems x (by simp))).mp ⟨a, hx⟩)
    · rintro (_ | _ | hconforms)
      · exact ⟨make none, readOptional_array_eq_ok_iff.mpr (Or.inl ⟨rfl, rfl⟩)⟩
      · obtain ⟨a, ha⟩ := (hfirst _ (hitems _ (by simp))).mpr hconforms
        exact ⟨make (some a), readOptional_array_eq_ok_iff.mpr (Or.inr ⟨_, a, rfl, ha, rfl⟩)⟩
  | _ => exact iff_of_false (by rintro ⟨c, hread⟩; cases hread) (by rintro ⟨⟩)

end Records

/-! ## Parameters, signatures and modes -/

theorem Parameter.accepts : Accepts Parameter.ofJson Parameter.Conforms :=
  accepts_pair accepts_string accepts_string .parameter Parameter.mk

theorem Signature.accepts : Accepts Signature.ofJson Signature.Conforms :=
  accepts_pair (accepts_list Parameter.accepts) accepts_string .signature Signature.mk

theorem Mode.accepts : Accepts Mode.ofJson Mode.Conforms :=
  accepts_optional accepts_boolean .options _

end FuncType
