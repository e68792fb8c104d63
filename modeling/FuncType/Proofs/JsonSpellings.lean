import FuncType.Json.Codec
import Mathlib.Data.List.Forall2
import Mathlib.Data.List.Nodup
import Mathlib.Data.List.Perm.Basic

/-!
# The JSON values that a record is read from

What is stored can be spelled in many ways. A record is an object with its fields and any other members,
in any order, or the list of its fields; and the parameters of a signature may differ in their spelling
from the signature and from one another. The relations `Parameter.Spelling`, `Signature.Spelling` and
`Mode.Spelling` say so without a reader. Reading gives a record exactly for its spellings, the one that is
written among them (`ofJson_eq_ok_iff_spelling`); so no value spells two records.

An object is looked up by key, so for the way from what is read to a spelling the keys of each object
must be distinct (`Json.DistinctKeys`).
-/

namespace FuncType

variable {α β γ : Type}

/-- A value in which no object has two members under the same key. -/
inductive Json.DistinctKeys : Json → Prop where
  | null : DistinctKeys .null
  | boolean (value : Bool) : DistinctKeys (.boolean value)
  | integer (value : Int) : DistinctKeys (.integer value)
  | decimal (digits : Int) (places : Nat) : DistinctKeys (.decimal digits places)
  | string (value : String) : DistinctKeys (.string value)
  | array {items : List Json} (hitems : ∀ item ∈ items, DistinctKeys item) :
      DistinctKeys (.array items)
  | object {members : List (String × Json)} (hkeys : (members.map Prod.fst).Nodup)
      (hvalues : ∀ member ∈ members, DistinctKeys member.2) : DistinctKeys (.object members)

/-! ## Spellings -/

/-- The values that hold the fields of a record, each with its key and its value. -/
inductive SpellsRecord (fields : List (String × Json)) : Json → Prop where
  /-- The list of the values, in the order of the fields. -/
  | list : SpellsRecord fields (.array (fields.map Prod.snd))
  /-- An object with the fields and with other members under other keys, in any order. -/
  | object {members others : List (String × Json)} (hmembers : members.Perm (fields ++ others))
      (hothers : ∀ member ∈ others, member.1 ∉ fields.map Prod.fst) :
      SpellsRecord fields (.object members)

/-- The values that hold no field of a record whose only field has the key `key`. -/
inductive LeavesOut (key : String) : Json → Prop where
  /-- The empty list. -/
  | list : LeavesOut key (.array [])
  /-- An object with members under other keys only. -/
  | object {members : List (String × Json)} (hothers : ∀ member ∈ members, member.1 ≠ key) :
      LeavesOut key (.object members)

/-- The spellings of a parameter. -/
def Parameter.Spelling (p : Parameter) : Json → Prop :=
  SpellsRecord [("name", .string p.name), ("type", .string p.type)]

/-- The spellings of a signature: each of its parameters is spelled in any way. -/
def Signature.Spelling (s : Signature) (value : Json) : Prop :=
  ∃ items, List.Forall₂ Parameter.Spelling s.params items ∧
    SpellsRecord [("params", .array items), ("returns", .string s.returns)] value

/-- The spellings of a mode: strict reading need not be asked for. -/
inductive Mode.Spelling : Mode → Json → Prop where
  /-- The value tells whether the mode is the strict one. -/
  | given {mode : Mode} {value : Json} (h : SpellsRecord [("strict", .boolean mode.isStrict)] value) :
      Spelling mode value
  /-- The value tells nothing. -/
  | leftOut {value : Json} (h : LeavesOut "strict" value) : Spelling .strict value

/-- A reader reads each thing from all its spellings, and from no other values. -/
structure ReadsSpellings (read : Json → Except DecodeError α) (Spells : α → Json → Prop) : Prop where
  read_eq : ∀ {a : α} {v : Json}, Spells a v → read v = .ok a
  spells : ∀ {a : α} {v : Json}, v.DistinctKeys → read v = .ok a → Spells a v

/-! ## Members of objects -/

section Members

variable {fields members : List (String × Json)} {key : String} {value : Json}

theorem mem_of_lookup (h : members.lookup key = some value) : (key, value) ∈ members := by
  obtain ⟨front, back, rfl, -⟩ := List.lookup_eq_some_iff.mp h
  simp

theorem lookup_eq_none_iff_ne : members.lookup key = none ↔ ∀ member ∈ members, member.1 ≠ key := by
  rw [List.lookup_eq_none_iff]
  simp only [bne_iff_ne, ne_comm]

/-- Members with distinct keys are found under their keys. -/
theorem lookup_eq_some_iff_mem (h : (members.map Prod.fst).Nodup) :
    members.lookup key = some value ↔ (key, value) ∈ members := by
  refine ⟨mem_of_lookup, fun hmem => ?_⟩
  cases hlookup : members.lookup key with
  | none => exact absurd rfl (lookup_eq_none_iff_ne.mp hlookup _ hmem)
  | some other =>
    have heq := List.inj_on_of_nodup_map h (mem_of_lookup hlookup) hmem rfl
    rw [(Prod.mk.inj heq).2]

/-- The fields that a spelling holds are found under their keys, if these are distinct. -/
theorem lookup_of_perm {others : List (String × Json)} (hfields : (fields.map Prod.fst).Nodup)
    (hmembers : members.Perm (fields ++ others))
    (hothers : ∀ member ∈ others, member.1 ∉ fields.map Prod.fst) (hmem : (key, value) ∈ fields) :
    members.lookup key = some value := by
  cases hlookup : members.lookup key with
  | none =>
    have hmem' : (key, value) ∈ members := hmembers.mem_iff.mpr (List.mem_append_left others hmem)
    exact absurd rfl (lookup_eq_none_iff_ne.mp hlookup _ hmem')
  | some other =>
    rcases List.mem_append.mp (hmembers.mem_iff.mp (mem_of_lookup hlookup)) with hfield | hother
    · have heq := List.inj_on_of_nodup_map hfields hfield hmem rfl
      rw [(Prod.mk.inj heq).2]
    · have hkey : key ∈ fields.map Prod.fst := List.mem_map_of_mem (f := Prod.fst) hmem
      exact absurd hkey (hothers _ hother)

/-- Members with distinct keys among which there are the fields are the fields and others. -/
theorem spellsRecord_of_subset (hkeys : (members.map Prod.fst).Nodup)
    (hfields : (fields.map Prod.fst).Nodup) (hsub : ∀ field ∈ fields, field ∈ members) :
    SpellsRecord fields (.object members) := by
  let declared : String × Json → Bool := fun member => decide (member.1 ∈ fields.map Prod.fst)
  have hperm : (members.filter declared).Perm fields := by
    rw [List.perm_ext_iff_of_nodup (hkeys.of_map.filter declared) hfields.of_map]
    intro member
    rw [List.mem_filter, decide_eq_true_eq]
    constructor
    · rintro ⟨hmem, hdeclared⟩
      obtain ⟨field, hfield, hkey⟩ := List.mem_map.mp hdeclared
      rwa [← List.inj_on_of_nodup_map hkeys (hsub field hfield) hmem hkey]
    · intro hfield
      exact ⟨hsub member hfield, List.mem_map_of_mem hfield⟩
  have hmembers : members.Perm (fields ++ members.filter fun member => !declared member) :=
    (List.filter_append_perm declared members).symm.trans (hperm.append_right _)
  refine .object hmembers fun member hmem => ?_
  simpa [declared] using (List.mem_filter.mp hmem).2

end Members

/-! ## Readers -/

theorem readsSpellings_string :
    ReadsSpellings Json.asString fun text value => value = .string text where
  read_eq := by
    rintro text value rfl
    rfl
  spells := by
    intro text value _ h
    cases value <;> cases h
    rfl

theorem readsSpellings_boolean :
    ReadsSpellings Json.asBoolean fun truth value => value = .boolean truth where
  read_eq := by
    rintro truth value rfl
    rfl
  spells := by
    intro truth value _ h
    cases value <;> cases h
    rfl

theorem bind_eq_ok_iff {x : Except DecodeError α} {f : α → Except DecodeError β} {b : β} :
    x >>= f = .ok b ↔ ∃ a, x = .ok a ∧ f a = .ok b := by
  cases x with
  | error e => exact iff_of_false (fun h => nomatch h) (by simp)
  | ok a => simp [bind, Except.bind]

section Lists

variable {read : Json → Except DecodeError α} {Spells : α → Json → Prop}

theorem mapM_eq_ok_iff {items : List Json} {as : List α} :
    items.mapM read = .ok as ↔ List.Forall₂ (fun a item => read item = .ok a) as items := by
  induction items generalizing as with
  | nil =>
    cases as with
    | nil => exact iff_of_true rfl .nil
    | cons a more => exact iff_of_false (by simp [pure, Except.pure]) (fun h => nomatch h)
  | cons item rest ih =>
    simp only [List.mapM_cons, bind_eq_ok_iff, List.forall₂_cons_right_iff, ih]
    constructor
    · rintro ⟨a, hitem, more, hrest, has⟩
      exact ⟨a, more, hitem, hrest, (Except.ok.inj has).symm⟩
    · rintro ⟨a, more, hitem, hrest, rfl⟩
      exact ⟨a, hitem, more, hrest, rfl⟩

theorem forall₂_spells (h : ReadsSpellings read Spells) {items : List Json} {as : List α}
    (hitems : ∀ item ∈ items, item.DistinctKeys)
    (hread : List.Forall₂ (fun a item => read item = .ok a) as items) :
    List.Forall₂ Spells as items := by
  induction hread with
  | nil => exact .nil
  | cons hitem _ ih =>
    obtain ⟨hfirst, hmore⟩ := List.forall_mem_cons.mp hitems
    exact .cons (h.spells hfirst hitem) (ih hmore)

theorem readsSpellings_list (h : ReadsSpellings read Spells) :
    ReadsSpellings (Json.asList read) fun as value =>
      ∃ items, value = .array items ∧ List.Forall₂ Spells as items where
  read_eq := by
    rintro as value ⟨items, rfl, hitems⟩
    exact mapM_eq_ok_iff.mpr (hitems.imp fun _ _ => h.read_eq)
  spells := by
    intro as value hvalue hread
    cases value with
    | array items =>
      cases hvalue with
      | array hitems =>
        exact ⟨items, rfl, forall₂_spells h hitems (mapM_eq_ok_iff.mp hread)⟩
    | _ => cases hread

end Lists

section Records

variable {first : Field α} {second : Field β} {SpellsFirst : α → Json → Prop}
  {SpellsSecond : β → Json → Prop} {members : List (String × Json)} {record : RecordName}

theorem Field.readMember_eq_some_iff {a : α} :
    first.readMember members = .ok (some a) ↔
      ∃ value, members.lookup first.key = some value ∧ first.read value = .ok a := by
  unfold Field.readMember
  cases members.lookup first.key with
  | none => simp
  | some value =>
    cases hread : first.read value <;> simp [Functor.map, Except.map, hread]

theorem Field.readMember_eq_none_iff :
    first.readMember members = .ok none ↔ members.lookup first.key = none := by
  unfold Field.readMember
  cases members.lookup first.key with
  | none => simp
  | some value =>
    cases hread : first.read value <;> simp [Functor.map, Except.map, hread]

theorem readPair_object_eq_ok_iff {make : α → β → γ} {c : γ} :
    readPair record first second make (.object members) = .ok c ↔
      ∃ a b, first.readMember members = .ok (some a) ∧ second.readMember members = .ok (some b) ∧
        make a b = c := by
  rw [readPair]
  simp only [bind_eq_ok_iff]
  constructor
  · rintro ⟨a?, ha, b?, hb, h⟩
    cases a? with
    | none => cases h
    | some a =>
      cases b? with
      | none => cases h
      | some b => exact ⟨a, b, ha, hb, Except.ok.inj h⟩
  · rintro ⟨a, b, ha, hb, rfl⟩
    exact ⟨some a, ha, some b, hb, rfl⟩

theorem readPair_array_eq_ok_iff {items : List Json} {make : α → β → γ} {c : γ} :
    readPair record first second make (.array items) = .ok c ↔
      ∃ x y a b, items = [x, y] ∧ first.read x = .ok a ∧ second.read y = .ok b ∧ make a b = c := by
  match items with
  | [] => exact iff_of_false (fun h => nomatch h) (by simp)
  | [x] =>
    simp only [readPair, bind_eq_ok_iff]
    exact iff_of_false (by simp [throw, throwThe, MonadExceptOf.throw]) (by simp)
  | [x, y] =>
    simp only [readPair, bind_eq_ok_iff]
    constructor
    · rintro ⟨a, ha, b, hb, h⟩
      exact ⟨x, y, a, b, rfl, ha, hb, Except.ok.inj h⟩
    · rintro ⟨x', y', a, b, hitems, ha, hb, rfl⟩
      cases hitems
      exact ⟨a, ha, b, hb, rfl⟩
  | x :: y :: z :: more =>
    simp only [readPair, bind_eq_ok_iff]
    exact iff_of_false (by simp [throw, throwThe, MonadExceptOf.throw]) (by simp)

/-- A record of two fields is read from its spellings if the fields are. -/
theorem readsSpellings_pair (hfirst : ReadsSpellings first.read SpellsFirst)
    (hsecond : ReadsSpellings second.read SpellsSecond) (hkeys : first.key ≠ second.key)
    (record : RecordName) (make : α → β → γ) :
    ReadsSpellings (readPair record first second make) fun c value =>
      ∃ a b x y, make a b = c ∧ SpellsFirst a x ∧ SpellsSecond b y ∧
        SpellsRecord [(first.key, x), (second.key, y)] value where
  read_eq := by
    rintro c value ⟨a, b, x, y, rfl, hx, hy, hvalue⟩
    cases hvalue with
    | list =>
      exact readPair_array_eq_ok_iff.mpr
        ⟨x, y, a, b, rfl, hfirst.read_eq hx, hsecond.read_eq hy, rfl⟩
    | object hmembers hothers =>
      have hnodup : ([(first.key, x), (second.key, y)].map Prod.fst).Nodup := by simpa using hkeys
      have hlookup := lookup_of_perm hnodup hmembers hothers List.mem_cons_self
      have hlookup' := lookup_of_perm hnodup hmembers hothers
        (List.mem_cons_of_mem _ List.mem_cons_self)
      refine readPair_object_eq_ok_iff.mpr ⟨a, b, ?_, ?_, rfl⟩
      · exact Field.readMember_eq_some_iff.mpr ⟨x, hlookup, hfirst.read_eq hx⟩
      · exact Field.readMember_eq_some_iff.mpr ⟨y, hlookup', hsecond.read_eq hy⟩
  spells := by
    intro c value hvalue hread
    cases hvalue with
    | array hitems =>
      obtain ⟨x, y, a, b, rfl, hx, hy, rfl⟩ := readPair_array_eq_ok_iff.mp hread
      refine ⟨a, b, x, y, rfl, hfirst.spells (hitems x (by simp)) hx,
        hsecond.spells (hitems y (by simp)) hy, .list⟩
    | object hnodup hvalues =>
      obtain ⟨a, b, ha, hb, rfl⟩ := readPair_object_eq_ok_iff.mp hread
      obtain ⟨x, hlookup, hx⟩ := Field.readMember_eq_some_iff.mp ha
      obtain ⟨y, hlookup', hy⟩ := Field.readMember_eq_some_iff.mp hb
      have hmem := mem_of_lookup hlookup
      have hmem' := mem_of_lookup hlookup'
      refine ⟨a, b, x, y, rfl, hfirst.spells (hvalues _ hmem) hx, hsecond.spells (hvalues _ hmem') hy, ?_⟩
      refine spellsRecord_of_subset hnodup (by simpa using hkeys) ?_
      simp [hmem, hmem']
    | _ => cases hread

theorem readOptional_object_eq_ok_iff {make : Option α → γ} {c : γ} :
    readOptional record first make (.object members) = .ok c ↔
      ∃ a?, first.readMember members = .ok a? ∧ make a? = c := by
  rw [readOptional]
  cases first.readMember members <;> simp [Functor.map, Except.map]

theorem readOptional_array_eq_ok_iff {items : List Json} {make : Option α → γ} {c : γ} :
    readOptional record first make (.array items) = .ok c ↔
      (items = [] ∧ make none = c) ∨
        ∃ x a, items = [x] ∧ first.read x = .ok a ∧ make (some a) = c := by
  match items with
  | [] => simp [readOptional, pure, Except.pure]
  | [x] =>
    simp only [readOptional, bind_eq_ok_iff]
    constructor
    · rintro ⟨a, ha, h⟩
      exact Or.inr ⟨x, a, rfl, ha, Except.ok.inj h⟩
    · rintro (⟨hitems, -⟩ | ⟨x', a, hitems, ha, rfl⟩)
      · cases hitems
      · cases hitems
        exact ⟨a, ha, rfl⟩
  | x :: y :: more =>
    simp only [readOptional, bind_eq_ok_iff]
    exact iff_of_false (by simp [throw, throwThe, MonadExceptOf.throw]) (by simp)

/-- A record of one field that may be left out is read from its spellings if the field is. -/
theorem readsSpellings_optional (hfirst : ReadsSpellings first.read SpellsFirst)
    (record : RecordName) (make : Option α → γ) :
    ReadsSpellings (readOptional record first make) fun c value =>
      (∃ a x, make (some a) = c ∧ SpellsFirst a x ∧ SpellsRecord [(first.key, x)] value) ∨
        (make none = c ∧ LeavesOut first.key value) where
  read_eq := by
    rintro c value (⟨a, x, rfl, hx, hvalue⟩ | ⟨rfl, hvalue⟩)
    · cases hvalue with
      | list =>
        exact readOptional_array_eq_ok_iff.mpr (Or.inr ⟨x, a, rfl, hfirst.read_eq hx, rfl⟩)
      | object hmembers hothers =>
        have hlookup := lookup_of_perm (by simp) hmembers hothers List.mem_cons_self
        refine readOptional_object_eq_ok_iff.mpr ⟨some a, ?_, rfl⟩
        exact Field.readMember_eq_some_iff.mpr ⟨x, hlookup, hfirst.read_eq hx⟩
    · cases hvalue with
      | list => exact readOptional_array_eq_ok_iff.mpr (Or.inl ⟨rfl, rfl⟩)
      | object hothers =>
        refine readOptional_object_eq_ok_iff.mpr ⟨none, ?_, rfl⟩
        exact Field.readMember_eq_none_iff.mpr (lookup_eq_none_iff_ne.mpr hothers)
  spells := by
    intro c value hvalue hread
    cases hvalue with
    | array hitems =>
      obtain ⟨rfl, rfl⟩ | ⟨x, a, rfl, hx, rfl⟩ := readOptional_array_eq_ok_iff.mp hread
      · exact Or.inr ⟨rfl, .list⟩
      · exact Or.inl ⟨a, x, rfl, hfirst.spells (hitems x List.mem_cons_self) hx, .list⟩
    | object hnodup hvalues =>
      obtain ⟨a?, ha, rfl⟩ := readOptional_object_eq_ok_iff.mp hread
      cases a? with
      | none =>
        have hlookup := Field.readMember_eq_none_iff.mp ha
        exact Or.inr ⟨rfl, .object (lookup_eq_none_iff_ne.mp hlookup)⟩
      | some a =>
        obtain ⟨x, hlookup, hx⟩ := Field.readMember_eq_some_iff.mp ha
        have hmem := mem_of_lookup hlookup
        refine Or.inl ⟨a, x, rfl, hfirst.spells (hvalues _ hmem) hx, ?_⟩
        exact spellsRecord_of_subset hnodup (by simp) (by simpa using hmem)
    | _ => cases hread

end Records

/-! ## Parameters, signatures and modes -/

theorem ReadsSpellings.congr {read : Json → Except DecodeError α} {Spells Spells' : α → Json → Prop}
    (h : ReadsSpellings read Spells) (hiff : ∀ a v, Spells a v ↔ Spells' a v) :
    ReadsSpellings read Spells' where
  read_eq := fun hspells => h.read_eq ((hiff _ _).mpr hspells)
  spells := fun hvalue hread => (hiff _ _).mp (h.spells hvalue hread)

theorem Parameter.readsSpellings : ReadsSpellings ofJson Spelling := by
  have hpair : ReadsSpellings ofJson _ :=
    readsSpellings_pair readsSpellings_string readsSpellings_string (by decide) .parameter Parameter.mk
  refine hpair.congr fun p value => ?_
  constructor
  · rintro ⟨name, type, x, y, rfl, rfl, rfl, hvalue⟩
    exact hvalue
  · intro hvalue
    exact ⟨p.name, p.type, _, _, rfl, rfl, rfl, hvalue⟩

theorem Signature.readsSpellings : ReadsSpellings ofJson Spelling := by
  have hpair : ReadsSpellings ofJson _ :=
    readsSpellings_pair (readsSpellings_list Parameter.readsSpellings) readsSpellings_string (by decide)
      .signature Signature.mk
  refine hpair.congr fun s value => ?_
  constructor
  · rintro ⟨params, returns, x, y, rfl, ⟨items, rfl, hitems⟩, rfl, hvalue⟩
    exact ⟨items, hitems, hvalue⟩
  · rintro ⟨items, hitems, hvalue⟩
    exact ⟨s.params, s.returns, _, _, rfl, ⟨items, rfl, hitems⟩, rfl, hvalue⟩

theorem Mode.ofStrict_isStrict (mode : Mode) : ofStrict mode.isStrict = mode := by
  cases mode <;> rfl

theorem Mode.isStrict_ofStrict (strict : Bool) : (ofStrict strict).isStrict = strict := by
  cases strict <;> rfl

theorem Mode.readsSpellings : ReadsSpellings ofJson Spelling := by
  have hoptional : ReadsSpellings ofJson _ :=
    readsSpellings_optional readsSpellings_boolean .options fun strict? => ofStrict (strict?.getD true)
  refine hoptional.congr fun mode value => ?_
  constructor
  · rintro (⟨truth, x, rfl, rfl, hvalue⟩ | ⟨rfl, hvalue⟩)
    · refine .given ?_
      rwa [Option.getD_some, isStrict_ofStrict]
    · exact .leftOut hvalue
  · rintro (hvalue | hvalue)
    · exact Or.inl ⟨mode.isStrict, _, ofStrict_isStrict mode, rfl, hvalue⟩
    · exact Or.inr ⟨rfl, hvalue⟩

/-! ## What is written is a spelling -/

theorem spellsRecord_fields (fields : List (String × Json)) : SpellsRecord fields (.object fields) := by
  have hperm : fields.Perm (fields ++ []) := by rw [List.append_nil]
  exact .object hperm (by simp)

theorem Parameter.spelling_toJson (p : Parameter) : p.Spelling p.toJson :=
  spellsRecord_fields _

theorem Signature.spelling_toJson (s : Signature) : s.Spelling s.toJson := by
  refine ⟨s.params.map Parameter.toJson, ?_, spellsRecord_fields _⟩
  rw [List.forall₂_map_right_iff, List.forall₂_same]
  exact fun p _ => p.spelling_toJson

theorem Mode.spelling_toJson (mode : Mode) : mode.Spelling mode.toJson :=
  .given (spellsRecord_fields _)

/-- Signatures, parameters and modes are read from what they are written as, from all their other
spellings, too, and from nothing else. -/
theorem ofJson_eq_ok_iff_spelling :
    (∀ s : Signature, Signature.ofJson s.toJson = .ok s ∧
      (∀ value, s.Spelling value → Signature.ofJson value = .ok s) ∧
      ∀ value : Json, value.DistinctKeys → Signature.ofJson value = .ok s → s.Spelling value) ∧
    (∀ p : Parameter, Parameter.ofJson p.toJson = .ok p ∧
      (∀ value, p.Spelling value → Parameter.ofJson value = .ok p) ∧
      ∀ value : Json, value.DistinctKeys → Parameter.ofJson value = .ok p → p.Spelling value) ∧
    ∀ mode : Mode, Mode.ofJson mode.toJson = .ok mode ∧
      (∀ value, mode.Spelling value → Mode.ofJson value = .ok mode) ∧
      ∀ value : Json, value.DistinctKeys → Mode.ofJson value = .ok mode → mode.Spelling value := by
  refine ⟨fun s => ⟨?_, fun value => Signature.readsSpellings.read_eq, fun value =>
      Signature.readsSpellings.spells⟩,
    fun p => ⟨?_, fun value => Parameter.readsSpellings.read_eq, fun value =>
      Parameter.readsSpellings.spells⟩,
    fun mode => ⟨?_, fun value => Mode.readsSpellings.read_eq, fun value =>
      Mode.readsSpellings.spells⟩⟩
  · exact Signature.readsSpellings.read_eq s.spelling_toJson
  · exact Parameter.readsSpellings.read_eq p.spelling_toJson
  · exact Mode.readsSpellings.read_eq mode.spelling_toJson

/-- An object with its keys out of order and one that is no field, with one parameter as a list and one as
such an object; a parameter as a list; and options that say nothing of the mode. -/
theorem ofJson_eq_ok_iff_spelling_at_mixed_forms :
    (Json.DistinctKeys (.object [("returns", .string "e"), ("more", .null),
        ("params", .array [.array [.string "a", .string "int"],
          .object [("type", .string "t"), ("more", .integer 1), ("name", .string "b")]])]) ∧
      Signature.Spelling ⟨[⟨"a", "int"⟩, ⟨"b", "t"⟩], "e"⟩
        (.object [("returns", .string "e"), ("more", .null),
          ("params", .array [.array [.string "a", .string "int"],
            .object [("type", .string "t"), ("more", .integer 1), ("name", .string "b")]])])) ∧
    (Parameter.Spelling ⟨"a", "int"⟩ (.array [.string "a", .string "int"]) ∧
      Parameter.ofJson (.array [.string "a", .string "int"]) = .ok ⟨"a", "int"⟩) ∧
    (Mode.Spelling .strict (.object [("more", .null)]) ∧
      Mode.ofJson (.object [("more", .null)]) = .ok .strict) := by
  obtain ⟨hsignature, hparameter, hmode⟩ := ofJson_eq_ok_iff_spelling
  have hlist : Json.DistinctKeys (.array [.string "a", .string "int"]) :=
    .array (by simp [Json.DistinctKeys.string])
  have hobject : Json.DistinctKeys
      (.object [("type", .string "t"), ("more", .integer 1), ("name", .string "b")]) :=
    .object (by decide) (by simp [Json.DistinctKeys.string, Json.DistinctKeys.integer])
  have hparams : Json.DistinctKeys (.array [.array [.string "a", .string "int"],
      .object [("type", .string "t"), ("more", .integer 1), ("name", .string "b")]]) :=
    .array (by simpa using ⟨hlist, hobject⟩)
  have hkeys : Json.DistinctKeys (.object [("returns", .string "e"), ("more", .null),
      ("params", .array [.array [.string "a", .string "int"],
        .object [("type", .string "t"), ("more", .integer 1), ("name", .string "b")]])]) :=
    .object (by decide) (by simp [Json.DistinctKeys.string, Json.DistinctKeys.null, hparams])
  have hfields : Parameter.Spelling ⟨"a", "int"⟩ (.array [.string "a", .string "int"]) := .list
  have hleftOut : Mode.Spelling .strict (.object [("more", .null)]) :=
    .leftOut (.object (by simp))
  exact ⟨⟨hkeys, (hsignature _).2.2 _ hkeys rfl⟩, ⟨hfields, (hparameter _).2.1 _ hfields⟩,
    hleftOut, (hmode _).2.1 _ hleftOut⟩

end FuncType
