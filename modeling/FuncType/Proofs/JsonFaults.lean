import FuncType.Proofs.JsonConformance
import Mathlib.Data.List.Sort
import Mathlib.Data.String.Basic

/-!
# Which fault of a JSON value is reported

A value can have several faults at once, at several depths. Here all of them are listed, in the order in
which they matter (`Parameter.faults`, `Signature.faults`, `Mode.faults`). In an object the members come
first, by their keys, each with the faults of its value, and then the fields that are missing, in the
order of the record; in a list the items come first, and then its length.

Reading stops at the first fault of that list, and succeeds if there is none. This is so of every step of
a reader (`ReportsFirst`), and of steps in sequence: they have the faults of both, one after the other
(`ReportsFirst.bind`). In the end a value is refused if it does not conform, and its first fault is what
is reported (`ofJson_eq_error_iff_first_fault`).
-/

namespace FuncType

variable {α β γ : Type}

/-! ## Faults in order -/

/-- A value of a kind that is not the expected one. -/
def Json.stringFaults : Json → List DecodeError
  | .string _ => []
  | other => [.wrongType other.kind .string]

/-- The faults of a value that should be a truth value. -/
def Json.booleanFaults : Json → List DecodeError
  | .boolean _ => []
  | other => [.wrongType other.kind .boolean]

/-- The faults of a value that should be a list: those of the first item, those of the second, and so
on. -/
def Json.listFaults (itemFaults : Json → List DecodeError) : Json → List DecodeError
  | .array items => items.flatMap itemFaults
  | other => [.wrongType other.kind .sequence]

/-- What a field of a record asks for. -/
structure FieldRule where
  /-- The key of the field in an object. -/
  key : String
  /-- Whether the field must be there. -/
  required : Bool
  /-- The faults of a value of the field. -/
  faults : Json → List DecodeError

/-- The faults of a member of an object, none if its key is that of no field. -/
def memberFaults (fields : List FieldRule) (member : String × Json) : List DecodeError :=
  (fields.find? fun field => field.key = member.1).elim [] fun field => field.faults member.2

/-- The required fields that an object has no member for. -/
def missingFaults (fields : List FieldRule) (members : List (String × Json)) : List DecodeError :=
  (fields.filter fun field => field.required && decide (field.key ∉ members.map Prod.fst)).map
    fun field => .missingField field.key

/-- The fault of a list with fewer items than there are required fields, or with more than there are
fields. -/
def lengthFaults (record : RecordName) (fields : List FieldRule) (length : Nat) : List DecodeError :=
  if length < (fields.filter FieldRule.required).length then [.tooShort length record]
  else if fields.length < length then [.tooLong length]
  else []

/-- Members of an object in the order of their keys. -/
def sortByKey (members : List (String × Json)) : List (String × Json) :=
  members.insertionSort fun member other => member.1 ≤ other.1

/-- The faults of a value that should be a record. -/
def recordFaults (record : RecordName) (fields : List FieldRule) : Json → List DecodeError
  | .object members => (sortByKey members).flatMap (memberFaults fields) ++ missingFaults fields members
  | .array items =>
    (List.zipWith FieldRule.faults fields items).flatten ++ lengthFaults record fields items.length
  | other => [.wrongType other.kind (.record record)]

/-- The faults of a value that should be a parameter. -/
def Parameter.faults : Json → List DecodeError :=
  recordFaults .parameter [⟨"name", true, Json.stringFaults⟩, ⟨"type", true, Json.stringFaults⟩]

/-- The faults of a value that should be a signature. -/
def Signature.faults : Json → List DecodeError :=
  recordFaults .signature
    [⟨"params", true, Json.listFaults Parameter.faults⟩, ⟨"returns", true, Json.stringFaults⟩]

/-- The faults of a value that should be the options of a reader. -/
def Mode.faults : Json → List DecodeError :=
  recordFaults .options [⟨"strict", false, Json.booleanFaults⟩]

/-! ## The first fault -/

/-- A result reports the first of some faults, or there are none and it is no error. -/
inductive ReportsFirst : Except DecodeError α → List DecodeError → Prop where
  | ok (a : α) : ReportsFirst (.ok a) []
  | error (e : DecodeError) (more : List DecodeError) : ReportsFirst (.error e) (e :: more)

namespace ReportsFirst

variable {result : Except DecodeError α} {faults : List DecodeError}

theorem eq_error_iff (h : ReportsFirst result faults) {e : DecodeError} :
    result = .error e ↔ faults.head? = some e := by
  cases h <;> simp

/-- Of two steps, the second can only add faults behind those of the first. -/
theorem bind (h : ReportsFirst result faults) {next : α → Except DecodeError β}
    {faults' : List DecodeError} (hnext : ∀ a, result = .ok a → ReportsFirst (next a) faults') :
    ReportsFirst (result >>= next) (faults ++ faults') := by
  cases h with
  | ok a => exact hnext a rfl
  | error e more => exact .error e (more ++ faults')

theorem map (h : ReportsFirst result faults) (f : α → β) : ReportsFirst (f <$> result) faults := by
  cases h with
  | ok a => exact .ok (f a)
  | error e more => exact .error e more

end ReportsFirst

/-- A reader stops at the first fault of a value. -/
def StopsAtFirst (read : Json → Except DecodeError α) (faults : Json → List DecodeError) : Prop :=
  ∀ value, value.DistinctKeys → ReportsFirst (read value) (faults value)

theorem stopsAtFirst_string : StopsAtFirst Json.asString Json.stringFaults := by
  intro value _
  cases value with
  | string text => exact .ok text
  | _ => exact .error _ []

theorem stopsAtFirst_boolean : StopsAtFirst Json.asBoolean Json.booleanFaults := by
  intro value _
  cases value with
  | boolean truth => exact .ok truth
  | _ => exact .error _ []

theorem stopsAtFirst_list {read : Json → Except DecodeError α} {faults : Json → List DecodeError}
    (h : StopsAtFirst read faults) : StopsAtFirst (Json.asList read) (Json.listFaults faults) := by
  intro value hvalue
  cases hvalue with
  | array hitems =>
    rename_i items
    show ReportsFirst (items.mapM read) (items.flatMap faults)
    induction items with
    | nil => exact .ok []
    | cons item more ih =>
      obtain ⟨hitem, hmore⟩ := List.forall_mem_cons.mp hitems
      rw [List.mapM_cons, List.flatMap_cons]
      refine (h item hitem).bind fun a _ => ?_
      rw [← List.append_nil (more.flatMap faults)]
      exact (ih hmore).bind fun as _ => .ok (a :: as)
  | _ => exact .error _ []

/-! ## Members in the order of their keys -/

section Members

variable {field : FieldRule} {fields : List FieldRule} {members : List (String × Json)}

theorem memberFaults_cons (member : String × Json) :
    memberFaults (field :: fields) member =
      if field.key = member.1 then field.faults member.2 else memberFaults fields member := by
  unfold memberFaults
  by_cases hkey : field.key = member.1
  · rw [List.find?_cons_of_pos (by simpa using hkey), if_pos hkey]
    rfl
  · rw [List.find?_cons_of_neg (by simpa using hkey), if_neg hkey]

theorem memberFaults_eq_nil {member : String × Json} (h : ∀ field ∈ fields, field.key ≠ member.1) :
    memberFaults fields member = [] := by
  have hnone : fields.find? (fun field => field.key = member.1) = none := by simpa using h
  rw [memberFaults, hnone]
  rfl

/-- The faults of a field with a smaller key than all others are the first. -/
theorem flatMap_memberFaults_cons (hmembers : members.Pairwise fun member other => member.1 < other.1)
    (hfield : ∀ other ∈ fields, field.key < other.key) :
    members.flatMap (memberFaults (field :: fields)) =
      (members.lookup field.key).elim [] field.faults ++ members.flatMap (memberFaults fields) := by
  induction members with
  | nil => rfl
  | cons member more ih =>
    obtain ⟨key, value⟩ := member
    obtain ⟨hfirst, hmore⟩ := List.pairwise_cons.mp hmembers
    rw [List.flatMap_cons, List.flatMap_cons, ih hmore, memberFaults_cons]
    by_cases hkey : field.key = key
    · -- the other members have greater keys than this one, and so have the other fields
      subst hkey
      have hnone : more.lookup field.key = none :=
        lookup_eq_none_iff_ne.mpr fun other hother => (hfirst other hother).ne'
      have hnil : memberFaults fields (field.key, value) = [] :=
        memberFaults_eq_nil fun other hother => (hfield other hother).ne'
      rw [if_pos rfl, List.lookup_cons_self, hnone, hnil]
      rfl
    · rw [if_neg hkey, List.lookup_cons, beq_false_of_ne hkey]
      cases hlookup : more.lookup field.key with
      | none => rfl
      | some found =>
        -- the member of the field comes later, and those of the other fields behind it
        have hlt : key < field.key := hfirst _ (mem_of_lookup hlookup)
        have hnil : memberFaults fields (key, value) = [] :=
          memberFaults_eq_nil fun other hother => (hlt.trans (hfield other hother)).ne'
        rw [hnil]
        rfl

/-- Sorted members have the faults of the fields in the order of the fields, if these are sorted. -/
theorem flatMap_memberFaults (hmembers : members.Pairwise fun member other => member.1 < other.1)
    (hfields : fields.Pairwise fun field other => field.key < other.key) :
    members.flatMap (memberFaults fields) =
      fields.flatMap fun field => (members.lookup field.key).elim [] field.faults := by
  induction fields with
  | nil => simp [memberFaults]
  | cons field more ih =>
    obtain ⟨hfirst, hmore⟩ := List.pairwise_cons.mp hfields
    rw [flatMap_memberFaults_cons hmembers hfirst, ih hmore, List.flatMap_cons]

theorem sortByKey_perm (members : List (String × Json)) : (sortByKey members).Perm members :=
  List.perm_insertionSort _ members

theorem pairwise_sortByKey (hkeys : (members.map Prod.fst).Nodup) :
    (sortByKey members).Pairwise fun member other => member.1 < other.1 := by
  let before : String × Json → String × Json → Prop := fun member other => member.1 ≤ other.1
  have htotal : Std.Total before := ⟨fun member other => le_total member.1 other.1⟩
  have htrans : IsTrans (String × Json) before := ⟨fun _ _ _ => le_trans⟩
  have hle : (sortByKey members).Pairwise before := List.pairwise_insertionSort before members
  have hne : (sortByKey members).Pairwise fun member other => member.1 ≠ other.1 := by
    rw [← List.pairwise_map, ← List.nodup_iff_pairwise_ne]
    exact ((sortByKey_perm members).map Prod.fst).nodup_iff.mpr hkeys
  exact (hle.and hne).imp fun h => lt_of_le_of_ne h.1 h.2

theorem lookup_sortByKey (hkeys : (members.map Prod.fst).Nodup) (key : String) :
    (sortByKey members).lookup key = members.lookup key := by
  have hperm := sortByKey_perm members
  have hkeys' : ((sortByKey members).map Prod.fst).Nodup := (hperm.map Prod.fst).nodup_iff.mpr hkeys
  apply Option.ext
  intro value
  rw [lookup_eq_some_iff_mem hkeys, lookup_eq_some_iff_mem hkeys', hperm.mem_iff]

end Members

/-! ## Records -/

section Records

variable {first : Field α} {second : Field β} {firstFaults secondFaults : Json → List DecodeError}
  {members : List (String × Json)}

theorem Field.readMember_reportsFirst (h : StopsAtFirst first.read firstFaults)
    (hvalues : ∀ member ∈ members, member.2.DistinctKeys) :
    ReportsFirst (first.readMember members) ((members.lookup first.key).elim [] firstFaults) := by
  unfold Field.readMember
  cases hlookup : members.lookup first.key with
  | none => exact .ok none
  | some value => exact (h value (hvalues _ (mem_of_lookup hlookup))).map some

theorem not_mem_keys_iff {key : String} :
    key ∉ members.map Prod.fst ↔ members.lookup key = none := by
  rw [lookup_eq_none_iff_ne, List.mem_map]
  exact ⟨fun h member hmember hkey => h ⟨member, hmember, hkey⟩,
    fun h ⟨member, hmember, hkey⟩ => h member hmember hkey⟩

theorem missingFaults_cons_of_missing {field : FieldRule} (fields : List FieldRule)
    (hrequired : field.required = true) (hmissing : members.lookup field.key = none) :
    missingFaults (field :: fields) members =
      .missingField field.key :: missingFaults fields members := by
  have hkey := not_mem_keys_iff.mpr hmissing
  rw [missingFaults, List.filter_cons_of_pos (by simp only [hrequired, hkey, not_false_eq_true,
    decide_true, Bool.and_self])]
  rfl

theorem missingFaults_cons_of_some {field : FieldRule} (fields : List FieldRule) {value : Json}
    (hfound : members.lookup field.key = some value) :
    missingFaults (field :: fields) members = missingFaults fields members := by
  have hkey : ¬field.key ∉ members.map Prod.fst := fun h => by
    rw [not_mem_keys_iff.mp h] at hfound
    cases hfound
  rw [missingFaults, List.filter_cons_of_neg (by simp only [hkey, decide_false, Bool.and_false,
    Bool.false_eq_true, not_false_eq_true])]
  rfl

/-- If the fields of a record are sorted, the faults of an object are those of the fields that are there,
in their order, before those that are missing. -/
theorem recordFaults_object {fields : List FieldRule} (hkeys : (members.map Prod.fst).Nodup)
    (hfields : fields.Pairwise fun field other => field.key < other.key) (record : RecordName) :
    recordFaults record fields (.object members) =
      (fields.flatMap fun field => (members.lookup field.key).elim [] field.faults) ++
        missingFaults fields members := by
  rw [recordFaults, flatMap_memberFaults (pairwise_sortByKey hkeys) hfields]
  simp only [lookup_sortByKey hkeys]

theorem readPair_object_reportsFirst (hfirst : StopsAtFirst first.read firstFaults)
    (hsecond : StopsAtFirst second.read secondFaults) (hkeys : first.key < second.key)
    (hnodup : (members.map Prod.fst).Nodup) (hvalues : ∀ member ∈ members, member.2.DistinctKeys)
    (record : RecordName) (make : α → β → γ) :
    ReportsFirst (readPair record first second make (.object members))
      (recordFaults record [⟨first.key, true, firstFaults⟩, ⟨second.key, true, secondFaults⟩]
        (.object members)) := by
  rw [recordFaults_object hnodup (by simpa using hkeys)]
  simp only [List.flatMap_cons, List.flatMap_nil, List.append_nil, List.append_assoc]
  refine (Field.readMember_reportsFirst hfirst hvalues).bind fun a? ha => ?_
  refine (Field.readMember_reportsFirst hsecond hvalues).bind fun b? hb => ?_
  -- both members have been read before it is asked which of them are there
  cases a? with
  | none =>
    rw [missingFaults_cons_of_missing _ rfl (Field.readMember_eq_none_iff.mp ha)]
    exact .error _ _
  | some a =>
    obtain ⟨x, hx, -⟩ := Field.readMember_eq_some_iff.mp ha
    rw [missingFaults_cons_of_some _ hx]
    cases b? with
    | none =>
      rw [missingFaults_cons_of_missing _ rfl (Field.readMember_eq_none_iff.mp hb)]
      exact .error _ _
    | some b =>
      obtain ⟨y, hy, -⟩ := Field.readMember_eq_some_iff.mp hb
      rw [missingFaults_cons_of_some _ hy]
      exact .ok (make a b)

theorem readPair_array_reportsFirst (hfirst : StopsAtFirst first.read firstFaults)
    (hsecond : StopsAtFirst second.read secondFaults) {items : List Json}
    (hitems : ∀ item ∈ items, item.DistinctKeys) (record : RecordName) (make : α → β → γ) :
    ReportsFirst (readPair record first second make (.array items))
      (recordFaults record [⟨first.key, true, firstFaults⟩, ⟨second.key, true, secondFaults⟩]
        (.array items)) := by
  rw [recordFaults]
  match items with
  | [] => exact .error _ []
  | [x] =>
    have hx := hfirst x (hitems x List.mem_cons_self)
    simp only [List.zipWith_cons_cons, List.zipWith_nil_right, List.flatten_cons, List.flatten_nil,
      List.append_nil]
    exact hx.bind fun a _ => .error _ []
  | x :: y :: more =>
    have hx := hfirst x (hitems x List.mem_cons_self)
    have hy := hsecond y (hitems y (List.mem_cons_of_mem _ List.mem_cons_self))
    simp only [List.zipWith_cons_cons, List.zipWith_nil_left, List.flatten_cons, List.flatten_nil,
      List.append_nil, List.append_assoc]
    refine hx.bind fun a _ => hy.bind fun b _ => ?_
    cases more with
    | nil => exact .ok (make a b)
    | cons z rest =>
      have hlength : lengthFaults record
          [⟨first.key, true, firstFaults⟩, ⟨second.key, true, secondFaults⟩]
          (x :: y :: z :: rest).length = [.tooLong ((z :: rest).length + 2)] := by
        simp [lengthFaults]
      rw [hlength]
      exact .error _ []

/-- Reading a record of two fields stops at the first of all faults, if reading the fields does. -/
theorem stopsAtFirst_pair (hfirst : StopsAtFirst first.read firstFaults)
    (hsecond : StopsAtFirst second.read secondFaults) (hkeys : first.key < second.key)
    (record : RecordName) (make : α → β → γ) :
    StopsAtFirst (readPair record first second make)
      (recordFaults record [⟨first.key, true, firstFaults⟩, ⟨second.key, true, secondFaults⟩]) := by
  intro value hvalue
  cases hvalue with
  | object hnodup hvalues =>
    exact readPair_object_reportsFirst hfirst hsecond hkeys hnodup hvalues record make
  | array hitems => exact readPair_array_reportsFirst hfirst hsecond hitems record make
  | _ => exact .error _ []

/-- Reading a record of one field that may be left out stops at the first fault, if reading the field
does. -/
theorem stopsAtFirst_optional (hfirst : StopsAtFirst first.read firstFaults) (record : RecordName)
    (make : Option α → γ) :
    StopsAtFirst (readOptional record first make)
      (recordFaults record [⟨first.key, false, firstFaults⟩]) := by
  intro value hvalue
  cases hvalue with
  | object hnodup hvalues =>
    rename_i members
    have hnone : missingFaults [⟨first.key, false, firstFaults⟩] members = [] := rfl
    rw [recordFaults_object hnodup (by simp), hnone]
    simp only [List.flatMap_cons, List.flatMap_nil, List.append_nil]
    exact (Field.readMember_reportsFirst hfirst hvalues).map make
  | array hitems =>
    rename_i items
    match items with
    | [] => exact .ok (make none)
    | x :: more =>
      have hfaults : recordFaults record [⟨first.key, false, firstFaults⟩] (.array (x :: more)) =
          firstFaults x ++ if more.isEmpty then [] else [.tooLong (more.length + 1)] := by
        cases more <;> simp [recordFaults, lengthFaults]
      rw [hfaults]
      refine (hfirst x (hitems x List.mem_cons_self)).bind fun a _ => ?_
      cases more with
      | nil => exact .ok (make (some a))
      | cons y more => exact .error _ []
  | _ => exact .error _ []

end Records

/-! ## The records of a signature -/

theorem Parameter.stopsAtFirst : StopsAtFirst Parameter.ofJson Parameter.faults :=
  stopsAtFirst_pair stopsAtFirst_string stopsAtFirst_string (by decide) .parameter Parameter.mk

theorem Signature.stopsAtFirst : StopsAtFirst Signature.ofJson Signature.faults :=
  stopsAtFirst_pair (stopsAtFirst_list Parameter.stopsAtFirst) stopsAtFirst_string (by decide)
    .signature Signature.mk

theorem Mode.stopsAtFirst : StopsAtFirst Mode.ofJson Mode.faults :=
  stopsAtFirst_optional stopsAtFirst_boolean .options _

/-- A value is refused if and only if it does not conform, and the error is the first of its faults. -/
theorem ofJson_eq_error_iff_first_fault {value : Json} (h : value.DistinctKeys) :
    (((∃ e, Parameter.ofJson value = .error e) ↔ ¬Parameter.Conforms value) ∧
      ∀ e, Parameter.ofJson value = .error e ↔ (Parameter.faults value).head? = some e) ∧
    (((∃ e, Signature.ofJson value = .error e) ↔ ¬Signature.Conforms value) ∧
      ∀ e, Signature.ofJson value = .error e ↔ (Signature.faults value).head? = some e) ∧
    (((∃ e, Mode.ofJson value = .error e) ↔ ¬Mode.Conforms value) ∧
      ∀ e, Mode.ofJson value = .error e ↔ (Mode.faults value).head? = some e) := by
  refine ⟨⟨Parameter.accepts.exists_error_iff h, fun e => ?_⟩,
    ⟨Signature.accepts.exists_error_iff h, fun e => ?_⟩,
    ⟨Mode.accepts.exists_error_iff h, fun e => ?_⟩⟩
  · exact (Parameter.stopsAtFirst value h).eq_error_iff
  · exact (Signature.stopsAtFirst value h).eq_error_iff
  · exact (Mode.stopsAtFirst value h).eq_error_iff

/-- A parameter that ends too early is reported before a type that is no text, and both before a result
that is no text; a list of options that begins well is too long. -/
theorem ofJson_eq_error_iff_first_fault_at_many_faults :
    (Json.DistinctKeys (.object [("returns", .integer 1),
        ("params", .array [.array [.string "a"], .object [("type", .null)]])]) ∧
      ¬Signature.Conforms (.object [("returns", .integer 1),
        ("params", .array [.array [.string "a"], .object [("type", .null)]])]) ∧
      Signature.ofJson (.object [("returns", .integer 1),
        ("params", .array [.array [.string "a"], .object [("type", .null)]])]) =
          .error (.tooShort 1 .parameter)) ∧
    Json.DistinctKeys (.array [.boolean true, .null]) ∧
      ¬Mode.Conforms (.array [.boolean true, .null]) ∧
      Mode.ofJson (.array [.boolean true, .null]) = .error (.tooLong 2) := by
  have hlist : Json.DistinctKeys (.array [.string "a"]) :=
    .array (by simp [Json.DistinctKeys.string])
  have hobject : Json.DistinctKeys (.object [("type", .null)]) :=
    .object (by decide) (by simp [Json.DistinctKeys.null])
  have hparams : Json.DistinctKeys (.array [.array [.string "a"], .object [("type", .null)]]) :=
    .array (by simpa using ⟨hlist, hobject⟩)
  have hkeys : Json.DistinctKeys (.object [("returns", .integer 1),
      ("params", .array [.array [.string "a"], .object [("type", .null)]])]) :=
    .object (by decide) (by simp [Json.DistinctKeys.integer, hparams])
  have hoptions : Json.DistinctKeys (.array [.boolean true, .null]) :=
    .array (by simp [Json.DistinctKeys.boolean, Json.DistinctKeys.null])
  obtain ⟨-, ⟨hsignature, herror⟩, -⟩ := ofJson_eq_error_iff_first_fault hkeys
  obtain ⟨-, -, hmode, herror'⟩ := ofJson_eq_error_iff_first_fault hoptions
  have htooShort := (herror (.tooShort 1 .parameter)).mpr (by decide)
  have htooLong := (herror' (.tooLong 2)).mpr (by decide)
  exact ⟨⟨hkeys, hsignature.mp ⟨_, htooShort⟩, htooShort⟩, hoptions, hmode.mp ⟨_, htooLong⟩, htooLong⟩

end FuncType
