import FuncType.Json.DecodeError

/-!
# Records in JSON

A record is stored as an object with a member for each field, or as the list of its fields in
order. In an object, members that are no field are passed over, a field that cannot be read is
reported before one that is missing, and of several such fields the one with the smaller key is
reported; in a list, the fields are read in order before the length is looked at.
-/

namespace FuncType

variable {α β γ : Type}

namespace Json

/-- Reads a text. -/
def asString : Json → Except DecodeError String
  | string value => .ok value
  | other => .error (.wrongType other.kind .string)

/-- Reads a truth value. -/
def asBoolean : Json → Except DecodeError Bool
  | boolean value => .ok value
  | other => .error (.wrongType other.kind .boolean)

/-- Reads a list, item by item. -/
def asList (read : Json → Except DecodeError α) : Json → Except DecodeError (List α)
  | array items => items.mapM read
  | other => .error (.wrongType other.kind .sequence)

end Json

/-- A field of a record. -/
structure Field (α : Type) where
  /-- The key of the field in an object. -/
  key : String
  /-- How the value of the field is read. -/
  read : Json → Except DecodeError α

/-- Reads a field of an object, if it is there. -/
def Field.readMember (field : Field α) (members : List (String × Json)) :
    Except DecodeError (Option α) :=
  match members.lookup field.key with
  | none => .ok none
  | some value => some <$> field.read value

/-- Reads a record of two fields, the first of which has the smaller key. -/
def readPair (record : RecordName) (first : Field α) (second : Field β) (make : α → β → γ) :
    Json → Except DecodeError γ
  | .object members => do
    match ← first.readMember members, ← second.readMember members with
    | some a, some b => return make a b
    | none, _ => throw (.missingField first.key)
    | some _, none => throw (.missingField second.key)
  | .array [] => throw (.tooShort 0 record)
  | .array [x] => do
    let _ ← first.read x
    throw (.tooShort 1 record)
  | .array (x :: y :: more) => do
    let a ← first.read x
    let b ← second.read y
    if more.isEmpty then return make a b
    throw (.tooLong (more.length + 2))
  | other => throw (.wrongType other.kind (.record record))

/-- Reads a record of one field that may be left out. -/
def readOptional (record : RecordName) (field : Field α) (make : Option α → γ) :
    Json → Except DecodeError γ
  | .object members => make <$> field.readMember members
  | .array [] => return make none
  | .array (x :: more) => do
    let a ← field.read x
    if more.isEmpty then return make (some a)
    throw (.tooLong (more.length + 1))
  | other => throw (.wrongType other.kind (.record record))

end FuncType
