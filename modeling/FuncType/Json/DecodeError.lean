import FuncType.Json
import FuncType.Quoted

/-!
# Why a JSON value is refused

The causes for which a JSON value is no record of the expected kind, and their wording.
-/

namespace FuncType

/-- The records that are read from JSON. -/
inductive RecordName where
  /-- A parameter: its name and its type. -/
  | parameter
  /-- A signature: its parameters and what it returns. -/
  | signature
  /-- The options of a reader: its mode. -/
  | options
deriving DecidableEq, Repr

/-- What a value should have been. -/
inductive Expected where
  /-- A text. -/
  | string
  /-- A truth value. -/
  | boolean
  /-- A list. -/
  | sequence
  /-- A record, as an object or as the list of its fields. -/
  | record (name : RecordName)
deriving DecidableEq, Repr

/-- Why a JSON value is refused. -/
inductive DecodeError where
  /-- The value is of another kind than the expected one. -/
  | wrongType (found : Json.Kind) (expected : Expected)
  /-- An object has no member for a field. -/
  | missingField (key : String)
  /-- The list of the fields of a record ends too early. -/
  | tooShort (length : Nat) (record : RecordName)
  /-- The list of the fields of a record goes on after the last field. -/
  | tooLong (length : Nat)
deriving DecidableEq, Repr

/-! ## Wording -/

/-- The name of a record in a message. -/
def RecordName.describe : RecordName → String
  | parameter => "struct Parameter"
  | signature => "struct ParsedSignature"
  | options => "struct ParseOptions"

/-- The number of fields of a record. -/
def RecordName.size : RecordName → Nat
  | parameter => 2
  | signature => 2
  | options => 1

/-- What should have been there, in a message. -/
def Expected.describe : Expected → String
  | string => "a string"
  | boolean => "a boolean"
  | sequence => "a sequence"
  | record name => name.describe

/-- A number with a fraction: the point, at least one digit on either side of it, and no zero that
could be left out. -/
def decimalText (digits : Int) (places : Nat) : String :=
  let whole := digits.natAbs / Nat.pow 10 places
  let fraction := (Nat.toDigits 10 (digits.natAbs % Nat.pow 10 places)).leftpad places '0'
  let shown := (fraction.reverse.dropWhile (· == '0')).reverse
  (if digits < 0 then "-" else "") ++ toString whole ++ "."
    ++ if shown = [] then "0" else String.ofList shown

/-- What is there, in a message. -/
def Json.Kind.describe : Json.Kind → String
  | null => "null"
  | boolean value => "boolean `" ++ (if value then "true" else "false") ++ "`"
  | integer value => "integer `" ++ toString value ++ "`"
  | decimal digits places => "floating point `" ++ decimalText digits places ++ "`"
  | string value => "string " ++ quoted value
  | sequence => "sequence"
  | map => "map"

/-- The message of an error. -/
def DecodeError.message : DecodeError → String
  | wrongType found expected =>
    "invalid type: " ++ found.describe ++ ", expected " ++ expected.describe
  | missingField key => "missing field `" ++ key ++ "`"
  | tooShort length record =>
    "invalid length " ++ toString length ++ ", expected " ++ record.describe ++ " with "
      ++ toString record.size ++ " elements"
  | tooLong length => "invalid length " ++ toString length ++ ", expected fewer elements in array"

end FuncType
