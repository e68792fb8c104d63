/-!
# JSON values

The values that signatures, parameters and modes are stored as. The members of an object keep the
order they are given in; they are looked up by key, so that order says nothing.
-/

namespace FuncType

/-- A JSON value. -/
inductive Json where
  /-- The value `null`. -/
  | null
  /-- A truth value. -/
  | boolean (value : Bool)
  /-- A number without a fraction. -/
  | integer (value : Int)
  /-- A number with a fraction, `digits` divided by ten to the power `places`. -/
  | decimal (digits : Int) (places : Nat)
  /-- A text. -/
  | string (value : String)
  /-- A list of values. -/
  | array (items : List Json)
  /-- Values under keys. -/
  | object (members : List (String × Json))

namespace Json

instance : Inhabited Json := ⟨null⟩

/-- What a message says about a value: the value itself if it is a simple one, and whether it is a
list or an object otherwise. -/
inductive Kind where
  /-- The value `null`. -/
  | null
  /-- A truth value. -/
  | boolean (value : Bool)
  /-- A number without a fraction. -/
  | integer (value : Int)
  /-- A number with a fraction. -/
  | decimal (digits : Int) (places : Nat)
  /-- A text. -/
  | string (value : String)
  /-- Any list. -/
  | sequence
  /-- Any object. -/
  | map
deriving DecidableEq, Repr

/-- What a message says about a value. -/
def kind : Json → Kind
  | null => .null
  | boolean value => .boolean value
  | integer value => .integer value
  | decimal digits places => .decimal digits places
  | string value => .string value
  | array _ => .sequence
  | object _ => .map

end Json

end FuncType
