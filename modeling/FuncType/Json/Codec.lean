import FuncType.Json.Record
import FuncType.Signature

/-!
# Signatures in JSON

How parameters, signatures and modes are stored as JSON, and how they are read back. Each is
written as an object; each is read from any of the forms of a record. A mode is stored as the
option whether reading is strict, which it is where the option is left out.
-/

namespace FuncType

namespace Parameter

/-- A parameter as a JSON object. -/
def toJson (p : Parameter) : Json :=
  .object [("name", .string p.name), ("type", .string p.type)]

/-- Reads a parameter. -/
def ofJson : Json → Except DecodeError Parameter :=
  readPair .parameter ⟨"name", Json.asString⟩ ⟨"type", Json.asString⟩ Parameter.mk

end Parameter

namespace Signature

/-- A signature as a JSON object. -/
def toJson (s : Signature) : Json :=
  .object [("params", .array (s.params.map Parameter.toJson)), ("returns", .string s.returns)]

/-- Reads a signature. -/
def ofJson : Json → Except DecodeError Signature :=
  readPair .signature ⟨"params", Json.asList Parameter.ofJson⟩ ⟨"returns", Json.asString⟩
    Signature.mk

end Signature

namespace Mode

/-- Whether a mode is the strict one. -/
def isStrict : Mode → Bool
  | strict => true
  | lenient => false

/-- The mode that is strict or not. -/
def ofStrict : Bool → Mode
  | true => strict
  | false => lenient

/-- A mode as a JSON object. -/
def toJson (mode : Mode) : Json :=
  .object [("strict", .boolean mode.isStrict)]

/-- Reads a mode. -/
def ofJson : Json → Except DecodeError Mode :=
  readOptional .options ⟨"strict", Json.asBoolean⟩ fun strict? => ofStrict (strict?.getD true)

end Mode

end FuncType
