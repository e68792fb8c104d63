import FuncType.Logged
import FuncType.Space

/-!
# Strict and lenient reading

How forgiving the reading of a parameter list is, and how a setting in the environment chooses it.
Only a value that plainly asks for leniency gets it; anything else, the value that means nothing
included, leaves the reading strict.
-/

namespace FuncType

/-- How forgiving the reading of a parameter list is. -/
inductive Mode where
  /-- A list with an empty item, with last names that have no type or with text after its end is
  refused. -/
  | strict
  /-- Empty items and last names that have no type are left out, text after the end of a list is
  passed over. -/
  | lenient
deriving DecidableEq, Repr

/-- Where nobody has chosen a mode, reading is strict. -/
instance : Inhabited Mode := ⟨.strict⟩

namespace Mode

/-- The name of the environment variable that chooses the mode. -/
def settingName : String := "GOSIG_STRICT_PARAMS"

/-- A value of the setting in its plain form: without the white space around it, and with the
letters `A` to `Z` in lower case. -/
def plainSetting (value : String) : String :=
  String.ofList ((trim value.toList).map Char.toLower)

/-- The mode that a value of the setting in plain form asks for. -/
def ofPlainSetting? (value : String) : Option Mode :=
  if value ∈ ["1", "true", "yes", "on"] then some .strict
  else if value ∈ ["0", "false", "no", "off"] then some .lenient
  else none

/-- The mode for a value of the setting, if it is set. A value that means nothing is noted. -/
def ofSetting (value : Option String) : Logged Mode :=
  match value with
  | none => return default
  | some value =>
    let plain := plainSetting value
    match ofPlainSetting? plain with
    | some mode => return mode
    | none => ⟨default, [.unrecognized settingName plain]⟩

/-- The mode for the raw bytes of the setting, if it is set. Bytes that are no UTF-8 text count as
no setting. -/
def ofEnvironment (bytes : Option ByteArray) : Logged Mode :=
  ofSetting (bytes.bind String.fromUTF8?)

end Mode

end FuncType
