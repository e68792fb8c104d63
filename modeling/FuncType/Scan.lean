import FuncType.Group
import FuncType.Logged

/-!
# Scans with their log

The search for the end of a group and the cutting of its body into segments, with the events that
tell where things lie. Texts are cut between characters; the events and the answer of
`closingOffset?` count the bytes of the UTF-8 encoding, the symbols that a scan really looks at.
-/

namespace FuncType

/-- The events of a scan for the end of the group at the head of a text, one for each byte read. -/
def scanEvents (text : List Char) : List Event :=
  (visits (utf8 text)).zipIdx.map fun ((byte, depth), offset) => .scan offset byte depth

/-- The events that place consecutive segments, the first of which starts at offset `start`; one
byte, the comma or the closing parenthesis, follows each of them. -/
def boundaryEvents (start : Nat) : List (List Char) → List Event
  | [] => []
  | segment :: more =>
    let stop := start + (utf8 segment).length
    .boundary start stop (String.ofList segment) :: boundaryEvents (stop + 1) more

/-- The byte offset of the parenthesis that closes the group at the head of a text. -/
def closingOffset? (text : String) : Logged (Option Nat) where
  value := (Group.cut? (utf8 text.toList)).map fun group => group.body.length + 1
  events := scanEvents text.toList

namespace Group

/-- The segments of a group. -/
def segments (g : Group Char) : List (List Char) :=
  FuncType.segments g.body

/-- The byte offset of the closing parenthesis of a group, from its opening one. -/
def closeOffset (g : Group Char) : Nat :=
  (utf8 g.body).length + 1

/-- The group at the head of a text, with the events of the scan for its end. -/
def find? (text : List Char) : Logged (Option (Group Char)) where
  value := cut? text
  events := scanEvents text

/-- The group at the head of a text, with the events of the scan for its end and then, if there is
such a group, the places of its segments. -/
def split? (text : List Char) : Logged (Option (Group Char)) := do
  match ← find? text with
  | none => return none
  | some group => ⟨some group, boundaryEvents 1 group.segments⟩

@[simp] theorem value_find? (text : List Char) : (find? text).value = cut? text := rfl

@[simp] theorem value_split? (text : List Char) : (split? text).value = cut? text := by
  unfold split?
  cases h : cut? text <;> simp [h]

end Group

end FuncType
