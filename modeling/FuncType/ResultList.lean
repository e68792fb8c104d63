import FuncType.Scan
import FuncType.Space

/-!
# Results

The part of a function type after its parameter list is either one result or a list of results in
parentheses. Only a group that spans the whole text is taken for a list; everything else, a text
whose parentheses never balance included, is a single result.
-/

namespace FuncType

namespace ResultList

/-- The results in the segments of a list: the segments without the white space around them, but
for the empty ones. -/
def ofSegments (segments : List (List Char)) : List String :=
  ((segments.map trim).filter fun s => !s.isEmpty).map String.ofList

/-- A text that is no list is a single result, or none if there is nothing in it. -/
def single (text : List Char) : List String :=
  if text = [] then [] else [String.ofList text]

/-- Reads a text as a list of results. -/
def read (text : String) : Logged (List String) := do
  let trimmed := trim text.toList
  match ← Group.split? trimmed with
  | none => return single trimmed
  | some group =>
    if group.rest = [] then return ofSegments group.segments
    else return single trimmed

/-- The results that a text lists. -/
def parse (text : String) : List String :=
  (read text).value

/-! ## Parsing without the log -/

theorem parse_eq (text : String) :
    parse text =
      match Group.cut? (trim text.toList) with
      | none => single (trim text.toList)
      | some group =>
        if group.rest = [] then ofSegments group.segments else single (trim text.toList) := by
  rw [parse, read]
  simp only [Logged.value_bind, Group.value_split?]
  cases Group.cut? (trim text.toList) with
  | none => rfl
  | some group =>
    dsimp only
    split <;> rfl

end ResultList

end FuncType
