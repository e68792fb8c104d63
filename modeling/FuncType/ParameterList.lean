import FuncType.Mode
import FuncType.Parameter
import FuncType.Scan

/-!
# Parameter lists

A parameter list is a text in parentheses, such as `(a, b int, c func(d) e)`. It is cut into the
segments of the group at its head, and each segment is read as a declaration. The two modes differ
only in what they let pass: where the lenient one leaves out an empty segment, left over names or
the text after the group, the strict one refuses the list.
-/

namespace FuncType

namespace ParameterList

/-- Whether a text starts with an opening and ends with a closing parenthesis. -/
def isEnclosed (text : List Char) : Bool :=
  text.head? == some '(' && text.getLast? == some ')'

/-- Whether the segments are those of an empty list: there is one, and it is blank. -/
def isEmpty (segments : List (List Char)) : Bool :=
  match segments with
  | [only] => isBlank only
  | _ => false

/-- The parameters that the segments of a list declare, and the names that are left over. -/
def ofSegments (mode : Mode) (segments : List (List Char)) :
    Except ListFault (List Parameter × List String) :=
  if isEmpty segments then .ok ([], [])
  else if mode = .strict ∧ segments.any isBlank then .error .emptyParameter
  else
    let (params, leftOver) :=
      Parameter.expand ((segments.filter fun s => !isBlank s).map Declaration.ofSegment)
    if mode = .strict ∧ leftOver ≠ [] then .error .untypedParameter
    else .ok (params, leftOver)

/-- Reads a text as a parameter list. The lenient mode notes the names that it leaves out. -/
def read (mode : Mode) (text : String) : Logged (Except SignatureError (List Parameter)) :=
  if !isEnclosed text.toList then
    Logged.reject (.parameterList .notEnclosed text)
  else do
    match ← Group.split? text.toList with
    | none => Logged.reject (.parameterList .unbalanced text)
    | some group =>
      if mode = .strict ∧ group.rest ≠ [] then
        Logged.reject (.parameterList .trailingText text)
      else
        match ofSegments mode group.segments with
        | .error fault => Logged.reject (.parameterList fault text)
        | .ok (params, []) => return .ok params
        | .ok (params, leftOver) =>
          Logged.note (.dropped leftOver text)
          return .ok params

/-- The parameters of a list, or the reason why the text is refused. -/
def parse (mode : Mode) (text : String) : Except SignatureError (List Parameter) :=
  (read mode text).value

/-! ## Parsing without the log -/

theorem parse_eq (mode : Mode) (text : String) :
    parse mode text =
      if isEnclosed text.toList = false then .error (.parameterList .notEnclosed text)
      else
        match Group.cut? text.toList with
        | none => .error (.parameterList .unbalanced text)
        | some group =>
          if mode = .strict ∧ group.rest ≠ [] then .error (.parameterList .trailingText text)
          else
            match ofSegments mode group.segments with
            | .error fault => .error (.parameterList fault text)
            | .ok (params, _) => .ok params := by
  rw [parse, read]
  cases hshape : isEnclosed text.toList with
  | false => rfl
  | true =>
    simp only [Bool.not_true, Bool.false_eq_true, if_false, Logged.value_bind,
      Group.value_split?, Bool.true_eq_false]
    cases Group.cut? text.toList with
    | none => rfl
    | some group =>
      dsimp only
      split
      · rfl
      · rcases ofSegments mode group.segments with fault | ⟨params, _ | ⟨name, more⟩⟩ <;> rfl

end ParameterList

end FuncType
