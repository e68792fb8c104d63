import FuncType.ParameterList
import FuncType.ResultList

/-!
# Signatures

A signature is a function type such as `func(a, b int) (int, error)`, taken apart into its
parameters, each with a type of its own, and the text of its results. `Signature.render` writes one
in its expanded form, `Signature.parse` reads one, and `Signature.reread` does both in turns.
-/

namespace FuncType

/-- A function type, taken apart. -/
structure Signature where
  /-- The parameters, in order. -/
  params : List Parameter
  /-- What follows the parameter list; empty if the function returns nothing. Reading takes the
  white space around it away. -/
  returns : String
deriving DecidableEq, Repr

namespace Signature

/-! ## Parts and rendering -/

/-- The names of the parameters. -/
def paramNames (s : Signature) : List String :=
  s.params.map Parameter.name

/-- Whether the function returns nothing. -/
def isVoid (s : Signature) : Bool :=
  s.returns.isEmpty

/-- The results, with the events of taking them apart. A result may be a type or a name and a
type. -/
def results (s : Signature) : Logged (List String) :=
  ResultList.read s.returns

/-- The word that every signature starts with. -/
def keyword : String := "func"

/-- A parameter list as it is written. -/
def renderParams (params : List Parameter) : String :=
  "(" ++ ", ".intercalate (params.map Parameter.render) ++ ")"

/-- A signature as it is written, every parameter with its type. -/
def render (s : Signature) : String :=
  keyword ++ renderParams s.params ++ if s.isVoid then "" else " " ++ s.returns

instance : ToString Signature := ⟨Signature.render⟩

/-! ## Reading -/

/-- What follows the keyword, if the text starts with the keyword and an opening parenthesis. -/
def afterKeyword? (text : List Char) : Option (List Char) :=
  if (keyword.toList ++ ['(']).isPrefixOf text then some (text.drop keyword.length) else none

/-- Reads a text as a signature. The end of the parameter list is found first; the list is then
read on its own, and what follows it is kept as it is. -/
def read (mode : Mode) (text : String) : Logged (Except SignatureError Signature) :=
  match afterKeyword? text.toList with
  | none => Logged.reject (.signature .missingKeyword text)
  | some afterKeyword => do
    match ← Group.find? afterKeyword with
    | none => Logged.reject (.signature .unbalanced text)
    | some group =>
      let params ← ParameterList.read mode (String.ofList group.text)
      return params.map fun params => { params, returns := String.ofList (trim group.rest) }

/-- The signature that a text is, or the reason why the text is refused. -/
def parse (mode : Mode) (text : String) : Except SignatureError Signature :=
  (read mode text).value

theorem parse_eq (mode : Mode) (text : String) :
    parse mode text =
      match afterKeyword? text.toList with
      | none => .error (.signature .missingKeyword text)
      | some afterKeyword =>
        match Group.cut? afterKeyword with
        | none => .error (.signature .unbalanced text)
        | some group =>
          (ParameterList.parse mode (String.ofList group.text)).map fun params =>
            { params, returns := String.ofList (trim group.rest) } := by
  rw [parse, read]
  cases afterKeyword? text.toList with
  | none => rfl
  | some afterKeyword =>
    simp only [Logged.value_bind, Group.value_find?]
    cases Group.cut? afterKeyword <;> rfl

/-! ## Reading again what was written -/

/-- One step of reading a text, writing the signature, reading what was written, and so on. -/
inductive Step where
  /-- A signature was read; `same` tells whether it is the one of the step before, if there is a
  step before. -/
  | accepted (signature : Signature) (same : Option Bool)
  /-- The text was refused. -/
  | refused (error : SignatureError)
deriving DecidableEq, Repr

/-- At most `times` steps that start with a text, after a step that read `previous`. A refused text
ends them. -/
def rereadAfter (mode : Mode) (previous : Option Signature) :
    (times : Nat) → (text : String) → Logged (List Step)
  | 0, _ => return []
  | times + 1, text => do
    match ← read mode text with
    | .error e => return [.refused e]
    | .ok s =>
      let more ← rereadAfter mode (some s) times s.render
      return .accepted s (previous.map fun p => decide (s = p)) :: more

/-- At most `times` steps of reading, the first of them a text and each of the others what the one
before it read, written out. -/
def reread (mode : Mode) (times : Nat) (text : String) : Logged (List Step) :=
  rereadAfter mode none times text

end Signature

end FuncType
