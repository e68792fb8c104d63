import FuncType.Space

/-!
# Parameters and declarations

A segment of a parameter list is a *declaration*: a name, and a type if white space follows the
name. A declaration that is a bare name takes the type of the parameter after it, so `a, b int`
declares two parameters of type `int`. Names at the end of a list, with no parameter after them,
are left over (`Parameter.expand`).
-/

namespace FuncType

/-- A parameter of a function type. -/
structure Parameter where
  /-- The name. -/
  name : String
  /-- The type. -/
  type : String
deriving DecidableEq, Repr

/-- A parameter as it is written: name, space, type. -/
def Parameter.render (p : Parameter) : String :=
  p.name ++ " " ++ p.type

instance : ToString Parameter := ⟨Parameter.render⟩

/-- A segment of a parameter list, read as a name with or without a type. -/
structure Declaration where
  /-- The name. -/
  name : String
  /-- The type, unless the declaration is a bare name. -/
  type? : Option String
deriving DecidableEq, Repr

namespace Declaration

/-- The first word of a text. -/
def word (text : List Char) : List Char :=
  text.takeWhile fun c => !isSpace c

/-- What follows the first word of a text and the white space after it. -/
def afterWord (text : List Char) : List Char :=
  trimStart (text.dropWhile fun c => !isSpace c)

/-- Reads a segment: once the white space around it is gone, the first word is the name and what
follows it, if anything does, the type. -/
def ofSegment (segment : List Char) : Declaration :=
  let text := trim segment
  { name := String.ofList (word text)
    type? := if afterWord text = [] then none else some (String.ofList (afterWord text)) }

end Declaration

namespace Parameter

/-- The parameters that declarations stand for, and the names that are left over at the end. -/
def expand : List Declaration → List Parameter × List String
  | [] => ([], [])
  | d :: more =>
    let (params, leftOver) := expand more
    match d.type?, params with
    | some type, _ => (⟨d.name, type⟩ :: params, leftOver)
    | none, next :: _ => (⟨d.name, next.type⟩ :: params, leftOver)
    | none, [] => ([], d.name :: leftOver)

/-! ## No name is lost -/

/-- The names of the parameters and the names left over are the names of the declarations, in
order. -/
theorem names_expand (ds : List Declaration) :
    (expand ds).1.map Parameter.name ++ (expand ds).2 = ds.map Declaration.name := by
  induction ds with
  | nil => rfl
  | cons d more ih =>
    rw [List.map_cons, ← ih, expand]
    rcases expand more with ⟨params, leftOver⟩
    rcases d with ⟨name, _ | type⟩
    · cases params <;> rfl
    · rfl

end Parameter

end FuncType
