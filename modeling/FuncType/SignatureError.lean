/-!
# Why a text is refused

A text can be refused as a signature, before its parameter list has been taken out of it, or as a
parameter list. Either way the error carries the text that was refused: the whole signature in the
first case, the list with its parentheses in the second.
-/

namespace FuncType

/-- What is wrong with a text that should be a signature. -/
inductive SignatureFault where
  /-- It does not start with the keyword and an opening parenthesis. -/
  | missingKeyword
  /-- The parameter list never closes. -/
  | unbalanced
deriving DecidableEq, Repr

/-- What is wrong with a text that should be a parameter list. -/
inductive ListFault where
  /-- It is not enclosed in parentheses. -/
  | notEnclosed
  /-- The opening parenthesis never closes. -/
  | unbalanced
  /-- The list closes before the end of the text. -/
  | trailingText
  /-- There is nothing between two commas, or between a comma and a parenthesis. -/
  | emptyParameter
  /-- The last names of the list have no type. -/
  | untypedParameter
deriving DecidableEq, Repr

/-- A refused text and the reason. -/
inductive SignatureError where
  /-- The text is no signature. -/
  | signature (fault : SignatureFault) (input : String)
  /-- The text is no parameter list. -/
  | parameterList (fault : ListFault) (input : String)
deriving DecidableEq, Repr

/-- The wording of a fault of a signature. -/
def SignatureFault.reason : SignatureFault → String
  | .missingKeyword => "missing `func(` prefix"
  | .unbalanced => "unbalanced parentheses"

/-- The wording of a fault of a parameter list. -/
def ListFault.reason : ListFault → String
  | .notEnclosed => "expected surrounding parentheses"
  | .unbalanced => "unbalanced parentheses"
  | .trailingText => "text after closing parenthesis"
  | .emptyParameter => "empty parameter"
  | .untypedParameter => "parameter without a type"

namespace SignatureError

/-- The text that was refused. -/
def input : SignatureError → String
  | signature _ input => input
  | parameterList _ input => input

/-- The wording of the reason. -/
def reason : SignatureError → String
  | signature fault _ => fault.reason
  | parameterList fault _ => fault.reason

/-- What the text was taken for. -/
def subject : SignatureError → String
  | signature .. => "signature"
  | parameterList .. => "parameter list"

/-- The message of an error: what the text was taken for, the reason, and the text as it is. -/
def message (e : SignatureError) : String :=
  let expected := match e with
    | signature .. => "function signature"
    | parameterList .. => "parameter list"
  "malformed " ++ expected ++ " (" ++ e.reason ++ "): " ++ e.input

end SignatureError

end FuncType
