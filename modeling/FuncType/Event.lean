import FuncType.Quoted
import FuncType.SignatureError

/-!
# Events

What can be noted while a text is read: each byte that a scan for a closing parenthesis looks at,
each segment of a list, each refusal, each loss that the lenient mode accepts, and a setting that
is not understood.
-/

namespace FuncType

/-- How important an event is. -/
inductive Level where
  /-- A step of a scan. -/
  | trace
  /-- Something that decided the outcome. -/
  | debug
  /-- Something that whoever runs the program should look at. -/
  | warn
deriving DecidableEq, Repr

/-- The place of a level in the order of importance. -/
def Level.rank : Level → Nat
  | .trace => 0
  | .debug => 1
  | .warn => 2

/-- Something noted while a text is read. All offsets count bytes. -/
inductive Event where
  /-- A scan has read the byte at an offset and is now at a depth. -/
  | scan (offset : Nat) (byte : UInt8) (depth : Nat)
  /-- A segment of a list lies between two offsets. -/
  | boundary (start stop : Nat) (segment : String)
  /-- A text has been refused. -/
  | rejected (error : SignatureError)
  /-- The last names of a list have no type and are left out. -/
  | dropped (names : List String) (list : String)
  /-- The setting of the mode has a value that means nothing. -/
  | unrecognized (setting value : String)
deriving DecidableEq, Repr

namespace Event

/-- The importance of an event. -/
def level : Event → Level
  | scan .. => .trace
  | boundary .. => .trace
  | rejected _ => .debug
  | dropped .. => .debug
  | unrecognized .. => .warn

/-- The line that reports an event. What a step of a scan found is no part of its line. -/
def message : Event → String
  | scan .. => "scan"
  | boundary .. => "boundary"
  | rejected e => "Rejecting " ++ e.subject ++ " " ++ quoted e.input ++ ": " ++ e.reason
  | dropped names list =>
    "Dropping untyped parameters " ++ quotedList names ++ " from " ++ quoted list
  | unrecognized setting value =>
    "Unrecognized " ++ setting ++ " value " ++ quoted value ++ ", falling back to strict parsing"

end Event

end FuncType
