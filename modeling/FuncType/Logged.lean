import FuncType.Event

/-!
# Values with a log

`Logged α` pairs a value with the events noted while it was worked out, in order. The value of a
sequence of steps never depends on the events: it is obtained by running the same steps on the
values alone (`value_bind`), and the events of the steps follow one another (`events_bind`).
-/

namespace FuncType

/-- A value and the events noted on the way to it. -/
structure Logged (α : Type) where
  /-- The value. -/
  value : α
  /-- The events, oldest first. -/
  events : List Event
deriving Repr

namespace Logged

variable {α β : Type}

instance : Monad Logged where
  pure value := ⟨value, []⟩
  bind x f := ⟨(f x.value).value, x.events ++ (f x.value).events⟩

@[simp] theorem value_pure (a : α) : (pure a : Logged α).value = a := rfl

@[simp] theorem events_pure (a : α) : (pure a : Logged α).events = [] := rfl

@[simp] theorem value_bind (x : Logged α) (f : α → Logged β) :
    (x >>= f).value = (f x.value).value := rfl

@[simp] theorem events_bind (x : Logged α) (f : α → Logged β) :
    (x >>= f).events = x.events ++ (f x.value).events := rfl

@[simp] theorem value_map (f : α → β) (x : Logged α) : (f <$> x).value = f x.value := rfl

@[simp] theorem events_map (f : α → β) (x : Logged α) : (f <$> x).events = x.events := by
  show x.events ++ [] = x.events
  simp

instance : LawfulMonad Logged := LawfulMonad.mk' Logged
  (fun x => by
    show Logged.mk (id x.value) (x.events ++ []) = x
    simp)
  (fun _ _ => rfl)
  (fun x f g => by
    show Logged.mk _ _ = Logged.mk _ _
    simp)

/-- Notes one event. -/
def note (event : Event) : Logged Unit :=
  ⟨(), [event]⟩

/-- Refuses a text and notes the refusal. -/
def reject (error : SignatureError) : Logged (Except SignatureError α) :=
  ⟨.error error, [.rejected error]⟩

/-- The same value with only the events that are at least as important as a level. -/
def atLeast (level : Level) (x : Logged α) : Logged α :=
  { x with events := x.events.filter fun event => decide (level.rank ≤ event.level.rank) }

end Logged

end FuncType
