import FuncType.Proofs.Modes
import FuncType.Proofs.ScanEvents

/-!
# What the reading of a list notes

The events of reading a list are the scan of the list, the places of its segments, and at most one event
of the outcome: the error of a list that is refused, or the names that a list leaves over
(`ParameterList.read_of_listOf`). So the lenient mode loses no name silently: the parameters have the names
of the segments in front, and the names of the segments behind, if there are any, are reported once, in
order, by a line that quotes them and the text (`DropNoted`, `ParameterList.read_lenient`). Text behind the
end of the list is quoted in that line and is of no consequence otherwise.
-/

namespace FuncType

/-- An event is reported at a level, by a line. -/
structure Event.Reports (event : Event) (level : Level) (line : String) : Prop where
  level_eq : event.level = level
  message_eq : event.message = line

/-- The line that reports a refusal: what the text was taken for, the text, and the reason. -/
def refusalLine (subject input reason : String) : String :=
  "Rejecting " ++ subject ++ " " ++ quoted input ++ ": " ++ reason

theorem reports_rejected (e : SignatureError) :
    (Event.rejected e).Reports .debug (refusalLine e.subject e.input e.reason) :=
  ⟨rfl, rfl⟩

/-- What is noted of the names that a list leaves over. -/
inductive DropNoted (names : List String) (text : String) : List Event → Prop where
  /-- There is no such name, and nothing is noted. -/
  | nothing (hnames : names = []) : DropNoted names text []
  /-- There are such names, and one event reports them, in order, with the text of the list. -/
  | dropped (hne : names ≠ [])
      (hreports : (Event.dropped names text).Reports .debug
        ("Dropping untyped parameters " ++ quotedList names ++ " from " ++ quoted text)) :
      DropNoted names text [.dropped names text]

theorem reports_of_mem_scanEvents {text : List Char} {event : Event} (h : event ∈ scanEvents text) :
    event.Reports .trace "scan" := by
  obtain ⟨⟨⟨byte, depth⟩, offset⟩, -, rfl⟩ := List.mem_map.mp h
  exact ⟨rfl, rfl⟩

theorem reports_of_mem_boundaryEvents {start : Nat} {segs : List (List Char)} {event : Event}
    (h : event ∈ boundaryEvents start segs) : event.Reports .trace "boundary" := by
  induction segs generalizing start with
  | nil => cases h
  | cons segment more ih =>
    rw [boundaryEvents] at h
    rcases List.mem_cons.mp h with rfl | h
    · exact ⟨rfl, rfl⟩
    · exact ih h

theorem Logged.bind_eq {α β : Type} (x : Logged α) (f : α → Logged β) :
    x >>= f = ⟨(f x.value).value, x.events ++ (f x.value).events⟩ :=
  rfl

theorem Group.events_split? {text : List Char} {group : Group Char} (h : cut? text = some group) :
    (split? text).events = scanEvents text ++ boundaryEvents 1 group.segments := by
  unfold split?
  rw [Logged.events_bind, value_find?, h]
  rfl

namespace ParameterList

variable {segs : List (List Char)} {ps : List Parameter} {names : List String} {text : String}
  {list rest : List Char}

/-- A text with a list in its front is read by scanning the list and placing its segments; then it is
refused, or has the parameters and the left over names of its segments. -/
theorem read_of_listOf (mode : Mode) (hhead : text.toList.head? = some '(')
    (hlast : text.toList.getLast? = some ')') (hsegs : ListOf segs list)
    (htext : text.toList = list ++ rest) :
    (∃ fault, read mode text = ⟨.error (.parameterList fault text),
        scanEvents list ++ boundaryEvents 1 segs ++ [.rejected (.parameterList fault text)]⟩) ∨
      ∃ ps names noted, LeavesOver segs ps names ∧ (mode = .strict → names = []) ∧
        DropNoted names text noted ∧
        read mode text = ⟨.ok ps, scanEvents list ++ boundaryEvents 1 segs ++ noted⟩ := by
  obtain ⟨group, hcut, -, hrest, hsegments⟩ := hsegs.exists_group rest
  rw [← htext] at hcut
  have hscan : scanEvents text.toList = scanEvents list := by rw [htext, hsegs.scanEvents_append]
  rw [read, if_neg (by simp [isEnclosed_iff.mpr ⟨hhead, hlast⟩]), Logged.bind_eq, Group.value_split?,
    Group.events_split? hcut, hcut, hsegments, hscan]
  dsimp only
  rw [hsegments, hrest]
  by_cases htrailing : mode = .strict ∧ rest ≠ []
  · rw [if_pos htrailing]
    exact Or.inl ⟨.trailingText, rfl⟩
  rw [if_neg htrailing]
  cases hread : ofSegments mode segs with
  | error fault => exact Or.inl ⟨fault, rfl⟩
  | ok result =>
    obtain ⟨ps, names⟩ := result
    obtain ⟨hexpand, hstrict⟩ := ofSegments_eq_ok_iff.mp hread
    have hleaves := expand_declarations_iff.mp hexpand
    have hnone : mode = .strict → names = [] := fun h => (hstrict h).2
    cases names with
    | nil => exact Or.inr ⟨ps, [], [], hleaves, hnone, .nothing rfl, rfl⟩
    | cons name more =>
      have hnoted : DropNoted (name :: more) text [.dropped (name :: more) text] :=
        .dropped (List.cons_ne_nil name more) ⟨rfl, rfl⟩
      exact Or.inr ⟨ps, name :: more, _, hleaves, hnone, hnoted, rfl⟩

theorem read_lenient_of_listOf (hlast : text.toList.getLast? = some ')') (hsegs : ListOf segs list)
    (htext : text.toList = list ++ rest) (hleaves : LeavesOver segs ps names) :
    ∃ noted, DropNoted names text noted ∧
      read .lenient text = ⟨.ok ps, scanEvents list ++ boundaryEvents 1 segs ++ noted⟩ := by
  have hhead : text.toList.head? = some '(' := by rw [htext, hsegs.text_eq]; rfl
  have hparse := (parse_lenient_iff hhead hlast hsegs htext).mpr ⟨names, hleaves⟩
  rcases read_of_listOf .lenient hhead hlast hsegs htext with
    ⟨fault, hread⟩ | ⟨ps', names', noted, hleaves', -, hnoted, hread⟩
  · rw [parse, hread] at hparse
    cases hparse
  · rw [parse, hread] at hparse
    obtain rfl := Except.ok.inj hparse
    rw [hleaves'.names_eq hleaves] at hnoted
    exact ⟨noted, hnoted, hread⟩

/-- The lenient mode loses no name silently. The segments in front give the parameters, and the names of
those behind, if there are any, are noted once, with the whole text; the names of the parameters and then
these names are the first words of the segments that are not blank. All other events are steps of a scan.
With another text behind the end of the list, only the text noted with the names is another. -/
theorem read_lenient (h : parse .lenient text = .ok ps) :
    ∃ segs list rest names steps noted, ListOf segs list ∧ text.toList = list ++ rest ∧
      LeavesOver segs ps names ∧
      List.Forall₂ (fun segment name => FirstWord (trim segment) name.toList)
        (segs.filter fun segment => !isBlank segment) (ps.map Parameter.name ++ names) ∧
      (∀ event ∈ steps, event.level = .trace) ∧ DropNoted names text noted ∧
      (read .lenient text).events = steps ++ noted ∧
      ∀ text' rest', text'.toList = list ++ rest' → text'.toList.getLast? = some ')' →
        ∃ noted', DropNoted names text' noted' ∧
          read .lenient text' = ⟨.ok ps, steps ++ noted'⟩ := by
  rcases same_error_or_listOf text with ⟨e, he⟩ | ⟨hhead, hlast, segs, list, rest, hsegs, htext⟩
  · rw [he .lenient] at h
    cases h
  obtain ⟨names, hleaves⟩ := (parse_lenient_iff hhead hlast hsegs htext).mp h
  obtain ⟨noted, hnoted, hread⟩ := read_lenient_of_listOf hlast hsegs htext hleaves
  refine ⟨segs, list, rest, names, scanEvents list ++ boundaryEvents 1 segs, noted, hsegs, htext, hleaves,
    hleaves.firstWords, ?_, hnoted, by rw [hread], ?_⟩
  · intro event hmem
    rcases List.mem_append.mp hmem with hscan | hboundary
    · exact (reports_of_mem_scanEvents hscan).level_eq
    · exact (reports_of_mem_boundaryEvents hboundary).level_eq
  · intro text' rest' htext' hlast'
    exact read_lenient_of_listOf hlast' hsegs htext' hleaves

/-- Bare names are left over behind a typed one and behind a blank segment. -/
theorem read_lenient_at_two_left_over :
    parse .lenient "(a, , b int, c, , d)(e)" = .ok [⟨"a", "int"⟩, ⟨"b", "int"⟩] ∧
    ∃ segs list rest names steps noted, ListOf segs list ∧
      "(a, , b int, c, , d)(e)".toList = list ++ rest ∧
      LeavesOver segs [⟨"a", "int"⟩, ⟨"b", "int"⟩] names ∧
      List.Forall₂ (fun segment name => FirstWord (trim segment) name.toList)
        (segs.filter fun segment => !isBlank segment) (["a", "b"] ++ names) ∧
      (∀ event ∈ steps, event.level = .trace) ∧
      DropNoted names "(a, , b int, c, , d)(e)" noted ∧
      (read .lenient "(a, , b int, c, , d)(e)").events = steps ++ noted ∧
      ∀ text' rest', text'.toList = list ++ rest' → text'.toList.getLast? = some ')' →
        ∃ noted', DropNoted names text' noted' ∧
          read .lenient text' = ⟨.ok [⟨"a", "int"⟩, ⟨"b", "int"⟩], steps ++ noted'⟩ := by
  have h : parse .lenient "(a, , b int, c, , d)(e)" = .ok [⟨"a", "int"⟩, ⟨"b", "int"⟩] := rfl
  exact ⟨h, read_lenient h⟩

example : (Logged.atLeast .debug (read .lenient "(a, , b int, c, , d)(e)")).events =
    [.dropped ["c", "d"] "(a, , b int, c, , d)(e)"] := by
  rfl

end ParameterList

end FuncType
