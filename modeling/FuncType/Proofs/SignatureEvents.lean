import FuncType.Proofs.ListEvents

/-!
# What the reading of a signature notes

A text that does not start like a signature is refused without a look at the rest of it. Otherwise what
stands behind `func` is scanned up to the place where the depth returns to zero, or to its end if there is
no such place, and then it is refused. Up to that place stands the list of parameters. It is read on its
own: scanned once more, with the same events, and its segments are placed. At most one event of the
outcome follows, the error if the list is refused and the names left over if there are any.

`Signature.EventStream` states this without the reader, with the level and the line of each event, and
`Signature.eventStream_read` that the events of every reading are of this form.
-/

namespace FuncType

namespace Signature

open ParameterList

/-- How the events of a reading end that has found a list of some segments. -/
inductive Outcome (mode : Mode) (text list : String) (segs : List (List Char)) : List Event → Prop where
  /-- The list is refused, which the strict mode does for one of two reasons. -/
  | refused {fault : ListFault} {reason : String} (hmode : mode = .strict)
      (hreason : reason = "empty parameter" ∨ reason = "parameter without a type")
      (h : parse mode text = .error (.parameterList fault list))
      (hreports : (Event.rejected (.parameterList fault list)).Reports .debug
        (refusalLine "parameter list" list reason)) :
      Outcome mode text list segs [.rejected (.parameterList fault list)]
  /-- All names of the list have types. -/
  | complete {s : Signature} (h : parse mode text = .ok s) (hnames : LeavesOver segs s.params []) :
      Outcome mode text list segs []
  /-- Names are left over. -/
  | dropped {s : Signature} {names : List String} (hmode : mode = .lenient)
      (h : parse mode text = .ok s) (hnames : LeavesOver segs s.params names) (hne : names ≠ [])
      (hreports : (Event.dropped names list).Reports .debug
        ("Dropping untyped parameters " ++ quotedList names ++ " from " ++ quoted list)) :
      Outcome mode text list segs [.dropped names list]

/-- The events of reading a text as a signature. -/
inductive EventStream (mode : Mode) (text : String) : List Event → Prop where
  /-- The text does not start like a signature. -/
  | missingKeyword (hstart : ¬ "func(".toList <+: text.toList)
      (hreports : (Event.rejected (.signature .missingKeyword text)).Reports .debug
        (refusalLine "signature" text "missing `func(` prefix")) :
      EventStream mode text [.rejected (.signature .missingKeyword text)]
  /-- The depth returns to zero nowhere behind `func`. -/
  | unclosed {after : List Char} {block : List Event} (htext : text.toList = "func".toList ++ '(' :: after)
      (hnever : ∀ offset, ¬ ReturnsAt (utf8 ('(' :: after)) offset)
      (hblock : ScanOf (utf8 ('(' :: after)) block) (hsteps : ∀ event ∈ block, event.Reports .trace "scan")
      (hreports : (Event.rejected (.signature .unbalanced text)).Reports .debug
        (refusalLine "signature" text "unbalanced parentheses")) :
      EventStream mode text (block ++ [.rejected (.signature .unbalanced text)])
  /-- The depth returns to zero at the end of a list. -/
  | closed {after : List Char} {list : String} {segs : List (List Char)} {close : Nat}
      {block places outcome : List Event} (htext : text.toList = "func".toList ++ '(' :: after)
      (hreturns : ReturnsAt (utf8 ('(' :: after)) close)
      (hlist : utf8 list.toList = (utf8 ('(' :: after)).take (close + 1))
      (hsegs : ListOf segs list.toList) (hblock : ScanOf (utf8 list.toList) block)
      (hsteps : ∀ event ∈ block, event.Reports .trace "scan")
      (hplaces : Tiles (utf8 list.toList) close 1 segs places)
      (hcuts : ∀ event ∈ places, event.Reports .trace "boundary")
      (houtcome : Outcome mode text list segs outcome) :
      EventStream mode text (block ++ block ++ places ++ outcome)

variable {mode : Mode} {text : String}

theorem events_read_of_unclosed {after : List Char} (htext : text.toList = "func".toList ++ '(' :: after)
    (hcut : Group.cut? ('(' :: after) = none) :
    (read mode text).events = scanEvents ('(' :: after) ++ [.rejected (.signature .unbalanced text)] := by
  rw [read, afterKeyword?_of_eq htext]
  dsimp only
  rw [Logged.events_bind, Group.value_find?, hcut]
  rfl

theorem events_read_of_signatureOf {segs : List (List Char)} {list rest : List Char}
    (hsegs : ListOf segs list) (htext : text.toList = keyword.toList ++ list ++ rest) :
    (read mode text).events =
      scanEvents list ++ (ParameterList.read mode (String.ofList list)).events := by
  obtain ⟨group, hcut, hgroup, -, -⟩ := hsegs.exists_group rest
  rw [read, afterKeyword?_of_listOf hsegs htext]
  dsimp only
  rw [Logged.events_bind, Group.value_find?, hcut]
  dsimp only
  rw [hgroup, Logged.events_bind, Logged.events_pure, List.append_nil, ← hsegs.scanEvents_append rest]
  rfl

/-- A list is refused for its segments, if nothing follows it. -/
theorem fault_of_read {segs : List (List Char)} {list : List Char} {fault : ListFault}
    {events : List Event} (hsegs : ListOf segs list)
    (hread : ParameterList.read mode (String.ofList list) =
      ⟨.error (.parameterList fault (String.ofList list)), events⟩) :
    mode = .strict ∧ (fault.reason = "empty parameter" ∨ fault.reason = "parameter without a type") := by
  rw [← String.toList_ofList (l := list)] at hsegs
  have hparse : ParameterList.parse mode (String.ofList list) = _ := ParameterList.parse_of_listOf hsegs
  rw [ParameterList.parse, hread] at hparse
  cases hok : ofSegments mode segs with
  | error fault' =>
    rw [hok] at hparse
    obtain ⟨rfl, -⟩ := SignatureError.parameterList.inj (Except.error.inj hparse)
    obtain ⟨hmode, hfault⟩ := ofSegments_fails_iff.mp ⟨fault, hok, rfl⟩
    exact ⟨hmode, hfault.reason_eq⟩
  | ok result =>
    rw [hok] at hparse
    cases hparse

/-- The last event of reading a list is the outcome of reading the signature. -/
theorem exists_outcome {segs : List (List Char)} {list rest : List Char} (mode : Mode)
    (hsegs : ListOf segs list) (htext : text.toList = keyword.toList ++ list ++ rest) :
    ∃ outcome, Outcome mode text (String.ofList list) segs outcome ∧
      (ParameterList.read mode (String.ofList list)).events =
        scanEvents list ++ boundaryEvents 1 segs ++ outcome := by
  have hparse : parse mode text = _ := parse_of_signatureOf hsegs htext
  have hchars : (String.ofList list).toList = list ++ [] := by
    rw [String.toList_ofList, List.append_nil]
  obtain ⟨hhead, hlast⟩ := isEnclosed_iff.mp (isEnclosed_of_listOf hsegs)
  rw [← List.append_nil list, ← hchars] at hhead hlast
  rw [ParameterList.parse] at hparse
  rcases read_of_listOf mode hhead hlast hsegs hchars with
    ⟨fault, hread⟩ | ⟨ps, names, noted, hleaves, hstrict, hnoted, hread⟩
  · obtain ⟨hmode, hreason⟩ := fault_of_read hsegs hread
    rw [hread] at hparse
    exact ⟨_, .refused hmode hreason hparse (reports_rejected _), by rw [hread]⟩
  · rw [hread] at hparse
    refine ⟨noted, ?_, by rw [hread]⟩
    cases hnoted with
    | nothing hnames => exact .complete hparse (hnames ▸ hleaves)
    | dropped hne hreports =>
      cases mode with
      | strict => exact absurd (hstrict rfl) hne
      | lenient => exact .dropped rfl hparse hleaves hne hreports

/-- In both modes and for every text, the events of reading the text as a signature are those of the
form that `EventStream` describes. -/
theorem eventStream_read (mode : Mode) (text : String) : EventStream mode text (read mode text).events := by
  by_cases hstart : "func(".toList <+: text.toList
  case neg =>
    rw [read, afterKeyword?_of_not_start hstart]
    exact .missingKeyword hstart (reports_rejected _)
  obtain ⟨after, hafter⟩ := hstart
  have htext : text.toList = "func".toList ++ '(' :: after := hafter.symm
  cases hcut : Group.cut? ('(' :: after) with
  | none =>
    obtain ⟨hblock, hnever⟩ := scanOf_of_unclosed hcut
    rw [events_read_of_unclosed htext hcut]
    exact .unclosed htext hnever hblock (fun _ => reports_of_mem_scanEvents) (reports_rejected _)
  | some group =>
    obtain ⟨hgroup, hbody⟩ := Group.cut?_eq_some_iff.mp hcut
    have hsegs := Group.listOf_segments hbody
    have htext' : text.toList = keyword.toList ++ group.text ++ group.rest := by
      rw [htext, hgroup, List.append_assoc]
      rfl
    -- both scans stop at `close`: the first one by where the depth returns, the second one at the end
    obtain ⟨close, hclose, hreturns⟩ := hsegs.returnsAt group.rest
    obtain ⟨outcome, houtcome, hevents⟩ := exists_outcome mode hsegs htext'
    have hlist : utf8 group.text = (utf8 ('(' :: after)).take (close + 1) := by
      rw [hgroup, utf8_append, hclose, List.take_left]
    rw [← hgroup] at hreturns
    rw [events_read_of_signatureOf hsegs htext', hevents, ← List.append_assoc, ← List.append_assoc]
    refine .closed htext hreturns ?_ ?_ ?_ (fun _ => reports_of_mem_scanEvents) ?_
      (fun _ => reports_of_mem_boundaryEvents) houtcome
    · rw [String.toList_ofList]
      exact hlist
    · rw [String.toList_ofList]
      exact hsegs
    · rw [String.toList_ofList]
      exact hsegs.scanOf
    · rw [String.toList_ofList]
      exact hsegs.tiles hclose

example : (read .lenient "func(a) b").events =
    [.scan 0 0x28 1, .scan 1 0x61 1, .scan 2 0x29 0, .scan 0 0x28 1, .scan 1 0x61 1, .scan 2 0x29 0,
      .boundary 1 2 "a", .dropped ["a"] "(a)"] := by
  rfl

end Signature

end FuncType
