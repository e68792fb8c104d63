import FuncType.ParameterList
import FuncType.Proofs.Declarations
import FuncType.Proofs.Splitting

/-!
# Which lists are accepted, and what they mean

Reading a list in parentheses is reading its segments (`ParameterList.parse_of_listOf`). Blank
segments apart, the segments are declarations, and the parameters are what these stand for; the
strict mode asks in addition that no segment is blank, unless it is the only one, and that no name is
left over (`ParameterList.ofSegments_eq_ok_iff`).

For the strict mode this is said once more without the reader: `Declares` relates the segments of a
list to parameters by first words and first runs of white space, and the list is accepted with
exactly the parameters that its segments declare.
-/

namespace FuncType

/-! ## Segments -/

namespace ParameterList

/-- The declarations in the segments that are not blank. -/
def declarations (segs : List (List Char)) : List Declaration :=
  (segs.filter fun s => !isBlank s).map Declaration.ofSegment

theorem mem_declarations {segs : List (List Char)} {d : Declaration} :
    d ∈ declarations segs ↔
      ∃ segment ∈ segs, isBlank segment = false ∧ Declaration.ofSegment segment = d := by
  simp [declarations, and_assoc]

theorem declarations_of_noBlank {segs : List (List Char)}
    (h : ∀ segment ∈ segs, isBlank segment = false) :
    declarations segs = segs.map Declaration.ofSegment := by
  rw [declarations, List.filter_eq_self.mpr]
  simpa using h

/-- A parameter has its name from a segment that has its type, too, or else no type, and its type from
a segment. -/
theorem exists_segments_of_mem_expand {segs : List (List Char)} {p : Parameter}
    (hp : p ∈ (Parameter.expand (declarations segs)).1) :
    (∃ segment ∈ segs, isBlank segment = false ∧ (Declaration.ofSegment segment).name = p.name ∧
        ((Declaration.ofSegment segment).type? = some p.type ∨
          (Declaration.ofSegment segment).type? = none)) ∧
      ∃ source ∈ segs, (Declaration.ofSegment source).type? = some p.type := by
  obtain ⟨d, hd, hname, htype⟩ := Parameter.exists_name_of_mem_expand hp
  obtain ⟨d', hd', htype'⟩ := Parameter.exists_type_of_mem_expand hp
  obtain ⟨segment, hmem, hblank, rfl⟩ := mem_declarations.mp hd
  obtain ⟨source, hmem', -, rfl⟩ := mem_declarations.mp hd'
  exact ⟨⟨segment, hmem, hblank, hname, htype⟩, source, hmem', htype'⟩

theorem mem_expand_of_typed {segs : List (List Char)} {segment : List Char} {type : String}
    (hmem : segment ∈ segs) (htype : (Declaration.ofSegment segment).type? = some type) :
    ⟨(Declaration.ofSegment segment).name, type⟩ ∈ (Parameter.expand (declarations segs)).1 := by
  refine Parameter.mem_expand_of_typed (mem_declarations.mpr ⟨segment, hmem, ?_, rfl⟩) htype
  exact Declaration.isBlank_of_typed htype

theorem isEmpty_iff {segs : List (List Char)} :
    isEmpty segs = true ↔ ∃ segment, segs = [segment] ∧ isBlank segment = true := by
  rcases segs with _ | ⟨segment, _ | ⟨next, more⟩⟩ <;> simp [isEmpty]

theorem declarations_of_isEmpty {segs : List (List Char)} (h : isEmpty segs = true) :
    declarations segs = [] := by
  obtain ⟨segment, rfl, hblank⟩ := isEmpty_iff.mp h
  simp [declarations, hblank]

/-- What is refused of a list that is not empty, in this order, and what is accepted. -/
theorem ofSegments_eq (mode : Mode) (segs : List (List Char)) :
    ofSegments mode segs =
      if isEmpty segs then .ok ([], [])
      else if mode = .strict ∧ segs.any isBlank then .error .emptyParameter
      else if mode = .strict ∧ (Parameter.expand (declarations segs)).2 ≠ [] then
        .error .untypedParameter
      else .ok (Parameter.expand (declarations segs)) :=
  rfl

/-- Segments are accepted with the parameters and the left over names of their declarations. The
strict mode accepts no left over names and no blank segment, but for the one of an empty list. -/
theorem ofSegments_eq_ok_iff {mode : Mode} {segs : List (List Char)} {ps : List Parameter}
    {leftOver : List String} :
    ofSegments mode segs = .ok (ps, leftOver) ↔
      Parameter.expand (declarations segs) = (ps, leftOver) ∧
        (mode = .strict →
          (isEmpty segs = true ∨ ∀ segment ∈ segs, isBlank segment = false) ∧ leftOver = []) := by
  rw [ofSegments_eq]
  by_cases hempty : isEmpty segs = true
  · rw [if_pos hempty, declarations_of_isEmpty hempty]
    simp only [Parameter.expand, Except.ok.injEq, Prod.mk.injEq, hempty, true_or, true_and]
    constructor
    · rintro ⟨rfl, rfl⟩
      exact ⟨⟨rfl, rfl⟩, fun _ => rfl⟩
    · exact And.left
  rw [if_neg hempty]
  split
  case isTrue h =>
    obtain ⟨hmode, hany⟩ := h
    obtain ⟨segment, hmem, hblank⟩ := List.any_eq_true.mp hany
    constructor
    · intro heq
      cases heq
    · rintro ⟨-, hstrict⟩
      rcases (hstrict hmode).1 with h | h
      · exact absurd h hempty
      · rw [h segment hmem] at hblank
        cases hblank
  case isFalse hblank =>
    have hno : mode = .strict → ∀ segment ∈ segs, isBlank segment = false := by
      intro hmode
      simpa [hmode] using hblank
    split
    case isTrue h =>
      obtain ⟨hmode, hleft⟩ := h
      constructor
      · intro heq
        cases heq
      · rintro ⟨heq, hstrict⟩
        rw [heq] at hleft
        exact absurd (hstrict hmode).2 hleft
    case isFalse hleft =>
      constructor
      · intro heq
        have heq := Except.ok.inj heq
        rw [heq] at hleft
        refine ⟨heq, fun hmode => ⟨Or.inr (hno hmode), ?_⟩⟩
        simpa [hmode] using hleft
      · rintro ⟨heq, -⟩
        rw [heq]

/-! ## Lists in parentheses -/

theorem isEnclosed_of_listOf {segs : List (List Char)} {text : List Char} (h : ListOf segs text) :
    isEnclosed text = true := by
  rw [h.text_eq, isEnclosed, List.getLast?_concat]
  simp

/-- In both modes, reading a list in parentheses is reading its segments. -/
theorem parse_of_listOf {mode : Mode} {segs : List (List Char)} {text : String}
    (h : ListOf segs text.toList) :
    parse mode text =
      match ofSegments mode segs with
      | .error fault => .error (.parameterList fault text)
      | .ok (params, _) => .ok params := by
  obtain ⟨group, hcut, -, hrest, hsegs⟩ := h.exists_group []
  rw [List.append_nil] at hcut
  rw [parse_eq, hcut, isEnclosed_of_listOf h]
  cases hok : ofSegments mode segs with
  | error fault => simp [hrest, hsegs, hok]
  | ok result => simp [hrest, hsegs, hok]

/-- What the strict mode accepts is the list of its segments. -/
theorem exists_listOf_of_parse_strict {text : String} {ps : List Parameter}
    (h : parse .strict text = .ok ps) : ∃ segs, ListOf segs text.toList := by
  rw [parse_eq] at h
  split at h
  · cases h
  · cases hcut : Group.cut? text.toList with
    | none => rw [hcut] at h; cases h
    | some group =>
      obtain ⟨htext, hbody⟩ := Group.cut?_eq_some_iff.mp hcut
      rw [hcut] at h
      dsimp only at h
      split at h
      case isTrue => cases h
      case isFalse hrest =>
        have hnil : group.rest = [] := Classical.not_not.mp fun hne => hrest ⟨rfl, hne⟩
        rw [hnil, List.append_nil] at htext
        exact ⟨group.segments, htext ▸ Group.listOf_segments hbody⟩

theorem parse_eq_ok_iff_of_listOf {mode : Mode} {segs : List (List Char)} {text : String}
    {ps : List Parameter} (h : ListOf segs text.toList) :
    parse mode text = .ok ps ↔ ∃ leftOver, ofSegments mode segs = .ok (ps, leftOver) := by
  rw [parse_of_listOf h]
  rcases ofSegments mode segs with fault | ⟨params, leftOver⟩ <;> simp

/-! ## The meaning of strict lists -/

/-- The parameters that the segments of a list declare, with no segment blank and no name without a
type: there is one for each segment, and it has the first word of that segment for its name, and for
its type what follows the first run of white space in the first segment from there on that has
white space between its ends. -/
structure Declares (segs : List (List Char)) (ps : List Parameter) : Prop where
  noBlank : ∀ segment ∈ segs, isBlank segment = false
  lastTyped : ∀ segment ∈ segs.getLast?, HasSpace (trim segment)
  length_eq : ps.length = segs.length
  name : ∀ (i : Nat) (segment : List Char) (p : Parameter), segs[i]? = some segment →
    ps[i]? = some p → FirstWord (trim segment) p.name.toList
  type : ∀ (i : Nat) (p : Parameter), ps[i]? = some p →
    ∃ j segment, i ≤ j ∧ segs[j]? = some segment ∧ AfterFirstRun (trim segment) p.type.toList ∧
      ∀ (k : Nat) (other : List Char), i ≤ k → k < j → segs[k]? = some other →
        ¬ HasSpace (trim other)

theorem findSome?_type?_iff {segs : List (List Char)} {i : Nat} {type : String} :
    ((segs.map Declaration.ofSegment).drop i).findSome? Declaration.type? = some type ↔
      ∃ j segment, i ≤ j ∧ segs[j]? = some segment ∧ AfterFirstRun (trim segment) type.toList ∧
        ∀ k other, i ≤ k → k < j → segs[k]? = some other → ¬ HasSpace (trim other) := by
  rw [← List.map_drop, List.findSome?_map, findSome?_drop_eq_some_iff]
  simp only [Function.comp_apply, Declaration.type?_eq_some_iff, Declaration.type?_eq_none_iff]

theorem leftOver_eq_nil_iff_lastTyped {segs : List (List Char)} :
    (Parameter.expand (segs.map Declaration.ofSegment)).2 = [] ↔
      ∀ segment ∈ segs.getLast?, HasSpace (trim segment) := by
  rw [Parameter.leftOver_eq_nil_iff, List.getLast?_map]
  cases segs.getLast? with
  | none => simp
  | some segment => simp [Declaration.type?_eq_none_iff]

/-- Parameters with the names of all declarations have the first words of the segments. -/
theorem name_eq_word {segs : List (List Char)} {ps : List Parameter}
    (h : ps.map Parameter.name = (segs.map Declaration.ofSegment).map Declaration.name) {i : Nat}
    {segment : List Char} {p : Parameter} (hsegment : segs[i]? = some segment)
    (hp : ps[i]? = some p) : p.name.toList = Declaration.word (trim segment) := by
  have hget := congrArg (·[i]?) h
  simp only [List.getElem?_map, hsegment, hp, Option.map_some, Option.some.injEq] at hget
  rw [hget]
  exact Declaration.name_ofSegment segment

/-- Segments declare what their declarations stand for, if none is blank and no name is left over. -/
theorem declares_iff {segs : List (List Char)} {ps : List Parameter} :
    Declares segs ps ↔ (∀ segment ∈ segs, isBlank segment = false) ∧
      Parameter.expand (segs.map Declaration.ofSegment) = (ps, []) := by
  have hnames := Parameter.names_expand (segs.map Declaration.ofSegment)
  constructor
  · intro h
    have hleft := leftOver_eq_nil_iff_lastTyped.mpr h.lastTyped
    rw [hleft, List.append_nil] at hnames
    have hlength : (Parameter.expand (segs.map Declaration.ofSegment)).1.length = segs.length := by
      simpa using congrArg List.length hnames
    refine ⟨h.noBlank, Prod.ext (List.ext_getElem ?_ fun i hi hi' => ?_) hleft⟩
    · rw [hlength, h.length_eq]
    · have hq := List.getElem?_eq_getElem hi
      have hp := List.getElem?_eq_getElem hi'
      have hsegment := List.getElem?_eq_getElem (hlength ▸ hi)
      have hword := name_eq_word hnames hsegment hq
      have hfirst := Declaration.firstWord_iff.mp (h.name i _ _ hsegment hp)
      have htype := Parameter.type_of_getElem?_expand hq
      have hdeclared := findSome?_type?_iff.mpr (h.type i _ hp)
      exact Parameter.ext (String.toList_inj.mp (hword.trans hfirst.symm))
        (Option.some.inj (htype.symm.trans hdeclared))
  · rintro ⟨hno, heq⟩
    rw [heq, List.append_nil] at hnames
    refine ⟨hno, leftOver_eq_nil_iff_lastTyped.mp (by rw [heq]), ?_, ?_, ?_⟩
    · simpa using congrArg List.length hnames
    · intro i segment p hsegment hp
      exact Declaration.firstWord_iff.mpr (name_eq_word hnames hsegment hp)
    · intro i p hp
      exact findSome?_type?_iff.mp (Parameter.type_of_getElem?_expand (by rw [heq]; exact hp))

/-- A strict list is accepted with the parameters that its segments declare, and with no parameters
if its only segment is blank; and it has its segments in one way only. -/
theorem parse_strict_eq_ok_iff (text : String) (ps : List Parameter) :
    (parse .strict text = .ok ps ↔ ∃ segs, ListOf segs text.toList ∧
      ((∃ segment, segs = [segment] ∧ isBlank segment = true ∧ ps = []) ∨ Declares segs ps)) ∧
    ∀ segs segs', ListOf segs text.toList → ListOf segs' text.toList → segs = segs' := by
  refine ⟨⟨fun h => ?_, ?_⟩, fun segs segs' h h' => h.unique h'⟩
  · obtain ⟨segs, hsegs⟩ := exists_listOf_of_parse_strict h
    obtain ⟨leftOver, hok⟩ := (parse_eq_ok_iff_of_listOf hsegs).mp h
    obtain ⟨hexpand, hstrict⟩ := ofSegments_eq_ok_iff.mp hok
    obtain ⟨hempty | hno, rfl⟩ := hstrict rfl
    · obtain ⟨segment, rfl, hblank⟩ := isEmpty_iff.mp hempty
      rw [declarations_of_isEmpty hempty] at hexpand
      exact ⟨[segment], hsegs, Or.inl ⟨segment, rfl, hblank, (congrArg Prod.fst hexpand).symm⟩⟩
    · rw [declarations_of_noBlank hno] at hexpand
      exact ⟨segs, hsegs, Or.inr (declares_iff.mpr ⟨hno, hexpand⟩)⟩
  · rintro ⟨segs, hsegs, h⟩
    refine (parse_eq_ok_iff_of_listOf hsegs).mpr ⟨[], ofSegments_eq_ok_iff.mpr ?_⟩
    rcases h with ⟨segment, rfl, hblank, rfl⟩ | h
    · have hempty : isEmpty [segment] = true := isEmpty_iff.mpr ⟨segment, rfl, hblank⟩
      rw [declarations_of_isEmpty hempty]
      exact ⟨rfl, fun _ => ⟨Or.inl hempty, rfl⟩⟩
    · obtain ⟨hno, hexpand⟩ := declares_iff.mp h
      rw [declarations_of_noBlank hno]
      exact ⟨hexpand, fun _ => ⟨Or.inr hno, rfl⟩⟩

end ParameterList

end FuncType
