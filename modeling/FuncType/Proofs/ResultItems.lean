import FuncType.ResultList
import FuncType.Proofs.Modes

/-!
# A list of parameters as a list of results

The same list can be read as one of results and as one of parameters. The results are the segments that
are not blank, without the white space around them. Each of them is cut at its first run of white space
(`CutAtSpace`), and if every word is given the first remainder that is not empty, its own or that of a
later result, these are the parameters (`Parameter.ofCuts`). So both readings see the same segments, and
the reading of parameters does no more with them than this (`ResultList.ofCuts_parse`).
-/

namespace FuncType

open Declaration

/-- A text is cut at its first run of white space, into its first word and what follows the run. Without
white space, nothing follows. -/
structure CutAtSpace (text : List Char) (cut : List Char × List Char) : Prop where
  word : FirstWord text cut.1
  rest : AfterFirstRun text cut.2 ∨ ¬ HasSpace text ∧ cut.2 = []

/-- A text is cut in one way only. -/
theorem cutAtSpace_iff {text : List Char} {cut : List Char × List Char} :
    CutAtSpace text cut ↔ cut = (word text, afterWord text) := by
  constructor
  · rintro ⟨hword, hrest⟩
    refine Prod.ext (firstWord_iff.mp hword) ?_
    rcases hrest with hafter | ⟨hno, hnil⟩
    · exact (afterFirstRun_iff.mp hafter).2
    · rcases eq_word_or text with ⟨-, hafter⟩ | ⟨run, hne, hrun, htext⟩
      · rw [hnil, hafter]
      · rw [htext] at hno
        exact absurd (hasSpace_of_run hne hrun) hno
  · rintro rfl
    refine ⟨firstWord_iff.mpr rfl, ?_⟩
    rcases eq_word_or text with ⟨htext, hafter⟩ | ⟨run, hne, hrun, htext⟩
    · refine Or.inr ⟨?_, hafter⟩
      rw [htext]
      exact not_hasSpace_word text
    · refine Or.inl (afterFirstRun_iff.mpr ⟨?_, rfl⟩)
      rw [htext]
      exact hasSpace_of_run hne hrun

theorem forall₂_cutAtSpace (texts : List (List Char)) :
    List.Forall₂ CutAtSpace texts (texts.map fun text => (word text, afterWord text)) := by
  rw [List.forall₂_map_right_iff, List.forall₂_same]
  exact fun text _ => cutAtSpace_iff.mpr rfl

namespace Parameter

/-- The words of cut texts, each with the first remainder behind a word that is not empty, its own or
that of a later text. Words without such a remainder are left out. -/
def ofCuts : List (List Char × List Char) → List Parameter
  | [] => []
  | (word, rest) :: more =>
    match (rest :: more.map Prod.snd).find? (· ≠ []) with
    | some type => ⟨String.ofList word, String.ofList type⟩ :: ofCuts more
    | none => ofCuts more

theorem find?_afterWord (segs : List (List Char)) :
    ((segs.map trim).map afterWord).find? (· ≠ []) =
      (expand (segs.map ofSegment)).1.head?.map fun p => p.type.toList := by
  induction segs with
  | nil => rfl
  | cons segment more ih =>
    rw [List.map_cons, List.map_cons, List.map_cons]
    obtain ⟨type, htype, heq⟩ | ⟨next, rest, hbare, hmore, heq⟩ | ⟨hbare, hmore, heq⟩ :=
      expand_cons (ofSegment segment) (more.map ofSegment)
    · obtain ⟨-, hafter⟩ := afterFirstRun_iff.mp (type?_eq_some_iff.mp htype)
      have hne : type.toList ≠ [] := by simpa using type_ne_empty htype
      rw [heq, ← hafter, List.find?_cons_of_pos (by simpa using hne)]
      rfl
    · have hafter := (afterWord_eq_nil_iff (isTrimmed_trim segment)).mpr (type?_eq_none_iff.mp hbare)
      rw [heq, hafter, List.find?_cons_of_neg (by simp), ih, hmore]
      rfl
    · have hafter := (afterWord_eq_nil_iff (isTrimmed_trim segment)).mpr (type?_eq_none_iff.mp hbare)
      rw [heq, hafter, List.find?_cons_of_neg (by simp), ih, hmore]

/-- The trimmed segments, cut, have the parameters that the declarations in the segments stand for. -/
theorem ofCuts_map_trim (segs : List (List Char)) :
    ofCuts ((segs.map trim).map fun text => (word text, afterWord text)) =
      (expand (segs.map ofSegment)).1 := by
  induction segs with
  | nil => rfl
  | cons segment more ih =>
    have hname : String.ofList (word (trim segment)) = (ofSegment segment).name := rfl
    have hsnd : (((more.map trim).map fun text => (word text, afterWord text)).map Prod.snd) =
        (more.map trim).map afterWord := by
      rw [List.map_map]
      rfl
    have hfind : (afterWord (trim segment) :: (more.map trim).map afterWord).find? (· ≠ []) =
        (expand (ofSegment segment :: more.map ofSegment)).1.head?.map fun p => p.type.toList :=
      find?_afterWord (segment :: more)
    rw [List.map_cons, List.map_cons, List.map_cons, ofCuts, hsnd, hfind, hname, ih]
    obtain ⟨type, -, heq⟩ | ⟨next, rest, -, hmore, heq⟩ | ⟨-, hmore, heq⟩ :=
      expand_cons (ofSegment segment) (more.map ofSegment)
    · simp [heq]
    · simp [heq, hmore]
    · simp [heq, hmore]

end Parameter

theorem isEmpty_trim (text : List Char) : (trim text).isEmpty = isBlank text := by
  rw [Bool.eq_iff_iff, List.isEmpty_iff]
  exact trim_eq_nil_iff

theorem ListOf.isTrimmed {segs : List (List Char)} {text : List Char} (h : ListOf segs text) :
    IsTrimmed text := by
  obtain ⟨hopen, hclose, -⟩ := isSpace_signs
  rw [h.text_eq]
  refine ⟨fun c hc => ?_, fun c hc => ?_⟩
  · obtain rfl : '(' = c := by simpa using hc
    exact hopen
  · rw [List.getLast?_concat] at hc
    obtain rfl : ')' = c := by simpa using hc
    exact hclose

namespace ResultList

variable {segs : List (List Char)} {text : String}

/-- The results of a list are its segments that are not blank, without the white space around them. -/
theorem parse_of_listOf (h : ListOf segs text.toList) :
    (parse text).map String.toList = (segs.filter fun segment => !isBlank segment).map trim := by
  obtain ⟨group, hcut, -, hrest, hsegments⟩ := h.exists_group []
  rw [List.append_nil] at hcut
  have hblank : (fun text : List Char => !text.isEmpty) ∘ trim = fun segment => !isBlank segment := by
    funext segment
    rw [Function.comp_apply, isEmpty_trim]
  rw [parse_eq, trim_eq_self h.isTrimmed, hcut]
  dsimp only
  rw [if_pos hrest, hsegments, ofSegments, List.map_map, List.filter_map, hblank, List.map_map]
  refine List.map_congr_left fun segment _ => ?_
  exact String.toList_ofList

/-- A list whose level first returns to zero at its end is read by the lenient mode as the parameters
that its results give, each cut at its first run of white space. If the strict mode accepts it, there is a
parameter for every result, with the first word of the result for its name. -/
theorem ofCuts_parse {list : String} (h : ClosesAtEnd list.toList) :
    (∃ cuts, List.Forall₂ CutAtSpace ((parse list).map String.toList) cuts ∧
        ParameterList.parse .lenient list = .ok (Parameter.ofCuts cuts)) ∧
      ∀ ps, ParameterList.parse .strict list = .ok ps →
        (parse list).length = ps.length ∧
          ∀ (i : Nat) (result : String) (p : Parameter), (parse list)[i]? = some result →
            ps[i]? = some p → FirstWord result.toList p.name.toList := by
  obtain ⟨segs, hsegs⟩ := closesAtEnd_iff_listOf.mp h
  have hresults := parse_of_listOf hsegs
  refine ⟨⟨_, forall₂_cutAtSpace _, ?_⟩, fun ps hps => ?_⟩
  · rw [hresults, Parameter.ofCuts_map_trim, ParameterList.parse_of_listOf hsegs,
      ParameterList.ofSegments_lenient]
    rfl
  · obtain ⟨names, hread⟩ := (ParameterList.parse_eq_ok_iff_of_listOf hsegs).mp hps
    obtain ⟨hleaves, -, rfl⟩ := ParameterList.ofSegments_strict_iff.mp hread
    have hnames : ps.map Parameter.name =
        ((parse list).map String.toList).map fun result => String.ofList (word result) := by
      have happend := hleaves.names_append
      rw [List.append_nil] at happend
      rw [happend, hresults, List.map_map]
      rfl
    refine ⟨?_, fun i result p hresult hp => ?_⟩
    · simpa using (congrArg List.length hnames).symm
    · have hget := congrArg (·[i]?) hnames
      simp only [List.getElem?_map, hresult, hp, Option.map_some, Option.some.injEq] at hget
      rw [firstWord_iff, hget, String.toList_ofList]

/-- A bare name takes what follows the first word of the next result, commas in parentheses included. -/
theorem ofCuts_parse_at_nested_list :
    ClosesAtEnd "(a, f func(b, c) d)".toList ∧
      (∃ cuts, List.Forall₂ CutAtSpace ((parse "(a, f func(b, c) d)").map String.toList) cuts ∧
        ParameterList.parse .lenient "(a, f func(b, c) d)" = .ok (Parameter.ofCuts cuts)) ∧
      (parse "(a, f func(b, c) d)").length = 2 ∧
      ∀ (i : Nat) (result : String) (p : Parameter),
        (parse "(a, f func(b, c) d)")[i]? = some result →
          [Parameter.mk "a" "func(b, c) d", ⟨"f", "func(b, c) d"⟩][i]? = some p →
          FirstWord result.toList p.name.toList := by
  have h : ClosesAtEnd "(a, f func(b, c) d)".toList := Group.closesAtEnd_of_cut? rfl
  have hstrict : ParameterList.parse .strict "(a, f func(b, c) d)" =
      .ok [⟨"a", "func(b, c) d"⟩, ⟨"f", "func(b, c) d"⟩] := rfl
  obtain ⟨hlenient, hnames⟩ := ofCuts_parse h
  obtain ⟨hlength, hwords⟩ := hnames _ hstrict
  exact ⟨h, hlenient, hlength, hwords⟩

example : (parse "(a, , b int, c)").map String.toList = ["a".toList, "b int".toList, "c".toList] ∧
    Parameter.ofCuts [("a".toList, []), ("b".toList, "int".toList), ("c".toList, [])] =
      [⟨"a", "int"⟩, ⟨"b", "int"⟩] := by
  exact ⟨rfl, rfl⟩

end ResultList

end FuncType
