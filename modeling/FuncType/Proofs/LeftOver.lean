import FuncType.Proofs.AcceptedLists
import Mathlib.Data.List.DropRight
import Mathlib.Data.List.Forall2

/-!
# Names that are left over

The segments of a list that are not blank fall into two parts. The last segment with white space between
its ends, and all segments in front of it, declare parameters; the segments behind it are bare names, with
no type to share. These names are left over (`LeavesOver`). The declarations of the segments stand for
exactly these parameters and these names (`expand_declarations_iff`), and this is all that the lenient
mode makes of segments (`ofSegments_lenient`).
-/

namespace FuncType

open Declaration

namespace Parameter

theorem expand_bare {ds : List Declaration} (h : ∀ d ∈ ds, d.type? = none) :
    expand ds = ([], ds.map Declaration.name) := by
  induction ds with
  | nil => rfl
  | cons d more ih =>
    obtain ⟨hd, hmore⟩ := List.forall_mem_cons.mp h
    rw [expand, ih hmore, hd]
    rfl

theorem expand_append_bare (front : List Declaration) {back : List Declaration}
    (hback : ∀ d ∈ back, d.type? = none) :
    expand (front ++ back) = ((expand front).1, (expand front).2 ++ back.map Declaration.name) := by
  induction front with
  | nil => exact expand_bare hback
  | cons d more ih =>
    rw [List.cons_append, expand, ih, expand]
    rcases expand more with ⟨params, leftOver⟩
    rcases d with ⟨name, _ | type⟩
    · cases params <;> rfl
    · rfl

end Parameter

namespace ParameterList

/-- Segments declare parameters and leave names over: without the blank ones, the segments in front
declare the parameters, and the names are those behind, which have no white space between their ends. -/
def LeavesOver (segs : List (List Char)) (ps : List Parameter) (names : List String) : Prop :=
  ∃ front back, segs.filter (fun segment => !isBlank segment) = front ++ back ∧ Declares front ps ∧
    (∀ segment ∈ back, ¬ HasSpace (trim segment)) ∧
    names = back.map fun segment => String.ofList (trim segment)

variable {segs : List (List Char)} {ps : List Parameter} {names : List String}

/-- Segments can be cut behind the last one that has white space between its ends. -/
theorem exists_append_bare (segs : List (List Char)) :
    ∃ front back, segs = front ++ back ∧ (∀ segment ∈ front.getLast?, HasSpace (trim segment)) ∧
      ∀ segment ∈ back, ¬ HasSpace (trim segment) := by
  let bare : List Char → Bool := fun segment => (ofSegment segment).type?.isNone
  refine ⟨segs.rdropWhile bare, segs.rtakeWhile bare, List.rdropWhile_append_rtakeWhile.symm, ?_, ?_⟩
  · intro segment hlast
    obtain ⟨hne, rfl⟩ := List.mem_getLast?_eq_getLast hlast
    have htyped := List.rdropWhile_last_not bare segs hne
    simpa [bare, type?_eq_none_iff] using htyped
  · intro segment hmem
    have hbare := List.mem_rtakeWhile_imp hmem
    exact type?_eq_none_iff.mp (Option.isNone_iff_eq_none.mp hbare)

theorem expand_append_of_bare (front : List (List Char)) {back : List (List Char)}
    (hback : ∀ segment ∈ back, ¬ HasSpace (trim segment)) :
    Parameter.expand ((front ++ back).map ofSegment) =
      ((Parameter.expand (front.map ofSegment)).1, (Parameter.expand (front.map ofSegment)).2 ++
        back.map fun segment => String.ofList (trim segment)) := by
  have hbare : ∀ d ∈ back.map ofSegment, d.type? = none := by
    intro d hd
    obtain ⟨segment, hmem, rfl⟩ := List.mem_map.mp hd
    exact type?_eq_none_iff.mpr (hback segment hmem)
  have hnames : (back.map ofSegment).map Declaration.name =
      back.map fun segment => String.ofList (trim segment) := by
    rw [List.map_map]
    refine List.map_congr_left fun segment hmem => ?_
    rw [trim_of_bare (type?_eq_none_iff.mpr (hback segment hmem)), String.ofList_toList]
    rfl
  rw [List.map_append, Parameter.expand_append_bare _ hbare, hnames]

/-- What the declarations of segments stand for is what the segments declare and leave over. -/
theorem expand_declarations_iff :
    Parameter.expand (declarations segs) = (ps, names) ↔ LeavesOver segs ps names := by
  constructor
  · intro h
    obtain ⟨front, back, heq, htyped, hback⟩ :=
      exists_append_bare (segs.filter fun segment => !isBlank segment)
    -- `front` ends with a typed segment, so that all names left over come from `back`
    have hleft := leftOver_eq_nil_iff_lastTyped.mpr htyped
    rw [declarations, heq, expand_append_of_bare front hback, hleft, List.nil_append] at h
    obtain ⟨hps, hnames⟩ := Prod.mk.inj h
    have hno : ∀ segment ∈ front, isBlank segment = false := by
      intro segment hmem
      have hkept : segment ∈ segs.filter fun segment => !isBlank segment := by
        rw [heq]
        exact List.mem_append_left back hmem
      simpa using (List.mem_filter.mp hkept).2
    exact ⟨front, back, heq, declares_iff.mpr ⟨hno, Prod.ext hps hleft⟩, hback, hnames.symm⟩
  · rintro ⟨front, back, heq, hdeclares, hback, rfl⟩
    rw [declarations, heq, expand_append_of_bare front hback, (declares_iff.mp hdeclares).2,
      List.nil_append]

theorem LeavesOver.names_eq {names' : List String} (h : LeavesOver segs ps names)
    (h' : LeavesOver segs ps names') : names = names' := by
  have heq := (expand_declarations_iff.mpr h).symm.trans (expand_declarations_iff.mpr h')
  exact congrArg Prod.snd heq

/-- The names of the parameters and the names left over are the first words of the segments that are
not blank. -/
theorem LeavesOver.names_append (h : LeavesOver segs ps names) :
    ps.map Parameter.name ++ names =
      (segs.filter fun segment => !isBlank segment).map fun segment =>
        String.ofList (word (trim segment)) := by
  have hnames := Parameter.names_expand (declarations segs)
  rw [expand_declarations_iff.mpr h, declarations, List.map_map] at hnames
  exact hnames

/-- Each of these names is the first word of its segment. -/
theorem LeavesOver.firstWords (h : LeavesOver segs ps names) :
    List.Forall₂ (fun segment name => FirstWord (trim segment) name.toList)
      (segs.filter fun segment => !isBlank segment) (ps.map Parameter.name ++ names) := by
  rw [h.names_append, List.forall₂_map_right_iff, List.forall₂_same]
  intro segment _
  rw [firstWord_iff, String.toList_ofList]

/-- The lenient mode refuses no segments. -/
theorem ofSegments_lenient (segs : List (List Char)) :
    ofSegments .lenient segs = .ok (Parameter.expand (declarations segs)) :=
  ofSegments_eq_ok_iff.mpr ⟨rfl, fun hstrict => nomatch hstrict⟩

theorem ofSegments_lenient_iff :
    ofSegments .lenient segs = .ok (ps, names) ↔ LeavesOver segs ps names := by
  rw [ofSegments_lenient, Except.ok.injEq]
  exact expand_declarations_iff

end ParameterList

end FuncType
