import FuncType.Proofs.Refusals
import Mathlib.Data.List.Forall2

/-!
# White space between the parts of a list has no meaning

A segment can be written with other white space around it and with other white space for the first run
inside it (`Respaced`). Its declaration is all that this leaves unchanged: two segments are such
variants of one another exactly if they are read as the same declaration (`ofSegment_eq_iff`). So they
are blank alike, have the same signs, and stand for the same parameters.

A list is read by its segments and by what follows it (`ParameterList.parse_eq_verdict`). Therefore
another spacing of the segments does not change the outcome, whether it is a result or a refusal, and in
a signature the white space around the results does not, either (`sameOutcome_of_respaced`).
-/

namespace FuncType

/-- A segment with other white space around it, and for the first run of white space inside it, if there
is one. -/
inductive Respaced (segment : List Char) : List Char → Prop where
  /-- With no white space inside, there is nothing to change but the white space around the segment. -/
  | bare {u v : List Char} (hu : isBlank u = true) (hv : isBlank v = true)
      (hno : ¬ HasSpace (trim segment)) : Respaced segment (u ++ trim segment ++ v)
  /-- The first run of white space inside the segment becomes another one. -/
  | typed {u word run run' rest v : List Char} (hu : isBlank u = true) (hv : isBlank v = true)
      (htext : trim segment = word ++ run ++ rest) (hword : ¬ HasSpace word) (hne : run ≠ [])
      (hrun : isBlank run = true) (hrest : ∀ c ∈ rest.head?, isSpace c = false) (hne' : run' ≠ [])
      (hrun' : isBlank run' = true) : Respaced segment (u ++ (word ++ run' ++ rest) ++ v)

/-- Two readings have the same outcome: the same result, or errors of the same kind and for the same
reason. -/
inductive SameOutcome {α : Type} : Except SignatureError α → Except SignatureError α → Prop where
  /-- Both give the same result. -/
  | ok (a : α) : SameOutcome (.ok a) (.ok a)
  /-- Both refuse, and the errors differ at most in the text that they carry. -/
  | error {e e' : SignatureError} (hsubject : e.subject = e'.subject) (hreason : e.reason = e'.reason) :
      SameOutcome (.error e) (.error e')

theorem SameOutcome.map {α β : Type} {x y : Except SignatureError α} (h : SameOutcome x y) (f : α → β) :
    SameOutcome (x.map f) (y.map f) := by
  cases h with
  | ok a => exact .ok (f a)
  | error hsubject hreason => exact .error hsubject hreason

/-! ## Segments -/

namespace Declaration

variable {segment segment' : List Char}

theorem ofSegment_of_trim_eq (h : trim segment = trim segment') :
    ofSegment segment = ofSegment segment' := by
  rw [ofSegment, ofSegment, h]

theorem ofSegment_of_respaced (h : Respaced segment segment') :
    ofSegment segment = ofSegment segment' := by
  cases h with
  | bare hu hv _ => exact ofSegment_of_trim_eq (trim_append hu (isTrimmed_trim segment) hv).symm
  | @typed u word run run' rest v hu hv htext hword hne hrun hrest hne' hrun' =>
    have htype : (ofSegment segment).type? = some (String.ofList rest) := by
      rw [type?_eq_some_iff, String.toList_ofList]
      exact ⟨word, run, htext, hword, hne, hrun, hrest⟩
    have hname : (ofSegment segment).name.toList = word := by
      obtain ⟨c, more, rfl, hc⟩ := exists_cons_of_isBlank hne hrun
      rw [name_ofSegment, htext, List.append_assoc]
      exact word_append hword (by simpa using hc)
    have hread := ofSegment_append hu (name_ne_empty (isBlank_of_typed htype))
      (not_hasSpace_name segment) hne' hrun' (type_ne_empty htype) (isTrimmed_type htype) hv
    rw [hname, String.toList_ofList, ← htype] at hread
    exact hread.symm

/-- White space around a segment and the length and kind of its first run inside are all that reading a
segment forgets. -/
theorem ofSegment_eq_iff :
    ofSegment segment = ofSegment segment' ↔ Respaced segment segment' := by
  refine ⟨fun h => ?_, ofSegment_of_respaced⟩
  obtain ⟨u, v, hu, hv, hsegment'⟩ := exists_trim segment'
  cases htype : (ofSegment segment).type? with
  | none =>
    have hsame : trim segment' = trim segment := by
      rw [trim_of_bare htype, trim_of_bare (h ▸ htype), h]
    rw [hsegment', hsame]
    exact .bare hu hv (type?_eq_none_iff.mp htype)
  | some type =>
    obtain ⟨run, hne, hrun, htext⟩ := trim_of_typed htype
    obtain ⟨run', hne', hrun', htext'⟩ := trim_of_typed (h ▸ htype)
    rw [hsegment', htext', ← h]
    exact .typed hu hv htext (not_hasSpace_name segment) hne hrun (isTrimmed_type htype).head hne' hrun'

theorem isBlank_iff_name : isBlank segment = true ↔ (ofSegment segment).name = "" := by
  constructor
  · intro hblank
    rw [← String.toList_eq_nil_iff, name_ofSegment, trim_eq_nil_iff.mpr hblank]
    rfl
  · intro hname
    cases hblank : isBlank segment with
    | true => rfl
    | false => exact absurd hname (name_ne_empty hblank)

/-- The signs of a segment are those of its name and its type. -/
theorem signs_eq (segment : List Char) :
    signs segment =
      signs (ofSegment segment).name.toList ++ signs ((ofSegment segment).type?.elim [] String.toList) := by
  rw [← signs_trim]
  cases htype : (ofSegment segment).type? with
  | none =>
    rw [trim_of_bare htype]
    exact (List.append_nil _).symm
  | some type =>
    obtain ⟨run, -, hrun, htext⟩ := trim_of_typed htype
    rw [htext, signs_append, signs_append, signs_of_isBlank hrun, List.append_nil]
    rfl

end Declaration

/-- Other white space neither makes nor unmakes an item. -/
theorem Respaced.isItem {segment segment' : List Char} (h : Respaced segment segment')
    (hitem : IsItem segment) : IsItem segment' := by
  refine (isItem_congr ?_).mp hitem
  rw [Declaration.signs_eq segment, Declaration.signs_eq segment', Declaration.ofSegment_of_respaced h]

theorem Respaced.isBlank_eq {segment segment' : List Char} (h : Respaced segment segment') :
    isBlank segment = isBlank segment' := by
  rw [Bool.eq_iff_iff, Declaration.isBlank_iff_name, Declaration.isBlank_iff_name,
    Declaration.ofSegment_of_respaced h]

/-! ## Lists -/

section Segments

variable {segs segs' : List (List Char)} (h : List.Forall₂ Respaced segs segs')

include h

/-- The list of segments that are spaced in another way. -/
theorem ListOf.of_respaced {list : List Char} (hlist : ListOf segs list) :
    ListOf segs' ('(' :: [','].intercalate segs' ++ [')']) where
  ne_nil := by
    rintro rfl
    cases h
    exact hlist.ne_nil rfl
  isItem := by
    have hitems := hlist.isItem
    clear hlist
    induction h with
    | nil => exact hitems
    | cons hfirst _ ih =>
      obtain ⟨hitem, hmore⟩ := List.forall_mem_cons.mp hitems
      exact List.forall_mem_cons.mpr ⟨hfirst.isItem hitem, ih hmore⟩
  text_eq := rfl

namespace ParameterList

theorem isEmpty_of_respaced : isEmpty segs = isEmpty segs' := by
  cases h with
  | nil => rfl
  | cons hfirst hmore =>
    cases hmore with
    | nil => exact hfirst.isBlank_eq
    | cons => rfl

theorem any_isBlank_of_respaced : segs.any isBlank = segs'.any isBlank := by
  induction h with
  | nil => rfl
  | cons hfirst _ ih => rw [List.any_cons, List.any_cons, hfirst.isBlank_eq, ih]

theorem declarations_of_respaced : declarations segs = declarations segs' := by
  induction h with
  | nil => rfl
  | cons hfirst _ ih =>
    rw [declarations, declarations, List.filter_cons, List.filter_cons, hfirst.isBlank_eq]
    split
    · rw [List.map_cons, List.map_cons, Declaration.ofSegment_of_respaced hfirst]
      exact congrArg _ ih
    · exact ih

/-- Segments are accepted with the same parameters and refused for the same reason, however they are
spaced. -/
theorem ofSegments_of_respaced (mode : Mode) : ofSegments mode segs = ofSegments mode segs' := by
  rw [ofSegments_eq, ofSegments_eq, isEmpty_of_respaced h, any_isBlank_of_respaced h,
    declarations_of_respaced h]

end ParameterList

end Segments

namespace ParameterList

/-- What becomes of a list with some segments and with a text behind it. -/
def verdict (mode : Mode) (segs : List (List Char)) (rest : List Char) :
    Except ListFault (List Parameter) :=
  if rest ≠ [] ∧ rest.getLast? ≠ some ')' then .error .notEnclosed
  else if mode = .strict ∧ rest ≠ [] then .error .trailingText
  else (ofSegments mode segs).map Prod.fst

/-- A text with a list in its front is judged by the segments of the list and by what follows it. -/
theorem parse_eq_verdict {mode : Mode} {segs : List (List Char)} {list rest : List Char}
    {text : String} (hlist : ListOf segs list) (htext : text.toList = list ++ rest) :
    parse mode text = (verdict mode segs rest).mapError fun fault => .parameterList fault text := by
  have hhead : text.toList.head? = some '(' := by
    rw [htext, hlist.text_eq]
    rfl
  have hlast : text.toList.getLast? = some ')' ↔ ¬ (rest ≠ [] ∧ rest.getLast? ≠ some ')') := by
    rw [htext, List.getLast?_append, hlist.text_eq, List.getLast?_concat]
    cases hrest : rest.getLast? with
    | none => simp [List.getLast?_eq_none_iff.mp hrest]
    | some c =>
      have hne : rest ≠ [] := by
        rintro rfl
        cases hrest
      simp [hne]
  rw [verdict]
  split
  case isTrue hopen => exact parse_of_not_enclosed fun henclosed => hlast.mp henclosed.2 hopen
  case isFalse hclosed =>
    rw [parse_of_append hhead (hlast.mpr hclosed) hlist htext]
    split
    · rfl
    · cases ofSegments mode segs <;> rfl

theorem sameOutcome_mapError {α : Type} (result : Except ListFault α) (text text' : String) :
    SameOutcome (result.mapError fun fault => .parameterList fault text)
      (result.mapError fun fault => .parameterList fault text') := by
  cases result with
  | error fault => exact .error rfl rfl
  | ok a => exact .ok a

theorem sameOutcome_parse {mode : Mode} {segs segs' : List (List Char)} {list rest : List Char}
    {text text' : String} (hlist : ListOf segs list) (h : List.Forall₂ Respaced segs segs')
    (htext : text.toList = list ++ rest)
    (htext' : text'.toList = '(' :: [','].intercalate segs' ++ [')'] ++ rest) :
    SameOutcome (parse mode text) (parse mode text') := by
  have hverdict : verdict mode segs rest = verdict mode segs' rest := by
    rw [verdict, verdict, ofSegments_of_respaced h]
  rw [parse_eq_verdict hlist htext, parse_eq_verdict (hlist.of_respaced h) htext', hverdict]
  exact sameOutcome_mapError _ text text'

end ParameterList

/-! ## Signatures -/

theorem Signature.sameOutcome_parse {mode : Mode} {segs segs' : List (List Char)}
    {list rest rest' : List Char} {text text' : String} (hlist : ListOf segs list)
    (h : List.Forall₂ Respaced segs segs') (hrest : trim rest = trim rest')
    (htext : text.toList = "func".toList ++ list ++ rest)
    (htext' : text'.toList = "func".toList ++ ('(' :: [','].intercalate segs' ++ [')']) ++ rest') :
    SameOutcome (parse mode text) (parse mode text') := by
  rw [parse_of_signatureOf hlist htext, parse_of_signatureOf (hlist.of_respaced h) htext', hrest]
  have hend : ∀ l : List Char, (String.ofList l).toList = l ++ [] := by
    intro l
    rw [String.toList_ofList, List.append_nil]
  exact (ParameterList.sameOutcome_parse hlist h (hend list) (hend _)).map _

/-- In both modes, white space around the segments of a list and the first run of white space inside each
of them can be exchanged for other white space: the outcome is the same for the list, whatever follows
it, and for a signature with the list, also if the white space around its results is exchanged, too. -/
theorem sameOutcome_of_respaced (mode : Mode) {segs segs' : List (List Char)} {list : List Char}
    (hlist : ListOf segs list) (h : List.Forall₂ Respaced segs segs') (rest : List Char) :
    (∀ text text' : String, text.toList = list ++ rest →
      text'.toList = '(' :: [','].intercalate segs' ++ [')'] ++ rest →
      SameOutcome (ParameterList.parse mode text) (ParameterList.parse mode text')) ∧
    ∀ (u v : List Char) (text text' : String), isBlank u = true → isBlank v = true →
      text.toList = "func".toList ++ list ++ rest →
      text'.toList =
        "func".toList ++ ('(' :: [','].intercalate segs' ++ [')']) ++ (u ++ trim rest ++ v) →
      SameOutcome (Signature.parse mode text) (Signature.parse mode text') := by
  refine ⟨fun text text' htext htext' => ParameterList.sameOutcome_parse hlist h htext htext',
    fun u v text text' hu hv htext htext' => ?_⟩
  have hrest : trim rest = trim (u ++ trim rest ++ v) := (trim_append hu (isTrimmed_trim rest) hv).symm
  exact Signature.sameOutcome_parse hlist h hrest htext htext'

/-- Ideographic spaces around a bare name, and a tab before a type with a comma and spaces of its own. -/
theorem sameOutcome_of_respaced_at_inner_comma :
    ListOf ["a".toList, " b f(, )".toList] "(a, b f(, ))".toList ∧
    List.Forall₂ Respaced ["a".toList, " b f(, )".toList] ["\u3000a ".toList, "b\tf(, )".toList] ∧
    SameOutcome (ParameterList.parse .strict "(a, b f(, ))")
      (ParameterList.parse .strict "(\u3000a ,b\tf(, ))") ∧
    SameOutcome (Signature.parse .strict "func(a, b f(, )) e")
      (Signature.parse .strict "func(\u3000a ,b\tf(, ))e\u3000") := by
  have hcut : Group.cut? "(a, b f(, ))".toList = some ⟨"a, b f(, )".toList, []⟩ := rfl
  have hlist : ListOf ["a".toList, " b f(, )".toList] "(a, b f(, ))".toList :=
    Group.listOf_segments (g := ⟨"a, b f(, )".toList, []⟩) (Group.cut?_eq_some_iff.mp hcut).2
  have hspace : List.Forall₂ Respaced ["a".toList, " b f(, )".toList]
      ["\u3000a ".toList, "b\tf(, )".toList] :=
    .cons (Declaration.ofSegment_eq_iff.mp rfl) (.cons (Declaration.ofSegment_eq_iff.mp rfl) .nil)
  exact ⟨hlist, hspace, (sameOutcome_of_respaced .strict hlist hspace []).1 _ _ rfl rfl,
    (sameOutcome_of_respaced .strict hlist hspace [' ', 'e']).2 [] ['\u3000'] _ _ rfl rfl rfl rfl⟩

end FuncType
