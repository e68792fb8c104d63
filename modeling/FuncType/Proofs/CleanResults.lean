import FuncType.Proofs.Rendering
import FuncType.Proofs.ResultItems

/-!
# Results are clean, and lists of clean results are read back

Results are never empty and have no white space at their ends. Those of a list are items, too, so a list
that is written with them is read as the same results, however much white space stands around them and
however many blank segments stand between them (`ResultList.parse_of_holds`). A text that is no list is
one result or none.

So there are no results in two cases only: the text is blank, or it is a list with nothing but white
space and commas in it (`ResultList.parse_eq_nil_iff`).
-/

namespace FuncType

/-- A text that can be a result of a list. -/
structure CleanItem (text : List Char) : Prop where
  ne_nil : text ≠ []
  isTrimmed : IsTrimmed text
  isItem : IsItem text

/-- Segments hold results in order, each with white space around it, and blank segments between them. -/
inductive Holds : List (List Char) → List String → Prop where
  /-- No segments hold no results. -/
  | nil : Holds [] []
  /-- A blank segment holds none of the results. -/
  | blank {segment : List Char} {segs : List (List Char)} {results : List String}
      (hblank : isBlank segment = true) (h : Holds segs results) : Holds (segment :: segs) results
  /-- A segment that is not blank holds the next one. -/
  | result {u v : List Char} {result : String} {segs : List (List Char)} {results : List String}
      (hu : isBlank u = true) (hv : isBlank v = true) (h : Holds segs results) :
      Holds ((u ++ result.toList ++ v) :: segs) (result :: results)

/-- A list with nothing but white space and commas in it. -/
def IsBlankList (text : List Char) : Prop :=
  ∃ body, text = '(' :: body ++ [')'] ∧ ∀ c ∈ body, isSpace c = true ∨ c = ','

theorem isItem_of_isBlank {text : List Char} (h : isBlank text = true) : IsItem text := by
  have hsigns : signs text = signs [] := signs_of_isBlank h
  exact (isItem_congr hsigns).mpr (itemFrom_nil.mpr rfl)

theorem mem_intercalate {c : Char} {pieces : List (List Char)}
    (h : c ∈ [','].intercalate pieces) : c = ',' ∨ ∃ piece ∈ pieces, c ∈ piece := by
  induction pieces with
  | nil => cases h
  | cons piece more ih =>
    cases more with
    | nil => exact Or.inr ⟨piece, List.mem_cons_self, by simpa using h⟩
    | cons next rest =>
      rw [List.intercalate_cons_cons, List.append_assoc, List.mem_append, List.mem_append] at h
      rcases h with hpiece | hcomma | hrest
      · exact Or.inr ⟨piece, List.mem_cons_self, hpiece⟩
      · exact Or.inl (List.mem_singleton.mp hcomma)
      · rcases ih hrest with hcomma | ⟨other, hmem, hc⟩
        · exact Or.inl hcomma
        · exact Or.inr ⟨other, List.mem_cons_of_mem piece hmem, hc⟩

/-- White space and commas are blank segments with commas between them. -/
theorem exists_blank_segments {body : List Char} (h : ∀ c ∈ body, isSpace c = true ∨ c = ',') :
    ∃ segs, segs ≠ [] ∧ (∀ segment ∈ segs, isBlank segment = true) ∧
      body = [','].intercalate segs := by
  induction body with
  | nil => exact ⟨[[]], List.cons_ne_nil _ _, by simp [isBlank], rfl⟩
  | cons c body ih =>
    obtain ⟨hc, hbody⟩ := List.forall_mem_cons.mp h
    obtain ⟨segs, hne, hblank, rfl⟩ := ih hbody
    obtain ⟨first, more, rfl⟩ := List.exists_cons_of_ne_nil hne
    obtain ⟨hfirst, hmore⟩ := List.forall_mem_cons.mp hblank
    rcases hc with hspace | rfl
    · refine ⟨(c :: first) :: more, List.cons_ne_nil _ _, List.forall_mem_cons.mpr ⟨?_, hmore⟩, ?_⟩
      · rw [isBlank, List.all_cons, hspace]
        exact hfirst
      · cases more <;> simp [List.intercalate_cons_cons]
    · exact ⟨[] :: first :: more, List.cons_ne_nil _ _, List.forall_mem_cons.mpr ⟨rfl, hblank⟩,
        by simp [List.intercalate_cons_cons]⟩

namespace Holds

variable {segs : List (List Char)} {results : List String}

theorem isItem (h : Holds segs results) (hclean : ∀ result ∈ results, CleanItem result.toList) :
    ∀ segment ∈ segs, IsItem segment := by
  induction h with
  | nil => intro segment hmem; cases hmem
  | blank hblank _ ih => exact List.forall_mem_cons.mpr ⟨isItem_of_isBlank hblank, ih hclean⟩
  | result hu hv _ ih =>
    obtain ⟨hresult, hmore⟩ := List.forall_mem_cons.mp hclean
    refine List.forall_mem_cons.mpr ⟨?_, ih hmore⟩
    rw [← isItem_signs, signs_append, signs_append, signs_of_isBlank hu, signs_of_isBlank hv,
      List.nil_append, List.append_nil, isItem_signs]
    exact hresult.isItem

/-- What the segments hold is what is left of them without the white space. -/
theorem map_trim (h : Holds segs results) (hclean : ∀ result ∈ results, CleanItem result.toList) :
    (segs.filter fun segment => !isBlank segment).map trim = results.map String.toList := by
  induction h with
  | nil => rfl
  | blank hblank _ ih => rw [List.filter_cons_of_neg (by simp [hblank]), ih hclean]
  | @result u v result segs results hu hv _ ih =>
    obtain ⟨hresult, hmore⟩ := List.forall_mem_cons.mp hclean
    have htrim := trim_append hu hresult.isTrimmed hv
    have hkept : isBlank (u ++ result.toList ++ v) = false := by
      rw [Bool.eq_false_iff, ne_eq, ← trim_eq_nil_iff, htrim]
      exact hresult.ne_nil
    rw [List.filter_cons_of_pos (by rw [hkept]; rfl), List.map_cons, htrim, ih hmore]
    rfl

end Holds

/-- Results as segments, with a space in front of each but the first. -/
def spaced : List String → List (List Char)
  | [] => []
  | result :: more => result.toList :: more.map fun other => ' ' :: other.toList

theorem Holds.cons {u : List Char} (hu : isBlank u = true) (result : String) {segs : List (List Char)}
    {results : List String} (h : Holds segs results) :
    Holds ((u ++ result.toList) :: segs) (result :: results) := by
  rw [← List.append_nil (u ++ result.toList)]
  exact .result hu rfl h

theorem holds_spaced (results : List String) : Holds (spaced results) results := by
  cases results with
  | nil => exact .nil
  | cons result more =>
    have hspace : isBlank [' '] = true := rfl
    have hmore : Holds (more.map fun other => ' ' :: other.toList) more := by
      induction more with
      | nil => exact .nil
      | cons other rest ih => exact .cons hspace other ih
    exact .cons (u := []) rfl result hmore

theorem intercalate_spaced (results : List String) :
    [','].intercalate (spaced results) = (", ".intercalate results).toList := by
  have hsep : ", ".toList = [',', ' '] := rfl
  rw [String.toList_intercalate, hsep]
  cases results with
  | nil => rfl
  | cons result more =>
    rw [List.map_cons, ← Parameter.intercalate_map_cons, List.map_map]
    rfl

namespace ResultList

variable {segs : List (List Char)} {results : List String} {text : String}

theorem parse_congr {text' : String} (h : trim text.toList = trim text'.toList) :
    parse text = parse text' := by
  rw [parse_eq, parse_eq, h]

/-- The results of a list with white space around it. -/
theorem parse_of_trim_listOf (h : ListOf segs (trim text.toList)) :
    (parse text).map String.toList = (segs.filter fun segment => !isBlank segment).map trim := by
  have hlist : ListOf segs (String.ofList (trim text.toList)).toList := by rwa [String.toList_ofList]
  have hsame : parse text = parse (String.ofList (trim text.toList)) := by
    refine parse_congr ?_
    rw [String.toList_ofList, trim_eq_self (isTrimmed_trim _)]
  rw [hsame, parse_of_listOf hlist]

/-- A list that holds clean results is read as these results, with white space around it or not. -/
theorem parse_of_holds (hclean : ∀ result ∈ results, CleanItem result.toList)
    (hholds : Holds segs results) {u v : List Char} (hu : isBlank u = true) (hv : isBlank v = true) :
    parse (String.ofList (u ++ ('(' :: [','].intercalate segs ++ [')']) ++ v)) = results := by
  -- no segments are written like a blank one
  obtain ⟨segs', hne, hholds', hjoin⟩ : ∃ segs', segs' ≠ [] ∧ Holds segs' results ∧
      [','].intercalate segs' = [','].intercalate segs := by
    by_cases hne : segs = []
    · rw [hne] at hholds ⊢
      exact ⟨[[]], List.cons_ne_nil _ _, .blank rfl hholds, rfl⟩
    · exact ⟨segs, hne, hholds, rfl⟩
  have hlist : ListOf segs' ('(' :: [','].intercalate segs ++ [')']) :=
    ⟨hne, hholds'.isItem hclean, by rw [hjoin]⟩
  have htrim := trim_append hu hlist.isTrimmed hv
  rw [← String.toList_ofList (l := u ++ ('(' :: [','].intercalate segs ++ [')']) ++ v)] at htrim
  rw [← htrim] at hlist
  have hmap := parse_of_trim_listOf hlist
  rw [hholds'.map_trim hclean] at hmap
  exact List.map_injective_iff.mpr (fun _ _ => String.toList_inj.mp) hmap

theorem parse_of_not_closesAtEnd (h : ¬ ClosesAtEnd (trim text.toList)) :
    parse text = single (trim text.toList) := by
  rw [parse_eq]
  cases hcut : Group.cut? (trim text.toList) with
  | none => rfl
  | some group =>
    obtain ⟨body, rest⟩ := group
    have hrest : rest ≠ [] := by
      rintro rfl
      exact h (Group.closesAtEnd_of_cut? hcut)
    exact if_neg hrest

/-- The results of a list are clean. -/
theorem cleanItem_of_mem_parse (h : ClosesAtEnd (trim text.toList)) :
    ∀ result ∈ parse text, CleanItem result.toList := by
  intro result hresult
  obtain ⟨segs, hsegs⟩ := closesAtEnd_iff_listOf.mp h
  have hmem := List.mem_map_of_mem (f := String.toList) hresult
  rw [parse_of_trim_listOf hsegs] at hmem
  obtain ⟨segment, hsegment, heq⟩ := List.mem_map.mp hmem
  obtain ⟨hmem, hkept⟩ := List.mem_filter.mp hsegment
  rw [← heq]
  refine ⟨?_, isTrimmed_trim segment, ?_⟩
  · rw [ne_eq, trim_eq_nil_iff]
    simpa using hkept
  · exact (isItem_congr (signs_trim segment)).mpr (hsegs.isItem segment hmem)

theorem mem_single {text : List Char} {result : String} (h : result ∈ single text) :
    text ≠ [] ∧ result = String.ofList text := by
  unfold single at h
  split at h
  · cases h
  · exact ⟨‹_›, List.mem_singleton.mp h⟩

theorem isTrimmed_of_mem_parse {result : String} (h : result ∈ parse text) :
    result ≠ "" ∧ IsTrimmed result.toList := by
  by_cases hcloses : ClosesAtEnd (trim text.toList)
  · have hclean := cleanItem_of_mem_parse hcloses result h
    exact ⟨by simpa using hclean.ne_nil, hclean.isTrimmed⟩
  · rw [parse_of_not_closesAtEnd hcloses] at h
    obtain ⟨hne, rfl⟩ := mem_single h
    rw [String.toList_ofList]
    exact ⟨by simpa using hne, isTrimmed_trim _⟩

/-- The results of a list, written as a list, are read back. -/
theorem parse_intercalate_parse (h : ClosesAtEnd (trim text.toList)) :
    parse ("(" ++ ", ".intercalate (parse text) ++ ")") = parse text := by
  have hread := parse_of_holds (cleanItem_of_mem_parse h) (holds_spaced (parse text))
    (u := []) (v := []) rfl rfl
  have htext : "(" ++ ", ".intercalate (parse text) ++ ")" =
      String.ofList ([] ++ ('(' :: [','].intercalate (spaced (parse text)) ++ [')']) ++ []) := by
    apply String.toList_inj.mp
    rw [intercalate_spaced]
    simp
  rw [htext, hread]

theorem isBlankList_of_parse_eq_nil (h : ListOf segs (trim text.toList)) (hnil : parse text = []) :
    IsBlankList (trim text.toList) := by
  have hmap := parse_of_trim_listOf h
  rw [hnil, List.map_nil, eq_comm, List.map_eq_nil_iff, List.filter_eq_nil_iff] at hmap
  refine ⟨[','].intercalate segs, h.text_eq, fun c hc => ?_⟩
  rcases mem_intercalate hc with hcomma | ⟨segment, hmem, hc⟩
  · exact Or.inr hcomma
  · have hblank : isBlank segment = true := by simpa using hmap segment hmem
    exact Or.inl (isBlank_iff.mp hblank c hc)

theorem parse_eq_nil_of_isBlankList (h : IsBlankList (trim text.toList)) : parse text = [] := by
  obtain ⟨body, htext, hbody⟩ := h
  obtain ⟨segs, hne, hblank, rfl⟩ := exists_blank_segments hbody
  have hlist : ListOf segs (trim text.toList) :=
    ⟨hne, fun segment hmem => isItem_of_isBlank (hblank segment hmem), htext⟩
  have hmap := parse_of_trim_listOf hlist
  rw [List.filter_eq_nil_iff.mpr (by simpa using hblank), List.map_nil, List.map_eq_nil_iff] at hmap
  exact hmap

/-- There are no results exactly if the text is blank or is a list with nothing but white space and
commas in it. -/
theorem parse_eq_nil_iff :
    parse text = [] ↔ trim text.toList = [] ∨ IsBlankList (trim text.toList) := by
  constructor
  · intro hnil
    by_cases hcloses : ClosesAtEnd (trim text.toList)
    · obtain ⟨segs, hsegs⟩ := closesAtEnd_iff_listOf.mp hcloses
      exact Or.inr (isBlankList_of_parse_eq_nil hsegs hnil)
    · rw [parse_of_not_closesAtEnd hcloses] at hnil
      by_cases htrim : trim text.toList = []
      · exact Or.inl htrim
      · rw [single, if_neg htrim] at hnil
        cases hnil
  · rintro (hnil | hblank)
    · have hopen : ¬ ClosesAtEnd (trim text.toList) := by
        rw [hnil]
        intro h
        exact h.firstReturn.ne_nil rfl
      rw [parse_of_not_closesAtEnd hopen, hnil]
      rfl
    · exact parse_eq_nil_of_isBlankList hblank

/-- Lists of clean results are read as these results, however they are spaced and padded with blank
segments. What is read is always clean: of a list the results are items that can be written and read
again, of any other text there is at most one result, the whole text. There are no results only of a
blank text and of a list of blanks. -/
theorem parse_leftInverse :
    (∀ (results : List String) (segs : List (List Char)) (u v : List Char),
      (∀ result ∈ results, CleanItem result.toList) → Holds segs results →
      isBlank u = true → isBlank v = true →
      parse (String.ofList (u ++ ('(' :: [','].intercalate segs ++ [')']) ++ v)) = results) ∧
    (∀ text : String,
      (∀ result ∈ parse text, result ≠ "" ∧ IsTrimmed result.toList) ∧
      (ClosesAtEnd (trim text.toList) → (∀ result ∈ parse text, IsItem result.toList) ∧
        parse ("(" ++ ", ".intercalate (parse text) ++ ")") = parse text) ∧
      (¬ ClosesAtEnd (trim text.toList) →
        parse text = [] ∨ parse text = [String.ofList (trim text.toList)]) ∧
      (parse text = [] ↔ trim text.toList = [] ∨ IsBlankList (trim text.toList))) ∧
    ∀ mode text s, Signature.parse mode text = .ok s →
      (s.results.value = [] ↔ s.isVoid = true ∨ IsBlankList s.returns.toList) ∧
      ¬ (s.isVoid = true ∧ IsBlankList s.returns.toList) := by
  refine ⟨fun results segs u v hclean hholds hu hv => parse_of_holds hclean hholds hu hv,
    fun text => ⟨fun result h => isTrimmed_of_mem_parse h, fun h => ⟨?_, parse_intercalate_parse h⟩, ?_,
      parse_eq_nil_iff⟩, fun mode text s h => ?_⟩
  · intro result hmem
    exact (cleanItem_of_mem_parse h result hmem).isItem
  · intro h
    rw [parse_of_not_closesAtEnd h, single]
    split
    · exact Or.inl rfl
    · exact Or.inr rfl
  · obtain ⟨segs, rest, -, -, hreturns⟩ := Signature.exists_declarations_of_parse h
    have htrim : trim s.returns.toList = s.returns.toList := by
      rw [hreturns, trim_eq_self (isTrimmed_trim rest)]
    have hvoid : s.isVoid = true ↔ s.returns.toList = [] := by
      rw [Signature.isVoid, String.isEmpty_iff, String.toList_eq_nil_iff]
    rw [hvoid]
    refine ⟨?_, ?_⟩
    · have hiff : parse s.returns = [] ↔ _ := parse_eq_nil_iff
      rwa [htrim] at hiff
    · rintro ⟨hnil, body, hbody, -⟩
      rw [hnil] at hbody
      cases hbody

/-- Padding, a blank segment and a comma of an inner group; a list that never closes; and a signature
whose results are blank. -/
theorem parse_leftInverse_at_inner_comma :
    ((∀ result ∈ ["a", "f(b, c)"], CleanItem result.toList) ∧
      Holds [" a".toList, " ".toList, "f(b, c)".toList] ["a", "f(b, c)"] ∧
      parse (String.ofList ([] ++ ('(' :: [','].intercalate [" a".toList, " ".toList, "f(b, c)".toList] ++
        [')']) ++ [' '])) = ["a", "f(b, c)"]) ∧
    (ClosesAtEnd (trim "(a,f(b, c))".toList) ∧
      parse ("(" ++ ", ".intercalate (parse "(a,f(b, c))") ++ ")") = parse "(a,f(b, c))") ∧
    (¬ ClosesAtEnd (trim "(a".toList) ∧ (parse "(a" = [] ∨ parse "(a" = [String.ofList (trim "(a".toList)])) ∧
    Signature.parse .strict "func() (,)" = .ok ⟨[], "(,)"⟩ ∧
      ((Signature.mk [] "(,)").results.value = [] ↔
        (Signature.mk [] "(,)").isVoid = true ∨ IsBlankList "(,)".toList) := by
  obtain ⟨hread, htext, hsignature⟩ := parse_leftInverse
  have hlist : ClosesAtEnd (trim "(a,f(b, c))".toList) := Group.closesAtEnd_of_cut? rfl
  have hclean : ∀ result ∈ ["a", "f(b, c)"], CleanItem result.toList := cleanItem_of_mem_parse hlist
  have hholds : Holds [" a".toList, " ".toList, "f(b, c)".toList] ["a", "f(b, c)"] :=
    .cons (u := [' ']) rfl "a" (.blank rfl (.cons (u := []) rfl "f(b, c)" .nil))
  have hopen : ¬ ClosesAtEnd (trim "(a".toList) := by
    intro h
    obtain ⟨segs, hsegs⟩ := closesAtEnd_iff_listOf.mp h
    have hcut := hsegs.cut?_append []
    have hnone : Group.cut? (trim "(a".toList ++ []) = none := rfl
    rw [hnone] at hcut
    cases hcut
  have hparse : Signature.parse .strict "func() (,)" = .ok ⟨[], "(,)"⟩ := rfl
  exact ⟨⟨hclean, hholds, hread _ _ [] [' '] hclean hholds rfl rfl⟩,
    ⟨hlist, ((htext _).2.1 hlist).2⟩, ⟨hopen, (htext _).2.2.1 hopen⟩, hparse,
    (hsignature _ _ _ hparse).1⟩

end ResultList

end FuncType
