import FuncType.Proofs.AcceptedSignatures
import FuncType.Proofs.FirstReturn

/-!
# What is refused, and why

Every refusal names what the text was taken for, a reason, and the text itself. Here the conditions of
each reason are said without the reader, for signatures (`Signature.Refused`) and for lists
(`ParameterList.Refused`). They exclude one another, so they also tell which reason wins where a text has
several faults: a signature is looked at before its list, the parentheses before the segments, and a
blank segment before names without a type. The lenient mode finds no fault with segments.

Main statement: reading fails with a reason exactly under the conditions of that reason, and gives a
result under the conditions that remain (`refused_iff`).
-/

namespace FuncType

/-- A result is an error that takes `input` for a `subject` and refuses it for a `reason`. -/
def FailsWith {α : Type} (result : Except SignatureError α) (subject reason input : String) : Prop :=
  ∃ e, result = .error e ∧ e.subject = subject ∧ e.reason = reason ∧ e.input = input

/-- What the strict mode finds wrong with the segments of a list. -/
inductive SegmentsFault (segs : List (List Char)) : (reason : String) → Prop where
  /-- One of several segments is blank. -/
  | emptyParameter (hseveral : 2 ≤ segs.length) {segment : List Char} (hmem : segment ∈ segs)
      (hblank : isBlank segment = true) : SegmentsFault segs "empty parameter"
  /-- No segment is blank, and there is no white space between the ends of the last one. -/
  | untypedParameter (hno : ∀ segment ∈ segs, isBlank segment = false) {last : List Char}
      (hlast : segs.getLast? = some last) (hbare : ¬ HasSpace (trim last)) :
      SegmentsFault segs "parameter without a type"

theorem SegmentsFault.reason_eq {segs : List (List Char)} {reason : String}
    (h : SegmentsFault segs reason) :
    reason = "empty parameter" ∨ reason = "parameter without a type" := by
  cases h with
  | emptyParameter => exact Or.inl rfl
  | untypedParameter => exact Or.inr rfl

/-- Why a text is refused as a signature. -/
inductive Signature.Refused (mode : Mode) (text : String) : (subject reason input : String) → Prop where
  /-- It does not start like a signature. -/
  | missingKeyword (hstart : ¬ "func(".toList <+: text.toList) :
      Refused mode text "signature" "missing `func(` prefix" text
  /-- No front part of what follows `func`, other than the empty one, has level zero. -/
  | unbalanced {after : List Char} (htext : text.toList = "func".toList ++ '(' :: after)
      (hnever : ∀ front, front <+: '(' :: after → front ≠ [] → level front ≠ 0) :
      Refused mode text "signature" "unbalanced parentheses" text
  /-- The shortest such front part is a list with a fault in its segments, and reading is strict. -/
  | parameters {after list : List Char} {segs : List (List Char)} {reason : String}
      (htext : text.toList = "func".toList ++ '(' :: after)
      (hlist : FirstReturn ('(' :: after) list) (hsegs : ListOf segs list) (hstrict : mode = .strict)
      (hfault : SegmentsFault segs reason) :
      Refused mode text "parameter list" reason (String.ofList list)

/-- Why a text is refused as a parameter list. -/
inductive ParameterList.Refused (mode : Mode) (text : String) : (reason : String) → Prop where
  /-- It does not start and end with parentheses. -/
  | notEnclosed (hopen : ¬ (text.toList.head? = some '(' ∧ text.toList.getLast? = some ')')) :
      Refused mode text "expected surrounding parentheses"
  /-- No front part of it, other than the empty one, has level zero. -/
  | unbalanced (hhead : text.toList.head? = some '(') (hlast : text.toList.getLast? = some ')')
      (hnever : ∀ front, front <+: text.toList → front ≠ [] → level front ≠ 0) :
      Refused mode text "unbalanced parentheses"
  /-- The shortest such front part is not the whole text, and reading is strict. -/
  | trailingText (hhead : text.toList.head? = some '(') (hlast : text.toList.getLast? = some ')')
      {list : List Char} (hlist : FirstReturn text.toList list) (hstrict : mode = .strict)
      (hrest : list ≠ text.toList) :
      Refused mode text "text after closing parenthesis"
  /-- The whole text is a list with a fault in its segments, and reading is strict. -/
  | segments (hlist : FirstReturn text.toList text.toList) {segs : List (List Char)}
      (hsegs : ListOf segs text.toList) (hstrict : mode = .strict) {reason : String}
      (hfault : SegmentsFault segs reason) :
      Refused mode text reason

/-- When a text is accepted as a signature: what follows `func` has a list in front, and in the strict
mode there is no fault in the segments of that list. -/
def Signature.Accepted (mode : Mode) (text : String) : Prop :=
  ∃ after list segs, text.toList = "func".toList ++ '(' :: after ∧ FirstReturn ('(' :: after) list ∧
    ListOf segs list ∧ (mode = .strict → ∀ reason, ¬ SegmentsFault segs reason)

/-- When a text is accepted as a parameter list: it starts and ends with parentheses, and has a list
in front; in the strict mode the list is the whole text, with no fault in its segments. -/
def ParameterList.Accepted (mode : Mode) (text : String) : Prop :=
  text.toList.head? = some '(' ∧ text.toList.getLast? = some ')' ∧
    ∃ list segs, FirstReturn text.toList list ∧ ListOf segs list ∧
      (mode = .strict → list = text.toList ∧ ∀ reason, ¬ SegmentsFault segs reason)

/-! ## Segments -/

namespace ParameterList

variable {mode : Mode} {segs : List (List Char)}

theorem two_le_length_of_blank {segment : List Char} (hmem : segment ∈ segs)
    (hblank : isBlank segment = true) (hempty : ¬ isEmpty segs = true) : 2 ≤ segs.length := by
  rcases segs with _ | ⟨first, _ | ⟨next, more⟩⟩
  · cases hmem
  · rw [List.mem_singleton.mp hmem] at hblank
    exact absurd (isEmpty_iff.mpr ⟨first, rfl, hblank⟩) hempty
  · simp

/-- Segments are refused for their faults, and in the strict mode only. -/
theorem ofSegments_fails_iff {reason : String} :
    (∃ fault, ofSegments mode segs = .error fault ∧ fault.reason = reason) ↔
      mode = .strict ∧ SegmentsFault segs reason := by
  rw [ofSegments_eq]
  constructor
  · -- the cases follow the checks of the reader, so that each knows the ones before it passed
    rintro ⟨fault, h, rfl⟩
    by_cases hempty : isEmpty segs = true
    · rw [if_pos hempty] at h
      cases h
    rw [if_neg hempty] at h
    by_cases hany : mode = .strict ∧ segs.any isBlank = true
    · rw [if_pos hany] at h
      obtain rfl := Except.error.inj h
      obtain ⟨segment, hmem, hblank⟩ := List.any_eq_true.mp hany.2
      exact ⟨hany.1, .emptyParameter (two_le_length_of_blank hmem hblank hempty) hmem hblank⟩
    rw [if_neg hany] at h
    by_cases hleft : mode = .strict ∧ (Parameter.expand (declarations segs)).2 ≠ []
    · rw [if_pos hleft] at h
      obtain rfl := Except.error.inj h
      have hno : ∀ segment ∈ segs, isBlank segment = false := by simpa [hleft.1] using hany
      have huntyped := hleft.2
      rw [declarations_of_noBlank hno, ne_eq, leftOver_eq_nil_iff_lastTyped] at huntyped
      cases hlast : segs.getLast? with
      | none => simp [hlast] at huntyped
      | some last =>
        have hbare : ¬ HasSpace (trim last) := by simpa [hlast] using huntyped
        exact ⟨hleft.1, .untypedParameter hno hlast hbare⟩
    · rw [if_neg hleft] at h
      cases h
  · rintro ⟨hstrict, hfault⟩
    cases hfault with
    | emptyParameter hseveral hmem hblank =>
      refine ⟨.emptyParameter, ?_, rfl⟩
      have hempty : ¬ isEmpty segs = true := by
        intro h
        obtain ⟨only, rfl, -⟩ := isEmpty_iff.mp h
        simp at hseveral
      rw [if_neg hempty, if_pos ⟨hstrict, List.any_eq_true.mpr ⟨_, hmem, hblank⟩⟩]
    | untypedParameter hno hlast hbare =>
      refine ⟨.untypedParameter, ?_, rfl⟩
      have hempty : ¬ isEmpty segs = true := by
        intro h
        obtain ⟨only, rfl, hblank⟩ := isEmpty_iff.mp h
        rw [hno only List.mem_cons_self] at hblank
        cases hblank
      have hany : ¬ (mode = .strict ∧ segs.any isBlank = true) := by
        rintro ⟨-, h⟩
        obtain ⟨segment, hmem, hblank⟩ := List.any_eq_true.mp h
        rw [hno segment hmem] at hblank
        cases hblank
      have hleft : (Parameter.expand (declarations segs)).2 ≠ [] := by
        rw [declarations_of_noBlank hno, ne_eq, leftOver_eq_nil_iff_lastTyped]
        intro htyped
        exact hbare (htyped _ hlast)
      rw [if_neg hempty, if_neg hany, if_pos ⟨hstrict, hleft⟩]

/-- Segments are accepted exactly if there is no fault to find. -/
theorem ofSegments_succeeds_iff :
    (∃ result, ofSegments mode segs = .ok result) ↔
      (mode = .strict → ∀ reason, ¬ SegmentsFault segs reason) := by
  cases hsegs : ofSegments mode segs with
  | ok result =>
    refine iff_of_true ⟨result, rfl⟩ ?_
    intro hstrict reason hfault
    obtain ⟨fault, herror, -⟩ := ofSegments_fails_iff.mpr ⟨hstrict, hfault⟩
    rw [hsegs] at herror
    cases herror
  | error fault =>
    obtain ⟨hstrict, hfault⟩ := ofSegments_fails_iff.mp ⟨fault, hsegs, rfl⟩
    refine iff_of_false ?_ fun h => h hstrict _ hfault
    rintro ⟨result, hok⟩
    cases hok

end ParameterList

/-! ## Failing -/

variable {mode : Mode} {text subject reason input : String}

theorem failsWith_error {α : Type} {e : SignatureError} :
    FailsWith (.error e : Except SignatureError α) subject reason input ↔
      e.subject = subject ∧ e.reason = reason ∧ e.input = input := by
  simp [FailsWith]

theorem not_failsWith_ok {α : Type} {a : α} : ¬ FailsWith (.ok a) subject reason input := by
  simp [FailsWith]

/-! ## Lists -/

namespace ParameterList

theorem isEnclosed_iff {text : List Char} :
    isEnclosed text = true ↔ text.head? = some '(' ∧ text.getLast? = some ')' := by
  simp [isEnclosed]

theorem parse_of_not_enclosed
    (hopen : ¬ (text.toList.head? = some '(' ∧ text.toList.getLast? = some ')')) :
    parse mode text = .error (.parameterList .notEnclosed text) := by
  have hclosed : isEnclosed text.toList = false := by
    rwa [← isEnclosed_iff, Bool.not_eq_true] at hopen
  rw [parse_eq, if_pos hclosed]

theorem parse_of_level_ne (hhead : text.toList.head? = some '(')
    (hlast : text.toList.getLast? = some ')')
    (hnever : ∀ front, front <+: text.toList → front ≠ [] → level front ≠ 0) :
    parse mode text = .error (.parameterList .unbalanced text) := by
  have henclosed := isEnclosed_iff.mpr ⟨hhead, hlast⟩
  obtain ⟨more, hmore⟩ := List.head?_eq_some_iff.mp hhead
  have hcut : Group.cut? text.toList = none := by
    rw [hmore] at hnever ⊢
    exact Group.cut?_eq_none_iff.mpr hnever
  rw [parse_eq, if_neg (by simp [henclosed]), hcut]

/-- How a text is read that has a list in its front. -/
theorem parse_of_append {segs : List (List Char)} {list rest : List Char}
    (hhead : text.toList.head? = some '(') (hlast : text.toList.getLast? = some ')')
    (hsegs : ListOf segs list) (htext : text.toList = list ++ rest) :
    parse mode text =
      if mode = .strict ∧ rest ≠ [] then .error (.parameterList .trailingText text)
      else
        match ofSegments mode segs with
        | .error fault => .error (.parameterList fault text)
        | .ok (params, _) => .ok params := by
  have henclosed := isEnclosed_iff.mpr ⟨hhead, hlast⟩
  obtain ⟨group, hcut, -, hrest, hsegments⟩ := hsegs.exists_group rest
  rw [parse_eq, if_neg (by simp [henclosed]), htext, hcut]
  cases hread : ofSegments mode segs with
  | error fault => simp [hrest, hsegments, hread]
  | ok result => simp [hrest, hsegments, hread]

/-- A list is refused under the conditions that `Refused` states, and under no others. -/
theorem failsWith_iff :
    FailsWith (parse mode text) subject reason input ↔
      subject = "parameter list" ∧ input = text ∧ Refused mode text reason := by
  constructor
  · intro h
    by_cases hopen : text.toList.head? = some '(' ∧ text.toList.getLast? = some ')'
    case neg =>
      rw [parse_of_not_enclosed hopen] at h
      obtain ⟨rfl, rfl, rfl⟩ := failsWith_error.mp h
      exact ⟨rfl, rfl, .notEnclosed hopen⟩
    obtain ⟨hhead, hlast⟩ := hopen
    rcases level_ne_or_exists_firstReturn hhead with hnever | ⟨list, hfirst⟩
    · rw [parse_of_level_ne hhead hlast hnever] at h
      obtain ⟨rfl, rfl, rfl⟩ := failsWith_error.mp h
      exact ⟨rfl, rfl, .unbalanced hhead hlast hnever⟩
    · obtain ⟨segs, rest, hsegs, htext⟩ := hfirst.exists_listOf hhead
      rw [parse_of_append hhead hlast hsegs htext] at h
      by_cases htrailing : mode = .strict ∧ rest ≠ []
      · rw [if_pos htrailing] at h
        obtain ⟨rfl, rfl, rfl⟩ := failsWith_error.mp h
        refine ⟨rfl, rfl, .trailingText hhead hlast hfirst htrailing.1 ?_⟩
        intro hall
        rw [hall] at htext
        exact htrailing.2 (List.self_eq_append_right.mp htext)
      · rw [if_neg htrailing] at h
        cases hread : ofSegments mode segs with
        | ok result =>
          rw [hread] at h
          exact absurd h not_failsWith_ok
        | error fault =>
          rw [hread] at h
          obtain ⟨rfl, rfl, rfl⟩ := failsWith_error.mp h
          obtain ⟨hstrict, hfault⟩ := ofSegments_fails_iff.mp ⟨fault, hread, rfl⟩
          obtain rfl : rest = [] := Classical.not_not.mp fun hne => htrailing ⟨hstrict, hne⟩
          rw [List.append_nil] at htext
          rw [← htext] at hfirst hsegs
          exact ⟨rfl, rfl, .segments hfirst hsegs hstrict hfault⟩
  · rintro ⟨rfl, rfl, hrefused⟩
    cases hrefused with
    | notEnclosed hopen =>
      rw [parse_of_not_enclosed hopen]
      exact failsWith_error.mpr ⟨rfl, rfl, rfl⟩
    | unbalanced hhead hlast hnever =>
      rw [parse_of_level_ne hhead hlast hnever]
      exact failsWith_error.mpr ⟨rfl, rfl, rfl⟩
    | trailingText hhead hlast hlist hstrict hrest =>
      obtain ⟨segs, rest, hsegs, htext⟩ := hlist.exists_listOf hhead
      have hne : rest ≠ [] := by
        rintro rfl
        rw [List.append_nil] at htext
        exact hrest htext.symm
      rw [parse_of_append hhead hlast hsegs htext, if_pos ⟨hstrict, hne⟩]
      exact failsWith_error.mpr ⟨rfl, rfl, rfl⟩
    | segments hlist hsegs hstrict hfault =>
      obtain ⟨fault, hread, rfl⟩ := ofSegments_fails_iff.mpr ⟨hstrict, hfault⟩
      rw [parse_of_listOf hsegs, hread]
      exact failsWith_error.mpr ⟨rfl, rfl, rfl⟩

theorem succeeds_iff : (∃ params, parse mode text = .ok params) ↔ Accepted mode text := by
  constructor
  · rintro ⟨params, h⟩
    have hfail : ∀ {reason}, ¬ Refused mode text reason := by
      intro reason hrefused
      have hfails := failsWith_iff.mpr ⟨rfl, rfl, hrefused⟩
      rw [h] at hfails
      exact not_failsWith_ok hfails
    have hopen := Classical.not_not.mp fun hopen => hfail (.notEnclosed hopen)
    rcases level_ne_or_exists_firstReturn hopen.1 with hnever | ⟨list, hfirst⟩
    · exact absurd (.unbalanced hopen.1 hopen.2 hnever) hfail
    · obtain ⟨segs, rest, hsegs, -⟩ := hfirst.exists_listOf hopen.1
      refine ⟨hopen.1, hopen.2, list, segs, hfirst, hsegs, ?_⟩
      intro hstrict
      have hall : list = text.toList := Classical.not_not.mp fun hrest =>
        hfail (.trailingText hopen.1 hopen.2 hfirst hstrict hrest)
      refine ⟨hall, ?_⟩
      intro reason hfault
      rw [hall] at hfirst hsegs
      exact hfail (.segments hfirst hsegs hstrict hfault)
  · rintro ⟨hhead, hlast, list, segs, hfirst, hsegs, hstrict⟩
    obtain ⟨segs', rest, hsegs', htext⟩ := hfirst.exists_listOf hhead
    obtain rfl := hsegs.unique hsegs'
    obtain ⟨result, hread⟩ := ofSegments_succeeds_iff.mpr fun hmode => (hstrict hmode).2
    have hrest : ¬ (mode = .strict ∧ rest ≠ []) := by
      rintro ⟨hmode, hne⟩
      rw [(hstrict hmode).1] at htext
      exact hne (List.self_eq_append_right.mp htext)
    rw [parse_of_append hhead hlast hsegs htext, if_neg hrest, hread]
    exact ⟨result.1, rfl⟩

end ParameterList

/-! ## Signatures -/

namespace Signature

theorem afterKeyword?_of_not_start (hstart : ¬ "func(".toList <+: text.toList) :
    afterKeyword? text.toList = none := by
  cases hafter : afterKeyword? text.toList with
  | none => rfl
  | some after =>
    obtain ⟨htext, more, rfl⟩ := afterKeyword?_eq_some_iff.mp hafter
    exact absurd ⟨more, htext.symm⟩ hstart

theorem parse_of_not_start (hstart : ¬ "func(".toList <+: text.toList) :
    parse mode text = .error (.signature .missingKeyword text) := by
  rw [parse_eq, afterKeyword?_of_not_start hstart]

theorem afterKeyword?_of_eq {after : List Char} (htext : text.toList = "func".toList ++ '(' :: after) :
    afterKeyword? text.toList = some ('(' :: after) :=
  afterKeyword?_eq_some_iff.mpr ⟨htext, after, rfl⟩

theorem parse_of_level_ne {after : List Char} (htext : text.toList = "func".toList ++ '(' :: after)
    (hnever : ∀ front, front <+: '(' :: after → front ≠ [] → level front ≠ 0) :
    parse mode text = .error (.signature .unbalanced text) := by
  rw [parse_eq, afterKeyword?_of_eq htext]
  simp only [Group.cut?_eq_none_iff.mpr hnever]

/-- Where there is a list behind `func`, its segments decide. -/
theorem parse_of_firstReturn (mode : Mode) {after list : List Char} {segs : List (List Char)}
    (htext : text.toList = "func".toList ++ '(' :: after) (hlist : FirstReturn ('(' :: after) list)
    (hsegs : ListOf segs list) :
    ∃ rest, parse mode text =
      match ParameterList.ofSegments mode segs with
      | .error fault => .error (.parameterList fault (String.ofList list))
      | .ok (params, _) => .ok ⟨params, String.ofList (trim rest)⟩ := by
  obtain ⟨rest, hrest⟩ := hlist.isFront
  have hsegs' : ListOf segs (String.ofList list).toList := by rwa [String.toList_ofList]
  rw [← hrest, ← List.append_assoc] at htext
  refine ⟨rest, ?_⟩
  rw [parse_of_signatureOf hsegs htext, ParameterList.parse_of_listOf hsegs']
  cases ParameterList.ofSegments mode segs <;> rfl

/-- A signature is refused under the conditions that `Refused` states, and under no others. -/
theorem failsWith_iff :
    FailsWith (parse mode text) subject reason input ↔ Refused mode text subject reason input := by
  constructor
  · intro h
    by_cases hstart : "func(".toList <+: text.toList
    case neg =>
      rw [parse_of_not_start hstart] at h
      obtain ⟨rfl, rfl, rfl⟩ := failsWith_error.mp h
      exact .missingKeyword hstart
    obtain ⟨after, hafter⟩ := hstart
    have htext : text.toList = "func".toList ++ '(' :: after := hafter.symm
    have hhead : ('(' :: after).head? = some '(' := rfl
    rcases level_ne_or_exists_firstReturn hhead with hnever | ⟨list, hfirst⟩
    · rw [parse_of_level_ne htext hnever] at h
      obtain ⟨rfl, rfl, rfl⟩ := failsWith_error.mp h
      exact .unbalanced htext hnever
    · obtain ⟨segs, rest, hsegs, -⟩ := hfirst.exists_listOf hhead
      obtain ⟨returns, hparse⟩ := parse_of_firstReturn mode htext hfirst hsegs
      rw [hparse] at h
      cases hread : ParameterList.ofSegments mode segs with
      | ok result =>
        rw [hread] at h
        exact absurd h not_failsWith_ok
      | error fault =>
        rw [hread] at h
        obtain ⟨rfl, rfl, rfl⟩ := failsWith_error.mp h
        obtain ⟨hstrict, hfault⟩ := ParameterList.ofSegments_fails_iff.mp ⟨fault, hread, rfl⟩
        exact .parameters htext hfirst hsegs hstrict hfault
  · intro h
    cases h with
    | missingKeyword hstart =>
      rw [parse_of_not_start hstart]
      exact failsWith_error.mpr ⟨rfl, rfl, rfl⟩
    | unbalanced htext hnever =>
      rw [parse_of_level_ne htext hnever]
      exact failsWith_error.mpr ⟨rfl, rfl, rfl⟩
    | parameters htext hlist hsegs hstrict hfault =>
      obtain ⟨returns, hparse⟩ := parse_of_firstReturn mode htext hlist hsegs
      obtain ⟨fault, hread, rfl⟩ := ParameterList.ofSegments_fails_iff.mpr ⟨hstrict, hfault⟩
      rw [hparse, hread]
      exact failsWith_error.mpr ⟨rfl, rfl, rfl⟩

theorem succeeds_iff : (∃ s, parse mode text = .ok s) ↔ Accepted mode text := by
  constructor
  · rintro ⟨s, h⟩
    obtain ⟨segs, rest, list, hsegs, htext⟩ := exists_signatureOf_of_parse h
    obtain ⟨hhead, hfirst⟩ := closesAtEnd_iff_listOf.mpr ⟨segs, hsegs⟩
    obtain ⟨more, rfl⟩ := List.head?_eq_some_iff.mp hhead
    have hlist : FirstReturn ('(' :: (more ++ rest)) ('(' :: more) := firstReturn_append_iff.mpr hfirst
    rw [List.append_assoc] at htext
    refine ⟨more ++ rest, '(' :: more, segs, htext, hlist, hsegs, ?_⟩
    intro hstrict reason hfault
    have hfails := failsWith_iff.mpr (.parameters htext hlist hsegs hstrict hfault)
    rw [h] at hfails
    exact not_failsWith_ok hfails
  · rintro ⟨after, list, segs, htext, hlist, hsegs, hstrict⟩
    obtain ⟨returns, hparse⟩ := parse_of_firstReturn mode htext hlist hsegs
    obtain ⟨result, hread⟩ := ParameterList.ofSegments_succeeds_iff.mpr hstrict
    rw [hparse, hread]
    exact ⟨_, rfl⟩

end Signature

/-- When signatures and lists are refused, with the subject, the reason and the text of the error, and
when they are accepted. -/
theorem refused_iff (mode : Mode) (text : String) :
    (∀ subject reason input, FailsWith (Signature.parse mode text) subject reason input ↔
      Signature.Refused mode text subject reason input) ∧
    ((∃ s, Signature.parse mode text = .ok s) ↔ Signature.Accepted mode text) ∧
    (∀ subject reason input, FailsWith (ParameterList.parse mode text) subject reason input ↔
      subject = "parameter list" ∧ input = text ∧ ParameterList.Refused mode text reason) ∧
    ((∃ params, ParameterList.parse mode text = .ok params) ↔ ParameterList.Accepted mode text) := by
  refine ⟨?_, Signature.succeeds_iff, ?_, ParameterList.succeeds_iff⟩
  · intro subject reason input
    exact Signature.failsWith_iff
  · intro subject reason input
    exact ParameterList.failsWith_iff

end FuncType
