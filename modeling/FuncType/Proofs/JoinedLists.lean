import FuncType.Proofs.Respacing
import FuncType.Proofs.TornParameters

/-!
# Lists that are joined

A list that declares parameters can be continued: behind a comma the body of any other text in
parentheses may follow. What is read of the continued list is what is read of the first one and then what
is read of the other text, be it parameters or a fault. For nothing of the first list reaches over the
comma. Its body closes all the groups it opens (`Group.closeFrom_balanced_append`), none of its segments
is blank, and none of its names is left over (`Parameter.expand_append`).
-/

namespace FuncType

/-- Reading on inside a group passes over a text that closes all inner groups. -/
theorem Group.closeFrom_balanced_append {depth : Nat} {front : List Char} (h : BalancedFrom depth front)
    (text : List Char) :
    closeFrom depth (front ++ text) =
      (closeFrom 0 text).map fun g => { g with body := front ++ g.body } := by
  induction front generalizing depth with
  | nil =>
    obtain rfl := balancedFrom_nil.mp h
    simp
  | cons c front ih =>
    obtain ⟨hclose, hfront⟩ := balancedFrom_cons.mp h
    have hinside : ¬ (role c = .closes ∧ depth = 0) := fun hc => hclose hc.1 hc.2
    rw [List.cons_append, closeFrom, if_neg hinside, ih hfront, Option.map_map]
    rfl

theorem Group.cut?_balanced_append {front text : List Char} (h : Balanced front)
    (hcut : cut? ('(' :: text) = none) : cut? ('(' :: (front ++ text)) = none := by
  have hopen : ∀ more : List Char, cut? ('(' :: more) = closeFrom 0 more := fun _ => rfl
  rw [hopen] at hcut ⊢
  rw [closeFrom_balanced_append h, hcut]
  rfl

/-- Declarations that leave no name over have their parameters in front of those of what follows. -/
theorem Parameter.expand_append {front : List Declaration} (h : (expand front).2 = [])
    (back : List Declaration) :
    expand (front ++ back) = ((expand front).1 ++ (expand back).1, (expand back).2) := by
  induction front with
  | nil => rfl
  | cons d more ih =>
    obtain ⟨type, htype, heq⟩ | ⟨next, rest, hbare, hmore, heq⟩ | ⟨-, -, heq⟩ := expand_cons d more
    · rw [heq] at h
      rw [heq, List.cons_append, expand, ih h, htype]
      rfl
    · -- the name has its type from a declaration of `more`, which is in front of `back`
      rw [heq] at h
      rw [heq, List.cons_append, expand, ih h, hbare, hmore]
      rfl
    · rw [heq] at h
      cases h

namespace ParameterList

/-! ## Segments -/

section Segments

variable {xs ys : List (List Char)} {ps : List Parameter}

theorem noBlank_of_ofSegments_strict (h : ofSegments .strict xs = .ok (ps, [])) (hps : ps ≠ []) :
    ∀ segment ∈ xs, isBlank segment = false := by
  obtain ⟨hexpand, hstrict⟩ := ofSegments_eq_ok_iff.mp h
  refine (hstrict rfl).1.resolve_left fun hempty => hps ?_
  rw [declarations_of_isEmpty hempty] at hexpand
  exact (congrArg Prod.fst hexpand).symm

theorem isEmpty_append (hno : ∀ segment ∈ xs, isBlank segment = false) (hxs : xs ≠ []) :
    isEmpty (xs ++ ys) = false := by
  rw [← Bool.not_eq_true, isEmpty_iff]
  rintro ⟨segment, hall, hblank⟩
  obtain ⟨first, more, rfl⟩ := List.exists_cons_of_ne_nil hxs
  obtain ⟨rfl, -⟩ := List.cons.inj hall
  rw [hno first List.mem_cons_self] at hblank
  cases hblank

/-- Behind segments that declare parameters, further segments are judged as they are on their own. -/
theorem ofSegments_strict_append (hread : ofSegments .strict xs = .ok (ps, [])) (hps : ps ≠ [])
    (hys : isEmpty ys = false) :
    ofSegments .strict (xs ++ ys) =
      (ofSegments .strict ys).map fun (params, leftOver) => (ps ++ params, leftOver) := by
  have hno := noBlank_of_ofSegments_strict hread hps
  have hexpand := (ofSegments_eq_ok_iff.mp hread).1
  have hxs : xs ≠ [] := by
    rintro rfl
    exact hps (congrArg Prod.fst hexpand).symm
  have hany : xs.any isBlank = false := by simpa using hno
  have happend : Parameter.expand (declarations (xs ++ ys)) =
      (ps ++ (Parameter.expand (declarations ys)).1, (Parameter.expand (declarations ys)).2) := by
    rw [declarations_append, Parameter.expand_append (congrArg Prod.snd hexpand), hexpand]
  rw [ofSegments_eq, ofSegments_eq, isEmpty_append hno hxs, hys, List.any_append, hany, Bool.false_or,
    happend]
  simp only [Bool.false_eq_true, if_false]
  split
  · rfl
  · split <;> rfl

theorem verdict_strict_append (hread : ofSegments .strict xs = .ok (ps, [])) (hps : ps ≠ [])
    {rest : List Char} (hys : rest = [] → isEmpty ys = false) :
    verdict .strict (xs ++ ys) rest = (verdict .strict ys rest).map (ps ++ ·) := by
  rw [verdict, verdict]
  by_cases hrest : rest = []
  · rw [if_neg (by simp [hrest]), if_neg (by simp [hrest]), if_neg (by simp [hrest]),
      if_neg (by simp [hrest]), ofSegments_strict_append hread hps (hys hrest)]
    cases ofSegments .strict ys <;> rfl
  · -- a text with something behind its list is refused before the segments are looked at
    have htrailing : Mode.strict = .strict ∧ rest ≠ [] := ⟨rfl, hrest⟩
    split <;> rfl

end Segments

end ParameterList

/-! ## Texts -/

theorem intercalate_append {sep : List Char} {xs ys : List (List Char)} (hxs : xs ≠ [])
    (hys : ys ≠ []) :
    sep.intercalate (xs ++ ys) = sep.intercalate xs ++ sep ++ sep.intercalate ys := by
  obtain ⟨front, last, rfl⟩ : ∃ front last, xs = front ++ [last] :=
    ⟨xs.dropLast, xs.getLast hxs, (List.dropLast_append_getLast hxs).symm⟩
  have hlast : sep.intercalate (last :: ys) = sep.intercalate [last] ++ (sep ++ sep.intercalate ys) := by
    obtain ⟨y, more, rfl⟩ := List.exists_cons_of_ne_nil hys
    rw [List.intercalate_cons_cons, List.intercalate_singleton, List.append_assoc]
  rw [List.append_assoc front, List.singleton_append, List.append_assoc]
  exact intercalate_append_left (List.cons_ne_nil _ _) (List.cons_ne_nil _ _) hlast front

theorem ListOf.balanced_append_comma {xs : List (List Char)} {body : List Char}
    (h : ListOf xs ('(' :: (body ++ [')']))) : Balanced (body ++ [',']) := by
  have hbody : body = [','].intercalate xs := by simpa using h.text_eq
  have hfront : Balanced body := by
    rw [hbody]
    exact (Group.cut?_eq_some_iff.mp (h.cut?_append [])).2
  rw [balanced_append hfront.level_eq_zero]
  refine ⟨hfront, ?_⟩
  unfold Balanced
  rw [balancedFrom_cons, balancedFrom_nil]
  simp [role, Role.depthAfter]

/-- Two lists, joined by a comma, are the list of the segments of both. -/
theorem ListOf.append {xs ys : List (List Char)} {front back : List Char}
    (hxs : ListOf xs ('(' :: (front ++ [')']))) (hys : ListOf ys ('(' :: (back ++ [')']))) :
    ListOf (xs ++ ys) ('(' :: (front ++ ',' :: back ++ [')'])) where
  ne_nil := List.append_ne_nil_of_left_ne_nil hxs.ne_nil ys
  isItem := List.forall_mem_append.mpr ⟨hxs.isItem, hys.isItem⟩
  text_eq := by
    have hfront : front = [','].intercalate xs := by simpa using hxs.text_eq
    have hback : back = [','].intercalate ys := by simpa using hys.text_eq
    rw [intercalate_append hxs.ne_nil hys.ne_nil, ← hfront, ← hback]
    simp

namespace ParameterList

theorem parse_of_cut?_eq_none {mode : Mode} {text : String} {body : List Char}
    (htext : text.toList = '(' :: (body ++ [')'])) (hcut : Group.cut? ('(' :: (body ++ [')'])) = none) :
    parse mode text = .error (.parameterList .unbalanced text) := by
  have henclosed : isEnclosed text.toList = true := by
    rw [htext, isEnclosed_iff, ← List.cons_append, List.getLast?_concat]
    exact ⟨rfl, rfl⟩
  rw [parse_eq, if_neg (by simp [henclosed]), htext, hcut]

theorem isEmpty_segments {body : List Char} (h : ∃ c ∈ body, isSpace c = false) :
    isEmpty (segments body) = false := by
  rw [← Bool.not_eq_true, isEmpty_iff]
  rintro ⟨segment, hall, hblank⟩
  have hbody : body = segment := by
    rw [← intercalate_segments body, hall, List.intercalate_singleton]
  obtain ⟨c, hc, hspace⟩ := h
  rw [hbody] at hc
  rw [isBlank_iff.mp hblank c hc] at hspace
  cases hspace

variable {A B : String} {pa : List Parameter}

/-- The verdict on a list that continues another is the verdict on what continues it, with the
parameters of the first list in front. -/
theorem exists_verdict_joined (hA : parse .strict ("(" ++ A ++ ")") = .ok pa) (hpa : pa ≠ [])
    (hB : ∃ c ∈ B.toList, isSpace c = false) :
    ∃ result : Except ListFault (List Parameter),
      parse .strict ("(" ++ B ++ ")") =
        result.mapError (fun fault => .parameterList fault ("(" ++ B ++ ")")) ∧
      parse .strict ("(" ++ A ++ "," ++ B ++ ")") =
        (result.map (pa ++ ·)).mapError
          (fun fault => .parameterList fault ("(" ++ A ++ "," ++ B ++ ")")) := by
  obtain ⟨xs, hxs⟩ := exists_listOf_of_parse_strict hA
  obtain ⟨leftOver, hread⟩ := (parse_eq_ok_iff_of_listOf hxs).mp hA
  obtain rfl : leftOver = [] := ((ofSegments_eq_ok_iff.mp hread).2 rfl).2
  have htextA : ("(" ++ A ++ ")").toList = '(' :: (A.toList ++ [')']) := by simp
  have htextB : ("(" ++ B ++ ")").toList = '(' :: (B.toList ++ [')']) := by simp
  have htext : ("(" ++ A ++ "," ++ B ++ ")").toList =
      '(' :: ((A.toList ++ [',']) ++ (B.toList ++ [')'])) := by simp
  rw [htextA] at hxs
  cases hcut : Group.cut? ('(' :: (B.toList ++ [')'])) with
  | none =>
    have hjoined : Group.cut? ('(' :: ((A.toList ++ [',']) ++ (B.toList ++ [')']))) = none :=
      Group.cut?_balanced_append hxs.balanced_append_comma hcut
    rw [← List.append_assoc] at htext hjoined
    exact ⟨.error .unbalanced, parse_of_cut?_eq_none htextB hcut,
      parse_of_cut?_eq_none htext hjoined⟩
  | some group =>
    obtain ⟨hgroup, hbody⟩ := Group.cut?_eq_some_iff.mp hcut
    have hys := Group.listOf_segments hbody
    have hempty : group.rest = [] → isEmpty group.segments = false := by
      intro hrest
      have hsame : group.body = B.toList := by
        rw [hrest] at hgroup
        simpa [Group.text, eq_comm] using hgroup
      exact isEmpty_segments (hsame ▸ hB)
    refine ⟨verdict .strict group.segments group.rest, ?_, ?_⟩
    · exact parse_eq_verdict hys (htextB.trans hgroup)
    · rw [← verdict_strict_append hread hpa hempty]
      refine parse_eq_verdict (hxs.append hys) ?_
      have hback : B.toList ++ [')'] = group.body ++ ')' :: group.rest := by
        simpa [Group.text] using hgroup
      rw [htext, hback]
      simp

/-- A list that declares parameters can be continued with the body of any text that is not blank. The
parameters of both follow one another if the text is accepted in parentheses, and if it is refused so is
the continued list, for the same reason. -/
theorem parse_strict_joined (hA : parse .strict ("(" ++ A ++ ")") = .ok pa) (hpa : pa ≠ [])
    (hB : ∃ c ∈ B.toList, isSpace c = false) :
    (∀ pb, parse .strict ("(" ++ B ++ ")") = .ok pb →
      parse .strict ("(" ++ A ++ "," ++ B ++ ")") = .ok (pa ++ pb)) ∧
    ∀ e, parse .strict ("(" ++ B ++ ")") = .error e →
      FailsWith (parse .strict ("(" ++ A ++ "," ++ B ++ ")")) e.subject e.reason
        ("(" ++ A ++ "," ++ B ++ ")") := by
  obtain ⟨result, hresult, hjoined⟩ := exists_verdict_joined hA hpa hB
  rw [hresult, hjoined]
  cases result with
  | error fault =>
    constructor
    · intro pb h
      cases h
    · intro e h
      obtain rfl := Except.error.inj h
      exact ⟨_, rfl, rfl, rfl, rfl⟩
  | ok params =>
    constructor
    · intro pb h
      obtain rfl := Except.ok.inj h
      rfl
    · intro e h
      cases h

/-- Behind a shared type: an inner comma, a list that closes early, and a name without a type. -/
theorem parse_strict_joined_at_shared_type :
    parse .strict ("(" ++ "a, b int" ++ ")") = .ok [⟨"a", "int"⟩, ⟨"b", "int"⟩] ∧
      parse .strict ("(" ++ "a, b int" ++ "," ++ " c f(x, y)" ++ ")") =
        .ok [⟨"a", "int"⟩, ⟨"b", "int"⟩, ⟨"c", "f(x, y)"⟩] ∧
      FailsWith (parse .strict ("(" ++ "a, b int" ++ "," ++ "c)d(" ++ ")")) "parameter list"
        "text after closing parenthesis" "(a, b int,c)d()" ∧
      FailsWith (parse .strict ("(" ++ "a, b int" ++ "," ++ "c" ++ ")")) "parameter list"
        "parameter without a type" "(a, b int,c)" := by
  have hA : parse .strict ("(" ++ "a, b int" ++ ")") = .ok [⟨"a", "int"⟩, ⟨"b", "int"⟩] := rfl
  have hpa : [Parameter.mk "a" "int", ⟨"b", "int"⟩] ≠ [] := List.cons_ne_nil _ _
  have hB : ∃ c ∈ " c f(x, y)".toList, isSpace c = false := ⟨'c', by decide, rfl⟩
  have hearly : ∃ c ∈ "c)d(".toList, isSpace c = false := ⟨'c', by decide, rfl⟩
  have hbare : ∃ c ∈ "c".toList, isSpace c = false := ⟨'c', by decide, rfl⟩
  exact ⟨hA, (parse_strict_joined hA hpa hB).1 [⟨"c", "f(x, y)"⟩] rfl,
    (parse_strict_joined hA hpa hearly).2 (.parameterList .trailingText "(c)d()") rfl,
    (parse_strict_joined hA hpa hbare).2 (.parameterList .untypedParameter "(c)") rfl⟩

end ParameterList

end FuncType
