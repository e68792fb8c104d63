import FuncType.Proofs.Attainable

/-!
# Sharing a type is a matter of notation

A bare name in a list has the type of the parameter behind it. The type may as well be written out behind
the name; and a name whose type is that of the next parameter may as well be left bare. Neither changes
the parameters of a list: what the declarations in front of a place stand for depends only on what those
behind it stand for (`Parameter.exists_expand_cons`), so a declaration can be exchanged for another one of
the same parameter, wherever it stands and however many names share its type (`Parameter.expand_set`).

For a list it remains that the new segment must be an item, or the list would be cut into other segments
(`ParameterList.parse_strict_set`).
-/

namespace FuncType

open Declaration

/-! ## Declarations -/

namespace Parameter

/-- The declarations that stand for a parameter in front of others, of which `next?` is the first: one
with its name and its type, and the bare name if the next parameter has that type. -/
inductive DeclaredBy (p : Parameter) (next? : Option Parameter) : Declaration → Prop where
  /-- The type is written out. -/
  | typed : DeclaredBy p next? ⟨p.name, some p.type⟩
  /-- The type is that of the next parameter. -/
  | bare {next : Parameter} (hnext : next? = some next) (htype : next.type = p.type) :
      DeclaredBy p next? ⟨p.name, none⟩

theorem expand_cons_of_declaredBy {p : Parameter} {d : Declaration} {more : List Declaration}
    (h : p.DeclaredBy (expand more).1.head? d) :
    expand (d :: more) = (p :: (expand more).1, (expand more).2) := by
  cases h with
  | typed => rw [expand]
  | bare hnext htype =>
    rcases hmore : expand more with ⟨params, leftOver⟩
    rw [hmore] at hnext
    obtain ⟨rest, rfl⟩ := List.head?_eq_some_iff.mp hnext
    rw [expand, hmore]
    simp only [htype]

/-- If there are parameters at all, the first declaration adds one and those behind it stand for the
others. -/
theorem exists_expand_cons {d : Declaration} {more : List Declaration}
    (h : (expand (d :: more)).1 ≠ []) :
    ∃ p, expand (d :: more) = (p :: (expand more).1, (expand more).2) := by
  obtain ⟨type, -, heq⟩ | ⟨next, rest, -, hmore, heq⟩ | ⟨-, -, heq⟩ := expand_cons d more
  · exact ⟨_, heq⟩
  · rw [← hmore] at heq
    exact ⟨_, heq⟩
  · rw [heq] at h
    exact absurd rfl h

/-- A declaration can be exchanged for any that stands for the same parameter. -/
theorem expand_set {ds : List Declaration} {i : Nat} {p : Parameter} {d : Declaration}
    (hp : (expand ds).1[i]? = some p) (hd : p.DeclaredBy (expand ds).1[i + 1]? d) :
    expand (ds.set i d) = expand ds := by
  induction ds generalizing i with
  | nil => rfl
  | cons first more ih =>
    have hne : (expand (first :: more)).1 ≠ [] := by
      intro hnil
      rw [hnil] at hp
      cases hp
    obtain ⟨q, heq⟩ := exists_expand_cons hne
    rw [heq] at hp hd
    cases i with
    | zero =>
      obtain rfl : q = p := Option.some.inj hp
      rw [List.set_cons_zero, heq]
      refine expand_cons_of_declaredBy ?_
      rw [List.head?_eq_getElem?]
      exact hd
    | succ i =>
      have hmore : expand (more.set i d) = expand more := ih hp hd
      rw [List.set_cons_succ, expand, hmore, ← expand]

end Parameter

/-! ## Lists -/

namespace ParameterList

variable {text : String} {segs : List (List Char)} {ps : List Parameter} {i : Nat} {p : Parameter}

/-- The strict mode accepts a list without blank segments if no name is left over. -/
theorem parse_strict_iff_expand (hlist : ListOf segs text.toList)
    (hno : ∀ segment ∈ segs, isBlank segment = false) :
    parse .strict text = .ok ps ↔ Parameter.expand (segs.map ofSegment) = (ps, []) := by
  rw [parse_eq_ok_iff_of_listOf hlist, ← declarations_of_noBlank hno]
  constructor
  · rintro ⟨leftOver, hok⟩
    obtain ⟨hexpand, hstrict⟩ := ofSegments_eq_ok_iff.mp hok
    obtain ⟨-, rfl⟩ := hstrict rfl
    exact hexpand
  · intro hexpand
    exact ⟨[], ofSegments_eq_ok_iff.mpr ⟨hexpand, fun _ => ⟨Or.inr hno, rfl⟩⟩⟩

/-- A segment can be exchanged for an item that declares the same parameter. -/
theorem parse_strict_set_of_declaredBy (hlist : ListOf segs text.toList)
    (hno : ∀ segment ∈ segs, isBlank segment = false) (h : parse .strict text = .ok ps)
    (hp : ps[i]? = some p) {item : List Char} (hitem : IsItem item) (hblank : isBlank item = false)
    (hd : p.DeclaredBy ps[i + 1]? (ofSegment item)) :
    parse .strict (String.ofList ('(' :: [','].intercalate (segs.set i item) ++ [')'])) = .ok ps := by
  have hexpand := (parse_strict_iff_expand hlist hno).mp h
  have hnew : ∀ segment ∈ segs.set i item, IsItem segment ∧ isBlank segment = false := by
    intro segment hmem
    rcases List.mem_or_eq_of_mem_set hmem with hold | rfl
    · exact ⟨hlist.isItem segment hold, hno segment hold⟩
    · exact ⟨hitem, hblank⟩
  have hset : ListOf (segs.set i item)
      (String.ofList ('(' :: [','].intercalate (segs.set i item) ++ [')'])).toList := by
    rw [String.toList_ofList]
    refine ⟨?_, fun segment hmem => (hnew segment hmem).1, rfl⟩
    rw [ne_eq, List.set_eq_nil_iff]
    exact hlist.ne_nil
  rw [parse_strict_iff_expand hset fun segment hmem => (hnew segment hmem).2, List.map_set,
    Parameter.expand_set (p := p), hexpand]
  · rwa [hexpand]
  · rwa [hexpand]

/-- In an accepted list without blank segments, the type that a bare name has may be written out behind
it, and a name whose type is that of the next parameter may be left bare: the parameters stay the same.
What is written must be an item, with what was there. -/
theorem parse_strict_set (hlist : ListOf segs text.toList)
    (hno : ∀ segment ∈ segs, isBlank segment = false) (h : parse .strict text = .ok ps) :
    ps.length = segs.length ∧
    (∀ i segment p, segs[i]? = some segment → ps[i]? = some p → ¬ HasSpace (trim segment) →
      IsItem p.type.toList →
      parse .strict (String.ofList
        ('(' :: [','].intercalate (segs.set i (p.name ++ " " ++ p.type).toList) ++ [')'])) = .ok ps) ∧
    ∀ i p next, ps[i]? = some p → ps[i + 1]? = some next → next.type = p.type → IsItem p.name.toList →
      parse .strict (String.ofList
        ('(' :: [','].intercalate (segs.set i p.name.toList) ++ [')'])) = .ok ps := by
  have hexpand := (parse_strict_iff_expand hlist hno).mp h
  have hdeclares := declares_iff.mpr ⟨hno, hexpand⟩
  have htidy : ∀ {i : Nat} {p : Parameter}, ps[i]? = some p → p.Tidy := by
    intro i p hp
    have hmem : p ∈ (Parameter.expand (declarations segs)).1 := by
      rw [declarations_of_noBlank hno, hexpand]
      exact List.mem_of_getElem? hp
    exact Parameter.tidy_of_mem_expand hmem
  refine ⟨hdeclares.length_eq, fun i segment p hsegment hp hbare htype => ?_,
    fun i p next hp hnext htype hname => ?_⟩
  · have hwritten : ofSegment (p.name ++ " " ++ p.type).toList = ⟨p.name, some p.type⟩ :=
      (htidy hp).ofSegment_render (u := []) rfl
    have hname : p.name.toList = trim segment := by
      rw [trim_of_bare (type?_eq_none_iff.mpr hbare), name_ofSegment]
      exact firstWord_iff.mp (hdeclares.name i segment p hsegment hp)
    have hitem : IsItem p.render.toList := by
      refine (Parameter.isItem_render_iff_of_name ?_).mpr htype
      rw [hname]
      exact isItem_trim.mpr (hlist.isItem segment (List.mem_of_getElem? hsegment))
    refine parse_strict_set_of_declaredBy hlist hno h hp hitem
      (isBlank_of_typed (congrArg Declaration.type? hwritten)) ?_
    rw [hwritten]
    exact .typed
  · have hword : ofSegment p.name.toList = ⟨p.name, none⟩ :=
      Parameter.ofSegment_word (htidy hp).name_noSpace
    refine parse_strict_set_of_declaredBy hlist hno h hp hname
      (Parameter.isBlank_of_tidy (htidy hp)) ?_
    rw [hword]
    exact .bare hnext htype

/-- The first of three names gets its type, with an inner comma, and the second loses its own. -/
theorem parse_strict_set_at_inner_comma :
    ListOf ["a".toList, " b f(x, y)".toList, " c f(x, y)".toList] "(a, b f(x, y), c f(x, y))".toList ∧
      parse .strict "(a, b f(x, y), c f(x, y))" =
        .ok [⟨"a", "f(x, y)"⟩, ⟨"b", "f(x, y)"⟩, ⟨"c", "f(x, y)"⟩] ∧
      parse .strict "(a f(x, y), b f(x, y), c f(x, y))" =
        .ok [⟨"a", "f(x, y)"⟩, ⟨"b", "f(x, y)"⟩, ⟨"c", "f(x, y)"⟩] ∧
      parse .strict "(a,b, c f(x, y))" =
        .ok [⟨"a", "f(x, y)"⟩, ⟨"b", "f(x, y)"⟩, ⟨"c", "f(x, y)"⟩] := by
  have hcut : Group.cut? "(a, b f(x, y), c f(x, y))".toList =
      some ⟨"a, b f(x, y), c f(x, y)".toList, []⟩ := rfl
  have hlist : ListOf ["a".toList, " b f(x, y)".toList, " c f(x, y)".toList]
      "(a, b f(x, y), c f(x, y))".toList :=
    Group.listOf_segments (g := ⟨"a, b f(x, y), c f(x, y)".toList, []⟩)
      (Group.cut?_eq_some_iff.mp hcut).2
  have hno : ∀ segment ∈ ["a".toList, " b f(x, y)".toList, " c f(x, y)".toList],
      isBlank segment = false := by decide
  have hread : parse .strict "(a, b f(x, y), c f(x, y))" =
      .ok [⟨"a", "f(x, y)"⟩, ⟨"b", "f(x, y)"⟩, ⟨"c", "f(x, y)"⟩] := rfl
  have hbare : ¬ HasSpace (trim "a".toList) := by
    refine not_hasSpace_iff.mpr fun c hc => ?_
    obtain rfl : c = 'a' := List.mem_singleton.mp hc
    rfl
  have htype : IsItem "f(x, y)".toList := by
    have hinner : Group.cut? "(f(x, y))".toList = some ⟨"f(x, y)".toList, []⟩ := rfl
    exact isItem_of_mem_segments (Group.cut?_eq_some_iff.mp hinner).2 _ List.mem_cons_self
  have hname : IsItem "b".toList := by
    have hinner : Group.cut? "(b)".toList = some ⟨"b".toList, []⟩ := rfl
    exact isItem_of_mem_segments (Group.cut?_eq_some_iff.mp hinner).2 _ List.mem_cons_self
  obtain ⟨-, hwritten, hshared⟩ := parse_strict_set hlist hno hread
  exact ⟨hlist, hread, hwritten 0 _ ⟨"a", "f(x, y)"⟩ rfl rfl hbare htype,
    hshared 1 ⟨"b", "f(x, y)"⟩ _ rfl rfl rfl hname⟩

end ParameterList

end FuncType
