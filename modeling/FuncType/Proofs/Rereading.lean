import FuncType.Proofs.Refusals
import FuncType.Proofs.TornParameters

/-!
# Reading and writing in turns

A text is read, what was read is written out and read again, and so on. A turn changes nothing if no
parameter is torn. Otherwise it loses something: the list that is read ends inside the type of the first
torn parameter, and a torn parameter that comes out of the next turn was declared inside of what is left
of that type. It has a type of its own with at least one opening parenthesis less
(`Signature.tornBelow_of_parse_render`). The number of opening parentheses in the types of torn parameters
is below that of the text to begin with, so after that many turns there is no torn parameter left.

A written list always closes (`Signature.exists_signatureOf_render`). So a turn can fail only for the
segments of its list, which the strict mode alone refuses.

Rereading goes through the turns: its steps are the turns up to the first that is refused, each compared
with the one before it (`Signature.getElem?_reread`).
-/

namespace FuncType

open Declaration ParameterList

/-- All torn parameters have fewer than `n` opening parentheses in their types. -/
def Parameter.TornBelow (n : Nat) (ps : List Parameter) : Prop :=
  ∀ p ∈ ps, IsItem p.render.toList ∨ p.type.toList.count '(' < n

/-- What the turns read: turn `0` reads the text, and every other turn what the turn before it has read,
written out. Behind a turn that is refused all turns are. -/
def Signature.turn (mode : Mode) (text : String) : Nat → Except SignatureError Signature
  | 0 => parse mode text
  | k + 1 => turn mode text k >>= fun s => parse mode s.render

/-- The step that reads what a turn reads, behind a step that has read `previous`. -/
def Signature.Step.ofTurn (previous : Option Signature) : Except SignatureError Signature → Step
  | .ok s => .accepted s (previous.map fun p => decide (s = p))
  | .error e => .refused e

/-- A step is the turn of its number: the first turn, behind what has been read before, or a turn behind
one that has read a signature. -/
inductive Signature.StepAt (mode : Mode) (previous : Option Signature) (text : String) :
    Nat → Step → Prop where
  /-- The first turn. -/
  | first : StepAt mode previous text 0 (.ofTurn previous (turn mode text 0))
  /-- A turn behind one that has read a signature. -/
  | next {k : Nat} {s : Signature} (h : turn mode text k = .ok s) :
      StepAt mode previous text (k + 1) (.ofTurn (some s) (turn mode text (k + 1)))

/-! ## The first turn -/

theorem Parameter.TornBelow.mono {m n : Nat} {ps : List Parameter} (h : TornBelow m ps)
    (hle : m ≤ n) : TornBelow n ps := by
  intro p hp
  rcases h p hp with hitem | hlt
  · exact Or.inl hitem
  · exact Or.inr (Nat.lt_of_lt_of_le hlt hle)

namespace Signature

variable {mode : Mode} {text : String} {s s' : Signature}

/-- Torn parameters have fewer opening parentheses in their types than the text behind its first one. -/
theorem exists_tornBelow_of_parse (h : parse mode text = .ok s) :
    ∃ n, text.toList.count '(' = n + 1 ∧ Parameter.TornBelow n s.params := by
  obtain ⟨segs, rest, ⟨list, hlist, htext⟩, hparams, -⟩ := exists_declarations_of_parse h
  have hcount : text.toList.count '(' =
      ([','].intercalate segs).count '(' + rest.count '(' + 1 := by
    have hkeyword : keyword.toList.count '(' = 0 := by decide
    have hclose : [')'].count '(' = 0 := by decide
    rw [htext, hlist.text_eq, List.count_append, List.count_append, List.cons_append,
      List.count_cons_self, List.count_append, hkeyword, hclose]
    omega
  refine ⟨_, hcount, ?_⟩
  intro p hp
  by_cases htorn : IsItem p.render.toList
  · exact Or.inl htorn
  · rw [hparams] at hp
    obtain ⟨-, -, source, hmem, htype, hcut⟩ := Parameter.torn_of_mem_expand hlist.isItem hp htorn
    have hlt := count_type_lt (hlist.isItem source hmem) htype hcut
    have hle := count_le_of_mem_intercalate [','] hmem '('
    exact Or.inr (by omega)

/-! ## From turn to turn -/

/-- What is read from its written form without torn parameters is the same again. -/
theorem parse_render_of_whole (h : parse mode text = .ok s)
    (hwhole : ∀ p ∈ s.params, IsItem p.render.toList) : parse mode s.render = .ok s := by
  obtain ⟨hreturns, htidy⟩ := tidy_of_parse h
  exact parse_render_of_readable hreturns fun p hp => ⟨htidy p hp, hwhole p hp⟩

/-- In front of the cut off text stands a name that is an item; so a segment that is cut inside of a
group is one of that text. -/
theorem mem_segments_of_not_cutsOutside {blank name body source : List Char} {type : String}
    (hblank : isBlank blank) (hitem : IsItem name) (hne : name ≠ []) (hno : ¬ HasSpace name)
    (hmem : source ∈ segments (blank ++ name ++ [' '] ++ body))
    (htype : (ofSegment source).type? = some type) (hcut : ¬ CutsOutside source) :
    source ∈ segments body := by
  have hsegments : segments (blank ++ name ++ [' '] ++ body) =
      (segments body).modifyHead (blank ++ name ++ [' '] ++ ·) :=
    segmentsFrom_item_append (isItem_padded hblank hitem) body
  rw [hsegments] at hmem
  cases hbody : segments body with
  | nil => exact absurd hbody (segments_ne_nil body)
  | cons first more =>
    rw [hbody, List.modifyHead_cons] at hmem
    rcases List.mem_cons.mp hmem with rfl | hmem
    · have hname : (ofSegment (blank ++ name ++ [' '] ++ first)).name.toList = name := by
        rw [List.append_assoc, List.singleton_append]
        exact name_ofSegment_append hblank hne hno rfl first
      refine absurd ((cutsOutside_iff_level htype).mpr ?_) hcut
      rw [hname]
      exact hitem.balanced.level_eq_zero
    · exact List.mem_cons_of_mem first hmem

/-- In each turn the types of torn parameters lose an opening parenthesis. -/
theorem tornBelow_of_parse_render {n : Nat} (h : parse mode text = .ok s)
    (hbelow : Parameter.TornBelow (n + 1) s.params) (h' : parse mode s.render = .ok s') :
    Parameter.TornBelow n s'.params := by
  obtain ⟨-, htidy⟩ := tidy_of_parse h
  rcases Parameter.exists_first_torn s.params with hall | ⟨whole, p, rest, hparams, hwhole, htorn⟩
  · -- nothing is torn, so the turn changes nothing and there is nothing to bound
    obtain rfl : s = s' := Except.ok.inj ((parse_render_of_whole h hall).symm.trans h')
    intro q hq
    exact Or.inl (hall q hq)
  have hp : p ∈ s.params := by simp [hparams]
  obtain ⟨hitem, body, after, htype, hbody⟩ : IsItem p.name.toList ∧
      ∃ body after, p.type.toList = body ++ ')' :: after ∧ Balanced body := by
    obtain ⟨segs, rest, hsig, hdeclared, -⟩ := exists_declarations_of_parse h
    rw [hdeclared] at hp
    obtain ⟨hitem, hneg, -⟩ := Parameter.torn_of_mem_expand hsig.isItem hp htorn
    exact ⟨hitem, Group.exists_closing_of_level_neg hneg⟩
  have hcount : p.type.toList.count '(' < n + 1 := (hbelow p hp).resolve_left htorn
  have hne : p.name.toList ≠ [] := by simpa using (htidy p hp).name_ne
  -- the list that is read ends inside the type of `p`; of what stood behind, nothing is declared
  obtain ⟨front, blank, returns, hblank, hdeclares, hsig⟩ :=
    exists_signatureOf_of_torn htidy hparams hwhole hitem htype hbody
  obtain ⟨⟨leftOver, hok⟩, -⟩ := (parse_eq_ok_iff_of_signatureOf hsig).mp h'
  obtain ⟨hexpand, -⟩ := ofSegments_eq_ok_iff.mp hok
  rw [declarations_append, hdeclares, Parameter.expand_typed_append] at hexpand
  obtain ⟨hparams', -⟩ := Prod.mk.inj hexpand
  intro q hq
  rw [← hparams'] at hq
  rcases List.mem_append.mp hq with hq | hq
  · exact Or.inl (hwhole q hq)
  by_cases htorn' : IsItem q.render.toList
  · exact Or.inl htorn'
  · have hitems : ∀ segment ∈ segments (blank ++ p.name.toList ++ [' '] ++ body), IsItem segment :=
      fun segment hmem => hsig.isItem segment (List.mem_append_right _ hmem)
    obtain ⟨-, -, source, hmem, htype', hcut⟩ := Parameter.torn_of_mem_expand hitems hq htorn'
    have hlt := count_type_lt (hitems source hmem) htype' hcut
    -- `source` stands in `body`, and the cut leaves one of its parentheses to the name
    have hinside := mem_segments_of_not_cutsOutside hblank hitem hne (htidy p hp).name_noSpace hmem
      htype' hcut
    have hle := count_le_of_mem_segments hinside '('
    rw [htype, List.count_append] at hcount
    exact Or.inr (by omega)

/-! ## Turns that fail -/

/-- What is written of an accepted signature is a signature again: it starts with the keyword, and its
list closes. -/
theorem exists_signatureOf_render (h : parse mode text = .ok s) :
    ∃ segs rest, SignatureOf segs rest s.render.toList := by
  have hle : ∀ piece ∈ s.params.map fun p => p.render.toList, level piece ≤ 0 := by
    intro piece hmem
    obtain ⟨p, hp, rfl⟩ := List.mem_map.mp hmem
    exact (level_render_of_parse h p hp).1
  have hsep : level [',', ' '] = 0 := rfl
  have hclose : level [')'] = -1 := rfl
  -- no parameter opens more than it closes, so the closing parenthesis of the list is one too many
  have hneg : level ([','].intercalate (Parameter.written s.params) ++ [')']) < 0 := by
    have hnonpos := (level_intercalate_nonpos hsep hle).1
    rw [level_append, Parameter.intercalate_written, hclose]
    omega
  obtain ⟨body, after, heq, hbody⟩ := Group.exists_closing_of_level_neg hneg
  have hlist : ListOf (segments body) ('(' :: body ++ [')']) :=
    Group.listOf_segments (g := ⟨body, after⟩) hbody
  refine ⟨segments body, after ++ s.tail, _, hlist, ?_⟩
  rw [toList_render, List.cons_append, heq]
  simp

/-- What is written of an accepted signature is accepted again, or the strict mode finds fault with the
segments of its list. -/
theorem parse_render_cases (h : parse mode text = .ok s) :
    (∃ s', parse mode s.render = .ok s') ∨
      mode = .strict ∧ ∃ reason input, FailsWith (parse mode s.render) "parameter list" reason input ∧
        (reason = "empty parameter" ∨ reason = "parameter without a type") := by
  obtain ⟨segs, rest, list, hlist, htext⟩ := exists_signatureOf_render h
  have hlist' : ListOf segs (String.ofList list).toList := by rwa [String.toList_ofList]
  have hparse : parse mode s.render = _ := parse_of_signatureOf hlist htext
  rw [parse_of_listOf hlist'] at hparse
  cases hread : ofSegments mode segs with
  | ok result =>
    rw [hread] at hparse
    exact Or.inl ⟨_, hparse⟩
  | error fault =>
    rw [hread] at hparse
    obtain ⟨hstrict, hfault⟩ := ofSegments_fails_iff.mp ⟨fault, hread, rfl⟩
    refine Or.inr ⟨hstrict, fault.reason, String.ofList list, ?_, hfault.reason_eq⟩
    rw [hparse]
    exact failsWith_error.mpr ⟨rfl, rfl, rfl⟩

/-! ## All turns -/

theorem turn_succ_eq_ok_iff {k : Nat} :
    turn mode text (k + 1) = .ok s' ↔
      ∃ s, turn mode text k = .ok s ∧ parse mode s.render = .ok s' := by
  rw [turn]
  cases turn mode text k with
  | error e =>
    refine iff_of_false ?_ ?_
    · intro h
      cases h
    · rintro ⟨s, h, -⟩
      cases h
  | ok s =>
    constructor
    · intro h
      exact ⟨s, rfl, h⟩
    · rintro ⟨s, hs, h⟩
      obtain rfl := Except.ok.inj hs
      exact h

theorem exists_parse_of_turn {k : Nat} (h : turn mode text k = .ok s) :
    ∃ text', parse mode text' = .ok s := by
  cases k with
  | zero => exact ⟨text, h⟩
  | succ k =>
    obtain ⟨s₀, -, hparse⟩ := turn_succ_eq_ok_iff.mp h
    exact ⟨s₀.render, hparse⟩

/-- A run of turns keeps the bound of the first one, less the number of turns. -/
theorem tornBelow_of_turn {n k : Nat} (h : parse mode text = .ok s)
    (hbelow : Parameter.TornBelow n s.params) (hturn : turn mode text k = .ok s') :
    Parameter.TornBelow (n - k) s'.params := by
  induction k generalizing s' with
  | zero =>
    obtain rfl : s = s' := Except.ok.inj (h.symm.trans hturn)
    exact hbelow
  | succ k ih =>
    obtain ⟨s₀, hbefore, hparse⟩ := turn_succ_eq_ok_iff.mp hturn
    obtain ⟨text₀, hread⟩ := exists_parse_of_turn hbefore
    have hbelow₀ : Parameter.TornBelow (n - (k + 1) + 1) s₀.params := (ih hbefore).mono (by omega)
    exact tornBelow_of_parse_render hread hbelow₀ hparse

/-- Without torn parameters, all further turns read the same. -/
theorem turn_eq_of_whole {k j : Nat} (h : turn mode text k = .ok s)
    (hwhole : ∀ p ∈ s.params, IsItem p.render.toList) (hle : k ≤ j) : turn mode text j = .ok s := by
  obtain ⟨text', hread⟩ := exists_parse_of_turn h
  induction hle with
  | refl => exact h
  | step _ ih => exact turn_succ_eq_ok_iff.mpr ⟨s, ih, parse_render_of_whole hread hwhole⟩

/-- The turns up to one all succeed, or the strict mode finds fault with what one of them has read. -/
theorem turn_cases (h : parse mode text = .ok s) (n : Nat) :
    (∃ s', turn mode text n = .ok s') ∨
      mode = .strict ∧ ∃ k s' reason input, k < n ∧ turn mode text k = .ok s' ∧
        FailsWith (parse mode s'.render) "parameter list" reason input ∧
        (reason = "empty parameter" ∨ reason = "parameter without a type") := by
  induction n with
  | zero => exact Or.inl ⟨s, h⟩
  | succ n ih =>
    rcases ih with ⟨s', hturn⟩ | ⟨hstrict, k, s', reason, input, hlt, hfault⟩
    · obtain ⟨text', hread⟩ := exists_parse_of_turn hturn
      rcases parse_render_cases hread with ⟨s'', hok⟩ | ⟨hstrict, reason, input, hfault⟩
      · exact Or.inl ⟨s'', turn_succ_eq_ok_iff.mpr ⟨s', hturn, hok⟩⟩
      · exact Or.inr ⟨hstrict, n, s', reason, input, Nat.lt_succ_self n, hturn, hfault⟩
    · exact Or.inr ⟨hstrict, k, s', reason, input, Nat.lt_succ_of_lt hlt, hfault⟩

/-! ## The steps of rereading -/

/-- The turns behind the first one are those of what it has read, written out. -/
theorem turn_succ_eq (k : Nat) :
    turn mode text (k + 1) = parse mode text >>= fun s => turn mode s.render k := by
  induction k with
  | zero => rfl
  | succ k ih =>
    rw [turn, ih]
    cases parse mode text <;> rfl

theorem turn_succ_of_parse (h : parse mode text = .ok s) (k : Nat) :
    turn mode text (k + 1) = turn mode s.render k := by
  rw [turn_succ_eq, h]
  rfl

/-- If a turn reads a signature, the first one does. -/
theorem exists_parse_first_of_turn {k : Nat} (h : turn mode text k = .ok s') :
    ∃ s, parse mode text = .ok s := by
  cases k with
  | zero => exact ⟨s', h⟩
  | succ k =>
    rw [turn_succ_eq] at h
    cases hparse : parse mode text with
    | error e =>
      rw [hparse] at h
      cases h
    | ok s => exact ⟨s, rfl⟩

/-- The steps behind the first one are those of what it has read, written out. -/
theorem stepAt_succ_iff {previous : Option Signature} {k : Nat} {step : Step} :
    StepAt mode previous text (k + 1) step ↔
      ∃ s, parse mode text = .ok s ∧ StepAt mode (some s) s.render k step := by
  constructor
  · intro h
    cases h with
    | @next _ s' h =>
      obtain ⟨s, hparse⟩ := exists_parse_first_of_turn h
      refine ⟨s, hparse, ?_⟩
      rw [turn_succ_of_parse hparse]
      cases k with
      | zero =>
        obtain rfl : s = s' := Except.ok.inj (hparse.symm.trans h)
        exact .first
      | succ k =>
        rw [turn_succ_of_parse hparse] at h
        exact .next h
  · rintro ⟨s, hparse, h⟩
    cases h with
    | first =>
      rw [← turn_succ_of_parse hparse]
      exact .next hparse
    | next h =>
      rw [← turn_succ_of_parse hparse] at h ⊢
      exact .next h

theorem value_rereadAfter_succ (previous : Option Signature) (times : Nat) (text : String) :
    (rereadAfter mode previous (times + 1) text).value =
      .ofTurn previous (parse mode text) ::
        match parse mode text with
        | .ok s => (rereadAfter mode (some s) times s.render).value
        | .error _ => [] := by
  rw [rereadAfter, Logged.value_bind, parse]
  cases (read mode text).value <;> rfl

/-- The steps behind what has been read before are the turns, up to the first that is refused. -/
theorem getElem?_rereadAfter {previous : Option Signature} {times k : Nat} {step : Step} :
    (rereadAfter mode previous times text).value[k]? = some step ↔
      k < times ∧ StepAt mode previous text k step := by
  induction times generalizing previous text k with
  | zero =>
    refine iff_of_false ?_ ?_
    · intro h
      cases h
    · rintro ⟨h, -⟩
      cases h
  | succ times ih =>
    rw [value_rereadAfter_succ]
    cases k with
    | zero =>
      rw [List.getElem?_cons_zero, Option.some.injEq]
      constructor
      · rintro rfl
        exact ⟨Nat.succ_pos times, .first⟩
      · rintro ⟨-, h⟩
        cases h
        rfl
    | succ k =>
      rw [List.getElem?_cons_succ, stepAt_succ_iff, Nat.succ_lt_succ_iff]
      cases parse mode text with
      | error e => simp
      | ok s =>
        dsimp only
        rw [ih]
        simp

/-- Rereading goes through the turns of a text: of `times` turns, each is a step, up to the first that is
refused. -/
theorem getElem?_reread {times k : Nat} {step : Step} :
    (reread mode times text).value[k]? = some step ↔ k < times ∧ StepAt mode none text k step :=
  getElem?_rereadAfter

/-- Reading and writing in turns settles within as many turns as the text has opening parentheses, or
one of these turns is refused by the strict mode for a blank segment or for names without a type. In the
lenient mode all turns succeed. -/
theorem turn_settles (mode : Mode) {text : String} {s : Signature} (h : parse mode text = .ok s) :
    (mode = .lenient → ∀ k, ∃ s', turn mode text k = .ok s') ∧
      ((∃ k s', k < text.toList.count '(' ∧ ∀ j, k ≤ j → turn mode text j = .ok s') ∨
        mode = .strict ∧ ∃ k s' reason input, k < text.toList.count '(' ∧
          turn mode text k = .ok s' ∧
          FailsWith (parse mode s'.render) "parameter list" reason input ∧
          (reason = "empty parameter" ∨ reason = "parameter without a type")) := by
  obtain ⟨n, hcount, hbelow⟩ := exists_tornBelow_of_parse h
  refine ⟨?_, ?_⟩
  · intro hmode k
    rcases turn_cases h k with hok | ⟨hstrict, -⟩
    · exact hok
    · rw [hmode] at hstrict
      cases hstrict
  · rcases turn_cases h n with ⟨s', hturn⟩ | ⟨hstrict, k, s', reason, input, hlt, hfault⟩
    · have hzero := tornBelow_of_turn h hbelow hturn
      have hwhole : ∀ p ∈ s'.params, IsItem p.render.toList := by
        intro p hp
        exact (hzero p hp).resolve_right (by omega)
      exact Or.inl ⟨n, s', by omega, fun j hle => turn_eq_of_whole hturn hwhole hle⟩
    · exact Or.inr ⟨hstrict, k, s', reason, input, by omega, hfault⟩

/-- A type that was cut off at a comma is torn once more by that comma, and then settled. -/
theorem turn_settles_at_cut_off_comma :
    parse .lenient "func(a, f(x y, z) w)" = .ok ⟨[⟨"a", "y, z) w"⟩, ⟨"f(x", "y, z) w"⟩], ""⟩ ∧
      (∀ k, ∃ s', turn .lenient "func(a, f(x y, z) w)" k = .ok s') ∧
      ∃ k s', k < 2 ∧ ∀ j, k ≤ j → turn .lenient "func(a, f(x y, z) w)" j = .ok s' := by
  have h : parse .lenient "func(a, f(x y, z) w)" =
      .ok ⟨[⟨"a", "y, z) w"⟩, ⟨"f(x", "y, z) w"⟩], ""⟩ := rfl
  obtain ⟨hall, hsettles⟩ := turn_settles .lenient h
  refine ⟨h, hall rfl, ?_⟩
  rcases hsettles with hsettles | ⟨hstrict, -⟩
  · exact hsettles
  · cases hstrict

end Signature

end FuncType
