import FuncType.Parameter
import FuncType.Proofs.Nesting

/-!
# White space around and inside a text

Trimming is said without its two runs from the ends: a text is the trimmed one with blank texts on
both sides (`exists_trim`), and whatever stands between blank texts and is trimmed itself is the
result of trimming (`trim_append`). In the same way the first word of a text is its longest front
part without white space (`firstWord_iff`), and what follows is found behind the first run of white
space (`afterFirstRun_iff`).

White space is plain to a scan, so nothing of this moves a parenthesis or a comma (`signs_trim`).
-/

namespace FuncType

/-- A text with no white space at either end. -/
structure IsTrimmed (text : List Char) : Prop where
  head : ∀ c ∈ text.head?, isSpace c = false
  last : ∀ c ∈ text.getLast?, isSpace c = false

/-- White space occurs in a text. -/
def HasSpace (text : List Char) : Prop :=
  ∃ c ∈ text, isSpace c = true

/-- The longest front part of a text without white space. -/
structure FirstWord (text word : List Char) : Prop where
  front : word <+: text
  noSpace : ¬ HasSpace word
  longest : ∀ other, other <+: text → ¬ HasSpace other → other.length ≤ word.length

/-- What follows the first run of white space in a text. -/
def AfterFirstRun (text rest : List Char) : Prop :=
  ∃ word run, text = word ++ run ++ rest ∧ ¬ HasSpace word ∧ run ≠ [] ∧ isBlank run ∧
    ∀ c ∈ rest.head?, isSpace c = false

theorem isBlank_iff {text : List Char} : isBlank text ↔ ∀ c ∈ text, isSpace c = true := by
  simp [isBlank]

theorem not_hasSpace_iff {text : List Char} : ¬ HasSpace text ↔ ∀ c ∈ text, isSpace c = false := by
  simp [HasSpace]

theorem exists_cons_of_isBlank {run : List Char} (hne : run ≠ []) (hrun : isBlank run) :
    ∃ c more, run = c :: more ∧ isSpace c = true := by
  obtain ⟨c, more, rfl⟩ := List.exists_cons_of_ne_nil hne
  exact ⟨c, more, rfl, isBlank_iff.mp hrun c List.mem_cons_self⟩

theorem hasSpace_of_run {front run back : List Char} (hne : run ≠ []) (hrun : isBlank run) :
    HasSpace (front ++ run ++ back) := by
  obtain ⟨c, more, rfl, hc⟩ := exists_cons_of_isBlank hne hrun
  exact ⟨c, by simp, hc⟩

/-! ## Trimming -/

theorem trimStart_append {u : List Char} (hu : isBlank u) (text : List Char) :
    trimStart (u ++ text) = trimStart text :=
  List.dropWhile_append_of_pos (isBlank_iff.mp hu)

theorem trimStart_eq_self {text : List Char} (h : ∀ c ∈ text.head?, isSpace c = false) :
    trimStart text = text := by
  cases text with
  | nil => rfl
  | cons c text => exact List.dropWhile_cons_of_neg (by simp [h c rfl])

theorem head_trimStart (text : List Char) : ∀ c ∈ (trimStart text).head?, isSpace c = false := by
  intro c hc
  have h := List.head?_dropWhile_not isSpace text
  rw [show (text.dropWhile isSpace).head? = some c from hc] at h
  exact h

theorem exists_trimStart (text : List Char) : ∃ u, isBlank u ∧ text = u ++ trimStart text :=
  ⟨text.takeWhile isSpace, List.all_takeWhile, List.takeWhile_append_dropWhile.symm⟩

theorem trimEnd_eq_reverse (text : List Char) : trimEnd text = (trimStart text.reverse).reverse :=
  rfl

theorem exists_trimEnd (text : List Char) : ∃ v, isBlank v ∧ text = trimEnd text ++ v := by
  obtain ⟨v, hv, htext⟩ := exists_trimStart text.reverse
  refine ⟨v.reverse, by rw [isBlank_reverse]; exact hv, ?_⟩
  rw [trimEnd_eq_reverse, ← List.reverse_append, ← htext, List.reverse_reverse]

/-- What trimming takes from a text is blank. -/
theorem exists_trim (text : List Char) :
    ∃ u v, isBlank u ∧ isBlank v ∧ text = u ++ trim text ++ v := by
  obtain ⟨u, hu, hstart⟩ := exists_trimStart text
  obtain ⟨v, hv, hend⟩ := exists_trimEnd (trimStart text)
  refine ⟨u, v, hu, hv, ?_⟩
  rw [List.append_assoc, trim, ← hend]
  exact hstart

theorem isTrimmed_trim (text : List Char) : IsTrimmed (trim text) := by
  obtain ⟨v, -, hend⟩ := exists_trimEnd (trimStart text)
  refine ⟨fun c hc => head_trimStart text c ?_, fun c hc => ?_⟩
  · rw [hend, List.head?_append]
    exact Option.mem_def.mpr (by rw [show (trimEnd (trimStart text)).head? = some c from hc]; rfl)
  · rw [trim, trimEnd_eq_reverse, List.getLast?_reverse] at hc
    exact head_trimStart _ c hc

/-- A trimmed text between blank texts is what trimming leaves. -/
theorem trim_append {u text v : List Char} (hu : isBlank u) (ht : IsTrimmed text)
    (hv : isBlank v) : trim (u ++ text ++ v) = text := by
  have hstart : trimStart (u ++ text ++ v) = trimStart (text ++ v) := by
    rw [List.append_assoc]
    exact trimStart_append hu _
  cases text with
  | nil =>
    rw [trim_eq_nil_iff, ← trimStart_eq_nil_iff, hstart, trimStart_eq_nil_iff]
    exact hv
  | cons c text =>
    have hlast : ∀ d ∈ (c :: text).reverse.head?, isSpace d = false := by
      rw [List.head?_reverse]
      exact ht.last
    have hhead : trimStart (c :: text ++ v) = c :: text ++ v := trimStart_eq_self ht.head
    rw [trim, hstart, hhead, trimEnd_eq_reverse, List.reverse_append,
      trimStart_append (by rw [isBlank_reverse]; exact hv), trimStart_eq_self hlast,
      List.reverse_reverse]

theorem trim_eq_self {text : List Char} (h : IsTrimmed text) : trim text = text := by
  have := trim_append (u := []) (v := []) rfl h rfl
  simpa using this

/-- White space around a text makes no difference to what trimming leaves. -/
theorem trim_padded {u v : List Char} (hu : isBlank u) (hv : isBlank v) (text : List Char) :
    trim (u ++ text ++ v) = trim text := by
  obtain ⟨u', v', hu', hv', htext⟩ := exists_trim text
  have hleft : isBlank (u ++ u') := by
    rw [isBlank, List.all_append, Bool.and_eq_true]
    exact ⟨hu, hu'⟩
  have hright : isBlank (v' ++ v) := by
    rw [isBlank, List.all_append, Bool.and_eq_true]
    exact ⟨hv', hv⟩
  have hsplit : u ++ text ++ v = u ++ u' ++ trim text ++ (v' ++ v) :=
    calc u ++ text ++ v
        = u ++ (u' ++ trim text ++ v') ++ v := by rw [← htext]
      _ = u ++ u' ++ trim text ++ (v' ++ v) := by simp only [List.append_assoc]
  rw [hsplit]
  exact trim_append hleft (isTrimmed_trim text) hright

/-- Trimming takes no other character than white space. -/
theorem mem_trim {text : List Char} {c : Char} (hc : c ∈ text) (hspace : isSpace c = false) :
    c ∈ trim text := by
  obtain ⟨u, v, hu, hv, htext⟩ := exists_trim text
  rw [htext, List.mem_append, List.mem_append] at hc
  rcases hc with (hleft | hmem) | hright
  · rw [isBlank_iff.mp hu c hleft] at hspace
    cases hspace
  · exact hmem
  · rw [isBlank_iff.mp hv c hright] at hspace
    cases hspace

/-- A change of characters that neither makes nor unmakes white space can be made before trimming or
after it. -/
theorem trim_map {f : Char → Char} (hf : ∀ c, isSpace (f c) = isSpace c) (text : List Char) :
    trim (text.map f) = (trim text).map f := by
  have hstart : ∀ l : List Char, trimStart (l.map f) = (trimStart l).map f := by
    intro l
    have hcomp : isSpace ∘ f = isSpace := funext hf
    rw [trimStart, List.dropWhile_map, hcomp]
    rfl
  rw [trim, hstart, trimEnd_eq_reverse, ← List.map_reverse, hstart, ← List.map_reverse]
  rfl

/-- A word and a trimmed text have no white space around them, whatever stands between the two. -/
theorem isTrimmed_append {name rest : List Char} (hname : name ≠ []) (hno : ¬ HasSpace name)
    (hrest : rest ≠ []) (htrim : IsTrimmed rest) (run : List Char) :
    IsTrimmed (name ++ run ++ rest) := by
  refine ⟨fun c hc => ?_, fun c hc => htrim.last c ?_⟩
  · obtain ⟨d, more, rfl⟩ := List.exists_cons_of_ne_nil hname
    obtain rfl : d = c := by simpa using hc
    exact not_hasSpace_iff.mp hno d List.mem_cons_self
  · obtain ⟨front, d, rfl⟩ := (List.eq_nil_or_concat rest).resolve_left hrest
    rw [List.concat_eq_append] at hc ⊢
    rw [← List.append_assoc, List.getLast?_concat] at hc
    rw [List.getLast?_concat]
    exact hc

/-! ## Blanks are plain -/

theorem role_of_isSpace {c : Char} (h : isSpace c = true) : role c = .plain := by
  obtain ⟨hopen, hclose, hcomma⟩ := isSpace_signs
  cases hc : role c with
  | opens => rw [role_char_eq_opens_iff.mp hc, hopen] at h; cases h
  | closes => rw [role_char_eq_closes_iff.mp hc, hclose] at h; cases h
  | separates => rw [role_char_eq_separates_iff.mp hc, hcomma] at h; cases h
  | plain => rfl

theorem signs_of_isBlank {text : List Char} (h : isBlank text) : signs text = [] :=
  signs_eq_nil fun c hc => role_of_isSpace (isBlank_iff.mp h c hc)

@[simp] theorem signs_trim (text : List Char) : signs (trim text) = signs text := by
  obtain ⟨u, v, hu, hv, htext⟩ := exists_trim text
  calc signs (trim text)
      = signs u ++ signs (trim text) ++ signs v := by simp [signs_of_isBlank hu, signs_of_isBlank hv]
    _ = signs (u ++ trim text ++ v) := by rw [signs_append, signs_append]
    _ = signs text := by rw [← htext]

/-! ## The first word -/

namespace Declaration

theorem not_hasSpace_word (text : List Char) : ¬ HasSpace (word text) := by
  rw [not_hasSpace_iff]
  intro c hc
  simpa using List.all_eq_true.mp List.all_takeWhile c hc

theorem word_append {name rest : List Char} (hname : ¬ HasSpace name)
    (hrest : ∀ c ∈ rest.head?, isSpace c = true) : word (name ++ rest) = name := by
  have h : ∀ c ∈ name, (!isSpace c) = true := by simpa [HasSpace] using hname
  rw [word, List.takeWhile_append_of_pos h]
  cases rest with
  | nil => simp
  | cons c rest => simp [hrest c rfl]

theorem afterWord_append {name rest : List Char} (hname : ¬ HasSpace name)
    (hrest : ∀ c ∈ rest.head?, isSpace c = true) : afterWord (name ++ rest) = trimStart rest := by
  have h : ∀ c ∈ name, (!isSpace c) = true := by simpa [HasSpace] using hname
  rw [afterWord, List.dropWhile_append_of_pos h]
  cases rest with
  | nil => rfl
  | cons c rest => rw [List.dropWhile_cons_of_neg (by simp [hrest c rfl])]

/-- A text is a single word, or its first word, white space and what follows. -/
theorem eq_word_or (text : List Char) :
    (text = word text ∧ afterWord text = []) ∨
      ∃ run, run ≠ [] ∧ isBlank run ∧ text = word text ++ run ++ afterWord text := by
  have hsplit : word text ++ (text.dropWhile fun c => !isSpace c) = text :=
    List.takeWhile_append_dropWhile
  have hhead := List.head?_dropWhile_not (fun c => !isSpace c) text
  rw [afterWord]
  cases htail : text.dropWhile fun c => !isSpace c with
  | nil =>
    rw [htail, List.append_nil] at hsplit
    exact Or.inl ⟨hsplit.symm, rfl⟩
  | cons c rest =>
    right
    rw [htail] at hsplit hhead
    have hc : isSpace c = true := by simpa using hhead
    obtain ⟨run, hrun, hrest⟩ := exists_trimStart rest
    have hdrop : trimStart (c :: rest) = trimStart rest := List.dropWhile_cons_of_pos hc
    refine ⟨c :: run, List.cons_ne_nil c run, ?_, ?_⟩
    · rw [isBlank_iff] at hrun ⊢
      exact List.forall_mem_cons.mpr ⟨hc, hrun⟩
    · rw [hdrop, List.append_assoc, List.cons_append, ← hrest]
      exact hsplit.symm

/-- The longest front part of a text without white space is its first word. -/
theorem firstWord_iff {text name : List Char} : FirstWord text name ↔ name = word text := by
  have hword : FirstWord text (word text) := by
    refine ⟨List.takeWhile_prefix _, not_hasSpace_word text, fun other hother hno => ?_⟩
    obtain ⟨rest, rfl⟩ := hother
    have h : ∀ c ∈ other, (!isSpace c) = true := by simpa [HasSpace] using hno
    rw [word, List.takeWhile_append_of_pos h, List.length_append]
    omega
  constructor
  · intro h
    have hle := h.longest _ hword.front hword.noSpace
    have hge := hword.longest _ h.front h.noSpace
    exact (List.prefix_of_prefix_length_le h.front hword.front hge).eq_of_length (by omega)
  · rintro rfl
    exact hword

/-- Behind the first run of white space stands what follows the first word, if there is white space
at all. -/
theorem afterFirstRun_iff {text rest : List Char} :
    AfterFirstRun text rest ↔ HasSpace text ∧ rest = afterWord text := by
  constructor
  · rintro ⟨name, run, rfl, hname, hne, hrun, hrest⟩
    refine ⟨hasSpace_of_run hne hrun, ?_⟩
    obtain ⟨c, run, rfl, hc⟩ := exists_cons_of_isBlank hne hrun
    rw [List.append_assoc, afterWord_append hname (by simpa using hc), trimStart_append hrun,
      trimStart_eq_self hrest]
  · rintro ⟨hspace, rfl⟩
    rcases eq_word_or text with ⟨htext, -⟩ | ⟨run, hne, hrun, htext⟩
    · rw [htext] at hspace
      exact absurd hspace (not_hasSpace_word text)
    · exact ⟨word text, run, htext, not_hasSpace_word text, hne, hrun, head_trimStart _⟩

end Declaration

end FuncType
