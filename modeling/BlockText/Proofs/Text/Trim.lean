/-
What trimming a text leaves.

A text is blank space, its trimmed part, and blank space again.  The trimmed part neither starts nor
ends with a space, and this determines it: `trim_pad` says that a padded text trims to what was
padded.  Cuts of a text, at its ends and at a character, are read off here too, since readers cut and
trim in turn.
-/
import Mathlib.Data.List.Basic
import Mathlib.Data.List.TakeDrop
import Mathlib.Data.List.TakeWhile
import BlockText.Text.Basic

namespace BlockText
namespace Text

/-! ## Cuts -/

theorem dropPrefix_append (p t : Text) : dropPrefix p (p ++ t) = t := by
  have h : List.isPrefixOf? p (p ++ t) = some t := List.isPrefixOf?_eq_some_iff_append_eq.mpr rfl
  rw [dropPrefix, h]
  rfl

theorem dropSuffix_append (t p : Text) : dropSuffix p (t ++ p) = t := by
  have h : List.isSuffixOf? p (t ++ p) = some t := List.isSuffixOf?_eq_some_iff_append_eq.mpr rfl
  rw [dropSuffix, h]
  rfl

theorem dropSuffix_of_not_suffix {p t : Text} (h : ¬ p <:+ t) : dropSuffix p t = t := by
  rw [dropSuffix]
  cases hs : List.isSuffixOf? p t with
  | none => rfl
  | some r => exact absurd ⟨r, List.isSuffixOf?_eq_some_iff_append_eq.mp hs⟩ h

/-- A text is cut where a test fails for the first time. -/
theorem span_append {test : Char → Bool} {a b : Text} (ha : ∀ c ∈ a, test c = true)
    (hb : ∀ c ∈ b.head?, test c = false) : (a ++ b).span test = (a, b) := by
  have htake : b.takeWhile test = [] := by
    cases b with
    | nil => rfl
    | cons c b => rw [List.takeWhile_cons, hb c rfl]; rfl
  have hdrop : b.dropWhile test = b := by
    cases b with
    | nil => rfl
    | cons c b => rw [List.dropWhile_cons, hb c rfl]; rfl
  rw [List.span_eq_takeWhile_dropWhile, List.takeWhile_append_of_pos ha, htake, List.append_nil,
    List.dropWhile_append_of_pos ha, hdrop]

/-- A character is dropped as often as it stands in front. -/
theorem dropWhile_append_eq {c : Char} {a t : Text} (ha : ∀ d ∈ a, d = c) (ht : t.head? ≠ some c) :
    (a ++ t).dropWhile (· == c) = t := by
  have hspan := span_append (fun d hd => beq_iff_eq.mpr (ha d hd)) (b := t) fun d hd =>
    beq_eq_false_iff_ne.mpr fun he => ht (he ▸ hd)
  rw [List.span_eq_takeWhile_dropWhile] at hspan
  exact congrArg Prod.snd hspan

/-- A text is cut at the first occurrence of a character. -/
theorem span_ne {c : Char} {a : Text} (ha : c ∉ a) (b : Text) :
    (a ++ c :: b).span (· != c) = (a, c :: b) := by
  refine span_append (fun d hd => ?_) fun d hd => ?_
  · rw [bne_iff_ne]
    rintro rfl
    exact ha hd
  · cases hd
    exact bne_self_eq_false c

/-- Texts that go on to the first occurrence of a character are told by what it ends. -/
theorem append_cons_inj {c : Char} {a b u v : Text} (ha : c ∉ a) (hb : c ∉ b)
    (h : a ++ c :: u = b ++ c :: v) : a = b ∧ u = v := by
  have hspan := congrArg (List.span (· != c)) h
  rw [span_ne ha, span_ne hb] at hspan
  obtain ⟨hab, huv⟩ := Prod.mk.inj hspan
  exact ⟨hab, (List.cons.inj huv).2⟩

/-- What stands behind the cut at a character starts with it. -/
theorem eq_of_span {c d : Char} {t a b : Text} (h : t.span (· != c) = (a, d :: b)) :
    t = a ++ c :: b := by
  rw [List.span_eq_takeWhile_dropWhile] at h
  obtain ⟨ha, hb⟩ := Prod.mk.inj h
  have hd := List.head?_dropWhile_not (· != c) t
  rw [hb] at hd
  obtain rfl : d = c := by simpa using hd
  rw [← ha, ← hb, List.takeWhile_append_dropWhile]

/-- What stands in front of the cut at a character is free of it. -/
theorem not_mem_of_span {c : Char} {t a b : Text} (h : t.span (· != c) = (a, b)) : c ∉ a := by
  rw [List.span_eq_takeWhile_dropWhile] at h
  rw [← (Prod.mk.inj h).1]
  intro hc
  have hne := List.mem_takeWhile_imp hc
  rw [bne_self_eq_false] at hne
  cases hne

/-! ## The ends of texts -/

/-- What holds of a character holds of the end of a text that it is. -/
theorem forall_mem_some {P : Char → Prop} {c : Char} (h : P c) : ∀ d ∈ some c, P d := by
  intro d hd
  cases hd
  exact h

/-- A text that goes on starts as it did. -/
theorem forall_head_append {P : Char → Prop} {a : Text} (hne : a ≠ [])
    (h : ∀ c ∈ a.head?, P c) (b : Text) : ∀ c ∈ (a ++ b).head?, P c := by
  rw [List.head?_append_of_ne_nil a hne]
  exact h

/-! ## Blank texts -/

theorem isBlank_iff {t : Text} : t.isBlank = true ↔ ∀ c ∈ t, isSpace c = true := by
  rw [isBlank, List.all_eq_true]

theorem isBlank_append (a b : Text) : (a ++ b).isBlank = (a.isBlank && b.isBlank) :=
  List.all_append

theorem isBlank_append_of_blank {a b : Text} (ha : a.isBlank = true) (hb : b.isBlank = true) :
    (a ++ b).isBlank = true := by
  rw [isBlank_append, ha, hb]
  rfl

theorem isBlank_eq_false_iff {t : Text} : t.isBlank = false ↔ ∃ c ∈ t, isSpace c = false := by
  simp only [isBlank, List.all_eq_false, Bool.not_eq_true]

theorem isBlank_eq_false_of_mem {t : Text} {c : Char} (hc : c ∈ t) (h : isSpace c = false) :
    t.isBlank = false :=
  isBlank_eq_false_iff.mpr ⟨c, hc, h⟩

/-! ## Trimmed texts -/

/-- The text neither starts nor ends with a space. -/
structure Trimmed (t : Text) : Prop where
  head : ∀ c ∈ t.head?, isSpace c = false
  last : ∀ c ∈ t.getLast?, isSpace c = false

theorem Trimmed.nil : Trimmed [] :=
  ⟨fun _ h => absurd h (by simp), fun _ h => absurd h (by simp)⟩

/-- A text is trimmed if its first part starts, and its last part ends, with no space. -/
theorem trimmed_append {a b : Text} (ha : a ≠ []) (hb : b ≠ [])
    (hhead : ∀ c ∈ a.head?, isSpace c = false) (hlast : ∀ c ∈ b.getLast?, isSpace c = false) :
    Trimmed (a ++ b) := by
  refine ⟨forall_head_append ha hhead b, fun c hc => ?_⟩
  rw [List.getLast?_append_of_ne_nil a hb] at hc
  exact hlast c hc

theorem trimStart_of_head {t : Text} (h : ∀ c ∈ t.head?, isSpace c = false) : trimStart t = t := by
  cases t with
  | nil => rfl
  | cons c rest =>
    have hc : isSpace c = false := h c rfl
    rw [trimStart, List.dropWhile_cons_of_neg (by simp [hc])]

theorem trimEnd_of_last {t : Text} (h : ∀ c ∈ t.getLast?, isSpace c = false) : trimEnd t = t := by
  have hr : trimStart t.reverse = t.reverse :=
    trimStart_of_head (fun c hc => h c (by rwa [List.head?_reverse] at hc))
  rw [trimStart] at hr
  rw [trimEnd, hr, List.reverse_reverse]

theorem trim_of_trimmed {t : Text} (h : Trimmed t) : trim t = t := by
  rw [trim, trimStart_of_head h.head, trimEnd_of_last h.last]

theorem head?_trimStart (t : Text) : ∀ c ∈ (trimStart t).head?, isSpace c = false := by
  intro c hc
  have h := List.head?_dropWhile_not isSpace t
  rw [trimStart] at hc
  rw [Option.mem_def.mp hc] at h
  simpa using h

/-- The blank space in front of a text. -/
theorem exists_trimStart (t : Text) : ∃ a, isBlank a = true ∧ t = a ++ trimStart t :=
  ⟨t.takeWhile isSpace, List.all_takeWhile, List.takeWhile_append_dropWhile.symm⟩

theorem trimStart_append_of_blank {a : Text} (h : isBlank a = true) (t : Text) :
    trimStart (a ++ t) = trimStart t :=
  List.dropWhile_append_of_pos (isBlank_iff.mp h)

/-- What stands behind a text that is not blank does not matter for the space in front of it. -/
theorem trimStart_append {t : Text} (h : isBlank t = false) (u : Text) :
    trimStart (t ++ u) = trimStart t ++ u := by
  have hne : List.dropWhile isSpace t ≠ [] := by
    intro hnil
    obtain ⟨a, ha, ht⟩ := exists_trimStart t
    rw [trimStart, hnil, List.append_nil] at ht
    rw [ht, ha] at h
    cases h
  rw [trimStart, trimStart, List.dropWhile_append, if_neg (by simpa using hne)]

/-- The blank space behind a text. -/
theorem exists_trimEnd (t : Text) : ∃ b, isBlank b = true ∧ t = trimEnd t ++ b := by
  obtain ⟨a, ha, ht⟩ := exists_trimStart t.reverse
  refine ⟨a.reverse, ?_, ?_⟩
  · rw [isBlank, List.all_reverse]
    exact ha
  · have h := congrArg List.reverse ht
    rw [List.reverse_reverse, List.reverse_append] at h
    exact h

theorem trimEnd_append_of_blank (t : Text) {b : Text} (h : isBlank b = true) :
    trimEnd (t ++ b) = trimEnd t := by
  have hr : isBlank b.reverse = true := by
    rw [isBlank, List.all_reverse]
    exact h
  have hs := trimStart_append_of_blank hr t.reverse
  rw [trimStart, trimStart] at hs
  rw [trimEnd, trimEnd, List.reverse_append, hs]

theorem getLast?_trimEnd (t : Text) : ∀ c ∈ (trimEnd t).getLast?, isSpace c = false := by
  intro c hc
  rw [trimEnd, List.getLast?_reverse] at hc
  exact head?_trimStart t.reverse c hc

/-- Cutting blank space off the end does not uncover any in front. -/
theorem head?_trimEnd {t : Text} (h : ∀ c ∈ t.head?, isSpace c = false) :
    ∀ c ∈ (trimEnd t).head?, isSpace c = false := by
  obtain ⟨b, -, ht⟩ := exists_trimEnd t
  intro c hc
  refine h c ?_
  rw [ht, List.head?_append, Option.mem_def.mp hc]
  rfl

theorem trimmed_trim (t : Text) : Trimmed (trim t) :=
  ⟨head?_trimEnd (head?_trimStart t), getLast?_trimEnd (trimStart t)⟩

/-- A text is its trimmed part with blank space around it. -/
theorem exists_trim (t : Text) :
    ∃ a b, isBlank a = true ∧ isBlank b = true ∧ t = a ++ trim t ++ b := by
  obtain ⟨a, ha, hs⟩ := exists_trimStart t
  obtain ⟨b, hb, he⟩ := exists_trimEnd (trimStart t)
  refine ⟨a, b, ha, hb, ?_⟩
  rw [List.append_assoc, trim, ← he]
  exact hs

theorem trim_of_blank {t : Text} (h : isBlank t = true) : trim t = [] := by
  have hs := trimStart_append_of_blank h []
  rw [List.append_nil] at hs
  rw [trim, hs]
  rfl

theorem trim_append_of_blank (t : Text) {b : Text} (h : isBlank b = true) :
    trim (t ++ b) = trim t := by
  by_cases ht : isBlank t = true
  · rw [trim_of_blank ht, trim_of_blank (isBlank_append_of_blank ht h)]
  · rw [Bool.not_eq_true] at ht
    rw [trim, trim, trimStart_append ht, trimEnd_append_of_blank _ h]

theorem blank_append_trim {a : Text} (h : isBlank a = true) (t : Text) :
    trim (a ++ t) = trim t := by
  rw [trim, trim, trimStart_append_of_blank h]

theorem trim_trimStart (t : Text) : trim (trimStart t) = trim t := by
  obtain ⟨a, ha, ht⟩ := exists_trimStart t
  rw [← blank_append_trim ha (trimStart t), ← ht]

/-- A padded text trims to what was padded. -/
theorem trim_pad {a t b : Text} (ha : isBlank a = true) (ht : Trimmed t) (hb : isBlank b = true) :
    trim (a ++ t ++ b) = t := by
  rw [trim_append_of_blank _ hb, blank_append_trim ha, trim_of_trimmed ht]

theorem trim_trim (t : Text) : trim (trim t) = trim t := trim_of_trimmed (trimmed_trim t)

theorem mem_of_mem_trim {t : Text} {c : Char} (h : c ∈ trim t) : c ∈ t := by
  obtain ⟨a, b, -, -, ht⟩ := exists_trim t
  rw [ht]
  exact List.mem_append_left _ (List.mem_append_right _ h)

theorem trim_eq_nil_iff {t : Text} : trim t = [] ↔ isBlank t = true := by
  constructor
  · intro h
    obtain ⟨a, b, ha, hb, ht⟩ := exists_trim t
    rw [ht, h, List.append_nil]
    exact isBlank_append_of_blank ha hb
  · exact trim_of_blank

/-- Whatever is no space in a text is in its trimmed part. -/
theorem mem_trim {t : Text} {c : Char} (h : c ∈ t) (hc : isSpace c = false) : c ∈ trim t := by
  obtain ⟨a, b, ha, hb, ht⟩ := exists_trim t
  rw [ht, List.mem_append, List.mem_append] at h
  rcases h with (h | h) | h
  · rw [isBlank_iff.mp ha c h] at hc
    exact absurd hc (by decide)
  · exact h
  · rw [isBlank_iff.mp hb c h] at hc
    exact absurd hc (by decide)

theorem isBlank_eq_false_of_trimmed {t : Text} (h : Trimmed t) (hne : t ≠ []) :
    t.isBlank = false := by
  rw [Bool.eq_false_iff]
  intro hb
  have ht := trim_of_blank hb
  rw [trim_of_trimmed h] at ht
  exact hne ht

end Text
end BlockText
