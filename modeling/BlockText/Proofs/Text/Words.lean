/-
Words and the collapsed form of a text.

`Text.collapse` is defined through the list of words, and every proof about it goes by the two
equations here instead, which read it one character at a time: a space in front has no effect
(`collapse_space_cons`), and any other character is kept, with one space behind it where the text
goes on after spaces (`collapse_cons`).
-/
import BlockText.Proofs.Text.Trim

namespace BlockText
namespace Text

/-! ## Words -/

theorem words_nil : words [] = [] := by
  rw [words, List.splitOnP_nil]
  rfl

theorem words_append_space (a : Text) {c : Char} (h : isSpace c = true) (b : Text) :
    words (a ++ c :: b) = words a ++ words b := by
  rw [words, words, words, List.splitOnP_append_cons a b h, List.filter_append]

theorem words_space_cons {c : Char} (h : isSpace c = true) (t : Text) :
    words (c :: t) = words t := by
  have ht := words_append_space [] h t
  rw [words_nil] at ht
  exact ht

theorem words_of_blank {t : Text} (h : t.isBlank = true) : words t = [] := by
  induction t with
  | nil => exact words_nil
  | cons c t ih =>
    rw [isBlank_iff] at h
    rw [words_space_cons (h c List.mem_cons_self),
      ih (isBlank_iff.mpr (fun d hd => h d (List.mem_cons_of_mem c hd)))]

theorem words_blank_append {a : Text} (h : a.isBlank = true) (t : Text) :
    words (a ++ t) = words t := by
  induction a with
  | nil => rfl
  | cons c a ih =>
    rw [isBlank_iff] at h
    rw [List.cons_append, words_space_cons (h c List.mem_cons_self),
      ih (isBlank_iff.mpr (fun d hd => h d (List.mem_cons_of_mem c hd)))]

theorem words_append_blank (t : Text) {b : Text} (h : b.isBlank = true) :
    words (t ++ b) = words t := by
  cases b with
  | nil => rw [List.append_nil]
  | cons c b =>
    rw [isBlank_iff] at h
    have hb : isBlank b = true := isBlank_iff.mpr (fun d hd => h d (List.mem_cons_of_mem c hd))
    rw [words_append_space t (h c List.mem_cons_self), words_of_blank hb, List.append_nil]

theorem words_trim (t : Text) : words (trim t) = words t := by
  obtain ⟨a, b, ha, hb, ht⟩ := exists_trim t
  have h : words t = words (a ++ trim t ++ b) := congrArg words ht
  rw [h, words_append_blank _ hb, words_blank_append ha]

/-- A character that is no space belongs to the first word. -/
theorem words_cons {c : Char} (h : isSpace c = false) (t : Text) :
    (words (c :: t) = [c] :: words t ∧ ∀ d ∈ t.head?, isSpace d = true) ∨
      ∃ w ws, words t = w :: ws ∧ words (c :: t) = (c :: w) :: ws ∧
        ∀ d ∈ t.head?, isSpace d = false := by
  cases t with
  | nil =>
    refine Or.inl ⟨?_, fun d hd => absurd hd (by simp)⟩
    simp [words, List.splitOnP_cons_eq_if_modifyHead, h]
  | cons d t =>
    by_cases hd : isSpace d = true
    · refine Or.inl ⟨?_, fun x hx => by simp_all⟩
      have hc : words [c] = [[c]] := by
        simp [words, List.splitOnP_cons_eq_if_modifyHead, h]
      have happ := words_append_space [c] hd t
      rw [words_space_cons hd t, ← List.singleton_append, happ, hc]
      rfl
    · rw [Bool.not_eq_true] at hd
      obtain ⟨w, ws, hw⟩ := List.exists_cons_of_ne_nil (List.splitOnP_ne_nil isSpace t)
      refine Or.inr ⟨d :: w, ws.filter fun w => !w.isEmpty, ?_, ?_, fun x hx => by simp_all⟩
      · simp [words, List.splitOnP_cons_eq_if_modifyHead, hd, hw]
      · simp [words, List.splitOnP_cons_eq_if_modifyHead, h, hd, hw]

/-! ## One character at a time -/

/-- The space between a character and the text behind it in the collapsed form. -/
def gap (t : Text) : Text :=
  if t.isBlank then [] else if t.head?.any isSpace then [' '] else []

theorem gap_of_blank {t : Text} (h : t.isBlank = true) : gap t = [] := by
  rw [gap, if_pos h]

theorem gap_of_head {t : Text} (h : ∀ c ∈ t.head?, isSpace c = false) : gap t = [] := by
  rw [gap]
  split
  · rfl
  · rw [if_neg]
    cases t with
    | nil => simp
    | cons c t => simp [h c rfl]

theorem gap_space_cons {c : Char} {t : Text} (hc : isSpace c = true) (ht : t.isBlank = false) :
    gap (c :: t) = [' '] := by
  have hb : isBlank (c :: t) = false := by
    rw [isBlank, List.all_cons, hc, Bool.true_and]
    exact ht
  rw [gap, hb, if_neg (by decide), if_pos (by simpa using hc)]

theorem gap_eq (t : Text) : gap t = [] ∨ gap t = [' '] := by
  rw [gap]
  split
  · exact Or.inl rfl
  · split
    · exact Or.inr rfl
    · exact Or.inl rfl

theorem collapse_eq_nil_of_blank {t : Text} (h : t.isBlank = true) : collapse t = [] := by
  rw [collapse, words_of_blank h]
  rfl

theorem collapse_nil : collapse [] = [] := collapse_eq_nil_of_blank rfl

theorem collapse_space_cons {c : Char} (h : isSpace c = true) (t : Text) :
    collapse (c :: t) = collapse t := by
  rw [collapse, collapse, words_space_cons h]

theorem collapse_trim (t : Text) : collapse (trim t) = collapse t := by
  rw [collapse, collapse, words_trim]

theorem words_ne_nil_of_not_blank {t : Text} (h : t.isBlank = false) : words t ≠ [] := by
  induction t with
  | nil => exact absurd h (by decide)
  | cons c t ih =>
    by_cases hc : isSpace c = true
    · rw [isBlank, List.all_cons, hc, Bool.true_and] at h
      rw [words_space_cons hc]
      exact ih h
    · rw [Bool.not_eq_true] at hc
      rcases words_cons hc t with ⟨hw, -⟩ | ⟨w, ws, -, hw, -⟩ <;>
        rw [hw] <;> exact List.cons_ne_nil _ _

/-- What is no space is kept, and one space behind it if the text goes on after spaces. -/
theorem collapse_cons {c : Char} (h : isSpace c = false) (t : Text) :
    collapse (c :: t) = c :: (gap t ++ collapse t) := by
  rcases words_cons h t with ⟨hw, hhead⟩ | ⟨w, ws, ht, hw, hhead⟩
  · by_cases hb : isBlank t = true
    · rw [gap_of_blank hb, collapse_eq_nil_of_blank hb, collapse, hw, words_of_blank hb]
      rfl
    · rw [Bool.not_eq_true] at hb
      cases t with
      | nil => exact absurd hb (by decide)
      | cons d t =>
        have hd : isSpace d = true := hhead d rfl
        have hbt : isBlank t = false := by
          rw [isBlank, List.all_cons, hd, Bool.true_and] at hb
          exact hb
        obtain ⟨v, vs, hv⟩ := List.exists_cons_of_ne_nil
          (words_ne_nil_of_not_blank (t := d :: t) hb)
        rw [gap_space_cons hd hbt, collapse, collapse, hw, hv, List.intercalate_cons_cons]
        rfl
  · rw [gap_of_head hhead, collapse, collapse, hw, ht]
    cases ws with
    | nil => simp
    | cons v vs => simp

/-! ## Facts about the collapsed form -/

theorem gap_eq_nil_of_trimmed {t : Text} (h : Trimmed t) : gap t = [] := gap_of_head h.head

theorem collapse_eq_nil_iff {t : Text} : collapse t = [] ↔ t.isBlank = true := by
  constructor
  · intro h
    induction t with
    | nil => rfl
    | cons c t ih =>
      by_cases hc : isSpace c = true
      · rw [collapse_space_cons hc] at h
        rw [isBlank, List.all_cons, hc, Bool.true_and]
        exact ih h
      · rw [Bool.not_eq_true] at hc
        rw [collapse_cons hc] at h
        exact absurd h (List.cons_ne_nil _ _)
  · exact collapse_eq_nil_of_blank

/-- The only space in a collapsed text is U+0020. -/
theorem mem_collapse {t : Text} {c : Char} (h : c ∈ collapse t) :
    c = ' ' ∨ (c ∈ t ∧ isSpace c = false) := by
  induction t with
  | nil =>
    rw [collapse_nil] at h
    exact absurd h List.not_mem_nil
  | cons d t ih =>
    by_cases hd : isSpace d = true
    · rw [collapse_space_cons hd] at h
      rcases ih h with hc | ⟨hc, hs⟩
      · exact Or.inl hc
      · exact Or.inr ⟨List.mem_cons_of_mem d hc, hs⟩
    · rw [Bool.not_eq_true] at hd
      rw [collapse_cons hd, List.mem_cons, List.mem_append] at h
      rcases h with rfl | h | h
      · exact Or.inr ⟨List.mem_cons_self, hd⟩
      · rcases gap_eq t with hg | hg <;> rw [hg] at h
        · exact absurd h List.not_mem_nil
        · exact Or.inl (List.mem_singleton.mp h)
      · rcases ih h with hc | ⟨hc, hs⟩
        · exact Or.inl hc
        · exact Or.inr ⟨List.mem_cons_of_mem d hc, hs⟩

theorem head?_collapse (t : Text) : ∀ c ∈ (collapse t).head?, isSpace c = false := by
  induction t with
  | nil =>
    rw [collapse_nil]
    exact Trimmed.nil.head
  | cons d t ih =>
    by_cases hd : isSpace d = true
    · rw [collapse_space_cons hd]
      exact ih
    · rw [Bool.not_eq_true] at hd
      rw [collapse_cons hd]
      intro c hc
      rw [List.head?_cons, Option.mem_some_iff] at hc
      exact hc ▸ hd

theorem getLast?_collapse (t : Text) : ∀ c ∈ (collapse t).getLast?, isSpace c = false := by
  induction t with
  | nil =>
    rw [collapse_nil]
    exact Trimmed.nil.last
  | cons d t ih =>
    by_cases hd : isSpace d = true
    · rw [collapse_space_cons hd]
      exact ih
    · rw [Bool.not_eq_true] at hd
      rw [collapse_cons hd]
      intro c hc
      by_cases ht : collapse t = []
      · -- the gap in front of an empty collapsed form is empty
        rw [ht, gap_of_blank (collapse_eq_nil_iff.mp ht), List.append_nil, List.getLast?_singleton,
          Option.mem_some_iff] at hc
        exact hc ▸ hd
      · obtain ⟨x, xs, hx⟩ := List.exists_cons_of_ne_nil ht
        refine ih c ?_
        rw [hx] at hc ⊢
        rw [← List.cons_append, List.getLast?_append] at hc
        rw [List.getLast?_cons] at hc ⊢
        exact hc

theorem trimmed_collapse (t : Text) : Trimmed (collapse t) :=
  ⟨head?_collapse t, getLast?_collapse t⟩

theorem isSpace_blank : isSpace ' ' = true := by decide

theorem collapse_gap_append (t u : Text) : collapse (gap t ++ u) = collapse u := by
  rcases gap_eq t with h | h <;> rw [h]
  · rfl
  · exact collapse_space_cons isSpace_blank u

theorem gap_gap_append (t : Text) : gap (gap t ++ collapse t) = gap t := by
  rcases gap_eq t with h | h <;> rw [h]
  · exact gap_eq_nil_of_trimmed (trimmed_collapse t)
  · have hb : t.isBlank = false := by
      rw [Bool.eq_false_iff]
      intro hb
      rw [gap_of_blank hb] at h
      exact absurd h (by decide)
    refine gap_space_cons isSpace_blank ?_
    refine isBlank_eq_false_of_trimmed (trimmed_collapse t) ?_
    intro hnil
    rw [collapse_eq_nil_iff.mp hnil] at hb
    exact absurd hb (by decide)

/-- Collapsing a second time changes nothing. -/
theorem collapse_collapse (t : Text) : collapse (collapse t) = collapse t := by
  induction t with
  | nil => rw [collapse_nil, collapse_nil]
  | cons c t ih =>
    by_cases hc : isSpace c = true
    · rw [collapse_space_cons hc, ih]
    · rw [Bool.not_eq_true] at hc
      rw [collapse_cons hc, collapse_cons hc, gap_gap_append, collapse_gap_append, ih]

/-- A collapsed text that is one word is the trimmed text. -/
theorem collapse_eq_trim {t : Text} (h : ∀ c ∈ trim t, isSpace c = false) :
    collapse t = trim t := by
  have hself : ∀ u : Text, (∀ c ∈ u, isSpace c = false) → collapse u = u := by
    intro u
    induction u with
    | nil => intro _; exact collapse_nil
    | cons c u ih =>
      intro hu
      have hut : ∀ d ∈ u, isSpace d = false := fun d hd => hu d (List.mem_cons_of_mem c hd)
      rw [collapse_cons (hu c List.mem_cons_self), gap_of_head
        (fun d hd => hut d (List.mem_of_mem_head? hd)), ih hut]
      rfl
  rw [← collapse_trim, hself _ h]

/-- If no space is left in the collapsed form then none was between the ends of the text. -/
theorem no_space_trim_of_collapse {t : Text} (h : ' ' ∉ collapse t) :
    ∀ c ∈ trim t, isSpace c = false := by
  have haux : ∀ u : Text, (∀ c ∈ u.getLast?, isSpace c = false) → ' ' ∉ gap u ++ collapse u →
      ∀ c ∈ u, isSpace c = false := by
    intro u
    induction u with
    | nil => intro _ _ c hc; exact absurd hc List.not_mem_nil
    | cons d u ih =>
      intro hlast hu
      have hlastu : ∀ c ∈ u.getLast?, isSpace c = false := by
        intro c hc
        refine hlast c ?_
        rw [List.getLast?_cons, Option.mem_def.mp hc]
        rfl
      by_cases hd : isSpace d = true
      · cases u with
        | nil =>
          have h := hlast d rfl
          rw [hd] at h
          exact absurd h (by decide)
        | cons e u =>
          -- the last character is no space, so the rest is not blank and leaves a gap
          have hb : isBlank (e :: u) = false := by
            obtain ⟨x, hx⟩ : ∃ x, (e :: u).getLast? = some x := ⟨_, List.getLast?_eq_some_getLast
              (List.cons_ne_nil e u)⟩
            exact isBlank_eq_false_of_mem (List.mem_of_getLast? hx) (hlastu x hx)
          rw [gap_space_cons hd hb] at hu
          exact absurd (List.mem_append_left _ List.mem_cons_self) hu
      · rw [Bool.not_eq_true] at hd
        rw [collapse_cons hd, List.mem_append, List.mem_cons, not_or, not_or] at hu
        intro c hc
        rcases List.mem_cons.mp hc with rfl | hc
        · exact hd
        · exact ih hlastu hu.2.2 c hc
  refine haux (trim t) (trimmed_trim t).last ?_
  rw [gap_eq_nil_of_trimmed (trimmed_trim t), collapse_trim]
  exact h

/-! ## Other spaces -/

/-- The text with tabs for its spaces, so that no keyword is followed by a space in it. -/
def tabbed (t : Text) : Text := t.map fun c => if c == ' ' then '\t' else c

theorem tabbed_cons (c : Char) (t : Text) :
    tabbed (c :: t) = (if c == ' ' then '\t' else c) :: tabbed t := rfl

theorem isSpace_tab (c : Char) : isSpace (if c == ' ' then '\t' else c) = isSpace c := by
  by_cases hc : c = ' '
  · subst hc
    decide
  · rw [if_neg (by simpa using hc)]

theorem isBlank_tabbed (t : Text) : isBlank (tabbed t) = isBlank t := by
  induction t with
  | nil => rfl
  | cons c t ih =>
    rw [isBlank, isBlank] at ih
    rw [tabbed_cons, isBlank, isBlank, List.all_cons, List.all_cons, isSpace_tab, ih]

theorem trimmed_tabbed {t : Text} (h : Trimmed t) : Trimmed (tabbed t) := by
  refine ⟨fun c hc => ?_, fun c hc => ?_⟩
  · rw [tabbed, List.head?_map, Option.mem_def, Option.map_eq_some_iff] at hc
    obtain ⟨d, hd, rfl⟩ := hc
    rw [isSpace_tab]
    exact h.head d hd
  · rw [tabbed, List.getLast?_map, Option.mem_def, Option.map_eq_some_iff] at hc
    obtain ⟨d, hd, rfl⟩ := hc
    rw [isSpace_tab]
    exact h.last d hd

theorem gap_tabbed (t : Text) : gap (tabbed t) = gap t := by
  rw [gap, gap, isBlank_tabbed]
  cases t with
  | nil => rfl
  | cons c t =>
    rw [tabbed_cons, List.head?_cons, List.head?_cons, Option.any_some, Option.any_some,
      isSpace_tab]

theorem collapse_tabbed (t : Text) : collapse (tabbed t) = collapse t := by
  induction t with
  | nil => rfl
  | cons c t ih =>
    rw [tabbed_cons]
    by_cases hc : isSpace c = true
    · rw [collapse_space_cons (by rw [isSpace_tab]; exact hc), collapse_space_cons hc, ih]
    · rw [Bool.not_eq_true] at hc
      have hne : (c == ' ') = false := by
        rw [beq_eq_false_iff_ne]
        intro h
        rw [h] at hc
        exact absurd hc (by decide)
      rw [hne, if_neg (by decide), collapse_cons hc, collapse_cons hc, gap_tabbed, ih]

/-! ## The front of a text -/

/-- The text up to the first space or the first opening parenthesis, with the parenthesis.  It is
what the names of a call share with the line that the call was read from. -/
def lead : Text → Text
  | [] => []
  | c :: t => if isSpace c then [] else if c == '(' then [c] else c :: lead t

theorem lead_gap_collapse (t : Text) : lead (gap t ++ collapse t) = lead t := by
  induction t with
  | nil => rfl
  | cons c t ih =>
    by_cases hc : isSpace c = true
    · have hl : lead (c :: t) = [] := by rw [lead, if_pos hc]
      rw [hl, collapse_space_cons hc]
      by_cases hb : isBlank t = true
      · have hbc : isBlank (c :: t) = true := by
          rw [isBlank, List.all_cons, hc, Bool.true_and]
          exact hb
        rw [gap_of_blank hbc, collapse_eq_nil_of_blank hb]
        rfl
      · rw [Bool.not_eq_true] at hb
        rw [gap_space_cons hc hb]
        rfl
    · rw [Bool.not_eq_true] at hc
      have hg : gap (c :: t) = [] := gap_of_head (fun d hd => by simp_all)
      rw [hg, collapse_cons hc, List.nil_append, lead, lead, ih]

theorem lead_collapse {t : Text} (h : ∀ c ∈ t.head?, isSpace c = false) :
    lead (collapse t) = lead t := by
  have hl := lead_gap_collapse t
  rw [gap_of_head h] at hl
  exact hl

theorem lead_tabbed (t : Text) : lead (tabbed t) = lead t := by
  induction t with
  | nil => rfl
  | cons c t ih =>
    rw [tabbed_cons, lead, lead, isSpace_tab, ih]
    by_cases hc : c = ' '
    · subst hc
      rfl
    · have hne : (c == ' ') = false := beq_eq_false_iff_ne.mpr hc
      rw [hne, if_neg Bool.false_ne_true]

end Text
end BlockText
