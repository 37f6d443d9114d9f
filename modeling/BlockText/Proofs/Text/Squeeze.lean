/-
Texts that differ in their white space only.

`Text.squeeze` writes one space for each maximal run of white space.  A reader that goes through a text
and one that goes through the squeezed text take the same characters between the runs, so proofs about
the two go by `Text.Alike`, which goes through both texts at once: a character of both, or a run of white
space in each.
-/
import BlockText.Proofs.Number.Numeral

namespace BlockText
namespace Text

/-! ## One space for each run -/

/-- The text with one space for each maximal run of white space. -/
def squeeze : Text → Text
  | [] => []
  | c :: t =>
    if isSpace c then (if t.head?.any isSpace then squeeze t else ' ' :: squeeze t)
    else c :: squeeze t

theorem squeeze_cons {c : Char} (h : isSpace c = false) (t : Text) :
    squeeze (c :: t) = c :: squeeze t := by
  rw [squeeze, h]
  rfl

/-- A run that the text does not go on with is one space. -/
theorem squeeze_run {a t : Text} (ha : a.isBlank = true) (hne : a ≠ [])
    (ht : ∀ c ∈ t.head?, isSpace c = false) : squeeze (a ++ t) = ' ' :: squeeze t := by
  induction a with
  | nil => exact absurd rfl hne
  | cons c a ih =>
    obtain ⟨hc, ha⟩ : isSpace c = true ∧ isBlank a = true := by
      rwa [isBlank, List.all_cons, Bool.and_eq_true] at ha
    rw [List.cons_append, squeeze, if_pos hc]
    cases a with
    | nil =>
      have hhead : t.head?.any isSpace = false := by
        cases t with
        | nil => rfl
        | cons d t => exact ht d rfl
      rw [List.nil_append, hhead]
      rfl
    | cons d a =>
      have hd : (d :: a ++ t).head?.any isSpace = true := isBlank_iff.mp ha d List.mem_cons_self
      rw [if_pos hd]
      exact ih ha (List.cons_ne_nil d a)

/-! ## Two texts at once -/

/-- The texts differ in the characters and the lengths of their runs of white space only. -/
inductive Alike : Text → Text → Prop
  | nil : Alike [] []
  | char {c : Char} {t u : Text} (h : Alike t u) : Alike (c :: t) (c :: u)
  | run {a b t u : Text} (ha : a.isBlank = true) (hb : b.isBlank = true) (hane : a ≠ [])
    (hbne : b ≠ []) (h : Alike t u) : Alike (a ++ t) (b ++ u)

namespace Alike

theorem refl (t : Text) : Alike t t := by
  induction t with
  | nil => exact .nil
  | cons c t ih => exact .char ih

theorem append {t u t' u' : Text} (h : Alike t u) (h' : Alike t' u') :
    Alike (t ++ t') (u ++ u') := by
  induction h with
  | nil => exact h'
  | char _ ih => exact .char ih
  | run ha hb hane hbne _ ih =>
    rw [List.append_assoc, List.append_assoc]
    exact .run ha hb hane hbne ih

theorem of_run {a b : Text} (ha : a.isBlank = true) (hb : b.isBlank = true) (hane : a ≠ [])
    (hbne : b ≠ []) : Alike a b := by
  have h := Alike.run ha hb hane hbne .nil
  rwa [List.append_nil, List.append_nil] at h

theorem isBlank_eq {t u : Text} (h : Alike t u) : t.isBlank = u.isBlank := by
  induction h with
  | nil => rfl
  | char _ ih =>
    rw [isBlank, isBlank] at ih ⊢
    rw [List.all_cons, List.all_cons, ih]
  | run ha hb _ _ _ ih => rw [isBlank_append, isBlank_append, ha, hb, ih]

theorem head_eq {t u : Text} (h : Alike t u) : t.head?.any isSpace = u.head?.any isSpace := by
  have head {a t : Text} (ha : a.isBlank = true) (hne : a ≠ []) :
      (a ++ t).head?.any isSpace = true := by
    cases a with
    | nil => exact absurd rfl hne
    | cons c a => exact isBlank_iff.mp ha c List.mem_cons_self
  cases h with
  | nil | char => rfl
  | run ha hb hane hbne => rw [head ha hane, head hb hbne]

theorem collapse_eq {t u : Text} (h : Alike t u) : t.collapse = u.collapse := by
  induction h with
  | nil => rfl
  | @char c t u h ih =>
    by_cases hc : isSpace c = true
    · rw [collapse_space_cons hc, collapse_space_cons hc, ih]
    · rw [Bool.not_eq_true] at hc
      rw [collapse_cons hc, collapse_cons hc, ih, gap, gap, h.isBlank_eq, h.head_eq]
  | run ha hb _ _ _ ih =>
    rw [collapse, collapse, words_blank_append ha, words_blank_append hb]
    exact ih

end Alike

/-- A text is squeezed run by run. -/
theorem alike_squeeze (t : Text) : Alike t t.squeeze := by
  cases t with
  | nil => exact .nil
  | cons c t =>
    cases hc : isSpace c with
    | false =>
      rw [squeeze_cons hc]
      exact .char (alike_squeeze t)
    | true =>
      obtain ⟨a, ha, ht⟩ := exists_trimStart t
      have hrun : isBlank (c :: a) = true := by
        rw [isBlank, List.all_cons, hc]
        exact ha
      have hlength : (trimStart t).length ≤ t.length := (List.dropWhile_suffix isSpace).length_le
      rw [show c :: t = (c :: a) ++ trimStart t from congrArg (c :: ·) ht,
        squeeze_run hrun (List.cons_ne_nil c a) (head?_trimStart t)]
      exact .run (b := [' ']) hrun (by decide) (List.cons_ne_nil c a) (List.cons_ne_nil _ _)
        (alike_squeeze (trimStart t))
termination_by t.length

/-! ## What does not depend on the white space inside -/

/-- Whether a text is one word can be asked of the collapsed form. -/
theorem trim_eq_iff_collapse_eq {t w : Text} (hw : ∀ c ∈ w, isSpace c = false) :
    t.trim = w ↔ t.collapse = w := by
  constructor
  · rintro rfl
    exact collapse_eq_trim hw
  · rintro rfl
    refine (collapse_eq_trim (no_space_trim_of_collapse fun hmem => ?_)).symm
    exact absurd (hw ' ' hmem) (by decide)

end Text

/-- Texts with the same words are the same number or both none. -/
theorem Number.ofText?_of_collapse_eq {t u : Text} (h : t.collapse = u.collapse) :
    ofText? t = ofText? u := by
  have word {t : Text} (ht : isNumeral t = true) : t.trim = t.collapse :=
    (Text.collapse_eq_trim fun _ hc =>
      Numeral.isSpace_eq_false_of_isMark (isMark_of_isNumeral ht hc)).symm
  have hnumeral := isNumeral_of_collapse_eq h
  cases ht : isNumeral t with
  | true => exact ofText?_congr (by rw [word ht, word (hnumeral ▸ ht), h])
  | false =>
    rw [ht] at hnumeral
    rw [isNumeral, Option.isSome_eq_false_iff, Option.isNone_iff_eq_none] at ht
    rw [eq_comm, isNumeral, Option.isSome_eq_false_iff, Option.isNone_iff_eq_none] at hnumeral
    rw [ht, hnumeral]

end BlockText
