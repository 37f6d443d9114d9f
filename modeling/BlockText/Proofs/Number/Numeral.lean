/-
The texts that write numbers.

A numeral is made of digits, of which it has one at least, signs, points and the letter of the power, so no
white space and no parenthesis stands in it.  Names are therefore numerals or not whatever is done to their white space
(`isNumeral_collapse`, `isNumeral_of_collapse_eq`), and no text with a group in it is a numeral.
-/
import Mathlib.Data.List.TakeDrop
import Mathlib.Data.List.TakeWhile
import BlockText.Number.Reader
import BlockText.Proofs.Text.Words

namespace BlockText

namespace Numeral

/-! ## Whole numbers -/

theorem splitSign_of_digit {t : Text} (h : ∀ c ∈ t.head?, Text.isDigit c = true) :
    splitSign t = (false, t) := by
  unfold splitSign
  split
  · exact absurd (h '-' rfl) (by decide)
  · exact absurd (h '+' rfl) (by decide)
  · rfl

/-- The text is this whole number in decimal digits, with a sign or without. -/
inductive IsInteger : Text → Int → Prop
  | plain {ds : Text} (hne : ds ≠ []) (hds : ∀ c ∈ ds, Text.isDigit c = true) :
    IsInteger ds (Text.ofDigits ds)
  | plus {ds : Text} (hne : ds ≠ []) (hds : ∀ c ∈ ds, Text.isDigit c = true) :
    IsInteger ('+' :: ds) (Text.ofDigits ds)
  | minus {ds : Text} (hne : ds ≠ []) (hds : ∀ c ∈ ds, Text.isDigit c = true) :
    IsInteger ('-' :: ds) (-(Text.ofDigits ds : Int))

theorem integer?_eq_some_iff {t : Text} {n : Int} : integer? t = some n ↔ IsInteger t n := by
  have hrejected : ∀ ds : Text, (ds.isEmpty || !ds.all Text.isDigit) = false ↔
      ds ≠ [] ∧ ∀ c ∈ ds, Text.isDigit c = true := by
    intro ds
    rw [Bool.or_eq_false_iff, List.isEmpty_eq_false_iff, Bool.not_eq_false', List.all_eq_true]
  constructor
  · intro h
    simp only [integer?] at h
    split at h
    · cases h
    next hds =>
      obtain ⟨hne, hds⟩ := (hrejected _).mp (Bool.eq_false_iff.mpr hds)
      cases h
      revert hne hds
      unfold splitSign
      split
      · exact fun hne hds => .minus hne hds
      · exact fun hne hds => .plus hne hds
      · exact fun hne hds => .plain hne hds
  · intro h
    cases h with
    | plain hne hds =>
      have hsign := splitSign_of_digit fun c hc => hds c (List.mem_of_mem_head? hc)
      simp only [integer?, hsign, (hrejected t).mpr ⟨hne, hds⟩, Bool.false_eq_true, if_false]
    | plus hne hds | minus hne hds =>
      simp only [integer?, splitSign, (hrejected _).mpr ⟨hne, hds⟩, Bool.false_eq_true, if_false,
        if_true]

/-! ## The characters of numerals -/

def isMark (c : Char) : Bool :=
  Text.isDigit c || c == '-' || c == '+' || c == '.' || c == 'e' || c == 'E'

theorem isMark_of_isDigit {c : Char} (h : Text.isDigit c = true) : isMark c = true := by
  rw [isMark, h]
  rfl

theorem isSpace_eq_false_of_isMark {c : Char} (h : isMark c = true) : Text.isSpace c = false := by
  rw [isMark] at h
  simp only [Bool.or_eq_true, beq_iff_eq] at h
  rcases h with ((((h | rfl) | rfl) | rfl) | rfl) | rfl
  · rw [Text.isDigit, Bool.and_eq_true, decide_eq_true_eq, decide_eq_true_eq, Char.le_def,
      Char.le_def] at h
    have hlow : 48 ≤ c.toNat := h.1
    have hhigh : c.toNat ≤ 57 := h.2
    simp only [Text.isSpace, Bool.or_eq_false_iff, Bool.and_eq_false_iff, decide_eq_false_iff_not,
      beq_eq_false_iff_ne]
    omega
  all_goals decide

theorem isMark_openParenthesis : isMark '(' = false := by decide

theorem splitSign_marks {t : Text} {c : Char} (hc : c ∈ t) :
    isMark c = true ∨ c ∈ (splitSign t).2 := by
  unfold splitSign
  split
  · rcases List.mem_cons.mp hc with rfl | hc
    · exact Or.inl (by decide)
    · exact Or.inr hc
  · rcases List.mem_cons.mp hc with rfl | hc
    · exact Or.inl (by decide)
    · exact Or.inr hc
  · exact Or.inr hc

theorem isMark_of_integer? {t : Text} {n : Int} (h : integer? t = some n) {c : Char}
    (hc : c ∈ t) : isMark c = true := by
  cases integer?_eq_some_iff.mp h with
  | plain _ hds => exact isMark_of_isDigit (hds c hc)
  | plus _ hds | minus _ hds =>
    rcases List.mem_cons.mp hc with rfl | hc
    · decide
    · exact isMark_of_isDigit (hds c hc)

theorem isMark_of_power? {t : Text} {n : Int} (h : power? t = some n) {c : Char} (hc : c ∈ t) :
    isMark c = true := by
  cases t with
  | nil => exact absurd hc List.not_mem_nil
  | cons d rest =>
    rw [power?] at h
    split at h
    next hd =>
      rcases List.mem_cons.mp hc with rfl | hc
      · rw [isMark]
        simp only [Bool.or_eq_true] at hd ⊢
        rcases hd with hd | hd
        · exact Or.inl (Or.inr hd)
        · exact Or.inr hd
      · exact isMark_of_integer? h hc
    · cases h

theorem isMark_of_span {t : Text} {c : Char} (hc : c ∈ t) :
    isMark c = true ∨ c ∈ (t.span Text.isDigit).2 := by
  rw [List.span_eq_takeWhile_dropWhile]
  rw [← List.takeWhile_append_dropWhile (p := Text.isDigit) (l := t), List.mem_append] at hc
  rcases hc with hc | hc
  · exact Or.inl (isMark_of_isDigit (List.mem_takeWhile_imp hc))
  · exact Or.inr hc

theorem isMark_of_fraction {t : Text} {c : Char} (hc : c ∈ t) :
    isMark c = true ∨ c ∈ (fraction t).2 := by
  unfold fraction
  split
  · rcases List.mem_cons.mp hc with rfl | hc
    · exact Or.inl (by decide)
    · exact isMark_of_span hc
  · exact Or.inr hc

theorem isMark_of_ofText? {t : Text} {n : Numeral} (h : ofText? t = some n) {c : Char}
    (hc : c ∈ t) : isMark c = true := by
  rcases splitSign_marks hc with hm | hc
  · exact hm
  rcases isMark_of_span hc with hm | hc
  · exact hm
  rcases isMark_of_fraction hc with hm | hc
  · exact hm
  · simp only [ofText?] at h
    split at h
    · cases h
    · obtain ⟨power, hp, -⟩ := Option.map_eq_some_iff.mp h
      exact isMark_of_power? hp hc

/-! ## The digits of numerals -/

theorem splitSign_subset (t : Text) : (splitSign t).2 ⊆ t := by
  unfold splitSign
  split
  · exact List.subset_cons_self _ _
  · exact List.subset_cons_self _ _
  · exact List.Subset.refl _

theorem mem_fraction {t : Text} {c : Char} (hc : c ∈ (fraction t).1) :
    c ∈ t ∧ Text.isDigit c = true := by
  unfold fraction at hc
  split at hc
  next rest =>
    rw [List.span_eq_takeWhile_dropWhile] at hc
    exact ⟨List.mem_cons_of_mem _ ((List.takeWhile_prefix _).subset hc), List.mem_takeWhile_imp hc⟩
  · exact absurd hc List.not_mem_nil

theorem exists_digit_of_ofText? {t : Text} {n : Numeral} (h : ofText? t = some n) :
    ∃ c ∈ t, Text.isDigit c = true := by
  simp only [ofText?, List.span_eq_takeWhile_dropWhile] at h
  split at h
  · cases h
  next hempty =>
    rw [Bool.and_eq_true, not_and_or, List.isEmpty_iff, List.isEmpty_iff] at hempty
    rcases hempty with hwhole | hpart
    · obtain ⟨c, hc⟩ := List.exists_mem_of_ne_nil _ hwhole
      exact ⟨c, splitSign_subset t ((List.takeWhile_prefix _).subset hc), List.mem_takeWhile_imp hc⟩
    · obtain ⟨c, hc⟩ := List.exists_mem_of_ne_nil _ hpart
      obtain ⟨hmem, hdigit⟩ := mem_fraction hc
      exact ⟨c, splitSign_subset t ((List.dropWhile_suffix _).subset hmem), hdigit⟩

end Numeral

namespace Number

/-! ## Numerals among the names -/

theorem exists_digit_of_isNumeral {t : Text} (h : isNumeral t = true) :
    ∃ c ∈ t, Text.isDigit c = true := by
  rw [isNumeral, Option.isSome_iff_exists] at h
  obtain ⟨x, hx⟩ := h
  obtain ⟨n, hn, -⟩ := Option.bind_eq_some_iff.mp hx
  obtain ⟨c, hc, hdigit⟩ := Numeral.exists_digit_of_ofText? hn
  exact ⟨c, Text.mem_of_mem_trim hc, hdigit⟩

theorem isMark_of_isNumeral {t : Text} (h : isNumeral t = true) {c : Char} (hc : c ∈ t.trim) :
    Numeral.isMark c = true := by
  rw [isNumeral, Option.isSome_iff_exists] at h
  obtain ⟨x, hx⟩ := h
  obtain ⟨n, hn, -⟩ := Option.bind_eq_some_iff.mp hx
  exact Numeral.isMark_of_ofText? hn hc

theorem ofText?_congr {t u : Text} (h : t.trim = u.trim) : ofText? t = ofText? u := by
  rw [ofText?, ofText?, h]

theorem isNumeral_congr {t u : Text} (h : t.trim = u.trim) : isNumeral t = isNumeral u := by
  rw [isNumeral, isNumeral, ofText?_congr h]

/-- A character that no numeral is made of. -/
theorem isNumeral_eq_false_of_mem {t : Text} {c : Char} (h : c ∈ t)
    (hs : Text.isSpace c = false) (hc : Numeral.isMark c = false) : isNumeral t = false := by
  rw [Bool.eq_false_iff]
  intro hn
  have hm := isMark_of_isNumeral hn (Text.mem_trim h hs)
  rw [hc] at hm
  cases hm

theorem isNumeral_of_openParenthesis {t : Text} (h : '(' ∈ t) : isNumeral t = false :=
  isNumeral_eq_false_of_mem h (by decide) Numeral.isMark_openParenthesis

theorem ofText?_of_blank {t : Text} (h : t.isBlank = true) : ofText? t = none := by
  rw [ofText?, Text.trim_of_blank h]
  rfl

/-- The white space in a name is no matter for whether it is a numeral. -/
theorem isNumeral_collapse (t : Text) : isNumeral t.collapse = isNumeral t := by
  by_cases hs : ∀ c ∈ t.trim, Text.isSpace c = false
  · refine isNumeral_congr ?_
    rw [Text.collapse_eq_trim hs, Text.trim_trim]
  · -- a numeral has no white space inside, and `t` and its collapsed form have some
    have hspace : ' ' ∈ t.collapse := by
      by_contra hn
      exact hs (Text.no_space_trim_of_collapse hn)
    have ht : isNumeral t = false := by
      rw [Bool.eq_false_iff]
      intro hn
      exact hs fun c hc => Numeral.isSpace_eq_false_of_isMark (isMark_of_isNumeral hn hc)
    have hc : isNumeral t.collapse = false := by
      rw [Bool.eq_false_iff]
      intro hn
      have hm := isMark_of_isNumeral hn (c := ' ')
        (by rwa [Text.trim_of_trimmed (Text.trimmed_collapse t)])
      revert hm
      decide
    rw [hc, ht]

theorem isNumeral_of_collapse_eq {t u : Text} (h : t.collapse = u.collapse) :
    isNumeral t = isNumeral u := by
  rw [← isNumeral_collapse t, ← isNumeral_collapse u, h]

end Number
end BlockText
