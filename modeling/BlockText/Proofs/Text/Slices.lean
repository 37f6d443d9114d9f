/-
Slices of a source.

A text is looked for in another from its start, so what is found is the first occurrence
(`Text.indexOf?_eq_some_iff`), which is not always the one that was cut out.

A span counts bytes.  It cuts a text out of a source where the text stands behind as many bytes as the
span starts at (`Span.Cuts`), and then both its ends lie between characters.  What stands in a text that is
cut out, is cut out by the span that starts as many bytes behind (`Span.Cuts.inside`).
-/
import BlockText.Error
import BlockText.Proofs.Text.Trim
import BlockText.Proofs.Text.Lines

namespace BlockText

namespace Text

/-! ## Parts of a text -/

theorem infix_trim (t : Text) : trim t <:+: t := by
  obtain ⟨a, b, -, -, ht⟩ := exists_trim t
  exact ⟨a, b, ht.symm⟩

theorem suffix_dropPrefix (p t : Text) : dropPrefix p t <:+ t := by
  rw [dropPrefix]
  cases hp : List.isPrefixOf? p t with
  | none => exact List.suffix_rfl
  | some r => exact ⟨p, List.isPrefixOf?_eq_some_iff_append_eq.mp hp⟩

theorem prefix_dropSuffix (p t : Text) : dropSuffix p t <+: t := by
  rw [dropSuffix]
  cases hp : List.isSuffixOf? p t with
  | none => exact List.prefix_rfl
  | some r => exact ⟨p, List.isSuffixOf?_eq_some_iff_append_eq.mp hp⟩

/-- A text is found where it occurs first. -/
theorem indexOf?_eq_some_iff {needle hay : Text} {n : Nat} :
    indexOf? needle hay = some n ↔
      n ≤ hay.length ∧ needle <+: hay.drop n ∧ ∀ m < n, ¬ needle <+: hay.drop m := by
  induction hay generalizing n with
  | nil =>
    simp only [indexOf?, List.drop_nil, List.prefix_nil, List.length_nil, Nat.le_zero]
    constructor
    · intro h
      split at h
      next hn =>
        cases h
        exact ⟨rfl, List.isEmpty_iff.mp hn, fun m hm => absurd hm (Nat.not_lt_zero m)⟩
      · cases h
    · rintro ⟨rfl, rfl, -⟩
      rfl
  | cons c hay ih =>
    rw [indexOf?]
    split
    next hp =>
      rw [List.isPrefixOf_iff_prefix] at hp
      constructor
      · intro h
        cases h
        exact ⟨Nat.zero_le _, hp, fun m hm => absurd hm (Nat.not_lt_zero m)⟩
      · rintro ⟨-, -, hfirst⟩
        cases n with
        | zero => rfl
        | succ n => exact absurd hp (hfirst 0 (Nat.succ_pos n))
    next hp =>
      rw [List.isPrefixOf_iff_prefix] at hp
      rw [Option.map_eq_some_iff]
      constructor
      · rintro ⟨n, hn, rfl⟩
        obtain ⟨hle, hprefix, hfirst⟩ := ih.mp hn
        refine ⟨Nat.succ_le_succ hle, hprefix, fun m hm => ?_⟩
        cases m with
        | zero => exact hp
        | succ m => exact hfirst m (Nat.lt_of_succ_lt_succ hm)
      · rintro ⟨hle, hprefix, hfirst⟩
        cases n with
        | zero => exact absurd hprefix hp
        | succ n =>
          exact ⟨n, ih.mpr ⟨Nat.le_of_succ_le_succ hle, hprefix,
            fun m hm => hfirst (m + 1) (Nat.succ_lt_succ hm)⟩, rfl⟩

/-- A text is found where it stands. -/
theorem append_of_indexOf? {needle hay : Text} {n : Nat} (h : indexOf? needle hay = some n) :
    ∃ after, hay = hay.take n ++ needle ++ after := by
  obtain ⟨-, ⟨after, ha⟩, -⟩ := indexOf?_eq_some_iff.mp h
  exact ⟨after, by rw [List.append_assoc, ha, List.take_append_drop]⟩

/-- A text with a character that does not stand in front of it is found behind what stands there, since an
earlier occurrence would have that character too early. -/
theorem indexOf?_append {front text : Text} {c : Char} (hc : c ∈ text) (hfront : c ∉ front)
    (back : Text) : indexOf? text (front ++ text ++ back) = some front.length := by
  refine indexOf?_eq_some_iff.mpr ⟨by simp, ?_, fun m hm hearly => ?_⟩
  · rw [List.append_assoc, List.drop_left]
    exact List.prefix_append text back
  · obtain ⟨after, hafter⟩ := hearly
    obtain ⟨u, v, rfl, hu⟩ := List.eq_append_cons_of_mem hc
    rw [List.append_assoc front, List.drop_append_of_le_length (Nat.le_of_lt hm)] at hafter
    have hsplit : u ++ c :: (v ++ after) = (front.drop m ++ u) ++ c :: (v ++ back) := by
      simpa only [List.append_assoc, List.cons_append] using hafter
    have hfree : c ∉ front.drop m ++ u := fun hmem => (List.mem_append.mp hmem).elim
      (fun hmem => hfront (List.mem_of_mem_drop hmem)) hu
    have hlength := congrArg List.length (append_cons_inj hu hfree hsplit).1
    rw [List.length_append, List.length_drop] at hlength
    omega

/-- A text that begins at a place has its first character there. -/
theorem getElem?_of_prefix_drop {text hay : Text} {m : Nat} (hne : text ≠ [])
    (h : text <+: hay.drop m) : hay[m]? = text.head? := by
  obtain ⟨rest, hrest⟩ := h
  rw [← List.head?_drop, ← hrest, List.head?_append_of_ne_nil _ hne]

/-- A text that starts with no white space does not begin at white space. -/
theorem not_prefix_drop_of_blank {space text : Text} (hspace : space.isBlank = true) (hne : text ≠ [])
    (hhead : ∀ c ∈ text.head?, isSpace c = false) {m : Nat} (hm : m < space.length) (rest : Text) :
    ¬ text <+: (space ++ rest).drop m := by
  intro h
  have hget := getElem?_of_prefix_drop hne h
  rw [List.getElem?_append_left hm, List.getElem?_eq_getElem hm] at hget
  have hs := isBlank_iff.mp hspace _ (List.getElem_mem hm)
  rw [hhead _ hget.symm] at hs
  cases hs

/-- With white space on both sides of a run, a text that starts with none is found behind them unless it
begins in the run. -/
theorem indexOf?_behind_run {a run space text back : Text} (ha : a.isBlank = true)
    (hspace : space.isBlank = true) (hne : text ≠ [])
    (hhead : ∀ c ∈ text.head?, isSpace c = false) :
    indexOf? text (a ++ (run ++ (space ++ (text ++ back)))) =
        some (a ++ (run ++ space)).length ↔
      ¬ ∃ j < run.length, text <+: (run ++ (space ++ (text ++ back))).drop j := by
  rw [indexOf?_eq_some_iff]
  constructor
  · rintro ⟨-, -, hfirst⟩ ⟨j, hj, hearly⟩
    refine hfirst (a.length + j) ?_ ?_
    · simp only [List.length_append]
      omega
    · rw [← List.drop_drop, List.drop_left]
      exact hearly
  · intro hnot
    refine ⟨?_, ?_, fun m hm hearly => ?_⟩
    · simp only [List.length_append]
      omega
    · have hsplit : a ++ (run ++ (space ++ (text ++ back))) =
          (a ++ (run ++ space)) ++ (text ++ back) := by simp only [List.append_assoc]
      rw [hsplit, List.drop_left]
      exact List.prefix_append text back
    · -- no occurrence begins at white space, and none begins in the run
      simp only [List.length_append] at hm
      by_cases hfront : m < a.length
      · exact not_prefix_drop_of_blank ha hne hhead hfront _ hearly
      rw [Nat.not_lt] at hfront
      rw [← Nat.add_sub_of_le hfront, ← List.drop_drop, List.drop_left] at hearly
      by_cases hrun : m - a.length < run.length
      · exact hnot ⟨m - a.length, hrun, hearly⟩
      · rw [Nat.not_lt] at hrun
        rw [← Nat.add_sub_of_le hrun, ← List.drop_drop, List.drop_left] at hearly
        have hlt : m - a.length - run.length < space.length := by omega
        exact not_prefix_drop_of_blank hspace hne hhead hlt _ hearly

/-- A text that stands somewhere is found. -/
theorem exists_indexOf? {needle hay : Text} (h : needle <:+: hay) :
    ∃ n, indexOf? needle hay = some n := by
  induction hay with
  | nil =>
    rw [List.infix_nil.mp h]
    exact ⟨0, rfl⟩
  | cons c hay ih =>
    rw [indexOf?]
    split
    · exact ⟨0, rfl⟩
    next hn =>
      rcases List.infix_cons_iff.mp h with hp | hi
      · exact absurd (List.isPrefixOf_iff_prefix.mpr hp) hn
      · obtain ⟨n, hm⟩ := ih hi
        exact ⟨n + 1, by rw [hm]; rfl⟩

theorem hasInfix_iff {needle hay : Text} : hasInfix needle hay = true ↔ needle <:+: hay := by
  rw [hasInfix, Option.isSome_iff_exists]
  constructor
  · rintro ⟨n, hn⟩
    obtain ⟨after, ha⟩ := append_of_indexOf? hn
    exact ⟨_, after, ha.symm⟩
  · exact exists_indexOf?

/-! ## Offsets and spans -/

/-- The offset lies between two characters of the text, or at an end of it. -/
def Boundary (t : Text) (offset : Nat) : Prop :=
  ∃ before after, t = before ++ after ∧ offset = byteLength before

end Text

namespace Span

/-- The bytes of the span are the text `piece` in the source. -/
def Cuts (span : Span) (source piece : Text) : Prop :=
  ∃ before after, source = before ++ piece ++ after ∧ span.start = before.byteLength ∧
    span.stop = before.byteLength + piece.byteLength

variable {span : Span} {source piece : Text}

theorem Cuts.start_boundary (h : span.Cuts source piece) : source.Boundary span.start := by
  obtain ⟨before, after, hs, hstart, -⟩ := h
  exact ⟨before, piece ++ after, by rw [hs, List.append_assoc], hstart⟩

theorem Cuts.stop_boundary (h : span.Cuts source piece) : source.Boundary span.stop := by
  obtain ⟨before, after, hs, -, hstop⟩ := h
  exact ⟨before ++ piece, after, hs, by rw [hstop, Text.byteLength_append]⟩

/-- What stands in a piece is cut out as many bytes behind. -/
theorem Cuts.inside (h : span.Cuts source piece) {a t b : Text} (hp : piece = a ++ t ++ b) :
    Cuts ⟨span.start + a.byteLength, span.start + a.byteLength + t.byteLength⟩ source t := by
  obtain ⟨before, after, hs, hstart, -⟩ := h
  refine ⟨before ++ a, b ++ after, ?_, ?_, ?_⟩
  · rw [hs, hp]
    simp only [List.append_assoc]
  · rw [hstart, Text.byteLength_append]
  · rw [hstart, Text.byteLength_append]

end Span

end BlockText
