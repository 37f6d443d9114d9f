/-
Errors of a line.

A line that cannot be taken is refused as a whole (`State.Blames`) or for a text in it that is no name
(`State.Misreads`).  The text is a part of the line and the error shows in it, so the error is one of the
line itself either way (`State.found_of_step`).
-/
import BlockText.Proofs.Name.Fault
import BlockText.Proofs.Text.Slices
import BlockText.Proofs.Reading.LibraryHeader
import BlockText.Proofs.Reading.Refusal

namespace BlockText

/-- The error is one of this line: of the line as a whole, or of a part of it, at a character or at
the end of the part. -/
inductive ParseError.Found (line : Line) : ParseError → Prop
  | line (fault : LineFault) : Found line (.line fault line)
  | name {error : NameError} (ht : error.text <:+: line.text)
    (hi : error.index ≤ error.text.length) : Found line (.name error line)

theorem ParseError.Found.place_eq {line : Line} {e : ParseError} (h : e.Found line) :
    e.place = line := by
  cases h with
  | line fault => rfl
  | name ht hi => rfl

/-! ## The texts that a line is read for -/

namespace Opening

variable {line : Line} {category : Category} {error : NameError}

theorem infix_trimmed (line : Line) : line.trimmed <:+: line.text := Text.infix_trim line.text

theorem infix_headerText (opening : Text) (line : Line) :
    headerText opening line <:+: line.text :=
  (Text.infix_trim _).trans ((Text.prefix_dropSuffix _ _).isInfix.trans
    ((Text.suffix_dropPrefix _ _).isInfix.trans (infix_trimmed line)))

/-- The text that a header is refused for is a part of its line. -/
theorem Misreads.exists_within (h : Misreads line category error) :
    ∃ read, error.Within read ∧ read <:+: line.text := by
  cases h with
  | simple _ h => exact ⟨_, SimpleName.within_of_read h, infix_headerText _ line⟩
  | library hs h =>
    exact ⟨_, SimpleName.within_of_read h,
      (LibraryHeader.partsOf_ofText? hs).name.trans (infix_trimmed line)⟩
  | definition _ h => exact ⟨_, Signature.within_of_read h, infix_headerText _ line⟩
  | event h => exact ⟨_, ⟨rfl, Nat.zero_le _⟩, infix_headerText _ line⟩
  | contextCall h => exact ⟨_, Call.within_of_read h, infix_headerText _ line⟩

end Opening

theorem infix_hostedClause (trimmed : Text) : hostedClause trimmed <:+: trimmed := by
  rw [hostedClause]
  split
  · exact List.nil_infix
  next rest hr =>
    have hrest : rest <:+ trimmed := ⟨_, List.isPrefixOf?_eq_some_iff_append_eq.mp hr⟩
    refine (Text.infix_trim _).trans ?_
    cases hs : List.isSuffixOf? ['[', '@'] rest with
    | none => exact List.nil_infix
    | some t =>
      have ht : t <+: rest := ⟨_, List.isSuffixOf?_eq_some_iff_append_eq.mp hs⟩
      exact ht.isInfix.trans hrest.isInfix

namespace State

variable {strict : Bool} {s : State} {line : Line} {e : ParseError} {error : NameError}

/-- The text that a line is refused for is a part of it. -/
theorem Misreads.exists_within (h : s.Misreads line error) :
    ∃ read, error.Within read ∧ read <:+: line.text := by
  cases h with
  | step _ _ h => exact ⟨_, Call.within_of_read h, Opening.infix_trimmed line⟩
  | header _ h => exact h.exists_within
  | hosted _ _ h =>
    exact ⟨_, Returns.within_of_read h,
      (infix_hostedClause line.trimmed).trans (Opening.infix_trimmed line)⟩
  | closing _ h =>
    exact ⟨_, Returns.within_of_read h, (Text.infix_trim _).trans
      ((List.dropWhile_suffix _).isInfix.trans (Opening.infix_trimmed line))⟩

/-! ## Any line -/

/-- The error of a line that cannot be taken is one of this line. -/
theorem found_of_step (h : s.step strict line = .error e) : e.Found line := by
  cases refusal_of_step h with
  | line => exact .line _
  | name hmisreads =>
    obtain ⟨read, ⟨rfl, hindex⟩, hread⟩ := hmisreads.exists_within
    exact .name hread hindex

end State
end BlockText
