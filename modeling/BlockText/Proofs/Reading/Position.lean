/-
Where errors point.

The error of a line that cannot be taken is one of this line.  The first line of a construct that does
not close is a line of the source too, since all that is open was opened by a line that was read.

`Document.error_position` says what this gives for a source: the line of an error is one of its lines,
and the span of the error cuts out of the source what the error speaks of.
-/
import BlockText.Proofs.Reading.Truncation
import BlockText.Proofs.Text.Layout

namespace BlockText

/-! ## Lines that are open -/

namespace State

/-- What is open was opened by a line that was read. -/
theorem headers_subset_of_run {strict : Bool} {t : State} {lines : List Line}
    (h : State.start.run strict lines = .ok t) : t.headers ⊆ lines := by
  refine run_induction (P := fun t => t.headers ⊆ lines) (fun line hl hs hm => ?_)
    (List.nil_subset _) h
  rcases headers_of_move hm with heq | heq | ⟨l, heq⟩
  · rw [heq]
    exact hs
  · rw [heq]
    exact List.cons_subset.mpr ⟨hl, hs⟩
  · rw [heq] at hs
    exact (List.cons_subset.mp hs).2

end State

/-! ## Spans -/

namespace ParseError

/-- An error in a text points at its character where the text is found first. -/
theorem span_of_indexOf? {line : Line} {error : NameError} {n : Nat}
    (hn : Text.indexOf? error.text line.text = some n) (hne : error.text ≠ []) :
    (ParseError.name error line).span =
      ⟨line.start + Text.byteLength (line.text.take n ++ error.text.take error.index),
        line.start + Text.byteLength (line.text.take n ++ error.text.take error.index) +
          Text.byteLength ((error.text.drop error.index).take 1)⟩ := by
  rw [span, hn]
  simp only [List.isEmpty_iff, hne, if_false, Text.charSpan, Text.byteLength_append,
    Nat.add_assoc]

/-- An error in a text that is not empty cuts its character out of the source, or nothing where it
shows at the end of the text. -/
theorem cuts_of_name {source : Text} {line : Line} {error : NameError}
    (hl : line.span.Cuts source line.text) (ht : error.text <:+: line.text)
    (hne : error.text ≠ []) :
    (ParseError.name error line).span.Cuts source ((error.text.drop error.index).take 1) ∧
      line.span.start ≤ (ParseError.name error line).span.start ∧
      (ParseError.name error line).span.stop ≤ line.span.stop := by
  obtain ⟨n, hn⟩ := Text.exists_indexOf? ht
  obtain ⟨after, hafter⟩ := Text.append_of_indexOf? hn
  have hsplit : line.text = line.text.take n ++ error.text.take error.index ++
      (error.text.drop error.index).take 1 ++ ((error.text.drop error.index).drop 1 ++ after) := by
    rw [← List.append_assoc, List.append_assoc _ _ (List.drop 1 _), List.take_append_drop,
      List.append_assoc _ _ (List.drop _ _), List.take_append_drop]
    exact hafter
  have hlength := congrArg Text.byteLength hsplit
  rw [Text.byteLength_append, Text.byteLength_append] at hlength
  rw [span_of_indexOf? hn hne]
  refine ⟨hl.inside hsplit, Nat.le_add_right _ _, ?_⟩
  show line.start + _ + _ ≤ line.start + line.text.byteLength
  omega

/-- What the span of an error covers in a source, where the error is one of this line. -/
structure Spans (e : ParseError) (source : Text) (line : Line) : Prop where
  start : line.span.start ≤ e.span.start
  ordered : e.span.start ≤ e.span.stop
  stop : e.span.stop ≤ line.span.stop
  start_boundary : source.Boundary e.span.start
  stop_boundary : source.Boundary e.span.stop
  /-- An error of the line speaks of the line and covers it. -/
  whole : e.index? = none → e.text = line.text ∧ e.span = line.span
  /-- An error in a text speaks of a part of the line. -/
  part : ∀ i, e.index? = some i → e.text <:+: line.text ∧ i ≤ e.text.length
  /-- It covers the character that it shows at. -/
  character : ∀ i c, e.index? = some i → e.text[i]? = some c → e.span.Cuts source [c]
  /-- At the end of the text it covers nothing. -/
  ending : e.index? = some e.text.length → e.text ≠ [] → e.span.start = e.span.stop
  /-- If the text is empty it covers the line. -/
  nothing : ∀ i, e.index? = some i → e.text = [] → e.span = line.span

/-- The line of an error is the line of its number in the source, and the span covers what the error
speaks of. -/
structure PointsAt (e : ParseError) (source : Text) (line : Line) : Prop where
  numbered : 1 ≤ e.lineNumber ∧ e.lineNumber ≤ (Line.ofSource source).length ∧
    (Line.ofSource source)[e.lineNumber - 1]? = some line
  cuts : line.span.Cuts source line.text
  spans : e.Spans source line

variable {source : Text} {line : Line}

theorem spans_line (hl : line.span.Cuts source line.text) (fault : LineFault) :
    (ParseError.line fault line).Spans source line where
  start := Nat.le_refl _
  ordered := Nat.le_add_right _ _
  stop := Nat.le_refl _
  start_boundary := hl.start_boundary
  stop_boundary := hl.stop_boundary
  whole _ := ⟨rfl, rfl⟩
  part _ h := by cases h
  character _ _ h := by cases h
  ending h := by cases h
  nothing _ h := by cases h

theorem spans_empty {error : NameError} (hl : line.span.Cuts source line.text)
    (hi : error.index ≤ error.text.length) (hnil : error.text = []) :
    (ParseError.name error line).Spans source line := by
  have hspan : (ParseError.name error line).span = line.span := by
    rw [span, hnil]
    cases Text.indexOf? [] line.text <;> rfl
  refine ⟨?_, ?_, ?_, ?_, ?_, fun h => ?_, fun i h => ?_, fun i c h hc => ?_, fun _ hne => ?_,
    fun _ _ _ => hspan⟩
  · rw [hspan]
  · rw [hspan]
    exact Nat.le_add_right _ _
  · rw [hspan]
  · rw [hspan]
    exact hl.start_boundary
  · rw [hspan]
    exact hl.stop_boundary
  · cases h
  · cases h
    refine ⟨?_, hi⟩
    show error.text <:+: line.text
    rw [hnil]
    exact List.nil_infix
  · change error.text[i]? = some c at hc
    rw [hnil] at hc
    cases hc
  · exact absurd hnil hne

theorem spans_name {error : NameError} (hl : line.span.Cuts source line.text)
    (ht : error.text <:+: line.text) (hi : error.index ≤ error.text.length)
    (hne : error.text ≠ []) : (ParseError.name error line).Spans source line := by
  obtain ⟨hcuts, hstart, hstop⟩ := cuts_of_name hl ht hne
  have hwidth : (ParseError.name error line).span.stop =
      (ParseError.name error line).span.start +
        Text.byteLength ((error.text.drop error.index).take 1) := by
    obtain ⟨before, after, -, hs, hs'⟩ := hcuts
    omega
  refine ⟨hstart, by omega, hstop, hcuts.start_boundary, hcuts.stop_boundary, fun h => ?_,
    fun i h => ?_, fun i c h hc => ?_, fun h _ => ?_, fun _ _ hnil => absurd hnil hne⟩
  · cases h
  · cases h
    exact ⟨ht, hi⟩
  · cases h
    obtain ⟨hlt, hget⟩ := List.getElem?_eq_some_iff.mp
      (show error.text[error.index]? = some c from hc)
    rw [List.drop_eq_getElem_cons hlt, hget] at hcuts
    exact hcuts
  · have hend : error.index = error.text.length := Option.some.inj h
    rw [hend, List.drop_length] at hwidth
    exact hwidth.symm

/-- An error of a line covers what it speaks of. -/
theorem Found.spans {e : ParseError} (h : e.Found line) (hl : line.span.Cuts source line.text) :
    e.Spans source line := by
  cases h with
  | line fault => exact spans_line hl fault
  | name ht hi =>
    rename_i error
    by_cases hne : error.text = []
    · exact spans_empty hl hi hne
    · exact spans_name hl ht hi hne

end ParseError

/-! ## Sources -/

namespace Document

/-- The error of a source is one of a line of it. -/
theorem found_of_parse {strict : Bool} {source : Text} {e : ParseError}
    (h : parse strict source = .error e) : ∃ line ∈ Line.ofSource source, e.Found line := by
  rcases parse_eq_error h with ⟨before, line, after, t, hlines, -, hstep⟩ | ⟨t, hrun, hfin⟩
  · refine ⟨line, ?_, State.found_of_step hstep⟩
    rw [hlines]
    exact List.mem_append_right _ List.mem_cons_self
  · obtain ⟨header, category, hinner, rfl⟩ := State.finish_eq_error_iff.mp hfin
    refine ⟨header, State.headers_subset_of_run hrun ?_, .line _⟩
    refine List.mem_of_mem_head? ?_
    rw [← State.innermost?_map_fst, hinner]
    rfl

/-- An error points at a part of a line of the source, between whole characters: at the line itself
for an error of the line, and for an error in a text at the character that it shows at, at nothing at
the end of the text, and at the line if the text is empty. -/
theorem error_position {strict : Bool} {source : Text} {e : ParseError}
    (h : parse strict source = .error e) : ∃ line, e.PointsAt source line := by
  obtain ⟨line, hmem, hfound⟩ := found_of_parse h
  obtain ⟨i, hi⟩ := List.getElem?_of_mem hmem
  have hnumber : e.lineNumber = i + 1 := by
    rw [ParseError.lineNumber, hfound.place_eq]
    exact Line.number_of_getElem? hi
  refine ⟨line, ⟨by omega, ?_, ?_⟩, Line.cuts_of_mem hmem, hfound.spans (Line.cuts_of_mem hmem)⟩
  · rw [hnumber]
    exact (List.getElem?_eq_some_iff.mp hi).1
  · rw [hnumber, Nat.add_sub_cancel]
    exact hi

/-- The colon in the name of a unit is pointed at. -/
theorem error_position_colon :
    ∃ (source : Text) (e : ParseError), source = ['u', 'n', 'i', 't', ' ', 'A', ':', 'B', ' ', '['] ∧
      parse true source = .error e ∧ e.span = ⟨6, 7⟩ ∧ ∃ line, e.PointsAt source line := by
  have h : parse true ['u', 'n', 'i', 't', ' ', 'A', ':', 'B', ' ', '['] =
      .error (.name ⟨.delimiter, ['A', ':', 'B'], 1⟩
        ⟨1, 0, ['u', 'n', 'i', 't', ' ', 'A', ':', 'B', ' ', '[']⟩) := rfl
  exact ⟨_, _, rfl, h, by decide, error_position h⟩

end Document
end BlockText
