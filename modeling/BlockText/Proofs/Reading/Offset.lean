/-
Where the text of an error is found again.

An error in a name keeps the text that was read and not where it stood, and its place is found by looking
for the text in the line.  `State.CutsOut` says where the reader cuts a text out of a line.  In front of the
cut stand white space and opening words, and every text that is refused there has a character that is
neither, so it is found where it was cut out.  Only on a closing line, where brackets stand in front of
the cut, may the text be one of brackets and white space and begin at a bracket already
(`State.Recurs`); then the error points at that bracket (`Document.error_offset`).
-/
import BlockText.Proofs.Reading.Cascade
import BlockText.Proofs.Reading.Refusal
import BlockText.Proofs.Reading.Position

namespace BlockText

/-! ## Cuts -/

/-- The headers with a name behind their opening words. -/
def Category.naming : List Category :=
  [unit, sprite, stage, blockDefinition, contextDefinition, triggerDefinition, trigger]

theorem Category.isCause_of_mem_opening (category : Category) :
    ∀ c ∈ category.opening, NameFault.isCause c = false := by
  have hall : category.opening.all (fun c => !NameFault.isCause c) = true := by
    cases category <;> decide
  intro c hc
  simpa using List.all_eq_true.mp hall c hc

theorem Line.exists_trimmed (line : Line) : ∃ a b, Text.isBlank a = true ∧ Text.isBlank b = true ∧
    line.text = a ++ line.trimmed ++ b :=
  Text.exists_trim line.text

/-- What a header says stands behind its opening words and white space. -/
theorem Opening.exists_behind_opening {opening : Text} {line : Line}
    (h : opening <+: line.trimmed) :
    ∃ space back, Text.isBlank space = true ∧
      line.trimmed = opening ++ (space ++ (headerText opening line ++ back)) := by
  obtain ⟨rest, hrest⟩ := h
  obtain ⟨ending, hending⟩ := Text.prefix_dropSuffix ['['] rest
  obtain ⟨a, b, ha, -, ht⟩ := Text.exists_trim (Text.dropSuffix ['['] rest)
  refine ⟨a, b ++ ending, ha, ?_⟩
  rw [headerText, ← hrest, Text.dropPrefix_append]
  conv_lhs => rw [← hending, ht]
  simp only [List.append_assoc]

namespace State

/-- A reader in this state cuts the second text out of the line, behind the first. -/
inductive CutsOut (s : State) (line : Line) : Text → Text → Prop
  | step {a : Text} (hc : Category.ofLine line.text = .stepCall) (ha : a.isBlank = true) :
    CutsOut s line a line.trimmed
  | context {a : Text} (hc : Category.ofLine line.text = .contextCall) (ha : a.isBlank = true) :
    CutsOut s line a (Opening.headerText [] line)
  | header {category : Category} {a space : Text} (hc : Category.ofLine line.text = category)
    (hn : category ∈ Category.naming) (ha : a.isBlank = true) (hspace : space.isBlank = true) :
    CutsOut s line (a ++ (category.opening ++ space)) (Opening.headerText category.opening line)
  | library {h : LibraryHeader} {a space : Text} (hc : Category.ofLine line.text = .library)
    (hs : LibraryHeader.ofText? line.trimmed = some h) (ha : a.isBlank = true)
    (hspace : space.isBlank = true) :
    CutsOut s line (a ++ (Category.library.opening ++ space)) h.name
  | closing {a space : Text} (hc : s.closedBy line.trimmed = true) (ha : a.isBlank = true)
    (hspace : space.isBlank = true) :
    CutsOut s line (a ++ (line.trimmed.takeWhile (· == ']') ++ space))
      (Text.trim (line.trimmed.dropWhile (· == ']')))

/-- The text begins at one of the brackets that a closing line starts with. -/
def Recurs (s : State) (line : Line) (text : Text) : Prop :=
  s.closedBy line.trimmed = true ∧
    ∃ j < (line.trimmed.takeWhile (· == ']')).length, text <+: line.trimmed.drop j

/-- The text is cut out of the line behind `front`, where its first character is, and it is found there
unless it begins at a bracket in front of it. -/
structure Locates (s : State) (line : Line) (front text : Text) : Prop where
  cut : s.CutsOut line front text
  stands : ∃ back, line.text = front ++ text ++ back
  head : ∀ c ∈ text.head?, Text.isSpace c = false
  found : Text.indexOf? text line.text = some front.length ↔ ¬ s.Recurs line text
  /-- What begins at a bracket has nothing in it to tell it from the brackets. -/
  recurring : s.Recurs line text → ∀ c ∈ text, c = ']' ∨ Text.isSpace c = true

variable {s : State} {line : Line} {error : NameError} {category : Category} {front text : Text}

/-! ## Headers and calls -/

/-- A line that closes nothing: the text has a character that does not stand in front of it. -/
theorem locates_of_apart (hl : s.Free line) (hcut : s.CutsOut line front text)
    (hstands : ∃ back, line.text = front ++ text ++ back)
    (hhead : ∀ c ∈ text.head?, Text.isSpace c = false) (hapart : ∃ c ∈ text, c ∉ front) :
    s.Locates line front text := by
  have hnot : ¬ s.Recurs line text := fun hr => by
    rw [Recurs, hl.unclosed] at hr
    cases hr.1
  obtain ⟨back, hback⟩ := hstands
  obtain ⟨c, hc, hfront⟩ := hapart
  refine ⟨hcut, ⟨back, hback⟩, hhead, iff_of_true ?_ hnot, fun hr => absurd hr hnot⟩
  rw [hback]
  exact Text.indexOf?_append hc hfront back

/-- A text that only white space stands in front of. -/
theorem locates_of_blank (hl : s.Free line) (hcut : s.CutsOut line front text)
    (hfront : front.isBlank = true) (hstands : ∃ back, line.text = front ++ text ++ back)
    (hhead : ∀ c ∈ text.head?, Text.isSpace c = false) (hblank : text.isBlank = false) :
    s.Locates line front text := by
  obtain ⟨c, hc, hs⟩ := Text.isBlank_eq_false_iff.mp hblank
  refine locates_of_apart hl hcut hstands hhead ⟨c, hc, fun hmem => ?_⟩
  rw [Text.isBlank_iff.mp hfront c hmem] at hs
  cases hs

/-- A text with a cause in it that white space and opening words stand in front of. -/
theorem locates_of_cause {a space : Text} (hl : s.Free line)
    (hcut : s.CutsOut line (a ++ (category.opening ++ space)) text) (ha : a.isBlank = true)
    (hspace : space.isBlank = true)
    (hstands : ∃ back, line.text = a ++ (category.opening ++ space) ++ text ++ back)
    (hhead : ∀ c ∈ text.head?, Text.isSpace c = false)
    (hcause : ∃ c ∈ text, NameFault.isCause c = true) :
    s.Locates line (a ++ (category.opening ++ space)) text := by
  obtain ⟨c, hc, hcause⟩ := hcause
  refine locates_of_apart hl hcut hstands hhead ⟨c, hc, fun hmem => ?_⟩
  have hno : NameFault.isCause c = false := by
    rcases List.mem_append.mp hmem with hmem | hmem
    · exact NameFault.isCause_of_isSpace (Text.isBlank_iff.mp ha c hmem)
    rcases List.mem_append.mp hmem with hmem | hmem
    · exact category.isCause_of_mem_opening c hmem
    · exact NameFault.isCause_of_isSpace (Text.isBlank_iff.mp hspace c hmem)
  rw [hno] at hcause
  cases hcause

theorem exists_locates_step (hl : s.Free line) (hc : Category.ofLine line.text = .stepCall)
    (hblank : line.trimmed.isBlank = false) : ∃ front, s.Locates line front line.trimmed := by
  obtain ⟨a, b, ha, -, ht⟩ := line.exists_trimmed
  exact ⟨a, locates_of_blank hl (.step hc ha) ha ⟨b, ht⟩ (Text.trimmed_trim line.text).head hblank⟩

theorem exists_locates_context (hl : s.Free line) (hc : Category.ofLine line.text = .contextCall)
    (hblank : Text.isBlank (Opening.headerText [] line) = false) :
    ∃ front, s.Locates line front (Opening.headerText [] line) := by
  obtain ⟨a, b, ha, -, ht⟩ := line.exists_trimmed
  obtain ⟨space, back, hspace, htrimmed⟩ :=
    Opening.exists_behind_opening (List.nil_prefix : [] <+: line.trimmed)
  have hfront : Text.isBlank (a ++ space) = true := Text.isBlank_append_of_blank ha hspace
  refine ⟨a ++ space, locates_of_blank hl (.context hc hfront) hfront ⟨back ++ b, ?_⟩
    (Text.trimmed_trim _).head hblank⟩
  rw [ht, htrimmed]
  simp only [List.nil_append, List.append_assoc]

theorem exists_locates_header (hl : s.Free line) (hc : Category.ofLine line.text = category)
    (hn : category ∈ Category.naming)
    (hcause : ∃ c ∈ Opening.headerText category.opening line, NameFault.isCause c = true) :
    ∃ front, s.Locates line front (Opening.headerText category.opening line) := by
  have hstep : ∀ category ∈ Category.naming, category ≠ .stepCall := by decide
  have hwords : ∀ category ∈ Category.naming, category.front = category.opening := by decide
  have hprefix := Category.front_of_accepts (Category.acceptsTrimmed_of_ofLine hc (hstep category hn))
  rw [hwords category hn] at hprefix
  obtain ⟨a, b, ha, -, ht⟩ := line.exists_trimmed
  obtain ⟨space, back, hspace, htrimmed⟩ := Opening.exists_behind_opening hprefix
  refine ⟨_, locates_of_cause hl (.header hc hn ha hspace) ha hspace ⟨back ++ b, ?_⟩
    (Text.trimmed_trim _).head hcause⟩
  conv_lhs => rw [ht, htrimmed]
  simp only [List.append_assoc]

/-- The name of a library that is found starts with no white space unless it is blank. -/
theorem exists_locates_library {header : LibraryHeader} (hl : s.Free line)
    (hc : Category.ofLine line.text = .library)
    (hs : LibraryHeader.ofText? line.trimmed = some header)
    (hblank : header.name.isBlank = false)
    (hcause : ∃ c ∈ header.name, NameFault.isCause c = true) :
    ∃ front, s.Locates line front header.name := by
  obtain ⟨a, b, ha, -, ht⟩ := line.exists_trimmed
  obtain ⟨hshape, hhead⟩ := LibraryHeader.shape_of_ofText? hs
  have hparts : ∃ space tail, Text.isBlank space = true ∧
      line.trimmed = Category.library.opening ++ (space ++ (header.name ++ tail)) := by
    generalize line.trimmed = t at hshape
    cases hshape with
    | mk hspace _ _ _ => exact ⟨_, _, hspace, rfl⟩
  obtain ⟨space, tail, hspace, htrimmed⟩ := hparts
  refine ⟨_, locates_of_cause hl (.library hc hs ha hspace) ha hspace ⟨tail ++ b, ?_⟩
    (hhead hblank) hcause⟩
  rw [ht, htrimmed]
  simp only [List.append_assoc]

theorem exists_locates_of_header (hl : s.Free line)
    (h : Opening.Misreads line (Category.ofLine line.text) error)
    (hblank : error.text.isBlank = false) : ∃ front, s.Locates line front error.text := by
  generalize hc : Category.ofLine line.text = category at h
  cases h with
  | simple hn h =>
    have htext := (SimpleName.within_of_read h).text
    rw [htext] at hblank ⊢
    refine exists_locates_header hl hc ?_ (SimpleName.exists_cause h hblank)
    rcases hn with rfl | rfl | rfl <;> decide
  | library hs h =>
    have htext := (SimpleName.within_of_read h).text
    rw [htext] at hblank ⊢
    exact exists_locates_library hl hc hs hblank (SimpleName.exists_cause h hblank)
  | definition hn h =>
    have htext := (Signature.within_of_read h).text
    rw [htext] at hblank ⊢
    refine exists_locates_header hl hc ?_ (Signature.exists_cause h hblank)
    rcases hn with rfl | rfl | rfl <;> decide
  | event h => exact exists_locates_header hl hc (by decide) (Number.exists_cause h)
  | contextCall h =>
    have htext := (Call.within_of_read h).text
    rw [htext] at hblank ⊢
    exact exists_locates_context hl hc hblank

/-! ## Closing lines -/

/-- The clause of a closing line begins at a bracket of the line if it does so in the trimmed line, which
it does not reach beyond. -/
theorem recurs_iff {space back : Text} (hc : s.closedBy line.trimmed = true)
    (htrimmed : line.trimmed =
      line.trimmed.takeWhile (· == ']') ++ (space ++ (text ++ back))) (b : Text) :
    s.Recurs line text ↔ ∃ j < (line.trimmed.takeWhile (· == ']')).length,
      text <+: (line.trimmed ++ b).drop j := by
  have hlength := congrArg List.length htrimmed
  simp only [List.length_append] at hlength
  have hdrop : ∀ j < (line.trimmed.takeWhile (· == ']')).length,
      (text <+: (line.trimmed ++ b).drop j ↔ text <+: line.trimmed.drop j) := by
    intro j hj
    rw [List.drop_append_of_le_length (by omega)]
    refine ⟨fun h => ?_, fun h => h.trans (List.prefix_append _ b)⟩
    refine List.prefix_of_prefix_length_le h (List.prefix_append _ b) ?_
    rw [List.length_drop]
    omega
  constructor
  · rintro ⟨-, j, hj, hearly⟩
    exact ⟨j, hj, (hdrop j hj).mpr hearly⟩
  · rintro ⟨j, hj, hearly⟩
    exact ⟨hc, j, hj, (hdrop j hj).mp hearly⟩

/-- Only brackets and white space stand in front of the clause of a closing line. -/
theorem bracket_or_space {a space t : Text} (ha : a.isBlank = true) (hspace : space.isBlank = true)
    {c : Char} (h : c ∈ a ++ (t.takeWhile (· == ']') ++ space)) :
    c = ']' ∨ Text.isSpace c = true := by
  rcases List.mem_append.mp h with h | h
  · exact Or.inr (Text.isBlank_iff.mp ha c h)
  rcases List.mem_append.mp h with h | h
  · exact Or.inl (beq_iff_eq.mp (List.mem_takeWhile_imp (p := (· == ']')) h))
  · exact Or.inr (Text.isBlank_iff.mp hspace c h)

theorem exists_locates_closing (hc : s.closedBy line.trimmed = true)
    (hblank : Text.isBlank (Text.trim (line.trimmed.dropWhile (· == ']'))) = false) :
    ∃ front, s.Locates line front (Text.trim (line.trimmed.dropWhile (· == ']'))) := by
  obtain ⟨a, b, ha, -, ht⟩ := line.exists_trimmed
  obtain ⟨space, back, hspace, -, hrest⟩ := Text.exists_trim (line.trimmed.dropWhile (· == ']'))
  have htrimmed : line.trimmed = line.trimmed.takeWhile (· == ']') ++
      (space ++ (Text.trim (line.trimmed.dropWhile (· == ']')) ++ back)) := by
    rw [← List.append_assoc space, ← hrest, List.takeWhile_append_dropWhile]
  have hhead := (Text.trimmed_trim (line.trimmed.dropWhile (· == ']'))).head
  have hcut : s.CutsOut line (a ++ (line.trimmed.takeWhile (· == ']') ++ space)) _ :=
    .closing hc ha hspace
  generalize Text.trim (line.trimmed.dropWhile (· == ']')) = text at *
  have hne : text ≠ [] := by
    rintro rfl
    cases hblank
  have hline : line.text = a ++ (line.trimmed.takeWhile (· == ']') ++
      (space ++ (text ++ (back ++ b)))) := by
    rw [ht]
    conv_lhs => rw [htrimmed]
    simp only [List.append_assoc]
  have hbehind : line.trimmed ++ b =
      line.trimmed.takeWhile (· == ']') ++ (space ++ (text ++ (back ++ b))) := by
    conv_lhs => rw [htrimmed]
    simp only [List.append_assoc]
  have hfound : Text.indexOf? text line.text =
      some (a ++ (line.trimmed.takeWhile (· == ']') ++ space)).length ↔ ¬ s.Recurs line text := by
    rw [recurs_iff hc htrimmed b, hbehind, hline]
    exact Text.indexOf?_behind_run ha hspace hne hhead
  have hstands : line.text =
      (a ++ (line.trimmed.takeWhile (· == ']') ++ space)) ++ text ++ (back ++ b) := by
    rw [hline]
    simp only [List.append_assoc]
  refine ⟨_, hcut, ⟨_, hstands⟩, hhead, hfound, fun hrecurs c hmem => ?_⟩
  by_contra hother
  have hfront : c ∉ a ++ (line.trimmed.takeWhile (· == ']') ++ space) := fun h =>
    hother (bracket_or_space ha hspace h)
  have hindex := Text.indexOf?_append hmem hfront (back ++ b)
  rw [← hstands] at hindex
  exact hfound.mp hindex hrecurs

/-- Every text that is refused as a name, but for the clauses of escapes, is found where it is cut out,
unless it begins at a bracket in front of it. -/
theorem exists_locates (h : s.Misreads line error) (hblank : error.text.isBlank = false)
    (hhosted : Category.ofLine line.text ≠ .hosted) : ∃ front, s.Locates line front error.text := by
  cases h with
  | step hl hc h =>
    have htext := (Call.within_of_read h).text
    rw [htext] at hblank ⊢
    exact exists_locates_step hl hc hblank
  | header hl h => exact exists_locates_of_header hl h hblank
  | hosted hl hc h => exact absurd hc hhosted
  | closing hc h =>
    have htext := (Returns.within_of_read h).text
    rw [htext] at hblank ⊢
    exact exists_locates_closing hc hblank

end State

/-! ## Sources -/

/-- The span of an error in a text starts at its character, where the text is found. -/
theorem ParseError.span_start_of_indexOf? {error : NameError} {line : Line} {front back : Text}
    (hstands : line.text = front ++ error.text ++ back) (hne : error.text ≠ [])
    (h : Text.indexOf? error.text line.text = some front.length) :
    (ParseError.name error line).span.start =
      line.start + Text.byteLength (front ++ error.text.take error.index) := by
  have htake : line.text.take front.length = front := by
    rw [hstands, List.append_assoc, List.take_left]
  rw [span_of_indexOf? h hne, htake]

namespace Document

/-- An error in a name speaks of a text that is cut out of its line: where the line starts for calls,
behind the opening words of a header, at the name of a library, and behind the brackets of a closing line.
But for the headers of escapes, the text is found there, and the error points at its character there,
unless the line is a closing line and the text begins at one of its brackets already; such a text is one
of brackets and white space. -/
theorem error_offset {strict : Bool} {source : Text} {error : NameError} {line : Line}
    (h : parse strict source = .error (.name error line)) (hblank : error.text.isBlank = false)
    (hhosted : Category.ofLine line.text ≠ .hosted) :
    ∃ before after s front, Line.ofSource source = before ++ line :: after ∧
      State.start.run strict before = .ok s ∧ s.Locates line front error.text ∧
      (¬ s.Recurs line error.text → (ParseError.name error line).span.start =
        line.start + Text.byteLength (front ++ error.text.take error.index)) := by
  rcases parse_eq_error h with ⟨before, place, after, s, hlines, hrun, hstep⟩ | ⟨s, -, hfin⟩
  · obtain ⟨hmisreads, rfl⟩ := State.misreads_of_step hstep
    obtain ⟨front, hlocates⟩ := State.exists_locates hmisreads hblank hhosted
    refine ⟨before, after, s, front, hlines, hrun, hlocates, fun hnot => ?_⟩
    obtain ⟨back, hstands⟩ := hlocates.stands
    refine ParseError.span_start_of_indexOf? hstands (fun hnil => ?_) (hlocates.found.mpr hnot)
    rw [hnil] at hblank
    cases hblank
  · obtain ⟨header, category, -, he⟩ := State.finish_eq_error_iff.mp hfin
    cases he

/-- The name of a library that goes on like the word in front of it. -/
theorem error_offset_library :
    ∃ error line s front, parse true "unit A [\n  library rary: hue: (1) language: (en) [".toList =
        .error (.name error line) ∧ error.text = "rary:".toList ∧
      State.CutsOut s line front error.text ∧ front.length = 10 ∧
      (ParseError.name error line).span.start = 23 := by
  have h : parse true "unit A [\n  library rary: hue: (1) language: (en) [".toList =
      .error (.name ⟨.delimiter, "rary:".toList, 4⟩
        ⟨2, 9, "  library rary: hue: (1) language: (en) [".toList⟩) := rfl
  obtain ⟨before, after, s, front, -, -, hlocates, -⟩ := error_offset h (by decide) (by decide)
  have hletter : ¬ ('r' = ']' ∨ Text.isSpace 'r' = true) := by decide
  have hindex := hlocates.found.mpr fun hrecurs =>
    hletter (hlocates.recurring hrecurs 'r' (by decide))
  have hten : Text.indexOf? "rary:".toList "  library rary: hue: (1) language: (en) [".toList =
      some 10 := by decide
  exact ⟨_, _, s, front, h, rfl, hlocates.cut, (Option.some.inj (hten.symm.trans hindex)).symm,
    by decide⟩

/-- A bracket behind the bracket that closes a definition is found at that bracket. -/
theorem error_offset_bracket :
    ∃ error line before after s front back,
      parse true "unit A [\nsprite B [\ndefine go [\n] ]\n]\n]".toList = .error (.name error line) ∧
      error.text = "]".toList ∧ Category.ofLine line.text ≠ .hosted ∧
      Line.ofSource "unit A [\nsprite B [\ndefine go [\n] ]\n]\n]".toList = before ++ line :: after ∧
      State.start.run true before = .ok s ∧ s.CutsOut line front error.text ∧
      line.text = front ++ error.text ++ back ∧
      Text.indexOf? error.text line.text ≠ some front.length ∧
      (ParseError.name error line).span.start = 32 ∧
      line.start + Text.byteLength (front ++ error.text.take error.index) = 34 := by
  have hcut : ∀ s : State, s.closedBy (Line.trimmed ⟨4, 32, "] ]".toList⟩) = true →
      s.CutsOut ⟨4, 32, "] ]".toList⟩ "] ".toList "]".toList := fun s hs =>
    .closing (a := []) hs rfl (show Text.isBlank [' '] = true from rfl)
  exact ⟨⟨.malformedReturns "go".toList, "]".toList, 0⟩, ⟨4, 32, "] ]".toList⟩,
    [⟨1, 0, "unit A [".toList⟩, ⟨2, 9, "sprite B [".toList⟩, ⟨3, 20, "define go [".toList⟩],
    [⟨5, 36, "]".toList⟩, ⟨6, 38, "]".toList⟩], _, "] ".toList, [], rfl, rfl, by decide, rfl, rfl,
    hcut _ rfl, by decide, by decide, by decide, by decide⟩

end Document
end BlockText
