/-
Where the clause of an escape is found again.

The clause of an escape is whatever stands between the word of its header and its mark, so it may consist of
the letters of the word.  If such a clause begins in the word already, the search for it in the line stops
there, and the error points at the word.  It does so where it goes on like the end of the word with the white
space behind it, over and over (`Hosted.Echoes`), and then there is nothing in it but letters of the word and
white space.  Any other clause is found where it stands (`Hosted.clause_span`).
-/
import Mathlib.Data.List.Infix
import BlockText.Proofs.Reading.Position
import BlockText.Proofs.Reading.Verbatim

namespace BlockText

namespace Text

/-! ## Texts that repeat -/

/-- A text that begins some characters before itself repeats these characters. -/
theorem prefix_append_self_iff {w t : Text} (hw : w ≠ []) :
    t <+: w ++ t ↔ ∃ n, t <+: (List.replicate n w).flatten := by
  constructor
  · intro h
    induction hlength : t.length using Nat.strong_induction_on generalizing t with
    | _ k ih =>
      rcases Nat.le_total t.length w.length with hle | hle
      · refine ⟨1, ?_⟩
        rw [List.replicate_one, List.flatten_singleton]
        exact List.prefix_of_prefix_length_le h (List.prefix_append w t) hle
      · obtain ⟨rest, rfl⟩ := List.prefix_of_prefix_length_le (List.prefix_append w t) h hle
        rw [List.prefix_append_right_inj] at h
        have hpos := List.length_pos_of_ne_nil hw
        rw [List.length_append] at hlength
        obtain ⟨n, hn⟩ := ih rest.length (by omega) h rfl
        refine ⟨n + 1, ?_⟩
        rw [List.replicate_succ, List.flatten_cons, List.prefix_append_right_inj]
        exact hn
  · rintro ⟨n, hn⟩
    have hmore : w ++ t <+: (List.replicate (n + 1) w).flatten := by
      rw [List.replicate_succ, List.flatten_cons, List.prefix_append_right_inj]
      exact hn
    have ht : t <+: (List.replicate (n + 1) w).flatten := by
      rw [List.replicate_succ', List.flatten_append]
      exact hn.trans (List.prefix_append _ _)
    refine List.prefix_of_prefix_length_le ht hmore ?_
    rw [List.length_append]
    omega

theorem byteLength_le_of_prefix {a b : Text} (h : a <+: b) : a.byteLength ≤ b.byteLength := by
  obtain ⟨c, rfl⟩ := h
  rw [byteLength_append]
  exact Nat.le_add_right _ _

end Text

/-- A trimmed text that the reader refuses is no clause. -/
theorem Returns.not_says_of_ofText? {text : Text} (ht : text.trim = text) (h : ofText? text = none)
    (r : Returns) : ¬ Says text r := by
  intro hr
  rw [← ht, ← ofText?_eq_some_iff, h] at hr
  cases hr

/-- One span lies inside the other. -/
def Span.Contains (outer inner : Span) : Prop :=
  outer.start ≤ inner.start ∧ inner.stop ≤ outer.stop

namespace Hosted

/-! ## Headers as they are spelled -/

/-- The header of an escape as it is spelled: its word, its clause and its mark, with white space around
them. -/
structure Spelling (header : Line) where
  indent : Text
  space : Text
  clause : Text
  gap : Text
  rest : Text
  indent_blank : indent.isBlank = true
  space_blank : space.isBlank = true
  clause_trimmed : clause.Trimmed
  gap_blank : gap.isBlank = true
  rest_blank : rest.isBlank = true
  text : header.text =
    indent ++ ("hosted".toList ++ (space ++ (clause ++ (gap ++ ("[@".toList ++ rest)))))

namespace Spelling

variable {header : Line} (p : Spelling header)

/-- What stands in front of the clause. -/
def front : Text := p.indent ++ ("hosted".toList ++ p.space)

/-- The bytes of the word. -/
def word : Span :=
  ⟨header.start + p.indent.byteLength,
    header.start + p.indent.byteLength + Text.byteLength "hosted".toList⟩

/-- The bytes of the clause. -/
def place : Span :=
  ⟨header.start + p.front.byteLength, header.start + p.front.byteLength + p.clause.byteLength⟩

theorem trimmed_eq : header.trimmed =
    "hosted".toList ++ (p.space ++ (p.clause ++ p.gap)) ++ "[@".toList := by
  have htrim : Text.Trimmed ("hosted".toList ++ (p.space ++ (p.clause ++ p.gap)) ++ "[@".toList) :=
    Text.trimmed_append (by simp) (by simp) (by simp; decide) (by simp; decide)
  have htext : header.text =
      p.indent ++ ("hosted".toList ++ (p.space ++ (p.clause ++ p.gap)) ++ "[@".toList) ++ p.rest := by
    rw [p.text]
    simp only [List.append_assoc]
  rw [Line.trimmed, htext, Text.trim_pad p.indent_blank htrim p.rest_blank]

theorem text_eq : header.text = p.front ++ p.clause ++ (p.gap ++ ("[@".toList ++ p.rest)) := by
  rw [p.text, front]
  simp only [List.append_assoc]

theorem clause_infix : p.clause <:+: header.text :=
  ⟨p.front, p.gap ++ ("[@".toList ++ p.rest), p.text_eq.symm⟩

theorem trim_between : Text.trim (p.space ++ (p.clause ++ p.gap)) = p.clause := by
  rw [← List.append_assoc]
  exact Text.trim_pad p.space_blank p.clause_trimmed p.gap_blank

/-- In a source that has the line, the two spans cut out the word and the clause. -/
theorem cuts {source : Text} (h : header ∈ Line.ofSource source) :
    p.word.Cuts source "hosted".toList ∧ p.place.Cuts source p.clause := by
  have hline := Line.cuts_of_mem h
  refine ⟨hline.inside (b := p.space ++ (p.clause ++ (p.gap ++ ("[@".toList ++ p.rest)))) ?_,
    hline.inside p.text_eq⟩
  rw [p.text]
  simp only [List.append_assoc]

end Spelling

theorem exists_spelling {header : Line} (h : Category.ofLine header.text = .hosted) :
    Nonempty (Spelling header) := by
  obtain ⟨between, hbetween⟩ := exists_between h
  obtain ⟨a, b, ha, hb, htext⟩ := Text.exists_trim header.text
  obtain ⟨space, gap, hspace, hgap, hsplit⟩ := Text.exists_trim between
  refine ⟨⟨a, space, between.trim, gap, b, ha, hspace, Text.trimmed_trim between, hgap, hb, ?_⟩⟩
  rw [Line.trimmed] at hbetween
  conv_lhs => rw [htext, hbetween, hsplit]
  simp only [List.append_assoc]

/-! ## Clauses that begin in the word -/

/-- The clause goes on like the word from one of its letters on, with the white space behind it, over and
over. -/
def Echoes (space clause : Text) : Prop :=
  ∃ j < "hosted".toList.length, ∃ n,
    clause <+: (List.replicate n ("hosted".toList.drop j ++ space)).flatten

theorem echoes_iff {space clause : Text} : Echoes space clause ↔
    ∃ j < "hosted".toList.length, clause <+: "hosted".toList.drop j ++ space ++ clause := by
  refine exists_congr fun j => and_congr_right fun hj => (Text.prefix_append_self_iff ?_).symm
  apply List.append_ne_nil_of_left_ne_nil
  rw [Ne, List.drop_eq_nil_iff]
  omega

instance (space clause : Text) : Decidable (Echoes space clause) :=
  decidable_of_iff _ echoes_iff.symm

theorem Echoes.letter_or_space {space clause : Text} (h : Echoes space clause)
    (hspace : space.isBlank = true) : ∀ c ∈ clause, c ∈ "hosted".toList ∨ Text.isSpace c = true := by
  obtain ⟨j, -, n, hn⟩ := h
  intro c hc
  obtain ⟨w, hw, hmem⟩ := List.mem_flatten.mp (hn.subset hc)
  rw [List.eq_of_mem_replicate hw, List.mem_append] at hmem
  rcases hmem with hmem | hmem
  · exact Or.inl (List.mem_of_mem_drop hmem)
  · exact Or.inr (Text.isBlank_iff.mp hspace c hmem)

/-- A clause begins in the word exactly if it echoes the word. -/
theorem begins_iff {space clause : Text} (back : Text) :
    (∃ j < "hosted".toList.length,
      clause <+: ("hosted".toList ++ (space ++ (clause ++ back))).drop j) ↔ Echoes space clause := by
  rw [echoes_iff]
  refine exists_congr fun j => and_congr_right fun hj => ?_
  have hsplit : ("hosted".toList ++ (space ++ (clause ++ back))).drop j =
      "hosted".toList.drop j ++ space ++ clause ++ back := by
    rw [List.drop_append_of_le_length (Nat.le_of_lt hj)]
    simp only [List.append_assoc]
  rw [hsplit]
  constructor
  · intro h
    refine List.prefix_of_prefix_length_le h (List.prefix_append _ back) ?_
    rw [List.length_append]
    omega
  · exact fun h => h.trans (List.prefix_append _ back)

namespace Spelling

variable {header : Line} (p : Spelling header)

/-- A clause that does not begin in the word is found where it stands. -/
theorem indexOf?_clause (hne : p.clause ≠ []) (h : ¬ Echoes p.space p.clause) :
    Text.indexOf? p.clause header.text = some p.front.length := by
  rw [p.text]
  apply (Text.indexOf?_behind_run p.indent_blank p.space_blank hne p.clause_trimmed.head).mpr
  rw [begins_iff]
  exact h

/-- A clause that begins in the word is found at a letter of it. -/
theorem exists_indexOf?_echo (hne : p.clause ≠ []) (h : Echoes p.space p.clause) :
    ∃ i < "hosted".toList.length,
      Text.indexOf? p.clause header.text = some (p.indent.length + i) := by
  obtain ⟨j, hj, hbegins⟩ := (begins_iff (p.gap ++ ("[@".toList ++ p.rest))).mpr h
  have hdrop : ∀ i, header.text.drop (p.indent.length + i) = ("hosted".toList ++
      (p.space ++ (p.clause ++ (p.gap ++ ("[@".toList ++ p.rest))))).drop i := by
    intro i
    rw [← List.drop_drop, p.text, List.drop_left]
  obtain ⟨n, hn⟩ := Text.exists_indexOf? p.clause_infix
  obtain ⟨-, hprefix, hfirst⟩ := Text.indexOf?_eq_some_iff.mp hn
  have hlate : p.indent.length ≤ n := by
    by_contra hlt
    rw [Nat.not_le] at hlt
    rw [p.text] at hprefix
    exact Text.not_prefix_drop_of_blank p.indent_blank hne p.clause_trimmed.head hlt _ hprefix
  have hearly : n ≤ p.indent.length + j := by
    by_contra hgt
    rw [Nat.not_le] at hgt
    apply hfirst _ hgt
    rw [hdrop]
    exact hbegins
  exact ⟨n - p.indent.length, by omega, by rw [hn, Nat.add_sub_of_le hlate]⟩

/-! ## Errors of clauses -/

/-- A clause that is refused is refused at its first character. -/
theorem read_refused (hne : p.clause ≠ []) (hnot : ∀ r, ¬ Returns.Says p.clause r)
    (block : Text) (cursor : Cursor) :
    read block header cursor =
      (.error (.name ⟨.malformedReturns block, p.clause, 0⟩ header), cursor) := by
  have hcloses : ∀ returns, ¬ Returns.Closes (Text.trim (p.space ++ (p.clause ++ p.gap))) returns := by
    rw [p.trim_between]
    exact not_closes_of_ne_nil hne hnot
  have hread : read block header cursor = (.error (.name ⟨.malformedReturns block,
      Text.trim (p.space ++ (p.clause ++ p.gap)), 0⟩ header), cursor) :=
    read_of_not_closes p.trimmed_eq hcloses cursor
  rw [p.trim_between] at hread
  exact hread

variable (fault : NameFault)

/-- A clause that does not begin in the word is pointed at. -/
theorem span_clause (hne : p.clause ≠ []) (h : ¬ Echoes p.space p.clause) :
    (ParseError.name ⟨fault, p.clause, 0⟩ header).span.start = p.place.start ∧
      p.place.Contains (ParseError.name ⟨fault, p.clause, 0⟩ header).span := by
  have htake : header.text.take p.front.length = p.front := by
    rw [p.text_eq, List.append_assoc, List.take_left]
  have hone := Text.byteLength_le_of_prefix (List.take_prefix 1 p.clause)
  rw [ParseError.span_of_indexOf? (p.indexOf?_clause hne h) hne, htake]
  simp only [List.take_zero, List.append_nil, List.drop_zero, Span.Contains, place, true_and,
    Nat.le_refl]
  omega

/-- For a clause that begins in the word, a letter of the word is pointed at. -/
theorem span_echo (hne : p.clause ≠ []) (h : Echoes p.space p.clause) :
    p.word.Contains (ParseError.name ⟨fault, p.clause, 0⟩ header).span := by
  obtain ⟨i, hi, hindex⟩ := p.exists_indexOf?_echo hne h
  have htake : header.text.take (p.indent.length + i) = p.indent ++ "hosted".toList.take i := by
    rw [p.text, List.take_length_add_append, List.take_append_of_le_length (Nat.le_of_lt hi)]
  -- the character is the letter of the word that the clause begins at
  have hletter : p.clause.take 1 <+: ("hosted".toList.drop i).take 1 := by
    have hprefix := (Text.indexOf?_eq_some_iff.mp hindex).2.1
    rw [p.text, List.drop_length_add_append, List.drop_append_of_le_length (Nat.le_of_lt hi)]
      at hprefix
    have hone : 1 ≤ ("hosted".toList.drop i).length := by
      rw [List.length_drop]
      omega
    have htaken := hprefix.take 1
    rwa [List.take_append_of_le_length hone] at htaken
  have hword : "hosted".toList.take i ++ p.clause.take 1 <+: "hosted".toList := by
    conv_rhs => rw [← List.take_append_drop i "hosted".toList]
    rw [List.prefix_append_right_inj]
    exact hletter.trans (List.take_prefix 1 _)
  have hbytes := Text.byteLength_le_of_prefix hword
  rw [Text.byteLength_append] at hbytes
  rw [ParseError.span_of_indexOf? hindex hne, htake]
  simp only [List.take_zero, List.append_nil, List.drop_zero, Span.Contains, word,
    Text.byteLength_append]
  omega

/-- The error points at a character. -/
theorem start_lt_stop (hne : p.clause ≠ []) :
    (ParseError.name ⟨fault, p.clause, 0⟩ header).span.start <
      (ParseError.name ⟨fault, p.clause, 0⟩ header).span.stop := by
  obtain ⟨n, hn⟩ := Text.exists_indexOf? p.clause_infix
  rw [ParseError.span_of_indexOf? hn hne]
  obtain ⟨c, rest, hclause⟩ := List.exists_cons_of_ne_nil hne
  have hwidth : 0 < Text.byteLength (p.clause.take 1) := by
    rw [hclause]
    exact c.utf8Size_pos
  exact Nat.lt_add_of_pos_right hwidth

theorem word_stop_le : p.word.stop ≤ p.place.start := by
  simp only [word, place, front, Text.byteLength_append]
  omega

end Spelling

/-- The error of a clause that is none of returns points into the clause exactly if the clause does not
echo the word of the header, and then it points at where the clause starts.  If it does, the error points at
a letter of the word, and the clause has only such letters and white space in it. -/
theorem clause_span {header : Line} (h : Category.ofLine header.text = .hosted) :
    Nonempty (Spelling header) ∧ ∀ p : Spelling header,
      (∀ source, header ∈ Line.ofSource source →
        p.word.Cuts source "hosted".toList ∧ p.place.Cuts source p.clause) ∧
      (p.clause ≠ [] → (∀ r, ¬ Returns.Says p.clause r) → ∀ block cursor,
        ∃ e, read block header cursor = (.error e, cursor) ∧
          (p.place.Contains e.span ↔ ¬ Echoes p.space p.clause) ∧
          (¬ Echoes p.space p.clause → e.span.start = p.place.start) ∧
          (Echoes p.space p.clause → p.word.Contains e.span ∧
            ∀ c ∈ p.clause, c ∈ "hosted".toList ∨ Text.isSpace c = true)) := by
  refine ⟨exists_spelling h, fun p => ⟨fun source hm => p.cuts hm, fun hne hnot block cursor => ?_⟩⟩
  refine ⟨_, p.read_refused hne hnot block cursor, ⟨fun hcontains hecho => ?_, fun hapart => ?_⟩,
    fun hapart => (p.span_clause _ hne hapart).1, fun hecho => ?_⟩
  · -- the character that is pointed at would end before the clause starts
    have hword := (p.span_echo (.malformedReturns block) hne hecho).2
    have hlt := p.start_lt_stop (.malformedReturns block) hne
    have hstop := p.word_stop_le
    have hplace := hcontains.1
    omega
  · exact (p.span_clause _ hne hapart).2
  · exact ⟨p.span_echo _ hne hecho, hecho.letter_or_space p.space_blank⟩

/-- A clause of letters of the word, which does not go on like the word. -/
theorem clause_span_hosts :
    ∃ (p : Spelling ⟨1, 0, "  hosted hosts [@".toList⟩) (e : ParseError),
      read "go".toList ⟨1, 0, "  hosted hosts [@".toList⟩ ⟨[]⟩ = (.error e, ⟨[]⟩) ∧
      p.clause = "hosts".toList ∧ e.span.start = 9 ∧ p.place.Contains e.span := by
  have hnot := @Returns.not_says_of_ofText? "hosts".toList (by decide) rfl
  have h := (@clause_span ⟨1, 0, "  hosted hosts [@".toList⟩ rfl).2
    ⟨"  ".toList, " ".toList, "hosts".toList, " ".toList, [], by decide, by decide,
      ⟨Text.forall_mem_some (by decide), Text.forall_mem_some (by decide)⟩, by decide, by decide, rfl⟩
  obtain ⟨e, hread, hplace, hstart, -⟩ := h.2 (by decide) hnot "go".toList ⟨[]⟩
  have hecho : ¬ Echoes " ".toList "hosts".toList := by decide
  exact ⟨_, e, hread, rfl, hstart hecho, hplace.mpr hecho⟩

/-- A clause that is a letter of the word is found in the word. -/
theorem clause_span_letter :
    ∃ (header : Line) (p : Spelling header) (cursor : Cursor) (e : ParseError),
      Document.parse true "unit A [\nsprite B [\ndefine go [\nhosted o [@\n@]\n]\n]\n]".toList =
        .error e ∧
      Category.ofLine header.text = .hosted ∧ p.clause = "o".toList ∧
      (∀ r, ¬ Returns.Says p.clause r) ∧ read "go".toList header cursor = (.error e, cursor) ∧
      e.span = ⟨33, 34⟩ ∧ p.place = ⟨39, 40⟩ ∧ ¬ p.place.Contains e.span := by
  have hnot := @Returns.not_says_of_ofText? "o".toList (by decide) rfl
  exact ⟨⟨4, 32, "hosted o [@".toList⟩,
    ⟨[], " ".toList, "o".toList, " ".toList, [], by decide, by decide,
      ⟨Text.forall_mem_some (by decide), Text.forall_mem_some (by decide)⟩, by decide, by decide, rfl⟩,
    ⟨[]⟩, .name ⟨.malformedReturns "go".toList, "o".toList, 0⟩ ⟨4, 32, "hosted o [@".toList⟩, rfl, rfl,
    rfl, hnot, rfl, by decide, by decide, fun h => absurd h.1 (by decide)⟩

end Hosted
end BlockText
