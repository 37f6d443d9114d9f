/-
The headers that are told by their slots.

Whether a definition takes steps is decided twice: the category of its header is told from the line,
where a slot for steps is looked for between any two parentheses, and the signature is read character
by character.  A slot's name may hold a closing bracket for the reader of signatures and may not for
the test of the line.  `Opening.ofLine_definition_iff` says that this is the only difference: the
test sees the slots for steps whose names have no closing bracket, and sees nothing else.
-/
import BlockText.Proofs.Name.Canonical
import BlockText.Proofs.Print.Header

namespace BlockText

/-- A slot for steps that was read is shown unless a closing bracket stands in its name. -/
theorem Signature.isShown_iff {text : Text} {s : Signature} (h : read text = .ok s)
    {p : Parameter} (hp : p ∈ s.blockLists) : isShown p = true ↔ ']' ∉ p.name := by
  obtain ⟨literal, hs, -⟩ := read_eq_ok_iff.mp h
  have hinner := ((wellNamed_of_read h).blockLists p hp).name.inner
  rw [isShown, (hs.blockLists p hp).2, Bool.true_and, List.all_eq_true]
  constructor
  · intro hall hc
    exact absurd (hall _ hc) (by decide)
  · intro hbracket c hc
    obtain ⟨ho, hclose, hb, hcolon⟩ := hinner c hc
    have hne : c ≠ ']' := fun he => hbracket (he ▸ hc)
    rw [Category.isDelimiter, beq_eq_false_iff_ne.mpr ho, beq_eq_false_iff_ne.mpr hclose,
      beq_eq_false_iff_ne.mpr hb, beq_eq_false_iff_ne.mpr hcolon, beq_eq_false_iff_ne.mpr hne]
    rfl

namespace Opening

variable {category : Category} {line : Line}

/-- A header with the opening words of a context or a trigger is one where the test of the line sees
a slot for steps, and is the header of a block otherwise. -/
theorem ofLine_of_named (hc : category = .contextDefinition ∨ category = .triggerDefinition)
    (hnamed : Category.isNamed category.opening line.trimmed = true) :
    Category.ofLine line.text =
      if Category.hasBlockList line.trimmed then category else .blockDefinition := by
  obtain ⟨hopen, hend⟩ := Bool.and_eq_true_iff.mp hnamed
  obtain ⟨u, hu⟩ := List.isPrefixOf_iff_prefix.mp hopen
  have htrim : Text.Trimmed line.trimmed := Text.trimmed_trim line.text
  have hbare : Line.trimmed ⟨line.number, line.start, line.trimmed⟩ = line.trimmed :=
    Text.trim_of_trimmed htrim
  have hline := Category.ofLine_congr hbare
  rw [← hline]
  by_cases hlist : Category.hasBlockList line.trimmed = true
  · rw [if_pos hlist]
    have htest : (Category.isNamed category.opening line.trimmed &&
        Category.hasBlockList line.trimmed) = true := by rw [hnamed, hlist]; rfl
    rw [← hu] at htest htrim ⊢
    rcases hc with rfl | rfl
    all_goals exact Category.ofLine_eq_of_find? htrim rfl htest
  · rw [if_neg hlist]
    have hnone : ∀ opening, (Category.isNamed opening line.trimmed &&
        Category.hasBlockList line.trimmed) = false := by
      intro opening
      rw [eq_false_of_ne_true hlist, Bool.and_false]
    have hblock : Category.isNamed Category.blockDefinition.opening line.trimmed = true := by
      rw [Category.isNamed, hend, Bool.and_true, ← hu]
      rcases hc with rfl | rfl <;> rfl
    have hfront : Category.cascade.find? (·.acceptsTrimmed line.trimmed) =
        [.contextDefinition, .triggerDefinition, .blockDefinition, .trigger, .contextCall].find?
          (·.acceptsTrimmed line.trimmed) := by
      rw [← hu]
      rcases hc with rfl | rfl <;> rfl
    have hskip : Category.cascade.find? (·.acceptsTrimmed line.trimmed) =
        [.blockDefinition, .trigger, .contextCall].find? (·.acceptsTrimmed line.trimmed) := by
      rw [hfront, List.find?_cons_of_neg, List.find?_cons_of_neg]
      · rw [Bool.not_eq_true]
        exact hnone _
      · rw [Bool.not_eq_true]
        exact hnone _
    exact Category.ofLine_eq_of_find? htrim hskip hblock

/-- A header with the opening words of a context or a trigger definition, whose signature can be
read, has that category if and only if the signature has a slot for steps without a closing bracket
in its name.  So where no such name has one, the test and the reader agree; and a header that the test
does not take for its own is one of a block. -/
theorem ofLine_definition_iff {s : Signature}
    (hc : category = .contextDefinition ∨ category = .triggerDefinition)
    (hopen : category.opening ++ [' '] <+: line.trimmed) (hend : ['['] <:+ line.trimmed)
    (h : Signature.read (headerText category.opening line) = .ok s) :
    (Category.ofLine line.text = category ↔ ∃ p ∈ s.blockLists, ']' ∉ p.name) ∧
      ((∀ p ∈ s.blockLists, ']' ∉ p.name) →
        (Category.ofLine line.text = category ↔ s.blockLists ≠ [])) ∧
      (Category.ofLine line.text ≠ category → Category.ofLine line.text = .blockDefinition) := by
  have hnamed : Category.isNamed category.opening line.trimmed = true :=
    Bool.and_eq_true_iff.mpr
      ⟨List.isPrefixOf_iff_prefix.mpr hopen, List.isSuffixOf_iff_suffix.mpr hend⟩
  have hline := ofLine_of_named hc hnamed
  rw [hasBlockList_named hnamed h] at hline
  have hiff : Category.ofLine line.text = category ↔ ∃ p ∈ s.blockLists, ']' ∉ p.name := by
    have hany : s.blockLists.any Signature.isShown = true ↔ ∃ p ∈ s.blockLists, ']' ∉ p.name := by
      rw [List.any_eq_true]
      exact exists_congr fun p => and_congr_right fun hp => Signature.isShown_iff h hp
    rw [← hany, hline]
    split
    next hs => exact iff_of_true rfl hs
    next hs =>
      refine iff_of_false (fun he => ?_) hs
      rcases hc with rfl | rfl <;> cases he
  refine ⟨hiff, fun hall => hiff.trans ⟨?_, fun hne => ?_⟩, fun hother => ?_⟩
  · rintro ⟨p, hp, -⟩ hnil
    rw [hnil] at hp
    cases hp
  · obtain ⟨p, hp⟩ := List.exists_mem_of_ne_nil _ hne
    exact ⟨p, hp, hall p hp⟩
  · rw [hline] at hother ⊢
    split
    next hs => exact absurd (if_pos hs) hother
    · rfl

/-- The header of a context with a slot for a value and one for steps. -/
theorem ofLine_definition_iff_context :
    ∃ (line : Line) (s : Signature),
      line.text = " define context if (c : Boolean) do (then: BlockList ) [".toList ∧
      Category.contextDefinition.opening ++ [' '] <+: line.trimmed ∧ ['['] <:+ line.trimmed ∧
      Signature.read (headerText Category.contextDefinition.opening line) = .ok s ∧
      s.name = "if () do".toList ∧ s.blockLists = [⟨"then".toList, "BlockList".toList⟩] ∧
      (Category.ofLine line.text = .contextDefinition ↔ s.blockLists ≠ []) ∧
      Category.ofLine line.text = .contextDefinition := by
  have hopen : Category.contextDefinition.opening ++ [' '] <+: Line.trimmed
      ⟨1, 0, " define context if (c : Boolean) do (then: BlockList ) [".toList⟩ := by decide
  have hend : ['['] <:+ Line.trimmed
      ⟨1, 0, " define context if (c : Boolean) do (then: BlockList ) [".toList⟩ := by decide
  have h : Signature.read (headerText Category.contextDefinition.opening
      ⟨1, 0, " define context if (c : Boolean) do (then: BlockList ) [".toList⟩) =
      .ok ⟨"if () do".toList, [⟨"c".toList, "Boolean".toList⟩],
        [⟨"then".toList, "BlockList".toList⟩]⟩ := rfl
  have hiff := ofLine_definition_iff (Or.inl rfl) hopen hend h
  exact ⟨_, _, rfl, hopen, hend, h, rfl, rfl, hiff.2.1 (by decide), hiff.1.mpr (by decide)⟩

/-- The reader finds a slot for steps with a closing bracket in its name, and the test of the line does
not. -/
theorem ofLine_definition_bracket :
    ∃ (line : Line) (s : Signature), line.text = "define context run (a]b:BlockList) [".toList ∧
      Category.contextDefinition.opening ++ [' '] <+: line.trimmed ∧ ['['] <:+ line.trimmed ∧
      Signature.read (headerText Category.contextDefinition.opening line) = .ok s ∧
      s.blockLists = [⟨"a]b".toList, "BlockList".toList⟩] ∧
      Category.ofLine line.text = .blockDefinition ∧
      ¬ (Category.ofLine line.text = .contextDefinition ↔ s.blockLists ≠ []) := by
  have hline : Category.ofLine "define context run (a]b:BlockList) [".toList = .blockDefinition := by
    decide
  have hread : Signature.read (headerText Category.contextDefinition.opening
      ⟨1, 0, "define context run (a]b:BlockList) [".toList⟩) =
      .ok ⟨"run".toList, [], [⟨"a]b".toList, "BlockList".toList⟩]⟩ := rfl
  refine ⟨_, _, rfl, by decide, by decide, hread, rfl, hline, fun hiff => ?_⟩
  have hcontext := hiff.mpr (List.cons_ne_nil _ _)
  rw [hline] at hcontext
  cases hcontext

end Opening
end BlockText
