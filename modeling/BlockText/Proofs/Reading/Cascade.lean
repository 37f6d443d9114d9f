/-
The order of the tests of a line.

The categories are tested one after another, so a line that two tests accept goes to the one that is asked
first.  No line starts with the opening words of two headers, so but for two exceptions no line is accepted
twice (`Category.eq_of_accepts`): the headers of contexts and triggers are headers of blocks too, and every
header that ends in a bracket is a call with contents.  `Category.Precedes` are these exceptions, and an order
of the tests that keeps to them gives every line the same category as the cascade does
(`Category.accepts_partition`).
-/
import BlockText.Proofs.Reading.CallLine

namespace BlockText

/-! ## The first element with a property -/

section first

variable {α : Type} {before : α → α → Prop} {p : α → Bool} {xs ys : List α} {a b : α}

/-- In an ordered list the first element with a property comes before the others with it. -/
theorem eq_or_not_before_of_find? (hxs : xs.Pairwise fun x y => ¬ before y x)
    (ha : xs.find? p = some a) (hb : b ∈ xs) (hp : p b = true) : b = a ∨ ¬ before b a := by
  obtain ⟨-, front, back, rfl, hfront⟩ := List.find?_eq_some_iff_append.mp ha
  rcases List.mem_append.mp hb with hb | hb
  · have hnot := hfront b hb
    rw [hp] at hnot
    cases hnot
  rcases List.mem_cons.mp hb with rfl | hb
  · exact Or.inl rfl
  · exact Or.inr ((List.pairwise_cons.mp (List.pairwise_append.mp hxs).2.1).1 b hb)

/-- Where the order decides between any two elements with a property, all lists in this order have the
same first one. -/
theorem find?_eq_of_perm (hperm : ys.Perm xs) (hxs : xs.Pairwise fun x y => ¬ before y x)
    (hys : ys.Pairwise fun x y => ¬ before y x)
    (h : ∀ x ∈ xs, ∀ y ∈ xs, p x = true → p y = true → x = y ∨ before x y ∨ before y x) :
    ys.find? p = xs.find? p := by
  cases ha : xs.find? p with
  | none =>
    rw [List.find?_eq_none] at ha ⊢
    exact fun x hx => ha x (hperm.mem_iff.mp hx)
  | some a =>
    have hmem : a ∈ xs := List.mem_of_find?_eq_some ha
    have hpa : p a = true := List.find?_some ha
    obtain ⟨b, hb⟩ := Option.isSome_iff_exists.mp
      (List.find?_isSome.mpr ⟨a, hperm.mem_iff.mpr hmem, hpa⟩)
    have hmem' : b ∈ xs := hperm.mem_iff.mp (List.mem_of_find?_eq_some hb)
    have hpb : p b = true := List.find?_some hb
    rw [hb]
    rcases h a hmem b hmem' hpa hpb with rfl | hab | hba
    · rfl
    · rcases eq_or_not_before_of_find? hys hb (hperm.mem_iff.mpr hmem) hpa with rfl | hnot
      · rfl
      · exact absurd hab hnot
    · rcases eq_or_not_before_of_find? hxs ha hmem' hpb with rfl | hnot
      · rfl
      · exact absurd hba hnot

end first

namespace Category

/-! ## What the tests look for -/

variable {category c d : Category} {t line : Text}

theorem prefix_of_isNamed {opening : Text} (h : isNamed opening t = true) :
    opening ++ [' '] <+: t ∧ endsWith ['['] t = true := by
  rwa [isNamed, Bool.and_eq_true, List.isPrefixOf_iff_prefix] at h

theorem prefix_of_isKeyed {keyword : Keyword} {bracket : Text}
    (h : isKeyed keyword bracket t = true) : keyword.text <+: t ∧ endsWith bracket t = true := by
  rw [isKeyed, Bool.and_eq_true, Keyword.heads_iff] at h
  obtain ⟨⟨rest, rfl, -⟩, hend⟩ := h
  exact ⟨List.prefix_append _ rest, hend⟩

/-- What the lines that the test accepts start with. -/
def front : Category → Text
  | comment => ['/']
  | category => category.opening

theorem front_of_accepts (h : category.acceptsTrimmed t = true) : category.front <+: t := by
  have hnamed : ∀ {opening : Text}, isNamed opening t = true → opening <+: t := fun h =>
    (List.prefix_append _ [' ']).trans (prefix_of_isNamed h).1
  cases category with
  | blank | contextCall | stepCall => exact List.nil_prefix
  | comment =>
    rw [acceptsTrimmed, Bool.or_eq_true, List.isPrefixOf_iff_prefix, List.isPrefixOf_iff_prefix] at h
    rcases h with h | h <;> exact (List.prefix_append ['/'] [_]).trans h
  | unit | library | sprite | blockDefinition | trigger => exact hnamed h
  | contextDefinition | triggerDefinition => exact hnamed (Bool.and_eq_true_iff.mp h).1
  | stage | costumes | sounds | hosted => exact (prefix_of_isKeyed h).1

/-! ## Lines that two tests accept -/

/-- The categories of which no line has two. -/
def separate : List Category :=
  [blank, comment, unit, library, sprite, stage, costumes, sounds, hosted, blockDefinition, trigger]

theorem eq_of_accepts (hc : c ∈ separate) (hd : d ∈ separate) (hac : c.accepts line = true)
    (had : d.accepts line = true) : c = d := by
  have hapart : ∀ c ∈ separate, ∀ d ∈ separate, c.front <+: d.front → c = blank ∨ c = d := by decide
  have hempty : ∀ c ∈ separate, c.front = [] → c = blank := by decide
  -- nothing stands in front of a blank line, and no other category is content with that
  have hblank : ∀ {c}, c ∈ separate → c.accepts line = true → blank.accepts line = true → c = blank := by
    intro c hc hac hb
    have hprefix := front_of_accepts hac
    rw [List.isEmpty_iff.mp hb, List.prefix_nil] at hprefix
    exact hempty c hc hprefix
  rcases List.prefix_or_prefix_of_prefix (front_of_accepts hac) (front_of_accepts had) with h | h
  · rcases hapart c hc d hd h with rfl | rfl
    · exact (hblank hd had hac).symm
    · rfl
  · rcases hapart d hd c hc h with rfl | rfl
    · exact hblank hc hac had
    · rfl

/-- The headers of contexts and triggers are headers of blocks. -/
theorem accepts_blockDefinition (hc : c = contextDefinition ∨ c = triggerDefinition)
    (h : c.accepts line = true) : blockDefinition.accepts line = true := by
  have hnamed : isNamed c.opening line.trim = true := by
    rcases hc with rfl | rfl <;> exact (Bool.and_eq_true_iff.mp h).1
  obtain ⟨hopen, hend⟩ := prefix_of_isNamed hnamed
  have hwords : blockDefinition.opening ++ [' '] <+: c.opening ++ [' '] := by
    rcases hc with rfl | rfl <;> decide
  exact Bool.and_eq_true_iff.mpr ⟨List.isPrefixOf_iff_prefix.mpr (hwords.trans hopen), hend⟩

theorem not_accepts_context_and_trigger :
    ¬ (contextDefinition.accepts line = true ∧ triggerDefinition.accepts line = true) := by
  rintro ⟨hc, ht⟩
  have hwords : ¬ contextDefinition.front <+: triggerDefinition.front ∧
      ¬ triggerDefinition.front <+: contextDefinition.front := by decide
  rcases List.prefix_or_prefix_of_prefix (front_of_accepts hc) (front_of_accepts ht) with h | h
  · exact hwords.1 h
  · exact hwords.2 h

/-- The headers that end in a bracket of their own. -/
def bracketed : List Category :=
  [unit, library, sprite, stage, costumes, sounds, blockDefinition, trigger]

theorem accepts_contextCall (hc : c ∈ bracketed) (h : c.accepts line = true) :
    contextCall.accepts line = true := by
  show endsWith ['['] line.trim = true
  cases c with
  | unit | library | sprite | blockDefinition | trigger => exact (prefix_of_isNamed h).2
  | stage | costumes | sounds => exact (prefix_of_isKeyed h).2
  | blank | comment | hosted | contextDefinition | triggerDefinition | contextCall | stepCall =>
    exact absurd hc (by decide)

theorem not_accepts_contextCall (hc : c = hosted ∨ c = blank) (h : c.accepts line = true) :
    contextCall.accepts line = false := by
  rw [Bool.eq_false_iff]
  intro hcall
  have hcall : ['['] <:+ line.trim := List.isSuffixOf_iff_suffix.mp hcall
  rcases hc with rfl | rfl
  · have hend : ['[', '@'] <:+ line.trim :=
      List.isSuffixOf_iff_suffix.mp (prefix_of_isKeyed h).2
    rcases List.suffix_or_suffix_of_suffix hcall hend with h | h <;> revert h <;> decide
  · rw [List.isEmpty_iff.mp h, List.suffix_nil] at hcall
    cases hcall

/-! ## The order of the tests -/

/-- The first category has to be tested before the second. -/
def Precedes (c d : Category) : Prop :=
  (c = contextDefinition ∨ c = triggerDefinition) ∧ d = blockDefinition ∨
    c ≠ contextCall ∧ d = contextCall

instance (c d : Category) : Decidable (Precedes c d) := inferInstanceAs (Decidable (_ ∨ _))

theorem cascade_ordered : cascade.Pairwise fun c d => ¬ Precedes d c := by decide

/-- The category whose test is the more general one. -/
def general : Category → Category
  | contextDefinition | triggerDefinition => blockDefinition
  | category => category

/-- Two tests accept a line only where one of them has to come first. -/
theorem eq_or_precedes (hc : c ∈ cascade) (hd : d ∈ cascade) (hac : c.accepts line = true)
    (had : d.accepts line = true) : c = d ∨ Precedes c d ∨ Precedes d c := by
  by_cases hcall : c = contextCall ∨ d = contextCall
  · have hall : ∀ c ∈ cascade, ∀ d ∈ cascade, c = contextCall ∨ d = contextCall →
        c = d ∨ Precedes c d ∨ Precedes d c := by decide
    exact hall c hc d hd hcall
  have hgeneral : ∀ {c : Category}, c.accepts line = true → c.general.accepts line = true := by
    intro c h
    cases c with
    | contextDefinition => exact accepts_blockDefinition (Or.inl rfl) h
    | triggerDefinition => exact accepts_blockDefinition (Or.inr rfl) h
    | _ => exact h
  have hseparate : ∀ c ∈ cascade, c ≠ contextCall → c.general ∈ separate := by decide
  rw [not_or] at hcall
  have heq := eq_of_accepts (hseparate c hc hcall.1) (hseparate d hd hcall.2) (hgeneral hac)
    (hgeneral had)
  have hpair : ∀ c ∈ cascade, ∀ d ∈ cascade, c.general = d.general →
      (c = d ∨ Precedes c d ∨ Precedes d c) ∨ c = contextDefinition ∧ d = triggerDefinition ∨
        c = triggerDefinition ∧ d = contextDefinition := by decide
  rcases hpair c hc d hd heq with h | ⟨rfl, rfl⟩ | ⟨rfl, rfl⟩
  · exact h
  · exact absurd ⟨hac, had⟩ not_accepts_context_and_trigger
  · exact absurd ⟨had, hac⟩ not_accepts_context_and_trigger

/-- The tests part the lines: of the categories in `separate` no line has two.  The headers of contexts and
of triggers are headers of blocks and never of each other, and the bracketed headers are calls with
contents, as escapes and blank lines are not.  So any order of the tests gives every line its category, as
long as it keeps contexts and triggers before blocks and the calls with contents at the end. -/
theorem accepts_partition (line : Text) :
    (∀ c ∈ separate, ∀ d ∈ separate, c.accepts line = true → d.accepts line = true → c = d) ∧
      (contextDefinition.accepts line = true → blockDefinition.accepts line = true) ∧
      (triggerDefinition.accepts line = true → blockDefinition.accepts line = true) ∧
      ¬ (contextDefinition.accepts line = true ∧ triggerDefinition.accepts line = true) ∧
      (∀ c ∈ bracketed, c.accepts line = true → contextCall.accepts line = true) ∧
      (hosted.accepts line = true → contextCall.accepts line = false) ∧
      (blank.accepts line = true → contextCall.accepts line = false) ∧
      ∀ order : List Category, order.Perm cascade →
        order.Pairwise (fun c d => ¬ Precedes d c) → firstOf order line = ofLine line := by
  refine ⟨fun c hc d hd => eq_of_accepts hc hd, accepts_blockDefinition (Or.inl rfl),
    accepts_blockDefinition (Or.inr rfl), not_accepts_context_and_trigger,
    fun c hc => accepts_contextCall hc, not_accepts_contextCall (Or.inl rfl),
    not_accepts_contextCall (Or.inr rfl), fun order hperm horder => ?_⟩
  rw [ofLine, firstOf, firstOf]
  refine congrArg (·.getD stepCall) (find?_eq_of_perm hperm cascade_ordered horder ?_)
  exact fun c hc d hd => eq_or_precedes hc hd

/-- A header that three tests accept, asked in the order of the cascade from its end, as far as that may be. -/
theorem accepts_partition_context :
    ∃ (line : Text) (order : List Category), line = "define context c (s:BlockList) [".toList ∧
      order = [trigger, triggerDefinition, contextDefinition, blockDefinition, hosted, sounds, costumes,
        stage, sprite, library, unit, comment, blank, contextCall] ∧
      order.Perm cascade ∧ order.Pairwise (fun c d => ¬ Precedes d c) ∧
      contextDefinition.accepts line = true ∧ blockDefinition.accepts line = true ∧
      contextCall.accepts line = true ∧ firstOf order line = ofLine line ∧
      ofLine line = contextDefinition := by
  have haccepts : contextDefinition.accepts "define context c (s:BlockList) [".toList = true := by decide
  obtain ⟨-, hblock, -, -, hcall, -, -, horder⟩ :=
    accepts_partition "define context c (s:BlockList) [".toList
  exact ⟨_, _, rfl, rfl, by decide, by decide, haccepts, hblock haccepts,
    hcall blockDefinition (by decide) (hblock haccepts), horder _ (by decide) (by decide), by decide⟩

/-- Where blocks are asked for before contexts, the header of a context is one of a block. -/
example : firstOf [blockDefinition, contextDefinition, contextCall]
    "define context c (s:BlockList) [".toList = blockDefinition := by decide

end Category
end BlockText
