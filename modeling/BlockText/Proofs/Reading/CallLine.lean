/-
Lines that are calls.

A call line shows its name's first word: up to the first white space or parenthesis the line, the
text of the call in it and the call's name are the same (`Text.lead`).  So a line starts like a
header of some keyword exactly where its name begins with the keyword as a whole word
(`heads_stepCall`, `heads_contextCall`), although the strict reader looks at the line and the
document has the name only.
-/
import BlockText.Proofs.Name.Call
import BlockText.Proofs.Reading.Step

namespace BlockText

/-! ## First words -/

namespace Text

/-- A word in front of a text, and white space or nothing behind it. -/
theorem lead_eq_iff {w t : Text} (hs : ∀ c ∈ w, isSpace c = false) (hp : '(' ∉ w) :
    lead t = w ↔ ∃ rest, t = w ++ rest ∧ ∀ c ∈ rest.head?, isSpace c = true := by
  induction w generalizing t with
  | nil =>
    constructor
    · intro h
      refine ⟨t, rfl, fun c hc => ?_⟩
      cases t with
      | nil => cases hc
      | cons d t =>
        cases hc
        by_contra hn
        rw [lead, if_neg hn] at h
        split at h <;> cases h
    · rintro ⟨rest, ht, hr⟩
      rw [List.nil_append] at ht
      subst ht
      cases t with
      | nil => rfl
      | cons d t => rw [lead, if_pos (hr d rfl)]
  | cons d w ih =>
    have hd : isSpace d = false := hs d List.mem_cons_self
    have hne : d ≠ '(' := fun h => hp (h ▸ List.mem_cons_self)
    have ih := fun t : Text => ih (t := t) (fun c hc => hs c (List.mem_cons_of_mem d hc))
      (fun hc => hp (List.mem_cons_of_mem d hc))
    constructor
    · intro h
      cases t with
      | nil => cases h
      | cons c t =>
        rw [lead] at h
        split at h
        · cases h
        · split at h
          next hc =>
            cases h
            exact absurd (beq_iff_eq.mp hc) hne
          · cases h
            obtain ⟨rest, ht, hr⟩ := (ih t).mp rfl
            exact ⟨rest, congrArg _ ht, hr⟩
    · rintro ⟨rest, rfl, hr⟩
      rw [List.cons_append, lead, hd, if_neg (by decide), if_neg (by simpa using hne),
        (ih _).mpr ⟨rest, rfl, hr⟩]

theorem lead_append_of_blank (t : Text) {b : Text} (h : isBlank b = true) :
    lead (t ++ b) = lead t := by
  induction t with
  | nil =>
    cases b with
    | nil => rfl
    | cons c b =>
      show lead (c :: b) = []
      rw [lead, if_pos (isBlank_iff.mp h c List.mem_cons_self)]
  | cons c t ih => rw [List.cons_append, lead, lead, ih]

end Text

namespace Keyword

theorem text_plain (k : Keyword) :
    (∀ c ∈ k.text, Text.isSpace c = false) ∧ '(' ∉ k.text ∧ '[' ∉ k.text ∧ k.text ≠ [] := by
  have hs : k.text.all (fun c => !Text.isSpace c) = true := by
    cases k <;> decide
  refine ⟨fun c hc => by simpa using List.all_eq_true.mp hs c hc, ?_⟩
  cases k <;> decide

/-- The name begins with the keyword as a whole word. -/
def begins (k : Keyword) (name : Text) : Prop :=
  ∃ rest, name = k.text ++ rest ∧ ∀ c ∈ rest.head?, Text.isSpace c = true

theorem begins_iff {k : Keyword} {name : Text} : k.begins name ↔ Text.lead name = k.text :=
  (Text.lead_eq_iff k.text_plain.1 k.text_plain.2.1).symm

theorem heads_iff {k : Keyword} {t : Text} :
    k.heads t = true ↔
      ∃ rest, t = k.text ++ rest ∧ ∀ c ∈ rest.head?, Text.isSpace c = true ∨ c = '[' := by
  rw [heads]
  constructor
  · intro h
    split at h
    · cases h
    next hp =>
      refine ⟨[], ?_, fun c hc => by cases hc⟩
      rw [List.isPrefixOf?_eq_some_iff_append_eq.mp hp]
    next c rest hp =>
      refine ⟨c :: rest, (List.isPrefixOf?_eq_some_iff_append_eq.mp hp).symm, fun d hd => ?_⟩
      cases hd
      rw [Bool.or_eq_true, beq_iff_eq] at h
      exact h
  · rintro ⟨rest, rfl, hr⟩
    rw [List.isPrefixOf?_eq_some_iff_append_eq.mpr rfl]
    cases rest with
    | nil => rfl
    | cons c rest =>
      simp only [Bool.or_eq_true, beq_iff_eq]
      exact hr c rfl

/-- Where no bracket stands in a text, the text with a bracket behind it or without one starts like a
header exactly where its first word is the keyword. -/
theorem heads_append_iff {k : Keyword} {t ending : Text} (h : '[' ∉ t)
    (he : ending = [] ∨ ending = ['[']) : k.heads (t ++ ending) = true ↔ Text.lead t = k.text := by
  rw [heads_iff, Text.lead_eq_iff k.text_plain.1 k.text_plain.2.1]
  constructor
  · rintro ⟨rest, ht, hr⟩
    have hbehind : ∀ back, t = k.text ++ back → rest = back ++ ending →
        ∀ c ∈ back.head?, Text.isSpace c = true := by
      intro back hb hrest c hc
      have hmem : c ∈ back := List.mem_of_mem_head? hc
      rcases hr c (by rw [hrest, List.head?_append, Option.mem_def.mp hc]; rfl) with hs | rfl
      · exact hs
      · exact absurd (hb ▸ List.mem_append_right _ hmem) h
    rcases List.append_eq_append_iff.mp ht with ⟨x, hx, hrest⟩ | ⟨back, hb, hrest⟩
    · -- the keyword does not reach into the bracket
      cases x with
      | nil =>
        rw [List.append_nil] at hx
        exact ⟨[], by rw [hx, List.append_nil], fun c hc => by cases hc⟩
      | cons c x =>
        rcases he with rfl | rfl
        · exact absurd hrest (by simp)
        · obtain ⟨rfl, -⟩ := List.cons.inj hrest
          exact absurd (hx ▸ List.mem_append_right t List.mem_cons_self) k.text_plain.2.2.1
    · exact ⟨back, hb, hbehind back hb hrest⟩
  · rintro ⟨rest, rfl, hr⟩
    refine ⟨rest ++ ending, List.append_assoc _ _ _, fun c hc => ?_⟩
    cases rest with
    | nil =>
      rcases he with rfl | rfl
      · cases hc
      · cases hc
        exact Or.inr rfl
    | cons d rest => exact Or.inl (hr c hc)

theorem heading?_eq_none_iff {t : Text} : heading? t = none ↔ ∀ k : Keyword, k.heads t = false := by
  rw [heading?, List.find?_eq_none]
  constructor
  · intro h k
    simpa using h k (by cases k <;> decide)
  · intro h k _
    rw [h k]
    decide

theorem heads_of_heading? {t : Text} {k : Keyword} (h : heading? t = some k) :
    k.heads t = true :=
  List.find?_some (p := fun k : Keyword => k.heads t) h

end Keyword

/-! ## The text of a call in its line -/

/-- A category with a test is told by its test. -/
theorem Category.find?_of_ofLine {line : Text} {category : Category} (h : ofLine line = category)
    (hs : category ≠ .stepCall) : cascade.find? (·.accepts line) = some category := by
  rw [ofLine, firstOf] at h
  cases hf : cascade.find? (·.accepts line) with
  | none =>
    rw [hf] at h
    exact absurd h.symm hs
  | some c =>
    rw [hf] at h
    exact congrArg some h

theorem Category.acceptsTrimmed_of_ofLine {line : Line} {category : Category}
    (h : ofLine line.text = category) (hs : category ≠ .stepCall) :
    category.acceptsTrimmed line.trimmed = true :=
  List.find?_some (p := fun c : Category => c.accepts line.text) (find?_of_ofLine h hs)

/-- The text of a context call in its line. -/
theorem headerText_bracket {line : Line} (h : Category.endsWith ['['] line.trimmed = true) :
    ∃ b, Text.isBlank b = true ∧ line.trimmed = Opening.headerText [] line ++ b ++ ['['] := by
  obtain ⟨v, hv⟩ := List.isSuffixOf_iff_suffix.mp h
  have hhead : ∀ c ∈ v.head?, Text.isSpace c = false := by
    intro c hc
    refine (Text.trimmed_trim line.text).head c ?_
    rw [show Text.trim line.text = v ++ ['['] from hv.symm, List.head?_append,
      Option.mem_def.mp hc]
    rfl
  have ht : Opening.headerText [] line = Text.trimEnd v := by
    rw [Opening.headerText, ← hv, Text.dropPrefix]
    show Text.trim (Text.dropSuffix ['['] (v ++ ['['])) = _
    rw [Text.dropSuffix_append, Text.trim, Text.trimStart_of_head hhead]
  obtain ⟨b, hb, hvb⟩ := Text.exists_trimEnd v
  refine ⟨b, hb, ?_⟩
  rw [ht, ← hvb, hv]

namespace Call

/-- A call starts like its text. -/
theorem lead_name {text : Text} {call : Call} (h : read text = .ok call)
    (ht : ∀ c ∈ text.head?, Text.isSpace c = false) : Text.lead call.name = Text.lead text := by
  obtain ⟨-, -, literal, hs, hname⟩ := read_eq_ok_iff.mp h
  rw [hname, Text.lead_collapse (by rw [← hs.head?_eq]; exact ht), ← hs.lead_eq]

theorem openBracket_not_mem {text : Text} {call : Call} (h : read text = .ok call) :
    '[' ∉ text := by
  obtain ⟨-, -, literal, hs, -⟩ := read_eq_ok_iff.mp h
  exact hs.openBracket_not_mem

/-- The line of a step call starts like a header of this keyword if and only if its name begins
with the keyword. -/
theorem heads_stepCall {line : Line} {call : Call} (h : read line.trimmed = .ok call)
    (k : Keyword) : k.heads line.trimmed = true ↔ k.begins call.name := by
  have hk := Keyword.heads_append_iff (k := k) (openBracket_not_mem h) (Or.inl rfl)
  rw [List.append_nil] at hk
  rw [hk, Keyword.begins_iff, lead_name h (Text.trimmed_trim line.text).head]

/-- The line of a context call starts like a header of this keyword if and only if its name begins
with the keyword. -/
theorem heads_contextCall {line : Line} {call : Call}
    (he : Category.endsWith ['['] line.trimmed = true)
    (h : read (Opening.headerText [] line) = .ok call) (k : Keyword) :
    k.heads line.trimmed = true ↔ k.begins call.name := by
  obtain ⟨b, hb, ht⟩ := headerText_bracket he
  have hmem : '[' ∉ Opening.headerText [] line ++ b := by
    rw [List.mem_append, not_or]
    refine ⟨openBracket_not_mem h, fun hm => ?_⟩
    exact absurd (Text.isBlank_iff.mp hb _ hm) (by decide)
  rw [ht, Keyword.heads_append_iff hmem (Or.inr rfl), Keyword.begins_iff,
    Text.lead_append_of_blank _ hb, lead_name h (Text.trimmed_trim _).head]

end Call
end BlockText
