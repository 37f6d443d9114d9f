/-
Lines that end where they start.

A comment between marks and an escape take lines as they are, so what a line does depends on whether it
stands in one of them.  A line that starts neither is plain.  Where all lines are plain no line is taken
as it is (`State.verbatim_of_move`), and each line is read by itself: it closes a construct, opens one,
adds one that is this line, or is blank (`State.Reads`).
-/
import BlockText.Proofs.Print.Verbatim

namespace BlockText

/-- The line starts neither a comment between marks nor an escape. -/
structure Line.Plain (line : Line) : Prop where
  unmarked : ¬ ['/', '*'] <+: line.trimmed
  free : Category.ofLine line.text ≠ .hosted

instance (line : Line) : Decidable line.Plain :=
  decidable_of_iff (¬ ['/', '*'] <+: line.trimmed ∧ Category.ofLine line.text ≠ .hosted)
    ⟨fun h => ⟨h.1, h.2⟩, fun h => ⟨h.unmarked, h.free⟩⟩

namespace Line

variable {line : Line}

theorem ofLine_eq_blank_iff : Category.ofLine line.text = .blank ↔ line.text.isBlank = true := by
  rw [← Text.trim_eq_nil_iff]
  constructor
  · intro h
    exact List.isEmpty_iff.mp (Category.acceptsTrimmed_of_ofLine h (by decide))
  · intro h
    have htrim : line.trimmed = (Line.bare []).trimmed := h
    exact (Category.ofLine_congr htrim).trans (by decide)

theorem isBlank_eq_false (h : Category.ofLine line.text ≠ .blank) : line.text.isBlank = false := by
  rw [Bool.eq_false_iff]
  exact mt ofLine_eq_blank_iff.mpr h

/-- A line that closes a construct has a bracket on it. -/
theorem isBlank_of_closesOn {o : Opening} (h : o.closesOn line.trimmed = true) :
    line.text.isBlank = false := by
  rw [Bool.eq_false_iff]
  intro hb
  rw [Line.trimmed, Text.trim_of_blank hb] at h
  cases o <;> cases h

namespace Plain

theorem slashes_iff (hl : line.Plain) :
    Category.ofLine line.text = .comment ↔ ['/', '/'] <+: line.trimmed := by
  constructor
  · intro h
    have ha := Category.acceptsTrimmed_of_ofLine h (by decide)
    rw [Category.acceptsTrimmed, Bool.or_eq_true, List.isPrefixOf_iff_prefix,
      List.isPrefixOf_iff_prefix] at ha
    exact ha.resolve_right hl.unmarked
  · rintro ⟨rest, hrest⟩
    exact @Comment.ofLine_mark line.text rest '/' hrest.symm (Or.inl rfl)

/-- A plain comment ends on its line. -/
theorem exists_start (hl : line.Plain) (hc : Category.ofLine line.text = .comment) :
    ∃ c, Comment.start line.trimmed = .inr c := by
  obtain ⟨rest, hrest⟩ := hl.slashes_iff.mp hc
  rw [Comment.start, List.isPrefixOf?_eq_some_iff_append_eq.mpr hrest]
  exact ⟨_, rfl⟩

end Plain
end Line

namespace State

variable {strict : Bool} {s t : State} {line : Line}

theorem resume_inr (hv : s.verbatim = none) (header : Line) (node : Node) :
    s.resume header (.inr node) = s.add node := by
  obtain ⟨top, frames, verbatim⟩ := s
  cases hv
  rfl

theorem verbatim_settle (s : State) (node : Option Node) :
    (s.settle node).verbatim = s.verbatim := by
  cases node with
  | none => rfl
  | some node => exact s.verbatim_add node

theorem path_settle (s : State) (node : Option Node) : (s.settle node).path = s.path := by
  cases node with
  | none => rfl
  | some node => exact s.path_add node

/-- A construct that is a line by itself. -/
inductive Single : Node → Prop
  | comment (c : Comment) : Single (.comment c)
  | call (name : Text) (args : List Expression) : Single (.step (.call name args))

/-- Reading a plain line leads from the state `s` to this state. -/
inductive Reads (s : State) (line : Line) : State → Prop
  | closed {f : Frame} {rest : List Frame} {node : Option Node} (hf : s.frames = f :: rest)
    (hc : f.opening.closesOn line.trimmed = true)
    (hn : f.opening.close f.contents line = .ok node) :
    Reads s line (({ s with frames := rest } : State).settle node)
  | blank (hb : line.text.isBlank = true) : Reads s line s
  | added {node : Node} (hb : line.text.isBlank = false) (hn : Single node) :
    Reads s line (s.add node)
  | opened {o : Opening} (hb : line.text.isBlank = false)
    (hc : Category.ofLine line.text = o.category) : Reads s line (s.push line o)

/-- Where no lines are taken as they are, a plain line is read. -/
theorem reads_of_move (hl : line.Plain) (hv : s.verbatim = none) (h : Move strict s line t) :
    Reads s line t := by
  have hnonblank : ∀ {category : Category}, categorize strict line = .ok category →
      category ≠ .blank → line.text.isBlank = false := by
    intro category hc hb
    refine Line.isBlank_eq_false fun h => hb ?_
    rw [← (categorize_eq_ok_iff.mp hc).1, h]
  cases h with
  | resumed hv' =>
    rw [hv] at hv'
    cases hv'
  | closed _ hf hc hn => exact .closed hf hc hn
  | blank hfree hc => exact .blank (Line.ofLine_eq_blank_iff.mp (categorize_eq_ok_iff.mp hc).1)
  | comment hfree hc =>
    obtain ⟨c, hstart⟩ := hl.exists_start (categorize_eq_ok_iff.mp hc).1
    rw [hstart, Sum.map_inr, resume_inr hv]
    exact .added (hnonblank hc (by decide)) (.comment c)
  | called hfree hc => exact .added (hnonblank hc (by decide)) (.call _ _)
  | escaped hfree hc => exact absurd (categorize_eq_ok_iff.mp hc).1 hl.free
  | opened hfree hc hp ho =>
    rename_i o
    exact .opened (hnonblank hc (Opening.opens_category o).1) (categorize_eq_ok_iff.mp hc).1

/-- After a plain line no lines are taken as they are, if none were before. -/
theorem Reads.verbatim_eq (h : Reads s line t) : t.verbatim = s.verbatim := by
  cases h with
  | closed => exact verbatim_settle _ _
  | blank => rfl
  | added => exact verbatim_add _ _
  | opened => rfl

theorem verbatim_of_move (hl : line.Plain) (hv : s.verbatim = none) (h : Move strict s line t) :
    t.verbatim = none :=
  (reads_of_move hl hv h).verbatim_eq.trans hv

end State
end BlockText
