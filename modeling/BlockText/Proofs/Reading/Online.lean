/-
Errors are found line by line.

A line that cannot be taken is blamed itself (`State.found_of_step`), and nothing behind it is looked
at, so the error of a run is that of the first line that cannot be taken (`State.run_eq_error`).  The
errors that no line raises are those of constructs that do not close.  They are told by their wording
(`ParseError.unterminated_iff`), and a source that ends in one may go on well.

`Document.error_firstLines` puts this together: all other errors stay the same whatever follows their
line, and are not there before it.
-/
import BlockText.Proofs.Reading.Composition
import BlockText.Proofs.Reading.Fault

namespace BlockText

/-! ## Constructs that do not close -/

namespace ParseError

/-- The error of a line as a whole that is worded as that of a construct without an end. -/
structure Unterminated (e : ParseError) : Prop where
  line : e.index? = none
  kind : e.kind = .structural
  message : "unterminated".toList <+: e.message

/-- A text that goes on otherwise than a word does not start with it. -/
theorem not_prefix_append {word front : Text} (h : ¬ word <+: front) (h' : ¬ front <+: word)
    (rest : Text) : ¬ word <+: front ++ rest := fun hp =>
  (List.prefix_or_prefix_of_prefix hp (List.prefix_append front rest)).elim h h'

/-- A line in a wrong place is worded otherwise than a word that goes apart from all the beginnings of
its wording. -/
theorem not_prefix_misplacement {word : Text}
    (hline : ¬ word <+: "unrecognized ".toList ∧ ¬ "unrecognized ".toList <+: word)
    (hchild : ∀ c : Category, ¬ word <+: c.describe.toList ++ [' ', 'n'] ∧
      ¬ c.describe.toList ++ [' ', 'n'] <+: word)
    (child : Category) (parent : Option Category) :
    ¬ word <+: (LineFault.misplacement child parent).toList := by
  have hinside : "unrecognized line inside ".toList = "unrecognized ".toList ++ "line inside ".toList :=
    rfl
  have hnot : " not permitted inside ".toList = [' ', 'n'] ++ "ot permitted inside ".toList := rfl
  rw [LineFault.misplacement.eq_def]
  split
  · rw [String.append_assoc, String.toList_append]
    exact not_prefix_append hline.1 hline.2 _
  · rw [String.append_assoc, String.toList_append]
    exact not_prefix_append hline.1 hline.2 _
  · rw [String.toList_append, hinside, List.append_assoc]
    exact not_prefix_append hline.1 hline.2 _
  · rw [String.toList_append, hinside, List.append_assoc]
    exact not_prefix_append hline.1 hline.2 _
  · rw [String.toList_append, String.toList_append, hnot, ← List.append_assoc, List.append_assoc]
    exact not_prefix_append (hchild child).1 (hchild child).2 _

theorem not_unterminated_misplacement (child : Category) (parent : Option Category) :
    ¬ "unterminated".toList <+: (LineFault.misplacement child parent).toList := by
  refine not_prefix_misplacement ⟨by simp, by simp⟩ (fun c => ?_) child parent
  cases c <;> simp [Category.describe]

theorem unterminated_iff {e : ParseError} :
    e.Unterminated ↔ ∃ category header, e = .line (.unterminated category) header := by
  constructor
  · intro h
    cases e with
    | name error line => cases h.line
    | line fault line =>
      have hm : "unterminated".toList <+: fault.message := h.message
      cases fault with
      | unterminated category => exact ⟨category, line, rfl⟩
      | misplaced child parent => exact absurd hm (not_unterminated_misplacement child parent)
      | namelessEvent | libraryShape | libraryHue | libraryLanguage => cases h.kind
      | malformedHeader keyword =>
        change "unterminated".toList <+: "malformed ".toList ++ keyword.text ++ " header".toList at hm
        simp at hm
      | blockListInBlock =>
        change "unterminated".toList <+:
          "only context and trigger definitions may take BlockList parameters".toList at hm
        simp at hm
      | contextTooDeep =>
        change "unterminated".toList <+: "context calls nested too deeply".toList at hm
        simp at hm
      | triggerReturns =>
        change "unterminated".toList <+: "trigger definitions cannot declare returns".toList at hm
        simp at hm
  · rintro ⟨category, header, rfl⟩
    refine ⟨rfl, rfl, ?_⟩
    show "unterminated".toList <+: ("unterminated " ++ category.describe ++ ", no closing \"" ++
      category.closing ++ "\" found").toList
    simp

end ParseError

/-! ## The line of an error -/

namespace State

variable {strict : Bool} {s : State}

/-- The error of a run is that of the first line that cannot be taken. -/
theorem run_eq_error {lines : List Line} {e : ParseError} (h : s.run strict lines = .error e) :
    ∃ before line after t, lines = before ++ line :: after ∧ s.run strict before = .ok t ∧
      t.step strict line = .error e := by
  induction lines generalizing s with
  | nil => cases h
  | cons line lines ih =>
    cases hstep : s.step strict line with
    | error e' =>
      rw [run_cons, hstep] at h
      cases h
      exact ⟨[], line, lines, s, rfl, rfl, hstep⟩
    | ok u =>
      rw [run_of_step hstep] at h
      obtain ⟨before, line', after, t, rfl, hrun, ht⟩ := ih h
      exact ⟨line :: before, line', after, t, rfl, (run_of_step hstep before).trans hrun, ht⟩

/-- Nothing behind a line that cannot be taken matters. -/
theorem run_of_error {before : List Line} {line : Line} {t : State} {e : ParseError}
    (hrun : s.run strict before = .ok t) (h : t.step strict line = .error e)
    (after : List Line) : s.run strict (before ++ line :: after) = .error e := by
  rw [run_append, hrun]
  show t.run strict (line :: after) = _
  rw [run_cons, h]
  rfl

/-- The error at the end of the lines is that of the innermost open construct. -/
theorem finish_eq_error_iff {e : ParseError} :
    s.finish = .error e ↔ ∃ header category, s.innermost? = some (header, category) ∧
      e = .line (.unterminated category) header := by
  rw [finish]
  cases hi : s.innermost? with
  | none =>
    refine ⟨fun h => ?_, fun h => ?_⟩
    · cases h
    · obtain ⟨header, category, h, -⟩ := h
      cases h
  | some p =>
    refine ⟨fun h => ⟨p.1, p.2, rfl, ?_⟩, fun h => ?_⟩
    · cases h
      rfl
    · obtain ⟨header, category, h, rfl⟩ := h
      cases h
      rfl

end State

/-! ## Sources -/

namespace Document

/-- An error is raised by a line of the source, or at its end. -/
theorem parse_eq_error {strict : Bool} {source : Text} {e : ParseError}
    (h : parse strict source = .error e) :
    (∃ before line after t, Line.ofSource source = before ++ line :: after ∧
        State.start.run strict before = .ok t ∧ t.step strict line = .error e) ∨
      ∃ t, State.start.run strict (Line.ofSource source) = .ok t ∧ t.finish = .error e := by
  rw [parse, ofLines_eq] at h
  cases hrun : State.start.run strict (Line.ofSource source) with
  | error e' =>
    rw [hrun] at h
    cases h
    exact Or.inl (State.run_eq_error hrun)
  | ok t =>
    rw [hrun] at h
    exact Or.inr ⟨t, rfl, h⟩

theorem parse_nil (strict : Bool) : parse strict [] = .ok ⟨[], []⟩ := by
  cases strict <;> rfl

/-- What is read after `k` lines, at least one. -/
theorem parse_firstLines (strict : Bool) {k : Nat} (hk : 0 < k) (source : Text) :
    parse strict (source.firstLines k) =
      State.start.run strict ((Line.ofSource source).take k) >>= State.finish := by
  rw [parse, ofLines_eq, Line.ofSource_firstLines hk]

/-- A source that is read without an error up to its last line, so far, ends well or in a construct
that does not close. -/
theorem parse_of_run {strict : Bool} {source : Text} {t : State}
    (h : State.start.run strict (Line.ofSource source) = .ok t) :
    (∃ d, parse strict source = .ok d) ∨
      ∃ e, parse strict source = .error e ∧ e.Unterminated := by
  rw [parse, ofLines_eq, h]
  show (∃ d, t.finish = .ok d) ∨ ∃ e, t.finish = .error e ∧ e.Unterminated
  cases hfin : t.finish with
  | ok d => exact Or.inl ⟨d, rfl⟩
  | error e =>
    obtain ⟨header, category, -, he⟩ := State.finish_eq_error_iff.mp hfin
    exact Or.inr ⟨e, rfl, ParseError.unterminated_iff.mpr ⟨category, header, he⟩⟩

/-- An error, other than that of a construct that does not close, is there as soon as its line is, and
not before, and it is the same whatever stands behind its line. -/
theorem error_firstLines {strict : Bool} {source : Text} {e : ParseError}
    (h : parse strict source = .error e) (hu : ¬ e.Unterminated) :
    parse strict (source.firstLines e.lineNumber) = .error e ∧
      ((∃ d, parse strict (source.firstLines (e.lineNumber - 1)) = .ok d) ∨
        ∃ e', parse strict (source.firstLines (e.lineNumber - 1)) = .error e' ∧
          e'.Unterminated) ∧
      ∀ rest, parse strict (source.firstLines e.lineNumber ++ '\n' :: rest) = .error e := by
  rcases parse_eq_error h with ⟨before, line, after, t, hlines, hrun, hstep⟩ | ⟨t, -, hfin⟩
  · have hnumber : e.lineNumber = before.length + 1 := by
      rw [ParseError.lineNumber, (State.found_of_step hstep).place_eq, Line.number_of_split hlines]
    have htake : (Line.ofSource source).take e.lineNumber = before ++ [line] := by
      rw [hlines, hnumber, List.take_length_add_append]
      rfl
    have herror : ∀ behind, State.start.run strict (before ++ [line] ++ behind) = .error e := by
      intro behind
      rw [List.append_assoc]
      exact State.run_of_error hrun hstep behind
    refine ⟨?_, ?_, fun rest => ?_⟩
    · rw [parse_firstLines strict (by omega), htake, ← List.append_nil (before ++ [line]), herror]
      rfl
    · rw [hnumber, Nat.add_sub_cancel]
      cases hb : before with
      | nil =>
        refine Or.inl ⟨⟨[], []⟩, ?_⟩
        rw [List.length_nil, Text.firstLines_zero, parse_nil]
      | cons l ls =>
        refine parse_of_run (t := t) ?_
        rw [Line.ofSource_firstLines (by simp), hlines, hb, List.take_left, ← hb, hrun]
    · rw [parse, ofLines_eq, Line.ofSource_append, Line.ofSource_firstLines (by omega), htake, herror]
      rfl
  · obtain ⟨header, category, -, he⟩ := State.finish_eq_error_iff.mp hfin
    exact absurd (ParseError.unterminated_iff.mpr ⟨category, header, he⟩) hu

/-- A line that is no content of a unit is refused with the first two lines of its source, whatever
follows them, and not with the first line, which leaves the unit open. -/
theorem error_firstLines_misplaced :
    ∃ (source : Text) (e : ParseError), source = 
          ['u', 'n', 'i', 't', ' ', 'A', ' ', '[', '\n', 'x', '\n', ']'] ∧
      parse true source = .error e ∧ e.lineNumber = 2 ∧ ¬ e.Unterminated ∧
      parse true (source.firstLines 2) = .error e ∧
      ((∃ d, parse true (source.firstLines 1) = .ok d) ∨
        ∃ e', parse true (source.firstLines 1) = .error e' ∧ e'.Unterminated) ∧
      ∀ rest, parse true (source.firstLines 2 ++ '\n' :: rest) = .error e := by
  have hu : ¬ (ParseError.line (.misplaced .stepCall (some .unit)) ⟨2, 9, ['x']⟩).Unterminated := by
    rw [ParseError.unterminated_iff]
    rintro ⟨category, header, h⟩
    cases h
  exact ⟨_, _, rfl, rfl, rfl, hu, error_firstLines rfl hu⟩

end Document
end BlockText
