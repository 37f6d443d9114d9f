/-
Sources put together.

A reading goes on from a finished one as from the start, but further down: `State.after` is the state
of a reading whose lines are moved and in front of which other content stands.  Moving lines is a
`Recast` (`Recast.after`), so a whole run moves with its lines (`run_after`), errors included.
`parse_append` reads two sources, one after the other, with this.
-/
import BlockText.Proofs.Text.Lines
import BlockText.Proofs.Reading.Recast

namespace BlockText

/-! ## Moved outcomes -/

namespace ParseError

def shift (d : Shift) (e : ParseError) : ParseError := e.on (e.place.shift d)

theorem lineNumber_shift (d : Shift) (e : ParseError) :
    (e.shift d).lineNumber = e.lineNumber + d.lines := by
  cases e <;> rfl

theorem kind_shift (d : Shift) (e : ParseError) : (e.shift d).kind = e.kind := by
  cases e <;> rfl

theorem message_shift (d : Shift) (e : ParseError) : (e.shift d).message = e.message := by
  cases e <;> rfl

theorem text_shift (d : Shift) (e : ParseError) : (e.shift d).text = e.text := by
  cases e <;> rfl

theorem index?_shift (d : Shift) (e : ParseError) : (e.shift d).index? = e.index? := by
  cases e <;> rfl

/-- The place that an error points at moves with its line. -/
theorem span_shift (d : Shift) (e : ParseError) : (e.shift d).span = e.span.shift d := by
  cases e with
  | line fault l => exact Line.shift_span d l
  | name n l =>
    have hspan : ((ParseError.name n l).shift d).span = (ParseError.name n (l.shift d)).span := rfl
    rw [hspan, span, span, Line.shift_text, Line.shift_span]
    cases Text.indexOf? n.text l.text with
    | none => rfl
    | some before =>
      by_cases he : n.text.isEmpty = true
      · simp only [he, if_true]
      · simp only [he, if_false, Bool.false_eq_true, Span.shift, Line.shift, Span.mk.injEq]
        omega

end ParseError

def Frame.shift (d : Shift) (f : Frame) : Frame := { f with header := f.header.shift d }

namespace Contents

/-- The one after the other, kind by kind. -/
def append (a b : Contents) : Contents :=
  ⟨a.comments ++ b.comments, a.units ++ b.units, a.libraries ++ b.libraries,
    a.sprites ++ b.sprites, a.stages ++ b.stages, a.definitions ++ b.definitions,
    a.triggers ++ b.triggers, a.steps ++ b.steps⟩

theorem append_empty (a : Contents) : a.append empty = a := by
  simp [append, empty]

theorem append_add (a b : Contents) (node : Node) :
    a.append (b.add node) = (a.append b).add node := by
  cases node <;> simp [append, add]

end Contents

namespace State

/-- The state of a reading whose lines stand further down, behind other content. -/
def after (base : Contents) (d : Shift) (s : State) : State :=
  ⟨base.append s.top, s.frames.map (Frame.shift d), s.verbatim.map fun p => (p.1.shift d, p.2)⟩

/-- Moving an outcome: what is read moves as a state, an error as an error. -/
def outcomeAfter (base : Contents) (d : Shift) (r : Except ParseError State) :
    Except ParseError State :=
  (r.map (after base d)).mapError (·.shift d)

end State

/-- Moving lines behind other content. -/
def Recast.after (base : Contents) (d : Shift) : Recast where
  line := Line.shift d
  node := id
  verbatim := id
  contents := id
  top := base.append
  trimmed_line := Line.shift_trimmed d
  contents_empty := rfl
  contents_add _ _ := rfl
  top_add := base.append_add
  close := Opening.close_map_id
  node_comment _ := rfl
  node_call _ _ := rfl
  verbatim_comment _ := rfl
  verbatim_hosted _ := rfl
  category_verbatim _ := rfl

theorem Recast.suits_after (base : Contents) (d : Shift) (s : State) (line : Line) :
    (Recast.after base d).Suits s line :=
  suits_of_text _ rfl (fun _ => rfl) fun _ => rfl

namespace State

/-- Moved lines do the same further down. -/
theorem run_after (base : Contents) (d : Shift) (strict : Bool) (s : State) (lines : List Line) :
    (s.after base d).run strict (lines.map (Line.shift d)) =
      outcomeAfter base d (s.run strict lines) :=
  (Recast.after base d).run strict (P := fun _ => True) (fun _ _ _ _ => trivial)
    (fun line _ _ => Recast.suits_after base d _ line) trivial

theorem finish_after (base : Contents) (d : Shift) (s : State) :
    (s.after base d).finish =
      (s.finish.map fun doc => ⟨base.comments ++ doc.comments, base.units ++ doc.units⟩).mapError
        (·.shift d) :=
  (Recast.after base d).finish (fun _ => rfl) s

end State

/-! ## One source after another -/

namespace Document

/-- A source in front that can be read on its own changes nothing behind it but the place.  What
follows it is read as on its own, and an error there is the same error moved down by the lines and
bytes of the source in front. -/
theorem parse_append {strict : Bool} {s₁ s₂ : Text} {d₁ : Document}
    (h₁ : parse strict s₁ = .ok d₁) :
    (∀ d₂, parse strict s₂ = .ok d₂ →
      parse strict (s₁ ++ '\n' :: s₂) =
        .ok ⟨d₁.comments ++ d₂.comments, d₁.units ++ d₂.units⟩) ∧
    (∀ e, parse strict s₂ = .error e →
      ∃ e', parse strict (s₁ ++ '\n' :: s₂) = .error e' ∧
        e' = e.on e'.place ∧
        e'.kind = e.kind ∧ e'.message = e.message ∧ e'.text = e.text ∧ e'.index? = e.index? ∧
        e'.lineNumber = e.lineNumber + (Line.ofSource s₁).length ∧
        e'.span.start = e.span.start + (s₁.byteLength + 1) ∧
        e'.span.stop = e.span.stop + (s₁.byteLength + 1)) := by
  obtain ⟨t, ht, hfin⟩ := parse_eq_ok_iff.mp h₁
  obtain ⟨hv, hf, rfl⟩ := State.finish_eq_ok_iff.mp hfin
  have hafter : t = State.start.after t.top (Shift.past s₁) := by
    rw [State.after, State.start, Contents.append_empty]
    cases t
    cases hv
    cases hf
    rfl
  -- the lines of the second source are read in the state that the first one leaves
  have hparse : parse strict (s₁ ++ '\n' :: s₂) =
      ((parse strict s₂).map fun doc => ⟨t.top.comments ++ doc.comments,
        t.top.units ++ doc.units⟩).mapError (·.shift (Shift.past s₁)) := by
    rw [parse, ofLines_eq, Line.ofSource_append, State.run_append, ht]
    show t.run strict _ >>= State.finish = _
    have hrun := State.run_after t.top (Shift.past s₁) strict State.start (Line.ofSource s₂)
    rw [← hafter] at hrun
    rw [hrun, parse, ofLines_eq]
    cases State.start.run strict (Line.ofSource s₂) with
    | error e => rfl
    | ok u => exact State.finish_after t.top (Shift.past s₁) u
  refine ⟨fun d₂ h₂ => ?_, fun e h₂ => ?_⟩
  · rw [hparse, h₂]
    rfl
  · refine ⟨e.shift (Shift.past s₁), ?_, ?_, ParseError.kind_shift _ e,
      ParseError.message_shift _ e, ParseError.text_shift _ e, ParseError.index?_shift _ e,
      ParseError.lineNumber_shift _ e, ?_, ?_⟩
    · rw [hparse, h₂]
      rfl
    · rw [ParseError.shift, ParseError.place_on]
    · rw [ParseError.span_shift]
      rfl
    · rw [ParseError.span_shift]
      rfl

/-- A unit of two lines, with a comment behind it and with a stray bracket behind it. -/
theorem parse_append_unit :
    parse true (['u', 'n', 'i', 't', ' ', 'A', ' ', '[', '\n', ']'] ++ '\n' :: ['/', '/', 'b']) =
        .ok ⟨[⟨['b']⟩], [⟨['A'], [], [], [], []⟩]⟩ ∧
      ∃ e, parse true (['u', 'n', 'i', 't', ' ', 'A', ' ', '[', '\n', ']'] ++ '\n' :: [']']) =
          .error e ∧
        e.message = (LineFault.misplaced .stepCall none).message ∧
        e.lineNumber = 3 ∧ e.span = ⟨11, 12⟩ := by
  have h₁ : parse true ['u', 'n', 'i', 't', ' ', 'A', ' ', '[', '\n', ']'] =
      .ok ⟨[], [⟨['A'], [], [], [], []⟩]⟩ := rfl
  have h₂ : parse true ['/', '/', 'b'] = .ok ⟨[⟨['b']⟩], []⟩ := rfl
  have h₃ : parse true [']'] = .error (.line (.misplaced .stepCall none) ⟨1, 0, [']']⟩) := rfl
  refine ⟨(parse_append h₁).1 _ h₂, ?_⟩
  obtain ⟨e, he, -, -, hm, -, -, hl, hs, ht⟩ := (parse_append h₁).2 _ h₃
  refine ⟨e, he, hm, hl, ?_⟩
  rw [show e.span = ⟨e.span.start, e.span.stop⟩ from rfl, hs, ht]
  rfl

end Document
end BlockText
