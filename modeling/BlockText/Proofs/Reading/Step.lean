/-
What one line does.

`State.step` is taken apart here once.  `step_resume`, `step_close` and `step_enter` say which of
its three ways a line goes, and the equations for `enter` say what a line of each category does
there.  `Move` lists the ways in which a line can be taken, with all that holds on each; a line that
is taken is taken by one of them (`move_of_step`).  Proofs about runs use these and do not unfold
the reader again.
-/
import BlockText.Proofs.Reading.Header

namespace BlockText

namespace State

/-! ## The ways of a line -/

/-- The text of a line closes the innermost open construct. -/
def closedBy (s : State) (trimmed : Text) : Bool :=
  match s.frames with
  | [] => false
  | f :: _ => f.opening.closesOn trimmed

/-- The line is neither taken as it is nor a closing line. -/
structure Free (s : State) (line : Line) : Prop where
  verbatim : s.verbatim = none
  unclosed : s.closedBy line.trimmed = false

/-- The name of the definition that a line stands in. -/
def block (s : State) : Text := (s.frames.head?.bind (·.opening.definitionName?)).getD []

/-- Puts what a closing line finished into its place. -/
def settle (s : State) : Option Node → State
  | some node => s.add node
  | none => s

@[simp] theorem settle_some (s : State) (node : Node) : s.settle (some node) = s.add node := rfl

@[simp] theorem settle_none (s : State) : s.settle none = s := rfl

theorem step_resume {strict : Bool} {s : State} {line header : Line} {v : Verbatim}
    (hv : s.verbatim = some (header, v)) :
    s.step strict line = .ok (s.resume header (v.take line)) := by
  rw [step, hv]

theorem step_close {strict : Bool} {s : State} {line : Line} {f : Frame} {rest : List Frame}
    (hv : s.verbatim = none) (hf : s.frames = f :: rest)
    (hc : f.opening.closesOn line.trimmed = true) :
    s.step strict line =
      (f.opening.close f.contents line).map ({ s with frames := rest } : State).settle := by
  have hs : s.step strict line = s.close f rest line := by
    rw [step, hv, hf]
    simp only [hc, if_true]
  rw [hs, close]
  cases f.opening.close f.contents line with
  | error e => rfl
  | ok node => cases node <;> rfl

theorem step_enter {strict : Bool} {s : State} {line : Line} (h : s.Free line) :
    s.step strict line = s.enter strict line := by
  obtain ⟨hv, ho⟩ := h
  rw [step, hv]
  cases hf : s.frames with
  | nil => rfl
  | cons f rest =>
    rw [closedBy, hf] at ho
    simp only [ho, Bool.false_eq_true, if_false]

/-- Every line goes one of the three ways. -/
theorem way (s : State) (line : Line) :
    (∃ header v, s.verbatim = some (header, v)) ∨
      (∃ f rest, s.verbatim = none ∧ s.frames = f :: rest ∧
        f.opening.closesOn line.trimmed = true) ∨
      s.Free line := by
  cases hv : s.verbatim with
  | some p => exact Or.inl ⟨p.1, p.2, rfl⟩
  | none =>
    by_cases ho : s.closedBy line.trimmed = true
    · refine Or.inr (Or.inl ?_)
      rw [closedBy] at ho
      cases hf : s.frames with
      | nil =>
        rw [hf] at ho
        cases ho
      | cons f rest =>
        rw [hf] at ho
        exact ⟨f, rest, rfl, rfl, ho⟩
    · exact Or.inr (Or.inr ⟨hv, by simpa using ho⟩)

/-! ## Lines that close nothing -/

section enter

variable {strict : Bool} {s : State} {line : Line} {category : Category}

theorem enter_of_refused {e : ParseError} (h : categorize strict line = .error e) :
    s.enter strict line = .error e := by
  rw [enter, h]
  rfl

theorem enter_blank (h : categorize strict line = .ok .blank) : s.enter strict line = .ok s := by
  rw [enter, h]
  rfl

theorem enter_misplaced (h : categorize strict line = .ok category) (hb : category ≠ .blank)
    (hp : Category.permits s.parent category = false) :
    s.enter strict line = .error (.line (.misplaced category s.parent) line) := by
  rw [enter, h]
  simp only [bind, Except.bind, hp, beq_eq_false_iff_ne.mpr hb, Bool.not_false, if_true,
    Bool.false_eq_true, if_false]

theorem enter_comment (h : categorize strict line = .ok .comment)
    (hp : Category.permits s.parent .comment = true) :
    s.enter strict line =
      .ok (s.resume line ((Comment.start line.trimmed).map id .comment)) := by
  rw [enter, h]
  simp only [bind, Except.bind, hp, Bool.not_true, Bool.false_eq_true, if_false]
  rfl

theorem enter_stepCall (h : categorize strict line = .ok .stepCall)
    (hp : Category.permits s.parent .stepCall = true) :
    s.enter strict line =
      (Opening.atLine line (Call.read line.trimmed)).map
        fun call => s.add (.step (.call call.name call.args)) := by
  rw [enter, h]
  simp only [bind, Except.bind, hp, Bool.not_true, Bool.false_eq_true, if_false]
  cases Opening.atLine line (Call.read line.trimmed) <;> rfl

theorem enter_hosted (h : categorize strict line = .ok .hosted)
    (hp : Category.permits s.parent .hosted = true) :
    s.enter strict line =
      (hostedReturns s.block line).map
        fun returns => { s with verbatim := some (line, .hosted returns []) } := by
  rw [enter, h]
  simp only [bind, Except.bind, hp, Bool.not_true, Bool.false_eq_true, if_false]
  show s.enterHosted line = _
  rw [enterHosted]
  show ((hostedReturns s.block line).bind _) = _
  cases hostedReturns s.block line <;> rfl

theorem enter_opens (ho : Opening.Opens category) (h : categorize strict line = .ok category)
    (hp : Category.permits s.parent category = true) :
    s.enter strict line =
      (Opening.ofHeader category s.contextDepth line).map
        fun o => match o with
          | some o => s.push line o
          | none => s := by
  obtain ⟨hb, hc, hh, hs⟩ := ho
  rw [enter, h]
  simp only [bind, Except.bind, hp, beq_eq_false_iff_ne.mpr hb, Bool.not_true, Bool.false_eq_true,
    if_false]
  cases category with
  | blank => exact absurd rfl hb
  | comment => exact absurd rfl hc
  | hosted => exact absurd rfl hh
  | stepCall => exact absurd rfl hs
  | _ =>
    cases hr : Opening.ofHeader _ s.contextDepth line with
    | error e => rfl
    | ok o => cases o <;> rfl

end enter

/-! ## The lines that are taken -/

/-- Taking the line leads from the state `s` to this state. -/
inductive Move (strict : Bool) (s : State) (line : Line) : State → Prop
  /-- A line of an escape or of a comment. -/
  | resumed {header : Line} {v : Verbatim} (hv : s.verbatim = some (header, v)) :
    Move strict s line (s.resume header (v.take line))
  /-- A closing line. -/
  | closed {f : Frame} {rest : List Frame} {node : Option Node} (hv : s.verbatim = none)
    (hf : s.frames = f :: rest) (hc : f.opening.closesOn line.trimmed = true)
    (hn : f.opening.close f.contents line = .ok node) :
    Move strict s line (({ s with frames := rest } : State).settle node)
  | blank (hl : s.Free line) (hc : categorize strict line = .ok .blank) : Move strict s line s
  | comment (hl : s.Free line) (hc : categorize strict line = .ok .comment)
    (hp : Category.permits s.parent .comment = true) :
    Move strict s line (s.resume line ((Comment.start line.trimmed).map id .comment))
  | called (hl : s.Free line) {call : Call} (hc : categorize strict line = .ok .stepCall)
    (hp : Category.permits s.parent .stepCall = true) (hr : Call.read line.trimmed = .ok call) :
    Move strict s line (s.add (.step (.call call.name call.args)))
  | escaped (hl : s.Free line) {returns : Option Returns}
    (hc : categorize strict line = .ok .hosted)
    (hp : Category.permits s.parent .hosted = true)
    (hr : hostedReturns s.block line = .ok returns) :
    Move strict s line { s with verbatim := some (line, .hosted returns []) }
  | opened (hl : s.Free line) {o : Opening} (hc : categorize strict line = .ok o.category)
    (hp : Category.permits s.parent o.category = true)
    (ho : Opening.Says s.contextDepth line o) : Move strict s line (s.push line o)

/-- A line that is taken is taken in one of these ways. -/
theorem move_of_step {strict : Bool} {s t : State} {line : Line}
    (h : s.step strict line = .ok t) : Move strict s line t := by
  rcases way s line with ⟨header, v, hv⟩ | ⟨f, rest, hv, hf, hc⟩ | hl
  · rw [step_resume hv] at h
    cases h
    exact .resumed hv
  · rw [step_close hv hf hc, Outcome.map_eq_ok_iff] at h
    obtain ⟨node, hn, rfl⟩ := h
    exact .closed hv hf hc hn
  rw [step_enter hl] at h
  cases hc : categorize strict line with
  | error e =>
    rw [enter_of_refused hc] at h
    cases h
  | ok category =>
    by_cases hb : category = .blank
    · subst hb
      rw [enter_blank hc] at h
      cases h
      exact .blank hl hc
    cases hp : Category.permits s.parent category with
    | false =>
      rw [enter_misplaced hc hb hp] at h
      cases h
    | true =>
      rcases Opening.opens_or category with rfl | rfl | rfl | rfl | ho
      · exact absurd rfl hb
      · rw [enter_comment hc hp] at h
        cases h
        exact .comment hl hc hp
      · rw [enter_stepCall hc hp, Outcome.map_eq_ok_iff] at h
        obtain ⟨call, hr, rfl⟩ := h
        exact .called hl hc hp (Opening.atLine_eq_ok_iff.mp hr)
      · rw [enter_hosted hc hp, Outcome.map_eq_ok_iff] at h
        obtain ⟨returns, hr, rfl⟩ := h
        exact .escaped hl hc hp hr
      · rw [enter_opens ho hc hp, Outcome.map_eq_ok_iff] at h
        obtain ⟨o, hr, rfl⟩ := h
        cases o with
        | none => exact absurd hr (Opening.ofHeader_ne_none ho)
        | some o =>
          obtain ⟨rfl, hs⟩ := Opening.ofHeader_eq_ok_iff.mp hr
          exact .opened hl hc hp hs

/-- Each of the ways is taken. -/
theorem step_of_move {strict : Bool} {s t : State} {line : Line} (h : Move strict s line t) :
    s.step strict line = .ok t := by
  cases h with
  | resumed hv => exact step_resume hv
  | closed hv hf hc hn => rw [step_close hv hf hc, hn]; rfl
  | blank hl hc => rw [step_enter hl, enter_blank hc]
  | comment hl hc hp => rw [step_enter hl, enter_comment hc hp]
  | called hl hc hp hr =>
    rw [step_enter hl, enter_stepCall hc hp, Opening.atLine_eq_ok_iff.mpr hr]
    rfl
  | escaped hl hc hp hr =>
    rw [step_enter hl, enter_hosted hc hp, hr]
    rfl
  | opened hl hc hp ho =>
    rename_i o
    rw [step_enter hl, enter_opens (Opening.opens_category o) hc hp,
      Opening.ofHeader_eq_ok_iff.mpr ⟨rfl, ho⟩]
    rfl

/-! ## Runs -/

theorem run_cons (strict : Bool) (s : State) (line : Line) (lines : List Line) :
    s.run strict (line :: lines) = s.step strict line >>= fun t => t.run strict lines := rfl

theorem run_append (strict : Bool) (s : State) (xs ys : List Line) :
    s.run strict (xs ++ ys) = s.run strict xs >>= fun t => t.run strict ys := by
  rw [run, List.foldlM_append]
  rfl

theorem run_of_step {strict : Bool} {s t : State} {line : Line}
    (h : s.step strict line = .ok t) (lines : List Line) :
    s.run strict (line :: lines) = t.run strict lines := by
  rw [run_cons, h]
  rfl

/-- What one line preserves, a run preserves. -/
theorem run_induction {strict : Bool} {P : State → Prop} {lines : List Line}
    (hstep : ∀ {s t : State}, ∀ line ∈ lines, P s → Move strict s line t → P t) {s t : State}
    (hs : P s) (h : s.run strict lines = .ok t) : P t := by
  induction lines generalizing s with
  | nil =>
    cases h
    exact hs
  | cons line lines ih =>
    rw [run_cons, Outcome.bind_eq_ok_iff] at h
    obtain ⟨u, hu, h⟩ := h
    refine ih (fun l hl => hstep l (List.mem_cons_of_mem line hl)) ?_ h
    exact hstep line List.mem_cons_self hs (move_of_step hu)

/-! ## The end of a run -/

/-- A reading ends well where nothing is open. -/
theorem finish_eq_ok_iff {s : State} {d : Document} :
    s.finish = .ok d ↔ s.verbatim = none ∧ s.frames = [] ∧ d = ⟨s.top.comments, s.top.units⟩ := by
  rw [finish, innermost?]
  cases hv : s.verbatim with
  | some p =>
    refine ⟨fun h => ?_, fun h => ?_⟩
    · cases h
    · cases h.1
  | none =>
    cases hf : s.frames with
    | nil =>
      refine ⟨fun h => ⟨rfl, rfl, ?_⟩, fun h => ?_⟩
      · cases h
        rfl
      · rw [h.2.2]
        rfl
    | cons f rest =>
      refine ⟨fun h => ?_, fun h => ?_⟩
      · cases h
      · cases h.2.1

end State

namespace Document

theorem ofLines_eq (strict : Bool) (lines : List Line) :
    ofLines strict lines = State.start.run strict lines >>= State.finish := rfl

/-- A source is read if its lines leave nothing open. -/
theorem parse_eq_ok_iff {strict : Bool} {source : Text} {d : Document} :
    parse strict source = .ok d ↔
      ∃ s, State.start.run strict (Line.ofSource source) = .ok s ∧ s.finish = .ok d :=
  Outcome.bind_eq_ok_iff

end Document
end BlockText
