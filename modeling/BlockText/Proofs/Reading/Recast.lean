/-
Changes of lines that a reading goes along with.

A `Recast` changes lines, and with them what a state keeps of lines: headers, escapes, and finished
constructs.  Its laws say of each small part that the change goes along with it, none of them of the
reader.  Taking a recast line in a recast state is then taking the line and recasting the outcome
(`Recast.step`), errors included, and so for whole runs (`Recast.run`).

The one law that a change may keep for some states only is that of lines taken as they are
(`Recast.Suits`), since a state can be made that holds code of no source.
-/
import BlockText.Proofs.Reading.Step

namespace BlockText

@[simp] theorem ParseError.place_on (e : ParseError) (line : Line) : (e.on line).place = line := by
  cases e <;> rfl

theorem ParseError.on_on (e : ParseError) (line line' : Line) :
    (e.on line).on line' = e.on line' := by
  cases e <;> rfl

/-- A construct that is left as it is, is finished as it is. -/
theorem Opening.close_map_id (o : Opening) (b : Contents) (line : Line) :
    o.close b line = (o.close b line).map (Option.map id) := by
  cases o.close b line with
  | error e => rfl
  | ok node => cases node <;> rfl

structure Recast where
  line : Line → Line
  node : Node → Node
  verbatim : Verbatim → Verbatim
  /-- The contents of an open construct. -/
  contents : Contents → Contents
  /-- What stands outside all constructs. -/
  top : Contents → Contents
  trimmed_line : ∀ l, (line l).trimmed = l.trimmed
  contents_empty : contents .empty = .empty
  contents_add : ∀ b n, contents (b.add n) = (contents b).add (node n)
  top_add : ∀ b n, top (b.add n) = (top b).add (node n)
  close : ∀ (o : Opening) b l, o.close (contents b) l = (o.close b l).map (Option.map node)
  node_comment : ∀ c, node (.comment c) = .comment c
  node_call : ∀ name args, node (.step (.call name args)) = .step (.call name args)
  verbatim_comment : ∀ pieces, verbatim (.comment pieces) = .comment pieces
  verbatim_hosted : ∀ returns, verbatim (.hosted returns []) = .hosted returns []
  category_verbatim : ∀ v, (verbatim v).category = v.category

namespace Recast

variable (c : Recast)

def frame (f : Frame) : Frame := ⟨c.line f.header, f.opening, c.contents f.contents⟩

def state (s : State) : State :=
  ⟨c.top s.top, s.frames.map c.frame, s.verbatim.map fun p => (c.line p.1, c.verbatim p.2)⟩

def error (e : ParseError) : ParseError := e.on (c.line e.place)

/-- A state that is reached is recast as a state, an error as an error. -/
def outcome (r : Except ParseError State) : Except ParseError State :=
  (r.map c.state).mapError c.error

theorem error_on (e : ParseError) (line : Line) : c.error (e.on line) = e.on (c.line line) := by
  rw [error, ParseError.place_on, ParseError.on_on]

/-- The error of a line is recast to one of the recast line. -/
theorem error_at {e : ParseError} {line : Line} (h : e = e.on line) :
    c.error e = e.on (c.line line) := by
  rw [h, error_on, ParseError.on_on]

/-! ## Recast states -/

section state

variable (s : State)

theorem closedBy_state (t : Text) : (c.state s).closedBy t = s.closedBy t := by
  rw [State.closedBy, State.closedBy, state]
  cases s.frames <;> rfl

theorem free_state {line : Line} (h : s.Free line) : (c.state s).Free (c.line line) := by
  refine ⟨?_, ?_⟩
  · rw [state, h.verbatim]
    rfl
  · rw [closedBy_state, c.trimmed_line]
    exact h.unclosed

theorem parent_state : (c.state s).parent = s.parent := by
  rw [State.parent, State.parent, state]
  cases s.frames <;> rfl

theorem block_state : (c.state s).block = s.block := by
  rw [State.block, State.block, state]
  cases s.frames <;> rfl

theorem contextDepth_state : (c.state s).contextDepth = s.contextDepth := by
  rw [State.contextDepth, State.contextDepth, state, List.countP_map]
  rfl

theorem state_add (node : Node) : c.state (s.add node) = (c.state s).add (c.node node) := by
  cases hf : s.frames with
  | nil =>
    rw [State.add, State.add, state, state, hf]
    show State.mk (c.top (s.top.add node)) _ _ = _
    rw [c.top_add, List.map_nil]
  | cons f rest =>
    rw [State.add, State.add, state, state, hf]
    show State.mk _ (⟨_, _, c.contents (f.contents.add node)⟩ :: _) _ = _
    rw [c.contents_add]
    rfl

theorem state_settle (node : Option Node) :
    c.state (s.settle node) = (c.state s).settle (node.map c.node) := by
  cases node with
  | none => rfl
  | some node => exact c.state_add s node

theorem state_push (header : Line) (o : Opening) :
    c.state (s.push header o) = (c.state s).push (c.line header) o := by
  rw [State.push, State.push, state, List.map_cons, frame, c.contents_empty]
  rfl

theorem state_resume (header : Line) (r : Verbatim ⊕ Node) :
    c.state (s.resume header r) =
      (c.state s).resume (c.line header) (r.map c.verbatim c.node) := by
  cases r with
  | inl v => rfl
  | inr node => exact c.state_add { s with verbatim := none } node

end state

/-! ## Recast lines -/

/-- Where the state takes the line as it is, the change goes along with that. -/
def Suits (s : State) (line : Line) : Prop :=
  ∀ header v, s.verbatim = some (header, v) →
    (c.verbatim v).take (c.line line) = (v.take line).map c.verbatim c.node

/-- A change of the places of lines alone goes along with it. -/
theorem suits_of_text {s : State} {line : Line} (hline : (c.line line).text = line.text)
    (hverbatim : ∀ v, c.verbatim v = v) (hnode : ∀ n, c.node n = n) : c.Suits s line := by
  intro header v _
  rw [hverbatim, Verbatim.take_congr hline, funext hverbatim, funext hnode]
  exact (congrFun Sum.map_id_id (v.take line)).symm

/-- A reader that puts its errors on its line and looks at the trimmed text alone. -/
theorem outcome_map {α : Type} {line : Line} {r r' : Except ParseError α}
    (h : r' = r.mapError (·.on (c.line line))) (hself : r = r.mapError (·.on line))
    {f f' : α → State} (hf : ∀ x, f' x = c.state (f x)) : r'.map f' = c.outcome (r.map f) := by
  cases r with
  | error e =>
    have he : e = e.on line := Except.error.inj hself
    rw [h]
    exact congrArg Except.error (c.error_at he).symm
  | ok x =>
    rw [h]
    exact congrArg Except.ok (hf x)

/-- What a comment starts with is no part of what a change touches. -/
theorem map_start (t : Text) :
    ((Comment.start t).map id .comment : Verbatim ⊕ Node).map c.verbatim c.node =
      (Comment.start t).map id .comment := by
  rw [Comment.start]
  split
  · exact congrArg Sum.inr (c.node_comment _)
  · rw [Verbatim.takePiece]
    split
    · exact congrArg Sum.inr (c.node_comment _)
    · exact congrArg Sum.inl (c.verbatim_comment _)

/-- The lines of a comment are taken by their trimmed texts. -/
theorem take_comment (pieces : List Text) (line : Line) :
    (c.verbatim (.comment pieces)).take (c.line line) =
      ((Verbatim.comment pieces).take line).map c.verbatim c.node := by
  rw [c.verbatim_comment, Verbatim.take, Verbatim.take, c.trimmed_line, Verbatim.takePiece]
  split
  · exact congrArg Sum.inr (c.node_comment _).symm
  · exact congrArg Sum.inl (c.verbatim_comment _).symm

theorem enter (strict : Bool) (s : State) (line : Line) :
    (c.state s).enter strict (c.line line) = c.outcome (s.enter strict line) := by
  have htrim := c.trimmed_line line
  have hcat := State.categorize_on htrim strict
  cases hc : State.categorize strict line with
  | error e =>
    have he : e = e.on line := by
      have hself := @State.categorize_on line line rfl strict
      rw [hc] at hself
      exact Except.error.inj hself
    rw [hc] at hcat
    rw [State.enter_of_refused hcat, State.enter_of_refused hc]
    exact congrArg Except.error (c.error_at he).symm
  | ok category =>
    rw [hc] at hcat
    replace hcat : State.categorize strict (c.line line) = .ok category := hcat
    by_cases hb : category = .blank
    · subst hb
      rw [State.enter_blank hcat, State.enter_blank hc]
      rfl
    have hparent := c.parent_state s
    cases hp : Category.permits s.parent category with
    | false =>
      have hp' : Category.permits (c.state s).parent category = false := by rw [hparent, hp]
      rw [State.enter_misplaced hcat hb hp', State.enter_misplaced hc hb hp, hparent]
      rfl
    | true =>
      have hp' : Category.permits (c.state s).parent category = true := by rw [hparent, hp]
      rcases Opening.opens_or category with rfl | rfl | rfl | rfl | ho
      · exact absurd rfl hb
      · rw [State.enter_comment hcat hp', State.enter_comment hc hp, htrim]
        show _ = Except.ok (c.state (s.resume _ _))
        rw [c.state_resume, c.map_start]
      · rw [State.enter_stepCall hcat hp', State.enter_stepCall hc hp, htrim]
        refine c.outcome_map (Opening.atLine_on _ _ _) (Opening.atLine_on _ _ _) fun call => ?_
        rw [c.state_add, c.node_call]
      · rw [State.enter_hosted hcat hp', State.enter_hosted hc hp, block_state]
        refine c.outcome_map (hostedReturns_on htrim _) (hostedReturns_on rfl _) fun returns => ?_
        show State.mk _ _ _ = State.mk _ _ (some (c.line line, c.verbatim (.hosted returns [])))
        rw [c.verbatim_hosted]
        rfl
      · rw [State.enter_opens ho hcat hp', State.enter_opens ho hc hp, contextDepth_state]
        refine c.outcome_map (Opening.ofHeader_on htrim _ _) (Opening.ofHeader_on rfl _ _)
          fun o => ?_
        cases o with
        | none => rfl
        | some o => exact (c.state_push s line o).symm

/-- A recast line does the same in the recast state. -/
theorem step (strict : Bool) {s : State} {line : Line} (h : c.Suits s line) :
    (c.state s).step strict (c.line line) = c.outcome (s.step strict line) := by
  rcases State.way s line with ⟨header, v, hv⟩ | ⟨f, rest, hv, hf, hc⟩ | hl
  · have hv' : (c.state s).verbatim = some (c.line header, c.verbatim v) := by
      rw [state, hv]
      rfl
    rw [State.step_resume hv', State.step_resume hv, h header v hv, ← c.state_resume]
    rfl
  · have hv' : (c.state s).verbatim = none := by
      rw [state, hv]
      rfl
    have hf' : (c.state s).frames = c.frame f :: rest.map c.frame := by
      rw [state, hf]
      rfl
    have hc' : (c.frame f).opening.closesOn (c.line line).trimmed = true := by
      rw [c.trimmed_line]
      exact hc
    rw [State.step_close hv' hf' hc', State.step_close hv hf hc]
    have hclose : f.opening.close (c.contents f.contents) (c.line line) =
        ((f.opening.close f.contents line).mapError (·.on (c.line line))).map
          (Option.map c.node) := by
      rw [c.close, Opening.close_on (c.trimmed_line line)]
    rw [show (c.frame f).opening.close (c.frame f).contents (c.line line) = _ from hclose,
      ← Outcome.mapError_map]
    cases hn : f.opening.close f.contents line with
    | error e =>
      have hself := @Opening.close_on line line rfl f.opening f.contents
      rw [hn] at hself
      have he : e = e.on line := Except.error.inj hself
      exact congrArg Except.error (c.error_at he).symm
    | ok node =>
      refine congrArg Except.ok ?_
      rw [c.state_settle]
      rfl
  · rw [State.step_enter (c.free_state s hl), State.step_enter hl, enter]

/-- Recast lines do the same in the recast state, if all states on the way suit the change. -/
theorem run (strict : Bool) {P : State → Prop} {lines : List Line}
    (hstep : ∀ {s t : State}, ∀ line ∈ lines, P s → State.Move strict s line t → P t)
    (hsuits : ∀ {s : State}, ∀ line ∈ lines, P s → c.Suits s line) {s : State} (hs : P s) :
    (c.state s).run strict (lines.map c.line) = c.outcome (s.run strict lines) := by
  induction lines generalizing s with
  | nil => rfl
  | cons line lines ih =>
    rw [List.map_cons, State.run_cons, State.run_cons,
      c.step strict (hsuits line List.mem_cons_self hs)]
    cases ht : s.step strict line with
    | error e => rfl
    | ok t =>
      exact ih (fun l hl => hstep l (List.mem_cons_of_mem line hl))
        (fun l hl => hsuits l (List.mem_cons_of_mem line hl))
        (hstep line List.mem_cons_self hs (State.move_of_step ht))

/-! ## Recast documents -/

section finish

variable {f : Document → Document}
  (hf : ∀ b, (⟨(c.top b).comments, (c.top b).units⟩ : Document) = f ⟨b.comments, b.units⟩)

include hf

/-- What a recast state ends with. -/
theorem finish (s : State) : (c.state s).finish = (s.finish.map f).mapError c.error := by
  rw [State.finish, State.finish, State.innermost?, State.innermost?, state]
  cases hv : s.verbatim with
  | some p =>
    show Except.error (ParseError.line (.unterminated (c.verbatim p.2).category) _) = _
    rw [c.category_verbatim]
    rfl
  | none =>
    cases s.frames with
    | nil => exact congrArg Except.ok (hf s.top)
    | cons frame rest => rfl

/-- Recast lines give the document that is made of a recast one, or the error on the recast line. -/
theorem run_finish (strict : Bool) {P : State → Prop} {lines : List Line}
    (hstep : ∀ {s t : State}, ∀ line ∈ lines, P s → State.Move strict s line t → P t)
    (hsuits : ∀ {s : State}, ∀ line ∈ lines, P s → c.Suits s line) {s : State} (hs : P s) :
    ((c.state s).run strict (lines.map c.line) >>= State.finish) =
      ((s.run strict lines >>= State.finish).map f).mapError c.error := by
  rw [c.run strict hstep hsuits hs]
  cases s.run strict lines with
  | error e => rfl
  | ok t => exact c.finish hf t

end finish

end Recast
end BlockText
