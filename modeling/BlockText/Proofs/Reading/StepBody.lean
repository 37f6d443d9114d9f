/-
Bodies of steps.

The body of a definition, a trigger or a context call is the lines behind its header up to the first one
that closes it, where lines that close a construct inside it do not count.  `State.readBody` reads as far
as this, and then the closing line is taken (`State.takeUntil_eq_readBody`).

In a plain body the calls are in the lines as they are in the tree: a line is a call unless it is blank,
a comment or a bracket, and a call is as deep as there are brackets open before it
(`StepBody.entries`).  In the tree a call stands in front of the steps that it carries, and these are one
deeper (`Step.preorder`).  One line adds the same entry to both (`StepBody.Inside.exists_step`), so in the
end they are the same (`State.readBody_entries`).
-/
import BlockText.Proofs.Reading.Above
import BlockText.Proofs.Reading.Plain

namespace BlockText

/-! ## The body of a construct -/

namespace State

/-- Takes lines up to the first one that closes the innermost construct while `depth` constructs are
open.  Gives the state behind the others, these lines, and the lines from the closing one on. -/
def readBody (strict : Bool) (depth : Nat) (s : State) :
    List Line → Except ParseError (State × List Line × List Line)
  | [] => do
    let _ ← s.finish
    return (s, [], [])
  | line :: rest =>
    if s.depth = depth ∧ s.closedBy line.trimmed = true then .ok (s, [], line :: rest)
    else do
      let next ← s.step strict line
      (readBody strict depth next rest).map fun r => (r.1, line :: r.2.1, r.2.2)

variable {strict : Bool} {base s t : State} {line : Line}

theorem depth_of_verbatim (hv : s.verbatim = none) : s.depth = s.frames.length := by
  rw [depth, hv]
  rfl

theorem length_frames_le_depth (s : State) : s.frames.length ≤ s.depth := Nat.le_add_right _ _

theorem length_frames_settle (s : State) (node : Option Node) :
    (s.settle node).frames.length = s.frames.length := by
  cases node with
  | none => rfl
  | some node =>
    rw [settle_some, add]
    cases s.frames <;> rfl

theorem length_frames_resume (s : State) (header : Line) (r : Verbatim ⊕ Node) :
    (s.resume header r).frames.length = s.frames.length := by
  cases r with
  | inl v => rfl
  | inr node => exact length_frames_settle { s with verbatim := none } (some node)

/-- A line that does not close the outermost of the constructs above a base leaves it open. -/
theorem length_frames_of_move (hv : base.verbatim = none)
    (hd : base.frames.length < s.frames.length)
    (hc : ¬ (s.depth = base.depth + 1 ∧ s.closedBy line.trimmed = true))
    (hm : Move strict s line t) : base.frames.length < t.frames.length := by
  cases hm with
  | resumed =>
    rw [length_frames_resume]
    exact hd
  | closed hsv hf hcl hn =>
    rename_i f rest node
    have hclosed : s.closedBy line.trimmed = true := by
      rw [closedBy, hf]
      exact hcl
    have hdepth : s.depth ≠ base.depth + 1 := fun h => hc ⟨h, hclosed⟩
    rw [depth_of_verbatim hsv, depth_of_verbatim hv, hf, List.length_cons] at hdepth
    rw [hf, List.length_cons] at hd
    rw [length_frames_settle]
    show base.frames.length < rest.length
    omega
  | blank => exact hd
  | comment =>
    rw [length_frames_resume]
    exact hd
  | called => exact (length_frames_settle s (some _)).symm ▸ hd
  | escaped => exact hd
  | opened => exact Nat.lt_succ_of_lt hd

/-- The line that closes the outermost of the constructs above a base leaves nothing above the base. -/
theorem depth_of_closing (hv : base.verbatim = none) (hd : base.frames.length < s.frames.length)
    (hc : s.depth = base.depth + 1 ∧ s.closedBy line.trimmed = true) (hm : Move strict s line t) :
    t.depth ≤ base.depth := by
  obtain ⟨hdepth, hclosed⟩ := hc
  have hunfree : ¬ s.Free line := by
    intro hl
    rw [hl.unclosed] at hclosed
    cases hclosed
  cases hm with
  | resumed hs =>
    rw [depth, hs, depth_of_verbatim hv] at hdepth
    simp only [Option.isSome_some, if_true] at hdepth
    omega
  | closed hs hf hcl hn =>
    rename_i f rest node
    have hquiet : (({ s with frames := rest } : State).settle node).verbatim = none :=
      (verbatim_settle _ node).trans hs
    rw [depth_of_verbatim hs, hf, List.length_cons] at hdepth
    rw [depth_of_verbatim hquiet, length_frames_settle]
    show rest.length ≤ base.depth
    omega
  | blank hl | comment hl | called hl | escaped hl | opened hl => exact absurd hl hunfree

/-- Reading as far as a construct goes is reading its body and taking the closing line. -/
theorem takeUntil_eq_readBody (hv : base.verbatim = none)
    (hd : base.frames.length < s.frames.length) (lines : List Line) :
    s.takeUntil strict base.depth lines =
      s.readBody strict (base.depth + 1) lines >>= fun r =>
        match r.2.2 with
        | [] => .ok (r.1, [])
        | close :: after => (r.1.step strict close).map fun t => (t, close :: after) := by
  induction lines generalizing s with
  | nil =>
    rw [takeUntil, readBody]
    cases s.finish <;> rfl
  | cons line lines ih =>
    rw [takeUntil, readBody]
    by_cases hc : s.depth = base.depth + 1 ∧ s.closedBy line.trimmed = true
    · rw [if_pos hc]
      show _ = (s.step strict line).map _
      cases hs : s.step strict line with
      | error e => rfl
      | ok t =>
        show (if t.depth ≤ base.depth then _ else _) = _
        rw [if_pos (depth_of_closing hv hd hc (move_of_step hs))]
        rfl
    · rw [if_neg hc]
      cases hs : s.step strict line with
      | error e => rfl
      | ok t =>
        have hlength := length_frames_of_move hv hd hc (move_of_step hs)
        have hdepth : ¬ t.depth ≤ base.depth := by
          have hle := length_frames_le_depth t
          rw [depth_of_verbatim hv]
          omega
        show (if t.depth ≤ base.depth then _ else _) = _
        rw [if_neg hdepth, ih hlength]
        show _ = (t.readBody strict (base.depth + 1) lines).map _ >>= _
        cases t.readBody strict (base.depth + 1) lines <;> rfl

end State

/-! ## The calls of a body -/

namespace StepBody

/-- An entry in a list of steps, without the steps that it carries. -/
inductive Entry
  /-- A call at this depth, which carries steps or does not, as its text is read. -/
  | call (depth : Int) (carries : Bool) (call : Except NameError Call)
  | escape (depth : Int)

/-- The line is a comment behind slashes. -/
def isSlashed (line : Line) : Bool := ['/', '/'].isPrefixOf line.trimmed

/-- The line is a bracket that closes, alone. -/
def isBracket (line : Line) : Bool := line.trimmed == [']']

/-- The line ends with a bracket that opens, and is no comment. -/
def opensCall (line : Line) : Bool := Category.endsWith ['['] line.trimmed && !isSlashed line

/-- The line is a call. -/
def isCall (line : Line) : Bool := !line.text.isBlank && !isSlashed line && !isBracket line

/-- The number of brackets that are open behind these lines. -/
def depthBehind (earlier : List Line) : Int :=
  earlier.countP opensCall - earlier.countP isBracket

/-- The entry of a line at this depth, if it is a call: the call is the text without the bracket at its
end. -/
def entryAt (depth : Int) (line : Line) : Option Entry :=
  if isCall line then
    some (.call depth (Category.endsWith ['['] line.trimmed)
      (Call.read (Text.dropSuffix ['['] line.trimmed)))
  else none

/-- The entries of lines behind these. -/
def entries (earlier : List Line) : List Line → List Entry
  | [] => []
  | line :: rest => (entryAt (depthBehind earlier) line).toList ++ entries (earlier ++ [line]) rest

/-- How many more brackets are open behind a line. -/
def rise (line : Line) : Int :=
  (if opensCall line then 1 else 0) - (if isBracket line then 1 else 0)

theorem depthBehind_snoc (earlier : List Line) (line : Line) :
    depthBehind (earlier ++ [line]) = depthBehind earlier + rise line := by
  rw [depthBehind, depthBehind, rise, List.countP_append, List.countP_append, List.countP_singleton,
    List.countP_singleton]
  split <;> split <;> push_cast <;> omega

theorem entries_snoc (earlier lines : List Line) (line : Line) :
    entries earlier (lines ++ [line]) =
      entries earlier lines ++ (entryAt (depthBehind (earlier ++ lines)) line).toList := by
  induction lines generalizing earlier with
  | nil => rw [List.nil_append, entries, entries, entries, List.append_nil, List.append_nil,
      List.nil_append]
  | cons l lines ih =>
    rw [List.cons_append, entries, entries, ih, List.append_assoc, List.append_assoc,
      List.singleton_append]

end StepBody

mutual

/-- The entries of a step at this depth: the step itself in front of those that it carries. -/
def Step.preorder (depth : Int) : Step → List StepBody.Entry
  | .call name args => [.call depth false (.ok ⟨name, args⟩)]
  | .context name args steps _ =>
    .call depth true (.ok ⟨name, args⟩) :: Step.preorderOf (depth + 1) steps
  | .hosted _ _ => [.escape depth]

/-- The entries of steps at this depth, in order. -/
def Step.preorderOf (depth : Int) : List Step → List StepBody.Entry
  | [] => []
  | s :: rest => s.preorder depth ++ Step.preorderOf depth rest

end

theorem Step.preorderOf_snoc (depth : Int) (steps : List Step) (s : Step) :
    Step.preorderOf depth (steps ++ [s]) = Step.preorderOf depth steps ++ s.preorder depth := by
  induction steps with
  | nil => rw [List.nil_append, preorderOf, preorderOf, preorderOf, List.append_nil, List.nil_append]
  | cons t steps ih => rw [List.cons_append, preorderOf, preorderOf, ih, List.append_assoc]

/-! ## What a line of each kind says -/

/-- A call is read alike with white space behind it. -/
theorem Call.read_append_of_blank {text blank : Text} {call : Call} (h : read text = .ok call)
    (hb : blank.isBlank = true) : read (text ++ blank) = .ok call := by
  obtain ⟨hblank, hnumeral, literal, hs, hname⟩ := read_eq_ok_iff.mp h
  have hplain := spells_of_plain maxNesting fun c hc => isPlain_of_isSpace (Text.isBlank_iff.mp hb c hc)
  have happ := hs.append hplain
  rw [List.append_nil] at happ
  refine read_eq_ok_iff.mpr ⟨?_, ?_, _, happ, ?_⟩
  · rw [Text.isBlank_append, hblank, Bool.false_and]
  · rw [Number.isNumeral_congr (Text.trim_append_of_blank text hb), hnumeral]
  · rw [hname, Text.collapse, Text.collapse, Text.words_append_blank literal hb]

namespace StepBody

variable {line : Line} {call : Call}

theorem of_bracket (h : line.trimmed = [']']) (depth : Int) :
    entryAt depth line = none ∧ rise line = -1 := by
  have hbracket : isBracket line = true := beq_iff_eq.mpr h
  have hopens : opensCall line = false := by
    rw [opensCall, h]
    rfl
  rw [entryAt, rise, isCall, hbracket, hopens, Bool.not_true, Bool.and_false]
  exact ⟨rfl, rfl⟩

theorem of_blank (h : line.text.isBlank = true) (depth : Int) :
    entryAt depth line = none ∧ rise line = 0 := by
  have htrim : line.trimmed = [] := Text.trim_of_blank h
  rw [entryAt, rise, isCall, h, opensCall, isBracket, htrim]
  exact ⟨rfl, rfl⟩

theorem of_slashed (h : ['/', '/'] <+: line.trimmed) (depth : Int) :
    entryAt depth line = none ∧ rise line = 0 := by
  have hslashed : isSlashed line = true := List.isPrefixOf_iff_prefix.mpr h
  have hbracket : isBracket line = false := by
    obtain ⟨rest, hrest⟩ := h
    rw [isBracket, ← hrest]
    rfl
  rw [entryAt, rise, isCall, opensCall, hslashed, hbracket, Bool.not_true, Bool.and_false,
    Bool.and_false, Bool.false_and]
  exact ⟨rfl, rfl⟩

/-- A line that is neither blank nor a comment. -/
theorem of_called (hb : Category.ofLine line.text ≠ .blank)
    (hc : Category.ofLine line.text ≠ .comment) :
    line.text.isBlank = false ∧ isSlashed line = false := by
  refine ⟨Line.isBlank_eq_false hb, Bool.eq_false_iff.mpr fun hs => hc ?_⟩
  obtain ⟨rest, hrest⟩ := List.isPrefixOf_iff_prefix.mp hs
  exact @Comment.ofLine_mark line.text rest '/' hrest.symm (Or.inl rfl)

theorem of_stepCall (hcat : Category.ofLine line.text = .stepCall) (hne : line.trimmed ≠ [']'])
    (hr : Call.read line.trimmed = .ok call) (depth : Int) :
    entryAt depth line = some (.call depth false (.ok call)) ∧ rise line = 0 := by
  obtain ⟨hblank, hslashed⟩ := @of_called line (by rw [hcat]; decide) (by rw [hcat]; decide)
  have hbracket : isBracket line = false := beq_eq_false_iff_ne.mpr hne
  have hsuffix : ¬ ['['] <:+ line.trimmed := fun hs =>
    Call.openBracket_not_mem hr (hs.subset List.mem_cons_self)
  have hends : Category.endsWith ['['] line.trimmed = false :=
    Bool.eq_false_iff.mpr (mt List.isSuffixOf_iff_suffix.mp hsuffix)
  rw [entryAt, rise, isCall, opensCall, hblank, hslashed, hbracket, hends,
    Text.dropSuffix_of_not_suffix hsuffix, hr]
  exact ⟨rfl, rfl⟩

theorem of_contextCall (hcat : Category.ofLine line.text = .contextCall)
    (hr : Call.read (Opening.headerText [] line) = .ok call) (depth : Int) :
    entryAt depth line = some (.call depth true (.ok call)) ∧ rise line = 1 := by
  obtain ⟨hblank, hslashed⟩ := @of_called line (by rw [hcat]; decide) (by rw [hcat]; decide)
  have hends : Category.endsWith ['['] line.trimmed = true :=
    Category.acceptsTrimmed_of_ofLine hcat (by decide)
  obtain ⟨b, hb, htrim⟩ := headerText_bracket hends
  have hbracket : isBracket line = false := by
    rw [isBracket, beq_eq_false_iff_ne]
    intro h
    rw [h] at hends
    cases hends
  have hdrop : Text.dropSuffix ['['] line.trimmed = Opening.headerText [] line ++ b := by
    conv_lhs => rw [htrim]
    exact Text.dropSuffix_append _ _
  rw [entryAt, rise, isCall, opensCall, hblank, hslashed, hbracket, hends, hdrop,
    Call.read_append_of_blank hr hb]
  exact ⟨rfl, rfl⟩

end StepBody

/-! ## One line -/

namespace StepBody

/-- What a finished construct adds to a body at this depth. -/
def nodeEntries (depth : Int) : Node → List Entry
  | .step s => s.preorder depth
  | _ => []

/-- The entry of a header at this depth. -/
def headerEntries (depth : Int) : Opening → List Entry
  | .contextCall call => [.call depth true (.ok call)]
  | _ => []

/-- The entries of a body with these contents and these constructs open in it, the innermost one
first. -/
def written (b : Contents) : List Frame → List Entry
  | [] => Step.preorderOf 0 b.steps
  | g :: gs =>
    written b gs ++ headerEntries gs.length g.opening ++
      Step.preorderOf (gs.length + 1) g.contents.steps

theorem preorderOf_add (depth : Int) (b : Contents) (node : Node) :
    Step.preorderOf depth (b.add node).steps =
      Step.preorderOf depth b.steps ++ nodeEntries depth node := by
  cases node with
  | step s => exact Step.preorderOf_snoc depth b.steps s
  | _ => exact (List.append_nil _).symm

/-- The construct with this header holds this, and these context calls are open in it. -/
structure Inside (s : State) (header : Line) (o : Opening) (gs : List Frame) (b : Contents)
    (t : State) : Prop where
  top : t.top = s.top
  verbatim : t.verbatim = none
  frames : t.frames = gs ++ ⟨header, o, b⟩ :: s.frames
  contexts : ∀ g ∈ gs, g.opening.category = .contextCall

namespace Inside

variable {s t u : State} {header : Line} {o : Opening} {gs : List Frame} {b : Contents}
  {strict : Bool} {line : Line}

/-- What is finished comes behind all that there is. -/
theorem exists_add (h : Inside s header o gs b t) (node : Node) :
    ∃ gs' b', Inside s header o gs' b' (t.add node) ∧ gs'.length = gs.length ∧
      written b' gs' = written b gs ++ nodeEntries gs.length node := by
  obtain ⟨ht, hv, hf, hg⟩ := h
  cases gs with
  | nil =>
    have hadd : t.add node = { t with frames := ⟨header, o, b.add node⟩ :: s.frames } := by
      rw [State.add, hf]
      rfl
    refine ⟨[], b.add node, ?_, rfl, preorderOf_add 0 b node⟩
    rw [hadd]
    exact ⟨ht, hv, rfl, hg⟩
  | cons g gs =>
    have hadd : t.add node = { t with frames :=
        { g with contents := g.contents.add node } :: (gs ++ ⟨header, o, b⟩ :: s.frames) } := by
      rw [State.add, hf]
      rfl
    refine ⟨{ g with contents := g.contents.add node } :: gs, b, ?_, rfl, ?_⟩
    · rw [hadd]
      exact ⟨ht, hv, rfl, List.forall_mem_cons.mpr (List.forall_mem_cons.mp hg)⟩
    · show written b gs ++ headerEntries gs.length g.opening ++
        Step.preorderOf (gs.length + 1) (g.contents.add node).steps = _
      rw [preorderOf_add, ← List.append_assoc]
      rfl

theorem parent (h : Inside s header o gs b t)
    (ho : Category.permits (some o.category) .stepCall = true) :
    ∃ c, t.parent = some c ∧ Category.permits (some c) .stepCall = true := by
  rw [State.parent, h.frames]
  cases gs with
  | nil => exact ⟨_, rfl, ho⟩
  | cons g gs => exact ⟨_, congrArg some (h.contexts g List.mem_cons_self), rfl⟩

/-- Where calls may stand, the only constructs that may be opened are context calls. -/
theorem exists_contextCall {c : Category} {o : Opening}
    (hc : Category.permits (some c) .stepCall = true)
    (ho : Category.permits (some c) o.category = true) : ∃ call, o = .contextCall call := by
  cases o with
  | contextCall call => exact ⟨call, rfl⟩
  | _ => cases c <;> first | (cases hc; done) | cases ho

/-- Every construct is closed by a bracket alone. -/
theorem closesOn_bracket (o : Opening) : o.closesOn [']'] = true := by
  cases o <;> rfl

theorem trimmed_ne (h : Inside s header o gs b t) (hl : t.Free line) : line.trimmed ≠ [']'] := by
  intro hb
  have hu := hl.unclosed
  rw [State.closedBy, h.frames, hb] at hu
  cases gs with
  | nil => exact absurd (closesOn_bracket o) (Bool.eq_false_iff.mp hu)
  | cons g gs => exact absurd (closesOn_bracket g.opening) (Bool.eq_false_iff.mp hu)

/-- A closing bracket makes a step of the innermost context call, which was written already. -/
theorem exists_closed {g : Frame} (h : Inside s header o (g :: gs) b t) {node : Option Node}
    (hc : g.opening.closesOn line.trimmed = true) (hn : g.opening.close g.contents line = .ok node) :
    line.trimmed = [']'] ∧ ∃ gs' b',
      Inside s header o gs' b'
        (({ t with frames := gs ++ ⟨header, o, b⟩ :: s.frames } : State).settle node) ∧
      gs'.length = gs.length ∧ written b' gs' = written b (g :: gs) := by
  obtain ⟨ht, hv, -, hcalls⟩ := h
  obtain ⟨hcat, hrest⟩ := List.forall_mem_cons.mp hcalls
  obtain ⟨gheader, go, gb⟩ := g
  cases go with
  | contextCall call =>
    cases hn
    have hinner : Inside s header o gs b { t with frames := gs ++ ⟨header, o, b⟩ :: s.frames } :=
      ⟨ht, hv, rfl, hrest⟩
    obtain ⟨gs', b', hinside, hlength, hwritten⟩ := hinner.exists_add
      (.step (.context call.name call.args gb.steps gb.comments))
    refine ⟨beq_iff_eq.mp hc, gs', b', hinside, hlength, ?_⟩
    rw [hwritten, written, List.append_assoc]
    rfl
  | _ => cases hcat

/-- One line adds its entry to what is written, and opens or closes as many brackets as it says. -/
theorem exists_step (h : Inside s header o gs b t) (hs : s.verbatim = none)
    (ho : Category.permits (some o.category) .stepCall = true) (hl : line.Plain)
    (hc : ¬ (t.depth = s.depth + 1 ∧ t.closedBy line.trimmed = true))
    (hm : State.Move strict t line u) :
    ∃ gs' b', Inside s header o gs' b' u ∧ (gs'.length : Int) = gs.length + rise line ∧
      written b' gs' = written b gs ++ (entryAt gs.length line).toList := by
  cases hm with
  | resumed hv =>
    rw [h.verbatim] at hv
    cases hv
  | closed hv hf hcl hn =>
    rename_i f rest node
    cases gs with
    | nil =>
      have hdepth : t.depth = s.depth + 1 := by
        rw [State.depth_of_verbatim hv, State.depth_of_verbatim hs, h.frames]
        rfl
      have hclosed : t.closedBy line.trimmed = true := by
        rw [State.closedBy, hf]
        exact hcl
      exact absurd ⟨hdepth, hclosed⟩ hc
    | cons g gs =>
      have hframes := h.frames
      rw [hf] at hframes
      cases hframes
      obtain ⟨hbracket, gs', b', hinside, hlength, hwritten⟩ := h.exists_closed hcl hn
      obtain ⟨hentry, hrise⟩ := of_bracket hbracket (List.length (f :: gs))
      refine ⟨gs', b', hinside, ?_, ?_⟩
      · rw [hlength, hrise, List.length_cons]
        omega
      · rw [hwritten, hentry]
        exact (List.append_nil _).symm
  | blank hfree hcat =>
    obtain ⟨hentry, hrise⟩ := of_blank (Line.ofLine_eq_blank_iff.mp
      (State.categorize_eq_ok_iff.mp hcat).1) gs.length
    refine ⟨gs, b, h, by rw [hrise, add_zero], ?_⟩
    rw [hentry]
    exact (List.append_nil _).symm
  | comment hfree hcat =>
    have hcomment := (State.categorize_eq_ok_iff.mp hcat).1
    obtain ⟨hentry, hrise⟩ := of_slashed (hl.slashes_iff.mp hcomment) gs.length
    obtain ⟨c, hstart⟩ := hl.exists_start hcomment
    obtain ⟨gs', b', hinside, hlength, hwritten⟩ := h.exists_add (.comment c)
    rw [hstart, Sum.map_inr, State.resume_inr h.verbatim]
    refine ⟨gs', b', hinside, by rw [hlength, hrise, add_zero], ?_⟩
    rw [hwritten, hentry]
    rfl
  | called hfree hcat hp hr =>
    rename_i call
    obtain ⟨hentry, hrise⟩ := of_stepCall (State.categorize_eq_ok_iff.mp hcat).1
      (h.trimmed_ne hfree) hr gs.length
    obtain ⟨gs', b', hinside, hlength, hwritten⟩ := h.exists_add (.step (.call call.name call.args))
    refine ⟨gs', b', hinside, by rw [hlength, hrise, add_zero], ?_⟩
    rw [hwritten, hentry]
    rfl
  | escaped hfree hcat => exact absurd (State.categorize_eq_ok_iff.mp hcat).1 hl.free
  | opened hfree hcat hp hsays =>
    obtain ⟨c, hparent, hpermits⟩ := h.parent ho
    rw [hparent] at hp
    obtain ⟨call, rfl⟩ := exists_contextCall hpermits hp
    cases hsays with
    | contextCall hd hr =>
      obtain ⟨hentry, hrise⟩ := of_contextCall (State.categorize_eq_ok_iff.mp hcat).1 hr gs.length
      refine ⟨⟨line, .contextCall call, .empty⟩ :: gs, b, ⟨h.top, h.verbatim, ?_, ?_⟩, ?_, ?_⟩
      · rw [State.push, h.frames]
        rfl
      · exact List.forall_mem_cons.mpr ⟨rfl, h.contexts⟩
      · rw [hrise]
        rfl
      · rw [hentry, written]
        exact List.append_nil _

/-- With nothing open in it, the construct is the innermost one. -/
theorem eq_of_depth (h : Inside s header o gs b t) (hs : s.verbatim = none)
    (hd : t.depth = s.depth + 1) :
    gs = [] ∧ t = { s with frames := ⟨header, o, b⟩ :: s.frames } := by
  obtain ⟨ht, hv, hf, -⟩ := h
  have hnil : gs = [] := by
    rw [State.depth_of_verbatim hv, State.depth_of_verbatim hs, hf, List.length_append,
      List.length_cons] at hd
    exact List.length_eq_zero_iff.mp (by omega)
  subst hnil
  refine ⟨rfl, ?_⟩
  obtain ⟨top, frames, verbatim⟩ := t
  obtain ⟨stop, sframes, sverbatim⟩ := s
  cases ht
  cases hv
  cases hf
  cases hs
  rfl

/-- A plain body is read to its end, and then its entries are those of its lines. -/
theorem exists_body {earlier lines body rest : List Line} (h : Inside s header o gs b t)
    (hs : s.verbatim = none) (ho : Category.permits (some o.category) .stepCall = true)
    (hd : depthBehind earlier = gs.length) (hw : entries [] earlier = written b gs)
    (hread : t.readBody strict (s.depth + 1) lines = .ok (u, body, rest))
    (hplain : ∀ line ∈ body, line.Plain) :
    ∃ close after b', lines = body ++ close :: after ∧ rest = close :: after ∧
      o.closesOn close.trimmed = true ∧ u = { s with frames := ⟨header, o, b'⟩ :: s.frames } ∧
      entries [] (earlier ++ body) = Step.preorderOf 0 b'.steps := by
  -- On the lines; what carries it is that the lines so far and what is open say the same.
  induction lines generalizing t gs b earlier body with
  | nil =>
    obtain ⟨d, hfinish, -⟩ := Outcome.bind_eq_ok_iff.mp hread
    have hf := (State.finish_eq_ok_iff.mp hfinish).2.1
    rw [h.frames] at hf
    exact absurd hf (List.append_ne_nil_of_right_ne_nil gs (List.cons_ne_nil _ _))
  | cons line lines ih =>
    rw [State.readBody] at hread
    by_cases hc : t.depth = s.depth + 1 ∧ t.closedBy line.trimmed = true
    · rw [if_pos hc] at hread
      cases hread
      obtain ⟨rfl, ht⟩ := h.eq_of_depth hs hc.1
      have hclosed := hc.2
      rw [ht] at hclosed
      refine ⟨line, lines, b, rfl, rfl, hclosed, ht, ?_⟩
      rw [List.append_nil, hw]
      rfl
    · rw [if_neg hc] at hread
      obtain ⟨next, hstep, hread⟩ := Outcome.bind_eq_ok_iff.mp hread
      obtain ⟨⟨u', body', rest'⟩, hrest, hr⟩ := Outcome.map_eq_ok_iff.mp hread
      cases hr
      obtain ⟨hline, hbody⟩ := List.forall_mem_cons.mp hplain
      obtain ⟨gs', b', hnext, hlength, hwritten⟩ :=
        h.exists_step hs ho hline hc (State.move_of_step hstep)
      have hd' : depthBehind (earlier ++ [line]) = gs'.length := by
        rw [depthBehind_snoc, hd, hlength]
      have hw' : entries [] (earlier ++ [line]) = written b' gs' := by
        rw [entries_snoc, List.nil_append, hd, hw, hwritten]
      obtain ⟨close, after, b'', hlines, hcl, hclose, hu, hentries⟩ := ih hnext hd' hw' hrest hbody
      rw [List.append_assoc, List.singleton_append] at hentries
      exact ⟨close, after, b'', congrArg (List.cons line) hlines, hcl, hclose, hu, hentries⟩

end Inside
end StepBody

namespace State

/-- The body of a definition, a trigger or a context call ends at a line that closes it, and if it is
plain, the steps read from it are the calls in its lines, in order, each as deep as the brackets say. -/
theorem readBody_entries {strict : Bool} {s t : State} {header : Line} {o : Opening}
    {lines body rest : List Line} (hv : s.verbatim = none)
    (ho : Category.permits (some o.category) .stepCall = true)
    (hread : (s.push header o).readBody strict (s.depth + 1) lines = .ok (t, body, rest))
    (hplain : ∀ line ∈ body, line.Plain) :
    ∃ close after b, lines = body ++ close :: after ∧ rest = close :: after ∧
      o.closesOn close.trimmed = true ∧ t = { s with frames := ⟨header, o, b⟩ :: s.frames } ∧
      (s.push header o).takeUntil strict s.depth lines =
        (t.step strict close).map (fun u => (u, rest)) ∧
      StepBody.entries [] body = Step.preorderOf 0 b.steps := by
  have hinside : StepBody.Inside s header o [] .empty (s.push header o) :=
    ⟨rfl, hv, rfl, fun g hg => absurd hg List.not_mem_nil⟩
  have hnone : StepBody.entries [] [] = StepBody.written .empty [] := by
    rw [StepBody.entries, StepBody.written, Contents.empty, Step.preorderOf]
  obtain ⟨close, after, b, hlines, rfl, hclose, ht, hentries⟩ :=
    hinside.exists_body hv ho rfl hnone hread hplain
  refine ⟨close, after, b, hlines, rfl, hclose, ht, ?_, hentries⟩
  rw [takeUntil_eq_readBody hv (Nat.lt_succ_self _), hread]
  rfl

/-- A comment and a blank line are passed over, and the call behind the inner bracket is no deeper than the
one before it. -/
theorem readBody_entries_nested :
    ∃ t b after, (start.push ⟨1, 0, "when go [".toList⟩ (.trigger "go".toList)).readBody true 1
        [⟨2, 10, "a  b [".toList⟩, ⟨3, 17, "// c [".toList⟩, ⟨4, 24, []⟩, ⟨5, 25, "x".toList⟩,
          ⟨6, 27, "]".toList⟩, ⟨7, 29, "y".toList⟩, ⟨8, 31, "]".toList⟩, ⟨9, 33, "]".toList⟩] =
          .ok (t, [⟨2, 10, "a  b [".toList⟩, ⟨3, 17, "// c [".toList⟩, ⟨4, 24, []⟩, ⟨5, 25, "x".toList⟩,
            ⟨6, 27, "]".toList⟩, ⟨7, 29, "y".toList⟩], after) ∧
      t.frames.map (·.contents) = [b] ∧
      Step.preorderOf 0 b.steps = [.call 0 true (.ok ⟨"a b".toList, []⟩),
        .call 1 false (.ok ⟨"x".toList, []⟩), .call 0 false (.ok ⟨"y".toList, []⟩)] := by
  obtain ⟨t, after, hread⟩ : ∃ t after,
      (start.push ⟨1, 0, "when go [".toList⟩ (.trigger "go".toList)).readBody true 1
        [⟨2, 10, "a  b [".toList⟩, ⟨3, 17, "// c [".toList⟩, ⟨4, 24, []⟩, ⟨5, 25, "x".toList⟩,
          ⟨6, 27, "]".toList⟩, ⟨7, 29, "y".toList⟩, ⟨8, 31, "]".toList⟩, ⟨9, 33, "]".toList⟩] =
          .ok (t, [⟨2, 10, "a  b [".toList⟩, ⟨3, 17, "// c [".toList⟩, ⟨4, 24, []⟩, ⟨5, 25, "x".toList⟩,
            ⟨6, 27, "]".toList⟩, ⟨7, 29, "y".toList⟩], after) := ⟨_, _, rfl⟩
  obtain ⟨close, after', b, -, -, -, ht, -, hentries⟩ :=
    @readBody_entries true start t _ (.trigger "go".toList) _ _ _ rfl rfl hread (by decide)
  refine ⟨t, b, after, hread, by rw [ht]; rfl, hentries.symm.trans rfl⟩

end State
end BlockText
