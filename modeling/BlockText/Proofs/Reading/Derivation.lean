/-
How a construct came to be.

`Made` is the derivation of a finished construct from the lines that it was read from: a comment, a
call or an escape from its first line and what followed it, and every other construct from its
header, the constructs that it holds, and its closing line.  A derivation goes along a `Path`, the
openings around the construct, since what may stand in a place depends on these alone.

`State.Derived` says that all that a state holds has a derivation.  One line preserves it
(`derived_of_move`), so every construct of a document that is read has one (`made_of_parse`).
-/
import BlockText.Proofs.Text.Lines
import BlockText.Proofs.Text.Trim
import BlockText.Proofs.Document.Contents
import BlockText.Proofs.Reading.Step

namespace BlockText

/-! ## Places -/

/-- The openings of the constructs around a place, the innermost one first. -/
abbrev Path := List Opening

namespace Path

/-- The category of the innermost construct; none is the file. -/
def parent (path : Path) : Option Category := path.head?.map (·.category)

/-- The number of context calls. -/
def contextDepth (path : Path) : Nat := path.countP (·.category == .contextCall)

/-- The text of a line closes the innermost construct. -/
def closedBy (path : Path) (trimmed : Text) : Bool :=
  match path with
  | [] => false
  | o :: _ => o.closesOn trimmed

/-- The name of the definition that a line stands in. -/
def block (path : Path) : Text := (path.head?.bind (·.definitionName?)).getD []

end Path

namespace State

/-- The place that the next line stands in. -/
def path (s : State) : Path := s.frames.map (·.opening)

theorem parent_path (s : State) : s.path.parent = s.parent := by
  rw [Path.parent, path, parent, List.head?_map, Option.map_map]
  rfl

theorem contextDepth_path (s : State) : s.path.contextDepth = s.contextDepth := by
  rw [Path.contextDepth, path, contextDepth, List.countP_map]
  rfl

theorem closedBy_path (s : State) (trimmed : Text) :
    s.path.closedBy trimmed = s.closedBy trimmed := by
  rw [Path.closedBy.eq_def, path, closedBy]
  cases s.frames <;> rfl

theorem block_path (s : State) : s.path.block = s.block := by
  rw [Path.block, path, block, List.head?_map, Option.bind_map]
  rfl

theorem path_add (s : State) (node : Node) : (s.add node).path = s.path := by
  rw [path, path, add]
  cases s.frames <;> rfl

theorem verbatim_add (s : State) (node : Node) : (s.add node).verbatim = s.verbatim := by
  rw [add]
  cases s.frames <;> rfl

end State

/-! ## Categories of constructs -/

/-- The category of the line that a construct starts with. -/
def Node.category : Node → Category
  | .comment _ => .comment
  | .unit _ => .unit
  | .library _ => .library
  | .sprite _ => .sprite
  | .stage _ => .stage
  | .definition (.block _) => .blockDefinition
  | .definition (.context _) => .contextDefinition
  | .definition (.trigger _) => .triggerDefinition
  | .trigger _ => .trigger
  | .step (.call ..) => .stepCall
  | .step (.context ..) => .contextCall
  | .step (.hosted ..) => .hosted

/-! ## Comments and escapes -/

/-- The texts that comments have: trimmed lines, of which only the last can end like a comment and
only the last can be empty in front. -/
structure Comment.Written (c : Comment) : Prop where
  trimmed : ∀ p ∈ c.text.pieces, Text.Trimmed p
  unended : ∀ p ∈ c.text.pieces.dropLast, ¬ ['*', '/'] <:+ p
  head : c.text.pieces.dropLast.head? ≠ some []

/-- The pieces of a comment that goes on. -/
structure Comment.Pieces (pieces : List Text) : Prop where
  trimmed : ∀ p ∈ pieces, Text.Trimmed p
  feedless : ∀ p ∈ pieces, '\n' ∉ p
  unended : ∀ p ∈ pieces, ¬ ['*', '/'] <:+ p
  head : pieces.head? ≠ some []

/-- A line of an escape. -/
structure IsCode (text : Text) : Prop where
  feedless : '\n' ∉ text
  unended : text.trim ≠ ['@', ']']

theorem Text.feedless_trim {t : Text} (h : '\n' ∉ t) : '\n' ∉ t.trim :=
  fun hm => h (Text.mem_of_mem_trim hm)

namespace Comment

theorem Pieces.nil : Pieces [] :=
  ⟨fun _ h => absurd h List.not_mem_nil, fun _ h => absurd h List.not_mem_nil,
    fun _ h => absurd h List.not_mem_nil, fun h => by cases h⟩

theorem Pieces.snoc {pieces : List Text} (h : Pieces pieces) {piece : Text}
    (ht : Text.Trimmed piece) (hf : '\n' ∉ piece) (hu : ¬ ['*', '/'] <:+ piece)
    (hne : pieces = [] → piece ≠ []) : Pieces (pieces ++ [piece]) where
  trimmed p hp := (List.mem_append.mp hp).elim (h.trimmed p) fun hp => by
    rwa [List.mem_singleton.mp hp]
  feedless p hp := (List.mem_append.mp hp).elim (h.feedless p) fun hp => by
    rwa [List.mem_singleton.mp hp]
  unended p hp := (List.mem_append.mp hp).elim (h.unended p) fun hp => by
    rwa [List.mem_singleton.mp hp]
  head := by
    cases pieces with
    | nil =>
      intro hh
      exact hne rfl (Option.some.inj hh)
    | cons p ps => exact h.head

/-- The comment of one piece more. -/
theorem Pieces.written_snoc {pieces : List Text} (h : Pieces pieces) {piece : Text}
    (ht : Text.Trimmed piece) (hf : '\n' ∉ piece) :
    Written ⟨Text.joinLines (pieces ++ [piece])⟩ := by
  have hp : Text.pieces (Text.joinLines (pieces ++ [piece])) = pieces ++ [piece] := by
    refine Text.pieces_joinLines (fun p hp => ?_) (by simp)
    rcases List.mem_append.mp hp with hp | hp
    · exact h.feedless p hp
    · rwa [List.mem_singleton.mp hp]
  refine ⟨fun p hm => ?_, fun p hm => ?_, ?_⟩
  · rw [hp] at hm
    rcases List.mem_append.mp hm with hm | hm
    · exact h.trimmed p hm
    · rwa [List.mem_singleton.mp hm]
  · rw [hp, List.dropLast_concat] at hm
    exact h.unended p hm
  · rw [hp, List.dropLast_concat]
    exact h.head

theorem Pieces.written {pieces : List Text} (h : Pieces pieces) (hne : pieces ≠ []) :
    Written ⟨Text.joinLines pieces⟩ := by
  obtain ⟨front, last, rfl⟩ : ∃ front last, pieces = front ++ [last] :=
    ⟨_, _, (List.dropLast_append_getLast hne).symm⟩
  have hfront : Pieces front := by
    refine ⟨fun p hp => h.trimmed p (List.mem_append_left _ hp),
      fun p hp => h.feedless p (List.mem_append_left _ hp),
      fun p hp => h.unended p (List.mem_append_left _ hp), ?_⟩
    cases front with
    | nil => exact fun hh => by cases hh
    | cons p ps => exact h.head
  have hmem : last ∈ front ++ [last] := List.mem_append_right _ List.mem_cons_self
  exact hfront.written_snoc (h.trimmed last hmem) (h.feedless last hmem)

/-- A trimmed line ends a comment or leaves it open. -/
theorem Pieces.take {pieces : List Text} (h : Pieces pieces) {piece : Text}
    (ht : Text.Trimmed piece) (hf : '\n' ∉ piece) :
    (∃ c, Verbatim.takePiece pieces piece = .inr c ∧ Written c) ∨
      ∃ pieces', Verbatim.takePiece pieces piece = .inl (.comment pieces') ∧ Pieces pieces' := by
  rw [Verbatim.takePiece]
  cases hs : List.isSuffixOf? ['*', '/'] piece with
  | some last =>
    refine Or.inl ⟨_, rfl, ?_⟩
    have hpiece := List.isSuffixOf?_eq_some_iff_append_eq.mp hs
    have hlast : '\n' ∉ Text.trim last := by
      refine Text.feedless_trim fun hm => hf ?_
      rw [← hpiece]
      exact List.mem_append_left _ hm
    by_cases he : ((Text.trim last).isEmpty && !pieces.isEmpty) = true
    · rw [if_pos he]
      rw [Bool.and_eq_true, Bool.not_eq_true'] at he
      exact h.written (by simpa using he.2)
    · rw [if_neg he]
      exact h.written_snoc (Text.trimmed_trim last) hlast
  | none =>
    refine Or.inr ⟨_, rfl, ?_⟩
    by_cases he : (piece.isEmpty && pieces.isEmpty) = true
    · rw [if_pos he]
      exact h
    · rw [if_neg he]
      refine h.snoc ht hf ?_ ?_
      · rintro ⟨last, hl⟩
        rw [List.isSuffixOf?_eq_some_iff_append_eq.mpr hl] at hs
        cases hs
      · rintro rfl hp
        rw [hp] at he
        exact he rfl

/-- The first line of a comment ends it or leaves it open. -/
theorem start_written {trimmed : Text} (hf : '\n' ∉ trimmed) :
    (∃ c, Comment.start trimmed = .inr c ∧ Written c) ∨
      ∃ pieces, Comment.start trimmed = .inl (.comment pieces) ∧ Pieces pieces := by
  rw [Comment.start]
  cases hs : List.isPrefixOf? ['/', '/'] trimmed with
  | some text =>
    have htext : '\n' ∉ Text.trim text := by
      refine Text.feedless_trim fun hm => hf ?_
      rw [← List.isPrefixOf?_eq_some_iff_append_eq.mp hs]
      exact List.mem_append_right _ hm
    have hw := Pieces.nil.written_snoc (Text.trimmed_trim text) htext
    rw [List.nil_append, Text.joinLines_singleton] at hw
    exact Or.inl ⟨_, rfl, hw⟩
  | none =>
    refine Pieces.nil.take (Text.trimmed_trim _) (Text.feedless_trim fun hm => hf ?_)
    rw [Text.dropPrefix] at hm
    cases hp : List.isPrefixOf? ['/', '*'] trimmed with
    | none =>
      rw [hp] at hm
      exact hm
    | some rest =>
      rw [hp] at hm
      rw [← List.isPrefixOf?_eq_some_iff_append_eq.mp hp]
      exact List.mem_append_right _ hm

end Comment

/-! ## Finished constructs -/

/-- A construct holds what was there when it was finished, and nothing else. -/
theorem Opening.Finishes.holds {b : Contents} {line : Line} {o : Opening} {node n : Node}
    (h : Finishes b line o node) (hn : node.contents.Holds n) : b.Holds n := by
  cases h with
  | unit | library | blockDefinition | contextDefinition | triggerDefinition | trigger
  | contextCall =>
    cases n with
    | comment | unit | library | sprite | stage | definition | trigger | step =>
      first | exact hn | exact absurd hn List.not_mem_nil
  | sprite | stage =>
    cases n with
    | definition d => exact Definition.mem_of_block? hn
    | comment | unit | library | sprite | stage | trigger | step =>
      first | exact hn | exact absurd hn List.not_mem_nil

/-! ## Derivations -/

/-- A line in this place starts a construct of this category. -/
structure Enters (strict : Bool) (path : Path) (line : Line) (category : Category) : Prop where
  unclosed : path.closedBy line.trimmed = false
  categorized : State.categorize strict line = .ok category
  permitted : Category.permits path.parent category = true
  feedless : '\n' ∉ line.text

/-- The construct can be read in this place. -/
inductive Made (strict : Bool) : Path → Node → Prop
  | comment {path : Path} {line : Line} {c : Comment} (h : Enters strict path line .comment)
    (hc : c.Written) : Made strict path (.comment c)
  | called {path : Path} {line : Line} {call : Call} (h : Enters strict path line .stepCall)
    (hr : Call.read line.trimmed = .ok call) :
    Made strict path (.step (.call call.name call.args))
  | escaped {path : Path} {line : Line} {returns : Option Returns} {code : List Text}
    (h : Enters strict path line .hosted) (hr : hostedReturns path.block line = .ok returns)
    (hcode : ∀ t ∈ code, IsCode t) :
    Made strict path (.step (.hosted returns (Text.joinLines code)))
  | finished {path : Path} {line close : Line} {o : Opening} {b : Contents} {node : Node}
    (h : Enters strict path line o.category) (ho : Opening.Says path.contextDepth line o)
    (hb : ∀ n, b.Holds n → Made strict (o :: path) n)
    (hc : o.closesOn close.trimmed = true) (hf : '\n' ∉ close.text)
    (hn : o.close b close = .ok (some node)) : Made strict path node

/-- A construct stands where its category may stand. -/
theorem Made.permitted {strict : Bool} {path : Path} {node : Node} (h : Made strict path node) :
    Category.permits path.parent node.category = true := by
  cases h with
  | comment h => exact h.permitted
  | called h => exact h.permitted
  | escaped h => exact h.permitted
  | finished h ho hb hc hf hn =>
    rename_i line close o b
    have hcat : node.category = o.category := by
      cases Opening.close_eq_some_iff.mp hn <;> rfl
    rw [hcat]
    exact h.permitted

/-- An open construct in this place that takes lines as they are. -/
inductive Pending (strict : Bool) (path : Path) (line : Line) : Verbatim → Prop
  | hosted {returns : Option Returns} {code : List Text} (h : Enters strict path line .hosted)
    (hr : hostedReturns path.block line = .ok returns) (hcode : ∀ t ∈ code, IsCode t) :
    Pending strict path line (.hosted returns code)
  | comment {pieces : List Text} (h : Enters strict path line .comment)
    (hp : Comment.Pieces pieces) : Pending strict path line (.comment pieces)

/-- What a line makes of an open construct. -/
inductive Taken (strict : Bool) (path : Path) (header : Line) : Verbatim ⊕ Node → Prop
  | goesOn {v : Verbatim} (h : Pending strict path header v) : Taken strict path header (.inl v)
  | ends {node : Node} (h : Made strict path node) : Taken strict path header (.inr node)

theorem Pending.take {strict : Bool} {path : Path} {header line : Line} {v : Verbatim}
    (h : Pending strict path header v) (hf : '\n' ∉ line.text) :
    Taken strict path header (v.take line) := by
  cases h with
  | hosted h hr hcode =>
    rw [Verbatim.take]
    split
    · exact .ends (.escaped h hr hcode)
    next hu =>
      refine .goesOn (.hosted h hr fun t ht => ?_)
      rcases List.mem_append.mp ht with ht | ht
      · exact hcode t ht
      · rw [List.mem_singleton.mp ht]
        exact ⟨hf, fun ht => hu (beq_iff_eq.mpr ht)⟩
  | comment h hp =>
    rw [Verbatim.take]
    rcases hp.take (Text.trimmed_trim line.text) (Text.feedless_trim hf) with
      ⟨c, hc, hw⟩ | ⟨pieces', hc, hp'⟩
    · rw [Line.trimmed, hc]
      exact .ends (.comment h hw)
    · rw [Line.trimmed, hc]
      exact .goesOn (.comment h hp')

/-- The open constructs have headers that open them where they stand, and hold what can be read
there. -/
inductive Nested (strict : Bool) : List Frame → Prop
  | nil : Nested strict []
  | cons {f : Frame} {rest : List Frame}
    (h : Enters strict (rest.map (·.opening)) f.header f.opening.category)
    (ho : Opening.Says (Path.contextDepth (rest.map (·.opening))) f.header f.opening)
    (hb : ∀ n, f.contents.Holds n → Made strict (f.opening :: rest.map (·.opening)) n)
    (hr : Nested strict rest) : Nested strict (f :: rest)

namespace State

/-- All that the state holds can be read where it stands. -/
structure Derived (strict : Bool) (s : State) : Prop where
  top : ∀ n, s.top.Holds n → Made strict [] n
  frames : Nested strict s.frames
  verbatim : ∀ header v, s.verbatim = some (header, v) → Pending strict s.path header v

theorem derived_start (strict : Bool) : Derived strict start :=
  ⟨fun n h => absurd h (Contents.not_holds_empty n), .nil, fun _ _ h => by cases h⟩

/-! ## What one line preserves -/

variable {strict : Bool} {s : State}

theorem Derived.add (hs : s.Derived strict) (hv : s.verbatim = none) {node : Node}
    (h : Made strict s.path node) : (s.add node).Derived strict := by
  obtain ⟨top, frames, verbatim⟩ := s
  subst hv
  obtain ⟨ht, hf, -⟩ := hs
  cases frames with
  | nil =>
    refine ⟨fun n hn => ?_, hf, fun _ _ h => by cases h⟩
    rcases Contents.holds_add.mp hn with hn | rfl
    · exact ht n hn
    · exact h
  | cons f rest =>
    refine ⟨ht, ?_, fun _ _ h => by cases h⟩
    cases hf with
    | cons hl ho hb hr =>
      refine .cons hl ho (fun n hn => ?_) hr
      rcases Contents.holds_add.mp hn with hn | rfl
      · exact hb n hn
      · exact h

theorem Derived.closed (hs : s.Derived strict) : ({ s with verbatim := none } : State).Derived strict :=
  ⟨hs.top, hs.frames, fun _ _ h => by cases h⟩

/-- What a line makes of an open construct is put in its place. -/
theorem Derived.resume (hs : s.Derived strict) {header : Line} {r : Verbatim ⊕ Node}
    (h : Taken strict s.path header r) : (s.resume header r).Derived strict := by
  cases h with
  | goesOn h =>
    refine ⟨hs.top, hs.frames, fun header' v' hv => ?_⟩
    cases hv
    exact h
  | ends h => exact hs.closed.add rfl h

theorem enters_of_free {line : Line} {category : Category} (hl : s.Free line)
    (hc : categorize strict line = .ok category)
    (hp : Category.permits s.parent category = true) (hf : '\n' ∉ line.text) :
    Enters strict s.path line category :=
  ⟨by rw [closedBy_path]; exact hl.unclosed, hc, by rw [parent_path]; exact hp, hf⟩

theorem derived_of_move {t : State} {line : Line} (hf : '\n' ∉ line.text)
    (hs : s.Derived strict) (h : Move strict s line t) : t.Derived strict := by
  cases h with
  | resumed hv => exact hs.resume ((hs.verbatim _ _ hv).take hf)
  | closed hv hfr hc hn =>
    rename_i f rest node
    obtain ⟨top, frames, verbatim⟩ := s
    cases hfr
    cases hs.frames with
    | cons hl ho hb hr =>
      have hout : Derived strict (⟨top, rest, verbatim⟩ : State) :=
        ⟨hs.top, hr, fun header v h => by rw [h] at hv; cases hv⟩
      cases node with
      | none => exact hout
      | some node => exact hout.add hv (.finished hl ho hb hc hf hn)
  | blank => exact hs
  | comment hl hc hp =>
    have he := enters_of_free hl hc hp hf
    refine hs.resume ?_
    rcases Comment.start_written (Text.feedless_trim hf) with ⟨c, hst, hw⟩ | ⟨pieces, hst, hw⟩
    · rw [Line.trimmed, hst]
      exact .ends (.comment he hw)
    · rw [Line.trimmed, hst]
      exact .goesOn (.comment he hw)
  | called hl hc hp hr =>
    exact hs.add hl.verbatim (.called (enters_of_free hl hc hp hf) hr)
  | escaped hl hc hp hr =>
    refine ⟨hs.top, hs.frames, fun header v hv => ?_⟩
    cases hv
    refine .hosted (enters_of_free (s := s) hl hc hp hf) ?_ (fun t ht => absurd ht List.not_mem_nil)
    show hostedReturns s.path.block _ = _
    rw [block_path]
    exact hr
  | opened hl hc hp ho =>
    refine ⟨hs.top, .cons (enters_of_free hl hc hp hf) ?_ ?_ hs.frames, fun header v hv => ?_⟩
    · show Opening.Says s.path.contextDepth _ _
      rw [contextDepth_path]
      exact ho
    · exact fun n hn => absurd hn (Contents.not_holds_empty n)
    · rw [push, hl.verbatim] at hv
      cases hv

/-! ## What a reading gives -/

theorem derived_of_run {t : State} {lines : List Line} (hf : ∀ line ∈ lines, '\n' ∉ line.text)
    (hs : s.Derived strict) (h : s.run strict lines = .ok t) : t.Derived strict :=
  run_induction (P := Derived strict) (fun line hl hs hm => derived_of_move (hf line hl) hs hm) hs h

end State

/-- Every construct of a document that is read has a derivation. -/
theorem Document.made_of_parse {strict : Bool} {source : Text} {d : Document}
    (h : parse strict source = .ok d) :
    (∀ c ∈ d.comments, Made strict [] (.comment c)) ∧ ∀ u ∈ d.units, Made strict [] (.unit u) := by
  obtain ⟨s, hrun, hfin⟩ := parse_eq_ok_iff.mp h
  obtain ⟨-, -, rfl⟩ := State.finish_eq_ok_iff.mp hfin
  have hs := State.derived_of_run (fun line hl => Line.not_mem_text hl)
    (State.derived_start strict) hrun
  exact ⟨fun c hc => hs.top (.comment c) hc, fun u hu => hs.top (.unit u) hu⟩

end BlockText
