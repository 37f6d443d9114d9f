/-
Each line is read once.

Where all lines are plain and no content is dropped, a line that is not blank starts a construct or ends
one.  Comments and calls are lines by themselves, and every other construct has a header and a closing
line around what it holds.  A state has as many lines as its finished constructs have, with the headers
of the open ones (`State.lineCount`); a line that is taken adds one (`lineCount_of_move`), and so the
lines of a source are those of the constructs of its document (`Document.lines_eq_count`).
-/
import BlockText.Proofs.Document.Tree
import BlockText.Proofs.Reading.Keeping
import BlockText.Proofs.Reading.Plain

namespace BlockText

/-! ## Lines of constructs -/

/-- The lines that a construct of this category has apart from those of what it holds.  Lines of escapes
are not told by the category, and content that is dropped is no construct. -/
def Category.ownLines : Category → Nat
  | comment | stepCall => 1
  | unit | library | sprite | stage | contextDefinition | triggerDefinition | blockDefinition | trigger
  | contextCall => 2
  | blank | costumes | sounds | hosted => 0

/-- The lines of these constructs, each without those of what it holds. -/
def ownLines (nodes : List Node) : Nat := (nodes.map (·.category.ownLines)).sum

theorem ownLines_append (xs ys : List Node) : ownLines (xs ++ ys) = ownLines xs + ownLines ys := by
  rw [ownLines, List.map_append, List.sum_append]
  rfl

def Node.lineCount (n : Node) : Nat := ownLines n.constructs

def Contents.lineCount (b : Contents) : Nat := ownLines b.constructs

theorem Node.lineCount_eq (n : Node) :
    n.lineCount = n.category.ownLines + n.contents.lineCount := by
  rw [lineCount, constructs_eq, ownLines, List.map_cons, List.sum_cons]
  rfl

theorem Contents.lineCount_empty : Contents.empty.lineCount = 0 := rfl

theorem Contents.lineCount_add (b : Contents) (n : Node) :
    (b.add n).lineCount = b.lineCount + n.lineCount := by
  rw [lineCount, lineCount, constructs_eq, constructs_eq, Node.lineCount]
  cases n <;>
    simp only [add, List.flatMap_append, List.flatMap_singleton, ownLines_append, Node.constructs] <;>
    omega

/-- Each construct that ends with a closing line has this line and its header. -/
theorem Opening.Finishes.lineCount_eq {b : Contents} {line : Line} {o : Opening} {node : Node}
    (h : Finishes b line o node) (hb : b.Fits (some o.category)) :
    node.lineCount = b.lineCount + 2 := by
  have hown : node.category.ownLines = 2 := by cases h <;> rfl
  rw [Node.lineCount_eq, h.contents_eq hb, hown, Nat.add_comm]

/-! ## Lines of states -/

namespace State

/-- The lines of what a state holds: those of the finished constructs, and the headers of the open
ones. -/
def lineCount (s : State) : Nat :=
  s.top.lineCount + (s.frames.map fun f => f.contents.lineCount + 1).sum

theorem lineCount_add (s : State) (node : Node) :
    (s.add node).lineCount = s.lineCount + node.lineCount := by
  rw [add, lineCount, lineCount]
  cases s.frames with
  | nil =>
    simp only [Contents.lineCount_add, List.map_nil, List.sum_nil]
    omega
  | cons f rest =>
    simp only [List.map_cons, List.sum_cons, Contents.lineCount_add]
    omega

theorem lineCount_push (s : State) (header : Line) (o : Opening) :
    (s.push header o).lineCount = s.lineCount + 1 := by
  rw [push, lineCount, lineCount, List.map_cons, List.sum_cons, Contents.lineCount_empty]
  dsimp only
  omega

/-- A state between plain lines, with no construct open whose content is dropped. -/
structure Whole (strict : Bool) (s : State) : Prop where
  derived : s.Derived strict
  verbatim : s.verbatim = none
  kept : ∀ o ∈ s.path, o.Kept

theorem whole_start (strict : Bool) : start.Whole strict :=
  ⟨derived_start strict, rfl, fun _ h => absurd h List.not_mem_nil⟩

variable {strict : Bool} {s t : State} {line : Line}

/-- A line that is plain and opens nothing whose content is dropped keeps the state whole. -/
theorem whole_of_move (hf : '\n' ∉ line.text) (hl : line.Plain)
    (hsounds : Category.ofLine line.text ≠ .sounds)
    (hcostumes : Category.ofLine line.text ≠ .costumes) (hs : s.Whole strict)
    (h : Move strict s line t) : t.Whole strict := by
  refine ⟨derived_of_move hf hs.derived h, verbatim_of_move hl hs.verbatim h, ?_⟩
  cases reads_of_move hl hs.verbatim h with
  | closed hfr =>
    rw [path_settle]
    refine fun o ho => hs.kept o ?_
    rw [path, hfr]
    exact List.mem_cons_of_mem _ ho
  | blank => exact hs.kept
  | added =>
    rw [path_add]
    exact hs.kept
  | opened hb hcat =>
    rename_i o
    intro o' ho'
    rcases List.mem_cons.mp (show o' ∈ o :: s.path from ho') with rfl | ho'
    · exact ⟨hcat ▸ hsounds, hcat ▸ hcostumes⟩
    · exact hs.kept o' ho'

theorem Single.lineCount_eq {node : Node} (h : Single node) : node.lineCount = 1 := by
  cases h <;> rfl

/-- A line that is not blank is one line of what is read, and a blank line is none. -/
theorem lineCount_of_move (hl : line.Plain) (hs : s.Whole strict) (h : Move strict s line t) :
    t.lineCount = s.lineCount + if line.text.isBlank then 0 else 1 := by
  cases reads_of_move hl hs.verbatim h with
  | closed hf hc hn =>
    rename_i f rest node
    have hkept : f.opening.Kept := hs.kept _ (by rw [path, hf]; exact List.mem_cons_self)
    cases node with
    | none => exact absurd hn (hkept.close_ne_none _ _)
    | some node =>
      -- the frame gives back its contents and its header, and the construct has one line more
      have hnode := (Opening.close_eq_some_iff.mp hn).lineCount_eq (hs.derived.fits hf)
      rw [settle_some, lineCount_add, hnode, Line.isBlank_of_closesOn hc]
      simp only [lineCount, hf, List.map_cons, List.sum_cons, Bool.false_eq_true, if_false]
      omega
  | blank hb =>
    rw [hb]
    rfl
  | added hb hn =>
    rw [lineCount_add, hn.lineCount_eq, hb]
    rfl
  | opened hb =>
    rw [lineCount_push, hb]
    rfl

/-- All lines are plain, and none opens a construct whose content is dropped. -/
def Counted (lines : List Line) : Prop :=
  ∀ line ∈ lines, line.Plain ∧ Category.ofLine line.text ≠ .sounds ∧
    Category.ofLine line.text ≠ .costumes

/-- The number of lines that are not blank. -/
def textLines (lines : List Line) : Nat := lines.countP fun line => !line.text.isBlank

/-- Lines that are taken are all there in what is read of them. -/
theorem lineCount_of_run {lines : List Line} (hf : ∀ line ∈ lines, '\n' ∉ line.text)
    (hl : Counted lines) (hs : s.Whole strict) (h : s.run strict lines = .ok t) :
    t.Whole strict ∧ t.lineCount = s.lineCount + textLines lines := by
  induction lines generalizing s with
  | nil =>
    cases h
    exact ⟨hs, rfl⟩
  | cons line lines ih =>
    rw [run_cons, Outcome.bind_eq_ok_iff] at h
    obtain ⟨u, hu, h⟩ := h
    have hmove := move_of_step hu
    obtain ⟨hplain, hsounds, hcostumes⟩ := hl line List.mem_cons_self
    have hwhole := whole_of_move (hf line List.mem_cons_self) hplain hsounds hcostumes hs hmove
    obtain ⟨ht, hcount⟩ := ih (fun l hm => hf l (List.mem_cons_of_mem line hm))
      (fun l hm => hl l (List.mem_cons_of_mem line hm)) hwhole h
    refine ⟨ht, ?_⟩
    rw [hcount, lineCount_of_move hplain hs hmove, textLines, textLines, List.countP_cons]
    cases line.text.isBlank <;> simp only [Bool.not_false, Bool.not_true, if_true, if_false,
      Bool.false_eq_true] <;> omega

end State

/-! ## Lines of documents -/

/-- The number of these constructs that are of this category. -/
def Category.countIn (category : Category) (nodes : List Node) : Nat :=
  nodes.countP (·.category == category)

/-- The number of constructs of this category in the document, at any depth. -/
def Document.count (d : Document) (category : Category) : Nat := category.countIn d.constructs

/-- The lines of constructs, by their categories. -/
theorem ownLines_eq (nodes : List Node) :
    ownLines nodes = Category.comment.countIn nodes + Category.stepCall.countIn nodes +
      2 * (Category.unit.countIn nodes + Category.library.countIn nodes +
        Category.sprite.countIn nodes + Category.stage.countIn nodes +
        (Category.blockDefinition.countIn nodes + Category.contextDefinition.countIn nodes +
          Category.triggerDefinition.countIn nodes) +
        Category.trigger.countIn nodes + Category.contextCall.countIn nodes) := by
  have hcount : ∀ (category : Category) (n : Node) (nodes : List Node),
      category.countIn (n :: nodes) =
        category.countIn nodes + if n.category == category then 1 else 0 :=
    fun category n nodes => List.countP_cons
  induction nodes with
  | nil => rfl
  | cons n nodes ih =>
    have hcons : ownLines (n :: nodes) = n.category.ownLines + ownLines nodes := by
      rw [ownLines, List.map_cons, List.sum_cons]
      rfl
    rw [hcons, ih]
    simp only [hcount]
    cases n.category <;> simp [Category.ownLines] <;> omega

namespace Document

/-- In a source of plain lines none of which opens content that is dropped, each line that is not blank
belongs to one construct of the document: to a comment or a call, which have no other, or to one of the
other constructs as its header or as its closing line. -/
theorem lines_eq_count {strict : Bool} {source : Text} {d : Document}
    (h : parse strict source = .ok d) (hplain : ∀ line ∈ Line.ofSource source, line.Plain)
    (hsounds : ∀ line ∈ Line.ofSource source, Category.ofLine line.text ≠ .sounds)
    (hcostumes : ∀ line ∈ Line.ofSource source, Category.ofLine line.text ≠ .costumes) :
    (Line.ofSource source).countP (fun line => !line.text.isBlank) =
      d.count .comment + d.count .stepCall +
        2 * (d.count .unit + d.count .library + d.count .sprite + d.count .stage +
          (d.count .blockDefinition + d.count .contextDefinition + d.count .triggerDefinition) +
          d.count .trigger + d.count .contextCall) := by
  obtain ⟨s, hrun, hfin⟩ := parse_eq_ok_iff.mp h
  obtain ⟨-, hframes, rfl⟩ := State.finish_eq_ok_iff.mp hfin
  obtain ⟨hwhole, hcount⟩ := State.lineCount_of_run (fun _ hl => Line.not_mem_text hl)
    (fun line hl => ⟨hplain line hl, hsounds line hl, hcostumes line hl⟩)
    (State.whole_start strict) hrun
  have hstart : State.start.lineCount = 0 := rfl
  have htop : s.lineCount = ownLines (Document.mk s.top.comments s.top.units).constructs := by
    rw [constructs_eq, hwhole.derived.fits_top.document_contents, State.lineCount, hframes]
    rfl
  calc State.textLines (Line.ofSource source)
    _ = s.lineCount := by rw [hcount, hstart, Nat.zero_add]
    _ = ownLines (Document.mk s.top.comments s.top.units).constructs := htop
    _ = _ := ownLines_eq _

/-- A comment, a blank line, and a unit with a sprite that answers an event with two calls. -/
theorem lines_eq_count_sprite :
    ∃ (source : Text) (d : Document),
      source = "//a\n\nunit A [\nsprite B [\nwhen c [\nd\ne [\n]\n]\n]\n]".toList ∧
      parse true source = .ok d ∧
      (∀ line ∈ Line.ofSource source, line.Plain) ∧
      (∀ line ∈ Line.ofSource source, Category.ofLine line.text ≠ .sounds) ∧
      (∀ line ∈ Line.ofSource source, Category.ofLine line.text ≠ .costumes) ∧
      (Line.ofSource source).countP (fun line => !line.text.isBlank) = 10 ∧
      (Line.ofSource source).countP (fun line => !line.text.isBlank) =
        d.count .comment + d.count .stepCall +
          2 * (d.count .unit + d.count .library + d.count .sprite + d.count .stage +
            (d.count .blockDefinition + d.count .contextDefinition +
              d.count .triggerDefinition) +
            d.count .trigger + d.count .contextCall) := by
  refine ⟨_, _, rfl, rfl, by decide, by decide, by decide, by decide, ?_⟩
  exact @lines_eq_count true _ _ rfl (by decide) (by decide) (by decide)

end Document
end BlockText
