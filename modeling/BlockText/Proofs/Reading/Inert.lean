/-
Lines that say nothing.

A blank line may stand anywhere and does nothing, and a comment may stand anywhere and adds itself to
the comments of its place.  So where no lines are taken as they are, such lines can be left out of a
source: the document is the same without its comments, and an error is the same but for the place of
its line.

The reading of the lines that are left goes along with the reading of all lines, in a state without
comments (`State.step_uncommented`), and the others change nothing of it (`State.exists_step_inert`), so
the two runs end alike (`run_uncommented`).  The lines that are left have other numbers and offsets in
the smaller source, which a reading puts into its errors and nowhere else (`Document.ofLines_bare`).
-/
import BlockText.Proofs.Document.Comments
import BlockText.Proofs.Reading.Online
import BlockText.Proofs.Reading.Plain
import BlockText.Proofs.Reading.Recast

namespace BlockText

/-! ## Inert lines -/

namespace Text

/-- A line that is blank or a comment of one line. -/
def isInert (t : Text) : Bool := t.isBlank || ['/', '/'].isPrefixOf t.trim

/-- The source without its inert lines. -/
def withoutInert (source : Text) : Text := joinLines (source.pieces.filter (!isInert ·))

theorem isInert_append_of_blank (t : Text) {b : Text} (h : isBlank b = true) :
    isInert (t ++ b) = isInert t := by
  rw [isInert, isInert, isBlank_append, trim_append_of_blank t h, h, Bool.and_true]

/-- The ending of a line is no matter. -/
theorem isInert_dropSuffix (t : Text) : isInert (dropSuffix ['\r'] t) = isInert t := by
  by_cases hs : ['\r'] <:+ t
  · obtain ⟨front, rfl⟩ := hs
    rw [dropSuffix_append, isInert_append_of_blank front (by decide)]
  · rw [dropSuffix_of_not_suffix hs]

end Text

/-- The lines that say something. -/
def Line.live (lines : List Line) : List Line := lines.filter fun line => !line.text.isInert

theorem Line.map_text_live (source : Text) :
    (live (ofSource source)).map text =
      (source.pieces.filter (!Text.isInert ·)).map (Text.dropSuffix ['\r']) := by
  have hlive : (live (ofSource source)).map text =
      ((ofSource source).map text).filter (!Text.isInert ·) := by
    rw [live, List.filter_map]
    rfl
  rw [hlive, map_text_ofSource, List.filter_map]
  congr 1
  refine List.filter_congr fun p _ => ?_
  show (!Text.isInert (Text.dropSuffix ['\r'] p)) = !Text.isInert p
  rw [Text.isInert_dropSuffix]

/-- They are the lines of the source without its inert lines, at other places, or else there are none. -/
theorem Line.live_or (source : Text) :
    (ofSource source.withoutInert).map text = (live (ofSource source)).map text ∨
      live (ofSource source) = [] ∧ source.withoutInert = [] := by
  by_cases hnil : source.pieces.filter (!Text.isInert ·) = []
  · refine Or.inr ⟨?_, ?_⟩
    · have hlive := map_text_live source
      rw [hnil, List.map_nil, List.map_eq_nil_iff] at hlive
      exact hlive
    · rw [Text.withoutInert, hnil]
      rfl
  · have hpieces : source.withoutInert.pieces = source.pieces.filter (!Text.isInert ·) := by
      refine Text.pieces_joinLines (fun p hp => ?_) hnil
      exact Text.not_mem_of_mem_pieces (List.mem_of_mem_filter hp)
    refine Or.inl ?_
    rw [map_text_live, map_text_ofSource, hpieces]

/-! ## States without comments -/

def Frame.uncommented (f : Frame) : Frame := { f with contents := f.contents.uncommented }

namespace State

/-- The state with every list of comments emptied. -/
def uncommented (s : State) : State :=
  ⟨s.top.uncommented, s.frames.map Frame.uncommented, s.verbatim⟩

variable (s : State)

theorem closedBy_uncommented (t : Text) : s.uncommented.closedBy t = s.closedBy t := by
  rw [closedBy, closedBy, uncommented]
  cases s.frames <;> rfl

theorem free_uncommented {line : Line} (h : s.Free line) : s.uncommented.Free line :=
  ⟨h.verbatim, by rw [closedBy_uncommented]; exact h.unclosed⟩

theorem parent_uncommented : s.uncommented.parent = s.parent := by
  rw [parent, parent, uncommented]
  cases s.frames <;> rfl

theorem contextDepth_uncommented : s.uncommented.contextDepth = s.contextDepth := by
  rw [contextDepth, contextDepth, uncommented, List.countP_map]
  rfl

theorem uncommented_comment (c : Comment) : (s.add (.comment c)).uncommented = s.uncommented := by
  rw [add]
  cases hf : s.frames with
  | nil =>
    rw [uncommented, uncommented, hf]
    rfl
  | cons f rest =>
    rw [uncommented, uncommented, hf]
    rfl

theorem uncommented_add {node : Node} (h : ∀ c, node ≠ .comment c) :
    (s.add node).uncommented = s.uncommented.add node.uncommented := by
  cases hf : s.frames with
  | nil =>
    rw [add, add, uncommented, uncommented, hf]
    show State.mk (s.top.add node).uncommented _ _ = _
    rw [Contents.uncommented_add _ h, List.map_nil]
  | cons f rest =>
    rw [add, add, uncommented, uncommented, hf]
    show State.mk _ (⟨_, _, (f.contents.add node).uncommented⟩ :: _) _ = _
    rw [Contents.uncommented_add _ h]
    rfl

theorem uncommented_push (header : Line) (o : Opening) :
    (s.push header o).uncommented = s.uncommented.push header o := by
  rw [push, uncommented, List.map_cons, Frame.uncommented, Contents.uncommented_empty]
  rfl

/-- A comment may stand wherever a line is read. -/
theorem permits_comment : Category.permits s.parent .comment = true := by
  rw [parent]
  cases s.frames with
  | nil => rfl
  | cons f rest =>
    show Category.permits (some f.opening.category) .comment = true
    cases f.opening <;> rfl

end State

/-- What a closing line finishes is no comment. -/
theorem Opening.Finishes.ne_comment {b : Contents} {line : Line} {o : Opening} {node : Node}
    (h : Finishes b line o node) (c : Comment) : node ≠ .comment c := by
  rintro rfl
  cases h

namespace State

variable {strict : Bool} {s t : State} {line : Line}

/-! ## Lines that say something -/

theorem enter_uncommented (hc : Category.ofLine line.text ≠ .comment)
    (hh : Category.ofLine line.text ≠ .hosted) :
    s.uncommented.enter strict line = (s.enter strict line).map uncommented := by
  cases hcat : categorize strict line with
  | error e =>
    rw [enter_of_refused hcat, enter_of_refused hcat]
    rfl
  | ok category =>
    rw [(categorize_eq_ok_iff.mp hcat).1] at hc hh
    by_cases hb : category = .blank
    · subst hb
      rw [enter_blank hcat, enter_blank hcat]
      rfl
    have hparent := s.parent_uncommented
    cases hp : Category.permits s.parent category with
    | false =>
      have hp' : Category.permits s.uncommented.parent category = false := by rw [hparent, hp]
      rw [enter_misplaced hcat hb hp', enter_misplaced hcat hb hp, hparent]
      rfl
    | true =>
      have hp' : Category.permits s.uncommented.parent category = true := by rw [hparent, hp]
      rcases Opening.opens_or category with rfl | rfl | rfl | rfl | ho
      · exact absurd rfl hb
      · exact absurd rfl hc
      · rw [enter_stepCall hcat hp', enter_stepCall hcat hp]
        cases Opening.atLine line (Call.read line.trimmed) with
        | error e => rfl
        | ok call =>
          refine congrArg Except.ok ?_
          rw [uncommented_add s fun c h => by cases h]
          rfl
      · exact absurd rfl hh
      · rw [enter_opens ho hcat hp', enter_opens ho hcat hp, contextDepth_uncommented]
        cases Opening.ofHeader category s.contextDepth line with
        | error e => rfl
        | ok o =>
          cases o with
          | none => rfl
          | some o => exact congrArg Except.ok (s.uncommented_push line o).symm

/-- A line that is read does the same in the state without comments. -/
theorem step_uncommented (hl : line.Plain) (hi : line.text.isInert = false)
    (hv : s.verbatim = none) :
    s.uncommented.step strict line = (s.step strict line).map uncommented := by
  rcases way s line with ⟨header, v, hv'⟩ | ⟨f, rest, -, hf, hc⟩ | hfree
  · rw [hv] at hv'
    cases hv'
  · have hf' : s.uncommented.frames = f.uncommented :: rest.map Frame.uncommented := by
      rw [uncommented, hf]
      rfl
    rw [step_close (s := s.uncommented) hv hf' hc, step_close hv hf hc]
    have hclose := Opening.close_uncommented f.opening f.contents line
    rw [show f.uncommented.opening.close f.uncommented.contents line = _ from hclose]
    cases hn : f.opening.close f.contents line with
    | error e => rfl
    | ok node =>
      cases node with
      | none => rfl
      | some node =>
        refine congrArg Except.ok (State.uncommented_add { s with frames := rest } ?_).symm
        exact (Opening.close_eq_some_iff.mp hn).ne_comment
  · have hcomment : Category.ofLine line.text ≠ .comment := by
      intro hc
      rw [Text.isInert, Bool.or_eq_false_iff] at hi
      have hp := List.isPrefixOf_iff_prefix.mpr (hl.slashes_iff.mp hc)
      rw [Line.trimmed, hi.2] at hp
      cases hp
    rw [step_enter (s.free_uncommented hfree), step_enter hfree,
      enter_uncommented hcomment hl.free]

/-! ## Lines that say nothing -/

/-- An inert line is taken, and all that it adds is a comment. -/
theorem exists_step_inert (strict : Bool) (hl : line.Plain) (hi : line.text.isInert = true)
    (hv : s.verbatim = none) :
    ∃ t, s.step strict line = .ok t ∧ t.uncommented = s.uncommented := by
  rw [Text.isInert, Bool.or_eq_true] at hi
  have hunclosed : s.closedBy line.trimmed = false := by
    rw [← closedBy_path]
    refine Path.unclosed_of_head s.path ?_
    rcases hi with hb | hp
    · rw [Line.trimmed, Text.trim_of_blank hb]
      simp
    · obtain ⟨rest, hrest⟩ := List.isPrefixOf_iff_prefix.mp hp
      rw [Line.trimmed, ← hrest]
      simp
  have hfree : s.Free line := ⟨hv, hunclosed⟩
  rw [step_enter hfree]
  by_cases hb : line.text.isBlank = true
  · have hc : categorize strict line = .ok .blank :=
      categorize_eq_ok_iff.mpr ⟨Line.ofLine_eq_blank_iff.mpr hb,
        fun _ h => by rcases h with h | h <;> cases h⟩
    exact ⟨s, enter_blank hc, rfl⟩
  · have hslashes : ['/', '/'] <+: line.trimmed :=
      List.isPrefixOf_iff_prefix.mp (hi.resolve_left hb)
    have hcat := hl.slashes_iff.mpr hslashes
    have hc : categorize strict line = .ok .comment :=
      categorize_eq_ok_iff.mpr ⟨hcat, fun _ h => by rcases h with h | h <;> cases h⟩
    obtain ⟨c, hstart⟩ := hl.exists_start hcat
    refine ⟨_, enter_comment hc s.permits_comment, ?_⟩
    rw [hstart, Sum.map_inr, resume_inr hv, uncommented_comment]

/-! ## Runs -/

/-- The lines that say something do in the state without comments what all lines do. -/
theorem run_uncommented {lines : List Line} (hl : ∀ line ∈ lines, line.Plain)
    (hv : s.verbatim = none) :
    s.uncommented.run strict (Line.live lines) = (s.run strict lines).map uncommented := by
  induction lines generalizing s with
  | nil => rfl
  | cons line lines ih =>
    have hplain := hl line List.mem_cons_self
    have htail : ∀ l ∈ lines, l.Plain := fun l hm => hl l (List.mem_cons_of_mem line hm)
    cases hi : line.text.isInert with
    | true =>
      obtain ⟨t, hstep, ht⟩ := exists_step_inert strict hplain hi hv
      have hskip : Line.live (line :: lines) = Line.live lines := by
        rw [Line.live, List.filter_cons_of_neg (by simp [hi])]
        rfl
      rw [hskip, run_of_step hstep, ← ht]
      exact ih htail (verbatim_of_move hplain hv (move_of_step hstep))
    | false =>
      have hkeep : Line.live (line :: lines) = line :: Line.live lines := by
        rw [Line.live, List.filter_cons_of_pos (by simp [hi])]
        rfl
      rw [hkeep, run_cons, run_cons, step_uncommented hplain hi hv]
      cases hstep : s.step strict line with
      | error e => rfl
      | ok t => exact ih htail (verbatim_of_move hplain hv (move_of_step hstep))

theorem finish_uncommented (hv : s.verbatim = none) :
    s.uncommented.finish = s.finish.map Document.uncommented := by
  rw [finish, finish, innermost?, innermost?, uncommented, hv]
  cases s.frames <;> rfl

end State

/-! ## Lines at other places -/

/-- Putting lines at no place in particular. -/
def Recast.bare : Recast where
  line l := .bare l.text
  node n := n
  verbatim v := v
  contents b := b
  top b := b
  trimmed_line _ := rfl
  contents_empty := rfl
  contents_add _ _ := rfl
  top_add _ _ := rfl
  close := Opening.close_map_id
  node_comment _ := rfl
  node_call _ _ := rfl
  verbatim_comment _ := rfl
  verbatim_hosted _ := rfl
  category_verbatim _ := rfl

theorem Recast.suits_bare (s : State) (line : Line) : Recast.bare.Suits s line :=
  suits_of_text _ rfl (fun _ => rfl) fun _ => rfl

namespace ParseError

/-- The error on a line of the same text at no place in particular. -/
def bare (e : ParseError) : ParseError := e.on (.bare e.place.text)

/-- The errors are the same but for the places of their lines. -/
structure Moved (e e' : ParseError) : Prop where
  /-- They are of one variant, with the same fault in it. -/
  fault : e' = e.on e'.place
  kind : e'.kind = e.kind
  message : e'.message = e.message
  text : e'.text = e.text
  index? : e'.index? = e.index?

theorem moved_of_bare {e e' : ParseError} (h : e.bare = e'.bare) : e.Moved e' := by
  cases e with
  | line fault l =>
    cases e' with
    | line fault' l' =>
      obtain ⟨rfl, hl⟩ := ParseError.line.inj h
      exact ⟨rfl, rfl, rfl, (Line.mk.inj hl).2.2.symm, rfl⟩
    | name => cases h
  | name n l =>
    cases e' with
    | line => cases h
    | name n' l' =>
      obtain ⟨rfl, -⟩ := ParseError.name.inj h
      exact ⟨rfl, rfl, rfl, rfl, rfl⟩

end ParseError

namespace Document

/-- Lines at no place in particular give the document, or the error on such a line. -/
theorem ofLines_bare (strict : Bool) (lines : List Line) :
    ofLines strict (lines.map Recast.bare.line) =
      ((ofLines strict lines).map id).mapError ParseError.bare := by
  rw [ofLines_eq, ofLines_eq]
  exact Recast.bare.run_finish (fun _ => rfl) strict (P := fun _ => True)
    (fun _ _ _ _ => trivial) (fun line _ _ => Recast.suits_bare _ line) (s := State.start) trivial

/-- Lines of the same texts at other places give the same document, or the same error there. -/
theorem ofLines_moved (strict : Bool) {xs ys : List Line} (h : ys.map Line.text = xs.map Line.text) :
    Outcome.Related Eq ParseError.Moved (ofLines strict xs) (ofLines strict ys) := by
  have hbare : xs.map Recast.bare.line = ys.map Recast.bare.line := by
    have hmap := congrArg (List.map Line.bare) h
    rw [List.map_map, List.map_map] at hmap
    exact hmap.symm
  have himage := congrArg (ofLines strict) hbare
  rw [ofLines_bare, ofLines_bare] at himage
  exact (Outcome.related_of_image himage).mono (fun _ _ hd => hd)
    fun _ _ => ParseError.moved_of_bare

/-- The lines that say something give the document without its comments, or the error of all lines. -/
theorem ofLines_live (strict : Bool) {lines : List Line} (hl : ∀ line ∈ lines, line.Plain) :
    ofLines strict (Line.live lines) = (ofLines strict lines).map uncommented := by
  have hrun : State.start.run strict (Line.live lines) =
      (State.start.run strict lines).map State.uncommented :=
    State.run_uncommented (s := State.start) hl rfl
  rw [ofLines_eq, ofLines_eq, hrun]
  cases h : State.start.run strict lines with
  | error e => rfl
  | ok s =>
    have hv : s.verbatim = none := State.run_induction (P := fun s => s.verbatim = none)
      (fun line hm => State.verbatim_of_move (hl line hm)) rfl h
    exact State.finish_uncommented hv

/-- In a source of plain lines, those that are blank and those that are comments can be left out: the
document is the same without its comments, and an error is the same but for the place of its line. -/
theorem parse_withoutInert (strict : Bool) {source : Text}
    (hplain : ∀ line ∈ Line.ofSource source, line.Plain) :
    Outcome.Related (fun d d' => d' = d.uncommented) ParseError.Moved (parse strict source)
      (parse strict source.withoutInert) := by
  have hmoved : Outcome.Related Eq ParseError.Moved
      (ofLines strict (Line.live (Line.ofSource source))) (parse strict source.withoutInert) := by
    rcases Line.live_or source with htext | ⟨hlive, hsource⟩
    · exact ofLines_moved strict htext
    · -- the empty source has a line, which is blank
      rw [hlive, hsource, parse_nil]
      exact .ok rfl
  rw [ofLines_live strict hplain] at hmoved
  exact hmoved.of_map.mono (fun _ _ hd => hd.symm) fun _ _ he => he

/-- A unit between a comment and blank lines with a comment in it, and one that is not closed. -/
theorem parse_withoutInert_unit :
    ∃ (source source' : Text) (d : Document) (e : ParseError),
      source = "//a\n\nunit A [\n \t\n  // b\n]\n".toList ∧ source' = "//a\nunit A [\n\n".toList ∧
      parse true source = .ok d ∧ parse true source' = .error e ∧
      source.withoutInert = "unit A [\n]".toList ∧ source'.withoutInert = "unit A [".toList ∧
      Outcome.Related (fun d d' => d' = d.uncommented) ParseError.Moved (parse true source)
        (parse true source.withoutInert) ∧
      Outcome.Related (fun d d' => d' = d.uncommented) ParseError.Moved (parse true source')
        (parse true source'.withoutInert) :=
  ⟨_, _, _, _, rfl, rfl, rfl, rfl, by decide, by decide, parse_withoutInert true (by decide),
    parse_withoutInert true (by decide)⟩

end Document
end BlockText
