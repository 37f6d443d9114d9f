/-
Comments between marks.

A comment that starts with `/*` is told by the lines from there on, each trimmed and the first one
without its mark (`Comment.blockLines`).  The first of these that ends with `*/` finishes it.  The pieces
of the comment are the lines up to there, but none is kept in front of the first that is not empty
(`Comment.kept`), and an empty one before the closing mark is left out where others are kept
(`Comment.blockText`).  `Comment.read_block` says this of every comment that ends and of those that do
not.

The mark is looked for at the end of a line and nowhere else.  A comment whose mark stands in the middle
of a line goes on behind it, up to a line that ends with one (`Document.comment_end`), and the lines
between are taken into it, whatever they are (`Document.comment_end_passed`).
-/
import BlockText.Proofs.Reading.Builder
import BlockText.Proofs.Reading.Inert
import BlockText.Proofs.Reading.Verbatim

namespace BlockText

namespace Comment

/-! ## The pieces of a comment -/

/-- The lines of a comment, trimmed, the first one without its mark. -/
def blockLines (header : Line) (lines : List Line) : List Text :=
  Text.trim (Text.dropPrefix ['/', '*'] header.trimmed) :: lines.map Line.trimmed

/-- The pieces that are kept of some lines: all but the empty ones in front. -/
def kept (ts : List Text) : List Text := ts.dropWhile List.isEmpty

/-- The text of a comment with these lines and this before its closing mark. -/
def blockText (front : List Text) (last : Text) : Text :=
  Text.joinLines (if last.isEmpty && !(kept front).isEmpty then kept front else kept front ++ [last])

variable {t last : Text}

theorem kept_snoc (ts : List Text) (t : Text) :
    kept (ts ++ [t]) = if t.isEmpty && (kept ts).isEmpty then kept ts else kept ts ++ [t] := by
  rw [kept, List.dropWhile_append, ← kept]
  by_cases hk : (kept ts).isEmpty = true
  · rw [if_pos hk, List.isEmpty_iff.mp hk]
    cases t <;> rfl
  · rw [if_neg hk, eq_false_of_ne_true hk, Bool.and_false]
    rfl

/-- A line without the closing mark becomes a piece, or is an empty one in front. -/
theorem takePiece_kept (ts : List Text) (h : Category.endsWith ['*', '/'] t = false) :
    Verbatim.takePiece (kept ts) t = .inl (.comment (kept (ts ++ [t]))) := by
  have hsuffix : List.isSuffixOf? ['*', '/'] t = none := by
    rw [Option.eq_none_iff_forall_ne_some]
    intro front hfront
    rw [← List.isSuffixOf?_eq_some_iff_append_eq.mp hfront, Category.endsWith_append] at h
    cases h
  rw [Verbatim.takePiece, hsuffix, kept_snoc]

/-- The closing mark finishes the comment. -/
theorem takePiece_closing (ts : List Text) (last : Text) :
    Verbatim.takePiece (kept ts) (last ++ ['*', '/']) = .inr ⟨blockText ts last.trim⟩ := by
  have hsuffix : List.isSuffixOf? ['*', '/'] (last ++ ['*', '/']) = some last :=
    List.isSuffixOf?_eq_some_iff_append_eq.mpr rfl
  rw [Verbatim.takePiece, hsuffix]
  rfl

/-! ## Lines of a comment -/

theorem goesOn_lines (ts : List Text) {lines : List Line}
    (h : ∀ line ∈ lines, Category.endsWith ['*', '/'] line.trimmed = false) :
    Verbatim.GoesOn (.comment (kept ts)) lines (.comment (kept (ts ++ lines.map Line.trimmed))) := by
  induction lines generalizing ts with
  | nil =>
    rw [List.map_nil, List.append_nil]
    exact .nil
  | cons line lines ih =>
    have htake : (Verbatim.comment (kept ts)).take line =
        .inl (.comment (kept (ts ++ [line.trimmed]))) := by
      rw [Verbatim.take, takePiece_kept ts (h line List.mem_cons_self)]
      rfl
    have hrest := ih (ts ++ [line.trimmed]) fun l hl => h l (List.mem_cons_of_mem line hl)
    rw [List.append_assoc, List.singleton_append] at hrest
    exact .cons htake hrest

theorem take_closing (ts : List Text) {line : Line} (h : line.trimmed = last ++ ['*', '/']) :
    (Verbatim.comment (kept ts)).take line = .inr (.comment ⟨blockText ts last.trim⟩) := by
  rw [Verbatim.take, h, takePiece_closing]
  rfl

section header

variable {header : Line} {lines : List Line}

theorem opened_mark_eq (h : ['/', '*'] <+: header.trimmed) :
    opened header.text =
      (Verbatim.takePiece (kept []) (Text.trim (Text.dropPrefix ['/', '*'] header.trimmed))).map id
        .comment := by
  obtain ⟨rest, hrest⟩ := h
  have hslashes : List.isPrefixOf? ['/', '/'] header.text.trim = none := by
    rw [show header.text.trim = _ from hrest.symm]
    rfl
  rw [opened, start, hslashes]
  rfl

/-- A comment of one line. -/
theorem opened_of_ended (h : ['/', '*'] <+: header.trimmed)
    (he : Text.trim (Text.dropPrefix ['/', '*'] header.trimmed) = last ++ ['*', '/']) :
    opened header.text = .inr (.comment ⟨blockText [] last.trim⟩) := by
  rw [opened_mark_eq h, he, takePiece_closing]
  rfl

theorem blockLines_take (header : Line) (lines : List Line) (k : Nat) :
    (blockLines header lines).take (k + 1) = blockLines header (lines.take k) := by
  rw [blockLines, blockLines, List.take_succ_cons, List.map_take]

/-- Lines without the closing mark leave the comment open, with what is kept of them. -/
theorem exists_opened (h : ['/', '*'] <+: header.trimmed)
    (he : ∀ t ∈ blockLines header lines, Category.endsWith ['*', '/'] t = false) :
    ∃ v, opened header.text = .inl v ∧
      Verbatim.GoesOn v lines (.comment (kept (blockLines header lines))) := by
  obtain ⟨hfirst, hrest⟩ := List.forall_mem_cons.mp he
  refine ⟨_, ?_, goesOn_lines [Text.trim (Text.dropPrefix ['/', '*'] header.trimmed)]
    fun line hline => hrest _ (List.mem_map_of_mem hline)⟩
  rw [opened_mark_eq h, takePiece_kept [] hfirst]
  rfl

/-- The first line with the closing mark at its end. -/
theorem closing_of_findIdx? {ts : List Text} {j : Nat}
    (h : ts.findIdx? (Category.endsWith ['*', '/']) = some j) :
    ∃ last, ts[j]? = some (last ++ ['*', '/']) ∧
      ∀ t ∈ ts.take j, Category.endsWith ['*', '/'] t = false := by
  obtain ⟨t, after, hdrop, hclose, hfront⟩ := Verbatim.drop_of_findIdx? h
  obtain ⟨last, hlast⟩ := List.isSuffixOf_iff_suffix.mp hclose
  refine ⟨last, ?_, hfront⟩
  rw [← List.head?_drop, hdrop, hlast]
  rfl

/-- A line of a comment behind its first one. -/
theorem exists_line {k : Nat} (h : (blockLines header lines)[k + 1]? = some t) :
    ∃ line, lines.drop k = line :: lines.drop (k + 1) ∧ line.trimmed = t := by
  rw [blockLines, List.getElem?_cons_succ, List.getElem?_map] at h
  obtain ⟨line, hline, ht⟩ := Option.map_eq_some_iff.mp h
  exact ⟨line, Line.drop_of_getElem? hline, ht⟩

/-! ## Comments by themselves -/

/-- Reads the comment that starts on `header`, from a cursor on it.  Gives the comment, and the cursor
on the line that finished it, or past the end. -/
def read (header : Line) (cursor : Cursor) : Except ParseError Node × Cursor :=
  match opened header.text with
  | .inl v => v.read header cursor.advance.ahead
  | .inr node => (.ok node, cursor)

/-- The reader goes through a comment as the comment by itself, and puts it where it belongs. -/
theorem build_eq_read {strict : Bool} {s : State} (hv : s.verbatim = none) (header : Line)
    (cursor : Cursor) :
    s.build strict .comment header cursor =
      (read header cursor).1.map fun node => (s.add node, (read header cursor).2) := by
  have henter : s.enterAs .comment header = .ok (s.resume header (opened header.text)) := rfl
  rw [read]
  cases hr : opened header.text with
  | inr node =>
    rw [hr, State.resume_inr hv] at henter
    exact @State.build_of_settled strict .comment s header (some node) henter cursor
  | inl v =>
    rw [State.build, henter, hr]
    show (if ({ s with verbatim := some (header, v) } : State).depth ≤ s.depth then _ else _) = _
    rw [if_neg (Nat.not_le.mpr (State.depth_lt_verbatim hv (header, v)))]
    show ({ s with verbatim := some (header, v) } : State).takeUntil strict s.depth
      cursor.advance.ahead >>= _ = _
    rw [State.takeUntil_verbatim hv]
    cases (v.read header cursor.advance.ahead).1 <;> rfl

/-- A comment between marks ends on the first of its lines that ends with the closing mark.  Its text is
the lines up to there without the marks, each trimmed, but without empty ones in front and without an
empty last one behind others.  Where no line ends with the mark, the first line is refused with the
cursor past the end.  So the reader builds it, in every state in which it is not inside another one. -/
theorem read_block (h : ['/', '*'] <+: header.trimmed) (lines : List Line) :
    (∀ j, (blockLines header lines).findIdx? (Category.endsWith ['*', '/']) = some j →
      ∃ last : Text, (blockLines header lines)[j]? = some (last ++ ['*', '/']) ∧
        read header ⟨header :: lines⟩ =
          (.ok (.comment ⟨blockText ((blockLines header lines).take j) last.trim⟩),
            ⟨(header :: lines).drop j⟩)) ∧
      ((blockLines header lines).findIdx? (Category.endsWith ['*', '/']) = none →
        ∃ e, read header ⟨header :: lines⟩ = (.error e, ⟨[]⟩) ∧ e.kind = .structural ∧
          e.place = header ∧
          e.message = "unterminated comment, no closing \"*/\" found".toList) ∧
      ∀ (strict : Bool) (s : State), s.verbatim = none →
        s.build strict .comment header ⟨header :: lines⟩ =
          (read header ⟨header :: lines⟩).1.map fun node =>
            (s.add node, (read header ⟨header :: lines⟩).2) := by
  refine ⟨fun j hj => ?_, fun hopen => ?_, fun strict s hv => build_eq_read hv header _⟩
  · obtain ⟨last, hlast, hfront⟩ := closing_of_findIdx? hj
    refine ⟨last, hlast, ?_⟩
    rw [read]
    cases j with
    | zero =>
      rw [opened_of_ended h (Option.some.inj hlast)]
      rfl
    | succ k =>
      obtain ⟨close, hdrop, hclose⟩ := exists_line hlast
      rw [blockLines_take] at hfront ⊢
      obtain ⟨v, hv, hon⟩ := exists_opened h hfront
      have hsplit := List.take_append_drop k lines
      rw [hdrop] at hsplit
      rw [hv]
      show v.read header lines = _
      rw [← hsplit, Verbatim.read_of_goesOn hon, Verbatim.read_finished (take_closing _ hclose), hsplit,
        List.drop_succ_cons, hdrop]
  · obtain ⟨v, hv, hon⟩ := exists_opened h (List.findIdx?_eq_none_iff.mp hopen)
    have hread := Verbatim.read_of_goesOn hon header []
    rw [List.append_nil] at hread
    rw [read, hv]
    exact ⟨_, hread, rfl, rfl, rfl⟩

/-- Empty lines in front and before the closing mark are left out and those between are kept, and a
comment that is not closed is refused. -/
theorem read_block_pieces :
    read ⟨1, 0, "/*".toList⟩ ⟨[⟨1, 0, "/*".toList⟩, ⟨2, 3, []⟩, ⟨3, 4, " a".toList⟩, ⟨4, 7, []⟩,
        ⟨5, 8, "b".toList⟩, ⟨6, 10, " */".toList⟩, ⟨7, 14, "]".toList⟩]⟩ =
          (.ok (.comment ⟨"a\n\nb".toList⟩), ⟨[⟨6, 10, " */".toList⟩, ⟨7, 14, "]".toList⟩]⟩) ∧
      ∃ e, read ⟨1, 0, "/*/".toList⟩ ⟨[⟨1, 0, "/*/".toList⟩, ⟨2, 4, "*/ ]".toList⟩]⟩ =
          (.error e, ⟨[]⟩) ∧ e.kind = .structural := by
  constructor
  · obtain ⟨last, hlast, hread⟩ := (@read_block ⟨1, 0, "/*".toList⟩ (by decide)
      [⟨2, 3, []⟩, ⟨3, 4, " a".toList⟩, ⟨4, 7, []⟩, ⟨5, 8, "b".toList⟩, ⟨6, 10, " */".toList⟩,
        ⟨7, 14, "]".toList⟩]).1 5 rfl
    have hmark : [] ++ ['*', '/'] = last ++ ['*', '/'] := Option.some.inj hlast
    rw [← List.append_cancel_right hmark] at hread
    exact hread
  · obtain ⟨e, hread, hkind, -, -⟩ := (@read_block ⟨1, 0, "/*/".toList⟩ (by decide)
      [⟨2, 4, "*/ ]".toList⟩]).2.1 rfl
    exact ⟨e, hread, hkind⟩

end header
end Comment

/-! ## Comments in a source -/

namespace State

variable {strict : Bool} {s : State} {header : Line} {lines : List Line}

/-- Wherever lines are read, a line with the mark of a comment starts one. -/
theorem step_mark (hv : s.verbatim = none) (h : ['/', '*'] <+: header.trimmed) :
    s.step strict header = .ok (s.resume header (Comment.opened header.text)) := by
  obtain ⟨rest, hrest⟩ := h
  have hunclosed : s.closedBy header.trimmed = false := by
    rw [← closedBy_path]
    refine Path.unclosed_of_head s.path ?_
    rw [← hrest]
    simp
  have hcat : Category.ofLine header.text = .comment :=
    @Comment.ofLine_mark header.text rest '*' hrest.symm (Or.inr rfl)
  have hc : categorize strict header = .ok .comment :=
    categorize_eq_ok_iff.mpr ⟨hcat, fun _ h => by rcases h with h | h <;> cases h⟩
  exact step_of_move (.comment ⟨hv, hunclosed⟩ hc s.permits_comment)

/-- Lines without the closing mark at their end leave the comment open. -/
theorem run_open (hv : s.verbatim = none) (h : ['/', '*'] <+: header.trimmed)
    (he : ∀ t ∈ Comment.blockLines header lines, Category.endsWith ['*', '/'] t = false) :
    s.run strict (header :: lines) = .ok { s with
      verbatim := some (header, .comment (Comment.kept (Comment.blockLines header lines))) } := by
  obtain ⟨v, hopened, hon⟩ := Comment.exists_opened h he
  have hstep := @step_mark strict s header hv h
  rw [hopened] at hstep
  rw [run_of_step hstep]
  exact run_of_goesOn hon s header

/-- The first line with the mark at its end finishes the comment. -/
theorem run_closed (hv : s.verbatim = none) (h : ['/', '*'] <+: header.trimmed) {n : Nat}
    (hn : (Comment.blockLines header lines).findIdx? (Category.endsWith ['*', '/']) = some n) :
    ∃ c, s.run strict (header :: lines.take n) = .ok (s.add (.comment c)) := by
  obtain ⟨last, hlast, hfront⟩ := Comment.closing_of_findIdx? hn
  cases n with
  | zero =>
    have hstep := @step_mark strict s header hv h
    rw [Comment.opened_of_ended h (Option.some.inj hlast), resume_inr hv] at hstep
    exact ⟨_, run_of_step hstep _⟩
  | succ k =>
    obtain ⟨close, hdrop, hclose⟩ := Comment.exists_line hlast
    rw [Comment.blockLines_take] at hfront
    have hline : lines[k]? = some close := by
      rw [← List.head?_drop, hdrop]
      rfl
    have hstep : ({ s with verbatim := some (header,
        .comment (Comment.kept (Comment.blockLines header (lines.take k)))) } : State).step strict close =
          .ok (s.add (.comment ⟨Comment.blockText (Comment.blockLines header (lines.take k))
            (Text.trim last)⟩)) := by
      rw [step_resume rfl, Comment.take_closing _ hclose, resume_done hv]
    have hsplit : header :: lines.take (k + 1) = (header :: lines.take k) ++ [close] := by
      rw [List.take_add_one, hline]
      rfl
    rw [hsplit, run_append, run_open hv h hfront]
    exact ⟨_, run_of_step hstep []⟩

end State

namespace Document

/-- The first element that passes a test is no further than one that passes a stronger test. -/
theorem findIdx?_mono {α : Type} {p q : α → Bool} {xs : List α} {n : Nat}
    (hpq : ∀ x, p x = true → q x = true) (h : xs.findIdx? p = some n) :
    ∃ f, xs.findIdx? q = some f ∧ f ≤ n := by
  obtain ⟨hn, hp, -⟩ := List.findIdx?_eq_some_iff_getElem.mp h
  cases hf : xs.findIdx? q with
  | none =>
    have hq := List.findIdx?_eq_none_iff.mp hf xs[n] (List.getElem_mem hn)
    rw [hpq _ hp] at hq
    cases hq
  | some f =>
    obtain ⟨hlt, hq, hfirst⟩ := List.findIdx?_eq_some_iff_getElem.mp hf
    refine ⟨f, rfl, Nat.le_of_not_lt fun hlt => ?_⟩
    exact hfirst n hlt (hpq _ hp)

/-- A comment in a source that is read is finished by the first of its lines that ends with the closing
mark, and reading goes on behind that line.  Up to it all lines are taken into the comment, also those
behind the first one that has the mark in it, if that line goes on behind its mark. -/
theorem comment_end {strict : Bool} {source : Text} {d : Document} {before after : List Line}
    {header : Line} {s : State} (hd : parse strict source = .ok d)
    (hlines : Line.ofSource source = before ++ header :: after)
    (hrun : State.start.run strict before = .ok s) (hv : s.verbatim = none)
    (hmark : ['/', '*'] <+: header.trimmed) :
    ∃ n f c, (Comment.blockLines header after).findIdx? (Category.endsWith ['*', '/']) = some n ∧
      (Comment.blockLines header after).findIdx? (Text.hasInfix ['*', '/']) = some f ∧ f ≤ n ∧
      (f = n ↔ ∃ t, (Comment.blockLines header after)[f]? = some t ∧ ['*', '/'] <:+ t) ∧
      (∀ m < n, ∃ pieces, State.start.run strict (before ++ header :: after.take m) =
        .ok { s with verbatim := some (header, .comment pieces) }) ∧
      State.start.run strict (before ++ header :: after.take n) = .ok (s.add (.comment c)) ∧
      ((s.add (.comment c)).run strict (after.drop n) >>= State.finish) = .ok d := by
  obtain ⟨t, ht, hfinish⟩ := parse_eq_ok_iff.mp hd
  have hbehind : ∀ lines, State.start.run strict (before ++ lines) = s.run strict lines := by
    intro lines
    rw [State.run_append, hrun]
    rfl
  rw [hlines, hbehind] at ht
  cases hn : (Comment.blockLines header after).findIdx? (Category.endsWith ['*', '/']) with
  | none =>
    rw [State.run_open hv hmark (List.findIdx?_eq_none_iff.mp hn)] at ht
    cases ht
    cases hfinish
  | some n =>
    obtain ⟨last, hlast, hfront⟩ := Comment.closing_of_findIdx? hn
    obtain ⟨c, hclosed⟩ := State.run_closed hv hmark hn
    have hends : ∀ t, Category.endsWith ['*', '/'] t = true → Text.hasInfix ['*', '/'] t = true :=
      fun t ht => Text.hasInfix_iff.mpr (List.isSuffixOf_iff_suffix.mp ht).isInfix
    obtain ⟨f, hf, hle⟩ := findIdx?_mono hends hn
    refine ⟨n, f, c, rfl, hf, hle, ⟨fun hfn => ?_, fun ⟨t, htf, hsuffix⟩ => ?_⟩, fun m hm => ?_, ?_, ?_⟩
    · rw [hfn]
      exact ⟨_, hlast, List.suffix_append last _⟩
    · refine Nat.le_antisymm hle (Nat.le_of_not_lt fun hlt => ?_)
      have hmem : t ∈ (Comment.blockLines header after).take n :=
        List.mem_of_getElem? ((List.getElem?_take_of_lt hlt).trans htf)
      have hnot := hfront t hmem
      rw [Category.endsWith, List.isSuffixOf_iff_suffix.mpr hsuffix] at hnot
      cases hnot
    · have hopen : ∀ t ∈ Comment.blockLines header (after.take m),
          Category.endsWith ['*', '/'] t = false := by
        intro t ht
        rw [← Comment.blockLines_take] at ht
        exact hfront t (List.take_subset_take_left _ hm ht)
      rw [hbehind]
      exact ⟨_, State.run_open hv hmark hopen⟩
    · rw [hbehind]
      exact hclosed
    · have hsplit : header :: after = (header :: after.take n) ++ after.drop n := by
        rw [List.cons_append, List.take_append_drop]
      rw [hsplit, State.run_append, hclosed] at ht
      exact Outcome.bind_eq_ok_iff.mpr ⟨t, ht, hfinish⟩

/-- A bracket behind a comment closes the unit that the comment stands in. -/
theorem comment_end_unit :
    ∃ s c d, State.start.run true [⟨1, 0, "unit A [".toList⟩] = .ok s ∧
      State.start.run true [⟨1, 0, "unit A [".toList⟩, ⟨2, 9, "/* a".toList⟩, ⟨3, 14, "b */".toList⟩] =
        .ok (s.add (.comment c)) ∧
      ((s.add (.comment c)).run true [⟨4, 19, "]".toList⟩] >>= State.finish) = .ok d := by
  obtain ⟨s, hrun, hv⟩ : ∃ s, State.start.run true [⟨1, 0, "unit A [".toList⟩] = .ok s ∧
      s.verbatim = none := ⟨_, rfl, rfl⟩
  obtain ⟨d, hd⟩ : ∃ d, parse true "unit A [\n/* a\nb */\n]".toList = .ok d := ⟨_, rfl⟩
  obtain ⟨n, f, c, hn, -, -, -, -, hclosed, hrest⟩ := @comment_end true _ d [⟨1, 0, "unit A [".toList⟩]
    [⟨3, 14, "b */".toList⟩, ⟨4, 19, "]".toList⟩] ⟨2, 9, "/* a".toList⟩ s hd rfl hrun hv (by decide)
  have hone : n = 1 := (Option.some.inj hn).symm
  rw [hone] at hclosed hrest
  exact ⟨s, c, d, hrun, hclosed, hrest⟩

/-- The closing bracket of a block of sounds is taken into a comment whose mark stands on the line before,
and so is all up to the next mark at the end of a line, where there is a trigger. -/
theorem comment_end_passed :
    ∃ source before header after s d,
      source = "unit A [\nstage [\nsounds [\n/* a */ b\n]\nwhen go [\nx\n/* c */\n]\n]\n]".toList ∧
      Line.ofSource source = before ++ header :: after ∧
      State.start.run false before = .ok s ∧ s.verbatim = none ∧ ['/', '*'] <+: header.trimmed ∧
      (Comment.blockLines header after).findIdx? (Text.hasInfix ['*', '/']) = some 0 ∧
      (after.take 4).map Line.text = ["]".toList, "when go [".toList, "x".toList, "/* c */".toList] ∧
      (∃ pieces, State.start.run false (before ++ header :: after.take 3) =
        .ok { s with verbatim := some (header, .comment pieces) }) ∧
      parse false source = .ok d ∧
      d.units.flatMap (·.stages.flatMap (·.actor.triggers)) = [] :=
  ⟨_, [⟨1, 0, "unit A [".toList⟩, ⟨2, 9, "stage [".toList⟩, ⟨3, 17, "sounds [".toList⟩],
    ⟨4, 26, "/* a */ b".toList⟩, _, _, _, rfl, rfl, rfl, rfl, by decide, rfl, rfl, ⟨_, rfl⟩, rfl, rfl⟩

end Document
end BlockText
