/-
Lines that are taken as they are.

While an escape or a comment between marks is open, every line goes to it, whatever the line would be
elsewhere, up to the line that finishes it.  `Verbatim.read` goes through the lines so and does nothing
else, and the reader does the same from any state (`State.takeUntil_verbatim`).  Lines that finish
nothing are told by what they make of the construct (`Verbatim.GoesOn`).

For an escape this makes the closing mark the only thing that is looked for: the code is the lines up to
the first line that is the mark, as they are in the source (`Hosted.read_verbatim`).
-/
import BlockText.Proofs.Print.Header
import BlockText.Proofs.Reading.Above
import BlockText.Proofs.Reading.Closing

namespace BlockText

namespace Verbatim

/-! ## The lines of one construct -/

/-- Takes lines until one of them finishes the construct that starts on `header`.  Gives the construct,
and the cursor on the line that finished it, or past the end. -/
def read (header : Line) (v : Verbatim) : List Line → Except ParseError Node × Cursor
  | [] => (.error (.line (.unterminated v.category) header), ⟨[]⟩)
  | line :: rest =>
    match v.take line with
    | .inl v => read header v rest
    | .inr node => (.ok node, ⟨line :: rest⟩)

/-- The lines finish nothing, and what was open before them goes on as this behind them. -/
inductive GoesOn : Verbatim → List Line → Verbatim → Prop
  | nil {v : Verbatim} : GoesOn v [] v
  | cons {v v' v'' : Verbatim} {line : Line} {lines : List Line} (ht : v.take line = .inl v')
    (h : GoesOn v' lines v'') : GoesOn v (line :: lines) v''

variable {v v' : Verbatim} {lines : List Line}

theorem read_of_goesOn (h : GoesOn v lines v') (header : Line) (rest : List Line) :
    v.read header (lines ++ rest) = v'.read header rest := by
  induction h with
  | nil => rfl
  | cons ht h ih =>
    rw [List.cons_append, read, ht]
    exact ih

theorem read_finished {line header : Line} {node : Node} (h : v.take line = .inr node)
    (rest : List Line) : v.read header (line :: rest) = (.ok node, ⟨line :: rest⟩) := by
  rw [read, h]

/-- The first element that passes a test parts a list. -/
theorem drop_of_findIdx? {α : Type} {p : α → Bool} {xs : List α} {j : Nat}
    (h : xs.findIdx? p = some j) :
    ∃ x after, xs.drop j = x :: after ∧ p x = true ∧ ∀ y ∈ xs.take j, p y = false := by
  obtain ⟨hj, hp, hbefore⟩ := List.findIdx?_eq_some_iff_getElem.mp h
  refine ⟨xs[j], xs.drop (j + 1), List.drop_eq_getElem_cons hj, hp, fun y hy => ?_⟩
  obtain ⟨i, hi, rfl⟩ := List.mem_take_iff_getElem.mp hy
  rw [Bool.eq_false_iff]
  exact hbefore i (by omega)

end Verbatim

/-! ## The reader on these lines -/

namespace State

variable {strict : Bool} {s : State}

theorem run_of_goesOn {v v' : Verbatim} {lines : List Line} (h : Verbatim.GoesOn v lines v')
    (s : State) (header : Line) :
    ({ s with verbatim := some (header, v) } : State).run strict lines =
      .ok { s with verbatim := some (header, v') } := by
  induction h with
  | nil => rfl
  | cons ht h ih =>
    rename_i v v' v'' line lines
    have hstep : ({ s with verbatim := some (header, v) } : State).step strict line =
        .ok { s with verbatim := some (header, v') } := by
      rw [step_resume rfl, ht]
      rfl
    rw [run_of_step hstep]
    exact ih

theorem depth_lt_verbatim (hv : s.verbatim = none) (p : Line × Verbatim) :
    s.depth < ({ s with verbatim := some p } : State).depth := by
  rw [depth, depth, hv]
  exact Nat.lt_succ_self _

/-- A construct that is finished is put in its place, and nothing is left of it. -/
theorem resume_done (hv : s.verbatim = none) (p : Line × Verbatim) (header : Line) (node : Node) :
    ({ s with verbatim := some p } : State).resume header (.inr node) = s.add node := by
  have hclosed : ({ s with verbatim := none } : State) = s := by rw [← hv]
  show ({ s with verbatim := none } : State).add node = _
  rw [hclosed]

/-- The reader goes through the lines of an open construct as the construct does by itself, and puts it
where it belongs. -/
theorem takeUntil_verbatim (hv : s.verbatim = none) (header : Line) (v : Verbatim)
    (lines : List Line) :
    ({ s with verbatim := some (header, v) } : State).takeUntil strict s.depth lines =
      (v.read header lines).1.map fun node => (s.add node, (v.read header lines).2.ahead) := by
  induction lines generalizing v with
  | nil => rfl
  | cons line lines ih =>
    rw [takeUntil, step_resume rfl, Verbatim.read]
    cases v.take line with
    | inl v' =>
      show (if ({ s with verbatim := some (header, v') } : State).depth ≤ s.depth then _ else _) = _
      rw [if_neg (Nat.not_le.mpr (depth_lt_verbatim hv (header, v')))]
      exact ih v'
    | inr node =>
      have hdone : (s.add node).depth ≤ s.depth := Nat.le_of_eq (depth_settle s (some node))
      rw [resume_done hv]
      show (if (s.add node).depth ≤ s.depth then _ else _) = _
      rw [if_pos hdone]
      rfl

end State

/-! ## Headers of escapes -/

namespace Hosted

variable {block between : Text} {header : Line}

/-- The header of an escape is its word and its mark, with a clause or nothing between them. -/
theorem exists_between (h : Category.ofLine header.text = .hosted) :
    ∃ between, header.trimmed = "hosted".toList ++ between ++ "[@".toList := by
  have haccepts := Category.acceptsTrimmed_of_ofLine h (by decide)
  rw [Category.acceptsTrimmed, Category.isKeyed, Bool.and_eq_true, Keyword.heads_iff] at haccepts
  obtain ⟨⟨rest, hword, -⟩, hends⟩ := haccepts
  obtain ⟨front, hfront⟩ := List.isSuffixOf_iff_suffix.mp hends
  have hboth := hfront.trans hword
  rcases List.append_eq_append_iff.mp hboth with ⟨c, hc, hmark⟩ | ⟨c, hc, -⟩
  · cases c with
    | nil =>
      rw [List.append_nil] at hc
      refine ⟨[], ?_⟩
      rw [← hfront, ← hc]
      rfl
    | cons d c =>
      -- The mark does not reach into the word, since its first character is not in there.
      have hd : '[' = d := (List.cons.inj hmark).1
      have hmem : '[' ∈ Keyword.hosted.text := by
        rw [hc, ← hd]
        exact List.mem_append_right front List.mem_cons_self
      exact absurd hmem (by decide)
  · refine ⟨c, ?_⟩
    rw [← hfront, hc]
    rfl

theorem hostedClause_between (between : Text) :
    hostedClause ("hosted".toList ++ between ++ "[@".toList) = between.trim := by
  have hprefix : List.isPrefixOf? Keyword.hosted.text ("hosted".toList ++ between ++ "[@".toList) =
      some (between ++ ['[', '@']) := by
    rw [List.append_assoc]
    exact List.isPrefixOf?_eq_some_iff_append_eq.mpr rfl
  have hsuffix : List.isSuffixOf? ['[', '@'] (between ++ ['[', '@']) = some between :=
    List.isSuffixOf?_eq_some_iff_append_eq.mpr rfl
  rw [hostedClause, hprefix]
  simp only [hsuffix, Option.getD_some]

theorem hostedReturns_of_closes (hb : header.trimmed = "hosted".toList ++ between ++ "[@".toList)
    {returns : Option Returns} (h : Returns.Closes between.trim returns) :
    hostedReturns block header = .ok returns := by
  rw [hostedReturns, hb, hostedClause_between]
  exact Opening.optional_of_closes (Text.trim_trim between) h

/-- A clause that is there and is none of returns closes nothing. -/
theorem not_closes_of_ne_nil {text : Text} (hne : text ≠ []) (h : ∀ r, ¬ Returns.Says text r)
    (returns : Option Returns) : ¬ Returns.Closes text returns := by
  intro hc
  cases hc with
  | bare => exact hne rfl
  | clause hs => exact h _ hs

theorem isSome_iff_of_closes {text : Text} {returns : Option Returns}
    (h : Returns.Closes text returns) : returns.isSome = true ↔ text ≠ [] := by
  cases h with
  | bare => exact ⟨fun h => (by cases h), fun h => absurd rfl h⟩
  | clause hs => exact ⟨fun _ => hs.ne_nil, fun _ => rfl⟩

theorem hostedReturns_of_not_closes
    (hb : header.trimmed = "hosted".toList ++ between ++ "[@".toList)
    (h : ∀ returns, ¬ Returns.Closes between.trim returns) :
    hostedReturns block header =
      .error (.name ⟨.malformedReturns block, between.trim, 0⟩ header) := by
  rw [hostedReturns, hb, hostedClause_between]
  exact Opening.optional_of_not_closes (Text.trim_trim between) h

end Hosted

/-! ## Escapes -/

theorem Verbatim.goesOn_hosted (returns : Option Returns) (front : List Text) {lines : List Line}
    (h : ∀ line ∈ lines, (line.trimmed == ['@', ']']) = false) :
    GoesOn (hosted returns front) lines (hosted returns (front ++ lines.map Line.text)) := by
  induction lines generalizing front with
  | nil =>
    rw [List.map_nil, List.append_nil]
    exact .nil
  | cons line lines ih =>
    have htake : (hosted returns front).take line = .inl (hosted returns (front ++ [line.text])) := by
      rw [take, h line List.mem_cons_self]
      rfl
    have hrest := ih (front ++ [line.text]) fun l hl => h l (List.mem_cons_of_mem line hl)
    rw [List.append_assoc, List.singleton_append] at hrest
    exact .cons htake hrest

namespace Hosted

variable {block between : Text} {header : Line} {returns : Option Returns} {cursor : Cursor}
  {lines : List Line}

theorem takeUntil_start (header : Line) (v : Verbatim) (lines : List Line) :
    ({ State.start with verbatim := some (header, v) } : State).takeUntil false 0 lines =
      (v.read header lines).1.map fun node =>
        (State.start.add node, (v.read header lines).2.ahead) :=
  @State.takeUntil_verbatim false .start rfl header v lines

/-- An escape by itself ends on the first line that is its closing mark. -/
theorem read_of_closing (hr : hostedReturns block header = .ok returns)
    (hlines : cursor.advance.ahead = lines) {j : Nat}
    (hj : lines.findIdx? (·.trimmed == ['@', ']']) = some j) :
    read block header cursor =
      (.ok (.hosted returns (Text.joinLines ((lines.take j).map Line.text))), ⟨lines.drop j⟩) := by
  obtain ⟨close, after, hdrop, hclose, hcode⟩ := Verbatim.drop_of_findIdx? hj
  have hsplit := (List.take_append_drop j lines).symm
  rw [hdrop] at hsplit
  have htake : (Verbatim.hosted returns ((lines.take j).map Line.text)).take close =
      .inr (.step (.hosted returns (Text.joinLines ((lines.take j).map Line.text)))) := by
    rw [Verbatim.take, hclose]
    rfl
  have hread : (Verbatim.hosted returns []).read header lines =
      (.ok (.step (.hosted returns (Text.joinLines ((lines.take j).map Line.text)))),
        ⟨close :: after⟩) := calc
    _ = (Verbatim.hosted returns []).read header (lines.take j ++ close :: after) :=
      congrArg _ hsplit
    _ = (Verbatim.hosted returns ((lines.take j).map Line.text)).read header (close :: after) :=
      Verbatim.read_of_goesOn (Verbatim.goesOn_hosted returns [] hcode) header _
    _ = _ := Verbatim.read_finished htake after
  rw [read, hr, show cursor.ahead.tail = lines from hlines, hdrop]
  simp only [takeUntil_start, hread]
  rfl

/-- An escape by itself goes to the end where nothing is its closing mark. -/
theorem read_of_open (hr : hostedReturns block header = .ok returns)
    (hlines : cursor.advance.ahead = lines)
    (hopen : lines.findIdx? (·.trimmed == ['@', ']']) = none) :
    read block header cursor = (.error (.line (.unterminated .hosted) header), ⟨[]⟩) := by
  have hon := Verbatim.goesOn_hosted returns [] (List.findIdx?_eq_none_iff.mp hopen)
  have hread := Verbatim.read_of_goesOn hon header []
  rw [List.append_nil] at hread
  rw [read, hr, show cursor.ahead.tail = lines from hlines]
  simp only [takeUntil_start, hread]
  rfl

theorem read_of_not_closes (hb : header.trimmed = "hosted".toList ++ between ++ "[@".toList)
    (h : ∀ returns, ¬ Returns.Closes between.trim returns) (cursor : Cursor) :
    read block header cursor =
      (.error (.name ⟨.malformedReturns block, between.trim, 0⟩ header), cursor) := by
  rw [read, hostedReturns_of_not_closes hb h]

/-- An escape is read as it stands.  Its header says a returns clause, or nothing, between its word and
its mark.  Anything else there is refused with the name of the definition, and the cursor stays.  Then
the code is the lines up to the first one that is the closing mark, where the cursor goes, and without
such a line the header is refused with the cursor past the end. -/
theorem read_verbatim (h : Category.ofLine header.text = .hosted) (block source : Text) (n : Nat) :
    ∃ between later, header.trimmed = "hosted".toList ++ between ++ "[@".toList ∧
      later = (Line.ofSource source).drop (n + 1) ∧
      (between.trim ≠ [] → (∀ r, ¬ Returns.Says between.trim r) →
        ∃ e, read block header ⟨(Line.ofSource source).drop n⟩ =
            (.error e, ⟨(Line.ofSource source).drop n⟩) ∧
          e.kind = .nameSyntax ∧ e.place = header ∧ e.text = between.trim ∧
          e.message = "problem parsing returns for block definition \"".toList ++ block ++ ['"']) ∧
      (∀ returns, Returns.Closes between.trim returns →
        (∀ j, later.findIdx? (·.trimmed == "@]".toList) = some j →
          ∃ code, read block header ⟨(Line.ofSource source).drop n⟩ =
              (.ok (.hosted returns code), ⟨(Line.ofSource source).drop (n + 1 + j)⟩) ∧
            code = Text.joinLines ((later.take j).map Line.text) ∧
            (0 < j → code.pieces = (later.take j).map Line.text) ∧ (j = 0 → code = [])) ∧
        (later.findIdx? (·.trimmed == "@]".toList) = none →
          ∃ e, read block header ⟨(Line.ofSource source).drop n⟩ = (.error e, ⟨[]⟩) ∧
            e.kind = .structural ∧ e.place = header ∧
            e.message = "unterminated hosted block, no closing \"@]\" found".toList)) ∧
      ∀ step cursor, read block header ⟨(Line.ofSource source).drop n⟩ = (.ok step, cursor) →
        ∃ returns code, step = .hosted returns code ∧ Returns.Closes between.trim returns ∧
          (returns.isSome = true ↔ between.trim ≠ []) := by
  obtain ⟨between, hb⟩ := exists_between h
  have hlater : Cursor.ahead (Cursor.advance ⟨(Line.ofSource source).drop n⟩) =
      (Line.ofSource source).drop (n + 1) := List.tail_drop
  refine ⟨between, _, hb, rfl, fun hne hsays => ?_, fun returns hc => ⟨fun j hj => ?_, fun hopen => ?_⟩,
    fun step cursor hstep => ?_⟩
  · exact ⟨_, read_of_not_closes hb (not_closes_of_ne_nil hne hsays) _, rfl, rfl, rfl, rfl⟩
  · rw [← List.drop_drop]
    refine ⟨_, read_of_closing (hostedReturns_of_closes hb hc) hlater hj, rfl, fun hpos => ?_,
      fun hzero => ?_⟩
    · refine Text.pieces_joinLines (fun t ht => ?_) ?_
      · obtain ⟨line, hline, rfl⟩ := List.mem_map.mp ht
        exact Line.not_mem_text (List.mem_of_mem_drop (List.mem_of_mem_take hline))
      · have hlt := (List.findIdx?_eq_some_iff_getElem.mp hj).1
        rw [Ne, List.map_eq_nil_iff, List.take_eq_nil_iff, not_or]
        exact ⟨by omega, List.ne_nil_of_length_pos (by omega)⟩
    · rw [hzero]
      rfl
  · have herror := @read_of_open block header returns _ _ (hostedReturns_of_closes hb hc) hlater hopen
    exact ⟨_, herror, rfl, rfl, rfl⟩
  · by_cases hc : ∃ returns, Returns.Closes between.trim returns
    · obtain ⟨returns, hc⟩ := hc
      cases hj : ((Line.ofSource source).drop (n + 1)).findIdx? (·.trimmed == "@]".toList) with
      | none =>
        rw [read_of_open (hostedReturns_of_closes hb hc) hlater hj] at hstep
        cases hstep
      | some j =>
        rw [read_of_closing (hostedReturns_of_closes hb hc) hlater hj] at hstep
        cases hstep
        exact ⟨returns, _, rfl, hc, isSome_iff_of_closes hc⟩
    · rw [read_of_not_closes hb (not_exists.mp hc)] at hstep
      cases hstep

/-- Indentation, blank lines and brackets are kept, and a clause that is none is refused. -/
theorem read_verbatim_code :
    (∃ code cursor, read "go".toList ⟨1, 0, "hosted [@".toList⟩
        ⟨(Line.ofSource "hosted [@\n  a\n\n]\n @] \n@]".toList).drop 0⟩ =
          (.ok (.hosted none code), cursor) ∧
      cursor.ahead.map Line.text = [" @] ".toList, "@]".toList] ∧
      code.pieces = ["  a".toList, [], "]".toList]) ∧
    ∃ e, read "go".toList ⟨1, 0, "hosted returns [@".toList⟩
        ⟨(Line.ofSource "hosted returns [@\n@]".toList).drop 0⟩ =
          (.error e, ⟨(Line.ofSource "hosted returns [@\n@]".toList).drop 0⟩) ∧
      e.message = "problem parsing returns for block definition \"go\"".toList := by
  constructor
  · obtain ⟨between, later, hb, rfl, -, hread, -⟩ :=
      @read_verbatim ⟨1, 0, "hosted [@".toList⟩ rfl "go".toList
        "hosted [@\n  a\n\n]\n @] \n@]".toList 0
    have hshape : "hosted".toList ++ " ".toList ++ "[@".toList =
        "hosted".toList ++ between ++ "[@".toList := hb
    have hbetween : between = " ".toList :=
      (List.append_cancel_left (List.append_cancel_right hshape)).symm
    have hcloses : Returns.Closes between.trim none := hbetween ▸ .bare
    obtain ⟨code, hcode, -, hpieces, -⟩ := (hread none hcloses).1 3 rfl
    exact ⟨code, _, hcode, rfl, hpieces (by decide)⟩
  · obtain ⟨between, later, hb, rfl, hrefused, -, -⟩ :=
      @read_verbatim ⟨1, 0, "hosted returns [@".toList⟩ rfl "go".toList
        "hosted returns [@\n@]".toList 0
    have hshape : "hosted".toList ++ " returns ".toList ++ "[@".toList =
        "hosted".toList ++ between ++ "[@".toList := hb
    have hbetween : between = " returns ".toList :=
      (List.append_cancel_left (List.append_cancel_right hshape)).symm
    have hnot : Returns.ofText? between = none := by
      rw [hbetween]
      rfl
    obtain ⟨e, he, -, -, -, hmessage⟩ := hrefused (by rw [hbetween]; decide) fun r hr => by
      rw [Returns.ofText?_eq_some_iff.mpr hr] at hnot
      cases hnot
    exact ⟨e, he, hmessage⟩

end Hosted
end BlockText
