/-
Reading one construct.

`State.build` reads the construct of one header, from a cursor that is on it: the header is read, and
then lines are taken until nothing is open but what was open before.  A whole source is read so, one
construct after another (`State.run_eq_build`), and the cursor is then on the line behind which the
reading goes on.

That line is a closing line of the construct, which is open up to it (`Cursor.OpenUntil`).  It and the
construct are told from the lines between the header and it alone: on any lines with the same texts
there the cursor comes to the same line, and the construct is the same, whatever was read before
(`Cursor.closes_of_build`).
-/
import BlockText.Proofs.Text.Slices
import BlockText.Proofs.Reading.Above

namespace BlockText

/-! ## Builders -/

/-- The categories of lines that start a construct with lines of its own. -/
def Category.Builds (category : Category) : Prop := category ≠ .blank ∧ category ≠ .stepCall

namespace State

/-- Starts the construct of this category that has this header. -/
def enterAs (s : State) (category : Category) (header : Line) : Except ParseError State :=
  match category with
  | .comment => .ok (s.resume header ((Comment.start header.trimmed).map id .comment))
  | .hosted => s.enterHosted header
  | category => do
    match ← Opening.ofHeader category s.contextDepth header with
    | some opening => return s.push header opening
    | none => return s

/-- Reads the construct of this category that has this header, from a cursor on the header.  Gives
the state with the construct in it and the cursor on the line that closed it. -/
def build (strict : Bool) (s : State) (category : Category) (header : Line) (cursor : Cursor) :
    Except ParseError (State × Cursor) := do
  let t ← s.enterAs category header
  if t.depth ≤ s.depth then return (t, cursor)
  else
    let (u, rest) ← t.takeUntil strict s.depth cursor.advance.ahead
    return (u, ⟨rest⟩)

section reader

variable {strict : Bool} {s : State} {category : Category} {header : Line}

/-- The reader starts what the category of the line says, if it may stand there. -/
theorem enter_eq_enterAs (hc : categorize strict header = .ok category) (hb : category.Builds)
    (hp : Category.permits s.parent category = true) :
    s.enter strict header = s.enterAs category header := by
  rw [enter, hc]
  simp only [bind, Except.bind, hp, beq_eq_false_iff_ne.mpr hb.1, Bool.not_true, Bool.false_eq_true,
    if_false]
  cases category with
  | blank => exact absurd rfl hb.1
  | stepCall => exact absurd rfl hb.2
  | _ => rfl

/-- Reading to the end is reading some lines and going on behind them. -/
theorem run_eq_takeUntil (depth : Nat) (s : State) (lines : List Line) :
    (s.run strict lines >>= finish) =
      s.takeUntil strict depth lines >>= fun r => r.1.run strict r.2.tail >>= finish := by
  induction lines generalizing s with
  | nil =>
    show s.finish = (s.finish >>= fun _ => .ok (s, [])) >>= _
    cases hd : s.finish with
    | error e => rfl
    | ok d => exact hd.symm
  | cons line lines ih =>
    rw [run_cons, takeUntil]
    cases s.step strict line with
    | error e => rfl
    | ok next =>
      show (next.run strict lines >>= finish) = (if next.depth ≤ depth then _ else _) >>= _
      split
      · rfl
      · exact ih next

/-- Reading on from a header is building its construct and reading on behind the line that the cursor
is then on. -/
theorem run_eq_build (hl : s.Free header) (hc : categorize strict header = .ok category)
    (hb : category.Builds) (hp : Category.permits s.parent category = true) (lines : List Line) :
    (s.run strict (header :: lines) >>= finish) =
      s.build strict category header ⟨header :: lines⟩ >>= fun r =>
        r.1.run strict r.2.advance.ahead >>= finish := by
  rw [run_cons, step_enter hl, enter_eq_enterAs hc hb hp, build]
  cases s.enterAs category header with
  | error e => rfl
  | ok t =>
    show (t.run strict lines >>= finish) = (if t.depth ≤ s.depth then _ else _) >>= _
    split
    · rfl
    · refine (run_eq_takeUntil s.depth t lines).trans ?_
      show _ = (t.takeUntil strict s.depth lines >>= _) >>= _
      cases t.takeUntil strict s.depth lines <;> rfl

end reader
end State

/-! ## Headers -/

namespace Text

/-- Trimming the rest of a trimmed text cuts off nothing behind it. -/
theorem trim_suffix {t rest : Text} (ht : Trimmed t) (h : rest <:+ t) : trim rest <:+ t := by
  have hlast : ∀ c ∈ (trimStart rest).getLast?, isSpace c = false := by
    intro c hc
    obtain ⟨front, rfl⟩ := (List.dropWhile_suffix isSpace).trans h
    refine ht.last c ?_
    have hne : trimStart rest ≠ [] := fun hnil => by rw [hnil] at hc; cases hc
    exact (List.getLast?_append_of_ne_nil front hne).trans hc
  rw [trim, trimEnd_of_last hlast]
  exact (List.dropWhile_suffix isSpace).trans h

end Text

/-- A comment on one line starts like one or ends like one. -/
theorem Comment.marked_of_start {trimmed : Text} {c : Comment} (ht : Text.Trimmed trimmed)
    (h : Comment.start trimmed = .inr c) : ['/', '/'] <+: trimmed ∨ ['*', '/'] <:+ trimmed := by
  rw [Comment.start] at h
  split at h
  next text hp => exact Or.inl ⟨text, List.isPrefixOf?_eq_some_iff_append_eq.mp hp⟩
  · exact Or.inr ((Verbatim.suffix_of_takePiece h).trans
      (Text.trim_suffix ht (Text.suffix_dropPrefix _ _)))

namespace Above

/-- A header of this text leads from a base to this, whatever the base, if it has this many open
context calls and, for an escape, is in the definition named `block`. -/
def Starts (category : Category) (block : Text) (depth : Nat) (text : Text)
    (r : Above ⊕ Option Node) : Prop :=
  ∀ {base : State} {header : Line}, base.verbatim = none → base.contextDepth = depth →
    (category = .hosted → base.block = block) → header.text = text →
    ∃ t, base.enterAs category header = .ok t ∧ Reaches category r base t

section starts

variable {block : Text} {depth : Nat} {header : Line}

theorem lies_nil {base : State} (hv : base.verbatim = none) : Lies [] base base :=
  ⟨hv, rfl, [], rfl, rfl⟩

theorem starts_comment :
    Starts .comment block depth header.text (resume [] (Comment.opened header.text)) := by
  intro base header' hv _ _ ht
  refine ⟨_, rfl, ?_⟩
  rw [Line.trimmed, ht]
  refine (lies_nil hv).resume (fun v hr => ?_) (fun hne => absurd rfl hne) header'
  rcases Verbatim.opened_comment header.text with ⟨pieces, ho⟩ | ⟨c, ho⟩ <;> rw [ho] at hr <;>
    cases hr
  rfl

theorem starts_hosted {returns : Option Returns} (hr : hostedReturns block header = .ok returns) :
    Starts .hosted block depth header.text (.inl ⟨[], some (.hosted returns [])⟩) := by
  intro base header' hv _ hblock ht
  have hr' : hostedReturns base.block header' = .ok returns := by
    rw [hblock rfl]
    exact hostedReturns_congr (congrArg Text.trim ht) hr
  exact ⟨_, Outcome.bind_eq_ok_iff.mpr ⟨returns, hr', rfl⟩, rfl, (lies_nil hv).with_verbatim _, rfl⟩

theorem enterAs_opens {category : Category} (ho : Opening.Opens category) (s : State)
    (header : Line) :
    s.enterAs category header = Opening.ofHeader category s.contextDepth header >>= fun o =>
      match o with
      | some opening => pure (s.push header opening)
      | none => pure s := by
  obtain ⟨-, hc, hh, -⟩ := ho
  cases category with
  | comment => exact absurd rfl hc
  | hosted => exact absurd rfl hh
  | _ => rfl

theorem starts_opened {o : Opening} (hs : Opening.Says depth header o) :
    Starts o.category block depth header.text (.inl ⟨[(o, .empty)], none⟩) := by
  intro base header' hv hd _ ht
  have htrim : header'.trimmed = header.trimmed := congrArg Text.trim ht
  have hs' := hs.congr htrim
  rw [← hd] at hs'
  rw [enterAs_opens (Opening.opens_category o), Opening.ofHeader_eq_ok_iff.mpr ⟨rfl, hs'⟩]
  exact ⟨_, rfl, rfl, (lies_nil hv).push _ _, congrArg (Option.map _) hv⟩

/-- A construct that starts on one base starts alike on every base, and only a comment can end with
its header. -/
theorem exists_starts {category : Category} {s t : State} (hb : category.Builds)
    (h : s.enterAs category header = .ok t) :
    ∃ r, Starts category s.block s.contextDepth header.text r ∧
      ∀ node, r = .inr node → category = .comment ∧ category.Gives node ∧
        (['/', '/'] <+: header.trimmed ∨ ['*', '/'] <:+ header.trimmed) := by
  rcases Opening.opens_or category with rfl | rfl | rfl | rfl | ho
  · exact absurd rfl hb.1
  · refine ⟨_, starts_comment, fun node hr => ⟨rfl, ?_⟩⟩
    rw [Comment.opened] at hr
    cases hst : Comment.start header.text.trim with
    | inl v =>
      rw [hst] at hr
      cases hr
    | inr c =>
      rw [hst] at hr
      cases hr
      exact ⟨rfl, Comment.marked_of_start (Text.trimmed_trim _) hst⟩
  · exact absurd rfl hb.2
  · obtain ⟨returns, hr, -⟩ := Outcome.bind_eq_ok_iff.mp h
    exact ⟨_, starts_hosted hr, fun node hr => by cases hr⟩
  · rw [enterAs_opens ho, Outcome.bind_eq_ok_iff] at h
    obtain ⟨o, hr, -⟩ := h
    cases o with
    | none => exact absurd hr (Opening.ofHeader_ne_none ho)
    | some o =>
      obtain ⟨rfl, hs⟩ := Opening.ofHeader_eq_ok_iff.mp hr
      exact ⟨_, starts_opened hs, fun node hr => by cases hr⟩

end starts
end Above

/-! ## Lines by their index -/

namespace Line

variable {lines lines' : List Line}

/-- From one line to another the texts are the same. -/
def Agree (first last : Nat) (lines lines' : List Line) : Prop :=
  ∀ i, first ≤ i → i ≤ last → (lines'[i]?).map (·.text) = (lines[i]?).map (·.text)

theorem drop_of_getElem? {i : Nat} {line : Line} (h : lines[i]? = some line) :
    lines.drop i = line :: lines.drop (i + 1) := by
  rw [List.drop_eq_getElem?_toList_append, h]
  rfl

theorem Agree.mono {first first' last : Nat} (h : Agree first last lines lines')
    (hf : first ≤ first') : Agree first' last lines lines' :=
  fun i hi => h i (Nat.le_trans hf hi)

/-- Where there is a line, there is one in its place with the same text. -/
theorem Agree.exists_line {i last : Nat} {line : Line} (h : Agree i last lines lines') (hi : i ≤ last)
    (hl : lines[i]? = some line) : ∃ line', lines'[i]? = some line' ∧ line'.text = line.text := by
  have hsame := h i (Nat.le_refl i) hi
  rw [hl] at hsame
  exact Option.map_eq_some_iff.mp hsame

theorem Agree.text_eq {i last : Nat} {line line' : Line} (h : Agree i last lines lines')
    (hi : i ≤ last) (hl : lines[i]? = some line) (hl' : lines'[i]? = some line') :
    line'.text = line.text := by
  obtain ⟨line'', hl'', ht⟩ := h.exists_line hi hl
  rw [hl'] at hl''
  cases hl''
  exact ht

/-- Lines that agree with some lines are as many, with the same texts. -/
theorem Agree.split {front after : List Line} {close : Line} {first : Nat}
    (hs : lines.drop first = front ++ close :: after)
    (h : Agree first (first + front.length) lines lines') :
    ∃ front' close' after', lines'.drop first = front' ++ close' :: after' ∧
      lines'.drop (first + front.length) = close' :: after' ∧
      front'.map (·.text) = front.map (·.text) ∧ close'.text = close.text := by
  induction front generalizing first with
  | nil =>
    have hclose : lines[first]? = some close := by
      rw [← List.head?_drop, hs]
      rfl
    obtain ⟨close', hclose', ht⟩ := h.exists_line (Nat.le_refl _) hclose
    exact ⟨[], close', _, drop_of_getElem? hclose', drop_of_getElem? hclose', rfl, ht⟩
  | cons line front ih =>
    have hline : lines[first]? = some line := by
      rw [← List.head?_drop, hs]
      rfl
    have hrest : lines.drop (first + 1) = front ++ close :: after := by
      rw [← List.tail_drop, hs]
      rfl
    have hlast : first + (line :: front).length = first + 1 + front.length := by
      rw [List.length_cons]
      omega
    obtain ⟨line', hline', ht⟩ := h.exists_line (Nat.le_add_right _ _) hline
    rw [hlast] at h ⊢
    obtain ⟨front', close', after', hdrop, hclose, hfront, htext⟩ :=
      ih hrest (h.mono (Nat.le_succ first))
    refine ⟨line' :: front', close', after', ?_, hclose, congrArg₂ List.cons ht hfront, htext⟩
    rw [drop_of_getElem? hline', hdrop]
    rfl

end Line

/-! ## The line that a cursor is left on -/

/-- The cursor, once on the header at index `h`, is on a line at index `c` that closes constructs of
this category: one behind the header, or for a comment the header itself. -/
structure Cursor.Closes (category : Category) (lines : List Line) (h c : Nat) (cursor : Cursor) :
    Prop where
  ahead : cursor = ⟨lines.drop c⟩
  closing : ∃ close, lines[c]? = some close ∧
    (h < c ∧ category.ClosesOn close.trimmed ∨
      category = .comment ∧ c = h ∧
        (['/', '/'] <+: close.trimmed ∨ ['*', '/'] <:+ close.trimmed))

/-- The lines ahead tell which line the cursor is left on. -/
theorem Cursor.Closes.add_length {category : Category} {lines : List Line} {h c : Nat} {cursor : Cursor}
    (hcloses : cursor.Closes category lines h c) : c + cursor.ahead.length = lines.length := by
  obtain ⟨rfl, close, hclose, -⟩ := hcloses
  have hlt : c < lines.length := (List.getElem?_eq_some_iff.mp hclose).1
  rw [List.length_drop, Nat.add_sub_cancel' (Nat.le_of_lt hlt)]

/-- The state behind the line at index `i`, when the construct of this category was started with its
header at index `h`. -/
def State.behind (strict : Bool) (s : State) (category : Category) (header : Line) (lines : List Line)
    (h i : Nat) : Except ParseError State := do
  (← s.enterAs category header).run strict ((lines.drop (h + 1)).take (i - h))

/-- The construct of this category that has its header at index `h` is open up to the line at index
`c`: behind each line before that one it lies above what was open before, and behind that one the
state is `t`. -/
structure Cursor.OpenUntil (strict : Bool) (category : Category) (s t : State) (header : Line)
    (lines : List Line) (h c : Nat) : Prop where
  between : ∀ i, h ≤ i → i < c → ∃ (a : Above) (u : State),
    s.behind strict category header lines h i = .ok u ∧ a.On category s u
  last : s.behind strict category header lines h c = .ok t

/-- The lines behind one index and before another. -/
def Line.between (lines : List Line) (h c : Nat) : List Line := (lines.drop (h + 1)).take (c - (h + 1))

namespace Above

variable {strict : Bool} {category : Category} {a : Above} {base s t : State}

/-- Lines up to a closing line, told by their indices. -/
theorem On.exists_closes {lines rest : List Line} {h : Nat} (hon : a.On category base s)
    (hu : s.takeUntil strict base.depth (lines.drop (h + 1)) = .ok (t, rest)) :
    ∃ c close last node, h < c ∧ lines[c]? = some close ∧ Cursor.Closes category lines h c ⟨rest⟩ ∧
      category.Gives node ∧ t = base.settle node ∧
      Stays strict category base s (Line.between lines h c) last ∧ last.step strict close = .ok t ∧
      ∀ {base' s' : State} {lines' : List Line}, a.On category base' s' →
        base'.contextDepth = base.contextDepth → Line.Agree h c lines lines' →
        s'.takeUntil strict base'.depth (lines'.drop (h + 1)) =
          .ok (base'.settle node, lines'.drop c) := by
  obtain ⟨front, close, after, last, node, hs, rfl, hstays, hlast, ht, hc, hgives, hsame⟩ :=
    hon.closing_of_takeUntil hu
  have hdrop : lines.drop (h + 1 + front.length) = close :: after := by
    rw [← List.drop_drop, hs, List.drop_left]
  have hlt : h < h + 1 + front.length := by omega
  have hclose : lines[h + 1 + front.length]? = some close := by
    rw [← List.head?_drop, hdrop]
    rfl
  have hbetween : Line.between lines h (h + 1 + front.length) = front := by
    rw [Line.between, hs, Nat.add_sub_cancel_left, List.take_left]
  refine ⟨_, close, last, node, hlt, hclose, ⟨congrArg Cursor.mk hdrop.symm, close, hclose,
    Or.inl ⟨hlt, hc⟩⟩, hgives, ht, hbetween.symm ▸ hstays, hlast,
    fun {base' s' lines'} hon' hd hagree => ?_⟩
  obtain ⟨front', close', after', hs', hdrop', hfront, htext⟩ :=
    (hagree.mono (Nat.le_succ h)).split hs
  rw [hs', hdrop']
  exact hsame hon' hd hfront htext

/-- What stays open along the lines behind its header is open up to the line behind them. -/
theorem Stays.openUntil {header close : Line} {lines : List Line} {h c : Nat} {s₀ u : State}
    (hstart : base.enterAs category header = .ok s₀) (hlt : h < c) (hclose : lines[c]? = some close)
    (hstays : Stays strict category base s₀ (Line.between lines h c) u)
    (hlast : u.step strict close = .ok t) :
    Cursor.OpenUntil strict category base t header lines h c := by
  have hbehind : ∀ i, base.behind strict category header lines h i =
      s₀.run strict ((lines.drop (h + 1)).take (i - h)) := by
    intro i
    rw [State.behind, hstart]
    rfl
  refine ⟨fun i hi hic => ?_, ?_⟩
  · have hc := (List.getElem?_eq_some_iff.mp hclose).1
    have hle : i - h ≤ (Line.between lines h c).length := by
      rw [Line.between, List.length_take, List.length_drop]
      omega
    obtain ⟨a, v, hrun, hon⟩ := hstays.exists_run_take hle
    refine ⟨a, v, ?_, hon⟩
    rw [Line.between, List.take_take, Nat.min_eq_left (by omega)] at hrun
    rw [hbehind, hrun]
  · have hcount : c - h = c - (h + 1) + 1 := by omega
    have hget : (lines.drop (h + 1))[c - (h + 1)]? = some close := by
      rw [List.getElem?_drop, Nat.add_sub_cancel' hlt, hclose]
    have hrun := hstays.run_eq
    rw [Line.between] at hrun
    rw [hbehind, hcount, List.take_add_one, hget, State.run_append, hrun]
    exact (State.run_of_step hlast []).trans rfl

/-- An escape that is open is so alone. -/
theorem On.eq_of_hosted (h : a.On .hosted base s) :
    ∃ returns code, a = ⟨[], some (.hosted returns code)⟩ := by
  obtain ⟨frames, verbatim⟩ := a
  have hout : (verbatim.toList.map (·.category) ++ kinds frames).getLast? = some .hosted := h.outermost
  have hframes : frames = [] := by
    by_contra hne
    rw [List.getLast?_append_of_ne_nil _ (by simpa [kinds] using hne), kinds, List.getLast?_map,
      Option.map_eq_some_iff] at hout
    obtain ⟨f, -, hf⟩ := hout
    cases hopening : f.1 <;> rw [hopening] at hf <;> cases hf
  subst hframes
  cases verbatim with
  | none => cases hout
  | some v =>
    cases v with
    | hosted returns code => exact ⟨returns, code, rfl⟩
    | comment pieces => cases hout

/-- While an escape stays open, none of its lines is the closing mark. -/
theorem Stays.unended {lines : List Line} (h : Stays strict .hosted base s lines t) :
    ∀ line ∈ lines, line.trimmed ≠ ['@', ']'] := by
  induction h with
  | nil => exact fun line hm => absurd hm List.not_mem_nil
  | @cons a s u t line lines hon hstep hrest ih =>
    refine List.forall_mem_cons.mpr ⟨fun hmark => ?_, ih⟩
    obtain ⟨returns, code, rfl⟩ := hon.eq_of_hosted
    obtain ⟨a', hon'⟩ := hrest.on_start
    -- The mark would end the escape, and then nothing is open above the base.
    have hturn : Turns strict base.contextDepth .hosted line.text ⟨[], some (.hosted returns code)⟩ _ :=
      turns_resumed rfl
    obtain ⟨u', hstep', hreach⟩ := hturn hon rfl rfl
    rw [hstep] at hstep'
    cases hstep'
    rw [Verbatim.take, hmark] at hreach
    have hu : u = base.settle (some (.step (.hosted returns (Text.joinLines code)))) := hreach
    have hlt := hon'.depth_lt
    rw [hu, State.depth_settle] at hlt
    exact absurd hlt (Nat.lt_irrefl _)

end Above

theorem Line.mem_between {lines : List Line} {line : Line} {h c i : Nat} (hi : h < i) (hic : i < c)
    (hl : lines[i]? = some line) : line ∈ between lines h c := by
  refine List.mem_iff_getElem?.mpr ⟨i - (h + 1), ?_⟩
  rw [between, List.getElem?_take_of_lt (by omega), List.getElem?_drop, Nat.add_sub_cancel' hi, hl]

namespace State

variable {strict : Bool} {category : Category} {s t : State} {header : Line}

/-- What is read with its header leaves the cursor there. -/
theorem build_of_settled {node : Option Node} (h : s.enterAs category header = .ok (s.settle node))
    (cursor : Cursor) : s.build strict category header cursor = .ok (s.settle node, cursor) := by
  refine Outcome.bind_eq_ok_iff.mpr ⟨_, h, ?_⟩
  rw [if_pos (Nat.le_of_eq (depth_settle s node))]
  rfl

/-- What is open behind its header takes lines as far as it goes. -/
theorem build_of_open {a : Above} (h : s.enterAs category header = .ok t) (hon : a.On category s t)
    (lines : List Line) (i : Nat) :
    s.build strict category header ⟨lines.drop i⟩ =
      (t.takeUntil strict s.depth (lines.drop (i + 1))).map fun r => (r.1, ⟨r.2⟩) := by
  rw [build, h]
  show (if t.depth ≤ s.depth then _ else _) = _
  rw [if_neg (Nat.not_le.mpr hon.depth_lt), Cursor.advance, List.tail_drop]
  cases t.takeUntil strict s.depth (lines.drop (i + 1)) <;> rfl

end State

/-- An escape that is read by itself leaves the cursor on its closing mark. -/
theorem Hosted.exists_closes_of_read {block : Text} {step : Step} {lines : List Line}
    {header : Line} {cursor : Cursor} {h : Nat}
    (hr : Hosted.read block header ⟨lines.drop h⟩ = (.ok step, cursor)) :
    ∃ c, h < c ∧ cursor.Closes .hosted lines h c ∧
      (∀ i line, h < i → i < c → lines[i]? = some line → line.trimmed ≠ ['@', ']']) ∧
      ∀ {lines' : List Line} {header' : Line}, header'.text = header.text →
        Line.Agree h c lines lines' →
        Hosted.read block header' ⟨lines'.drop h⟩ = (.ok step, ⟨lines'.drop c⟩) := by
  have hon : ∀ (returns : Option Returns) (header : Line),
      (Above.mk [] (some (.hosted returns []))).On .hosted State.start
        { State.start with verbatim := some (header, .hosted returns []) } :=
    fun returns header => ⟨rfl, ⟨rfl, rfl, [], rfl, rfl⟩, rfl⟩
  rw [Hosted.read] at hr
  split at hr
  · cases hr
  next returns hreturns =>
    simp only [List.tail_drop] at hr
    split at hr
    · cases hr
    next s rest hu =>
      split at hr
      next hstep =>
        cases hr
        obtain ⟨c, close, last, node, hc, -, hcloses, -, rfl, hstays, -, hsame⟩ :=
          (hon returns header).exists_closes hu
        refine ⟨c, hc, hcloses, fun i line hi hic hl => ?_, fun {lines' header'} ht hagree => ?_⟩
        · exact hstays.unended line (Line.mem_between hi hic hl)
        rw [Hosted.read, hostedReturns_congr (congrArg Text.trim ht) hreturns]
        simp only [List.tail_drop]
        rw [show (0 : Nat) = State.start.depth from rfl, hsame (hon returns header') rfl hagree]
        simp only [hstep]
      · cases hr

namespace Cursor

/-- A construct that is read leaves the cursor on a line that closes it, behind its header unless it
is a comment, and is open up to that line.  A node comes of it, but for sounds and costumes.  On any
lines that have the same texts from the header to that line, whatever stands before and behind, and in
any state that is in as many context calls and, for an escape, in the same definition, the construct is
the same and the cursor comes to the same line.  An escape is also read by itself, in the definition
that it is said to be in.  Reading a source on from a header that may stand there is reading its
construct so, and reading on behind the line that the cursor is left on. -/
theorem closes_of_build :
    (∀ {strict : Bool} {category : Category} {s t : State} {lines : List Line} {header : Line}
      {cursor : Cursor} {h : Nat}, category.Builds → s.verbatim = none →
      lines[h]? = some header →
      s.build strict category header ⟨lines.drop h⟩ = .ok (t, cursor) →
      ∃ c node, cursor.Closes category lines h c ∧ t = s.settle node ∧
        OpenUntil strict category s t header lines h c ∧
        category.Gives node ∧ (node = none ↔ category = .sounds ∨ category = .costumes) ∧
        ∀ {s' : State} {lines' : List Line} {header' : Line}, s'.verbatim = none →
          s'.contextDepth = s.contextDepth → (category = .hosted → s'.block = s.block) →
          lines'[h]? = some header' → Line.Agree h c lines lines' →
          s'.build strict category header' ⟨lines'.drop h⟩ =
            .ok (s'.settle node, ⟨lines'.drop c⟩)) ∧
    (∀ {block : Text} {step : Step} {lines : List Line} {header : Line} {cursor : Cursor} {h : Nat},
      lines[h]? = some header →
      Hosted.read block header ⟨lines.drop h⟩ = (.ok step, cursor) →
      ∃ c, cursor.Closes .hosted lines h c ∧
        (∀ i line, h < i → i < c → lines[i]? = some line → line.trimmed ≠ ['@', ']']) ∧
        ∀ {lines' : List Line} {header' : Line}, lines'[h]? = some header' →
          Line.Agree h c lines lines' →
          Hosted.read block header' ⟨lines'.drop h⟩ = (.ok step, ⟨lines'.drop c⟩)) ∧
    ∀ {strict : Bool} {category : Category} {s : State} {header : Line} (lines : List Line),
      s.Free header → State.categorize strict header = .ok category → category.Builds →
      Category.permits s.parent category = true →
      (s.run strict (header :: lines) >>= State.finish) =
        s.build strict category header ⟨header :: lines⟩ >>= fun r =>
          r.1.run strict r.2.advance.ahead >>= State.finish := by
  refine ⟨fun {strict category s t lines header cursor h} hb hv hh hr => ?_,
    fun {block step lines header cursor h} hh hr => ?_,
    fun lines hl hc hb hp => State.run_eq_build hl hc hb hp lines⟩
  · obtain ⟨t₀, hstart, -⟩ := Outcome.bind_eq_ok_iff.mp hr
    obtain ⟨r, hstarts, hcomment⟩ := Above.exists_starts hb hstart
    obtain ⟨t₁, hstart', hreach⟩ := hstarts hv rfl (fun _ => rfl) rfl
    rw [hstart] at hstart'
    cases hstart'
    cases r with
    -- A comment on one line never lies open, so no line is taken for it.
    | inr node =>
      have ht : t₀ = s.settle node := hreach
      rw [ht] at hstart
      rw [State.build_of_settled hstart] at hr
      cases hr
      obtain ⟨hcat, hgives, hmark⟩ := hcomment node rfl
      have hopen : OpenUntil strict category s (s.settle node) header lines h h := by
        refine ⟨fun i hi hic => absurd hi (Nat.not_le.mpr hic), ?_⟩
        rw [State.behind, hstart, Nat.sub_self]
        rfl
      refine ⟨h, node, ⟨rfl, header, hh, Or.inr ⟨hcat, rfl, hmark⟩⟩, rfl, hopen, hgives,
        hgives.eq_none_iff, ?_⟩
      intro s' lines' header' hv' hd hblock hh' hagree
      have htext := hagree.text_eq (Nat.le_refl h) hh hh'
      obtain ⟨t', hstart', ht'⟩ := hstarts hv' hd hblock htext
      exact State.build_of_settled (hstart'.trans (congrArg Except.ok ht')) _
    | inl a =>
      have hon : a.On category s t₀ := hreach
      rw [State.build_of_open hstart hon, Outcome.map_eq_ok_iff] at hr
      obtain ⟨⟨u, rest⟩, hu, hr⟩ := hr
      cases hr
      obtain ⟨c, close, last, node, hc, hclose, hcloses, hgives, ht, hstays, hlast, hsame⟩ :=
        hon.exists_closes hu
      refine ⟨c, node, hcloses, ht, hstays.openUntil hstart hc hclose hlast, hgives,
        hgives.eq_none_iff, ?_⟩
      intro s' lines' header' hv' hd hblock hh' hagree
      have htext := hagree.text_eq (Nat.le_of_lt hc) hh hh'
      obtain ⟨t', hstart', hon'⟩ := hstarts hv' hd hblock htext
      rw [State.build_of_open hstart' hon', hsame hon' hd hagree]
      rfl
  · obtain ⟨c, hc, hcloses, hunended, hsame⟩ := Hosted.exists_closes_of_read hr
    refine ⟨c, hcloses, hunended, fun {lines' header'} hh' hagree => hsame ?_ hagree⟩
    exact hagree.text_eq (Nat.le_of_lt hc) hh hh'

/-- A unit and an escape behind a line are read alike behind another: a node comes of the unit, and it
is open behind its comment.  Reading on from the unit is reading it so. -/
theorem closes_of_build_unit :
    (∃ t node u, t = State.start.settle (some node) ∧ node.category = .unit ∧
      State.start.behind false .unit ⟨2, 3, "unit A [".toList⟩ [⟨1, 0, "a".toList⟩,
        ⟨2, 3, "unit A [".toList⟩, ⟨3, 12, "// b".toList⟩, ⟨4, 17, "]".toList⟩] 1 2 = .ok u ∧
      State.start.depth < u.depth ∧
      State.start.build false .unit ⟨2, 3, "unit A [".toList⟩ ⟨List.drop 1
        [⟨1, 0, "ab".toList⟩, ⟨2, 3, "unit A [".toList⟩, ⟨3, 12, "// b".toList⟩,
          ⟨4, 17, "]".toList⟩]⟩ = .ok (t, ⟨[⟨4, 17, "]".toList⟩]⟩)) ∧
    Hosted.read [] ⟨2, 3, "hosted [@".toList⟩ ⟨List.drop 1
      [⟨1, 0, "ab".toList⟩, ⟨2, 3, "hosted [@".toList⟩, ⟨3, 13, "@]".toList⟩]⟩ =
        (.ok (.hosted none []), ⟨[⟨3, 13, "@]".toList⟩]⟩) ∧
    (State.start.run false [⟨2, 3, "unit A [".toList⟩, ⟨4, 17, "]".toList⟩] >>= State.finish) =
      State.start.build false .unit ⟨2, 3, "unit A [".toList⟩
          ⟨[⟨2, 3, "unit A [".toList⟩, ⟨4, 17, "]".toList⟩]⟩ >>= fun r =>
        r.1.run false r.2.advance.ahead >>= State.finish := by
  have hagree : ∀ (c : Nat) (first first' : Line) (lines : List Line),
      Line.Agree 1 c (first :: lines) (first' :: lines) := by
    intro c first first' lines i hi _
    cases i with
    | zero => exact absurd hi (by decide)
    | succ i => rfl
  refine ⟨?_, ?_, closes_of_build.2.2 _ ⟨rfl, rfl⟩ rfl ⟨by decide, by decide⟩ rfl⟩
  · obtain ⟨t, hbuild⟩ : ∃ t, State.start.build false .unit
        ⟨2, 3, "unit A [".toList⟩ ⟨List.drop 1 [⟨1, 0, "a".toList⟩, ⟨2, 3, "unit A [".toList⟩,
          ⟨3, 12, "// b".toList⟩, ⟨4, 17, "]".toList⟩]⟩ = .ok (t, ⟨[⟨4, 17, "]".toList⟩]⟩) := ⟨_, rfl⟩
    obtain ⟨c, node, hcloses, ht, hopen, hgives, hnone, hsame⟩ :=
      closes_of_build.1 ⟨by decide, by decide⟩ rfl rfl hbuild
    obtain rfl : c = 3 := Nat.add_right_cancel hcloses.add_length
    obtain ⟨a, u, hu, hon⟩ := hopen.between 2 (by decide) (by decide)
    cases node with
    | none => exact absurd (hnone.mp rfl) (by decide)
    | some node =>
      exact ⟨t, node, u, ht, hgives, hu, hon.depth_lt,
        ht ▸ hsame rfl rfl (fun _ => rfl) rfl (hagree 3 _ _ _)⟩
  · have hread : Hosted.read [] ⟨2, 3, "hosted [@".toList⟩ ⟨List.drop 1
        [⟨1, 0, "a".toList⟩, ⟨2, 3, "hosted [@".toList⟩, ⟨3, 13, "@]".toList⟩]⟩ =
          (.ok (.hosted none []), ⟨[⟨3, 13, "@]".toList⟩]⟩) := rfl
    obtain ⟨c, hcloses, -, hsame⟩ := closes_of_build.2.1 rfl hread
    obtain rfl : c = 2 := Nat.add_right_cancel hcloses.add_length
    exact hsame rfl (hagree 2 _ _ _)

end Cursor
end BlockText
