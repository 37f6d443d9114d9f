/-
The grammar of lines.

`Item` says which lines are one entry of a place: a blank line, a comment, a call, an escape, or a
header with the entries of its construct and a closing line.  What an entry gives is none for a blank
line and for content that is not kept.  The grammar speaks of texts of lines only, and of one line at
a time by itself (`Line.bare`), because the number and the offset of a line go into errors and nowhere
else.

`Item.run` takes the lines of an entry through the reader, from any state in its place.  The other way
`State.Spelled` keeps for a state the lines that were read as entries of the open constructs, which one
line preserves (`spelled_of_move`).  Together, the sources that are read are those whose lines are
entries outside all constructs (`Document.parse_eq_ok_iff_body`).
-/
import BlockText.Proofs.Reading.Derivation

namespace BlockText

/-- A line of this text, at no place in particular. -/
def Line.bare (text : Text) : Line := ⟨0, 0, text⟩

theorem Line.trimmed_bare (line : Line) : line.trimmed = (bare line.text).trimmed := rfl

/-! ## What depends on the text of a line alone -/

section congr

variable {strict : Bool} {line line' : Line}

theorem State.categorize_congr {category : Category} (h : line'.trimmed = line.trimmed)
    (hc : State.categorize strict line = .ok category) :
    State.categorize strict line' = .ok category := by
  rw [State.categorize_on h, hc]
  rfl

theorem hostedReturns_congr {block : Text} {returns : Option Returns}
    (h : line'.trimmed = line.trimmed) (hr : hostedReturns block line = .ok returns) :
    hostedReturns block line' = .ok returns := by
  rw [hostedReturns_on h, hr]
  rfl

theorem Opening.close_congr {o : Opening} {b : Contents} {node : Option Node}
    (h : line'.trimmed = line.trimmed) (hn : o.close b line = .ok node) :
    o.close b line' = .ok node := by
  rw [Opening.close_on h, hn]
  rfl

theorem Opening.Says.congr {depth : Nat} {o : Opening} (hs : Opening.Says depth line o)
    (h : line'.trimmed = line.trimmed) : Opening.Says depth line' o := by
  have ho := Opening.ofHeader_eq_ok_iff.mpr ⟨rfl, hs⟩
  have ho' : ofHeader o.category depth line' = .ok (some o) := by
    rw [Opening.ofHeader_on h, ho]
    rfl
  exact (Opening.ofHeader_eq_ok_iff.mp ho').2

theorem Enters.congr {path : Path} {category : Category} (he : Enters strict path line category)
    (h : line'.text = line.text) : Enters strict path line' category := by
  have ht : line'.trimmed = line.trimmed := congrArg Text.trim h
  refine ⟨?_, State.categorize_congr ht he.categorized, he.permitted, ?_⟩
  · rw [ht]
    exact he.unclosed
  · rw [h]
    exact he.feedless

end congr

/-! ## Entries -/

/-- The lines take a comment or an escape from here to its end. -/
inductive Verbatim.Ends : Verbatim ⊕ Node → List Text → Node → Prop
  | done {node : Node} : Ends (.inr node) [] node
  | more {v : Verbatim} {t : Text} {ts : List Text} {node : Node}
    (h : Ends (v.take (.bare t)) ts node) : Ends (.inl v) (t :: ts) node

/-- The construct that starts with this line of a comment, or goes on. -/
def Comment.opened (t : Text) : Verbatim ⊕ Node := (Comment.start t.trim).map id .comment

/-- The lines are one entry of this place, which gives this construct. -/
inductive Item (strict : Bool) : Path → List Text → Option Node → Prop
  | blank {path : Path} {t : Text} (hu : path.closedBy t.trim = false)
    (hc : State.categorize strict (.bare t) = .ok .blank) : Item strict path [t] none
  | comment {path : Path} {t : Text} {ts : List Text} {c : Comment}
    (h : Enters strict path (.bare t) .comment)
    (hc : Verbatim.Ends (Comment.opened t) ts (.comment c)) :
    Item strict path (t :: ts) (some (.comment c))
  | called {path : Path} {t : Text} {call : Call} (h : Enters strict path (.bare t) .stepCall)
    (hr : Call.read t.trim = .ok call) :
    Item strict path [t] (some (.step (.call call.name call.args)))
  | escaped {path : Path} {header close : Text} {returns : Option Returns} {code : List Text}
    (h : Enters strict path (.bare header) .hosted)
    (hr : hostedReturns path.block (.bare header) = .ok returns)
    (hcode : ∀ t ∈ code, t.trim ≠ ['@', ']']) (hclose : close.trim = ['@', ']']) :
    Item strict path (header :: (code ++ [close]))
      (some (.step (.hosted returns (Text.joinLines code))))
  | finished {path : Path} {header close : Text} {o : Opening}
    {items : List (List Text × Option Node)} {node : Option Node}
    (h : Enters strict path (.bare header) o.category)
    (ho : Opening.Says path.contextDepth (.bare header) o)
    (hi : ∀ i ∈ items, Item strict (o :: path) i.1 i.2) (hc : o.closesOn close.trim = true)
    (hn : o.close (.ofNodes (items.filterMap (·.2))) (.bare close) = .ok node) :
    Item strict path (header :: (items.flatMap (·.1) ++ [close])) node

/-- The lines are entries of this place, which together give these contents. -/
def Body (strict : Bool) (path : Path) (texts : List Text) (b : Contents) : Prop :=
  ∃ items : List (List Text × Option Node), (∀ i ∈ items, Item strict path i.1 i.2) ∧
    items.flatMap (·.1) = texts ∧ Contents.ofNodes (items.filterMap (·.2)) = b

/-! ## From the grammar to the reader -/

namespace State

variable {strict : Bool} {s : State}

/-- Puts finished constructs into the innermost open one, in order. -/
def addAll (s : State) (nodes : List Node) : State := nodes.foldl add s

/-- What is put into a construct becomes its contents. -/
theorem addAll_frame (s : State) (f : Frame) (rest : List Frame) (nodes : List Node) :
    ({ s with frames := f :: rest } : State).addAll nodes =
      { s with frames := { f with contents := nodes.foldl Contents.add f.contents } :: rest } := by
  induction nodes generalizing f with
  | nil => rfl
  | cons node nodes ih => exact ih { f with contents := f.contents.add node }

theorem addAll_top (b : Contents) (verbatim : Option (Line × Verbatim)) (nodes : List Node) :
    (⟨b, [], verbatim⟩ : State).addAll nodes = ⟨nodes.foldl Contents.add b, [], verbatim⟩ := by
  induction nodes generalizing b with
  | nil => rfl
  | cons node nodes ih => exact ih (b.add node)

theorem free_of_path {path : Path} {line : Line} (hp : s.path = path) (hv : s.verbatim = none)
    (hu : path.closedBy line.text.trim = false) : s.Free line :=
  ⟨hv, by rw [← closedBy_path, hp]; exact hu⟩

/-- A construct that takes lines as they are is taken to its end. -/
theorem run_ends {r : Verbatim ⊕ Node} {ts : List Text} {node : Node} (h : Verbatim.Ends r ts node)
    (header : Line) {lines : List Line} (hl : lines.map (·.text) = ts) (hv : s.verbatim = none) :
    (s.resume header r).run strict lines = .ok (s.add node) := by
  have hclosed : ({ s with verbatim := none } : State) = s := by rw [← hv]
  induction h generalizing lines with
  | done =>
    rw [List.map_eq_nil_iff] at hl
    rw [hl, resume, hclosed]
    rfl
  | more h ih =>
    rename_i v t ts node
    obtain ⟨line, lines', rfl, rfl, hl'⟩ := List.map_eq_cons_iff.mp hl
    have hresume : ({ s with verbatim := some (header, v) } : State).step strict line =
        .ok (s.resume header (v.take line)) := by
      rw [step_resume rfl]
      cases v.take line <;> rfl
    rw [resume, run_of_step hresume]
    exact ih hl'

/-- Entries one after another. -/
theorem run_items {path : Path} {items : List (List Text × Option Node)}
    (hi : ∀ i ∈ items, ∀ {s : State} {lines : List Line}, s.path = path → s.verbatim = none →
      lines.map (·.text) = i.1 → s.run strict lines = .ok (s.settle i.2))
    {lines : List Line} (hp : s.path = path) (hv : s.verbatim = none)
    (hl : lines.map (·.text) = items.flatMap (·.1)) :
    s.run strict lines = .ok (s.addAll (items.filterMap (·.2))) := by
  induction items generalizing s lines with
  | nil =>
    rw [List.flatMap_nil, List.map_eq_nil_iff] at hl
    rw [hl]
    rfl
  | cons i items ih =>
    rw [List.flatMap_cons] at hl
    obtain ⟨xs, ys, rfl, hx, hy⟩ := List.map_eq_append_iff.mp hl
    have hfirst := hi i List.mem_cons_self hp hv hx
    have hrest := fun j hj => @hi j (List.mem_cons_of_mem i hj)
    rw [run_append, hfirst]
    show (s.settle i.2).run strict ys = _
    obtain ⟨ts, node⟩ := i
    cases node with
    | none => exact ih hrest hp hv hy
    | some node =>
      exact ih hrest ((path_add s node).trans hp) ((verbatim_add s node).trans hv) hy

end State

/-- A line that starts a construct in the place of a state starts it there. -/
theorem Enters.free {strict : Bool} {s : State} {path : Path} {line : Line} {category : Category}
    (h : Enters strict path (.bare line.text) category) (hp : s.path = path)
    (hv : s.verbatim = none) :
    s.Free line ∧ State.categorize strict line = .ok category ∧
      Category.permits s.parent category = true := by
  refine ⟨State.free_of_path hp hv h.unclosed, State.categorize_congr line.trimmed_bare h.categorized,
    ?_⟩
  rw [← State.parent_path, hp]
  exact h.permitted

/-- An escape takes all lines up to its closing mark. -/
theorem Verbatim.ends_hosted (returns : Option Returns) (front : List Text) {code : List Text}
    {close : Text} (hcode : ∀ t ∈ code, t.trim ≠ ['@', ']']) (hclose : close.trim = ['@', ']']) :
    Ends (.inl (.hosted returns front)) (code ++ [close])
      (.step (.hosted returns (Text.joinLines (front ++ code)))) := by
  induction code generalizing front with
  | nil =>
    refine .more ?_
    have htake : (Verbatim.hosted returns front).take (.bare close) =
        .inr (.step (.hosted returns (Text.joinLines front))) := by
      show (if close.trim == ['@', ']'] then _ else _) = _
      rw [hclose]
      rfl
    rw [htake, List.append_nil]
    exact .done
  | cons t code ih =>
    refine .more ?_
    have htake : (Verbatim.hosted returns front).take (.bare t) =
        .inl (.hosted returns (front ++ [t])) := by
      show (if t.trim == ['@', ']'] then _ else _) = _
      rw [if_neg (by simpa using hcode t List.mem_cons_self)]
      rfl
    have hrest := ih (front ++ [t]) fun u hu => hcode u (List.mem_cons_of_mem t hu)
    rw [List.append_assoc, List.singleton_append] at hrest
    rw [htake]
    exact hrest

/-- The lines of an entry are taken, and put into its place what the entry gives. -/
theorem Item.run {strict : Bool} {path : Path} {ts : List Text} {node : Option Node}
    (h : Item strict path ts node) {s : State} {lines : List Line} (hp : s.path = path)
    (hv : s.verbatim = none) (hl : lines.map (·.text) = ts) :
    s.run strict lines = .ok (s.settle node) := by
  induction h generalizing s lines with
  | blank hu hc =>
    obtain ⟨line, lines', rfl, rfl, hl'⟩ := List.map_eq_cons_iff.mp hl
    rw [List.map_eq_nil_iff] at hl'
    have hmove := State.Move.blank (State.free_of_path hp hv hu)
      (State.categorize_congr line.trimmed_bare hc)
    rw [hl', State.run_of_step (State.step_of_move hmove)]
    rfl
  | comment h hc =>
    rename_i path t ts c
    obtain ⟨line, lines', rfl, rfl, hl'⟩ := List.map_eq_cons_iff.mp hl
    obtain ⟨hfree, hcat, hperm⟩ := h.free hp hv
    rw [State.run_of_step (State.step_of_move (.comment hfree hcat hperm))]
    exact State.run_ends hc line hl' hv
  | called h hr =>
    obtain ⟨line, lines', rfl, rfl, hl'⟩ := List.map_eq_cons_iff.mp hl
    rw [List.map_eq_nil_iff] at hl'
    obtain ⟨hfree, hcat, hperm⟩ := h.free hp hv
    rw [hl', State.run_of_step (State.step_of_move (.called hfree hcat hperm hr))]
    rfl
  | escaped h hr hcode hclose =>
    rename_i path header close returns code
    obtain ⟨line, lines', rfl, rfl, hl'⟩ := List.map_eq_cons_iff.mp hl
    obtain ⟨hfree, hcat, hperm⟩ := h.free hp hv
    have hblock := hostedReturns_congr line.trimmed_bare hr
    rw [← hp, State.block_path] at hblock
    rw [State.run_of_step (State.step_of_move (.escaped hfree hcat hperm hblock))]
    exact State.run_ends (Verbatim.ends_hosted returns [] hcode hclose) line hl' hv
  | finished h ho hi hc hn ih =>
    rename_i path header close o items node
    obtain ⟨line, lines', rfl, rfl, hl'⟩ := List.map_eq_cons_iff.mp hl
    obtain ⟨inner, last, rfl, hinner, hlast⟩ := List.map_eq_append_iff.mp hl'
    obtain ⟨closing, rest, rfl, rfl, hrest⟩ := List.map_eq_cons_iff.mp hlast
    rw [List.map_eq_nil_iff] at hrest
    subst hrest
    obtain ⟨hfree, hcat, hperm⟩ := h.free hp hv
    have hsays := ho.congr line.trimmed_bare
    rw [← hp, State.contextDepth_path] at hsays
    have hbody : (s.push line o).run strict inner =
        .ok ((s.push line o).addAll (items.filterMap (·.2))) :=
      State.run_items ih (by rw [← hp]; rfl) hv hinner
    have hclose : State.step strict { s with
        frames := ⟨line, o, .ofNodes (items.filterMap (·.2))⟩ :: s.frames } closing =
        .ok (s.settle node) := by
      have hn' := Opening.close_congr closing.trimmed_bare hn
      exact State.step_of_move (.closed (f := ⟨line, o, .ofNodes (items.filterMap (·.2))⟩) hv rfl
        hc hn')
    rw [State.run_of_step (State.step_of_move (.opened hfree hcat hperm hsays)), State.run_append,
      hbody, State.push, State.addAll_frame]
    exact State.run_of_step hclose []

/-! ## From the reader to the grammar -/

namespace Verbatim

/-- What comes of a comment is a comment. -/
theorem take_comment (pieces : List Text) (line : Line) :
    (∃ pieces', (comment pieces).take line = .inl (comment pieces')) ∨
      ∃ c, (comment pieces).take line = .inr (.comment c) := by
  rw [take, takePiece]
  split
  · exact Or.inr ⟨_, rfl⟩
  · exact Or.inl ⟨_, rfl⟩

theorem opened_comment (t : Text) :
    (∃ pieces, Comment.opened t = .inl (comment pieces)) ∨
      ∃ c, Comment.opened t = .inr (.comment c) := by
  rw [Comment.opened, Comment.start]
  split
  · exact Or.inr ⟨_, rfl⟩
  · rw [takePiece]
    split
    · exact Or.inr ⟨_, rfl⟩
    · exact Or.inl ⟨_, rfl⟩

/-- The lines start an escape or a comment in this place, which is now this. -/
inductive Begun (strict : Bool) (path : Path) : List Text → Verbatim → Prop
  | hosted {header : Text} {returns : Option Returns} {code : List Text}
    (h : Enters strict path (.bare header) .hosted)
    (hr : hostedReturns path.block (.bare header) = .ok returns)
    (hcode : ∀ t ∈ code, t.trim ≠ ['@', ']']) :
    Begun strict path (header :: code) (.hosted returns code)
  /-- Whatever ends the comment from here on ends it as a whole. -/
  | comment {t : Text} {ts pieces : List Text} (h : Enters strict path (.bare t) .comment)
    (hc : ∀ {rest node}, Ends (.inl (.comment pieces)) rest node →
      Ends (Comment.opened t) (ts ++ rest) node) :
    Begun strict path (t :: ts) (.comment pieces)

/-- One line more goes on with the construct, or makes an entry of its lines. -/
theorem Begun.take {strict : Bool} {path : Path} {ts : List Text} {v : Verbatim}
    (h : Begun strict path ts v) (line : Line) :
    (∃ v', v.take line = .inl v' ∧ Begun strict path (ts ++ [line.text]) v') ∨
      ∃ node, v.take line = .inr node ∧ Item strict path (ts ++ [line.text]) (some node) := by
  cases h with
  | hosted h hr hcode =>
    rename_i header returns code
    by_cases ht : line.text.trim = ['@', ']']
    · refine Or.inr ⟨_, ?_, .escaped h hr hcode ht⟩
      show (if line.text.trim == ['@', ']'] then _ else _) = _
      rw [ht]
      rfl
    · refine Or.inl ⟨.hosted returns (code ++ [line.text]), ?_, .hosted h hr fun t hm => ?_⟩
      · show (if line.text.trim == ['@', ']'] then _ else _) = _
        rw [if_neg (by simpa using ht)]
      · rcases List.mem_append.mp hm with hm | hm
        · exact hcode t hm
        · rwa [List.mem_singleton.mp hm]
  | comment h hc =>
    rename_i t ts pieces
    rcases take_comment pieces line with ⟨pieces', htake⟩ | ⟨c, htake⟩
    · refine Or.inl ⟨_, htake, .comment h fun {rest node} hends => ?_⟩
      show Ends (Comment.opened t) ((ts ++ [line.text]) ++ rest) node
      rw [List.append_assoc]
      refine hc (.more ?_)
      show Ends ((Verbatim.comment pieces).take line) _ _
      rw [htake]
      exact hends
    · refine Or.inr ⟨_, htake, .comment h (hc (.more ?_))⟩
      show Ends ((Verbatim.comment pieces).take line) _ _
      rw [htake]
      exact .done

end Verbatim

namespace State

/-- The lines were read as entries of the open constructs, and led to the state. -/
inductive Spelled (strict : Bool) : List Text → State → Prop
  | top {items : List (List Text × Option Node)} (hi : ∀ i ∈ items, Item strict [] i.1 i.2) :
    Spelled strict (items.flatMap (·.1)) ⟨.ofNodes (items.filterMap (·.2)), [], none⟩
  | inside {before : List Text} {outer : State} {header : Line} {o : Opening}
    {items : List (List Text × Option Node)} (hb : Spelled strict before outer)
    (hv : outer.verbatim = none) (h : Enters strict outer.path header o.category)
    (ho : Opening.Says outer.path.contextDepth header o)
    (hi : ∀ i ∈ items, Item strict (o :: outer.path) i.1 i.2) :
    Spelled strict (before ++ header.text :: items.flatMap (·.1))
      { outer with frames := ⟨header, o, .ofNodes (items.filterMap (·.2))⟩ :: outer.frames }
  | verbatim {before ts : List Text} {outer : State} {header : Line} {v : Verbatim}
    (hb : Spelled strict before outer) (hv : outer.verbatim = none)
    (h : Verbatim.Begun strict outer.path ts v) :
    Spelled strict (before ++ ts) { outer with verbatim := some (header, v) }

variable {strict : Bool} {s t : State} {before : List Text}

theorem spelled_start (strict : Bool) : Spelled strict [] start :=
  @Spelled.top strict [] fun _ hi => absurd hi List.not_mem_nil

/-- One entry more. -/
theorem Spelled.item (h : Spelled strict before s) (hv : s.verbatim = none) {ts : List Text}
    {node : Option Node} (hi : Item strict s.path ts node) :
    Spelled strict (before ++ ts) (s.settle node) := by
  have hmore : ∀ {path : Path} {items : List (List Text × Option Node)},
      (∀ i ∈ items, Item strict path i.1 i.2) → Item strict path ts node →
      ∀ i ∈ items ++ [(ts, node)], Item strict path i.1 i.2 := by
    intro path items hitems hitem i hmem
    rcases List.mem_append.mp hmem with hmem | hmem
    · exact hitems i hmem
    · rw [List.mem_singleton.mp hmem]
      exact hitem
  cases h with
  | top hitems =>
    have hs := Spelled.top (hmore hitems hi)
    rw [List.flatMap_append, List.filterMap_append, Contents.ofNodes_append] at hs
    cases node with
    | none => simpa using hs
    | some node =>
      show Spelled strict _ ⟨(Contents.ofNodes _).add node, [], none⟩
      simpa using hs
  | inside hb hv' h ho hitems =>
    have hs := Spelled.inside hb hv' h ho (hmore hitems hi)
    rw [List.flatMap_append, List.filterMap_append, Contents.ofNodes_append] at hs
    rw [List.append_assoc, List.cons_append]
    cases node with
    | none => simpa using hs
    | some node =>
      show Spelled strict _ ⟨_, ⟨_, _, (Contents.ofNodes _).add node⟩ :: _, _⟩
      simpa using hs
  | verbatim => cases hv

theorem enters_bare {line : Line} {category : Category} (hl : s.Free line)
    (hc : categorize strict line = .ok category)
    (hp : Category.permits s.parent category = true) (hf : '\n' ∉ line.text) :
    Enters strict s.path (.bare line.text) category :=
  (enters_of_free hl hc hp hf).congr rfl

/-- One line more, or one entry. -/
theorem spelled_of_move {line : Line} (hs : Spelled strict before s) (hf : '\n' ∉ line.text)
    (h : Move strict s line t) : Spelled strict (before ++ [line.text]) t := by
  cases h with
  | resumed hv =>
    cases hs with
    | top => cases hv
    | inside hb hv' => rw [hv'] at hv; cases hv
    | verbatim hb hv' hbegun =>
      rename_i outer _ _
      cases hv
      rw [List.append_assoc]
      rcases hbegun.take line with ⟨v', htake, hnext⟩ | ⟨node, htake, hitem⟩
      · rw [htake]
        exact @Spelled.verbatim strict _ _ outer _ v' hb hv' hnext
      · rw [htake]
        have hclosed : (⟨outer.top, outer.frames, none⟩ : State) = outer := by rw [← hv']
        have hitem' := hb.item hv' hitem
        rw [← hclosed] at hitem'
        exact hitem'
  | closed hv hfr hc hn =>
    rename_i f rest node
    cases hs with
    | top => cases hfr
    | inside hb hv' h ho hi =>
      cases hfr
      rw [List.append_assoc, List.cons_append]
      refine hb.item hv' (.finished (h.congr rfl) (ho.congr rfl) hi hc ?_)
      exact Opening.close_congr line.trimmed_bare.symm hn
    | verbatim => cases hv
  | blank hl hc =>
    have hu := hl.unclosed
    rw [← closedBy_path] at hu
    exact hs.item hl.verbatim (.blank hu (categorize_congr line.trimmed_bare.symm hc))
  | comment hl hc hp =>
    have he := enters_bare hl hc hp hf
    rcases Verbatim.opened_comment line.text with ⟨pieces, ho⟩ | ⟨c, ho⟩
    · have hgo : s.resume line (Comment.opened line.text) =
          { s with verbatim := some (line, .comment pieces) } := by
        rw [ho]
        rfl
      show Spelled strict _ (s.resume line (Comment.opened line.text))
      rw [hgo]
      refine .verbatim hs hl.verbatim (.comment he fun hends => ?_)
      rw [ho]
      exact hends
    · have hgo : s.resume line (Comment.opened line.text) = s.add (.comment c) := by
        have hv := hl.verbatim
        rw [ho, resume, ← hv]
      show Spelled strict _ (s.resume line (Comment.opened line.text))
      rw [hgo]
      refine hs.item hl.verbatim (.comment he ?_)
      rw [ho]
      exact .done
  | called hl hc hp hr => exact hs.item hl.verbatim (.called (enters_bare hl hc hp hf) hr)
  | escaped hl hc hp hr =>
    have hr' := hostedReturns_congr line.trimmed_bare.symm hr
    rw [← block_path] at hr'
    exact .verbatim hs hl.verbatim
      (.hosted (enters_bare hl hc hp hf) hr' fun _ ht => absurd ht List.not_mem_nil)
  | opened hl hc hp ho =>
    rename_i o
    rw [← contextDepth_path] at ho
    exact @Spelled.inside strict before s line o [] hs hl.verbatim (enters_of_free hl hc hp hf) ho
      fun _ hi => absurd hi List.not_mem_nil

theorem spelled_of_run {lines : List Line} (hs : Spelled strict before s)
    (hf : ∀ line ∈ lines, '\n' ∉ line.text) (h : s.run strict lines = .ok t) :
    Spelled strict (before ++ lines.map (·.text)) t := by
  induction lines generalizing s before with
  | nil =>
    cases h
    rwa [List.map_nil, List.append_nil]
  | cons line lines ih =>
    rw [run_cons, Outcome.bind_eq_ok_iff] at h
    obtain ⟨u, hu, h⟩ := h
    have hstep := spelled_of_move hs (hf line List.mem_cons_self) (move_of_step hu)
    have hrest := ih hstep (fun l hl => hf l (List.mem_cons_of_mem line hl)) h
    rwa [List.append_assoc] at hrest

end State

/-! ## Sources -/

/-- The documents of a source are those that its lines spell. -/
theorem Document.parse_eq_ok_iff_body {strict : Bool} {source : Text} {d : Document} :
    parse strict source = .ok d ↔
      ∃ b, Body strict [] ((Line.ofSource source).map (·.text)) b ∧ d = ⟨b.comments, b.units⟩ := by
  rw [parse_eq_ok_iff]
  constructor
  · rintro ⟨s, hrun, hfin⟩
    obtain ⟨hv, hf, rfl⟩ := State.finish_eq_ok_iff.mp hfin
    have hs := State.spelled_of_run (State.spelled_start strict) (fun l hl => Line.not_mem_text hl) hrun
    rw [List.nil_append] at hs
    refine ⟨s.top, ?_, rfl⟩
    generalize (Line.ofSource source).map (·.text) = texts at hs
    cases hs with
    | top hi => exact ⟨_, hi, rfl, rfl⟩
    | inside => cases hf
    | verbatim => cases hv
  · rintro ⟨b, ⟨items, hi, hts, rfl⟩, rfl⟩
    have hrun := State.run_items (s := State.start) (fun i hm => (hi i hm).run) rfl rfl hts.symm
    rw [State.start, State.addAll_top] at hrun
    exact ⟨_, hrun, State.finish_eq_ok_iff.mpr ⟨rfl, rfl, rfl⟩⟩

end BlockText
