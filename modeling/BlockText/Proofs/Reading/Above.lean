/-
What is open above a base.

While a construct is read, all that was open when its header came lies untouched below it.  `Above`
is what lies above: the construct itself and what is open inside it.  `On` says that a state has this
above a base.

A line is taken as what lies above says, and of the base only the number of open context calls counts
(`exists_turns`).  So a construct is read on every base alike, from lines of the same texts: which
line closes it and what it gives are the same, and up to that line it stays open
(`On.closing_of_takeUntil`).
-/
import BlockText.Proofs.Reading.Grammar
import BlockText.Proofs.Reading.Keeping

namespace BlockText

/-! ## Closing lines -/

/-- The trimmed text closes constructs that start with a line of this category. -/
def Category.ClosesOn (category : Category) (trimmed : Text) : Prop :=
  match category with
  | .comment => ['*', '/'] <:+ trimmed
  | .hosted => trimmed = ['@', ']']
  | .blockDefinition | .contextDefinition => [']'] <+: trimmed
  | _ => trimmed = [']']

/-- What a construct of this category can give: a node of the category, or nothing of sounds and
costumes. -/
def Category.Gives (category : Category) : Option Node → Prop
  | some node => node.category = category
  | none => category = .sounds ∨ category = .costumes

/-- Nothing is left of sounds and costumes, and of nothing else. -/
theorem Category.Gives.eq_none_iff {category : Category} {node : Option Node}
    (h : category.Gives node) : node = none ↔ category = .sounds ∨ category = .costumes := by
  cases node with
  | none => exact ⟨fun _ => h, fun _ => rfl⟩
  | some node =>
    refine ⟨nofun, fun hc => ?_⟩
    have hnode : node.category = category := h
    rw [← hnode] at hc
    cases node with
    | definition d => cases d <;> simp [Node.category] at hc
    | step s => cases s <;> simp [Node.category] at hc
    | _ => simp [Node.category] at hc

theorem Opening.gives_of_close {o : Opening} {b : Contents} {line : Line} {node : Option Node}
    (h : o.close b line = .ok node) : o.category.Gives node := by
  cases node with
  | none =>
    by_contra hkept
    exact Kept.close_ne_none (not_or.mp hkept) b line h
  | some node => cases close_eq_some_iff.mp h <;> rfl

theorem Opening.closesOn_of_close {o : Opening} {b : Contents} {line : Line} {node : Option Node}
    (hc : o.closesOn line.trimmed = true) (hn : o.close b line = .ok node) :
    o.category.ClosesOn line.trimmed := by
  cases o with
  | blockDefinition | contextDefinition => exact List.isPrefixOf_iff_prefix.mp hc
  | triggerDefinition =>
    rw [close] at hn
    split at hn
    next ht => exact beq_iff_eq.mp ht
    · cases hn
  | _ => exact beq_iff_eq.mp hc

namespace Verbatim

theorem suffix_of_takePiece {pieces : List Text} {piece : Text} {c : Comment}
    (h : takePiece pieces piece = .inr c) : ['*', '/'] <:+ piece := by
  rw [takePiece] at h
  split at h
  next last hs => exact ⟨last, List.isSuffixOf?_eq_some_iff_append_eq.mp hs⟩
  · cases h

theorem take_category {v v' : Verbatim} {line : Line} (h : v.take line = .inl v') :
    v'.category = v.category := by
  cases v with
  | hosted returns code =>
    rw [take] at h
    split at h <;> cases h
    rfl
  | comment pieces =>
    rcases take_comment pieces line with ⟨pieces', ht⟩ | ⟨c, ht⟩ <;> rw [ht] at h <;> cases h
    rfl

theorem closesOn_of_take {v : Verbatim} {line : Line} {node : Node} (h : v.take line = .inr node) :
    v.category.ClosesOn line.trimmed := by
  cases v with
  | hosted returns code =>
    rw [take] at h
    split at h
    next ht => exact beq_iff_eq.mp ht
    · cases h
  | comment pieces =>
    rw [take] at h
    cases hp : takePiece pieces line.trimmed with
    | inl v =>
      rw [hp] at h
      cases h
    | inr c => exact suffix_of_takePiece hp

theorem gives_of_take {v : Verbatim} {line : Line} {node : Node} (h : v.take line = .inr node) :
    v.category.Gives (some node) := by
  cases v with
  | hosted returns code =>
    rw [take] at h
    split at h <;> cases h
    rfl
  | comment pieces =>
    rcases take_comment pieces line with ⟨pieces', ht⟩ | ⟨c, ht⟩ <;> rw [ht] at h <;> cases h
    rfl

end Verbatim

/-! ## What lies above a base -/

theorem State.depth_settle (s : State) (node : Option Node) :
    (s.settle node).depth = s.depth := by
  cases node with
  | none => rfl
  | some node =>
    rw [settle_some, depth, depth, verbatim_add, add]
    cases s.frames <;> rfl

/-- Open constructs with what they hold so far, the innermost one first, and one inside them that
takes lines as they are. -/
structure Above where
  frames : List (Opening × Contents)
  verbatim : Option Verbatim

namespace Above

/-- What a frame holds apart from the line of its header. -/
def ofFrame (f : Frame) : Opening × Contents := (f.opening, f.contents)

/-- The categories of openings, the innermost one first. -/
def kinds (fs : List (Opening × Contents)) : List Category := fs.map (·.1.category)

/-- The categories of all that is open, the innermost one first. -/
def categories (a : Above) : List Category := a.verbatim.toList.map (·.category) ++ kinds a.frames

/-- The state has these openings above the base, which is as it was. -/
structure Lies (fs : List (Opening × Contents)) (base s : State) : Prop where
  quiet : base.verbatim = none
  top : s.top = base.top
  frames : ∃ gs, s.frames = gs ++ base.frames ∧ gs.map ofFrame = fs

/-- The state has this above the base, and the outermost construct is of this category. -/
structure On (category : Category) (a : Above) (base s : State) : Prop where
  outermost : a.categories.getLast? = some category
  lies : Lies a.frames base s
  verbatim : s.verbatim.map (·.2) = a.verbatim

/-- The construct is still open, or the state is the base with what the construct gave. -/
def Reaches (category : Category) (r : Above ⊕ Option Node) (base t : State) : Prop :=
  match r with
  | .inl a => a.On category base t
  | .inr node => t = base.settle node

/-- What a construct is put into becomes this. -/
def settle (node : Option Node) : List (Opening × Contents) → Above ⊕ Option Node
  | [] => .inr node
  | (o, b) :: fs => .inl ⟨(o, node.elim b b.add) :: fs, none⟩

/-- Goes on inside these openings with a construct that takes lines as they are, or puts it there. -/
def resume (fs : List (Opening × Contents)) : Verbatim ⊕ Node → Above ⊕ Option Node
  | .inl v => .inl ⟨fs, some v⟩
  | .inr node => settle (some node) fs

variable {category : Category} {fs : List (Opening × Contents)} {a : Above} {base s t : State}

/-- What is put into the innermost construct becomes one of its contents. -/
theorem settle_frame {header : Line} {o : Opening} {b : Contents} {rest : List Frame}
    (h : s.frames = ⟨header, o, b⟩ :: rest) (node : Option Node) :
    s.settle node = { s with frames := ⟨header, o, node.elim b b.add⟩ :: rest } := by
  obtain ⟨top, frames, verbatim⟩ := s
  cases h
  cases node <;> rfl

theorem Lies.eq_base (h : Lies [] base s) (hv : s.verbatim = none) : s = base := by
  obtain ⟨hq, ht, gs, hg, hm⟩ := h
  rw [List.map_eq_nil_iff] at hm
  subst hm
  obtain ⟨top, frames, verbatim⟩ := s
  obtain ⟨btop, bframes, bverbatim⟩ := base
  cases hq
  cases ht
  cases hg
  cases hv
  rfl

/-- The innermost opening is the head of the frames, and the others lie on the base without it. -/
theorem Lies.head {o : Opening} {b : Contents} (h : Lies ((o, b) :: fs) base s) :
    ∃ header gs, s.frames = ⟨header, o, b⟩ :: gs ∧ Lies fs base { s with frames := gs } := by
  obtain ⟨hq, ht, gs, hg, hm⟩ := h
  obtain ⟨f, gs, rfl, hf, hrest⟩ := List.map_eq_cons_iff.mp hm
  obtain ⟨header, o', b'⟩ := f
  cases hf
  exact ⟨header, gs ++ base.frames, hg, hq, ht, gs, rfl, hrest⟩

theorem Lies.path (h : Lies fs base s) : s.path = fs.map (·.1) ++ base.path := by
  obtain ⟨-, -, gs, hg, rfl⟩ := h
  rw [State.path, hg, List.map_append, List.map_map]
  rfl

theorem Lies.with_verbatim (h : Lies fs base s) (v : Option (Line × Verbatim)) :
    Lies fs base { s with verbatim := v } := ⟨h.quiet, h.top, h.frames⟩

theorem Lies.push (h : Lies fs base s) (header : Line) (o : Opening) :
    Lies ((o, .empty) :: fs) base (s.push header o) := by
  obtain ⟨hq, ht, gs, hg, hm⟩ := h
  refine ⟨hq, ht, ⟨header, o, .empty⟩ :: gs, ?_, congrArg (List.cons (o, Contents.empty)) hm⟩
  rw [State.push, hg]
  rfl

/-- A finished construct is put where it belongs. -/
theorem Lies.settle (h : Lies fs base s) (hv : s.verbatim = none)
    (hc : fs ≠ [] → (kinds fs).getLast? = some category) (node : Option Node) :
    Reaches category (Above.settle node fs) base (s.settle node) := by
  cases fs with
  | nil => exact congrArg (State.settle · node) (h.eq_base hv)
  | cons f fs =>
    obtain ⟨o, b⟩ := f
    obtain ⟨header, gs, hg, hq, ht, gs', hgs, hm⟩ := h.head
    cases hgs
    rw [settle_frame hg]
    exact ⟨hc (List.cons_ne_nil _ _), ⟨hq, ht, ⟨header, o, node.elim b b.add⟩ :: gs', rfl,
      congrArg (List.cons (o, node.elim b b.add)) hm⟩, congrArg (Option.map _) hv⟩

/-- A construct that takes lines as they are goes on, or is put where it belongs. -/
theorem Lies.resume (h : Lies fs base s) {r : Verbatim ⊕ Node}
    (hv : ∀ v, r = .inl v → (v.category :: kinds fs).getLast? = some category)
    (hc : fs ≠ [] → (kinds fs).getLast? = some category) (header : Line) :
    Reaches category (Above.resume fs r) base (s.resume header r) := by
  cases r with
  | inl v => exact ⟨hv v rfl, h.with_verbatim _, rfl⟩
  | inr node => exact (h.with_verbatim none).settle rfl hc (some node)

/-- Something is open above the base. -/
theorem On.depth_lt (h : a.On category base s) : base.depth < s.depth := by
  obtain ⟨gs, hg, hm⟩ := h.lies.frames
  have hout := h.outermost
  rw [State.depth, State.depth, h.lies.quiet, hg, List.length_append]
  cases hv : s.verbatim with
  | some v =>
    simp only [Option.isSome_some, Option.isSome_none, Bool.false_eq_true, if_true, if_false]
    omega
  | none =>
    have hne : gs ≠ [] := by
      rintro rfl
      have hf : a.frames = [] := hm.symm
      have ha : a.verbatim = none := by
        rw [← h.verbatim, hv]
        rfl
      rw [categories, ha, hf] at hout
      cases hout
    have := List.length_pos_iff.mpr hne
    simp only [Option.isSome_none, Bool.false_eq_true, if_false]
    omega

theorem On.verbatim_eq_none (h : a.On category base s) : s.verbatim = none ↔ a.verbatim = none := by
  rw [← h.verbatim, Option.map_eq_none_iff]

/-- Where nothing takes lines as they are, there is an innermost opening. -/
theorem On.innermost (h : a.On category base s) (hv : a.verbatim = none) :
    ∃ o b fs, a.frames = (o, b) :: fs ∧ (kinds a.frames).getLast? = some category := by
  have hout := h.outermost
  rw [categories, hv] at hout
  cases hf : a.frames with
  | nil =>
    rw [hf] at hout
    cases hout
  | cons f fs =>
    rw [hf] at hout
    exact ⟨f.1, f.2, fs, rfl, hout⟩

/-! ## One line -/

/-- The place of a line is the same in both states, as far as it matters for the line. -/
structure Beside (s s' : State) : Prop where
  quiet : s'.verbatim = none
  innermost : s'.path.head? = s.path.head?
  contextDepth : s'.contextDepth = s.contextDepth

namespace Beside

variable {s' : State}

theorem closedBy (h : Beside s s') (trimmed : Text) : s'.closedBy trimmed = s.closedBy trimmed := by
  have hpath : ∀ path : Path,
      path.closedBy trimmed = (path.head?.map (·.closesOn trimmed)).getD false := by
    intro path
    cases path <;> rfl
  rw [← State.closedBy_path, ← State.closedBy_path, hpath, hpath, h.innermost]

theorem parent (h : Beside s s') : s'.parent = s.parent := by
  rw [← State.parent_path, ← State.parent_path, Path.parent, Path.parent, h.innermost]

theorem block (h : Beside s s') : s'.block = s.block := by
  rw [← State.block_path, ← State.block_path, Path.block, Path.block, h.innermost]

theorem free {line line' : Line} (h : Beside s s') (ht : line'.text = line.text)
    (hl : s.Free line) : s'.Free line' := by
  refine ⟨h.quiet, ?_⟩
  rw [h.closedBy, Line.trimmed, ht]
  exact hl.unclosed

/-- A line of the same text starts a construct of the same category in both. -/
theorem enters {strict : Bool} {line line' : Line} {c : Category} (h : Beside s s')
    (ht : line'.text = line.text) (hl : s.Free line)
    (hc : State.categorize strict line = .ok c) (hp : Category.permits s.parent c = true) :
    s'.Free line' ∧ State.categorize strict line' = .ok c ∧
      Category.permits s'.parent c = true := by
  refine ⟨h.free ht hl, State.categorize_congr (congrArg Text.trim ht) hc, ?_⟩
  rw [h.parent]
  exact hp

end Beside

theorem On.beside {base' s' : State} (h : a.On category base s) (h' : a.On category base' s')
    (hd : base'.contextDepth = base.contextDepth) (hv : s.verbatim = none) : Beside s s' := by
  have ha := h.verbatim_eq_none.mp hv
  obtain ⟨o, b, fs, hf, -⟩ := h.innermost ha
  have hp := h.lies.path
  have hp' := h'.lies.path
  refine ⟨h'.verbatim_eq_none.mpr ha, ?_, ?_⟩
  · rw [hp, hp', hf]
    rfl
  · rw [← State.contextDepth_path, ← State.contextDepth_path] at hd ⊢
    rw [hp, hp', Path.contextDepth, Path.contextDepth, List.countP_append, List.countP_append]
    exact congrArg _ hd

/-- Whatever the base, if it has this many open context calls, a line of this text leads from the one
to the other. -/
def Turns (strict : Bool) (depth : Nat) (category : Category) (text : Text) (a : Above)
    (r : Above ⊕ Option Node) : Prop :=
  ∀ {base s : State} {line : Line}, a.On category base s → base.contextDepth = depth →
    line.text = text → ∃ t, s.step strict line = .ok t ∧ Reaches category r base t

section turns

variable {strict : Bool} {depth : Nat} {line : Line}

/-- What takes lines as they are takes this one. -/
theorem turns_resumed {v : Verbatim} (ha : a.verbatim = some v) :
    Turns strict depth category line.text a (resume a.frames (v.take line)) := by
  intro base s line' h _ ht
  have hv := h.verbatim
  rw [ha, Option.map_eq_some_iff] at hv
  obtain ⟨⟨header, w⟩, hv, hw⟩ := hv
  cases hw
  have hout := h.outermost
  rw [categories, ha] at hout
  refine ⟨_, State.step_resume hv, ?_⟩
  rw [Verbatim.take_congr ht]
  refine h.lies.resume (fun v' hr => ?_) (fun hne => ?_) header
  · rw [Verbatim.take_category hr]
    exact hout
  · obtain ⟨f, fs, hf⟩ := List.exists_cons_of_ne_nil hne
    rw [hf] at hout ⊢
    exact hout

/-- The innermost opening is closed. -/
theorem turns_closed {o : Opening} {b : Contents} {node : Option Node} (ha : a.verbatim = none)
    (hf : a.frames = (o, b) :: fs) (hc : o.closesOn line.trimmed = true)
    (hn : o.close b line = .ok node) :
    Turns strict depth category line.text a (settle node fs) := by
  intro base s line' h _ ht
  have htrim : line'.trimmed = line.trimmed := congrArg Text.trim ht
  have hv := h.verbatim_eq_none.mpr ha
  have hout := h.outermost
  rw [categories, ha, hf] at hout
  have hlies := h.lies
  rw [hf] at hlies
  obtain ⟨header, gs, hg, hrest⟩ := hlies.head
  refine ⟨_, State.step_of_move (.closed hv hg (by rw [htrim]; exact hc)
    (Opening.close_congr htrim hn)), hrest.settle hv (fun hne => ?_) node⟩
  obtain ⟨f, fs, rfl⟩ := List.exists_cons_of_ne_nil hne
  exact hout

/-- A line that closes nothing leaves the outermost construct open. -/
theorem On.exists_turns_of_free (h : a.On category base s) (hl : s.Free line)
    (hm : State.Move strict s line t) :
    ∃ a', Turns strict base.contextDepth category line.text a (.inl a') := by
  have hv := h.verbatim_eq_none.mp hl.verbatim
  obtain ⟨o, b, fs, hf, hcat⟩ := h.innermost hv
  have hput : ∀ node : Node, settle (some node) a.frames = .inl ⟨(o, b.add node) :: fs, none⟩ := by
    intro node
    rw [hf]
    rfl
  have hunder : ∀ c : Category, (c :: kinds a.frames).getLast? = some category := by
    intro c
    rw [hf] at hcat ⊢
    exact hcat
  cases hm with
  | resumed hr => rw [hl.verbatim] at hr; cases hr
  | closed _ hfr hc hn =>
    have hu := hl.unclosed
    rw [State.closedBy, hfr] at hu
    exact absurd hc (Bool.eq_false_iff.mp hu)
  | blank hl hc =>
    refine ⟨a, fun {base s line'} h' hd ht => ?_⟩
    have hfree := (h.beside h' hd hl.verbatim).free ht hl
    exact ⟨_, State.step_of_move (.blank hfree
      (State.categorize_congr (congrArg Text.trim ht) hc)), h'⟩
  | comment hl hc hp =>
    have hopened : ∃ a', resume a.frames (Comment.opened line.text) = .inl a' := by
      cases Comment.opened line.text with
      | inl v => exact ⟨_, rfl⟩
      | inr node => exact ⟨_, hput node⟩
    obtain ⟨a', ha'⟩ := hopened
    refine ⟨a', fun {base s line'} h' hd ht => ?_⟩
    obtain ⟨hfree, hcat', hperm⟩ := (h.beside h' hd hl.verbatim).enters ht hl hc hp
    refine ⟨_, State.step_of_move (.comment hfree hcat' hperm), ?_⟩
    rw [← ha', Line.trimmed, ht]
    exact h'.lies.resume (fun v _ => hunder v.category) (fun _ => hcat) line'
  | called hl hc hp hr =>
    rename_i call
    refine ⟨⟨(o, b.add (.step (.call call.name call.args))) :: fs, none⟩,
      fun {base s line'} h' hd ht => ?_⟩
    obtain ⟨hfree, hcat', hperm⟩ := (h.beside h' hd hl.verbatim).enters ht hl hc hp
    have hr' : Call.read line'.trimmed = .ok call := (congrArg (Call.read ·.trim) ht).trans hr
    refine ⟨_, State.step_of_move (.called hfree hcat' hperm hr'), ?_⟩
    rw [← hput]
    exact h'.lies.settle hfree.verbatim (fun _ => hcat) (some _)
  | escaped hl hc hp hr =>
    rename_i returns
    refine ⟨⟨a.frames, some (.hosted returns [])⟩, fun {base s line'} h' hd ht => ?_⟩
    have hb := h.beside h' hd hl.verbatim
    obtain ⟨hfree, hcat', hperm⟩ := hb.enters ht hl hc hp
    have htrim : line'.trimmed = line.trimmed := congrArg Text.trim ht
    have hr' := hostedReturns_congr htrim hr
    rw [← hb.block] at hr'
    exact ⟨_, State.step_of_move (.escaped hfree hcat' hperm hr'), hunder _,
      h'.lies.with_verbatim _, rfl⟩
  | opened hl hc hp ho =>
    rename_i o
    refine ⟨⟨(o, .empty) :: a.frames, none⟩, fun {base s line'} h' hd ht => ?_⟩
    have hb := h.beside h' hd hl.verbatim
    obtain ⟨hfree, hcat', hperm⟩ := hb.enters ht hl hc hp
    have htrim : line'.trimmed = line.trimmed := congrArg Text.trim ht
    have hsays := ho.congr htrim
    rw [← hb.contextDepth] at hsays
    exact ⟨_, State.step_of_move (.opened hfree hcat' hperm hsays), hunder _, h'.lies.push _ _,
      congrArg (Option.map _) hfree.verbatim⟩

/-- A line that is taken above one base is taken alike above every base, and if it ends the outermost
construct, it is a closing line of it. -/
theorem On.exists_turns (h : a.On category base s) (hm : State.Move strict s line t) :
    ∃ r, Turns strict base.contextDepth category line.text a r ∧
      ∀ node, r = .inr node → category.ClosesOn line.trimmed ∧ category.Gives node := by
  have hout := h.outermost
  rw [categories] at hout
  -- Only the first two ways can end a construct, and then the outermost one if nothing lies below.
  rcases State.way s line with ⟨header, v, hv⟩ | ⟨f, rest, hv, hfr, hc⟩ | hl
  · have ha : a.verbatim = some v := by
      rw [← h.verbatim, hv]
      rfl
    refine ⟨_, turns_resumed ha, fun node hr => ?_⟩
    rw [ha] at hout
    cases ht : v.take line with
    | inl v' =>
      rw [ht] at hr
      cases hr
    | inr node' =>
      have hclose := Verbatim.closesOn_of_take ht
      have hgives := Verbatim.gives_of_take ht
      cases hf : a.frames with
      | nil =>
        rw [hf] at hout
        cases hout
        rw [ht, hf] at hr
        cases hr
        exact ⟨hclose, hgives⟩
      | cons f fs =>
        rw [ht, hf] at hr
        cases hr
  · have ha := h.verbatim_eq_none.mp hv
    obtain ⟨o, b, fs, hf, -⟩ := h.innermost ha
    have hlies := h.lies
    rw [hf] at hlies
    obtain ⟨header, gs, hg, -⟩ := hlies.head
    rw [hfr] at hg
    cases hg
    have hstep := State.step_of_move hm
    rw [State.step_close hv hfr hc, Outcome.map_eq_ok_iff] at hstep
    obtain ⟨node, hn, -⟩ := hstep
    refine ⟨_, turns_closed ha hf hc hn, fun node' hr => ?_⟩
    rw [ha, hf] at hout
    cases fs with
    | nil =>
      cases hout
      cases hr
      exact ⟨Opening.closesOn_of_close hc hn, Opening.gives_of_close hn⟩
    | cons f fs => cases hr
  · obtain ⟨a', hturn⟩ := h.exists_turns_of_free hl hm
    exact ⟨_, hturn, fun node hr => by cases hr⟩

end turns

/-! ## Lines up to the closing line -/

/-- Lines that are taken from one state to another without ending the outermost construct: in front of
each of them, and behind the last, it lies above the base. -/
inductive Stays (strict : Bool) (category : Category) (base : State) : State → List Line → State → Prop
  | nil {a : Above} {s : State} (h : a.On category base s) : Stays strict category base s [] s
  | cons {a : Above} {s u t : State} {line : Line} {lines : List Line} (h : a.On category base s)
    (hstep : s.step strict line = .ok u) (hrest : Stays strict category base u lines t) :
    Stays strict category base s (line :: lines) t

namespace Stays

variable {strict : Bool} {lines : List Line}

theorem on_start (h : Stays strict category base s lines t) : ∃ a : Above, a.On category base s := by
  cases h with
  | nil h => exact ⟨_, h⟩
  | cons h => exact ⟨_, h⟩

theorem run_eq (h : Stays strict category base s lines t) : s.run strict lines = .ok t := by
  induction h with
  | nil => rfl
  | cons _ hstep _ ih =>
    rw [State.run_of_step hstep]
    exact ih

/-- The construct is open behind any of the lines. -/
theorem exists_run_take (h : Stays strict category base s lines t) {i : Nat} (hi : i ≤ lines.length) :
    ∃ (a : Above) (u : State), s.run strict (lines.take i) = .ok u ∧ a.On category base u := by
  induction h generalizing i with
  | nil h =>
    rw [List.take_nil]
    exact ⟨_, _, rfl, h⟩
  | cons h hstep _ ih =>
    cases i with
    | zero => exact ⟨_, _, rfl, h⟩
    | succ i =>
      rw [List.take_succ_cons, State.run_of_step hstep]
      exact ih (Nat.le_of_succ_le_succ hi)

end Stays

/-- Reading as far as the outermost construct goes leaves it open up to a closing line of it, and ends
there alike above every base, whatever follows. -/
theorem On.closing_of_takeUntil {strict : Bool} {lines rest : List Line}
    (h : a.On category base s) (hu : s.takeUntil strict base.depth lines = .ok (t, rest)) :
    ∃ front close after last node, lines = front ++ close :: after ∧ rest = close :: after ∧
      Stays strict category base s front last ∧ last.step strict close = .ok t ∧
      t = base.settle node ∧ category.ClosesOn close.trimmed ∧ category.Gives node ∧
      ∀ {base' s' : State} {front' after' : List Line} {close' : Line}, a.On category base' s' →
        base'.contextDepth = base.contextDepth → front'.map (·.text) = front.map (·.text) →
        close'.text = close.text →
        s'.takeUntil strict base'.depth (front' ++ close' :: after') =
          .ok (base'.settle node, close' :: after') := by
  -- On the lines; what carries it is that something lies above the base until a line turns it back.
  induction lines generalizing s a with
  | nil =>
    -- Lines cannot run out while something is open.
    obtain ⟨d, hd, -⟩ := Outcome.bind_eq_ok_iff.mp hu
    obtain ⟨hv, hf, -⟩ := State.finish_eq_ok_iff.mp hd
    have hlt := h.depth_lt
    rw [State.depth.eq_1 s, hv, hf] at hlt
    exact absurd hlt (Nat.not_lt_zero _)
  | cons line lines ih =>
    obtain ⟨next, hstep, hu⟩ := Outcome.bind_eq_ok_iff.mp hu
    obtain ⟨r, hturn, hend⟩ := h.exists_turns (State.move_of_step hstep)
    obtain ⟨next', hstep', hreach⟩ := hturn h rfl rfl
    rw [hstep] at hstep'
    cases hstep'
    cases r with
    | inl a' =>
      have hon : a'.On category base next := hreach
      rw [if_neg (Nat.not_le.mpr hon.depth_lt)] at hu
      obtain ⟨front, close, after, last, node, rfl, hrest, hstays, hlast, ht, hc, hgives, hsame⟩ :=
        ih hon hu
      refine ⟨line :: front, close, after, last, node, rfl, hrest, .cons h hstep hstays, hlast, ht, hc,
        hgives, ?_⟩
      intro base' s' front' after' close' h' hd hfront hclose
      obtain ⟨line', front', rfl, hline, hfront⟩ := List.map_eq_cons_iff.mp hfront
      obtain ⟨t', hstep', hreach'⟩ := hturn h' hd hline
      have hon' : a'.On category base' t' := hreach'
      refine Outcome.bind_eq_ok_iff.mpr ⟨t', hstep', ?_⟩
      rw [if_neg (Nat.not_le.mpr hon'.depth_lt)]
      exact hsame hon' hd hfront hclose
    | inr node =>
      have hnext : next = base.settle node := hreach
      obtain ⟨hclose, hgives⟩ := hend node rfl
      rw [if_pos (by rw [hnext, State.depth_settle])] at hu
      cases hu
      refine ⟨[], line, lines, s, node, rfl, rfl, .nil h, hstep, hnext, hclose, hgives, ?_⟩
      intro base' s' front' after' close' h' hd hfront hlast
      rw [List.map_nil, List.map_eq_nil_iff] at hfront
      subst hfront
      obtain ⟨t', hstep', hreach'⟩ := hturn h' hd hlast
      have hnext' : t' = base'.settle node := hreach'
      refine Outcome.bind_eq_ok_iff.mpr ⟨t', hstep', ?_⟩
      rw [if_pos (by rw [hnext', State.depth_settle]), hnext']
      rfl

end Above
end BlockText
