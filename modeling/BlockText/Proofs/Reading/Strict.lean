/-
The strict reader and the lenient one.

The two readers differ on the lines that the strict one refuses: calls that start like headers.
`State.Mentions` collects the names of the calls that a state holds, in finished constructs and in
open ones.  Every other line leaves these names as they are, a call line adds its own
(`mentions_of_move`), and the strict reader refuses a call line exactly if the name that it adds
begins with a keyword.  A whole run is therefore strict as long as the names that it ends with are
free of keywords (`run_strict_iff`), and `parse_strict` says this of documents.
-/
import BlockText.Proofs.Reading.CallLine
import BlockText.Proofs.Reading.Derivation

namespace BlockText

/-! ## The names of calls -/

mutual

/-- The names of the calls in a step, its own included. -/
def Step.callNames : Step → List Text
  | .call name _ => [name]
  | .context name _ steps _ => name :: callNamesOf steps
  | .hosted .. => []

def Step.callNamesOf : List Step → List Text
  | [] => []
  | step :: steps => step.callNames ++ callNamesOf steps

end

theorem Step.mem_callNamesOf {name : Text} {steps : List Step} :
    name ∈ callNamesOf steps ↔ ∃ step ∈ steps, name ∈ step.callNames := by
  induction steps with
  | nil => simp [callNamesOf]
  | cons step steps ih => simp [callNamesOf, ih]

def Actor.callNames (a : Actor) : List Text :=
  a.definitions.flatMap (fun d => Step.callNamesOf d.steps) ++
    a.triggers.flatMap fun t => Step.callNamesOf t.steps

def Library.callNames (l : Library) : List Text :=
  l.definitions.flatMap fun d => Step.callNamesOf d.steps

def CompilationUnit.callNames (u : CompilationUnit) : List Text :=
  u.libraries.flatMap Library.callNames ++ u.sprites.flatMap (fun s => s.actor.callNames) ++
    u.stages.flatMap fun s => s.actor.callNames

/-- The names of all step calls and context calls in a document. -/
def Document.callNames (d : Document) : List Text := d.units.flatMap CompilationUnit.callNames

def Node.callNames : Node → List Text
  | .comment _ => []
  | .unit u => u.callNames
  | .library l => l.callNames
  | .sprite s => s.actor.callNames
  | .stage s => s.actor.callNames
  | .definition d => Step.callNamesOf d.steps
  | .trigger t => Step.callNamesOf t.steps
  | .step s => s.callNames

def Opening.callNames : Opening → List Text
  | .contextCall call => [call.name]
  | _ => []

/-- The name is one of a call in the contents. -/
def Contents.Mentions (b : Contents) (name : Text) : Prop := ∃ n, b.Holds n ∧ name ∈ n.callNames

theorem Contents.not_mentions_empty (name : Text) : ¬ Contents.empty.Mentions name :=
  fun ⟨n, hn, _⟩ => not_holds_empty n hn

theorem Contents.mentions_add {b : Contents} {node : Node} {name : Text} :
    (b.add node).Mentions name ↔ b.Mentions name ∨ name ∈ node.callNames := by
  constructor
  · rintro ⟨n, hn, hname⟩
    rcases holds_add.mp hn with hn | rfl
    · exact Or.inl ⟨n, hn, hname⟩
    · exact Or.inr hname
  · rintro (⟨n, hn, hname⟩ | hname)
    · exact ⟨n, holds_add.mpr (Or.inl hn), hname⟩
    · exact ⟨node, holds_add.mpr (Or.inr rfl), hname⟩

/-! ## What a finished construct keeps -/

section close

variable {b : Contents} {name : Text}

/-- All constructs in the contents stand where this category permits them. -/
def Contents.Within (b : Contents) (parent : Option Category) : Prop :=
  ∀ n, b.Holds n → Category.permits parent n.category = true

theorem Contents.mentions_of_steps {category : Category} (hb : b.Within (some category))
    (h : ∀ n : Node, Category.permits (some category) n.category = true →
      n.callNames = [] ∨ ∃ step, n = .step step) :
    b.Mentions name ↔ name ∈ Step.callNamesOf b.steps := by
  rw [Step.mem_callNamesOf]
  constructor
  · rintro ⟨n, hn, hname⟩
    rcases h n (hb n hn) with he | ⟨step, rfl⟩
    · rw [he] at hname
      exact absurd hname List.not_mem_nil
    · exact ⟨step, hn, hname⟩
  · rintro ⟨step, hstep, hname⟩
    exact ⟨.step step, hstep, hname⟩

/-- A construct that holds steps keeps the names in them. -/
theorem Contents.mentions_steps {category : Category}
    (hcat : category = .blockDefinition ∨ category = .contextDefinition ∨
      category = .triggerDefinition ∨ category = .trigger ∨ category = .contextCall)
    (hb : b.Within (some category)) :
    b.Mentions name ↔ name ∈ Step.callNamesOf b.steps := by
  refine Contents.mentions_of_steps hb fun n hn => ?_
  cases n with
  | comment c => exact Or.inl rfl
  | step s => exact Or.inr ⟨s, rfl⟩
  | definition d => rcases hcat with rfl | rfl | rfl | rfl | rfl <;> cases d <;> cases hn
  | _ => rcases hcat with rfl | rfl | rfl | rfl | rfl <;> cases hn

/-- Sprites and stages keep the names in their contents. -/
theorem Contents.mentions_actor {category : Category}
    (hcat : category = .sprite ∨ category = .stage) (hb : b.Within (some category)) :
    b.Mentions name ↔ name ∈ b.actor.callNames := by
  simp only [Actor.callNames, actor, List.mem_append, List.mem_flatMap, List.mem_filterMap]
  constructor
  · rintro ⟨n, hn, hname⟩
    have hp := hb n hn
    cases n with
    | comment c => exact absurd hname List.not_mem_nil
    | trigger t => exact Or.inr ⟨t, hn, hname⟩
    | definition d =>
      cases d with
      | block d => exact Or.inl ⟨d, ⟨.block d, hn, rfl⟩, hname⟩
      | context d | trigger d => rcases hcat with rfl | rfl <;> cases hp
    | step s => rcases hcat with rfl | rfl <;> cases s <;> cases hp
    | _ => rcases hcat with rfl | rfl <;> cases hp
  · rintro (⟨d, ⟨e, he, hd⟩, hname⟩ | ⟨t, ht, hname⟩)
    · cases e with
      | block e =>
        cases hd
        exact ⟨.definition (.block d), he, hname⟩
      | context e | trigger e => cases hd
    · exact ⟨.trigger t, ht, hname⟩

/-- A library keeps the names in its definitions. -/
theorem Contents.mentions_library (hb : b.Within (some .library)) :
    b.Mentions name ↔ ∃ d ∈ b.definitions, name ∈ Step.callNamesOf d.steps := by
  constructor
  · rintro ⟨n, hn, hname⟩
    have hp := hb n hn
    cases n with
    | comment c => exact absurd hname List.not_mem_nil
    | definition d => exact ⟨d, hn, hname⟩
    | step s => cases s <;> cases hp
    | _ => cases hp
  · rintro ⟨d, hd, hname⟩
    exact ⟨.definition d, hd, hname⟩

/-- A unit keeps the names in its libraries, sprites and stages. -/
theorem Contents.mentions_unit (hb : b.Within (some .unit)) :
    b.Mentions name ↔
      name ∈ CompilationUnit.callNames ⟨[], [], b.libraries, b.sprites, b.stages⟩ := by
  simp only [CompilationUnit.callNames, List.mem_append, List.mem_flatMap]
  constructor
  · rintro ⟨n, hn, hname⟩
    have hp := hb n hn
    cases n with
    | comment c => exact absurd hname List.not_mem_nil
    | library l => exact Or.inl (Or.inl ⟨l, hn, hname⟩)
    | sprite s => exact Or.inl (Or.inr ⟨s, hn, hname⟩)
    | stage s => exact Or.inr ⟨s, hn, hname⟩
    | definition d => cases d <;> cases hp
    | step s => cases s <;> cases hp
    | _ => cases hp
  · rintro ((⟨l, hl, hname⟩ | ⟨s, hs, hname⟩) | ⟨s, hs, hname⟩)
    · exact ⟨.library l, hl, hname⟩
    · exact ⟨.sprite s, hs, hname⟩
    · exact ⟨.stage s, hs, hname⟩

/-- Content that is not kept has no calls in it. -/
theorem Contents.not_mentions_comments {category : Category}
    (hcat : category = .sounds ∨ category = .costumes) (hb : b.Within (some category)) :
    ¬ b.Mentions name := by
  rintro ⟨n, hn, hname⟩
  have hp := hb n hn
  cases n with
  | comment c => exact absurd hname List.not_mem_nil
  | definition d => rcases hcat with rfl | rfl <;> cases d <;> cases hp
  | step s => rcases hcat with rfl | rfl <;> cases s <;> cases hp
  | _ => rcases hcat with rfl | rfl <;> cases hp

/-- Closing a construct keeps the names in it. -/
theorem Opening.callNames_close {o : Opening} {line : Line} {node : Option Node}
    (hb : b.Within (some o.category)) (h : o.close b line = .ok node) :
    (∃ n, node = some n ∧ name ∈ n.callNames) ↔ name ∈ o.callNames ∨ b.Mentions name := by
  have hopen : ∀ {p : Prop}, (name ∈ ([] : List Text) ∨ p) ↔ p :=
    fun {p} => ⟨fun h => h.resolve_left List.not_mem_nil, Or.inr⟩
  have hsome : ∀ n : Node, (∃ m, some n = some m ∧ name ∈ m.callNames) ↔ name ∈ n.callNames :=
    fun n => ⟨fun ⟨_, hm, hname⟩ => Option.some.inj hm ▸ hname, fun hname => ⟨n, rfl, hname⟩⟩
  cases o with
  | unit =>
    cases h
    rw [hsome, callNames.eq_def, hopen, Contents.mentions_unit hb]
    rfl
  | library =>
    cases h
    rw [hsome, callNames.eq_def, hopen, Contents.mentions_library hb]
    exact List.mem_flatMap
  | sprite | stage =>
    cases h
    rw [hsome, callNames.eq_def, hopen, Contents.mentions_actor (by simp [category]) hb]
    rfl
  | sounds | costumes =>
    cases h
    rw [callNames.eq_def, hopen]
    constructor
    · rintro ⟨n, hn, -⟩
      cases hn
    · exact fun hm => absurd hm (Contents.not_mentions_comments (by simp [category]) hb)
  | blockDefinition s | contextDefinition s =>
    obtain ⟨returns, -, hr⟩ := Outcome.bind_eq_ok_iff.mp h
    cases hr
    rw [hsome, callNames.eq_def, hopen, Contents.mentions_steps (by simp [category]) hb]
    rfl
  | triggerDefinition s =>
    rw [close] at h
    split at h
    · cases h
      rw [hsome, callNames.eq_def, hopen, Contents.mentions_steps (by simp [category]) hb]
      rfl
    · cases h
  | trigger event =>
    cases h
    rw [hsome, callNames.eq_def, hopen, Contents.mentions_steps (by simp [category]) hb]
    rfl
  | contextCall call =>
    cases h
    rw [hsome, callNames.eq_def, Contents.mentions_steps (by simp [category]) hb, Node.callNames,
      Step.callNames, List.mem_cons, List.mem_singleton]

end close

namespace State

/-! ## The names in a state -/

/-- The name is one of a call in the state, finished or open. -/
def Mentions (s : State) (name : Text) : Prop :=
  s.top.Mentions name ∨
    ∃ f ∈ s.frames, name ∈ f.opening.callNames ∨ f.contents.Mentions name

theorem mentions_add {s : State} {node : Node} {name : Text} :
    (s.add node).Mentions name ↔ s.Mentions name ∨ name ∈ node.callNames := by
  obtain ⟨top, frames, verbatim⟩ := s
  cases frames with
  | nil =>
    simp only [Mentions, add, Contents.mentions_add, List.not_mem_nil, false_and, exists_false,
      or_false]
  | cons f rest =>
    simp only [Mentions, add, List.exists_mem_cons_iff, Contents.mentions_add, or_assoc, or_comm,
      or_left_comm]

theorem mentions_push {s : State} {line : Line} {o : Opening} {name : Text} :
    (s.push line o).Mentions name ↔ s.Mentions name ∨ name ∈ o.callNames := by
  have he := Contents.not_mentions_empty name
  simp only [Mentions, push, List.exists_mem_cons_iff, he, false_or, or_comm, or_left_comm]

/-- Closing the innermost construct leaves the names as they are. -/
theorem mentions_settle {top : Contents} {f : Frame} {rest : List Frame}
    {verbatim verbatim' : Option (Line × Verbatim)} {line : Line} {node : Option Node} {name : Text}
    (hb : f.contents.Within (some f.opening.category))
    (hn : f.opening.close f.contents line = .ok node) :
    ((⟨top, rest, verbatim⟩ : State).settle node).Mentions name ↔
      (⟨top, f :: rest, verbatim'⟩ : State).Mentions name := by
  have hclose := @Opening.callNames_close _ name _ _ _ hb hn
  have hstate : (⟨top, f :: rest, verbatim'⟩ : State).Mentions name ↔
      (⟨top, rest, verbatim⟩ : State).Mentions name ∨
        (name ∈ f.opening.callNames ∨ f.contents.Mentions name) := by
    simp only [Mentions, List.exists_mem_cons_iff, or_assoc, or_comm, or_left_comm]
  rw [hstate, ← hclose]
  cases node with
  | none => simp
  | some node => simp [mentions_add]

variable {strict : Bool} {s : State}

theorem Derived.within (hs : s.Derived strict) {f : Frame} {rest : List Frame}
    (hf : s.frames = f :: rest) : f.contents.Within (some f.opening.category) := by
  have hn := hs.frames
  rw [hf] at hn
  cases hn with
  | cons _ _ hb _ => exact fun n hh => (hb n hh).permitted

/-- The line is a call in its place. -/
structure CallsAt (s : State) (line : Line) : Prop where
  free : s.Free line
  category : Category.ofLine line.text = .contextCall ∨ Category.ofLine line.text = .stepCall

theorem categorize_false (line : Line) :
    categorize false line = .ok (Category.ofLine line.text) := rfl

theorem mentions_resume {header : Line} {v : Verbatim} (line : Line) {name : Text} :
    (s.resume header (v.take line)).Mentions name ↔ s.Mentions name := by
  have hnode : ∀ node : Node, node.callNames = [] →
      ((s.resume header (.inr node)).Mentions name ↔ s.Mentions name) := by
    intro node hn
    show (({ s with verbatim := none } : State).add node).Mentions name ↔ _
    rw [mentions_add, hn]
    exact ⟨fun h => h.resolve_right List.not_mem_nil, Or.inl⟩
  cases v with
  | hosted returns code =>
    rw [Verbatim.take]
    split
    · exact hnode _ rfl
    · rfl
  | comment pieces =>
    rw [Verbatim.take]
    cases Verbatim.takePiece pieces line.trimmed with
    | inl v => rfl
    | inr c => exact hnode _ rfl

/-- A line that is no call leaves the names as they are.  A call line adds its name, and it starts
like a header of each keyword that its name begins with. -/
theorem mentions_of_move {t : State} {line : Line} (hs : s.Derived false)
    (h : Move false s line t) :
    (¬ s.CallsAt line ∧ ∀ name, t.Mentions name ↔ s.Mentions name) ∨
      (s.CallsAt line ∧ ∃ called : Text,
        (∀ k : Keyword, k.heads line.trimmed = true ↔ k.begins called) ∧
          ∀ name, t.Mentions name ↔ s.Mentions name ∨ name = called) := by
  have hcategory : ∀ {category : Category}, categorize false line = .ok category →
      Category.ofLine line.text = category := fun h => by cases h; rfl
  cases h with
  | resumed hv =>
    refine Or.inl ⟨fun hc => ?_, fun name => mentions_resume line⟩
    rw [hc.free.verbatim] at hv
    cases hv
  | closed hv hf hc hn =>
    rename_i f rest node
    have hwithin := hs.within hf
    obtain ⟨top, frames, verbatim⟩ := s
    cases hf
    refine Or.inl ⟨fun hcall => ?_, fun name => mentions_settle hwithin hn⟩
    have hu : f.opening.closesOn line.trimmed = false := hcall.free.unclosed
    rw [hu] at hc
    cases hc
  | blank hl hc =>
    refine Or.inl ⟨fun hcall => ?_, fun name => Iff.rfl⟩
    rcases hcall.category with h | h <;> rw [hcategory hc] at h <;> cases h
  | comment hl hc hp =>
    refine Or.inl ⟨fun hcall => ?_, fun name => ?_⟩
    · rcases hcall.category with h | h <;> rw [hcategory hc] at h <;> cases h
    · cases Comment.start line.trimmed with
      | inl v => rfl
      | inr c =>
        show (({ s with verbatim := none } : State).add (.comment c)).Mentions name ↔ _
        rw [mentions_add]
        exact ⟨fun h => h.resolve_right List.not_mem_nil, Or.inl⟩
  | called hl hc hp hr =>
    rename_i call
    refine Or.inr ⟨⟨hl, Or.inr (hcategory hc)⟩, call.name, Call.heads_stepCall hr, fun name => ?_⟩
    rw [mentions_add, Node.callNames, Step.callNames, List.mem_singleton]
  | escaped hl hc hp hr =>
    refine Or.inl ⟨fun hcall => ?_, fun name => Iff.rfl⟩
    rcases hcall.category with h | h <;> rw [hcategory hc] at h <;> cases h
  | opened hl hc hp ho =>
    rename_i o
    by_cases hcall : o.category = .contextCall
    · cases ho with
      | contextCall hd hr =>
        have hend : Category.endsWith ['['] line.trimmed = true :=
          List.find?_some (p := fun c : Category => c.accepts line.text)
            (Category.find?_of_ofLine (hcategory hc) nofun)
        refine Or.inr ⟨⟨hl, Or.inl (hcategory hc)⟩, _, Call.heads_contextCall hend hr,
          fun name => ?_⟩
        rw [mentions_push, Opening.callNames, List.mem_singleton]
      | _ => cases hcall
    · refine Or.inl ⟨fun h => ?_, fun name => ?_⟩
      · rcases h.category with h | h <;> rw [hcategory hc] at h
        · exact hcall h
        · cases o <;> cases h
      · rw [mentions_push]
        refine ⟨fun h => h.resolve_right fun hname => ?_, Or.inl⟩
        cases o with
        | contextCall call => exact hcall rfl
        | _ => cases hname

/-! ## The lines that the strict reader refuses -/

/-- The line is a call that starts like a header of this keyword. -/
structure Refuses (s : State) (line : Line) (k : Keyword) : Prop where
  callsAt : s.CallsAt line
  heading : Keyword.heading? line.trimmed = some k

theorem step_of_refuses {line : Line} {k : Keyword} (h : s.Refuses line k) :
    s.step true line = .error (.line (.malformedHeader k) line) := by
  have hc : categorize true line = .error (.line (.malformedHeader k) line) := by
    rw [categorize]
    have hcall : (Category.ofLine line.text == .contextCall ||
        Category.ofLine line.text == .stepCall) = true := by
      rcases h.callsAt.category with h | h <;> rw [h] <;> rfl
    rw [hcall, h.heading]
    rfl
  rw [step_enter h.callsAt.free, enter_of_refused hc]

theorem step_of_not_refuses {line : Line} (h : ∀ k, ¬ s.Refuses line k) :
    s.step true line = s.step false line := by
  rcases way s line with ⟨header, v, hv⟩ | ⟨f, rest, hv, hf, hc⟩ | hl
  · rw [step_resume hv, step_resume hv]
  · rw [step_close hv hf hc, step_close hv hf hc]
  · have hc : categorize true line = categorize false line := by
      rw [categorize_false, categorize]
      by_cases hcall : (Category.ofLine line.text == .contextCall ||
          Category.ofLine line.text == .stepCall) = true
      · simp only [hcall, Bool.and_self, if_true]
        cases hk : Keyword.heading? line.trimmed with
        | none => rfl
        | some k =>
          rw [Bool.or_eq_true, beq_iff_eq, beq_iff_eq] at hcall
          exact absurd ⟨⟨hl, hcall⟩, hk⟩ (h k)
      · rw [Bool.not_eq_true] at hcall
        rw [hcall]
        rfl
    rw [step_enter hl, step_enter hl, enter, enter, hc]

/-! ## Runs -/

/-- No call in the state has a name that begins with a keyword. -/
def Clean (s : State) : Prop := ∀ name, s.Mentions name → ∀ k : Keyword, ¬ k.begins name

/-- A line that the lenient reader takes is taken by the strict one if and only if no name that
begins with a keyword comes in. -/
theorem clean_of_move {t : State} {line : Line} (hs : s.Derived false)
    (h : Move false s line t) :
    t.Clean ↔ s.Clean ∧ ∀ k, ¬ s.Refuses line k := by
  rcases mentions_of_move hs h with ⟨hn, hsame⟩ | ⟨hc, called, hk, hmore⟩
  · constructor
    · exact fun ht => ⟨fun name hm => ht name ((hsame name).mpr hm), fun k hr => hn hr.callsAt⟩
    · exact fun hclean name hm => hclean.1 name ((hsame name).mp hm)
  · constructor
    · intro ht
      refine ⟨fun name hm => ht name ((hmore name).mpr (Or.inl hm)), fun k hr => ?_⟩
      exact ht called ((hmore called).mpr (Or.inr rfl)) k
        ((hk k).mp (Keyword.heads_of_heading? hr.heading))
    · rintro ⟨hclean, hr⟩ name hm k hb
      rcases (hmore name).mp hm with hm | rfl
      · exact hclean name hm k hb
      · cases hh : Keyword.heading? line.trimmed with
        | some k' => exact hr k' ⟨hc, hh⟩
        | none =>
          have hno := Keyword.heading?_eq_none_iff.mp hh k
          rw [(hk k).mpr hb] at hno
          cases hno

/-- Names that begin with a keyword stay. -/
theorem clean_of_run {t : State} {lines : List Line} (hf : ∀ line ∈ lines, '\n' ∉ line.text)
    (hs : s.Derived false) (h : s.run false lines = .ok t) (ht : t.Clean) : s.Clean := by
  induction lines generalizing s with
  | nil =>
    cases h
    exact ht
  | cons line lines ih =>
    rw [run_cons, Outcome.bind_eq_ok_iff] at h
    obtain ⟨u, hu, h⟩ := h
    have hm := move_of_step hu
    have hu := ih (fun l hl => hf l (List.mem_cons_of_mem line hl))
      (derived_of_move (hf line List.mem_cons_self) hs hm) h
    exact ((clean_of_move hs hm).mp hu).1

theorem run_strict_iff {t : State} {lines : List Line} (hf : ∀ line ∈ lines, '\n' ∉ line.text)
    (hs : s.Derived false) (hclean : s.Clean) :
    s.run true lines = .ok t ↔ s.run false lines = .ok t ∧ t.Clean := by
  induction lines generalizing s with
  | nil =>
    constructor
    · intro h
      cases h
      exact ⟨rfl, hclean⟩
    · exact fun h => h.1
  | cons line lines ih =>
    have hf' := fun l hl => hf l (List.mem_cons_of_mem line hl)
    have hline := hf line List.mem_cons_self
    rw [run_cons, run_cons, Outcome.bind_eq_ok_iff, Outcome.bind_eq_ok_iff]
    constructor
    · rintro ⟨u, hu, h⟩
      have hr : ∀ k, ¬ s.Refuses line k := by
        intro k hr
        rw [step_of_refuses hr] at hu
        cases hu
      rw [step_of_not_refuses hr] at hu
      have hm := move_of_step hu
      have hd := derived_of_move hline hs hm
      obtain ⟨h, ht⟩ := (ih hf' hd ((clean_of_move hs hm).mpr ⟨hclean, hr⟩)).mp h
      exact ⟨⟨u, hu, h⟩, ht⟩
    · rintro ⟨⟨u, hu, h⟩, ht⟩
      have hm := move_of_step hu
      have hd := derived_of_move hline hs hm
      have hcu := clean_of_run hf' hd h ht
      refine ⟨u, ?_, (ih hf' hd hcu).mpr ⟨h, ht⟩⟩
      rw [step_of_not_refuses ((clean_of_move hs hm).mp hcu).2]
      exact hu

/-- The strict reader does what the lenient one does, or refuses a line on its way. -/
theorem run_strict (s : State) (lines : List Line) :
    s.run true lines = s.run false lines ∨
      ∃ u : State, ∃ k, ∃ line ∈ lines, u.Refuses line k ∧
        s.run true lines = .error (.line (.malformedHeader k) line) := by
  induction lines generalizing s with
  | nil => exact Or.inl rfl
  | cons line lines ih =>
    by_cases hr : ∃ k, s.Refuses line k
    · obtain ⟨k, hr⟩ := hr
      refine Or.inr ⟨s, k, line, List.mem_cons_self, hr, ?_⟩
      rw [run_cons, step_of_refuses hr]
      rfl
    · rw [run_cons, run_cons, step_of_not_refuses fun k hk => hr ⟨k, hk⟩]
      cases hstep : s.step false line with
      | error e => exact Or.inl rfl
      | ok u =>
        rcases ih u with h | ⟨v, k, l, hl, hv, h⟩
        · exact Or.inl h
        · exact Or.inr ⟨v, k, l, List.mem_cons_of_mem line hl, hv, h⟩

end State

/-! ## Documents -/

namespace Document

theorem mem_callNames_of_finish {s : State} {d : Document} (hs : s.Derived false)
    (h : s.finish = .ok d) (name : Text) : name ∈ d.callNames ↔ s.Mentions name := by
  obtain ⟨-, hf, rfl⟩ := State.finish_eq_ok_iff.mp h
  rw [callNames, List.mem_flatMap, State.Mentions, hf]
  constructor
  · rintro ⟨u, hu, hname⟩
    exact Or.inl ⟨.unit u, hu, hname⟩
  · rintro (⟨n, hn, hname⟩ | ⟨f, hf, -⟩)
    · have hp := (hs.top n hn).permitted
      cases n with
      | comment c => exact absurd hname List.not_mem_nil
      | unit u => exact ⟨u, hn, hname⟩
      | definition d => cases d <;> cases hp
      | step s => cases s <;> cases hp
      | _ => cases hp
    · exact absurd hf List.not_mem_nil

/-- The strict reader reads what the lenient one reads, as long as no call has a name that begins
with a keyword as a whole word.  Where the lenient reader fails, the strict one fails as well, with
the same error or because it refuses a call line that starts like a header. -/
theorem parse_strict (source : Text) :
    (∀ d, parse true source = .ok d ↔
      parse false source = .ok d ∧ ∀ name ∈ d.callNames, ∀ k : Keyword, ¬ k.begins name) ∧
    (∀ e, parse false source = .error e →
      parse true source = .error e ∨
        ∃ k, ∃ line ∈ Line.ofSource source,
          parse true source = .error (.line (.malformedHeader k) line) ∧
            (Category.ofLine line.text = .contextCall ∨ Category.ofLine line.text = .stepCall) ∧
            k.heads line.trimmed = true) := by
  have hf : ∀ line ∈ Line.ofSource source, '\n' ∉ line.text := fun line hl => Line.not_mem_text hl
  have hstart := State.derived_start false
  have hclean : State.start.Clean := by
    rintro name (h | ⟨f, hf, -⟩)
    · exact absurd h (Contents.not_mentions_empty name)
    · exact absurd hf List.not_mem_nil
  refine ⟨fun d => ?_, fun e he => ?_⟩
  · rw [parse_eq_ok_iff, parse_eq_ok_iff]
    constructor
    · rintro ⟨s, hrun, hfin⟩
      obtain ⟨hrun, hs⟩ := (State.run_strict_iff hf hstart hclean).mp hrun
      refine ⟨⟨s, hrun, hfin⟩, fun name hname => hs name ?_⟩
      exact (mem_callNames_of_finish (State.derived_of_run hf hstart hrun) hfin name).mp hname
    · rintro ⟨⟨s, hrun, hfin⟩, hnames⟩
      refine ⟨s, (State.run_strict_iff hf hstart hclean).mpr ⟨hrun, fun name hname => ?_⟩, hfin⟩
      refine hnames name ?_
      exact (mem_callNames_of_finish (State.derived_of_run hf hstart hrun) hfin name).mpr hname
  · rw [parse, ofLines_eq] at he
    rcases State.run_strict .start (Line.ofSource source) with h | ⟨u, k, line, hl, hr, h⟩
    · left
      rw [parse, ofLines_eq, h]
      exact he
    · right
      refine ⟨k, line, hl, ?_, hr.callsAt.category, Keyword.heads_of_heading? hr.heading⟩
      rw [parse, ofLines_eq, h]
      rfl

/-- A step call that is nothing but a keyword is read by the lenient reader only. -/
theorem parse_strict_keyword :
    ∃ source d, source =
        ['u', 'n', 'i', 't', ' ', 'A', ' ', '[', '\n', 's', 't', 'a', 'g', 'e', ' ', '[', '\n',
        'w', 'h', 'e', 'n', ' ', 'E', ' ', '[', '\n', 'u', 'n', 'i', 't', '\n', ']', '\n', ']',
        '\n', ']'] ∧
      parse false source = .ok d ∧ d.callNames = [Keyword.unit.text] ∧
        ∀ d', parse true source ≠ .ok d' := by
  refine ⟨_, ⟨[], [⟨['A'], [], [], [], [⟨none, [], [], [⟨['E'], [.call Keyword.unit.text []], []⟩]⟩]⟩]⟩,
    rfl, rfl, rfl, fun d' h => ?_⟩
  obtain ⟨h, hnames⟩ := ((parse_strict _).1 d').mp h
  cases h
  exact hnames Keyword.unit.text List.mem_cons_self .unit ⟨[], rfl, nofun⟩

end Document
end BlockText
