/-
How the constructs of a document are nested.

`Node.Placed` says what a construct has to do with those around it: escapes stand in definitions only,
context calls and groups of arguments nest so deep and no deeper, and the slots for steps are those of
context and trigger definitions.  Every construct of a document that is read is placed like this
(`Document.nesting_of_parse`).  Categories alone decide most of it, since each construct stands where its
category may stand; the slots rest on the test that tells the headers of definitions apart.

The other half is the error of a context call that is one too deep.  It is raised by a context call with
as many open ones around it as may be open at once, and by nothing else (`State.blames_of_step`).
-/
import BlockText.Proofs.Name.Tree
import BlockText.Proofs.Print.Header
import BlockText.Proofs.Reading.Constructs
import BlockText.Proofs.Reading.Names
import BlockText.Proofs.Reading.Refusal
import BlockText.Proofs.Reading.Truncation

namespace BlockText

/-! ## Slots of definitions -/

/-- Slots for steps have the type of steps and other slots have not. -/
structure Signature.Sorted (s : Signature) : Prop where
  params : ∀ p ∈ s.params, p.type ≠ "BlockList".toList
  blockLists : ∀ p ∈ s.blockLists, p.type = "BlockList".toList

theorem Signature.sorted_of_read {text : Text} {s : Signature} (h : read text = .ok s) :
    s.Sorted := by
  obtain ⟨literal, hs, -⟩ := read_eq_ok_iff.mp h
  refine ⟨fun p hp => ?_, fun p hp => ?_⟩
  · have hb := (hs.params p hp).2
    rw [Parameter.isBlockList, beq_eq_false_iff_ne] at hb
    exact hb
  · have hb := (hs.blockLists p hp).2
    rw [Parameter.isBlockList, beq_iff_eq] at hb
    exact hb

/-- A signature that is told by its slots for steps has some. -/
theorem Signature.blockLists_ne_nil {s : Signature} (h : s.blockLists.any isShown = true) :
    s.blockLists ≠ [] := by
  rintro he
  rw [he] at h
  cases h

/-! ## Places of constructs -/

/-- How the construct stands inside these, the innermost one first, and what is in it. -/
structure Node.Placed (around : List Node) (n : Node) : Prop where
  /-- An escape stands in the steps of a definition, and in no trigger and no context call. -/
  escape : n.category = .hosted →
    (∃ d, around.head? = some (.definition d)) ∧
      ∀ m ∈ around, m.category ≠ .trigger ∧ m.category ≠ .contextCall
  contexts : (n :: around).countP (·.category == .contextCall) ≤ 128
  groups : ∀ s, n = .step s → Expression.depthOf s.args ≤ 128
  slots : ∀ d, n = .definition d → Signature.Sorted ⟨d.name, d.params, d.blockLists⟩
  /-- Context and trigger definitions take steps. -/
  blockLists : ∀ d, n = .definition d →
    n.category = .contextDefinition ∨ n.category = .triggerDefinition → d.blockLists ≠ []
  /-- No line of an escape closes it. -/
  code : ∀ returns code, n = .step (.hosted returns code) →
    ∀ t ∈ code.pieces, t.trim ≠ "@]".toList

namespace Category

/-- Inside a trigger or a context call there are comments and calls only. -/
theorem permits_in_call {parent child : Category}
    (hparent : parent = .trigger ∨ parent = .contextCall ∨ parent = .comment ∨ parent = .stepCall)
    (h : permits (some parent) child = true) :
    child = .contextCall ∨ child = .comment ∨ child = .stepCall := by
  rcases hparent with rfl | rfl | rfl | rfl <;> cases child <;>
    first
      | exact Or.inl rfl
      | exact Or.inr (Or.inl rfl)
      | exact Or.inr (Or.inr rfl)
      | cases h

end Category

/-- A context call had been opened with fewer than the most context calls around it. -/
theorem Made.contextDepth_lt {strict : Bool} {path : Path} {n : Node} (h : Made strict path n)
    (hn : n.category = .contextCall) : path.contextDepth < maxNesting := by
  cases h with
  | comment | called | escaped => cases hn
  | finished _ ho _ _ _ hclose =>
    cases Opening.close_eq_some_iff.mp hclose with
    | contextCall call =>
      cases ho with
      | contextCall hdepth _ => exact hdepth
    | _ => cases hn

namespace Document.At

variable {strict : Bool} {source : Text} {d : Document} {around : List Node} {n : Node}

/-- Below a trigger or a context call there are comments and calls only. -/
theorem category_in_call (hd : parse strict source = .ok d) (h : d.At around n) {m : Node}
    (hm : m ∈ around) (hcat : m.category = .trigger ∨ m.category = .contextCall) :
    n.category = .contextCall ∨ n.category = .comment ∨ n.category = .stepCall := by
  induction h with
  | comment | unit => exact absurd hm List.not_mem_nil
  | @inside around p n h hn ih =>
    have hp := (h.inside hn).permitted hd
    refine @Category.permits_in_call p.category n.category ?_ hp
    rcases List.mem_cons.mp hm with rfl | hm
    · exact hcat.elim Or.inl fun h => Or.inr (Or.inl h)
    · rcases ih hm with h | h | h
      · exact Or.inr (Or.inl h)
      · exact Or.inr (Or.inr (Or.inl h))
      · exact Or.inr (Or.inr (Or.inr h))

theorem escape (hd : parse strict source = .ok d) (h : d.At around n) (hn : n.category = .hosted) :
    (∃ d, around.head? = some (.definition d)) ∧
      ∀ m ∈ around, m.category ≠ .trigger ∧ m.category ≠ .contextCall := by
  refine ⟨?_, fun m hm => ?_⟩
  · have hp := h.permitted hd
    rw [hn] at hp
    cases around with
    | nil => cases hp
    | cons m around =>
      cases m with
      | definition d => exact ⟨d, rfl⟩
      | step s => cases s <;> cases hp
      | _ => cases hp
  · rw [← not_or]
    intro hcat
    rcases h.category_in_call hd hm hcat with h | h | h <;> rw [hn] at h <;> cases h

/-- So many context calls and no more stand inside each other. -/
theorem contexts (hd : parse strict source = .ok d) (h : d.At around n) :
    (n :: around).countP (·.category == .contextCall) ≤ maxNesting := by
  induction h with
  | comment | unit => exact Nat.zero_le _
  | @inside around m n h hn ih =>
    by_cases hcall : n.category = .contextCall
    · obtain ⟨path, hpath, hmade⟩ := (h.inside hn).made hd
      have hdepth : path.contextDepth = (m :: around).countP (·.category == .contextCall) := by
        have hcount := congrArg (List.countP (· == Category.contextCall)) hpath
        rwa [List.countP_map, List.countP_map] at hcount
      rw [List.countP_cons_of_pos (by simpa using hcall), ← hdepth]
      exact hmade.contextDepth_lt hcall
    · rw [List.countP_cons_of_neg (by simpa using hcall)]
      exact ih

end Document.At

namespace Made

variable {strict : Bool} {path : Path}

theorem groups {s : Step} (h : Made strict path (.step s)) :
    Expression.depthOf s.args ≤ maxNesting := by
  cases h with
  | called _ hr => exact Call.depthOf_le_of_read hr
  | escaped => exact Nat.zero_le _
  | finished _ ho _ _ _ hclose =>
    cases Opening.close_eq_some_iff.mp hclose with
    | contextCall call =>
      cases ho with
      | contextCall _ hr => exact Call.depthOf_le_of_read hr

/-- A definition has the slots of its header. -/
theorem slots {d : Definition} (h : Made strict path (.definition d)) :
    Signature.Sorted ⟨d.name, d.params, d.blockLists⟩ ∧
      ((Node.definition d).category = .contextDefinition ∨
        (Node.definition d).category = .triggerDefinition → d.blockLists ≠ []) := by
  cases h with
  | finished henter ho _ _ _ hclose =>
    have hcat := (State.categorize_eq_ok_iff.mp henter.categorized).1
    cases Opening.close_eq_some_iff.mp hclose with
    | @blockDefinition s _ _ =>
      cases ho with
      | blockDefinition hr hb =>
        obtain ⟨name, params, blockLists⟩ := s
        obtain rfl : blockLists = [] := hb
        exact ⟨Signature.sorted_of_read hr, fun h => by rcases h with h | h <;> cases h⟩
    | contextDefinition =>
      cases ho with
      | contextDefinition hr =>
        refine ⟨Signature.sorted_of_read hr, fun _ => ?_⟩
        exact Signature.blockLists_ne_nil (Opening.shown_of_named (Or.inl rfl) hcat hr)
    | triggerDefinition =>
      cases ho with
      | triggerDefinition hr =>
        refine ⟨Signature.sorted_of_read hr, fun _ => ?_⟩
        exact Signature.blockLists_ne_nil (Opening.shown_of_named (Or.inr rfl) hcat hr)

theorem code {returns : Option Returns} {code : Text}
    (h : Made strict path (.step (.hosted returns code))) :
    ∀ t ∈ code.pieces, t.trim ≠ ['@', ']'] := by
  cases h with
  | @escaped _ _ _ lines _ _ hcode =>
    intro t ht
    by_cases hne : lines = []
    · subst hne
      obtain rfl : t = [] := List.mem_singleton.mp ht
      decide
    · rw [Text.pieces_joinLines (fun u hu => (hcode u hu).feedless) hne] at ht
      exact (hcode t ht).unended
  | finished _ _ _ _ _ hclose => cases Opening.close_eq_some_iff.mp hclose

end Made

theorem Document.At.placed {strict : Bool} {source : Text} {d : Document} {around : List Node}
    {n : Node} (hd : parse strict source = .ok d) (h : d.At around n) : n.Placed around := by
  obtain ⟨path, -, hmade⟩ := h.made hd
  refine ⟨h.escape hd, h.contexts hd, fun s hs => ?_, fun d hn => ?_, fun d hn => ?_,
    fun returns code hs => ?_⟩
  · subst hs
    exact hmade.groups
  · subst hn
    exact hmade.slots.1
  · subst hn
    exact hmade.slots.2
  · subst hs
    exact hmade.code

/-! ## One context call too many -/

/-- No more context calls are open than may be open at once. -/
theorem Nested.contextDepth_le {strict : Bool} {frames : List Frame} (h : Nested strict frames) :
    frames.countP (·.opening.category == .contextCall) ≤ maxNesting := by
  induction h with
  | nil => exact Nat.zero_le _
  | @cons f rest he ho hb hr ih =>
    by_cases hf : f.opening.category = .contextCall
    · rw [List.countP_cons_of_pos (by simpa using hf)]
      obtain ⟨header, opening, contents⟩ := f
      replace ho : Opening.Says (Path.contextDepth (rest.map (·.opening))) header opening := ho
      cases ho with
      | contextCall hdepth =>
        rw [Path.contextDepth, List.countP_map] at hdepth
        exact hdepth
      | _ => cases hf
    · rw [List.countP_cons_of_neg (by simpa using hf)]
      exact ih

/-- The first lines of the open constructs are of the categories of these. -/
theorem Nested.countP_header {strict : Bool} {frames : List Frame} (h : Nested strict frames)
    (category : Category) :
    (frames.map (·.header)).countP (fun l => Category.ofLine l.text == category) =
      frames.countP (·.opening.category == category) := by
  rw [List.countP_map]
  induction h with
  | nil => rfl
  | @cons f rest he ho hb hr ih =>
    have hcat := (State.categorize_eq_ok_iff.mp he.categorized).1
    rw [List.countP_cons, List.countP_cons, ih]
    show _ + (if (Category.ofLine f.header.text == category) = true then 1 else 0) = _
    rw [hcat]

namespace ParseError

/-- The error of a context call that is one too deep is told by its kind and its message. -/
theorem eq_contextTooDeep {e : ParseError} (hk : e.kind = .structural)
    (hm : e.message = "context calls nested too deeply".toList) :
    ∃ l, e = .line .contextTooDeep l := by
  cases e with
  | name error l => cases hk
  | line fault l =>
    cases fault with
    | contextTooDeep => exact ⟨l, rfl⟩
    | namelessEvent | libraryShape | libraryHue | libraryLanguage => cases hk
    | misplaced child parent =>
      -- a misplaced context call, too, is spoken of with the first words, but in the singular
      have hprefix : ['c', 'o', 'n', 't', 'e', 'x', 't', ' ', 'c', 'a', 'l', 'l', 's'] <+:
          (LineFault.misplacement child parent).toList := by
        rw [show (LineFault.misplacement child parent).toList = _ from hm]
        exact ⟨" nested too deeply".toList, rfl⟩
      refine absurd hprefix (not_prefix_misplacement ⟨by simp, by simp⟩ (fun c => ?_) child parent)
      cases c <;> simp [Category.describe]
    | malformedHeader keyword =>
      change "malformed ".toList ++ keyword.text ++ " header".toList = _ at hm
      simp at hm
    | unterminated category =>
      change ("unterminated " ++ category.describe ++ ", no closing \"" ++ category.closing ++
        "\" found").toList = _ at hm
      simp at hm
    | blockListInBlock =>
      change "only context and trigger definitions may take BlockList parameters".toList = _ at hm
      simp at hm
    | triggerReturns =>
      change "trigger definitions cannot declare returns".toList = _ at hm
      simp at hm

end ParseError

namespace Document

/-- A context call that is one too deep is blamed with as many open ones around it as may be open. -/
theorem contexts_of_error {strict : Bool} {source : Text} {e : ParseError}
    (h : parse strict source = .error e) (hk : e.kind = .structural)
    (hm : e.message = "context calls nested too deeply".toList) :
    Category.ofLine e.place.text = .contextCall ∧
      (Line.ofSource source)[e.lineNumber - 1]? = some e.place ∧
      (openAfter strict source (e.lineNumber - 1)).countP
        (fun l => Category.ofLine l.text == .contextCall) = maxNesting := by
  obtain ⟨place, rfl⟩ := ParseError.eq_contextTooDeep hk hm
  rcases parse_eq_error h with ⟨before, line, after, t, hlines, hrun, hstep⟩ | ⟨t, -, hfin⟩
  · obtain ⟨hblames, rfl⟩ := State.blames_of_step hstep
    have hnumber : place.number - 1 = before.length := by
      rw [Line.number_of_split hlines, Nat.add_sub_cancel]
    have htake : (Line.ofSource source).take before.length = before := by
      rw [hlines, List.take_left]
    have hderived : t.Derived strict := by
      refine State.derived_of_run (fun l hl => ?_) (State.derived_start strict) hrun
      exact Line.not_mem_text (hlines ▸ List.mem_append_left _ hl)
    cases hblames with
    | header hl hc hp hd =>
      cases hd with
      | contextTooDeep hd =>
        refine ⟨(State.categorize_eq_ok_iff.mp hc).1, ?_, ?_⟩
        · show (Line.ofSource source)[place.number - 1]? = some place
          rw [hnumber, hlines, List.getElem?_append_right (Nat.le_refl _), Nat.sub_self]
          rfl
        · show (openAfter strict source (place.number - 1)).countP _ = _
          rw [hnumber, openAfter_eq (s := t) (by rw [htake]; exact hrun), State.headers, hl.verbatim]
          show (t.frames.map (·.header)).countP _ = _
          rw [hderived.frames.countP_header]
          exact Nat.le_antisymm hderived.frames.contextDepth_le hd
  · obtain ⟨header, category, -, he⟩ := State.finish_eq_error_iff.mp hfin
    cases he

/-- Every construct of a document that is read is placed well, and a source with a context call that
is one too deep is refused for this call. -/
theorem nesting_of_parse (strict : Bool) (source : Text) :
    (∀ d, parse strict source = .ok d → ∀ around n, d.At around n → n.Placed around) ∧
      ∀ e, parse strict source = .error e → e.kind = .structural →
        e.message = "context calls nested too deeply".toList →
        Category.ofLine e.place.text = .contextCall ∧
          (Line.ofSource source)[e.lineNumber - 1]? = some e.place ∧
          (openAfter strict source (e.lineNumber - 1)).countP
            (fun l => Category.ofLine l.text == .contextCall) = 128 :=
  ⟨fun _ hd _ _ hn => hn.placed hd, fun _ he => contexts_of_error he⟩

/-- An escape in a definition of a stage, and a trigger in which context calls nest to a depth of 129. -/
theorem nesting_of_parse_escape :
    (∃ d around step, parse true
        "unit A [\nstage [\ndefine a [\nhosted [@\nx\n@]\n]\n]\n]".toList = .ok d ∧
      d.At around (.step step) ∧ (Node.step step).category = .hosted ∧
      (Node.step step).Placed around) ∧
    ∃ e, parse true ("unit A [\nstage [\nwhen x [".toList ++
        (List.replicate 129 "\na [".toList).flatten) = .error e ∧
      e.lineNumber = 132 ∧
      (openAfter true ("unit A [\nstage [\nwhen x [".toList ++
        (List.replicate 129 "\na [".toList).flatten) 131).countP
          (fun l => Category.ofLine l.text == .contextCall) = 128 := by
  refine ⟨?_, ?_⟩
  · obtain ⟨d, definition, step, hd, hcat, ⟨around, hat⟩, hmem⟩ : ∃ d definition step,
        parse true "unit A [\nstage [\ndefine a [\nhosted [@\nx\n@]\n]\n]\n]".toList = .ok d ∧
          (Node.step step).category = .hosted ∧
          (∃ around, d.At around (.definition (.block definition))) ∧
          (Node.definition (.block definition)).contents.Holds (.step step) :=
      ⟨_, _, .hosted none ['x'], rfl, rfl, ⟨_, .inside (n := .definition (.block _))
        (.inside (n := .stage _) (.unit List.mem_cons_self) List.mem_cons_self)
        List.mem_cons_self⟩, List.mem_cons_self⟩
    have hinside := hat.inside hmem
    exact ⟨d, _, step, hd, hinside, hcat, (nesting_of_parse true _).1 d hd _ _ hinside⟩
  · have hdeep : (match parse true ("unit A [\nstage [\nwhen x [".toList ++
          (List.replicate 129 "\na [".toList).flatten) with
        | .error e => e.kind == .structural &&
            e.message == "context calls nested too deeply".toList && e.lineNumber == 132
        | .ok _ => false) = true := by
      decide +kernel
    split at hdeep
    next e he =>
      simp only [Bool.and_eq_true, beq_iff_eq] at hdeep
      obtain ⟨⟨hk, hm⟩, hl⟩ := hdeep
      have hcount := ((nesting_of_parse true _).2 e he hk hm).2.2
      rw [hl] at hcount
      exact ⟨e, he, hl, hcount⟩
    · cases hdeep

end Document
end BlockText
