/-
What headers and closing lines say.

`Opening.Says` lists what a header has to say for each construct that it can open, and
`ofHeader_eq_ok_iff` says that a header of a category opens exactly what it says.

The readers of this file look at the trimmed text of their line only, and the line itself goes into
their errors and nowhere else.  `ParseError.on` puts an error on another line; reading a line with
the same trimmed text gives the same outcome with the error put there (`ofHeader_on`, `close_on`,
`hostedReturns_on`, `categorize_on`).
-/
import BlockText.Reading.Parse
import BlockText.Proofs.Outcome

namespace BlockText
namespace Opening

/-! ## What a header says -/

theorem atLine_eq_ok_iff {α : Type} {line : Line} {r : Except NameError α} {x : α} :
    atLine line r = .ok x ↔ r = .ok x :=
  Outcome.mapError_eq_ok_iff

/-- The categories of the headers that open something with contents. -/
def Opens (category : Category) : Prop :=
  category ≠ .blank ∧ category ≠ .comment ∧ category ≠ .hosted ∧ category ≠ .stepCall

/-- Every category is blank, a comment, a call, an escape, or that of a header with contents. -/
theorem opens_or (category : Category) :
    category = .blank ∨ category = .comment ∨ category = .stepCall ∨ category = .hosted ∨
      Opens category := by
  by_cases hb : category = .blank
  · exact Or.inl hb
  by_cases hc : category = .comment
  · exact Or.inr (Or.inl hc)
  by_cases hs : category = .stepCall
  · exact Or.inr (Or.inr (Or.inl hs))
  by_cases hh : category = .hosted
  · exact Or.inr (Or.inr (Or.inr (Or.inl hh)))
  · exact Or.inr (Or.inr (Or.inr (Or.inr ⟨hb, hc, hh, hs⟩)))

theorem opens_category (o : Opening) : Opens o.category := by
  cases o <;> simp [Opens, category]

/-- The header on `line`, under `depth` open context calls, says this. -/
inductive Says (depth : Nat) (line : Line) : Opening → Prop
  | unit {name : Text} (h : SimpleName.read (headerText Category.unit.opening line) = .ok name) :
    Says depth line (unit name)
  | library {header : LibraryHeader} {name : Text} {hue : Int64}
    (hs : LibraryHeader.ofText? line.trimmed = some header)
    (hn : SimpleName.read header.name = .ok name) (hh : header.hueValue? = some hue)
    (hl : header.language.isBlank = false) :
    Says depth line (library name hue header.language.trim)
  | sprite {name : Text}
    (h : SimpleName.read (headerText Category.sprite.opening line) = .ok name) :
    Says depth line (sprite name)
  | nameless (h : headerText Category.stage.opening line = []) : Says depth line (stage none)
  | stage {name : Text}
    (h : SimpleName.read (headerText Category.stage.opening line) = .ok name) :
    Says depth line (stage (some name))
  | sounds : Says depth line sounds
  | costumes : Says depth line costumes
  | blockDefinition {s : Signature}
    (h : Signature.read (headerText Category.blockDefinition.opening line) = .ok s)
    (hb : s.blockLists = []) : Says depth line (blockDefinition s)
  | contextDefinition {s : Signature}
    (h : Signature.read (headerText Category.contextDefinition.opening line) = .ok s) :
    Says depth line (contextDefinition s)
  | triggerDefinition {s : Signature}
    (h : Signature.read (headerText Category.triggerDefinition.opening line) = .ok s) :
    Says depth line (triggerDefinition s)
  | trigger (hne : headerText Category.trigger.opening line ≠ [])
    (hn : Number.isNumeral (headerText Category.trigger.opening line) = false) :
    Says depth line (trigger (headerText Category.trigger.opening line))
  | contextCall {call : Call} (hd : depth < maxNesting)
    (h : Call.read (headerText [] line) = .ok call) : Says depth line (contextCall call)

theorem ofLibraryHeader_eq_ok_iff {depth : Nat} {line : Line} {o : Opening} :
    ofLibraryHeader line = .ok o ↔ o.category = .library ∧ Says depth line o := by
  rw [ofLibraryHeader]
  constructor
  · intro h
    split at h
    · cases h
    next header hs =>
      obtain ⟨name, hn, h⟩ := Outcome.bind_eq_ok_iff.mp h
      split at h
      · cases h
      next hue hh =>
        split at h
        · cases h
        next hl =>
          cases h
          exact ⟨rfl, .library hs (atLine_eq_ok_iff.mp hn) hh (by simpa using hl)⟩
  · rintro ⟨hc, h⟩
    cases h with
    | library hs hn hh hl =>
      rw [hs]
      simp only [hh, hl, Bool.false_eq_true, if_false]
      exact Outcome.bind_eq_ok_iff.mpr ⟨_, atLine_eq_ok_iff.mpr hn, rfl⟩
    | _ => cases hc

theorem ofStageHeader_eq_ok_iff {depth : Nat} {line : Line} {o : Opening} :
    ofStageHeader line = .ok o ↔ o.category = .stage ∧ Says depth line o := by
  rw [ofStageHeader]
  constructor
  · intro h
    split at h
    next he =>
      cases h
      exact ⟨rfl, .nameless (List.isEmpty_iff.mp he)⟩
    · obtain ⟨name, hn, h⟩ := Outcome.bind_eq_ok_iff.mp h
      cases h
      exact ⟨rfl, .stage (atLine_eq_ok_iff.mp hn)⟩
  · rintro ⟨hc, h⟩
    cases h with
    | nameless h => rw [h]; rfl
    | stage h =>
      split
      next he =>
        rw [List.isEmpty_iff.mp he] at h
        cases h
      · exact Outcome.bind_eq_ok_iff.mpr ⟨_, atLine_eq_ok_iff.mpr h, rfl⟩
    | _ => cases hc

theorem ofTriggerHeader_eq_ok_iff {depth : Nat} {line : Line} {o : Opening} :
    ofTriggerHeader line = .ok o ↔ o.category = .trigger ∧ Says depth line o := by
  rw [ofTriggerHeader]
  constructor
  · intro h
    split at h
    · cases h
    next he =>
      split at h
      · cases h
      next hn =>
        cases h
        exact ⟨rfl, .trigger (by simpa using he) (by simpa using hn)⟩
  · rintro ⟨hc, h⟩
    cases h with
    | trigger hne hn => rw [if_neg (by simpa using hne), if_neg (by simpa using hn)]
    | _ => cases hc

theorem ofBlockHeader_eq_ok_iff {depth : Nat} {line : Line} {o : Opening} :
    ofBlockHeader line = .ok o ↔ o.category = .blockDefinition ∧ Says depth line o := by
  rw [ofBlockHeader]
  constructor
  · intro h
    obtain ⟨s, hs, h⟩ := Outcome.bind_eq_ok_iff.mp h
    split at h
    next hb =>
      cases h
      exact ⟨rfl, .blockDefinition (atLine_eq_ok_iff.mp hs) (List.isEmpty_iff.mp hb)⟩
    · cases h
  · rintro ⟨hc, h⟩
    cases h with
    | blockDefinition h hb =>
      refine Outcome.bind_eq_ok_iff.mpr ⟨_, atLine_eq_ok_iff.mpr h, ?_⟩
      rw [if_pos (List.isEmpty_iff.mpr hb)]
    | _ => cases hc

theorem ofContextHeader_eq_ok_iff {depth : Nat} {line : Line} {o : Opening} :
    ofContextHeader depth line = .ok o ↔ o.category = .contextCall ∧ Says depth line o := by
  rw [ofContextHeader]
  constructor
  · intro h
    split at h
    · cases h
    next hd =>
      obtain ⟨call, hr, h⟩ := Outcome.bind_eq_ok_iff.mp h
      cases h
      exact ⟨rfl, .contextCall (by omega) (atLine_eq_ok_iff.mp hr)⟩
  · rintro ⟨hc, h⟩
    cases h with
    | contextCall hd h =>
      rw [if_neg (by omega)]
      exact Outcome.bind_eq_ok_iff.mpr ⟨_, atLine_eq_ok_iff.mpr h, rfl⟩
    | _ => cases hc

/-- A header that a text opens through one reader says what that reader gives. -/
theorem some_map_eq_ok_iff {r : Except ParseError Opening} {o : Opening} :
    (some <$> r) = .ok (some o) ↔ r = .ok o := by
  show r.map some = _ ↔ _
  rw [Outcome.map_eq_ok_iff]
  constructor
  · rintro ⟨x, hx, ho⟩
    cases ho
    exact hx
  · exact fun h => ⟨o, h, rfl⟩

/-- A header with contents opens something or is at fault. -/
theorem ofHeader_ne_none {category : Category} {depth : Nat} {line : Line} (h : Opens category) :
    ofHeader category depth line ≠ .ok none := by
  obtain ⟨hb, hc, hh, hs⟩ := h
  have hmap : ∀ r : Except ParseError Opening, some <$> r ≠ .ok none := by
    intro r hr
    obtain ⟨o, -, ho⟩ := Outcome.map_eq_ok_iff.mp hr
    cases ho
  cases category with
  | blank => exact absurd rfl hb
  | comment => exact absurd rfl hc
  | hosted => exact absurd rfl hh
  | stepCall => exact absurd rfl hs
  | sounds | costumes => exact fun hr => nomatch hr
  | library | stage | trigger | blockDefinition | contextCall => exact hmap _
  | unit | sprite | contextDefinition | triggerDefinition =>
    intro hr
    obtain ⟨x, -, hx⟩ := Outcome.bind_eq_ok_iff.mp hr
    cases hx

/-- A header opens what it says. -/
theorem ofHeader_eq_ok_iff {category : Category} {depth : Nat} {line : Line} {o : Opening} :
    ofHeader category depth line = .ok (some o) ↔ o.category = category ∧ Says depth line o := by
  cases category with
  | blank | comment | hosted | stepCall =>
    refine ⟨fun h => ?_, fun h => ?_⟩
    · cases h
    · cases o <;> cases h.1
  | library => exact some_map_eq_ok_iff.trans ofLibraryHeader_eq_ok_iff
  | stage => exact some_map_eq_ok_iff.trans ofStageHeader_eq_ok_iff
  | trigger => exact some_map_eq_ok_iff.trans ofTriggerHeader_eq_ok_iff
  | blockDefinition => exact some_map_eq_ok_iff.trans ofBlockHeader_eq_ok_iff
  | contextCall => exact some_map_eq_ok_iff.trans ofContextHeader_eq_ok_iff
  | sounds =>
    refine ⟨fun h => ?_, fun ⟨hc, h⟩ => ?_⟩
    · cases h
      exact ⟨rfl, .sounds⟩
    · cases h <;> first | rfl | cases hc
  | costumes =>
    refine ⟨fun h => ?_, fun ⟨hc, h⟩ => ?_⟩
    · cases h
      exact ⟨rfl, .costumes⟩
    · cases h <;> first | rfl | cases hc
  | unit =>
    refine ⟨fun h => ?_, fun ⟨hc, h⟩ => ?_⟩
    · obtain ⟨name, hn, h⟩ := Outcome.bind_eq_ok_iff.mp h
      cases h
      exact ⟨rfl, .unit (atLine_eq_ok_iff.mp hn)⟩
    · cases h with
      | unit h => exact Outcome.bind_eq_ok_iff.mpr ⟨_, atLine_eq_ok_iff.mpr h, rfl⟩
      | _ => cases hc
  | sprite =>
    refine ⟨fun h => ?_, fun ⟨hc, h⟩ => ?_⟩
    · obtain ⟨name, hn, h⟩ := Outcome.bind_eq_ok_iff.mp h
      cases h
      exact ⟨rfl, .sprite (atLine_eq_ok_iff.mp hn)⟩
    · cases h with
      | sprite h => exact Outcome.bind_eq_ok_iff.mpr ⟨_, atLine_eq_ok_iff.mpr h, rfl⟩
      | _ => cases hc
  | contextDefinition =>
    refine ⟨fun h => ?_, fun ⟨hc, h⟩ => ?_⟩
    · obtain ⟨s, hs, h⟩ := Outcome.bind_eq_ok_iff.mp h
      cases h
      exact ⟨rfl, .contextDefinition (atLine_eq_ok_iff.mp hs)⟩
    · cases h with
      | contextDefinition h => exact Outcome.bind_eq_ok_iff.mpr ⟨_, atLine_eq_ok_iff.mpr h, rfl⟩
      | _ => cases hc
  | triggerDefinition =>
    refine ⟨fun h => ?_, fun ⟨hc, h⟩ => ?_⟩
    · obtain ⟨s, hs, h⟩ := Outcome.bind_eq_ok_iff.mp h
      cases h
      exact ⟨rfl, .triggerDefinition (atLine_eq_ok_iff.mp hs)⟩
    · cases h with
      | triggerDefinition h => exact Outcome.bind_eq_ok_iff.mpr ⟨_, atLine_eq_ok_iff.mpr h, rfl⟩
      | _ => cases hc

/-! ## What a closing line finishes -/

/-- The closing line finishes this construct, of these contents. -/
inductive Finishes (b : Contents) (line : Line) : Opening → Node → Prop
  | unit (name : Text) : Finishes b line (unit name)
    (.unit ⟨name, b.comments, b.libraries, b.sprites, b.stages⟩)
  | library (name : Text) (hue : Int64) (language : Text) :
    Finishes b line (library name hue language)
      (.library ⟨name, hue, language, b.comments, b.definitions⟩)
  | sprite (name : Text) : Finishes b line (sprite name) (.sprite ⟨name, b.actor⟩)
  | stage (name : Option Text) : Finishes b line (stage name) (.stage ⟨name, b.actor⟩)
  | blockDefinition {s : Signature} {returns : Option Returns}
    (h : closingReturns s.name line = .ok returns) : Finishes b line (blockDefinition s)
      (.definition (.block ⟨s.name, s.params, b.steps, returns, b.comments⟩))
  | contextDefinition {s : Signature} {returns : Option Returns}
    (h : closingReturns s.name line = .ok returns) : Finishes b line (contextDefinition s)
      (.definition (.context ⟨s.name, s.params, s.blockLists, b.steps, returns, b.comments⟩))
  | triggerDefinition {s : Signature} (h : line.trimmed = [']']) :
    Finishes b line (triggerDefinition s)
      (.definition (.trigger ⟨s.name, s.params, s.blockLists, b.steps, b.comments⟩))
  | trigger (event : Text) : Finishes b line (trigger event) (.trigger ⟨event, b.steps, b.comments⟩)
  | contextCall (call : Call) : Finishes b line (contextCall call)
    (.step (.context call.name call.args b.steps b.comments))

theorem close_eq_some_iff {o : Opening} {b : Contents} {line : Line} {node : Node} :
    o.close b line = .ok (some node) ↔ Finishes b line o node := by
  constructor
  · intro h
    cases o with
    | sounds | costumes => cases h
    | unit name => cases h; exact .unit name
    | library name hue language => cases h; exact .library name hue language
    | sprite name => cases h; exact .sprite name
    | stage name => cases h; exact .stage name
    | blockDefinition s =>
      obtain ⟨returns, hr, h⟩ := Outcome.bind_eq_ok_iff.mp h
      cases h
      exact .blockDefinition hr
    | contextDefinition s =>
      obtain ⟨returns, hr, h⟩ := Outcome.bind_eq_ok_iff.mp h
      cases h
      exact .contextDefinition hr
    | triggerDefinition s =>
      rw [close] at h
      split at h
      next hl =>
        cases h
        exact .triggerDefinition (beq_iff_eq.mp hl)
      · cases h
    | trigger event => cases h; exact .trigger event
    | contextCall call => cases h; exact .contextCall call
  · intro h
    cases h with
    | blockDefinition hr => exact Outcome.bind_eq_ok_iff.mpr ⟨_, hr, rfl⟩
    | contextDefinition hr => exact Outcome.bind_eq_ok_iff.mpr ⟨_, hr, rfl⟩
    | triggerDefinition hl => rw [close, if_pos (beq_iff_eq.mpr hl)]
    | _ => rfl

end Opening

/-! ## The line of an error -/

/-- The error on another line. -/
def ParseError.on (e : ParseError) (line : Line) : ParseError :=
  match e with
  | .line fault _ => .line fault line
  | .name error _ => .name error line

namespace Opening

variable {line line' : Line}

theorem atLine_on {α : Type} (line line' : Line) (r : Except NameError α) :
    atLine line' r = (atLine line r).mapError (·.on line') := by
  cases r <;> rfl

theorem headerText_congr (h : line'.trimmed = line.trimmed) (opening : Text) :
    headerText opening line' = headerText opening line := by
  rw [headerText, headerText, h]

theorem ofLibraryHeader_on (h : line'.trimmed = line.trimmed) :
    ofLibraryHeader line' = (ofLibraryHeader line).mapError (·.on line') := by
  rw [ofLibraryHeader, ofLibraryHeader, h]
  cases LibraryHeader.ofText? line.trimmed with
  | none => rfl
  | some header =>
    show atLine line' _ >>= _ = (atLine line _ >>= _).mapError _
    rw [Outcome.mapError_bind, ← atLine_on]
    refine congrArg _ (funext fun name => ?_)
    cases header.hueValue? with
    | none => rfl
    | some hue =>
      by_cases hl : header.language.isBlank = true
      · simp only [hl, if_true]
        rfl
      · simp only [hl, if_false, Bool.false_eq_true]
        rfl

theorem ofStageHeader_on (h : line'.trimmed = line.trimmed) :
    ofStageHeader line' = (ofStageHeader line).mapError (·.on line') := by
  rw [ofStageHeader, ofStageHeader, headerText_congr h]
  by_cases he : (headerText Category.stage.opening line).isEmpty = true
  · simp only [he, if_true]
    rfl
  · simp only [he, if_false, Bool.false_eq_true]
    rw [Outcome.mapError_bind, ← atLine_on]
    rfl

theorem ofTriggerHeader_on (h : line'.trimmed = line.trimmed) :
    ofTriggerHeader line' = (ofTriggerHeader line).mapError (·.on line') := by
  rw [ofTriggerHeader, ofTriggerHeader, headerText_congr h]
  by_cases he : (headerText Category.trigger.opening line).isEmpty = true
  · simp only [he, if_true]
    rfl
  · simp only [he, if_false, Bool.false_eq_true]
    by_cases hn : Number.isNumeral (headerText Category.trigger.opening line) = true
    · simp only [hn, if_true]
      rfl
    · simp only [hn, if_false, Bool.false_eq_true]
      rfl

theorem signature_on (h : line'.trimmed = line.trimmed) (category : Category) :
    signature category line' = (signature category line).mapError (·.on line') := by
  rw [signature, signature, headerText_congr h, ← atLine_on]

theorem ofBlockHeader_on (h : line'.trimmed = line.trimmed) :
    ofBlockHeader line' = (ofBlockHeader line).mapError (·.on line') := by
  rw [ofBlockHeader, ofBlockHeader, Outcome.mapError_bind, signature_on h]
  refine congrArg _ (funext fun s => ?_)
  by_cases hb : s.blockLists.isEmpty = true
  · simp only [hb, if_true]
    rfl
  · simp only [hb, if_false, Bool.false_eq_true]
    rfl

theorem ofContextHeader_on (h : line'.trimmed = line.trimmed) (depth : Nat) :
    ofContextHeader depth line' = (ofContextHeader depth line).mapError (·.on line') := by
  rw [ofContextHeader, ofContextHeader, headerText_congr h]
  by_cases hd : maxNesting ≤ depth
  · simp only [hd, if_true]
    rfl
  · simp only [hd, if_false]
    rw [Outcome.mapError_bind, ← atLine_on]
    rfl

/-- A header is read by its trimmed text alone. -/
theorem ofHeader_on (h : line'.trimmed = line.trimmed) (category : Category) (depth : Nat) :
    ofHeader category depth line' = (ofHeader category depth line).mapError (·.on line') := by
  have hmap : ∀ {r r' : Except ParseError Opening}, r' = r.mapError (·.on line') →
      some <$> r' = (some <$> r).mapError (·.on line') := by
    intro r r' hr
    rw [hr]
    exact (Outcome.mapError_map r).symm
  cases category with
  | blank | comment | hosted | stepCall | sounds | costumes => rfl
  | library => exact hmap (ofLibraryHeader_on h)
  | stage => exact hmap (ofStageHeader_on h)
  | trigger => exact hmap (ofTriggerHeader_on h)
  | blockDefinition => exact hmap (ofBlockHeader_on h)
  | contextCall => exact hmap (ofContextHeader_on h depth)
  | unit | sprite =>
    rw [ofHeader, ofHeader, headerText_congr h, Outcome.mapError_bind, ← atLine_on]
    rfl
  | contextDefinition | triggerDefinition =>
    rw [ofHeader, ofHeader, signature_on h, Outcome.mapError_bind]
    rfl

theorem closingReturns_on (h : line'.trimmed = line.trimmed) (block : Text) :
    closingReturns block line' = (closingReturns block line).mapError (·.on line') := by
  rw [closingReturns, closingReturns, h]
  by_cases he : (Text.trim (line.trimmed.dropWhile (· == ']'))).isEmpty = true
  · simp only [he, if_true]
    rfl
  · simp only [he, if_false, Bool.false_eq_true]
    rw [atLine_on line line']
    exact (Outcome.mapError_map _).symm

/-- A closing line is read by its trimmed text alone. -/
theorem close_on (h : line'.trimmed = line.trimmed) (o : Opening) (b : Contents) :
    o.close b line' = (o.close b line).mapError (·.on line') := by
  cases o with
  | blockDefinition s | contextDefinition s =>
    rw [close, close, closingReturns_on h, Outcome.mapError_bind]
    rfl
  | triggerDefinition s =>
    rw [close, close, h]
    split <;> rfl
  | _ => rfl

end Opening

/-- The header of an escape is read by its trimmed text alone. -/
theorem hostedReturns_on {line line' : Line} (h : line'.trimmed = line.trimmed) (block : Text) :
    hostedReturns block line' = (hostedReturns block line).mapError (·.on line') := by
  rw [hostedReturns, hostedReturns, h]
  by_cases he : (hostedClause line.trimmed).isEmpty = true
  · simp only [he, if_true]
    rfl
  · simp only [he, if_false, Bool.false_eq_true]
    rw [Opening.atLine_on line line']
    exact (Outcome.mapError_map _).symm

/-- A line that is taken as it is, is taken by its text alone. -/
theorem Verbatim.take_congr {line line' : Line} (h : line'.text = line.text) (v : Verbatim) :
    v.take line' = v.take line := by
  rw [take.eq_def, take.eq_def, Line.trimmed, Line.trimmed, h]

theorem Category.ofLine_congr {line line' : Line} (h : line'.trimmed = line.trimmed) :
    Category.ofLine line'.text = Category.ofLine line.text := by
  have ha : ∀ category : Category, category.accepts line'.text = category.accepts line.text := by
    intro category
    rw [Category.accepts, Category.accepts]
    exact congrArg category.acceptsTrimmed h
  rw [Category.ofLine, Category.ofLine, Category.firstOf, Category.firstOf]
  simp only [ha]

/-- The category of a line is told from its trimmed text alone. -/
theorem State.categorize_on {line line' : Line} (h : line'.trimmed = line.trimmed)
    (strict : Bool) :
    State.categorize strict line' = (State.categorize strict line).mapError (·.on line') := by
  rw [State.categorize, State.categorize, Category.ofLine_congr h, h]
  split
  · cases Keyword.heading? line.trimmed <;> rfl
  · rfl

/-- A line has a category unless it is a call that a strict reader takes for a header. -/
theorem State.categorize_eq_ok_iff {strict : Bool} {line : Line} {category : Category} :
    State.categorize strict line = .ok category ↔
      Category.ofLine line.text = category ∧
        (strict = true → category = .contextCall ∨ category = .stepCall →
          Keyword.heading? line.trimmed = none) := by
  have hcall : ∀ c : Category, (c == .contextCall || c == .stepCall) = true ↔
      c = .contextCall ∨ c = .stepCall := by
    intro c
    rw [Bool.or_eq_true, beq_iff_eq, beq_iff_eq]
  rw [State.categorize]
  by_cases hs : (strict && (Category.ofLine line.text == .contextCall ||
      Category.ofLine line.text == .stepCall)) = true
  · simp only [hs, if_true]
    rw [Bool.and_eq_true, hcall] at hs
    cases hk : Keyword.heading? line.trimmed with
    | none =>
      refine ⟨fun h => ⟨Except.ok.inj h, fun _ _ => rfl⟩, fun h => congrArg _ h.1⟩
    | some k =>
      refine ⟨fun h => (by cases h), fun h => ?_⟩
      cases h.2 hs.1 (h.1 ▸ hs.2)
  · simp only [hs, Bool.false_eq_true, if_false]
    rw [Bool.and_eq_true, hcall] at hs
    refine ⟨fun h => ⟨Except.ok.inj h, fun hst hc => ?_⟩, fun h => congrArg _ h.1⟩
    exact absurd ⟨hst, (Except.ok.inj h).symm ▸ hc⟩ hs

end BlockText
