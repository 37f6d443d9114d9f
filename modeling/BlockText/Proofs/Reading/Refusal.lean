/-
Why a line cannot be taken.

`State.Blames` lists the faults of a line as a whole, each with the condition under which it is found:
a call that a strict reader takes for a header, a line in a place that does not permit it, a header that
is refused for what it says (`Opening.Blames`), and a returns clause where none may stand.
`State.Misreads` lists the texts that a line is read for, each with the reader of names that is at fault
there: the text of a call, what a header says, the captured name of a library, and the clauses of escapes
and of closing lines.

A line that cannot be taken has a fault of the first list or an error of the second
(`State.refusal_of_step`), so its error is told by what the line is and where it stands.
-/
import BlockText.Proofs.Reading.Step

namespace BlockText

/-- The error is one of this line, with a fault of the line as a whole or with an error of a text in it,
out of the given ones. -/
inductive ParseError.Refusal (line : Line) (blames : LineFault → Prop) (misreads : NameError → Prop) :
    ParseError → Prop
  | line {fault : LineFault} (h : blames fault) : Refusal line blames misreads (.line fault line)
  | name {error : NameError} (h : misreads error) : Refusal line blames misreads (.name error line)

namespace ParseError.Refusal

variable {line place : Line} {blames blames' : LineFault → Prop} {misreads misreads' : NameError → Prop}
  {e : ParseError} {fault : LineFault} {error : NameError}

theorem imp (h : Refusal line blames misreads e) (hb : ∀ fault, blames fault → blames' fault)
    (hm : ∀ error, misreads error → misreads' error) : Refusal line blames' misreads' e := by
  cases h with
  | line h => exact .line (hb _ h)
  | name h => exact .name (hm _ h)

theorem line_iff :
    Refusal line blames misreads (.line fault place) ↔ blames fault ∧ place = line := by
  constructor
  · intro h
    cases h with
    | line h => exact ⟨h, rfl⟩
  · rintro ⟨h, rfl⟩
    exact .line h

theorem name_iff :
    Refusal line blames misreads (.name error place) ↔ misreads error ∧ place = line := by
  constructor
  · intro h
    cases h with
    | name h => exact ⟨h, rfl⟩
  · rintro ⟨h, rfl⟩
    exact .name h

theorem of_atLine {α : Type} {r : Except NameError α} (h : Opening.atLine line r = .error e)
    (hm : ∀ error, r = .error error → misreads error) : Refusal line blames misreads e := by
  obtain ⟨error, hr, rfl⟩ := Outcome.mapError_eq_error_iff.mp h
  exact .name (hm error hr)

/-- A clause that may be missing is refused where it stands. -/
theorem of_optional {clause block : Text}
    (h : (if clause.isEmpty then .ok none
      else some <$> Opening.atLine line (Returns.read clause block)) =
        (.error e : Except ParseError (Option Returns)))
    (hm : ∀ error, Returns.read clause block = .error error → misreads error) :
    Refusal line blames misreads e := by
  split at h
  · cases h
  · exact of_atLine (Outcome.map_eq_error_iff.mp h) hm

end ParseError.Refusal

open ParseError (Refusal)

/-! ## Headers and closing lines -/

namespace Opening

/-- The header is refused for what it says, under `depth` open context calls. -/
inductive Blames (depth : Nat) (line : Line) : Category → LineFault → Prop
  | blockListInBlock {s : Signature}
    (h : Signature.read (headerText Category.blockDefinition.opening line) = .ok s)
    (hb : s.blockLists ≠ []) : Blames depth line .blockDefinition .blockListInBlock
  | contextTooDeep (h : maxNesting ≤ depth) : Blames depth line .contextCall .contextTooDeep
  | namelessEvent (h : headerText Category.trigger.opening line = []) :
    Blames depth line .trigger .namelessEvent
  | libraryShape (h : LibraryHeader.ofText? line.trimmed = none) :
    Blames depth line .library .libraryShape
  | libraryHue {header : LibraryHeader} (hs : LibraryHeader.ofText? line.trimmed = some header)
    (hh : header.hueValue? = none) : Blames depth line .library .libraryHue
  | libraryLanguage {header : LibraryHeader}
    (hs : LibraryHeader.ofText? line.trimmed = some header)
    (hl : header.language.isBlank = true) : Blames depth line .library .libraryLanguage

/-- The header of this category has a text in it that is refused as a name. -/
inductive Misreads (line : Line) : Category → NameError → Prop
  | simple {category : Category} {error : NameError}
    (hc : category = .unit ∨ category = .sprite ∨ category = .stage)
    (h : SimpleName.read (headerText category.opening line) = .error error) :
    Misreads line category error
  | library {header : LibraryHeader} {error : NameError}
    (hs : LibraryHeader.ofText? line.trimmed = some header)
    (h : SimpleName.read header.name = .error error) : Misreads line .library error
  | definition {category : Category} {error : NameError}
    (hc : category = .blockDefinition ∨ category = .contextDefinition ∨
      category = .triggerDefinition)
    (h : Signature.read (headerText category.opening line) = .error error) :
    Misreads line category error
  | event (h : Number.isNumeral (headerText Category.trigger.opening line) = true) :
    Misreads line .trigger ⟨.numeric, headerText Category.trigger.opening line, 0⟩
  | contextCall {error : NameError} (h : Call.read (headerText [] line) = .error error) :
    Misreads line .contextCall error

variable {line : Line} {e : ParseError} {depth : Nat}

theorem refusal_of_ofLibraryHeader (h : ofLibraryHeader line = .error e) :
    Refusal line (Blames depth line .library) (Misreads line .library) e := by
  rw [ofLibraryHeader] at h
  split at h
  next hs =>
    cases h
    exact .line (.libraryShape hs)
  next header hs =>
    rcases Outcome.bind_eq_error_iff.mp h with h | ⟨name, -, h⟩
    · exact .of_atLine h fun _ => .library hs
    · split at h
      next hh =>
        cases h
        exact .line (.libraryHue hs hh)
      · split at h
        next hl =>
          cases h
          exact .line (.libraryLanguage hs hl)
        · cases h

theorem refusal_of_ofStageHeader (h : ofStageHeader line = .error e) :
    Refusal line (Blames depth line .stage) (Misreads line .stage) e := by
  rw [ofStageHeader] at h
  split at h
  · cases h
  · rcases Outcome.bind_eq_error_iff.mp h with h | ⟨name, -, h⟩
    · exact .of_atLine h fun _ => .simple (by simp)
    · cases h

theorem refusal_of_ofTriggerHeader (h : ofTriggerHeader line = .error e) :
    Refusal line (Blames depth line .trigger) (Misreads line .trigger) e := by
  rw [ofTriggerHeader] at h
  split at h
  next he =>
    cases h
    exact .line (.namelessEvent (List.isEmpty_iff.mp he))
  · split at h
    next hn =>
      cases h
      exact .name (.event hn)
    · cases h

theorem refusal_of_ofBlockHeader (h : ofBlockHeader line = .error e) :
    Refusal line (Blames depth line .blockDefinition) (Misreads line .blockDefinition) e := by
  rcases Outcome.bind_eq_error_iff.mp h with h | ⟨s, hs, h⟩
  · exact .of_atLine h fun _ => .definition (by simp)
  · split at h
    · cases h
    next hb =>
      cases h
      exact .line (.blockListInBlock (atLine_eq_ok_iff.mp hs) (mt List.isEmpty_iff.mpr hb))

theorem refusal_of_ofContextHeader (h : ofContextHeader depth line = .error e) :
    Refusal line (Blames depth line .contextCall) (Misreads line .contextCall) e := by
  rw [ofContextHeader] at h
  split at h
  next hd =>
    cases h
    exact .line (.contextTooDeep hd)
  · rcases Outcome.bind_eq_error_iff.mp h with h | ⟨call, -, h⟩
    · exact .of_atLine h fun _ => .contextCall
    · cases h

theorem refusal_of_ofHeader {category : Category} (h : ofHeader category depth line = .error e) :
    Refusal line (Blames depth line category) (Misreads line category) e := by
  cases category with
  | blank | comment | hosted | stepCall | sounds | costumes => cases h
  | library => exact refusal_of_ofLibraryHeader (Outcome.map_eq_error_iff.mp h)
  | stage => exact refusal_of_ofStageHeader (Outcome.map_eq_error_iff.mp h)
  | trigger => exact refusal_of_ofTriggerHeader (Outcome.map_eq_error_iff.mp h)
  | blockDefinition => exact refusal_of_ofBlockHeader (Outcome.map_eq_error_iff.mp h)
  | contextCall => exact refusal_of_ofContextHeader (Outcome.map_eq_error_iff.mp h)
  | unit | sprite =>
    rcases Outcome.bind_eq_error_iff.mp h with h | ⟨name, -, h⟩
    · exact .of_atLine h fun _ => .simple (by simp)
    · cases h
  | contextDefinition | triggerDefinition =>
    rcases Outcome.bind_eq_error_iff.mp h with h | ⟨s, -, h⟩
    · exact .of_atLine h fun _ => .definition (by simp)
    · cases h

/-- A closing line is refused for what it has behind its brackets: the clause of a definition, or
anything at all in a trigger definition. -/
theorem refusal_of_close {o : Opening} {b : Contents} (h : o.close b line = .error e) :
    Refusal line
      (fun fault =>
        fault = .triggerReturns ∧ o.category = .triggerDefinition ∧ line.trimmed ≠ [']'])
      (fun error =>
        ∃ block, Returns.read (Text.trim (line.trimmed.dropWhile (· == ']'))) block = .error error)
      e := by
  cases o with
  | blockDefinition s | contextDefinition s =>
    rcases Outcome.bind_eq_error_iff.mp h with h | ⟨returns, -, h⟩
    · exact .of_optional h fun _ h => ⟨s.name, h⟩
    · cases h
  | triggerDefinition s =>
    rw [close] at h
    split at h
    · cases h
    next hl =>
      cases h
      exact .line ⟨rfl, rfl, by simpa using hl⟩
  | _ => cases h

end Opening

/-! ## Lines -/

namespace State

/-- The line is refused as a whole, with this fault. -/
inductive Blames (strict : Bool) (s : State) (line : Line) : LineFault → Prop
  | malformed {keyword : Keyword} (hl : s.Free line) (hs : strict = true)
    (hc : Category.ofLine line.text = .contextCall ∨ Category.ofLine line.text = .stepCall)
    (hk : Keyword.heading? line.trimmed = some keyword) :
    Blames strict s line (.malformedHeader keyword)
  | misplaced {category : Category} (hl : s.Free line)
    (hc : categorize strict line = .ok category) (hb : category ≠ .blank)
    (hp : Category.permits s.parent category = false) :
    Blames strict s line (.misplaced category s.parent)
  | header {category : Category} {fault : LineFault} (hl : s.Free line)
    (hc : categorize strict line = .ok category)
    (hp : Category.permits s.parent category = true)
    (h : Opening.Blames s.contextDepth line category fault) : Blames strict s line fault
  | triggerReturns {f : Frame} {rest : List Frame} (hv : s.verbatim = none)
    (hf : s.frames = f :: rest) (ho : f.opening.category = .triggerDefinition)
    (hc : f.opening.closesOn line.trimmed = true) (hl : line.trimmed ≠ [']']) :
    Blames strict s line .triggerReturns

/-- The line has a text in it that is refused as a name, with this error. -/
inductive Misreads (s : State) (line : Line) : NameError → Prop
  | step {error : NameError} (hl : s.Free line) (hc : Category.ofLine line.text = .stepCall)
    (h : Call.read line.trimmed = .error error) : Misreads s line error
  | header {error : NameError} (hl : s.Free line)
    (h : Opening.Misreads line (Category.ofLine line.text) error) : Misreads s line error
  | hosted {error : NameError} (hl : s.Free line) (hc : Category.ofLine line.text = .hosted)
    (h : Returns.read (hostedClause line.trimmed) s.block = .error error) : Misreads s line error
  | closing {error : NameError} {block : Text} (hc : s.closedBy line.trimmed = true)
    (h : Returns.read (Text.trim (line.trimmed.dropWhile (· == ']'))) block = .error error) :
    Misreads s line error

variable {strict : Bool} {s : State} {line place : Line} {e : ParseError}

/-- Only a strict reader refuses a line for its category. -/
theorem refusal_of_categorize (hl : s.Free line) (h : categorize strict line = .error e) :
    Refusal line (Blames strict s line) (s.Misreads line) e := by
  rw [categorize] at h
  split at h
  next hs =>
    rw [Bool.and_eq_true, Bool.or_eq_true, beq_iff_eq, beq_iff_eq] at hs
    split at h
    next hk =>
      cases h
      exact .line (.malformed hl hs.1 hs.2 hk)
    · cases h
  · cases h

theorem refusal_of_enter (hl : s.Free line) (h : s.enter strict line = .error e) :
    Refusal line (Blames strict s line) (s.Misreads line) e := by
  cases hc : categorize strict line with
  | error e' =>
    rw [enter_of_refused hc] at h
    cases h
    exact refusal_of_categorize hl hc
  | ok category =>
    obtain ⟨hof, -⟩ := categorize_eq_ok_iff.mp hc
    by_cases hb : category = .blank
    · subst hb
      rw [enter_blank hc] at h
      cases h
    cases hp : Category.permits s.parent category with
    | false =>
      rw [enter_misplaced hc hb hp] at h
      cases h
      exact .line (.misplaced hl hc hb hp)
    | true =>
      rcases Opening.opens_or category with rfl | rfl | rfl | rfl | ho
      · exact absurd rfl hb
      · rw [enter_comment hc hp] at h
        cases h
      · rw [enter_stepCall hc hp, Outcome.map_eq_error_iff] at h
        exact .of_atLine h fun _ => .step hl hof
      · rw [enter_hosted hc hp, Outcome.map_eq_error_iff] at h
        exact .of_optional h fun _ => .hosted hl hof
      · rw [enter_opens ho hc hp, Outcome.map_eq_error_iff] at h
        exact (Opening.refusal_of_ofHeader h).imp (fun _ => .header hl hc hp)
          fun _ h => .header hl (hof ▸ h)

/-- A line that cannot be taken has a fault as a whole whose condition it meets, or has a text in it
that is refused as a name. -/
theorem refusal_of_step (h : s.step strict line = .error e) :
    Refusal line (Blames strict s line) (s.Misreads line) e := by
  rcases way s line with ⟨header, v, hv⟩ | ⟨f, rest, hv, hf, hc⟩ | hl
  · rw [step_resume hv] at h
    cases h
  · rw [step_close hv hf hc, Outcome.map_eq_error_iff] at h
    refine (Opening.refusal_of_close h).imp ?_ ?_
    · rintro _ ⟨rfl, ho, hl⟩
      exact .triggerReturns hv hf ho hc hl
    · rintro error ⟨block, h⟩
      exact .closing (by rw [closedBy, hf]; exact hc) h
  · rw [step_enter hl] at h
    exact refusal_of_enter hl h

theorem blames_of_step {fault : LineFault} (h : s.step strict line = .error (.line fault place)) :
    Blames strict s line fault ∧ place = line :=
  Refusal.line_iff.mp (refusal_of_step h)

theorem misreads_of_step {error : NameError} (h : s.step strict line = .error (.name error place)) :
    s.Misreads line error ∧ place = line :=
  Refusal.name_iff.mp (refusal_of_step h)

end State
end BlockText
