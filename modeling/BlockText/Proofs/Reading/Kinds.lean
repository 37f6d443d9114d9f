/-
Kinds of errors and the characters that they show.

An error in a name shows a character, and an error of the line as a whole shows none.  The kinds go
along with this, but for one fault: the header of a trigger that names no event is refused with an
error in a name that is one of the whole line, though the same header with a numeral for an event, or
the header of a unit without a name, is refused at a character.

`Line.Nameless` are these headers.  Such a line is never refused at a character (`line_of_nameless`),
and no other line is refused for the want of an event (`nameless_of_step`), so that they are the only
exception (`Document.error_index_iff`).
-/
import BlockText.Proofs.Reading.Fault
import BlockText.Proofs.Reading.Online
import BlockText.Proofs.Print.Header

namespace BlockText

/-- The line is the header of a trigger and names no event. -/
structure Line.Nameless (line : Line) : Prop where
  category : Category.ofLine line.text = .trigger
  event : Opening.headerText Category.trigger.opening line = []

/-- Of the faults of a line as a whole, the missing event alone is counted as one of a name. -/
theorem LineFault.kind_eq_nameSyntax_iff {fault : LineFault} :
    fault.kind = .nameSyntax ↔ fault = .namelessEvent := by
  cases fault <;> simp [kind]

namespace Opening

variable {line : Line} {fault : LineFault} {depth : Nat}

/-- The header of a trigger closes nothing. -/
theorem not_closesOn_of_trigger (hc : Category.ofLine line.text = .trigger) (o : Opening) :
    o.closesOn line.trimmed = false := by
  have ha := Category.acceptsTrimmed_of_ofLine hc (by decide)
  change (_ && _) = true at ha
  rw [Bool.and_eq_true, List.isPrefixOf_iff_prefix] at ha
  obtain ⟨rest, hrest⟩ := ha.1
  rw [← hrest]
  cases o <;> rfl

theorem ofHeader_of_nameless (h : line.Nameless) :
    ofHeader .trigger depth line = .error (.line .namelessEvent line) := by
  rw [ofHeader, ofTriggerHeader, h.event]
  rfl

theorem nameless_of_blames {category : Category} (h : Blames depth line category .namelessEvent)
    (hc : Category.ofLine line.text = category) : line.Nameless := by
  cases h with
  | namelessEvent he => exact ⟨hc, he⟩

end Opening

namespace State

variable {strict : Bool} {s : State} {line place : Line}

/-- A header of a trigger that names no event is refused as a whole, wherever it stands. -/
theorem line_of_nameless {e : ParseError} (hl : line.Nameless)
    (h : s.step strict line = .error e) : ∃ fault, e = .line fault line := by
  rcases way s line with ⟨header, v, hv⟩ | ⟨f, rest, hv, hf, hc⟩ | hfree
  · rw [step_resume hv] at h
    cases h
  · rw [Opening.not_closesOn_of_trigger hl.category] at hc
    cases hc
  have hc : categorize strict line = .ok .trigger :=
    categorize_eq_ok_iff.mpr ⟨hl.category, fun _ hcall => by rcases hcall with hc | hc <;> cases hc⟩
  rw [step_enter hfree] at h
  cases hp : Category.permits s.parent .trigger with
  | false =>
    rw [enter_misplaced hc (by decide) hp] at h
    cases h
    exact ⟨_, rfl⟩
  | true =>
    rw [enter_opens (by simp [Opening.Opens]) hc hp, Opening.ofHeader_of_nameless hl] at h
    cases h
    exact ⟨_, rfl⟩

/-- A line that is refused for the want of an event is the header of a trigger that names none. -/
theorem nameless_of_step (h : s.step strict line = .error (.line .namelessEvent place)) :
    line.Nameless := by
  cases (blames_of_step h).1 with
  | header hl hc hp hb => exact Opening.nameless_of_blames hb (categorize_eq_ok_iff.mp hc).1

end State

namespace ParseError

/-- The index that an error has, told from its kind and its line. -/
structure Shaped (e : ParseError) : Prop where
  isSome_iff : e.index?.isSome = true ↔ e.kind = .nameSyntax ∧ ¬ e.place.Nameless
  /-- Errors in names without an index are those of triggers without an event. -/
  exception : e.kind = .nameSyntax → e.place.Nameless → e = .line .namelessEvent e.place

/-- An error of a whole line has the right shape if its line names no event wherever that is its
fault. -/
theorem shaped_line {fault : LineFault} {line : Line}
    (h : fault = .namelessEvent → line.Nameless) : (ParseError.line fault line).Shaped where
  isSome_iff := by
    refine ⟨fun hi => (by cases hi), fun ⟨hk, hl⟩ => ?_⟩
    exact absurd (h (LineFault.kind_eq_nameSyntax_iff.mp hk)) hl
  exception hk _ := by
    rw [LineFault.kind_eq_nameSyntax_iff.mp hk]
    rfl

/-- An error in a name has the right shape if its line is no trigger without an event. -/
theorem shaped_name {error : NameError} {line : Line} (h : ¬ line.Nameless) :
    (ParseError.name error line).Shaped where
  isSome_iff := ⟨fun _ => ⟨rfl, h⟩, fun _ => rfl⟩
  exception _ hl := absurd hl h

end ParseError

/-- The error of a line that cannot be taken has the right shape. -/
theorem State.shaped_of_step {strict : Bool} {s : State} {line : Line} {e : ParseError}
    (h : s.step strict line = .error e) : e.Shaped := by
  have hplace : e.place = line := (found_of_step h).place_eq
  cases e with
  | line fault place =>
    obtain rfl : place = line := hplace
    refine ParseError.shaped_line fun hf => ?_
    rw [hf] at h
    exact nameless_of_step h
  | name error place =>
    obtain rfl : place = line := hplace
    refine ParseError.shaped_name fun hl => ?_
    obtain ⟨fault, hf⟩ := line_of_nameless hl h
    cases hf

namespace Document

theorem shaped_of_parse {strict : Bool} {source : Text} {e : ParseError}
    (h : parse strict source = .error e) : e.Shaped := by
  rcases parse_eq_error h with ⟨before, line, after, t, -, -, hstep⟩ | ⟨t, -, hfin⟩
  · exact State.shaped_of_step hstep
  · obtain ⟨header, category, -, rfl⟩ := State.finish_eq_error_iff.mp hfin
    exact ParseError.shaped_line fun hf => by cases hf

/-- An error has a character index if and only if it is an error in a name, unless its line is the
header of a trigger that names no event: that one is an error in a name without an index.  Errors of
structure and of metadata have none. -/
theorem error_index_iff {strict : Bool} {source : Text} {e : ParseError}
    (h : parse strict source = .error e) :
    (e.index?.isSome = true ↔ e.kind = .nameSyntax ∧ ¬ e.place.Nameless) ∧
      (e.kind = .structural ∨ e.kind = .metadata → e.index? = none) ∧
      (e.kind = .nameSyntax → e.place.Nameless → e = .line .namelessEvent e.place) := by
  obtain ⟨hi, hx⟩ := shaped_of_parse h
  refine ⟨hi, fun hk => ?_, hx⟩
  rw [← Option.not_isSome_iff_eq_none, hi]
  rintro ⟨hname, -⟩
  rw [hname] at hk
  rcases hk with hk | hk <;> cases hk

/-- A colon in the name of a unit is shown, and a source that ends too early shows no character. -/
theorem error_index_iff_colon :
    ∃ (source source' : Text) (e e' : ParseError),
      source = ['u', 'n', 'i', 't', ' ', 'A', ':', 'B', ' ', '['] ∧
      source' = ['u', 'n', 'i', 't', ' ', 'A', ' ', '['] ∧
      parse true source = .error e ∧ e.index? = some 1 ∧
      (e.index?.isSome = true ↔ e.kind = .nameSyntax ∧ ¬ e.place.Nameless) ∧
      parse true source' = .error e' ∧ e'.kind = .structural ∧
      (e'.kind = .structural ∨ e'.kind = .metadata → e'.index? = none) := by
  have h : parse true ['u', 'n', 'i', 't', ' ', 'A', ':', 'B', ' ', '['] =
      .error (.name ⟨.delimiter, ['A', ':', 'B'], 1⟩
        ⟨1, 0, ['u', 'n', 'i', 't', ' ', 'A', ':', 'B', ' ', '[']⟩) := rfl
  have h' : parse true ['u', 'n', 'i', 't', ' ', 'A', ' ', '['] =
      .error (.line (.unterminated .unit) ⟨1, 0, ['u', 'n', 'i', 't', ' ', 'A', ' ', '[']⟩) := rfl
  exact ⟨_, _, _, _, rfl, rfl, h, rfl, (error_index_iff h).1, h', rfl, (error_index_iff h').2.1⟩

/-- The missing event of a trigger is an error in a name, and shows no character. -/
theorem error_index_missing_event :
    ∃ (source : Text) (e : ParseError), source =
        ['u', 'n', 'i', 't', ' ', 'A', ' ', '[', '\n',
          's', 'p', 'r', 'i', 't', 'e', ' ', 'B', ' ', '[', '\n',
          'w', 'h', 'e', 'n', ' ', '[', '\n', ']', '\n', ']', '\n', ']'] ∧
      parse true source = .error e ∧ e.message = "a trigger needs an event name".toList ∧
      e.lineNumber = 3 ∧ ¬ (e.index?.isSome = true ↔ e.kind = .nameSyntax) := by
  refine ⟨_, .line .namelessEvent ⟨3, 20, ['w', 'h', 'e', 'n', ' ', '[']⟩, rfl, rfl, rfl, rfl, ?_⟩
  exact fun h => Bool.false_ne_true (h.mpr rfl)

end Document
end BlockText
