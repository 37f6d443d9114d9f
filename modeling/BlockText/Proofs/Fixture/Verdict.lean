/-
When a fixture passes.

`Config.Meets` says which outcomes the front matter expects, one line for a failure and one for a
document.  A fixture has no mismatch exactly where its outcome is one of these
(`Config.mismatch?_eq_none_iff`), and a run of it passes exactly where, besides, its file can be read
and its front matter is accepted (`CommandLine.passed_runFixture_iff`).
-/
import BlockText.CommandLine.FixtureRun
import BlockText.Proofs.Text.Slices

namespace BlockText

namespace Config

/-- One of the keys is set by which a fixture asks for a failure. -/
def AsksFailure (c : Config) : Prop :=
  c.expectParseError = true ∨ c.expectError ≠ none ∨ c.expectErrorLine ≠ none

theorem expectsFailure_iff {c : Config} : c.expectsFailure = true ↔ c.AsksFailure := by
  rw [expectsFailure, Bool.or_eq_true, Bool.or_eq_true, or_assoc, Option.isSome_iff_ne_none,
    Option.isSome_iff_ne_none, AsksFailure]

/-- The outcome is one that the front matter expects: a failure that shows the expected text and is
found on the expected line, or a document with the expected units, as far as these are given. -/
def Meets (c : Config) : Except ParseError Document → Prop
  | .error e => c.AsksFailure ∧ (∀ expected ∈ c.expectError, expected <:+: e.display) ∧
      ∀ expected ∈ c.expectErrorLine, e.lineNumber = expected
  | .ok d => ¬ c.AsksFailure ∧ ∀ expected ∈ c.expectUnits, d.units.map (·.name) = expected

/-- A check of an expectation finds nothing where the expectation holds or none is given. -/
theorem check_eq_none_iff {α : Type} {expected : Option α} {P : α → Prop} [DecidablePred P]
    {mismatch : α → Mismatch} :
    (expected.bind fun x => if P x then none else some (mismatch x)) = none ↔
      ∀ x ∈ expected, P x := by
  rw [Option.bind_eq_none_iff]
  refine forall_congr' fun x => imp_congr_right fun _ => ?_
  split
  next hx => exact iff_of_true rfl hx
  next hx => exact iff_of_false (fun h => nomatch h) hx

theorem missingText?_eq_none_iff {c : Config} {e : ParseError} :
    c.missingText? e = none ↔ ∀ expected ∈ c.expectError, expected <:+: e.display := by
  simp only [← Text.hasInfix_iff]
  exact check_eq_none_iff

theorem otherLine?_eq_none_iff {c : Config} {e : ParseError} :
    c.otherLine? e = none ↔ ∀ expected ∈ c.expectErrorLine, e.lineNumber = expected :=
  check_eq_none_iff

theorem otherUnits?_eq_none_iff {c : Config} {d : Document} :
    c.otherUnits? d = none ↔ ∀ expected ∈ c.expectUnits, d.units.map (·.name) = expected :=
  check_eq_none_iff

theorem mismatch?_eq_none_iff {c : Config} {outcome : Except ParseError Document} :
    c.mismatch? outcome = none ↔ c.Meets outcome := by
  cases outcome with
  | error e =>
    rw [mismatch?.eq_def, Meets, ← expectsFailure_iff]
    cases c.expectsFailure with
    | true =>
      show (c.missingText? e).or (c.otherLine? e) = none ↔ _
      rw [Option.or_eq_none_iff, missingText?_eq_none_iff, otherLine?_eq_none_iff]
      exact (and_iff_right rfl).symm
    | false => exact iff_of_false (fun h => nomatch h) fun h => nomatch h.1
  | ok d =>
    rw [mismatch?.eq_def, Meets, ← expectsFailure_iff]
    cases c.expectsFailure with
    | true => exact iff_of_false (fun h => nomatch h) fun h => h.1 rfl
    | false =>
      show c.otherUnits? d = none ↔ _
      rw [otherUnits?_eq_none_iff]
      exact (and_iff_right Bool.false_ne_true).symm

end Config

namespace CommandLine

/-- A fixture passes if and only if its file can be read, its front matter is accepted, and the
outcome is one that it expects. -/
theorem passed_runFixture_iff {settings : Settings} {tree : FileTree} {path : Text} :
    (runFixture settings tree path).passed = true ↔ ∃ content f, tree.read path = .ok content ∧
      Fixture.read content = .ok f ∧ f.config.Meets f.outcome := by
  unfold runFixture Result.passed
  cases tree.read path with
  | error e => exact iff_of_false Bool.false_ne_true fun ⟨_, _, h, _⟩ => nomatch h
  | ok content =>
    simp only [Except.ok.injEq, exists_and_left, exists_eq_left']
    cases Fixture.read content with
    | error e => exact iff_of_false Bool.false_ne_true fun ⟨_, h, _⟩ => nomatch h
    | ok f =>
      simp only [Except.ok.injEq, exists_eq_left']
      show (f.mismatch?.map Mismatch.message).isNone = true ↔ _
      rw [Option.isNone_map, Option.isNone_iff_eq_none, Fixture.mismatch?,
        Config.mismatch?_eq_none_iff]

end CommandLine
end BlockText
