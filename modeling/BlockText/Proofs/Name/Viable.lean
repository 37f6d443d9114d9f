/-
Where the faults of call sites show.

A fault shows at the first character behind which no call site is left: the text in front of it is
the front of some call site, and with the character it is the front of none (`Call.error_viable`).
So the reader refuses a character only where every text that goes on with it fails too, and at the
end of the text only what can still be completed.

Every state of the reader can be completed, with a letter for the innermost group and the parentheses
that close all groups (`State.exists_closing`).  Blank texts, numbers and empty groups are faults of
another kind: they show where the name or the group starts.
-/
import BlockText.Proofs.Name.Call

namespace BlockText
namespace Call

/-- The text is the front of a call site. -/
def Viable (front : Text) : Prop := ∃ text call, front <+: text ∧ read text = .ok call

/-! ## Completing what was read -/

namespace State

/-- The open groups are closed one after another, since each group holds the one inside it. -/
theorem exists_run_close {s : State} {e : Expression} (index : Nat)
    (he : s.current.expression? = .ok e) :
    ∃ p, s.run index (List.replicate s.around.length ')') = .ok ⟨p, []⟩ := by
  obtain ⟨current, around⟩ := s
  induction around generalizing current index e with
  | nil => exact ⟨current, rfl⟩
  | cons frame around ih =>
    obtain ⟨parent, opened⟩ := frame
    obtain ⟨e', he'⟩ : ∃ e', (parent.addArg e).expression? = .ok e' :=
      exists_expression? fun ha => by cases ha
    rw [List.length_cons, List.replicate_succ, run, step_close index rfl he]
    exact ih (index + 1) (parent.addArg e) he'

theorem exists_closing (s : State) (index : Nat) :
    ∃ p, s.run index ('x' :: List.replicate s.around.length ')') = .ok ⟨p, []⟩ := by
  have hx : isPlain 'x' = true := by decide
  obtain ⟨e, he⟩ : ∃ e, (s.extend ['x'] []).current.expression? = .ok e := by
    refine exists_expression? fun _ => Text.isBlank_eq_false_of_mem (c := 'x') ?_ (by decide)
    simp [extend, Draft.text]
  rw [run, step_plain s index hx]
  exact exists_run_close (s := s.extend ['x'] []) (index + 1) he

end State

variable {text front done : Text} {s : State} {c : Char} {fault : NameFault} {shown : Nat}

/-- What the reader takes can be completed. -/
theorem viable_of_run (hrun : State.start.run 0 front = .ok s) : Viable front := by
  obtain ⟨p, hp⟩ := s.exists_closing front.length
  have hmem : 'x' ∈ front ++ 'x' :: List.replicate s.around.length ')' :=
    List.mem_append_right front List.mem_cons_self
  refine ⟨_, p.finish, List.prefix_append front ('x' :: List.replicate s.around.length ')'), ?_⟩
  refine read_eq_ok_iff_scan.mpr ⟨?_, ?_, scan_eq_ok_iff_run.mpr ⟨p, ?_, rfl⟩⟩
  · exact Text.isBlank_eq_false_of_mem hmem (by decide)
  · exact Number.isNumeral_eq_false_of_mem hmem (by decide) (by decide)
  · rw [State.run_append, hrun]
    show s.run (0 + front.length) _ = _
    rwa [Nat.zero_add]

/-- Behind a character that is refused no text is read. -/
theorem not_viable_of_refuses (hrun : State.start.run 0 done = .ok s)
    (hc : s.Refuses done.length c fault shown) : ¬ Viable (done ++ [c]) := by
  rintro ⟨text, call, ⟨rest, rfl⟩, hread⟩
  obtain ⟨-, -, hscan⟩ := read_eq_ok_iff_scan.mp hread
  obtain ⟨p, hp, -⟩ := scan_eq_ok_iff_run.mp hscan
  rw [List.append_assoc, State.run_append, hrun] at hp
  have hp : (s.step (0 + done.length) c >>= fun t => t.run _ rest) = .ok ⟨p, []⟩ := hp
  rw [Nat.zero_add, State.step_eq_error_iff.mpr hc] at hp
  cases hp

/-! ## Faults -/

/-- All characters but those that close an empty group are refused where they stand. -/
theorem State.Refuses.shown_eq {index : Nat} (h : s.Refuses index c fault shown)
    (he : fault ≠ .emptyGroup) :
    shown = index ∧ fault.message ≠ "missing close parens".toList := by
  cases h with
  | empty => exact absurd rfl he
  | tooDeep | unopened | bracket => exact ⟨rfl, by decide⟩

theorem stops_of_read {e : NameError} (h : read text = .error e) (hb : e.fault ≠ .blankCall)
    (hn : e.fault ≠ .numeric) : Stops text e.fault e.index := by
  rcases read_error_cases h with rfl | rfl | ⟨fault, shown, rfl, hscan⟩
  · exact absurd rfl hb
  · exact absurd rfl hn
  · exact stops_of_scan hscan

/-- Unless the text is blank or a number or has an empty group, what stands in front of the character
that is shown is the front of a call site, and with the character it is not.  The end of the text is
shown where a parenthesis is missing, and only there. -/
theorem error_viable {e : NameError} (h : read text = .error e) (hb : e.fault ≠ .blankCall)
    (hn : e.fault ≠ .numeric) (he : e.fault ≠ .emptyGroup) :
    e.index ≤ text.length ∧ Viable (text.take e.index) ∧
      (e.index < text.length → ¬ Viable (text.take (e.index + 1))) ∧
      (e.fault.message = "missing close parens".toList ↔ e.index = text.length) := by
  have hstops := stops_of_read h hb hn
  obtain ⟨fault, source, index⟩ := e
  cases hstops with
  | @refused done rest c s _ _ ht hrun hc =>
    obtain ⟨rfl, hmessage⟩ := hc.shown_eq he
    have hnext : text.take (done.length + 1) = done ++ [c] := by
      rw [ht, List.take_length_add_append]
      rfl
    have hlength : done.length < text.length := by
      rw [ht, List.length_append, List.length_cons]
      omega
    dsimp only at hmessage ⊢
    refine ⟨Nat.le_of_lt hlength, ?_, fun _ => ?_, ?_⟩
    · rw [ht, List.take_left]
      exact viable_of_run hrun
    · rw [hnext]
      exact not_viable_of_refuses hrun hc
    · exact ⟨fun hm => absurd hm hmessage, fun hi => absurd hi (Nat.ne_of_lt hlength)⟩
  | unclosed hrun =>
    refine ⟨Nat.le_refl _, ?_, fun hlt => absurd hlt (Nat.lt_irrefl _), ?_⟩
    · rw [List.take_length]
      exact viable_of_run hrun
    · exact ⟨fun _ => rfl, fun _ => rfl⟩

/-- A bracket in a group, and a group that is not closed. -/
theorem error_viable_group :
    read "go ((a) [b])".toList = .error ⟨.openBracket, "go ((a) [b])".toList, 8⟩ ∧
      Viable "go ((a) ".toList ∧ ¬ Viable "go ((a) [".toList ∧
      read "turn ↻ (x".toList = .error ⟨.missingClose, "turn ↻ (x".toList, 9⟩ ∧
      Viable "turn ↻ (x".toList := by
  have hbracket : read "go ((a) [b])".toList =
      .error ⟨.openBracket, "go ((a) [b])".toList, 8⟩ := rfl
  have hmissing : read "turn ↻ (x".toList = .error ⟨.missingClose, "turn ↻ (x".toList, 9⟩ := rfl
  obtain ⟨-, hfront, hnext, -⟩ := error_viable hbracket (by decide) (by decide) (by decide)
  obtain ⟨-, hall, -, -⟩ := error_viable hmissing (by decide) (by decide) (by decide)
  exact ⟨hbracket, hfront, hnext (by decide), hmissing, hall⟩

end Call
end BlockText
