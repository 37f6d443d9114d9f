/-
Where the faults of names show.

An error in a name speaks of the text that was read, and shows at a character of it or at its end
(`NameError.Within`).  The readers of calls and signatures go back to a parenthesis for some faults,
so each keeps the indices of those that are open behind the characters that were taken.

What is refused as a name or a signature has a delimiter or a digit in it, unless it is blank
(`SimpleName.exists_cause`, `Signature.exists_cause`).
-/
import BlockText.Proofs.Name.Clause
import BlockText.Proofs.Name.Signature

namespace BlockText

/-- The error is one of this text, at a character or at the end. -/
structure NameError.Within (e : NameError) (read : Text) : Prop where
  text : e.text = read
  index : e.index ≤ read.length

/-! ## Simple names and clauses -/

theorem SimpleName.within_of_read {text : Text} {e : NameError} (h : read text = .error e) :
    e.Within text := by
  rw [read] at h
  split at h
  · cases h
    exact ⟨rfl, Nat.zero_le _⟩
  split at h
  · cases h
    exact ⟨rfl, Nat.zero_le _⟩
  split at h
  · cases h
    exact ⟨rfl, Nat.zero_le _⟩
  split at h
  next index hindex =>
    cases h
    obtain ⟨hlt, -⟩ := List.findIdx?_eq_some_iff_getElem.mp hindex
    exact ⟨rfl, Nat.le_of_lt hlt⟩
  · cases h

theorem Returns.within_of_read {text block : Text} {e : NameError}
    (h : read text block = .error e) : e.Within text := by
  rw [read] at h
  split at h
  · cases h
  · cases h
    exact ⟨rfl, Nat.zero_le _⟩

/-! ## Causes

A text with other characters than white space is no name only where it has a delimiter in it, or a digit. -/

/-- The characters that part names, and those that every numeral has one of. -/
def NameFault.isCause (c : Char) : Bool := Category.isDelimiter c || Text.isDigit c

namespace NameFault

theorem isCause_eq_false_iff {c : Char} :
    isCause c = false ↔ Category.isDelimiter c = false ∧ Text.isDigit c = false :=
  Bool.or_eq_false_iff

theorem isCause_of_isSpace {c : Char} (h : Text.isSpace c = true) : isCause c = false := by
  refine isCause_eq_false_iff.mpr ⟨Category.isDelimiter_of_isSpace h, Bool.eq_false_iff.mpr ?_⟩
  intro hd
  rw [Numeral.isSpace_eq_false_of_isMark (Numeral.isMark_of_isDigit hd)] at h
  cases h

/-- What is read wherever there is no cause is refused for a cause. -/
theorem exists_cause {α : Type} {r : Except NameError α} {e : NameError} {text : Text}
    (hr : (∀ c ∈ text, isCause c = false) → ∃ x, r = .ok x) (h : r = .error e) :
    ∃ c ∈ text, isCause c = true := by
  by_contra hnone
  obtain ⟨x, hx⟩ := hr fun c hc => Bool.eq_false_iff.mpr fun hcause => hnone ⟨c, hc, hcause⟩
  cases h.symm.trans hx

end NameFault

theorem Number.exists_cause {text : Text} (h : isNumeral text = true) :
    ∃ c ∈ text, NameFault.isCause c = true := by
  obtain ⟨c, hc, hd⟩ := exists_digit_of_isNumeral h
  exact ⟨c, hc, Bool.or_eq_true_iff.mpr (Or.inr hd)⟩

theorem Number.isNumeral_of_no_cause {text : Text} (h : ∀ c ∈ text, NameFault.isCause c = false) :
    isNumeral text = false := by
  rw [Bool.eq_false_iff]
  intro hn
  obtain ⟨c, hc, hcause⟩ := exists_cause hn
  rw [h c hc] at hcause
  cases hcause

theorem SimpleName.exists_cause {text : Text} {e : NameError} (h : read text = .error e)
    (hblank : text.isBlank = false) : ∃ c ∈ text, NameFault.isCause c = true := by
  refine NameFault.exists_cause (fun hnone => ⟨text.trim, read_eq_ok_iff.mpr ⟨?_, rfl⟩⟩) h
  exact ⟨hblank, Number.isNumeral_of_no_cause hnone,
    fun c hc => (NameFault.isCause_eq_false_iff.mp (hnone c hc)).1⟩

/-- A text of plain characters is a name without slots. -/
theorem Signature.exists_cause {text : Text} {e : NameError} (h : read text = .error e)
    (hblank : text.isBlank = false) : ∃ c ∈ text, NameFault.isCause c = true := by
  refine NameFault.exists_cause (fun hnone => ⟨⟨text.collapse, [], []⟩, ?_⟩) h
  have hplain : ∀ c ∈ text, Call.isPlain c = true := by
    intro c hc
    by_contra hn
    have hdelimiter := (NameFault.isCause_eq_false_iff.mp (hnone c hc)).1
    rcases Call.not_isPlain_cases hn with rfl | rfl | rfl <;> revert hdelimiter <;> decide
  refine read_eq_ok_iff.mpr ⟨text, spells_of_plain hplain, rfl, fun hnil => ?_, ?_⟩
  · rw [Text.collapse_eq_nil_iff.mp hnil] at hblank
    cases hblank
  · rw [Number.isNumeral_collapse, Number.isNumeral_of_no_cause hnone]

/-! ## Scanners

Both scanners take one character after another, keep what they may go back to, and finish at the end of
the text. -/

/-- A scanner that goes back no further than it keeps shows its faults at characters that it has
taken, or at the end. -/
theorem shown_le_of_scan {σ α : Type} {step : σ → Nat → Char → Except (NameFault × Nat) σ}
    {run : σ → Nat → Text → Except (NameFault × Nat) σ}
    {finish : σ → Nat → Except (NameFault × Nat) α} {B : σ → Nat → Prop}
    (hnil : ∀ s index, run s index [] = .ok s)
    (hcons : ∀ s index c text,
      run s index (c :: text) = step s index c >>= fun t => run t (index + 1) text)
    (hstep : ∀ {s t index c}, B s index → step s index c = .ok t → B t (index + 1))
    (herror : ∀ {s index c fault shown}, B s index →
      step s index c = .error (fault, shown) → shown ≤ index)
    (hfinish : ∀ {s stop fault shown}, finish s stop = .error (fault, shown) → shown ≤ stop)
    {text : Text} {s : σ} {index stop : Nat} {fault : NameFault} {shown : Nat}
    (hstop : index + text.length = stop) (hs : B s index)
    (h : (run s index text >>= fun t => finish t stop) = .error (fault, shown)) :
    shown ≤ stop := by
  induction text generalizing s index with
  | nil =>
    rw [hnil] at h
    exact hfinish h
  | cons c text ih =>
    rw [List.length_cons] at hstop
    rw [hcons] at h
    cases ht : step s index c with
    | error e =>
      rw [ht] at h
      cases h
      have hshown := herror hs ht
      omega
    | ok t =>
      rw [ht] at h
      exact ih (by omega) (hstep hs ht) h

namespace Call

/-- The open parentheses stand before this index. -/
def State.Before (s : State) (index : Nat) : Prop := ∀ p ∈ s.around, p.2 ≤ index

theorem State.before_of_step {s t : State} {index : Nat} {c : Char} (hs : s.Before index)
    (h : s.step index c = .ok t) : t.Before (index + 1) := by
  have hlater : ∀ p ∈ s.around, p.2 ≤ index + 1 := fun p hp => Nat.le_succ_of_le (hs p hp)
  rcases step_cases h with ⟨-, rfl⟩ | ⟨-, -, rfl⟩ | ⟨parent, opened, around, e, -, haround, -, rfl⟩
  · exact hlater
  · intro p hp
    rcases List.mem_cons.mp hp with rfl | hp
    · exact Nat.le_succ index
    · exact hlater p hp
  · intro p hp
    refine hlater p ?_
    rw [haround]
    exact List.mem_cons_of_mem _ hp

theorem State.shown_le_of_step {s : State} {index : Nat} {c : Char} {fault : NameFault}
    {shown : Nat} (hs : s.Before index) (h : s.step index c = .error (fault, shown)) :
    shown ≤ index := by
  cases step_eq_error_iff.mp h with
  | tooDeep | unopened | bracket => exact Nat.le_refl index
  | @empty parent _ _ haround =>
    refine hs (parent, shown) ?_
    rw [haround]
    exact List.mem_cons_self

/-- An open group is missed at the end. -/
theorem State.shown_le_of_finish {s : State} {stop : Nat} {fault : NameFault} {shown : Nat}
    (h : s.finish stop = .error (fault, shown)) : shown ≤ stop := by
  rw [finish] at h
  split at h
  · cases h
  · cases h
    exact Nat.le_refl stop

theorem within_of_read {text : Text} {e : NameError} (h : read text = .error e) :
    e.Within text := by
  rcases read_error_cases h with rfl | rfl | ⟨fault, shown, rfl, hscan⟩
  · exact ⟨rfl, Nat.zero_le _⟩
  · exact ⟨rfl, Nat.zero_le _⟩
  · exact ⟨rfl, shown_le_of_scan (B := State.Before) (fun _ _ => rfl) (fun _ _ _ _ => rfl)
      State.before_of_step State.shown_le_of_step State.shown_le_of_finish (Nat.zero_add _)
      (fun p hp => absurd hp List.not_mem_nil) hscan⟩

end Call

namespace Signature

/-- The parenthesis of the open slot stands before this index. -/
def State.Before (s : State) (index : Nat) : Prop := ∀ slot ∈ s.slot, slot.opened ≤ index

theorem State.before_of_step {s t : State} {index : Nat} {c : Char} (hs : s.Before index)
    (h : s.step index c = .ok t) : t.Before (index + 1) := by
  cases hslot : s.slot with
  | none =>
    rcases stepOutside_cases hslot h with ⟨-, rfl⟩ | ⟨-, rfl⟩
    · intro slot ht
      rw [extend, hslot] at ht
      cases ht
    · intro slot ht
      cases ht
      exact Nat.le_succ index
  | some inner =>
    have hopened : inner.opened ≤ index + 1 := Nat.le_succ_of_le (hs inner hslot)
    rcases stepInside_cases hslot h with
      ⟨-, -, rfl⟩ | ⟨-, -, rfl⟩ | ⟨type, -, -, rfl⟩ | ⟨-, -, -, rfl⟩
    · intro slot ht
      cases ht
      exact hopened
    · intro slot ht
      cases ht
      exact hopened
    · intro slot ht
      cases ht
      exact hopened
    · intro slot ht
      rw [addParameter] at ht
      split at ht
      · cases ht
      · cases ht

theorem State.shown_le_of_step {s : State} {index : Nat} {c : Char} {fault : NameFault}
    {shown : Nat} (hs : s.Before index) (h : s.step index c = .error (fault, shown)) :
    shown ≤ index := by
  rw [step] at h
  split at h
  · unfold stepOutside at h
    split at h
    · cases h
      exact Nat.le_refl index
    · cases h
      exact Nat.le_refl index
    · cases h
    · cases h
  next slot hslot =>
    unfold stepInside at h
    split at h
    · cases h
      exact Nat.le_refl index
    · cases h
      exact Nat.le_refl index
    · cases h
      exact Nat.le_refl index
    · cases h
    · dsimp only at h
      split at h
      · cases h
        exact hs slot hslot
      · cases h
    · cases h
    · cases h

/-- An open slot is missed at the end, and a text that is no name is refused as a whole. -/
theorem State.shown_le_of_finish {s : State} {stop : Nat} {fault : NameFault} {shown : Nat}
    (h : s.finish stop = .error (fault, shown)) : shown ≤ stop := by
  rw [finish] at h
  split at h
  · cases h
    exact Nat.le_refl stop
  split at h
  · cases h
    exact Nat.zero_le stop
  split at h
  · cases h
    exact Nat.zero_le stop
  · cases h

theorem within_of_read {text : Text} {e : NameError} (h : read text = .error e) :
    e.Within text := by
  rw [read] at h
  obtain ⟨⟨fault, shown⟩, hscan, rfl⟩ := Outcome.mapError_eq_error_iff.mp h
  exact ⟨rfl, shown_le_of_scan (B := State.Before) (fun _ _ => rfl) (fun _ _ _ _ => rfl)
    State.before_of_step State.shown_le_of_step State.shown_le_of_finish (Nat.zero_add _)
    (fun slot hslot => by cases hslot) hscan⟩

end Signature
end BlockText
