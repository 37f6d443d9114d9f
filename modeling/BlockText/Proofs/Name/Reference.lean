/-
References to slots.

A body refers to a slot of its definition by a call without arguments: the name of the slot between
parentheses.  The two readers do not agree on these names.  A signature keeps what stands in a slot as
it was written, trimmed, while a group in a call is a number where it can be, and its name has one space
between words.  So a slot is referred to by its name where this is in canonical form and no number.
-/
import BlockText.Proofs.Name.Canonical

namespace BlockText

/-! ## What is read for the name of a slot -/

/-- What a call takes for the name of the slot, between parentheses. -/
def Parameter.reference (p : Parameter) : Expression :=
  match Number.ofText? p.name with
  | some value => .number value
  | none => .call p.name.collapse []

theorem Parameter.reference_eq_call_iff {p : Parameter} :
    p.reference = .call p.name [] ↔
      Number.isNumeral p.name = false ∧ p.name.collapse = p.name := by
  rw [reference, Number.isNumeral]
  cases Number.ofText? p.name with
  | some value => exact ⟨fun h => (by cases h), fun h => absurd h.1.symm Bool.false_ne_true⟩
  | none =>
    rw [Expression.call.injEq]
    exact ⟨fun h => ⟨rfl, h.1⟩, fun h => ⟨h.2, rfl⟩⟩

theorem SlotText.isPlain {t : Text} (h : SlotText t) : ∀ c ∈ t, Call.isPlain c = true := by
  intro c hc
  obtain ⟨ho, hclose, hb, -⟩ := h.inner c hc
  exact Call.isPlain_iff.mpr ⟨⟨ho, hclose⟩, hb⟩

namespace Call

theorem denotes_reference {p : Parameter} (h : SlotText p.name) : Denotes p.name [] p.reference := by
  rw [Parameter.reference]
  cases hn : Number.ofText? p.name with
  | some value => exact .number hn
  | none => exact .name hn (Text.isBlank_eq_false_of_trimmed h.trimmed h.ne_nil)

/-- A reference may stand behind any plain text. -/
theorem read_group {before : Text} (hb : before.all isPlain = true) {p : Parameter}
    (h : SlotText p.name) :
    read (before ++ '(' :: (p.name ++ [')'])) =
      .ok ⟨Text.collapse (before ++ seam), [p.reference]⟩ := by
  have hgroup : Spells maxNesting ('(' :: (p.name ++ [')'])) seam [p.reference] :=
    .group (spells_of_plain (maxNesting - 1) h.isPlain) (denotes_reference h) .nil
  have hs := (spells_of_plain maxNesting (List.all_eq_true.mp hb)).append hgroup
  refine (read_iff_of_spells hs).mpr ⟨?_, fun h => (by cases h)⟩
  have hblank : (before ++ seam).isBlank = false :=
    Text.isBlank_eq_false_of_mem (List.mem_append_right before List.mem_cons_self) (by decide)
  rw [Ne, Text.collapse_eq_nil_iff, hblank]
  exact Bool.false_ne_true

end Call

/-! ## References to the slots of a signature -/

namespace Signature

/-- A call with the name of a slot between parentheses has the reference as its one argument, and the
reference has the name of the slot where this is in canonical form and no number. -/
theorem read_reference {text : Text} {s : Signature} (h : read text = .ok s) {p : Parameter}
    (hp : p ∈ s.params ++ s.blockLists) :
    Call.read ("use (".toList ++ p.name ++ ")".toList) = .ok ⟨"use ()".toList, [p.reference]⟩ ∧
      (p.reference = .call p.name [] ↔
        Number.isNumeral p.name = false ∧ p.name.collapse = p.name) := by
  have hslot : SlotText p.name := by
    rcases List.mem_append.mp hp with hp | hp
    · exact ((wellNamed_of_read h).params p hp).name
    · exact ((wellNamed_of_read h).blockLists p hp).name
  have huse : "use ".toList.all Call.isPlain = true := rfl
  exact ⟨Call.read_group huse hslot, p.reference_eq_call_iff⟩

theorem read_reference_steps :
    ∃ s, read "repeat (times:Number) (body part:BlockList)".toList = .ok s ∧
      Call.read "use (body part)".toList =
        .ok ⟨"use ()".toList, [.call "body part".toList []]⟩ := by
  have hread : read "repeat (times:Number) (body part:BlockList)".toList =
      .ok ⟨"repeat ()".toList, [⟨"times".toList, "Number".toList⟩],
        [⟨"body part".toList, "BlockList".toList⟩]⟩ := rfl
  have h := read_reference hread (List.mem_append_right _ List.mem_cons_self)
  rw [h.2.mpr ⟨by decide, by decide⟩] at h
  exact ⟨_, hread, h.1⟩

/-- A number for the name of a slot is read as a number, and the words of a name are moved together. -/
theorem read_reference_ne_name :
    ∃ s, read "go (1:Number) (a  b:Number)".toList = .ok s ∧
      s.params.map Parameter.name = ["1".toList, "a  b".toList] ∧
      ∀ p ∈ s.params, ∀ name,
        Call.read ("use (".toList ++ p.name ++ ")".toList) ≠ .ok ⟨name, [.call p.name []]⟩ := by
  have hread : read "go (1:Number) (a  b:Number)".toList =
      .ok ⟨"go () ()".toList,
        [⟨"1".toList, "Number".toList⟩, ⟨"a  b".toList, "Number".toList⟩], []⟩ := rfl
  refine ⟨_, hread, rfl, fun p hp name h => ?_⟩
  have huse : "use ".toList.all Call.isPlain = true := rfl
  have hgroup := Call.read_group huse ((wellNamed_of_read hread).params p hp).name
  have hname : p.reference = .call p.name [] := by
    have heq := hgroup.symm.trans h
    rw [Except.ok.injEq, Call.mk.injEq, List.cons.injEq] at heq
    exact heq.2.1
  obtain ⟨hnumeral, hcollapse⟩ := Parameter.reference_eq_call_iff.mp hname
  rcases List.mem_pair.mp hp with rfl | rfl
  · exact absurd hnumeral (by decide +kernel)
  · exact absurd hcollapse (by decide)

end Signature
end BlockText
