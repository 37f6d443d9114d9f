/-
Call sites as trees.

The printing of a tree has its arguments in parentheses in the place of the seams of its name, and
each number as any of its numerals (`Expression.WrittenAs`).  The trees that are read are the
well-formed ones (`Call.WellFormed`), each from all of its printings (`Call.wellFormed_written`).

A printing spells the tree as the grammar of call sites has it, by induction on the tree
(`Call.groups_of_written`), where the depth of the tree is the room that its groups need.
-/
import BlockText.Json
import BlockText.Proofs.Name.Canonical

namespace BlockText

/-! ## Groups of arguments -/

mutual

/-- The number of groups around the innermost argument, where the expression stands in one. -/
def Expression.depth : Expression → Nat
  | .number _ => 1
  | .call _ args => depthOf args + 1

def Expression.depthOf : List Expression → Nat
  | [] => 0
  | e :: es => max e.depth (depthOf es)

end

theorem Expression.depth_pos (e : Expression) : 0 < e.depth := by
  cases e with
  | number => exact Nat.one_pos
  | call name args => exact Nat.succ_pos _

theorem Expression.depth_le_depthOf {e : Expression} {es : List Expression} (h : e ∈ es) :
    e.depth ≤ depthOf es := by
  induction es with
  | nil => cases h
  | cons e' es ih =>
    rw [depthOf]
    rcases List.mem_cons.mp h with rfl | h
    · omega
    · have hle := ih h
      omega

theorem Call.Denotes.depth_le {literal : Text} {args : List Expression} {e : Expression}
    (h : Denotes literal args e) : e.depth ≤ Expression.depthOf args + 1 := by
  cases h with
  | number => exact Nat.le_add_left 1 _
  | name => exact Nat.le_refl _
  | call => exact Nat.le_refl _

/-- The arguments of a call nest as deep as its groups, for which there is so much room. -/
theorem Call.Spells.depthOf_le {room : Nat} {text literal : Text} {args : List Expression}
    (h : Spells room text literal args) : Expression.depthOf args ≤ room := by
  induction h with
  | nil => exact Nat.zero_le _
  | plain _ _ ih => exact ih
  | group hg he h ihg ih =>
    have hdepth := he.depth_le
    exact Nat.max_le.mpr ⟨by omega, ih⟩

theorem Call.depthOf_le_of_read {text : Text} {call : Call} (h : read text = .ok call) :
    Expression.depthOf call.args ≤ maxNesting := by
  obtain ⟨-, -, literal, hs, -⟩ := read_eq_ok_iff.mp h
  exact hs.depthOf_le

/-! ## Printings -/

/-- The text is a printing of the expression, without parentheses around it. -/
inductive Expression.WrittenAs : Expression → Text → Prop
  | number {value : Number} {text : Text} (h : Number.ofText? text = some value) :
    WrittenAs (.number value) text
  | call {name : Text} {args : List Expression} {groups : List Text}
    (h : List.Forall₂ WrittenAs args groups) : WrittenAs (.call name args) (Text.fill name groups)

theorem Expression.WellNamed.exists_writtenAs {e : Expression} (h : e.WellNamed) :
    ∃ text, e.WrittenAs text := by
  induction h with
  | @number value => exact ⟨_, .number (Number.ofText?_write Json.numbers value)⟩
  | @call name args _ _ ih =>
    have hargs : ∀ es ⊆ args, ∃ groups, List.Forall₂ WrittenAs es groups := by
      intro es
      induction es with
      | nil => exact fun _ => ⟨[], .nil⟩
      | cons e es ihes =>
        intro hes
        obtain ⟨group, hg⟩ := ih e (hes List.mem_cons_self)
        obtain ⟨groups, hgs⟩ := ihes (List.subset_of_cons_subset hes)
        exact ⟨group :: groups, .cons hg hgs⟩
    obtain ⟨groups, hgs⟩ := hargs args (List.Subset.refl args)
    exact ⟨_, .call hgs⟩

namespace Call

/-- The call as a tree: its names are canonical, its numbers finite, and no more than 128 groups are
open at once in it. -/
structure WellFormed (call : Call) : Prop where
  named : (Expression.call call.name call.args).WellNamed
  nested : Expression.depthOf call.args ≤ 128

def WrittenAs (call : Call) (text : Text) : Prop :=
  (Expression.call call.name call.args).WrittenAs text

/-! ## Reading printings -/

theorem isPlain_of_ofText? {text : Text} {value : Number} (h : Number.ofText? text = some value) :
    ∀ c ∈ text, isPlain c = true := by
  intro c hc
  by_cases hs : Text.isSpace c = true
  · exact isPlain_of_isSpace hs
  · have hn : Number.isNumeral text = true := by
      rw [Number.isNumeral, h]
      rfl
    exact isPlain_of_isMark (Number.isMark_of_isNumeral hn (Text.mem_trim hc (by simpa using hs)))

/-- A canonical name denotes a call of it. -/
theorem denotes_of_isCanonical {name : Text} {args : List Expression}
    (h : Name.IsCanonical name args.length) : Denotes name args (.call name args) := by
  have hd : Denotes name args (.call name.collapse args) := by
    cases args with
    | nil =>
      refine .name ?_ (Bool.eq_false_iff.mpr fun hb => h.ne_nil ?_)
      · simpa [Number.isNumeral] using h.numeral
      · rw [← h.normal, Text.collapse_eq_nil_of_blank hb]
    | cons e es => exact .call (List.cons_ne_nil e es)
  rwa [h.normal] at hd

section written

variable {room : Nat} {name : Text} {args : List Expression} {groups : List Text}

/-- A printing spells its name if the printings of the arguments denote them. -/
theorem spells_of_written (hn : Name.IsCanonical name args.length)
    (hd : Expression.depthOf args ≤ room) (hw : List.Forall₂ Expression.WrittenAs args groups)
    (hargs : ∀ e ∈ args, ∀ {r : Nat} {text : Text}, e.depth ≤ r + 1 → e.WrittenAs text →
      Groups r text e) :
    Spells room (Text.fill name groups) name args := by
  have hmem : List.Forall₂ (fun e group => e ∈ args ∧ e.WrittenAs group) args groups :=
    (List.forall₂_and_left _ _).mpr ⟨fun e he => he, hw⟩
  refine spells_fill hn.seamed rfl (hmem.imp fun e group ⟨he, hw⟩ => ?_)
  have hle := Expression.depth_le_depthOf he
  have hpos := e.depth_pos
  obtain ⟨r, rfl⟩ : ∃ r, room = r + 1 := ⟨room - 1, by omega⟩
  exact ⟨r, rfl, hargs e he (by omega) hw⟩

theorem groups_of_written {e : Expression} (h : e.WellNamed) {r : Nat} {text : Text}
    (hd : e.depth ≤ r + 1) (hw : e.WrittenAs text) : Groups r text e := by
  induction h generalizing r text with
  | number =>
    cases hw with
    | number hv => exact ⟨text, [], spells_of_plain r (isPlain_of_ofText? hv), .number hv⟩
  | call hn _ ih =>
    cases hw with
    | call hw =>
      rw [Expression.depth] at hd
      exact ⟨_, _, spells_of_written hn (by omega) hw ih, denotes_of_isCanonical hn⟩

end written

theorem read_of_written {call : Call} (h : call.WellFormed) {text : Text}
    (hw : call.WrittenAs text) : read text = .ok call := by
  obtain ⟨hnamed, hnested⟩ := h
  obtain ⟨name, args⟩ := call
  cases hnamed with
  | call hn hargs =>
    cases hw with
    | call hw =>
      have hs : Spells maxNesting _ name args :=
        spells_of_written hn hnested hw fun e he => groups_of_written (hargs e he)
      have hread := read_iff_of_spells hs
      rw [hn.normal] at hread
      exact hread.mpr ⟨hn.ne_nil, fun _ => hn.numeral⟩

/-- A well-formed call has printings and is read from each of them, and what is read is well
formed. -/
theorem wellFormed_written (call : Call) :
    (call.WellFormed → (∃ text, call.WrittenAs text) ∧
      ∀ text, call.WrittenAs text → read text = .ok call) ∧
    ∀ text, read text = .ok call → call.WellFormed :=
  ⟨fun h => ⟨h.named.exists_writtenAs, fun _ => read_of_written h⟩,
    fun _ h => ⟨wellNamed_of_read h, depthOf_le_of_read h⟩⟩

/-- A name made of seams and a sign, and a number with a point. -/
theorem wellFormed_written_equals :
    ∃ call, read "(Game   Over)= (0)".toList = .ok call ∧ call.WellFormed ∧
      call.WrittenAs "(Game Over)= ( 0. )".toList ∧
      read "(Game Over)= ( 0. )".toList = .ok call := by
  let zero : Number := ⟨false, 0, by decide⟩
  let call : Call := ⟨"()= ()".toList, [.call "Game Over".toList [], .number zero]⟩
  have hread : read "(Game   Over)= (0)".toList = .ok call := rfl
  have hw : call.WrittenAs "(Game Over)= ( 0. )".toList :=
    @Expression.WrittenAs.call _ _ ["Game Over".toList, " 0. ".toList]
      (.cons (@Expression.WrittenAs.call _ _ [] .nil) (.cons (.number rfl) .nil))
  have h := (wellFormed_written call).2 _ hread
  exact ⟨call, hread, h, hw, ((wellFormed_written call).1 h).2 _ hw⟩

end Call
end BlockText
