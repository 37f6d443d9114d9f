/-
Parentheses of call sites.

The reader of call sites goes by a stack of open groups, but which texts it accepts is told by
counting parentheses (`Call.Balanced`), and so is how many arguments a call has (`Call.groupCount`).

A step of the reader keeps its stack in agreement with the counts in the text that was read
(`State.Counted.step`), so each way in which a character is refused is a count that is wrong.
-/
import Mathlib.Data.List.Infix
import BlockText.Proofs.Name.Call

namespace BlockText
namespace Call

/-! ## Counting -/

theorem count_concat (t : Text) (c d : Char) :
    (t ++ [c]).count d = t.count d + if c = d then 1 else 0 := by
  rw [List.count_append, List.count_singleton]
  simp only [beq_iff_eq]

/-- The number of groups that stand in no other group: an opening parenthesis starts one where all
that were opened before it are closed. -/
def groupCount (text : Text) : Nat :=
  (List.range text.length).countP fun i =>
    text[i]? == some '(' && (text.take i).count '(' == (text.take i).count ')'

theorem groupCount_concat (t : Text) (c : Char) :
    groupCount (t ++ [c]) =
      groupCount t + if c = '(' ∧ t.count '(' = t.count ')' then 1 else 0 := by
  have hfront : ∀ i ∈ List.range t.length,
      ((t ++ [c])[i]? == some '(' &&
          ((t ++ [c]).take i).count '(' == ((t ++ [c]).take i).count ')') = true ↔
        (t[i]? == some '(' && (t.take i).count '(' == (t.take i).count ')') = true := by
    intro i hi
    have hlt : i < t.length := List.mem_range.mp hi
    rw [List.getElem?_append_left hlt, List.take_append_of_le_length (by omega)]
  rw [groupCount, List.length_append, List.length_singleton, List.range_succ, List.countP_append,
    List.countP_congr hfront, List.countP_singleton, ← groupCount, List.take_left]
  simp

namespace State

/-- The number of groups of the outermost call, with the open one. -/
def groups (s : State) : Nat :=
  match s.around.getLast? with
  | none => s.current.args.length
  | some (call, _) => call.args.length + 1

/-- The stack of the reader agrees with the counts in the text that was read. -/
structure Counted (before : Text) (s : State) : Prop where
  opened : before.count '(' = before.count ')' + s.around.length
  shallow : s.around.length ≤ maxNesting
  groups : groupCount before = s.groups

theorem counted_start : Counted [] .start := ⟨rfl, Nat.zero_le _, rfl⟩

theorem Counted.step {before : Text} {s t : State} {index : Nat} {c : Char} (hs : Counted before s)
    (h : s.step index c = .ok t) : Counted (before ++ [c]) t := by
  obtain ⟨hopened, hshallow, hgroups⟩ := hs
  rcases step_cases h with ⟨hc, rfl⟩ | ⟨rfl, hd, rfl⟩ | ⟨parent, opened, around, e, rfl, ha, -, rfl⟩
  · obtain ⟨⟨ho, hclose⟩, -⟩ := isPlain_iff.mp hc
    refine ⟨?_, hshallow, ?_⟩
    · rw [count_concat, count_concat, if_neg ho, if_neg hclose]
      exact hopened
    · rw [groupCount_concat, if_neg (fun h => ho h.1), Nat.add_zero, hgroups]
      rfl
  · refine ⟨?_, hd, ?_⟩
    · rw [count_concat, count_concat, if_pos rfl, if_neg (by decide), hopened, List.length_cons]
      omega
    · rw [groupCount_concat, hgroups, hopened]
      cases ha : s.around with
      | nil => simp [State.groups, ha]
      | cons p around => simp [State.groups, ha, List.getLast?_cons]
  · rw [ha, List.length_cons] at hopened hshallow
    refine ⟨?_, Nat.le_of_succ_le hshallow, ?_⟩
    · rw [count_concat, count_concat, if_neg (by decide), if_pos rfl]
      show _ = _ + around.length
      omega
    · rw [groupCount_concat, if_neg (fun h => by cases h.1), Nat.add_zero, hgroups]
      cases around with
      | nil => simp [State.groups, ha, Draft.addArg]
      | cons p around => simp [State.groups, ha, List.getLast?_cons]

theorem Counted.run {before text : Text} {s t : State} {index : Nat} (hs : Counted before s)
    (h : s.run index text = .ok t) : Counted (before ++ text) t :=
  run_induction Counted.step hs h

/-- No group of white space is read. -/
theorem run_blank_group {s t : State} {index : Nat} {blank rest : Text}
    (hb : blank.isBlank = true) : s.run index ('(' :: (blank ++ ')' :: rest)) ≠ .ok t := by
  intro h
  rw [run, Outcome.bind_eq_ok_iff] at h
  obtain ⟨u, hu, h⟩ := h
  rcases step_cases hu with ⟨hc, -⟩ | ⟨-, hd, rfl⟩ | ⟨-, -, -, -, hc, -⟩
  · exact absurd hc (by decide)
  · have hplain : ∀ c ∈ blank, isPlain c = true := fun c hc =>
      isPlain_of_isSpace (Text.isBlank_iff.mp hb c hc)
    rw [run_spells (s := ⟨.start, (s.current, index) :: s.around⟩) (spells_of_plain 0 hplain) hd, run,
      Outcome.bind_eq_ok_iff] at h
    obtain ⟨v, hv, -⟩ := h
    rcases step_cases hv with ⟨hc, -⟩ | ⟨hc, -⟩ | ⟨-, -, -, e, -, -, he, -⟩
    · exact absurd hc (by decide)
    · cases hc
    · have he : Draft.expression? ⟨blank.reverse, List.reverse []⟩ = .ok e := by
        simpa [extend, Draft.start] using he
      cases expression?_eq_ok_iff.mp he with
      | number hn =>
        rw [Number.ofText?_of_blank hb] at hn
        cases hn
      | name _ hn =>
        rw [hb] at hn
        cases hn
      | call hne => exact hne rfl
  · cases hc

end State

/-! ## The texts of call sites -/

/-- What the text of a call site is, told by counting. -/
structure Balanced (text : Text) : Prop where
  not_blank : text.isBlank = false
  not_numeral : Number.isNumeral text = false
  openBracket : '[' ∉ text
  closed : ∀ front, front <+: text → front.count ')' ≤ front.count '('
  finished : text.count '(' = text.count ')'
  shallow : ∀ front, front <+: text → front.count '(' ≤ front.count ')' + 128
  /-- No group is empty or holds white space only. -/
  filled : ∀ blank : Text, blank.isBlank = true → ¬ '(' :: (blank ++ [')']) <:+: text

section balanced

variable {text : Text} {call : Call}

theorem balanced_of_read (h : read text = .ok call) :
    Balanced text ∧ call.args.length = groupCount text := by
  obtain ⟨hblank, hnum, hscan⟩ := read_eq_ok_iff_scan.mp h
  obtain ⟨literal, hs, -⟩ := scan_eq_ok_iff.mp hscan
  obtain ⟨p, hrun, rfl⟩ := scan_eq_ok_iff_run.mp hscan
  have hfront : ∀ front, front <+: text → ∃ s, State.Counted front s := by
    rintro front ⟨rest, rfl⟩
    rw [State.run_append, Outcome.bind_eq_ok_iff] at hrun
    obtain ⟨s, hs, -⟩ := hrun
    exact ⟨s, State.counted_start.run hs⟩
  have hall : State.Counted text ⟨p, []⟩ := State.counted_start.run hrun
  refine ⟨⟨hblank, hnum, hs.openBracket_not_mem, fun front hp => ?_, hall.opened,
    fun front hp => ?_, fun blank hb hp => ?_⟩, ?_⟩
  · obtain ⟨s, hs⟩ := hfront front hp
    have hopened := hs.opened
    omega
  · obtain ⟨s, hs⟩ := hfront front hp
    have hopened := hs.opened
    have hshallow : s.around.length ≤ 128 := hs.shallow
    omega
  · obtain ⟨a, b, rfl⟩ := hp
    rw [List.append_assoc, State.run_append, Outcome.bind_eq_ok_iff] at hrun
    obtain ⟨s, -, hrun⟩ := hrun
    rw [List.cons_append, List.append_assoc] at hrun
    exact State.run_blank_group hb hrun
  · rw [hall.groups, Draft.finish, List.length_reverse]
    rfl

/-- In a balanced text no character is refused. -/
theorem Balanced.not_refuses (h : Balanced text) {done rest : Text} {c : Char} {s : State}
    (ht : text = done ++ c :: rest) (hrun : State.start.run 0 done = .ok s) {fault : NameFault}
    {shown : Nat} : ¬ s.Refuses done.length c fault shown := by
  have hopened := (State.counted_start.run hrun).opened
  rw [List.nil_append] at hopened
  have hp : done ++ [c] <+: text := ⟨rest, by rw [ht, List.append_assoc]; rfl⟩
  intro hc
  cases hc with
  | tooDeep hd =>
    have hshallow := h.shallow _ hp
    have hd : 128 ≤ s.around.length := hd
    rw [count_concat, count_concat, if_pos rfl, if_neg (by decide)] at hshallow
    omega
  | unopened hs =>
    have hclosed := h.closed _ hp
    rw [hs, List.length_nil] at hopened
    rw [count_concat, count_concat, if_pos rfl, if_neg (by decide)] at hclosed
    omega
  | empty hs ha hb =>
    have hstart : State.Tracks [] .start := .top .nil
    have htracks := hstart.run hrun
    rw [List.nil_append] at htracks
    cases htracks with
    | top => cases hs
    | @inside before inner literal args _ _ _ _ _ hspells =>
      obtain rfl : args = [] := List.reverse_eq_nil_iff.mp ha
      obtain ⟨rfl, -⟩ := hspells.eq_of_args_nil
      rw [Draft.text, List.reverse_reverse] at hb
      refine h.filled inner hb ⟨before, rest, ?_⟩
      rw [ht]
      simp
  | bracket => exact h.openBracket (hp.subset (List.mem_append_right done List.mem_cons_self))

theorem exists_read_of_balanced (h : Balanced text) : ∃ call, read text = .ok call := by
  cases hscan : scan text with
  | ok call => exact ⟨call, read_eq_ok_iff_scan.mpr ⟨h.not_blank, h.not_numeral, hscan⟩⟩
  | error e =>
    obtain ⟨fault, shown⟩ := e
    cases stops_of_scan hscan with
    | refused ht hrun hc => exact absurd hc (h.not_refuses ht hrun)
    | unclosed hrun ho =>
      have hopened := (State.counted_start.run hrun).opened
      have hfinished := h.finished
      have hlength := List.length_pos_iff.mpr ho
      rw [List.nil_append] at hopened
      omega

end balanced

/-- A call site is a text that is neither blank nor a number and has no bracket in it, whose
parentheses are balanced with at most 128 open at once and with something in each pair.  It has an
argument for each group that stands in no other. -/
theorem read_iff_balanced (text : Text) :
    ((∃ call, read text = .ok call) ↔ Balanced text) ∧
      ∀ call, read text = .ok call → call.args.length = groupCount text :=
  ⟨⟨fun ⟨_, h⟩ => (balanced_of_read h).1, exists_read_of_balanced⟩,
    fun _ h => (balanced_of_read h).2⟩

/-- Groups in groups are not counted. -/
theorem read_iff_balanced_nested :
    ∃ call, read "a (b (c)) ( (d))".toList = .ok call ∧ Balanced "a (b (c)) ( (d))".toList ∧
      call.args.length = groupCount "a (b (c)) ( (d))".toList ∧
      groupCount "a (b (c)) ( (d))".toList = 2 := by
  have h : read "a (b (c)) ( (d))".toList = .ok ⟨_, _⟩ := rfl
  exact ⟨_, h, (read_iff_balanced _).1.mp ⟨_, h⟩, (read_iff_balanced _).2 _ h, by decide⟩

end Call
end BlockText
