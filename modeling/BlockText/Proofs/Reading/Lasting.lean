/-
What has been read stays.

A construct that is finished is put into the state, and every line that is taken after it leaves it
there (`State.contains_of_move`): a construct that closes around it is finished with all its contents,
and what is dropped with sounds and costumes is comments only.  So it stands in the document
(`Document.exists_at_of_run`), and a statement about the line that finishes a construct is one about the
document.
-/
import BlockText.Proofs.Document.Tree
import BlockText.Proofs.Reading.Keeping

namespace BlockText

/-! ## Contents -/

theorem Contents.mem_constructs_add {b : Contents} {node n : Node} :
    n ∈ (b.add node).constructs ↔ n ∈ b.constructs ∨ n ∈ node.constructs := by
  simp only [mem_constructs_iff, holds_add, or_and_right, exists_or, exists_eq_left]

theorem Category.eq_comment_of_dropped {o : Opening} (ho : ¬ o.Kept) {child : Category}
    (h : permits (some o.category) child = true) : child = .comment := by
  rw [Opening.Kept, not_and_or, not_not, not_not] at ho
  rcases ho with ho | ho <;>
  · rw [ho] at h
    cases child <;> first | rfl | cases h

/-- What is dropped is comments. -/
theorem Contents.Fits.category_of_dropped {b : Contents} {o : Opening} (hb : b.Fits (some o.category))
    (ho : ¬ o.Kept) {n : Node} (hn : n ∈ b.constructs) : n.category = .comment := by
  obtain ⟨m, hm, hn⟩ := mem_constructs_iff.mp hn
  have hcomment := Category.eq_comment_of_dropped ho (hb m hm)
  cases m with
  | comment c =>
    obtain rfl : n = .comment c := List.mem_singleton.mp hn
    rfl
  | definition d => cases d <;> cases hcomment
  | step s => cases s <;> cases hcomment
  | _ => cases hcomment

namespace State

/-- The construct stands in what has been read, at any depth. -/
def Contains (s : State) (n : Node) : Prop :=
  n ∈ s.top.constructs ∨ ∃ f ∈ s.frames, n ∈ f.contents.constructs

variable {strict : Bool} {s t : State} {n : Node}

theorem contains_add_iff {node : Node} :
    (s.add node).Contains n ↔ s.Contains n ∨ n ∈ node.constructs := by
  rw [add]
  cases hf : s.frames with
  | nil =>
    simp only [Contains, Contents.mem_constructs_add, hf, List.not_mem_nil, false_and, exists_false,
      or_false]
  | cons f rest =>
    simp only [Contains, Contents.mem_constructs_add, hf, List.mem_cons, or_and_right, exists_or,
      exists_eq_left, or_assoc, or_comm, or_left_comm]

theorem contains_resume (h : s.Contains n) (header : Line) (r : Verbatim ⊕ Node) :
    (s.resume header r).Contains n := by
  cases r with
  | inl v => exact h
  | inr node => exact contains_add_iff.mpr (Or.inl h)

/-- A line that is taken leaves every construct where it is, but for comments. -/
theorem contains_of_move {line : Line} (hs : s.Derived strict) (h : Move strict s line t)
    (hn : n.category ≠ .comment) (hc : s.Contains n) : t.Contains n := by
  cases h with
  | resumed => exact contains_resume hc _ _
  | @closed f rest node hv hf _ hclose =>
    have hout : ({ s with frames := rest } : State).Contains n ∨ n ∈ f.contents.constructs := by
      rw [Contains, hf] at hc
      simp only [List.mem_cons, or_and_right, exists_or, exists_eq_left] at hc
      exact (or_left_comm.mp hc).symm
    cases node with
    | some node =>
      have hcontents := (Opening.close_eq_some_iff.mp hclose).contents_eq (hs.fits hf)
      refine contains_add_iff.mpr (hout.imp_right fun hin => ?_)
      rw [Node.constructs_eq, hcontents]
      exact List.mem_cons_of_mem node hin
    | none =>
      refine hout.resolve_right fun hin => hn ((hs.fits hf).category_of_dropped (fun hk => ?_) hin)
      exact hk.close_ne_none _ _ hclose
  | blank => exact hc
  | comment => exact contains_resume hc _ _
  | called => exact contains_add_iff.mpr (Or.inl hc)
  | escaped => exact hc
  | opened =>
    refine hc.imp_right fun ⟨f, hf, hin⟩ => ⟨f, List.mem_cons_of_mem _ hf, hin⟩

theorem contains_of_run {lines : List Line} (hf : ∀ line ∈ lines, '\n' ∉ line.text)
    (hs : s.Derived strict) (h : s.run strict lines = .ok t) (hn : n.category ≠ .comment)
    (hc : s.Contains n) : t.Contains n :=
  (run_induction (P := fun s => s.Derived strict ∧ s.Contains n)
    (fun line hl hs hm => ⟨derived_of_move (hf line hl) hs.1 hm, contains_of_move hs.1 hm hn hs.2⟩)
    ⟨hs, hc⟩ h).2

end State

/-- What was read before some line stands in the document. -/
theorem Document.exists_at_of_run {strict : Bool} {source : Text} {d : Document}
    {before after : List Line} {s : State} {n : Node} (hd : parse strict source = .ok d)
    (hlines : Line.ofSource source = before ++ after) (hrun : State.start.run strict before = .ok s)
    (hn : n.category ≠ .comment) (hc : s.Contains n) : ∃ around, d.At around n := by
  have hfeed : ∀ line ∈ before ++ after, '\n' ∉ line.text :=
    fun line hl => Line.not_mem_text (hlines ▸ hl)
  have hs : s.Derived strict := State.derived_of_run
    (fun line hl => hfeed line (List.mem_append_left after hl)) (State.derived_start strict) hrun
  obtain ⟨t, hall, hfin⟩ := parse_eq_ok_iff.mp hd
  obtain ⟨-, hframes, rfl⟩ := State.finish_eq_ok_iff.mp hfin
  have ht : t.Derived strict := State.derived_of_run (hlines ▸ hfeed) (State.derived_start strict) hall
  rw [hlines, State.run_append, hrun] at hall
  have hkept := State.contains_of_run (fun line hl => hfeed line (List.mem_append_right before hl)) hs
    hall hn hc
  rw [← mem_constructs_iff, constructs_eq, ht.fits_top.document_contents]
  refine hkept.resolve_right fun ⟨_, hf, _⟩ => ?_
  rw [hframes] at hf
  exact absurd hf List.not_mem_nil

end BlockText
