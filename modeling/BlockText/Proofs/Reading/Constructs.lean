/-
The constructs of a document.

`Document.At` lists every construct of a document with the constructs around it, at any depth.  Each of
them has a derivation in a place of the same categories (`Document.At.made`), so what holds of all
derivations holds of all constructs of the documents that are read.
-/
import BlockText.Proofs.Reading.Derivation

namespace BlockText

/-- The construct stands in the document inside these, the innermost one first. -/
inductive Document.At (d : Document) : List Node → Node → Prop
  | comment {c : Comment} (h : c ∈ d.comments) : At d [] (.comment c)
  | unit {u : CompilationUnit} (h : u ∈ d.units) : At d [] (.unit u)
  | inside {around : List Node} {m n : Node} (h : At d around m) (hn : m.contents.Holds n) :
    At d (m :: around) n

/-- What a construct holds was read inside it. -/
theorem Made.inside {strict : Bool} {path : Path} {m n : Node} (h : Made strict path m)
    (hn : m.contents.Holds n) : ∃ o : Opening, o.category = m.category ∧ Made strict (o :: path) n := by
  cases h with
  | comment | called | escaped => exact absurd hn (Contents.not_holds_empty n)
  | @finished path line close o b node h ho hb hc hf hclose =>
    have hfin := Opening.close_eq_some_iff.mp hclose
    refine ⟨o, ?_, hb n (hfin.holds hn)⟩
    cases hfin <;> rfl

namespace Document.At

variable {strict : Bool} {source : Text} {d : Document} {around : List Node} {n : Node}

/-- Every construct was read where it stands. -/
theorem made (hd : parse strict source = .ok d) (h : d.At around n) :
    ∃ path : Path, path.map (·.category) = around.map (·.category) ∧ Made strict path n := by
  obtain ⟨hcomments, hunits⟩ := made_of_parse hd
  induction h with
  | comment h => exact ⟨[], rfl, hcomments _ h⟩
  | unit h => exact ⟨[], rfl, hunits _ h⟩
  | inside h hn ih =>
    obtain ⟨path, hpath, hm⟩ := ih
    obtain ⟨o, ho, hmade⟩ := hm.inside hn
    exact ⟨o :: path, by rw [List.map_cons, List.map_cons, ho, hpath], hmade⟩

/-- Every construct stands where its category may stand. -/
theorem permitted (hd : parse strict source = .ok d) (h : d.At around n) :
    Category.permits (around.head?.map (·.category)) n.category = true := by
  obtain ⟨path, hpath, hm⟩ := h.made hd
  have hparent : path.parent = around.head?.map (·.category) := by
    rw [Path.parent, ← List.head?_map, hpath, List.head?_map]
  rw [← hparent]
  exact hm.permitted

end Document.At
end BlockText
