/-
Closing lines of definitions.

A definition of a block or a context closes on the first line at its level that starts with a bracket.
Behind the bracket stands nothing or a returns clause (`Returns.Closes`), and anything else is refused
with the name of the definition.  The reader drops every bracket that the line starts with and not only
the first, so `Document.closing_line` speaks of what stands behind the last of them: with one bracket this
is what stands behind the bracket, and with more the others are passed over.
-/
import BlockText.Proofs.Name.Clause
import BlockText.Proofs.Reading.Lasting
import BlockText.Proofs.Reading.Online

namespace BlockText

/-! ## What closes a definition -/

/-- What may stand behind the bracket, and what it says is returned. -/
inductive Returns.Closes : Text → Option Returns → Prop
  | bare : Closes [] none
  | clause {text : Text} {r : Returns} (h : Says text r) : Closes text (some r)

theorem Returns.Says.ne_nil {text : Text} {r : Returns} (h : Says text r) : text ≠ [] := by
  cases h
  exact List.append_ne_nil_of_left_ne_nil (by decide) _

theorem Returns.not_closes {text : Text} (hne : text.trim ≠ []) (h : ofText? text = none)
    (returns : Option Returns) : ¬ Closes text.trim returns := by
  intro hc
  generalize htrim : text.trim = clause at hc
  cases hc with
  | bare => exact hne htrim
  | clause hs =>
    rw [ofText?_eq_some_iff.mpr (htrim ▸ hs)] at h
    cases h

/-- The definition has this signature and these steps, and returns this. -/
structure Definition.Has (d : Definition) (signature : Signature) (steps : List Step)
    (returns : Option Returns) : Prop where
  name : d.name = signature.name
  params : d.params = signature.params
  steps : d.steps = steps
  returns : d.returns = returns

namespace Opening

variable {line : Line} {block clause : Text}

/-- A clause that may be missing is read as what it says. -/
theorem optional_of_closes (ht : clause.trim = clause) {returns : Option Returns}
    (h : Returns.Closes clause returns) :
    (if clause.isEmpty then .ok none else some <$> atLine line (Returns.read clause block)) =
      .ok returns := by
  cases h with
  | bare => rfl
  | clause hs =>
    rw [if_neg (by simpa using hs.ne_nil), Returns.read_eq_ok_iff.mpr (ht.symm ▸ hs)]
    rfl

theorem optional_of_not_closes (ht : clause.trim = clause)
    (h : ∀ returns, ¬ Returns.Closes clause returns) :
    (if clause.isEmpty then .ok none else some <$> atLine line (Returns.read clause block)) =
      .error (.name ⟨.malformedReturns block, clause, 0⟩ line) := by
  have hne : clause ≠ [] := by
    rintro rfl
    exact h none .bare
  have hread := Returns.read_of_not_says (fun r hr => h (some r) (.clause (ht ▸ hr))) block
  rw [if_neg (by simpa using hne), hread]
  rfl

theorem closingReturns_of_closes (hc : Text.trim (line.trimmed.dropWhile (· == ']')) = clause)
    {returns : Option Returns} (h : Returns.Closes clause returns) :
    closingReturns block line = .ok returns := by
  have htrim : clause.trim = clause := by rw [← hc, Text.trim_trim]
  rw [closingReturns, hc]
  exact optional_of_closes htrim h

theorem closingReturns_of_not_closes (hc : Text.trim (line.trimmed.dropWhile (· == ']')) = clause)
    (h : ∀ returns, ¬ Returns.Closes clause returns) :
    closingReturns block line = .error (.name ⟨.malformedReturns block, clause, 0⟩ line) := by
  have htrim : clause.trim = clause := by rw [← hc, Text.trim_trim]
  rw [closingReturns, hc]
  exact optional_of_not_closes htrim h

variable {o : Opening} {signature : Signature}

/-- A definition is finished with what its closing line says is returned. -/
theorem close_of_closes (ho : o = .blockDefinition signature ∨ o = .contextDefinition signature)
    (b : Contents) (hc : Text.trim (line.trimmed.dropWhile (· == ']')) = clause)
    {returns : Option Returns} (h : Returns.Closes clause returns) :
    ∃ d : Definition, d.Has signature b.steps returns ∧
      o.close b line = .ok (some (.definition d)) := by
  rcases ho with rfl | rfl <;> rw [close, closingReturns_of_closes hc h] <;>
    exact ⟨_, ⟨rfl, rfl, rfl, rfl⟩, rfl⟩

theorem close_of_not_closes (ho : o = .blockDefinition signature ∨ o = .contextDefinition signature)
    (b : Contents) (hc : Text.trim (line.trimmed.dropWhile (· == ']')) = clause)
    (h : ∀ returns, ¬ Returns.Closes clause returns) :
    o.close b line = .error (.name ⟨.malformedReturns signature.name, clause, 0⟩ line) := by
  rcases ho with rfl | rfl <;> rw [close, closingReturns_of_not_closes hc h] <;> rfl

end Opening

/-! ## Closing lines in a source -/

namespace Document

variable {strict : Bool} {source : Text} {before after : List Line} {line : Line} {s : State}
  {f : Frame} {rest : List Frame} {signature : Signature} {n : Nat} {tail : Text}

/-- Where a definition is open and a line starts with brackets, what stands behind the last of these is
nothing or a returns clause, and the definition stands in the document with it, or the source is refused
for this line with the name of the definition. -/
theorem closing_line (hlines : Line.ofSource source = before ++ line :: after)
    (hrun : State.start.run strict before = .ok s) (hv : s.verbatim = none) (hf : s.frames = f :: rest)
    (ho : f.opening = .blockDefinition signature ∨ f.opening = .contextDefinition signature)
    (hline : line.trimmed = ']' :: (List.replicate n ']' ++ tail)) (htail : tail.head? ≠ some ']') :
    (∀ returns, Returns.Closes tail.trim returns →
      ∃ d : Definition, d.Has signature f.contents.steps returns ∧
        State.start.run strict (before ++ [line]) =
          .ok (({ s with frames := rest } : State).add (.definition d)) ∧
        ∀ document, parse strict source = .ok document →
          ∃ around, document.At around (.definition d)) ∧
      ((∀ returns, ¬ Returns.Closes tail.trim returns) →
        parse strict source =
          .error (.name ⟨.malformedReturns signature.name, tail.trim, 0⟩ line)) := by
  have hclause : Text.trim (line.trimmed.dropWhile (· == ']')) = tail.trim := by
    have hbracket : ∀ c ∈ ']' :: List.replicate n ']', c = ']' :=
      List.forall_mem_cons.mpr ⟨rfl, fun c hc => List.eq_of_mem_replicate hc⟩
    rw [hline, ← List.cons_append, Text.dropWhile_append_eq hbracket htail]
  have hcloses : f.opening.closesOn line.trimmed = true := by
    rw [hline]
    rcases ho with ho | ho <;> rw [ho] <;> rfl
  have hstep : s.step strict line = _ := State.step_close hv hf hcloses
  constructor
  · intro returns h
    obtain ⟨d, hd, hclose⟩ := Opening.close_of_closes ho f.contents hclause h
    rw [hclose] at hstep
    have hafter : State.start.run strict (before ++ [line]) =
        .ok (({ s with frames := rest } : State).add (.definition d)) := by
      rw [State.run_append, hrun]
      exact State.run_of_step hstep []
    refine ⟨d, hd, hafter, fun document hdocument => ?_⟩
    have hlines : Line.ofSource source = (before ++ [line]) ++ after := by
      rw [hlines, List.append_assoc, List.singleton_append]
    have hcategory : (Node.definition d).category ≠ .comment := by
      cases d <;> nofun
    exact exists_at_of_run hdocument hlines hafter hcategory
      (State.contains_add_iff.mpr (Or.inr (Node.mem_constructs_self _)))
  · intro h
    rw [Opening.close_of_not_closes ho f.contents hclause h] at hstep
    rw [parse, ofLines_eq, hlines, State.run_of_error hrun hstep after]
    rfl

/-- A clause behind the bracket, and a second bracket that stands apart from the first. -/
theorem closing_line_clause :
    (∃ document around d,
      parse true "unit A [\nsprite B [\ndefine go [\n] returns x : Number\n]\n]".toList =
        .ok document ∧
      document.At around (.definition d) ∧ d.name = "go".toList ∧
      d.returns = some ⟨"x".toList, "Number".toList⟩) ∧
    ∃ e, parse true "unit A [\nsprite B [\ndefine go [\n] ]\n]\n]".toList = .error e ∧
      e.kind = .nameSyntax ∧ e.lineNumber = 4 ∧
      e.message = "problem parsing returns for block definition \"go\"".toList := by
  obtain ⟨s, f, rest, hrun, hv, hf, ho⟩ : ∃ s f rest,
      State.start.run true [⟨1, 0, "unit A [".toList⟩, ⟨2, 9, "sprite B [".toList⟩,
        ⟨3, 20, "define go [".toList⟩] = .ok s ∧ s.verbatim = none ∧ s.frames = f :: rest ∧
      f.opening = .blockDefinition ⟨"go".toList, [], []⟩ := ⟨_, _, _, rfl, rfl, rfl, rfl⟩
  constructor
  · obtain ⟨document, hdocument⟩ : ∃ document,
        parse true "unit A [\nsprite B [\ndefine go [\n] returns x : Number\n]\n]".toList =
          .ok document := ⟨_, rfl⟩
    have hlines : Line.ofSource
        "unit A [\nsprite B [\ndefine go [\n] returns x : Number\n]\n]".toList =
          [⟨1, 0, "unit A [".toList⟩, ⟨2, 9, "sprite B [".toList⟩, ⟨3, 20, "define go [".toList⟩] ++
            ⟨4, 32, "] returns x : Number".toList⟩ ::
              [⟨5, 53, "]".toList⟩, ⟨6, 55, "]".toList⟩] := rfl
    have h := closing_line (n := 0) hlines hrun hv hf (Or.inl ho) rfl (by decide)
    obtain ⟨d, hd, -, hat⟩ := h.1 _ (.clause (Returns.ofText?_eq_some_iff.mp rfl))
    obtain ⟨around, hat⟩ := hat document hdocument
    exact ⟨document, around, d, hdocument, hat, hd.name, hd.returns⟩
  · have hlines : Line.ofSource "unit A [\nsprite B [\ndefine go [\n] ]\n]\n]".toList =
        [⟨1, 0, "unit A [".toList⟩, ⟨2, 9, "sprite B [".toList⟩, ⟨3, 20, "define go [".toList⟩] ++
          ⟨4, 32, "] ]".toList⟩ :: [⟨5, 36, "]".toList⟩, ⟨6, 38, "]".toList⟩] := rfl
    have h := closing_line (n := 0) hlines hrun hv hf (Or.inl ho) rfl (by decide)
    exact ⟨_, h.2 (Returns.not_closes (by decide) rfl), rfl, rfl, rfl⟩

/-- A second bracket that adjoins the first is passed over. -/
theorem closing_line_doubled :
    ∃ source s document, source = "unit A [\nsprite B [\ndefine go [\n]]\n]\n]".toList ∧
      State.start.run false ((Line.ofSource source).take 3) = .ok s ∧ s.verbatim = none ∧
      s.parent = some .blockDefinition ∧
      (Line.ofSource source)[3]?.map Line.trimmed = some (']' :: "]".toList) ∧
      (∀ returns, ¬ Returns.Closes (Text.trim "]".toList) returns) ∧
      parse false source = .ok document :=
  ⟨_, _, _, rfl, rfl, rfl, rfl, rfl, Returns.not_closes (by decide) rfl, rfl⟩

end Document
end BlockText
