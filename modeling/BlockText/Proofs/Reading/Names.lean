/-
The names in a document.

`Node.WellNamed` says what the names that a construct carries itself have to be: those of calls and
definitions are canonical, those of everything else are what their own readers let through.  Every
construct of every document that is read is well named (`Document.wellNamed_of_parse`), since every
construct has a derivation and headers and closing lines are read by these readers.
-/
import BlockText.Proofs.Name.Canonical
import BlockText.Proofs.Print.Header
import BlockText.Proofs.Reading.Constructs

namespace BlockText

/-! ## What the names of a construct have to be -/

/-- The slots for steps; a block definition has none. -/
def Definition.blockLists : Definition → List Parameter
  | block _ => []
  | context d => d.blockLists
  | trigger d => d.blockLists

structure Definition.WellNamed (d : Definition) : Prop where
  signature : Signature.WellNamed ⟨d.name, d.params, d.blockLists⟩
  returns : ∀ r ∈ d.returns, r.IsRead

structure Library.WellNamed (l : Library) : Prop where
  name : SimpleName.IsRead l.name
  language_ne_nil : l.language ≠ []
  language_trimmed : Text.Trimmed l.language
  language_unclosed : ')' ∉ l.language

structure Trigger.WellNamed (t : Trigger) : Prop where
  ne_nil : t.event ≠ []
  trimmed : Text.Trimmed t.event
  numeral : Number.isNumeral t.event = false

/-- The names that a step itself carries, not those of the steps in it. -/
inductive Step.WellNamed : Step → Prop
  | call {name : Text} {args : List Expression} (h : (Expression.call name args).WellNamed) :
    WellNamed (.call name args)
  | context {name : Text} {args : List Expression} {steps : List Step} {comments : List Comment}
    (h : (Expression.call name args).WellNamed) : WellNamed (.context name args steps comments)
  | hosted {returns : Option Returns} {code : Text} (h : ∀ r ∈ returns, r.IsRead) :
    WellNamed (.hosted returns code)

/-- The names that a construct itself carries, not those of what it holds. -/
def Node.WellNamed : Node → Prop
  | .comment _ => True
  | .unit u => SimpleName.IsRead u.name
  | .library l => l.WellNamed
  | .sprite s => SimpleName.IsRead s.name
  | .stage s => ∀ name ∈ s.name, SimpleName.IsRead name
  | .definition d => d.WellNamed
  | .trigger t => t.WellNamed
  | .step s => s.WellNamed

/-! ## What headers and closing lines give -/

/-- The names in what a header says. -/
def Opening.WellNamed : Opening → Prop
  | unit name | sprite name => SimpleName.IsRead name
  | library name hue language => Library.WellNamed ⟨name, hue, language, [], []⟩
  | stage name => ∀ n ∈ name, SimpleName.IsRead n
  | sounds | costumes => True
  | blockDefinition s => s.WellNamed ∧ s.blockLists = []
  | contextDefinition s | triggerDefinition s => s.WellNamed
  | trigger event => Trigger.WellNamed ⟨event, [], []⟩
  | contextCall call => (Expression.call call.name call.args).WellNamed

theorem Opening.Says.wellNamed {depth : Nat} {line : Line} {o : Opening} (h : Says depth line o) :
    o.WellNamed := by
  cases h with
  | unit h | sprite h => exact (SimpleName.isRead_of_read h).1
  | library hs hn hh hl =>
    have hparts := LibraryHeader.partsOf_ofText? hs
    refine ⟨(SimpleName.isRead_of_read hn).1, fun he => ?_, Text.trimmed_trim _, fun hc => ?_⟩
    · rw [Text.trim_eq_nil_iff.mp he] at hl
      cases hl
    · exact hparts.unclosed (Text.mem_of_mem_trim hc)
  | nameless => exact fun n hn => by cases hn
  | stage h =>
    intro n hn
    cases hn
    exact (SimpleName.isRead_of_read h).1
  | sounds | costumes => trivial
  | blockDefinition h hb => exact ⟨Signature.wellNamed_of_read h, hb⟩
  | contextDefinition h | triggerDefinition h => exact Signature.wellNamed_of_read h
  | trigger hne hn => exact ⟨hne, Text.trimmed_trim _, hn⟩
  | contextCall hd h => exact Call.wellNamed_of_read h

/-- A construct has the names of its header, and those of its closing line. -/
theorem Opening.Finishes.wellNamed {b : Contents} {line : Line} {o : Opening} {node : Node}
    (h : Finishes b line o node) (ho : o.WellNamed) : node.WellNamed := by
  cases h with
  | unit | sprite | stage => exact ho
  | library => exact ⟨ho.name, ho.language_ne_nil, ho.language_trimmed, ho.language_unclosed⟩
  | @blockDefinition s returns hr =>
    obtain ⟨name, params, blockLists⟩ := s
    obtain ⟨hs, rfl⟩ := ho
    exact ⟨hs, Returns.isRead_of_clause hr⟩
  | contextDefinition hr => exact ⟨ho, Returns.isRead_of_clause hr⟩
  | triggerDefinition => exact ⟨ho, fun r hr => by cases hr⟩
  | trigger => exact ⟨ho.ne_nil, ho.trimmed, ho.numeral⟩
  | contextCall => exact .context ho

theorem Made.wellNamed {strict : Bool} {path : Path} {n : Node} (h : Made strict path n) :
    n.WellNamed := by
  cases h with
  | comment => trivial
  | called _ hr => exact Step.WellNamed.call (Call.wellNamed_of_read hr)
  | escaped _ hr => exact Step.WellNamed.hosted (Returns.isRead_of_clause hr)
  | finished _ ho _ _ _ hn => exact (Opening.close_eq_some_iff.mp hn).wellNamed ho.wellNamed

namespace Document

/-- Every construct of a document that is read, at any depth, is well named. -/
theorem wellNamed_of_parse {strict : Bool} {source : Text} {d : Document}
    (h : parse strict source = .ok d) {around : List Node} {n : Node} (hn : d.At around n) :
    n.WellNamed := by
  obtain ⟨path, -, hmade⟩ := hn.made h
  exact hmade.wellNamed

/-- A call with calls in it, in a trigger of a stage. -/
theorem wellNamed_of_parse_call : ∃ d around call,
    parse true "unit A [\nstage [\nwhen x [\nd (e) ((g)  f)\n]\n]\n]".toList = .ok d ∧
      d.At around (.step call) ∧ call.name? = some "d () ()".toList ∧ call.WellNamed := by
  obtain ⟨d, t, call, hd, hcall, hat, hmem⟩ : ∃ d t call,
      parse true "unit A [\nstage [\nwhen x [\nd (e) ((g)  f)\n]\n]\n]".toList = .ok d ∧
        call.name? = some "d () ()".toList ∧ (∃ around, d.At around (.trigger t)) ∧
          (Node.trigger t).contents.Holds (.step call) := by
    refine ⟨_, _, _, rfl, ?_, ⟨_, .inside (n := .trigger _) (.inside (n := .stage _)
      (.unit List.mem_cons_self) List.mem_cons_self) List.mem_cons_self⟩, List.mem_cons_self⟩
    rfl
  obtain ⟨around, hat⟩ := hat
  have hinside := hat.inside hmem
  exact ⟨d, _, call, hd, hinside, hcall, wellNamed_of_parse hd hinside⟩

end Document
end BlockText
