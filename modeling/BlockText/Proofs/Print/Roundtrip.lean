/-
Printed documents are read back.

Whatever the layout of a source was, the document that was read of it is read of its printed form too
(`Document.parse_print`).  The induction is on the derivation of a construct: its printed header opens
the same, the printed lines of what it holds are entries there, and its closing line finishes the same
construct (`Made.item_print`).  The path of a printed construct is the path of the original, so the
depth of context calls is the same as well.
-/
import BlockText.Proofs.Print.Document

namespace BlockText

/-! ## Headers -/

/-- The printed header of a construct opens the construct in its place. -/
theorem Enters.header_print {strict : Bool} {path : Path} {line : Line} {o : Opening}
    (f : NumberNotation) (h : Enters strict path line o.category)
    (ho : Opening.Says path.contextDepth line o) :
    Enters strict path (.bare (o.print f)) o.category ∧
      Opening.Says path.contextDepth (.bare (o.print f)) o := by
  by_cases hcall : o.category = .contextCall
  · cases ho with
    | contextCall hd hr =>
      rename_i call
      have henter := h.contextCall_print f hr
      have htext : Opening.headerText [] (.bare (call.print f ++ ['['])) = call.print f := by
        have htrimmed : (Line.bare (call.print f ++ ['['])).trimmed =
            [] ++ (call.print f ++ ['[']) := Text.trim_of_trimmed (Call.trimmed_header f hr)
        rw [Opening.headerText_append htrimmed, Text.trim_of_trimmed (Call.trimmed_print f hr)]
      refine ⟨henter, .contextCall hd ?_⟩
      show Call.read (Opening.headerText [] (.bare (call.print f ++ ['[']))) = .ok call
      rw [htext]
      exact Call.read_print f hr
    | _ => cases hcall
  · have hcat := (State.categorize_eq_ok_iff.mp h.categorized).1
    have hprint := Opening.reprints_print f hcat ho h.feedless hcall
    have htrim := Text.trim_of_trimmed hprint.trimmed
    refine ⟨.of_text hprint.category (fun hc => ?_) h.permitted ?_ hprint.feedless,
      hprint.reads _ htrim⟩
    · rcases hc with hc | hc
      · exact hcall hc
      · exact (Opening.opens_category o).2.2.2 hc
    · rw [htrim]
      exact hprint.head

/-! ## Closing lines -/

/-- The printed closing line finishes a construct of what it holds. -/
theorem Opening.Finishes.closing {b : Contents} {line : Line} {o : Opening} {node : Node}
    (h : Finishes b line o node) :
    o.closesOn node.closing.trim = true ∧ '\n' ∉ node.closing ∧
      Finishes node.contents (.bare node.closing) o node := by
  have hdefinition : ∀ {returns : Option Returns} {s : Signature},
      closingReturns s.name line = .ok returns →
      [']'].isPrefixOf (Returns.closing returns).trim = true ∧ '\n' ∉ Returns.closing returns ∧
        closingReturns s.name (.bare (Returns.closing returns)) = .ok returns := by
    intro returns s hr
    have hread : ∀ r ∈ returns, r.IsRead := Returns.isRead_of_clause hr
    have htrim := Text.trim_of_trimmed (Returns.trimmed_closing hread)
    refine ⟨?_, Returns.feedless_closing hread, Returns.closingReturns_closing hread s.name htrim⟩
    rw [htrim]
    cases returns <;> rfl
  have hfeed : '\n' ∉ [']'] := by decide
  cases h with
  | unit name => exact ⟨rfl, hfeed, .unit name⟩
  | library name hue language => exact ⟨rfl, hfeed, .library name hue language⟩
  | sprite name =>
    have hfinishes := @Finishes.sprite b.actor.contents (.bare [']']) name
    rw [Actor.actor_contents] at hfinishes
    exact ⟨rfl, hfeed, hfinishes⟩
  | stage name =>
    have hfinishes := @Finishes.stage b.actor.contents (.bare [']']) name
    rw [Actor.actor_contents] at hfinishes
    exact ⟨rfl, hfeed, hfinishes⟩
  | blockDefinition hr =>
    obtain ⟨hcloses, hfeed, hread⟩ := hdefinition hr
    exact ⟨hcloses, hfeed, .blockDefinition hread⟩
  | contextDefinition hr =>
    obtain ⟨hcloses, hfeed, hread⟩ := hdefinition hr
    exact ⟨hcloses, hfeed, .contextDefinition hread⟩
  | triggerDefinition hl => exact ⟨rfl, hfeed, .triggerDefinition rfl⟩
  | trigger event => exact ⟨rfl, hfeed, .trigger event⟩
  | contextCall call => exact ⟨rfl, hfeed, .contextCall call⟩

/-! ## Constructs -/

/-- The entries that constructs are printed as. -/
def printed (f : NumberNotation) (nodes : List Node) : List (List Text × Option Node) :=
  nodes.map fun n => (n.print f, some n)

theorem flatMap_printed (f : NumberNotation) (nodes : List Node) :
    (printed f nodes).flatMap (·.1) = nodes.flatMap (Node.print f) := by
  rw [printed, List.flatMap_map]

theorem filterMap_printed (f : NumberNotation) (nodes : List Node) :
    (printed f nodes).filterMap (·.2) = nodes := by
  rw [printed, List.filterMap_map]
  exact List.filterMap_some

/-- The printed lines of a construct are an entry of its place. -/
theorem Made.item_print {strict : Bool} {path : Path} {node : Node} (f : NumberNotation)
    (h : Made strict path node) :
    Item strict path (node.print f) (some node) ∧ ∀ t ∈ node.print f, '\n' ∉ t := by
  induction h with
  | comment h hc => exact Comment.item_print hc h.permitted
  | called h hr =>
    rename_i call
    have henter := h.stepCall_print f hr
    refine ⟨.called henter ?_, fun t ht => ?_⟩
    · rw [Text.trim_of_trimmed (Call.trimmed_print f hr)]
      exact Call.read_print f hr
    · rw [List.mem_singleton.mp ht]
      exact henter.feedless
  | escaped h hr hcode =>
    exact Hosted.item_print h.permitted (Returns.isRead_of_clause hr) hcode
  | finished h ho hb hc hf hn ih =>
    have hfin := Opening.close_eq_some_iff.mp hn
    obtain ⟨henter, hsays⟩ := h.header_print f ho
    obtain ⟨hcloses, hfeed, hcontents⟩ := hfin.closing
    rename_i path header close o b node
    have hheld : ∀ n ∈ node.contents.nodes, b.Holds n := fun n hn =>
      hfin.holds (Contents.mem_nodes_iff.mp hn)
    rw [hfin.print_eq f ho]
    refine ⟨?_, fun t ht => ?_⟩
    · have hitems : ∀ i ∈ printed f node.contents.nodes, Item strict (o :: path) i.1 i.2 := by
        intro i hi
        obtain ⟨n, hn, rfl⟩ := List.mem_map.mp hi
        exact (ih n (hheld n hn)).1
      have hclose : o.close (.ofNodes ((printed f node.contents.nodes).filterMap (·.2)))
          (.bare node.closing) = .ok (some node) := by
        rw [filterMap_printed, Contents.ofNodes_nodes]
        exact Opening.close_eq_some_iff.mpr hcontents
      have hitem := Item.finished henter hsays hitems hcloses hclose
      rwa [flatMap_printed] at hitem
    · rcases List.mem_cons.mp ht with rfl | ht
      · exact henter.feedless
      · rcases List.mem_append.mp ht with ht | ht
        · obtain ⟨n, hn, ht⟩ := List.mem_flatMap.mp ht
          exact (ih n (hheld n hn)).2 t ht
        · rw [List.mem_singleton.mp ht]
          exact hfeed

/-! ## Documents -/

/-- Lines with their endings are the lines of a source, and an empty one behind them. -/
theorem Line.map_text_flatMap {lines : List Text} (h : ∀ t ∈ lines, '\n' ∉ t) :
    (ofSource (lines.flatMap fun line => line ++ ['\r', '\n'])).map text = lines ++ [[]] := by
  rw [map_text_ofSource]
  induction lines with
  | nil => rfl
  | cons t lines ih =>
    have hfeed : ∀ p ∈ [t ++ ['\r']], '\n' ∉ p := by
      intro p hp
      rw [List.mem_singleton.mp hp, List.mem_append, not_or]
      exact ⟨h t List.mem_cons_self, by decide⟩
    have hpieces := Text.pieces_joinLines hfeed (List.cons_ne_nil _ _)
    rw [Text.joinLines_singleton] at hpieces
    have hsplit : (t :: lines).flatMap (fun line => line ++ ['\r', '\n']) =
        (t ++ ['\r']) ++ '\n' :: lines.flatMap (fun line => line ++ ['\r', '\n']) := by
      rw [List.flatMap_cons, List.append_assoc, List.append_assoc]
      rfl
    have hrest := ih fun u hu => h u (List.mem_cons_of_mem t hu)
    rw [hsplit, Text.pieces_append, hpieces, List.map_append, hrest, List.map_singleton,
      Text.dropSuffix_append]
    rfl

namespace Document

theorem lines_eq (f : NumberNotation) (d : Document) :
    d.lines f = d.contents.nodes.flatMap (Node.print f) := by
  simp [lines, Contents.nodes, contents, Contents.empty, Node.print, List.flatMap_map]

/-- A document that is read is read of its printed form, in whatever notation its numbers are
written. -/
theorem parse_print {strict : Bool} {source : Text} {d : Document}
    (h : parse strict source = .ok d) (f : NumberNotation) :
    parse strict (d.print f) = .ok d := by
  obtain ⟨hcomments, hunits⟩ := made_of_parse h
  have hmade : ∀ n ∈ d.contents.nodes, Made strict [] n := by
    intro n hn
    have hholds := Contents.mem_nodes_iff.mp hn
    cases n with
    | comment c => exact hcomments c hholds
    | unit u => exact hunits u hholds
    | _ => exact absurd hholds List.not_mem_nil
  have hfeed : ∀ t ∈ d.lines f, '\n' ∉ t := by
    intro t ht
    rw [lines_eq] at ht
    obtain ⟨n, hn, ht⟩ := List.mem_flatMap.mp ht
    exact ((hmade n hn).item_print f).2 t ht
  have hblank : Item strict [] [[]] none := by
    refine .blank rfl ?_
    cases strict <;> rfl
  refine parse_eq_ok_iff_body.mpr
    ⟨d.contents, ⟨printed f d.contents.nodes ++ [([[]], none)], fun i hi => ?_, ?_, ?_⟩, rfl⟩
  · rcases List.mem_append.mp hi with hi | hi
    · obtain ⟨n, hn, rfl⟩ := List.mem_map.mp hi
      exact ((hmade n hn).item_print f).1
    · rw [List.mem_singleton.mp hi]
      exact hblank
  · rw [List.flatMap_append, flatMap_printed, ← lines_eq]
    exact (Line.map_text_flatMap hfeed).symm
  · rw [List.filterMap_append, filterMap_printed]
    show Contents.ofNodes (d.contents.nodes ++ []) = _
    rw [List.append_nil, Contents.ofNodes_nodes]

/-- A comment that ends in an empty line, and a call with a call in it. -/
theorem parse_print_trigger :
    ∃ d, parse true ['u', 'n', 'i', 't', ' ', ' ', 'A', '[', '\n', 's', 't', 'a', 'g', 'e', '[',
        '\n', 'w', 'h', 'e', 'n', ' ', 'e', '[', '\n', '/', '*', 'a', '\n', '\n', '*', '/', '\n',
        'g', 'o', ' ', '(', ' ', 'b', ' ', ')', '\n', ']', '\n', ']', '\n', ']'] = .ok d ∧
      d.print ⟨-5, 16, true, .toEven⟩ = ("unit A [\r\nstage [\r\nwhen e [\r\n/* a\r\n\r\n*/\r\n" ++
        "go\t(b)\r\n]\r\n]\r\n]\r\n").toList ∧
      parse true (d.print ⟨-5, 16, true, .toEven⟩) = .ok d := by
  have h : parse true ['u', 'n', 'i', 't', ' ', ' ', 'A', '[', '\n', 's', 't', 'a', 'g', 'e', '[',
      '\n', 'w', 'h', 'e', 'n', ' ', 'e', '[', '\n', '/', '*', 'a', '\n', '\n', '*', '/', '\n',
      'g', 'o', ' ', '(', ' ', 'b', ' ', ')', '\n', ']', '\n', ']', '\n', ']'] =
      .ok ⟨[], [⟨['A'], [], [], [], [⟨none, [], [], [⟨['e'],
        [.call ['g', 'o', ' ', '(', ')'] [.call ['b'] []]], [⟨['a', '\n']⟩]⟩]⟩]⟩]⟩ := rfl
  exact ⟨_, h, rfl, parse_print h _⟩

end Document
end BlockText
