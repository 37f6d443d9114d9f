/-
Printed call lines.

A call line is told by what it is not: no test of a header accepts it.  The printed line of a call
starts like the line that the call was read from, up to its first white space or parenthesis, and has
no bracket in it and no space, since tabs stand for its white space.  So every test that accepts the
printed line accepts the line that was read (`Relaid.accepts`), and the printed line is a call line of
the same category that is not refused and closes nothing either (`Enters.stepCall_print`,
`Enters.contextCall_print`).
-/
import BlockText.Proofs.Print.Header
import BlockText.Proofs.Reading.Grammar

namespace BlockText

/-! ## The fronts of texts -/

namespace Text

/-- A text without white space and parentheses stands in front of a text where it stands in front of
the text's first word. -/
theorem prefix_lead_iff {w t : Text} (hw : ∀ c ∈ w, isSpace c = false ∧ c ≠ '(') :
    w <+: lead t ↔ w <+: t := by
  induction w generalizing t with
  | nil => exact ⟨fun _ => List.nil_prefix, fun _ => List.nil_prefix⟩
  | cons d w ih =>
    have ih := fun t : Text => ih (t := t) fun c hc => hw c (List.mem_cons_of_mem d hc)
    obtain ⟨hspace, hopen⟩ := hw d List.mem_cons_self
    cases t with
    | nil => rfl
    | cons c t =>
      by_cases hc : d = c
      · subst hc
        rw [lead, if_neg (by rw [hspace]; decide), if_neg (by simpa using hopen),
          List.cons_prefix_cons, List.cons_prefix_cons, ih]
      · have hlead : ¬ d :: w <+: lead (c :: t) := by
          intro h
          rw [lead] at h
          split at h
          · rw [List.prefix_nil] at h
            cases h
          · split at h
            · exact hc (List.cons_prefix_cons.mp h).1
            · exact hc (List.cons_prefix_cons.mp h).1
        have htext : ¬ d :: w <+: c :: t := fun h => hc (List.cons_prefix_cons.mp h).1
        exact ⟨fun h => absurd h hlead, fun h => absurd h htext⟩

end Text

namespace Category

/-! ## Telling a call line -/

/-- A line that is told by no other test is a call, of one kind or the other. -/
def IsCall (category : Category) : Prop := category = .contextCall ∨ category = .stepCall

theorem endsWith_bracket_iff {t ending : Text} (h : '[' ∉ t) (he : ending = [] ∨ ending = ['[']) :
    endsWith ['['] (t ++ ending) = true ↔ ending = ['['] := by
  rcases he with rfl | rfl
  · rw [List.append_nil]
    refine ⟨fun hs => ?_, fun hn => by cases hn⟩
    exact absurd ((List.isSuffixOf_iff_suffix.mp hs).subset List.mem_cons_self) h
  · exact ⟨fun _ => rfl, fun _ => endsWith_append _ _⟩

variable {t : Text}

theorem ofLine_eq_find? (ht : t.Trimmed) :
    ofLine t = (cascade.find? (·.acceptsTrimmed t)).getD .stepCall := by
  have haccepts : (fun c : Category => c.accepts t) = fun c => c.acceptsTrimmed t := by
    funext c
    rw [accepts, Text.trim_of_trimmed ht]
  rw [ofLine, firstOf, haccepts]

theorem ofLine_of_rejects (ht : t.Trimmed)
    (h : ∀ c ∈ cascade.dropLast, c.acceptsTrimmed t = false) :
    ofLine t = if endsWith ['['] t = true then .contextCall else .stepCall := by
  have hcascade : cascade = cascade.dropLast ++ [.contextCall] := rfl
  have hnone : cascade.dropLast.find? (·.acceptsTrimmed t) = none := by
    rw [List.find?_eq_none]
    intro c hc
    rw [h c hc]
    decide
  rw [ofLine_eq_find? ht, hcascade, List.find?_append, hnone, Option.none_or, List.find?_singleton]
  show (if endsWith ['['] t = true then some contextCall else none).getD stepCall = _
  split <;> rfl

/-- A call line is one that every other test rejects. -/
theorem rejects_of_isCall (ht : t.Trimmed) (h : IsCall (ofLine t)) :
    ∀ c ∈ cascade.dropLast, c.acceptsTrimmed t = false := by
  intro c hc
  rw [Bool.eq_false_iff]
  intro ha
  -- the first test that accepts is one of these, and none of these is of a call
  have hsome : (cascade.dropLast.find? (·.acceptsTrimmed t)).isSome = true :=
    List.find?_isSome.mpr ⟨c, hc, ha⟩
  obtain ⟨d, hd⟩ := Option.isSome_iff_exists.mp hsome
  have hline : ofLine t = d := by
    have hcascade : cascade = cascade.dropLast ++ [.contextCall] := rfl
    rw [ofLine_eq_find? ht, hcascade, List.find?_append, hd]
    rfl
  have hmem := List.mem_of_find?_eq_some hd
  rw [hline] at h
  rcases h with rfl | rfl <;> revert hmem <;> decide

end Category

/-! ## Call lines laid out anew -/

/-- The text of a call and the blank space behind it, laid out anew as another text. -/
structure Relaid (text blank print : Text) : Prop where
  blank : blank.isBlank = true
  lead : Text.lead print = Text.lead text
  textBracket : '[' ∉ text
  bracket : '[' ∉ print
  space : ' ' ∉ print
  ne_nil : print ≠ []

namespace Relaid

variable {text blank print ending : Text}

theorem prefix_text (h : Relaid text blank print) (he : ending = [] ∨ ending = ['[']) {w : Text}
    (hw : ∀ c ∈ w, Text.isSpace c = false ∧ c ≠ '(') (hb : '[' ∉ w) (hp : w <+: print ++ ending) :
    w <+: text ++ blank ++ ending := by
  have hprint : w <+: print := by
    rcases he with rfl | rfl
    · rwa [List.append_nil] at hp
    · rcases List.prefix_concat_iff.mp hp with rfl | hp
      · exact absurd (List.mem_append_right print List.mem_cons_self) hb
      · exact hp
  have htext : w <+: text := by
    rwa [← Text.prefix_lead_iff hw, ← h.lead, Text.prefix_lead_iff hw]
  exact (htext.trans (List.prefix_append text blank)).trans (List.prefix_append _ ending)

theorem bracket_not_mem (h : Relaid text blank print) : '[' ∉ text ++ blank := by
  rw [List.mem_append, not_or]
  refine ⟨h.textBracket, fun hm => ?_⟩
  exact absurd (Text.isBlank_iff.mp h.blank _ hm) (by decide)

theorem heads_iff (h : Relaid text blank print) (he : ending = [] ∨ ending = ['['])
    (k : Keyword) : k.heads (print ++ ending) = true ↔ k.heads (text ++ blank ++ ending) = true := by
  rw [Keyword.heads_append_iff h.bracket he, Keyword.heads_append_iff h.bracket_not_mem he,
    Text.lead_append_of_blank _ h.blank, h.lead]

/-- No opening words stand in front of a printed call, since no space is in it. -/
theorem isNamed_eq_false (h : Relaid text blank print) (he : ending = [] ∨ ending = ['['])
    (opening : Text) : Category.isNamed opening (print ++ ending) = false := by
  rw [Category.isNamed, Bool.and_eq_false_iff]
  refine Or.inl ?_
  rw [Bool.eq_false_iff]
  intro hp
  have hmem : ' ' ∈ print ++ ending :=
    (List.isPrefixOf_iff_prefix.mp hp).subset (List.mem_append_right opening List.mem_cons_self)
  rcases List.mem_append.mp hmem with hm | hm
  · exact h.space hm
  · rcases he with rfl | rfl <;> revert hm <;> decide

/-- The test of a keyword that may stand alone. -/
theorem isKeyed_text (h : Relaid text blank print) (he : ending = [] ∨ ending = ['['])
    {k : Keyword} (hk : Category.isKeyed k ['['] (print ++ ending) = true) :
    Category.isKeyed k ['['] (text ++ blank ++ ending) = true := by
  rw [Category.isKeyed, Bool.and_eq_true] at hk ⊢
  refine ⟨(h.heads_iff he k).mp hk.1, ?_⟩
  rw [(Category.endsWith_bracket_iff h.bracket he).mp hk.2]
  exact Category.endsWith_append _ _

theorem not_mark_suffix (h : Relaid text blank print) (he : ending = [] ∨ ending = ['[']) :
    Category.endsWith ['[', '@'] (print ++ ending) = false := by
  rw [Bool.eq_false_iff]
  intro hs
  obtain ⟨y, hy⟩ := List.isSuffixOf_iff_suffix.mp hs
  rcases he with rfl | rfl
  · refine h.bracket ?_
    rw [← List.append_nil print, ← hy]
    exact List.mem_append_right y List.mem_cons_self
  · have hlast := congrArg List.getLast? hy
    rw [List.getLast?_append, List.getLast?_append] at hlast
    cases hlast

/-- A test that accepts a printed line accepts the line that was read. -/
theorem accepts (h : Relaid text blank print) (he : ending = [] ∨ ending = ['['])
    {category : Category} (hc : category ≠ .stepCall)
    (ha : category.acceptsTrimmed (print ++ ending) = true) :
    category.acceptsTrimmed (text ++ blank ++ ending) = true := by
  have hslash : ∀ c ∈ ['/', '/'], Text.isSpace c = false ∧ c ≠ '(' :=
    List.forall_mem_cons.mpr ⟨by decide, List.forall_mem_cons.mpr ⟨by decide, by simp⟩⟩
  have hstar : ∀ c ∈ ['/', '*'], Text.isSpace c = false ∧ c ≠ '(' :=
    List.forall_mem_cons.mpr ⟨by decide, List.forall_mem_cons.mpr ⟨by decide, by simp⟩⟩
  cases category with
  | blank =>
    have hnil := List.append_eq_nil_iff.mp (List.isEmpty_iff.mp ha)
    exact absurd hnil.1 h.ne_nil
  | comment =>
    rw [Category.acceptsTrimmed, Bool.or_eq_true] at ha ⊢
    rw [List.isPrefixOf_iff_prefix, List.isPrefixOf_iff_prefix] at ha ⊢
    exact ha.imp (h.prefix_text he hslash (by decide)) (h.prefix_text he hstar (by decide))
  | unit | library | sprite | blockDefinition | trigger =>
    rw [Category.acceptsTrimmed, h.isNamed_eq_false he] at ha
    cases ha
  | contextDefinition | triggerDefinition =>
    rw [Category.acceptsTrimmed, h.isNamed_eq_false he] at ha
    cases ha
  | stage | costumes | sounds => exact h.isKeyed_text he ha
  | hosted =>
    rw [Category.acceptsTrimmed, Category.isKeyed, h.not_mark_suffix he, Bool.and_false] at ha
    cases ha
  | contextCall =>
    have hending := (Category.endsWith_bracket_iff h.bracket he).mp ha
    rw [hending]
    exact Category.endsWith_append _ _
  | stepCall => exact absurd rfl hc

/-- A call line keeps its category. -/
theorem ofLine_eq (h : Relaid text blank print) (he : ending = [] ∨ ending = ['['])
    (hold : (text ++ blank ++ ending).Trimmed) (hnew : (print ++ ending).Trimmed)
    (hcall : Category.IsCall (Category.ofLine (text ++ blank ++ ending))) :
    Category.ofLine (print ++ ending) = Category.ofLine (text ++ blank ++ ending) := by
  have hrejects := Category.rejects_of_isCall hold hcall
  have hrejects' : ∀ c ∈ Category.cascade.dropLast,
      c.acceptsTrimmed (print ++ ending) = false := by
    intro c hc
    rw [Bool.eq_false_iff]
    intro ha
    have hne : c ≠ .stepCall := by
      rintro rfl
      revert hc
      decide
    have hold := h.accepts he hne ha
    rw [hrejects c hc] at hold
    cases hold
  rw [Category.ofLine_of_rejects hnew hrejects', Category.ofLine_of_rejects hold hrejects]
  simp only [Category.endsWith_bracket_iff h.bracket he,
    Category.endsWith_bracket_iff h.bracket_not_mem he]

/-- A printed line that starts with a closing bracket stands for a line that does. -/
theorem closing_prefix (h : Relaid text blank print) (he : ending = [] ∨ ending = ['['])
    (hp : [']'] <+: print ++ ending) : [']'] <+: text ++ blank ++ ending :=
  h.prefix_text he (List.forall_mem_cons.mpr ⟨by decide, by simp⟩) (by decide) hp

end Relaid

/-! ## Printed lines in their places -/

/-- A line closes nothing if it starts with a closing bracket, or is one, only where another line
does that closes nothing. -/
theorem Path.unclosed_of_imp {path : Path} {t u : Text} (hp : [']'] <+: u → [']'] <+: t)
    (he : u = [']'] → t = [']']) (h : path.closedBy t = false) : path.closedBy u = false := by
  cases path with
  | nil => rfl
  | cons o path =>
    rw [Bool.eq_false_iff] at h ⊢
    intro hu
    refine h ?_
    cases o with
    | blockDefinition | contextDefinition | triggerDefinition =>
      exact List.isPrefixOf_iff_prefix.mpr (hp (List.isPrefixOf_iff_prefix.mp hu))
    | _ => exact beq_iff_eq.mpr (he (beq_iff_eq.mp hu))

/-- A line that starts with no closing bracket closes nothing. -/
theorem Path.unclosed_of_head {t : Text} (path : Path) (h : t.head? ≠ some ']') :
    path.closedBy t = false := by
  have hp : ¬ [']'] <+: t := by
    rintro ⟨rest, rfl⟩
    exact h rfl
  cases path with
  | nil => rfl
  | cons o path =>
    rw [Bool.eq_false_iff]
    intro ht
    cases o with
    | blockDefinition | contextDefinition | triggerDefinition =>
      exact hp (List.isPrefixOf_iff_prefix.mp ht)
    | _ => exact hp ((beq_iff_eq.mp ht) ▸ List.prefix_rfl)

/-- A line that is no call and starts with no closing bracket starts what its category says. -/
theorem Enters.of_text {strict : Bool} {path : Path} {t : Text} {category : Category}
    (hcat : Category.ofLine t = category) (hcall : ¬ Category.IsCall category)
    (hp : Category.permits path.parent category = true) (hhead : t.trim.head? ≠ some ']')
    (hf : '\n' ∉ t) : Enters strict path (.bare t) category :=
  ⟨path.unclosed_of_head hhead,
    State.categorize_eq_ok_iff.mpr ⟨hcat, fun _ hc => absurd hc hcall⟩, hp, hf⟩

namespace Call

variable {text : Text} {call : Call}

theorem print_ne_nil (f : NumberNotation) (h : read text = .ok call) : call.print f ≠ [] := by
  intro hnil
  have hr := read_print f h
  rw [hnil] at hr
  cases hr

theorem relaid (f : NumberNotation) (h : read text = .ok call)
    (ht : ∀ c ∈ text.head?, Text.isSpace c = false) {blank : Text}
    (hb : Text.isBlank blank = true) : Relaid text blank (call.print f) where
  blank := hb
  lead := lead_print f h ht
  textBracket := openBracket_not_mem h
  bracket := openBracket_not_mem (read_print f h)
  space := fun hm => absurd (tabbed_print f h _ hm (by decide)) (by decide)
  ne_nil := print_ne_nil f h

/-- The printed header of a context call. -/
theorem trimmed_header (f : NumberNotation) (h : read text = .ok call) :
    Text.Trimmed (call.print f ++ ['[']) :=
  Text.trimmed_append (print_ne_nil f h) (List.cons_ne_nil _ _) (trimmed_print f h).head
    (Text.forall_mem_some (by decide))

theorem feedless_print (f : NumberNotation) (h : read text = .ok call) : '\n' ∉ call.print f :=
  fun hm => absurd (tabbed_print f h _ hm (by decide)) (by decide)

/-- A call that is printed as a closing bracket was one. -/
theorem eq_of_print_eq_closing (f : NumberNotation) (h : read text = .ok call)
    (ht : Text.Trimmed text) (hp : call.print f = [']']) : text = [']'] := by
  have hcall : read [']'] = .ok ⟨[']'], []⟩ := by
    rfl
  have hread := read_print f h
  rw [hp, hcall] at hread
  cases hread
  obtain ⟨-, -, literal, hs, hname⟩ := read_eq_ok_iff.mp h
  obtain ⟨rfl, -⟩ := hs.eq_of_args_nil
  have hspace := Text.no_space_trim_of_collapse (t := text) (by rw [← hname]; decide)
  have hcollapse := Text.collapse_eq_trim hspace
  rw [Text.trim_of_trimmed ht] at hcollapse
  exact hcollapse.symm.trans hname.symm

end Call

namespace Enters

variable {strict : Bool} {path : Path} {line : Line} {category : Category} {call : Call}

/-- A call line that is laid out anew starts the same in its place. -/
theorem relaid {text blank print ending : Text} (h : Enters strict path line category)
    (hcall : Category.IsCall category) (hr : Relaid text blank print)
    (he : ending = [] ∨ ending = ['[']) (hl : line.trimmed = text ++ blank ++ ending)
    (hclose : print ++ ending = [']'] → text ++ blank ++ ending = [']'])
    (hnew : Text.Trimmed (print ++ ending)) (hf : '\n' ∉ print ++ ending) :
    Enters strict path (.bare (print ++ ending)) category := by
  obtain ⟨hcat, hheading⟩ := State.categorize_eq_ok_iff.mp h.categorized
  have htrim : (Line.bare (print ++ ending)).trimmed = print ++ ending := Text.trim_of_trimmed hnew
  have htrimmed : Text.Trimmed (text ++ blank ++ ending) := by
    rw [← hl]
    exact Text.trimmed_trim line.text
  have hold : Category.ofLine line.text = Category.ofLine (text ++ blank ++ ending) := by
    have hbare : line.trimmed = (Line.bare (text ++ blank ++ ending)).trimmed := by
      rw [hl]
      exact (Text.trim_of_trimmed htrimmed).symm
    exact Category.ofLine_congr hbare
  refine ⟨?_, State.categorize_eq_ok_iff.mpr ⟨?_, fun hs hc => ?_⟩, h.permitted, hf⟩
  · have hu := h.unclosed
    rw [hl] at hu
    rw [htrim]
    exact Path.unclosed_of_imp (hr.closing_prefix he) hclose hu
  · rw [← hcat, hold]
    refine hr.ofLine_eq he htrimmed hnew ?_
    rwa [← hold, hcat]
  · have hnone := Keyword.heading?_eq_none_iff.mp (hheading hs hc)
    rw [htrim, Keyword.heading?_eq_none_iff]
    intro k
    rw [Bool.eq_false_iff]
    intro hk
    have hk := (hr.heads_iff he k).mp hk
    rw [← hl, hnone k] at hk
    cases hk

theorem stepCall_print (f : NumberNotation) (h : Enters strict path line .stepCall)
    (hr : Call.read line.trimmed = .ok call) :
    Enters strict path (.bare (call.print f)) .stepCall := by
  have htrimmed := Text.trimmed_trim line.text
  have hrelaid : Relaid line.trimmed [] (call.print f) := Call.relaid f hr htrimmed.head rfl
  have hl : line.trimmed = line.trimmed ++ [] ++ [] := by
    rw [List.append_nil, List.append_nil]
  have hclose : call.print f ++ [] = [']'] → line.trimmed ++ [] ++ [] = [']'] := by
    rw [← hl, List.append_nil]
    exact Call.eq_of_print_eq_closing f hr htrimmed
  have hnew : Text.Trimmed (call.print f ++ []) := by
    rw [List.append_nil]
    exact Call.trimmed_print f hr
  have hf : '\n' ∉ call.print f ++ [] := by
    rw [List.append_nil]
    exact Call.feedless_print f hr
  have henter := h.relaid (Or.inr rfl) hrelaid (Or.inl rfl) hl hclose hnew hf
  rwa [List.append_nil] at henter

theorem contextCall_print (f : NumberNotation) (h : Enters strict path line .contextCall)
    (hr : Call.read (Opening.headerText [] line) = .ok call) :
    Enters strict path (.bare (call.print f ++ ['['])) .contextCall := by
  have hcat := (State.categorize_eq_ok_iff.mp h.categorized).1
  have haccepts := Category.acceptsTrimmed_of_ofLine hcat (by decide)
  obtain ⟨b, hb, hl⟩ := headerText_bracket haccepts
  have hrelaid := Call.relaid f hr (Text.trimmed_trim _).head hb
  refine h.relaid (Or.inl rfl) hrelaid (Or.inr rfl) hl (fun hclose => ?_)
    (Call.trimmed_header f hr) ?_
  · have hlast := congrArg List.getLast? hclose
    rw [List.getLast?_append] at hlast
    cases hlast
  · rw [List.mem_append, not_or]
    exact ⟨Call.feedless_print f hr, by decide⟩

end Enters
end BlockText
