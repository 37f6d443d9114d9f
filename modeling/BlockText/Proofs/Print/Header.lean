/-
Printed headers and closing lines.

A header is printed as its opening words, what it says, and a bracket, with single spaces between
them.  `Opening.reprints_print` says that the printed header of every construct but a context call is
told by its category and says what was read; context calls have no opening words, so their category
is a matter of the whole line, and they are apart.

A closing line is printed as a bracket and the clause behind it, if there is one
(`Returns.closingReturns_closing`).
-/
import BlockText.Proofs.Print.Clause
import BlockText.Proofs.Print.Signature
import BlockText.Proofs.Reading.Header
import BlockText.Proofs.Text.Lines

namespace BlockText

/-! ## Telling the category of a trimmed line -/

namespace Category

/-- A category is told where its test accepts and the tests before it in the cascade do not. -/
theorem ofLine_eq_of_find? {t : Text} (ht : Text.Trimmed t) {category : Category}
    {rest : List Category}
    (hskip : cascade.find? (·.acceptsTrimmed t) = (category :: rest).find? (·.acceptsTrimmed t))
    (hc : category.acceptsTrimmed t = true) : ofLine t = category := by
  have haccepts : (fun c : Category => c.accepts t) = fun c => c.acceptsTrimmed t := by
    funext c
    rw [accepts, Text.trim_of_trimmed ht]
  rw [ofLine, firstOf, haccepts, hskip, List.find?_cons, hc]
  rfl

theorem endsWith_append (t ending : Text) : endsWith ending (t ++ ending) = true :=
  List.isSuffixOf_iff_suffix.mpr (List.suffix_append t ending)

/-- The opening words start with no space and close nothing. -/
theorem head?_opening (category : Category) :
    ∀ c ∈ category.opening.head?, Text.isSpace c = false ∧ c ≠ ']' := by
  have hall : category.opening.head?.all (fun c => !Text.isSpace c && c != ']') = true := by
    cases category <;> decide
  intro c hc
  rw [Option.mem_def.mp hc] at hall
  simpa using hall

theorem not_mem_opening (category : Category) :
    '\n' ∉ category.opening ∧ '(' ∉ category.opening := by
  cases category <;> decide

end Category

/-! ## Clauses of lines -/

namespace Returns

/-- The clause of a line that gives this back. -/
def clause (returns : Option Returns) : Text := (returns.map print).getD []

/-- The line that closes a definition that gives this back. -/
def closing : Option Returns → Text
  | none => [']']
  | some r => ']' :: ' ' :: r.print

variable {returns : Option Returns}

/-- The clause of a line that is read can be printed. -/
theorem isRead_of_clause {text block : Text} {line : Line}
    (h : (if text.isEmpty then Except.ok none
      else some <$> Opening.atLine line (read text block)) = .ok returns) :
    ∀ r ∈ returns, r.IsRead := by
  split at h
  · cases h
    exact fun r hr => by cases hr
  · obtain ⟨r, hr, rfl⟩ := Outcome.map_eq_ok_iff.mp h
    intro r' hr'
    cases hr'
    exact isRead_of_read (Opening.atLine_eq_ok_iff.mp hr)

theorem read_clause (h : ∀ r ∈ returns, r.IsRead) (block : Text) (line : Line) :
    (if (clause returns).isEmpty then Except.ok none
      else some <$> Opening.atLine line (read (clause returns) block)) = .ok returns := by
  cases returns with
  | none => rfl
  | some r =>
    have hne : ¬ (clause (some r)).isEmpty = true := by
      rw [List.isEmpty_iff]
      exact r.print_ne_nil
    have hread : read (clause (some r)) block = .ok r := read_print (h r rfl) block
    rw [if_neg hne, hread]
    rfl

theorem trimmed_closing (h : ∀ r ∈ returns, r.IsRead) : Text.Trimmed (closing returns) := by
  cases returns with
  | none => exact ⟨Text.forall_mem_some (by decide), Text.forall_mem_some (by decide)⟩
  | some r =>
    have ht := trimmed_print (h r rfl)
    exact Text.trimmed_append (a := [']', ' ']) (by decide) r.print_ne_nil
      (Text.forall_mem_some (by decide)) ht.last

theorem feedless_closing (h : ∀ r ∈ returns, r.IsRead) : '\n' ∉ closing returns := by
  cases returns with
  | none => decide
  | some r =>
    rw [closing, List.mem_cons, List.mem_cons, not_or, not_or]
    exact ⟨by decide, by decide, feedless_print (h r rfl)⟩

/-- A printed closing line gives back what it was printed for. -/
theorem closingReturns_closing (h : ∀ r ∈ returns, r.IsRead) (block : Text) {line : Line}
    (hl : line.trimmed = closing returns) :
    Opening.closingReturns block line = .ok returns := by
  have hclause : Text.trim ((closing returns).dropWhile (· == ']')) = clause returns := by
    cases returns with
    | none => rfl
    | some r =>
      have hdrop : (closing (some r)).dropWhile (· == ']') = [' '] ++ r.print := rfl
      rw [hdrop, Text.blank_append_trim (by decide), Text.trim_of_trimmed (trimmed_print (h r rfl))]
      rfl
  rw [Opening.closingReturns, hl, hclause]
  exact read_clause h block line

end Returns

namespace Opening

/-! ## The layout of a header -/

/-- Opening words, what the header says, and a bracket. -/
def headed (opening said : Text) : Text := opening ++ ' ' :: (said ++ [' ', '['])

theorem headed_eq (opening said : Text) :
    headed opening said = opening ++ ' ' :: (said ++ [' ']) ++ ['['] := by
  rw [headed, List.append_assoc, List.cons_append, List.append_assoc, List.singleton_append]

/-- A header that stands alone between its opening words and its bracket. -/
def bare (opening : Text) : Text := opening ++ [' ', '[']

theorem trimmed_of_opening {category : Category} (hne : category.opening ≠ []) (t : Text) :
    Text.Trimmed (category.opening ++ (t ++ ['['])) := by
  refine Text.trimmed_append hne (List.append_ne_nil_of_right_ne_nil t (List.cons_ne_nil _ _))
    (fun c hc => (category.head?_opening c hc).1) fun c hc => ?_
  rw [List.getLast?_append] at hc
  cases hc
  decide

theorem headerText_append {line : Line} {opening t : Text}
    (h : line.trimmed = opening ++ (t ++ ['['])) : headerText opening line = t.trim := by
  rw [headerText, h, Text.dropPrefix_append, Text.dropSuffix_append]

/-- What is around the text that a named header says. -/
theorem exists_headerText {opening : Text} {line : Line}
    (h : Category.isNamed opening line.trimmed = true) :
    ∃ a b, Text.isBlank a = true ∧ Text.isBlank b = true ∧
      line.trimmed = opening ++ (a ++ headerText opening line ++ b ++ ['[']) := by
  rw [Category.isNamed, Bool.and_eq_true] at h
  obtain ⟨x, hx⟩ := List.isPrefixOf_iff_prefix.mp h.1
  have hend : ['['] <:+ line.trimmed := List.isSuffixOf_iff_suffix.mp h.2
  have hsuffix : ['['] <:+ x := by
    rcases List.suffix_or_suffix_of_suffix hend ⟨_, hx⟩ with hs | hs
    · exact hs
    · -- the space behind the opening words is no bracket
      rcases List.suffix_cons_iff.mp hs with rfl | hs
      · exact List.suffix_rfl
      · rw [List.suffix_nil] at hs
        rw [← hx, hs, List.append_nil] at hend
        obtain ⟨y, hy⟩ := hend
        have hlast := congrArg List.getLast? hy
        rw [List.getLast?_append, List.getLast?_append] at hlast
        cases hlast
  obtain ⟨y, rfl⟩ := hsuffix
  rw [List.append_assoc, List.singleton_append] at hx
  have ht := headerText_append (t := ' ' :: y) hx.symm
  obtain ⟨a, b, ha, hb, hy⟩ := Text.exists_trim (' ' :: y)
  refine ⟨a, b, ha, hb, ?_⟩
  rw [ht, ← hy]
  exact hx.symm

/-! ## Printed headers -/

/-- The header of a construct. -/
def print (f : NumberNotation) : Opening → Text
  | unit name => headed Category.unit.opening name
  | library name hue language =>
    headed Category.library.opening
      (LibraryHeader.said ⟨name, Text.signedDecimal hue.toInt, language⟩)
  | sprite name => headed Category.sprite.opening name
  | stage none => bare Category.stage.opening
  | stage (some name) => headed Category.stage.opening name
  | sounds => bare Category.sounds.opening
  | costumes => bare Category.costumes.opening
  | blockDefinition s => headed Category.blockDefinition.opening s.print
  | contextDefinition s => headed Category.contextDefinition.opening s.print
  | triggerDefinition s => headed Category.triggerDefinition.opening s.print
  | trigger event => headed Category.trigger.opening event
  | contextCall call => call.print f ++ ['[']

/-- A line of this text is a header that opens this. -/
structure Reprints (depth : Nat) (o : Opening) (t : Text) : Prop where
  trimmed : Text.Trimmed t
  category : Category.ofLine t = o.category
  reads : ∀ line : Line, line.trimmed = t → Says depth line o
  feedless : '\n' ∉ t
  head : t.head? ≠ some ']'

section reprints

variable {depth : Nat} {o : Opening} {category : Category}

theorem reprints_append (hne : category.opening ≠ []) {t : Text}
    (hcat : Category.ofLine (category.opening ++ (t ++ ['['])) = o.category)
    (hsaid : ∀ line : Line, line.trimmed = category.opening ++ (t ++ ['[']) → Says depth line o)
    (hf : '\n' ∉ t) : Reprints depth o (category.opening ++ (t ++ ['['])) := by
  refine ⟨trimmed_of_opening hne t, hcat, hsaid, ?_, fun h => ?_⟩
  · rw [List.mem_append, List.mem_append, not_or, not_or]
    exact ⟨category.not_mem_opening.1, hf, by decide⟩
  · have hhead := Text.forall_head_append hne
      (fun c hc => (category.head?_opening c hc).2) (t ++ ['['])
    exact hhead _ h rfl

/-- A header with opening words opens what its text says. -/
theorem reprints_headed (hne : category.opening ≠ []) {said : Text} (hs : Text.Trimmed said)
    (hf : '\n' ∉ said) (hcat : Category.ofLine (headed category.opening said) = o.category)
    (hsaid : ∀ line : Line, line.trimmed = headed category.opening said →
      headerText category.opening line = said → Says depth line o) :
    Reprints depth o (headed category.opening said) := by
  have heq : headed category.opening said =
      category.opening ++ ((' ' :: (said ++ [' '])) ++ ['[']) := by
    rw [headed, List.cons_append, List.append_assoc, List.singleton_append]
  rw [heq] at hcat hsaid ⊢
  refine reprints_append hne hcat (fun line hl => hsaid line hl ?_) ?_
  · rw [headerText_append hl]
    exact Text.trim_pad (a := [' ']) (by decide) hs (by decide)
  · rw [List.mem_cons, List.mem_append, not_or, not_or]
    exact ⟨by decide, hf, by decide⟩

theorem trimmed_headed (hne : category.opening ≠ []) (said : Text) :
    Text.Trimmed (headed category.opening said) := by
  have ht := trimmed_of_opening hne (' ' :: (said ++ [' ']))
  rw [List.cons_append, List.append_assoc, List.singleton_append] at ht
  exact ht

theorem endsWith_headed (opening said : Text) :
    Category.endsWith ['['] (headed opening said) = true := by
  rw [headed_eq]
  exact Category.endsWith_append _ _

theorem isNamed_headed (opening said : Text) :
    Category.isNamed opening (headed opening said) = true := by
  rw [Category.isNamed, Bool.and_eq_true]
  refine ⟨List.isPrefixOf_iff_prefix.mpr ⟨said ++ [' ', '['], ?_⟩, ?_⟩
  · rw [headed, List.append_assoc, List.singleton_append]
  · exact endsWith_headed opening said

/-- A simple name behind opening words. -/
theorem reprints_name (hne : category.opening ≠ []) {text name : Text}
    (h : SimpleName.read text = .ok name) (hf : '\n' ∉ text)
    (hcat : Category.ofLine (headed category.opening name) = o.category)
    (hsaid : ∀ line, SimpleName.read (headerText category.opening line) = .ok name →
      Says depth line o) : Reprints depth o (headed category.opening name) := by
  obtain ⟨hname, hmem⟩ := SimpleName.isRead_of_read h
  refine reprints_headed hne hname.trimmed (fun hc => hf (hmem _ hc)) hcat fun line _ ht => ?_
  exact hsaid line (by rw [ht]; exact hname.read)

/-- A signature behind opening words. -/
theorem reprints_signature (hne : category.opening ≠ []) {text : Text} {s : Signature}
    (h : Signature.read text = .ok s) (hf : '\n' ∉ text)
    (hcat : Category.ofLine (headed category.opening s.print) = o.category)
    (hsaid : ∀ line, Signature.read (headerText category.opening line) = .ok s →
      Says depth line o) : Reprints depth o (headed category.opening s.print) := by
  refine reprints_headed hne (Signature.trimmed_print h) (Signature.feedless_print h hf) hcat
    fun line _ ht => ?_
  exact hsaid line (by rw [ht]; exact Signature.read_print h)

theorem hasBlockList_headed {text : Text} {s : Signature} (category : Category)
    (h : Signature.read text = .ok s) :
    Category.hasBlockList (headed category.opening s.print) =
      s.blockLists.any Signature.isShown := by
  have hopen : '(' ∉ category.opening ++ [' '] := by
    rw [List.mem_append, not_or]
    exact ⟨category.not_mem_opening.2, by decide⟩
  have happ := Signature.hasBlockList_append hopen (s.print ++ [' ', '['])
  rw [List.append_assoc, List.singleton_append] at happ
  rw [headed, happ]
  exact Signature.hasBlockList_spells (Signature.spells_print h) (by decide)

/-- The test of a header with opening words sees the slots that the signature shows. -/
theorem hasBlockList_named {line : Line} {s : Signature}
    (hnamed : Category.isNamed category.opening line.trimmed = true)
    (h : Signature.read (headerText category.opening line) = .ok s) :
    Category.hasBlockList line.trimmed = s.blockLists.any Signature.isShown := by
  obtain ⟨a, b, ha, hb, ht⟩ := exists_headerText hnamed
  have hblank : ∀ {u : Text}, u.isBlank = true → '(' ∉ u := by
    intro u hu hm
    exact absurd (Text.isBlank_iff.mp hu _ hm) (by decide)
  have hfront : '(' ∉ category.opening ++ a := by
    rw [List.mem_append, not_or]
    exact ⟨category.not_mem_opening.2, hblank ha⟩
  have hback : '(' ∉ b ++ ['['] := by
    rw [List.mem_append, not_or]
    exact ⟨hblank hb, by decide⟩
  obtain ⟨literal, hs, -⟩ := Signature.read_eq_ok_iff.mp h
  rw [ht, List.append_assoc, List.append_assoc, ← List.append_assoc,
    Signature.hasBlockList_append hfront, Signature.hasBlockList_spells hs hback]

/-- A header that is told by its slots shows them in the printed signature too. -/
theorem shown_of_named {line : Line} {s : Signature}
    (hc : category = .contextDefinition ∨ category = .triggerDefinition)
    (hcat : Category.ofLine line.text = category)
    (h : Signature.read (headerText category.opening line) = .ok s) :
    s.blockLists.any Signature.isShown = true := by
  have htest : Category.isNamed category.opening line.trimmed = true ∧
      Category.hasBlockList line.trimmed = true := by
    have haccepts := Category.acceptsTrimmed_of_ofLine hcat (by rcases hc with rfl | rfl <;> decide)
    rw [← Bool.and_eq_true]
    rcases hc with rfl | rfl <;> exact haccepts
  rw [← hasBlockList_named htest.1 h, htest.2]

theorem ofLine_blockDefinition {text : Text} {s : Signature} (h : Signature.read text = .ok s)
    (hb : s.blockLists = []) :
    Category.ofLine (headed Category.blockDefinition.opening s.print) = .blockDefinition := by
  have hlist := hasBlockList_headed .blockDefinition h
  rw [hb, List.any_nil] at hlist
  have hnone : ∀ opening, (Category.isNamed opening
      (headed Category.blockDefinition.opening s.print) && Category.hasBlockList
      (headed Category.blockDefinition.opening s.print)) = false := by
    intro opening
    rw [hlist, Bool.and_false]
  have hskip : Category.cascade.find? (·.acceptsTrimmed
      (headed Category.blockDefinition.opening s.print)) =
      [.blockDefinition, .trigger, .contextCall].find?
        (·.acceptsTrimmed (headed Category.blockDefinition.opening s.print)) := by
    have hfront : Category.cascade.find? (·.acceptsTrimmed
        (headed Category.blockDefinition.opening s.print)) =
        [.contextDefinition, .triggerDefinition, .blockDefinition, .trigger, .contextCall].find?
          (·.acceptsTrimmed (headed Category.blockDefinition.opening s.print)) := rfl
    rw [hfront, List.find?_cons_of_neg, List.find?_cons_of_neg]
    · rw [Bool.not_eq_true]
      exact hnone _
    · rw [Bool.not_eq_true]
      exact hnone _
  exact Category.ofLine_eq_of_find? (trimmed_headed (by decide) s.print) hskip
    (isNamed_headed _ _)

theorem feedless_headerText {line : Line} (hf : '\n' ∉ line.text) (opening : Text) :
    '\n' ∉ headerText opening line := by
  intro hc
  have hc := Text.mem_of_mem_dropSuffix (Text.mem_of_mem_trim hc)
  rw [Text.dropPrefix] at hc
  cases hp : List.isPrefixOf? opening line.trimmed with
  | none =>
    rw [hp] at hc
    exact hf (Text.mem_of_mem_trim hc)
  | some rest =>
    rw [hp] at hc
    refine hf (Text.mem_of_mem_trim ?_)
    show '\n' ∈ line.trimmed
    rw [← List.isPrefixOf?_eq_some_iff_append_eq.mp hp]
    exact List.mem_append_right opening hc

/-- The headers that are told by their first word and the space behind it. -/
theorem ofLine_named (hc : category = .unit ∨ category = .library ∨ category = .sprite ∨
    category = .trigger) (said : Text) :
    Category.ofLine (headed category.opening said) = category := by
  rcases hc with rfl | rfl | rfl | rfl
  all_goals
    exact Category.ofLine_eq_of_find? (trimmed_headed (by decide) said) rfl (isNamed_headed _ said)

theorem ofLine_stage (said : Text) :
    Category.ofLine (headed Category.stage.opening said) = .stage :=
  Category.ofLine_eq_of_find? (trimmed_headed (by decide) said) rfl (endsWith_headed _ said)

/-- The headers that are told by their slots as well. -/
theorem ofLine_shown (hc : category = .contextDefinition ∨ category = .triggerDefinition)
    {text : Text} {s : Signature} (h : Signature.read text = .ok s)
    (hs : s.blockLists.any Signature.isShown = true) :
    Category.ofLine (headed category.opening s.print) = category := by
  have hlist := hasBlockList_headed category h
  rw [hs] at hlist
  have htest : (Category.isNamed category.opening (headed category.opening s.print) &&
      Category.hasBlockList (headed category.opening s.print)) = true := by
    rw [hlist, isNamed_headed]
    rfl
  rcases hc with rfl | rfl
  all_goals
    exact Category.ofLine_eq_of_find? (trimmed_headed (by decide) s.print) rfl htest

theorem reprints_library {header : LibraryHeader} {line : Line} {name : Text} {hue : Int64}
    (hs : LibraryHeader.ofText? line.trimmed = some header)
    (hn : SimpleName.read header.name = .ok name) (hl : header.language.isBlank = false)
    (hf : '\n' ∉ line.text) :
    Reprints depth (library name hue header.language.trim) (headed Category.library.opening
      (LibraryHeader.said ⟨name, Text.signedDecimal hue.toInt, header.language.trim⟩)) := by
  obtain ⟨hname, hmem⟩ := SimpleName.isRead_of_read hn
  obtain ⟨hsubname, hsublanguage, hclose⟩ := LibraryHeader.partsOf_ofText? hs
  have hmark : ∀ c ∈ Text.signedDecimal hue.toInt, Numeral.isMark c = true := fun c =>
    Numeral.isMark_of_integer? (Numeral.integer?_signedDecimal hue.toInt)
  have hread : LibraryHeader.IsRead
      ⟨name, Text.signedDecimal hue.toInt, header.language.trim⟩ :=
    ⟨hname, fun hc => absurd (hmark _ hc) (by decide),
      fun hc => hclose (Text.mem_of_mem_trim hc)⟩
  refine reprints_headed (by decide) (LibraryHeader.trimmed_said hread) ?_
    (ofLine_named (by decide) _) fun line' hline _ => ?_
  · refine LibraryHeader.feedless_said (fun hc => hf ?_) (fun hc => ?_) (fun hc => hf ?_)
    · exact Text.mem_of_mem_trim (hsubname.subset (hmem _ hc))
    · exact absurd (hmark _ hc) (by decide)
    · exact Text.mem_of_mem_trim (hsublanguage (Text.mem_of_mem_trim hc))
  · have htext : LibraryHeader.ofText? line'.trimmed =
        some ⟨name, Text.signedDecimal hue.toInt, header.language.trim⟩ := by
      rw [hline]
      exact LibraryHeader.ofText?_print hread
    have hlanguage : header.language.trim.isBlank = false := by
      rw [← Bool.not_eq_true, ← Text.trim_eq_nil_iff] at hl ⊢
      rwa [Text.trim_trim]
    have hsaid : Says depth line' (library name hue header.language.trim.trim) :=
      .library htext hname.read (LibraryHeader.hueValue?_print hue _ _) hlanguage
    rwa [Text.trim_trim] at hsaid

/-- The printed header of a construct says what was read, whatever the layout of its header was. -/
theorem reprints_print (f : NumberNotation) {line : Line}
    (hcat : Category.ofLine line.text = o.category) (ho : Says depth line o)
    (hf : '\n' ∉ line.text) (hcall : o.category ≠ .contextCall) :
    Reprints depth o (o.print f) := by
  have htext := feedless_headerText hf
  cases ho with
  | unit h => exact reprints_name (by decide) h (htext _) (ofLine_named (by decide) _) fun _ => .unit
  | sprite h =>
    exact reprints_name (by decide) h (htext _) (ofLine_named (by decide) _) fun _ => .sprite
  | stage h => exact reprints_name (by decide) h (htext _) (ofLine_stage _) fun _ => .stage
  | nameless =>
    refine reprints_append (t := [' ']) (by decide) (by decide) (fun line' hl => .nameless ?_)
      (by decide)
    rw [headerText_append hl]
    decide
  | sounds =>
    exact reprints_append (t := [' ']) (by decide) (by decide) (fun _ _ => .sounds) (by decide)
  | costumes =>
    exact reprints_append (t := [' ']) (by decide) (by decide) (fun _ _ => .costumes) (by decide)
  | library hs hn hh hl => exact reprints_library hs hn hl hf
  | blockDefinition h hb =>
    exact reprints_signature (by decide) h (htext _) (ofLine_blockDefinition h hb)
      fun _ h => .blockDefinition h hb
  | contextDefinition h =>
    have hs := shown_of_named (Or.inl rfl) hcat h
    exact reprints_signature (by decide) h (htext _) (ofLine_shown (Or.inl rfl) h hs)
      fun _ => .contextDefinition
  | triggerDefinition h =>
    have hs := shown_of_named (Or.inr rfl) hcat h
    exact reprints_signature (by decide) h (htext _) (ofLine_shown (Or.inr rfl) h hs)
      fun _ => .triggerDefinition
  | trigger hne hn =>
    refine reprints_headed (by decide) (Text.trimmed_trim _) (htext _) (ofLine_named (by decide) _)
      fun line' _ ht => ?_
    have hsaid : Says depth line' (trigger (headerText Category.trigger.opening line')) :=
      .trigger (by rw [ht]; exact hne) (by rw [ht]; exact hn)
    rwa [ht] at hsaid
  | contextCall => exact absurd rfl hcall

end reprints

end Opening
end BlockText
