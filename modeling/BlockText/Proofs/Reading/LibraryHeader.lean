/-
The grammar of library headers.

A header is the word `library`, a name, and two fields, with white space between them
(`LibraryHeader.Shape`).  One text can have several of these shapes, since the name may hold anything, even
what looks like a field.  The reader finds a shape if there is one (`Shape.exists_ofText?`), and no name
with a colon in it hides one without: where the text has a shape whose name is trimmed and has no colon,
that is the shape that is found (`Shape.ofText?_eq`), because the fields begin at the first colon.

The parts of a shape stand in its text, so an error in the name can be shown in the line, and the language
holds no closing parenthesis, so it can be printed in parentheses again (`partsOf_ofText?`).
-/
import BlockText.Proofs.Text.Trim
import BlockText.Reading.LibraryHeader

namespace BlockText
namespace LibraryHeader

/-! ## Fields -/

theorem field?_eq_some_iff {label t value rest : Text} :
    field? label t = some (value, rest) ↔
      ∃ space : Text, space.isBlank = true ∧ ')' ∉ value ∧
        t = label ++ (space ++ '(' :: (value ++ ')' :: rest)) := by
  constructor
  · intro h
    obtain ⟨u, hu, h⟩ := Option.bind_eq_some_iff.mp h
    obtain ⟨space, hspace, hsplit⟩ := Text.exists_trimStart u
    split at h
    next r hr =>
      split at h
      next v c w hspan =>
        cases h
        refine ⟨space, hspace, Text.not_mem_of_span hspan, ?_⟩
        rw [← List.isPrefixOf?_eq_some_iff_append_eq.mp hu, hsplit, hr, Text.eq_of_span hspan]
      · cases h
    · cases h
  · rintro ⟨space, hspace, hvalue, rfl⟩
    have hlabel : List.isPrefixOf? label (label ++ (space ++ '(' :: (value ++ ')' :: rest))) =
        some (space ++ '(' :: (value ++ ')' :: rest)) :=
      List.isPrefixOf?_eq_some_iff_append_eq.mpr rfl
    have hstart : Text.trimStart (space ++ '(' :: (value ++ ')' :: rest)) =
        '(' :: (value ++ ')' :: rest) := Text.trimStart_append_of_blank hspace _
    simp only [field?, hlabel, Option.bind_eq_bind, Option.bind_some, hstart, Text.span_ne hvalue]

/-- What follows the name: white space, the fields of hue and language, and the bracket.  There may be
white space in front of each of these and of the parentheses. -/
inductive Fields (hue language : Text) : Text → Prop
  | mk {a b c d e : Text} (ha : a.isBlank = true) (hne : a ≠ []) (hb : b.isBlank = true)
    (hc : c.isBlank = true) (hd : d.isBlank = true) (he : e.isBlank = true) (hhue : ')' ∉ hue)
    (hlanguage : ')' ∉ language) :
    Fields hue language (a ++ ("hue:".toList ++ (b ++ '(' :: (hue ++ ')' ::
      (c ++ ("language:".toList ++ (d ++ '(' :: (language ++ ')' :: (e ++ ['['])))))))))

/-- The labels start with no white space, so trimming what stands in front of one uncovers it. -/
theorem trimStart_label {space label : Text} (h : space.isBlank = true) (hne : label ≠ [])
    (hhead : ∀ c ∈ label.head?, Text.isSpace c = false) (rest : Text) :
    Text.trimStart (space ++ (label ++ rest)) = label ++ rest := by
  rw [Text.trimStart_append_of_blank h,
    Text.trimStart_of_head (Text.forall_head_append hne hhead rest)]

theorem fields?_eq_some_iff {t hue language : Text} :
    fields? t = some (hue, language) ↔ Fields hue language t := by
  constructor
  · intro h
    rw [fields?] at h
    split at h
    · cases h
    next hspace =>
      obtain ⟨⟨hue', r⟩, hfield, h⟩ := Option.bind_eq_some_iff.mp h
      obtain ⟨⟨language', s⟩, hfield', h⟩ := Option.bind_eq_some_iff.mp h
      simp only at h hfield'
      split at h
      next hend =>
        cases h
        obtain ⟨b, hb, hhue, hsplit⟩ := field?_eq_some_iff.mp hfield
        obtain ⟨d, hd, hlanguage, hsplit'⟩ := field?_eq_some_iff.mp hfield'
        obtain ⟨c, hc, hr⟩ := Text.exists_trimStart r
        obtain ⟨e, he, hs⟩ := Text.exists_trimStart s
        have ht : t = t.takeWhile Text.isSpace ++ Text.trimStart t :=
          List.takeWhile_append_dropWhile.symm
        rw [ht, hsplit, hr, hsplit', hs, beq_iff_eq.mp hend]
        exact .mk List.all_takeWhile (fun hnil => hspace (List.isEmpty_iff.mpr hnil)) hb hc hd he
          hhue hlanguage
      · cases h
  · rintro ⟨ha, hne, hb, hc, hd, he, hhue, hlanguage⟩
    next a b c d e =>
    have hspace : ∀ r : Text, ((a ++ r).takeWhile Text.isSpace).isEmpty = false := by
      intro r
      rw [List.takeWhile_append_of_pos (Text.isBlank_iff.mp ha), List.isEmpty_eq_false_iff]
      exact List.append_ne_nil_of_left_ne_nil hne _
    have hhueStart : ∀ r, Text.trimStart (a ++ ("hue:".toList ++ r)) = "hue:".toList ++ r :=
      trimStart_label ha (by decide) (Text.forall_mem_some (by decide))
    have hlanguageStart : ∀ r,
        Text.trimStart (c ++ ("language:".toList ++ r)) = "language:".toList ++ r :=
      trimStart_label hc (by decide) (Text.forall_mem_some (by decide))
    have hend : Text.trimStart (e ++ ['[']) = ['['] := Text.trimStart_append_of_blank he _
    simp only [fields?, hspace, Bool.false_eq_true, if_false, hhueStart,
      field?_eq_some_iff.mpr ⟨b, hb, hhue, rfl⟩, Option.bind_eq_bind, Option.bind_some,
      hlanguageStart, field?_eq_some_iff.mpr ⟨d, hd, hlanguage, rfl⟩, hend, beq_self_eq_true,
      if_true]

namespace Fields

variable {hue language t : Text}

theorem blank_append {space : Text} (hspace : space.isBlank = true) (h : Fields hue language t) :
    Fields hue language (space ++ t) := by
  obtain ⟨ha, hne, hb, hc, hd, he, hhue, hlanguage⟩ := h
  rw [← List.append_assoc]
  exact .mk (Text.isBlank_append_of_blank hspace ha) (List.append_ne_nil_of_right_ne_nil _ hne) hb
    hc hd he hhue hlanguage

/-- Any white space in front of the label will do. -/
theorem exists_space (h : Fields hue language t) :
    ∃ space rest : Text, space.isBlank = true ∧ space ≠ [] ∧
      (∀ c ∈ rest.head?, Text.isSpace c = false) ∧ t = space ++ rest ∧
      ∀ c, Text.isSpace c = true → Fields hue language (c :: rest) := by
  obtain ⟨ha, hne, hb, hc, hd, he, hhue, hlanguage⟩ := h
  refine ⟨_, _, ha, hne, ?_, rfl, fun c hc' => ?_⟩
  · exact Text.forall_head_append (a := "hue:".toList) (by decide)
      (Text.forall_mem_some (by decide)) _
  · exact .mk (a := [c]) (by rw [Text.isBlank_iff]; exact List.forall_mem_singleton.mpr hc')
      (List.cons_ne_nil _ _) hb hc hd he hhue hlanguage

theorem unclosed (h : Fields hue language t) : ')' ∉ language := by
  obtain ⟨-, -, -, -, -, -, -, hlanguage⟩ := h
  exact hlanguage

theorem subset (h : Fields hue language t) : language ⊆ t := by
  obtain ⟨-, -, -, -, -, -, -, -⟩ := h
  intro x hx
  simp only [List.mem_append, List.mem_cons]
  tauto

/-- The first colon is that of the first label. -/
theorem exists_colon (h : Fields hue language t) :
    ∃ space rest : Text, space.isBlank = true ∧ t = (space ++ "hue".toList) ++ ':' :: rest := by
  have hlabel : "hue:".toList = "hue".toList ++ [':'] := by decide
  obtain ⟨ha, -, -, -, -, -, -, -⟩ := h
  exact ⟨_, _, ha, by rw [hlabel, List.append_assoc, List.append_assoc, List.singleton_append]⟩

/-- Fields do not begin earlier than they do, if what is between has no colon: the first colon would be
that of the first label both times. -/
theorem not_append {m : Text} (hne : m ≠ []) (hcolon : ':' ∉ m)
    (hlast : ∀ c ∈ m.getLast?, Text.isSpace c = false) (h : Fields hue language t)
    {hue' language' : Text} : ¬ Fields hue' language' (m ++ t) := by
  intro h'
  obtain ⟨space, rest, hspace, rfl⟩ := h.exists_colon
  obtain ⟨space', rest', hspace', heq⟩ := h'.exists_colon
  have hblank : ∀ s : Text, s.isBlank = true → ':' ∉ s ++ "hue".toList := by
    intro s hs hmem
    rcases List.mem_append.mp hmem with hmem | hmem
    · exact absurd (Text.isBlank_iff.mp hs _ hmem) (by decide)
    · revert hmem
      decide
  rw [← List.append_assoc] at heq
  have hfree : ':' ∉ m ++ (space ++ "hue".toList) := fun hmem =>
    (List.mem_append.mp hmem).elim hcolon (hblank space hspace)
  have hbefore := (Text.append_cons_inj hfree (hblank space' hspace') heq).1
  rw [← List.append_assoc] at hbefore
  have hm : m ++ space = space' := List.append_cancel_right hbefore
  have hmem := List.getLast_mem hne
  have hs := Text.isBlank_iff.mp hspace' (m.getLast hne) (hm ▸ List.mem_append_left _ hmem)
  rw [hlast _ (List.getLast?_eq_some_getLast hne)] at hs
  cases hs

end Fields

/-! ## Names -/

/-- The name that is found ends in no white space, and fields follow it. -/
theorem exists_of_ofNamed? {t : Text} {h : LibraryHeader} (hr : ofNamed? t = some h) :
    ∃ tail : Text, t = h.name ++ tail ∧ h.name ≠ [] ∧
      (∀ c ∈ h.name.getLast?, Text.isSpace c = false) ∧ Fields h.hue h.language tail := by
  induction t generalizing h with
  | nil => cases hr
  | cons c rest ih =>
    unfold ofNamed? at hr
    split at hr
    next hue language hfields =>
      cases hr
      split at hfields
      · cases hfields
      next hc =>
        exact ⟨rest, rfl, List.cons_ne_nil _ _, Text.forall_mem_some (Bool.eq_false_iff.mpr hc),
          fields?_eq_some_iff.mp hfields⟩
    · obtain ⟨h', hr', rfl⟩ := Option.map_eq_some_iff.mp hr
      obtain ⟨tail, rfl, hne, hlast, hfields⟩ := ih hr'
      refine ⟨tail, rfl, List.cons_ne_nil _ _, ?_, hfields⟩
      show ∀ d ∈ (c :: h'.name).getLast?, _
      rw [← List.singleton_append, List.getLast?_append_of_ne_nil _ hne]
      exact hlast

variable {name hue language tail : Text}

/-- A name is found where there is one.  It need not be this one: fields may stand in it. -/
theorem exists_ofNamed? (hne : name ≠ []) (hlast : ∀ c ∈ name.getLast?, Text.isSpace c = false)
    (hfields : Fields hue language tail) : ∃ h, ofNamed? (name ++ tail) = some h := by
  induction name with
  | nil => exact absurd rfl hne
  | cons c back ih =>
    rw [List.cons_append]
    unfold ofNamed?
    split
    next hue' language' _ => exact ⟨⟨[c], hue', language'⟩, rfl⟩
    next hnone =>
      have hback : back ≠ [] := by
        rintro rfl
        rw [hlast c rfl, if_neg Bool.false_ne_true, List.nil_append,
          fields?_eq_some_iff.mpr hfields] at hnone
        cases hnone
      obtain ⟨h, hh⟩ := ih hback fun d hd => hlast d (by
        rw [← List.singleton_append, List.getLast?_append_of_ne_nil _ hback]
        exact hd)
      exact ⟨{ h with name := c :: h.name }, by rw [hh]; rfl⟩

/-- A name without a colon is the one that is found: fields follow no shorter one. -/
theorem ofNamed?_append (hne : name ≠ []) (hcolon : ':' ∉ name)
    (hlast : ∀ c ∈ name.getLast?, Text.isSpace c = false) (hfields : Fields hue language tail) :
    ofNamed? (name ++ tail) = some ⟨name, hue, language⟩ := by
  induction name with
  | nil => exact absurd rfl hne
  | cons c back ih =>
    rw [List.mem_cons, not_or] at hcolon
    rw [List.cons_append]
    unfold ofNamed?
    by_cases hback : back = []
    · subst hback
      rw [List.nil_append, hlast c rfl, if_neg Bool.false_ne_true,
        fields?_eq_some_iff.mpr hfields]
    · have hlast : ∀ d ∈ back.getLast?, Text.isSpace d = false := by
        rwa [← List.singleton_append, List.getLast?_append_of_ne_nil _ hback] at hlast
      have hnone : fields? (back ++ tail) = none := by
        rw [Option.eq_none_iff_forall_ne_some]
        rintro ⟨hue', language'⟩ hsome
        exact Fields.not_append hback hcolon.2 hlast hfields (fields?_eq_some_iff.mp hsome)
      rw [hnone, ite_self, ih hback hcolon.2 hlast]
      rfl

/-! ## Shapes -/

/-- The text is a library header of these parts. -/
inductive Shape : Text → LibraryHeader → Prop
  | mk {space tail : Text} {h : LibraryHeader} (hspace : space.isBlank = true) (hne : space ≠ [])
    (hname : h.name ≠ []) (hfields : Fields h.hue h.language tail) :
    Shape (Keyword.library.text ++ (space ++ (h.name ++ tail))) h

/-- What is found is a shape of the text.  Its name starts with no white space unless it is white space
altogether. -/
theorem shape_of_ofText? {t : Text} {h : LibraryHeader} (hr : ofText? t = some h) :
    Shape t h ∧ (h.name.isBlank = false → ∀ c ∈ h.name.head?, Text.isSpace c = false) := by
  obtain ⟨u, hu, hspaced⟩ := Option.bind_eq_some_iff.mp hr
  obtain rfl := List.isPrefixOf?_eq_some_iff_append_eq.mp hu
  have husplit : u = u.takeWhile Text.isSpace ++ u.dropWhile Text.isSpace :=
    List.takeWhile_append_dropWhile.symm
  have hblank : Text.isBlank (u.takeWhile Text.isSpace) = true := List.all_takeWhile
  rw [ofSpaced?, List.span_eq_takeWhile_dropWhile] at hspaced
  simp only at hspaced
  split at hspaced
  · cases hspaced
  next hspace =>
    split at hspaced
    next hnamed =>
      cases hspaced
      obtain ⟨tail, htail, hne, -, hfields⟩ := exists_of_ofNamed? hnamed
      refine ⟨?_, fun _ c hc => Text.head?_trimStart u c ?_⟩
      · rw [husplit, htail]
        exact .mk hblank (fun hnil => hspace (List.isEmpty_iff.mpr hnil)) hne hfields
      · rw [Text.trimStart, htail, List.head?_append_of_ne_nil _ hne]
        exact hc
    next last c d front _ hrev =>
      -- The name is a character of the white space, with the last one behind it.
      obtain ⟨⟨hue, language⟩, hfields, rfl⟩ := Option.map_eq_some_iff.mp hspaced
      have hsplit : u.takeWhile Text.isSpace = (d :: front).reverse ++ ([c] ++ [last]) := by
        rw [← List.reverse_reverse (u.takeWhile Text.isSpace), hrev]
        simp
      rw [hsplit, Text.isBlank_append, Text.isBlank_append, Bool.and_eq_true,
        Bool.and_eq_true] at hblank
      refine ⟨?_, fun hne => ?_⟩
      · rw [husplit, hsplit, List.append_assoc, List.append_assoc]
        exact .mk (h := ⟨[c], hue, language⟩) hblank.1 (by simp) (List.cons_ne_nil _ _)
          (fields?_eq_some_iff.mp hfields)
      · rw [hblank.2.1] at hne
        cases hne
    · cases hspaced

/-- The parts of a header stand in its text. -/
structure PartsOf (t : Text) (h : LibraryHeader) : Prop where
  name : h.name <:+: t
  language : h.language ⊆ t
  unclosed : ')' ∉ h.language

theorem Shape.partsOf {t : Text} {h : LibraryHeader} (hs : Shape t h) : PartsOf t h := by
  obtain ⟨-, -, -, hfields⟩ := hs
  next space tail =>
  refine ⟨⟨Keyword.library.text ++ space, tail, by simp only [List.append_assoc]⟩, fun c hc => ?_,
    hfields.unclosed⟩
  have htail := hfields.subset hc
  simp only [List.mem_append]
  tauto

theorem partsOf_ofText? {t : Text} {h : LibraryHeader} (hr : ofText? t = some h) :
    PartsOf t h :=
  (shape_of_ofText? hr).1.partsOf

namespace Shape

variable {t : Text} {h : LibraryHeader}

/-- White space around a name is white space around the parts. -/
theorem trim_name (hs : Shape t h) (hblank : h.name.isBlank = false) :
    Shape t { h with name := h.name.trim } := by
  obtain ⟨hspace, hne, -, hfields⟩ := hs
  next space tail =>
  obtain ⟨a, b, ha, hb, hname⟩ := Text.exists_trim h.name
  have hsplit : space ++ (h.name ++ tail) = (space ++ a) ++ (h.name.trim ++ (b ++ tail)) := by
    conv_lhs => rw [hname]
    simp only [List.append_assoc]
  rw [hsplit]
  refine .mk (h := { h with name := h.name.trim }) (Text.isBlank_append_of_blank hspace ha)
    (List.append_ne_nil_of_left_ne_nil hne _) (fun hnil => ?_) (hfields.blank_append hb)
  rw [Text.trim_eq_nil_iff.mp hnil] at hblank
  cases hblank

/-- The white space behind the first word is cut off, and the name is looked for in what is left. -/
theorem ofText?_append {space rest : Text} (hspace : space.isBlank = true) (hne : space ≠ [])
    (hhead : ∀ c ∈ rest.head?, Text.isSpace c = false) {h : LibraryHeader}
    (hnamed : ofNamed? rest = some h) :
    ofText? (Keyword.library.text ++ (space ++ rest)) = some h := by
  have hword : List.isPrefixOf? Keyword.library.text (Keyword.library.text ++ (space ++ rest)) =
      some (space ++ rest) := List.isPrefixOf?_eq_some_iff_append_eq.mpr rfl
  simp only [ofText?, hword, Option.bind_eq_bind, Option.bind_some, ofSpaced?,
    Text.span_append (Text.isBlank_iff.mp hspace) hhead, List.isEmpty_eq_false_iff.mpr hne,
    Bool.false_eq_true, if_false, hnamed]

/-- The shape whose name is trimmed and has no colon is the one that is found. -/
theorem ofText?_eq (hs : Shape t h) (htrimmed : Text.Trimmed h.name) (hcolon : ':' ∉ h.name) :
    ofText? t = some h := by
  obtain ⟨hspace, hne, hname, hfields⟩ := hs
  exact ofText?_append hspace hne (Text.forall_head_append hname htrimmed.head _)
    (ofNamed?_append hname hcolon htrimmed.last hfields)

theorem exists_ofText?_of_trimmed (hs : Shape t h) (htrimmed : Text.Trimmed h.name) :
    ∃ h', ofText? t = some h' := by
  obtain ⟨hspace, hne, hname, hfields⟩ := hs
  obtain ⟨h', hh'⟩ := exists_ofNamed? hname htrimmed.last hfields
  exact ⟨h', ofText?_append hspace hne (Text.forall_head_append hname htrimmed.head _) hh'⟩

/-- Where the name is white space, the white space behind the first word has three characters or more,
and the last but one is a name. -/
theorem exists_ofText?_of_blank (hs : Shape t h) (hblank : h.name.isBlank = true) :
    ∃ h', ofText? t = some h' := by
  obtain ⟨hspace, hne, hname, hfields⟩ := hs
  next space tail =>
  obtain ⟨a, rest, ha, hane, hhead, rfl, hany⟩ := hfields.exists_space
  have hall : (space ++ (h.name ++ a)).isBlank = true :=
    Text.isBlank_append_of_blank hspace (Text.isBlank_append_of_blank hblank ha)
  have hassoc : space ++ (h.name ++ (a ++ rest)) = (space ++ (h.name ++ a)) ++ rest := by
    simp only [List.append_assoc]
  cases hnamed : ofNamed? rest with
  | some h' =>
    rw [hassoc]
    exact ⟨h', ofText?_append hall (by simp [hne]) hhead hnamed⟩
  | none =>
    obtain ⟨last, c, d, front, hrev⟩ :
        ∃ last c d front, (space ++ (h.name ++ a)).reverse = last :: c :: d :: front := by
      have hlength : 3 ≤ (space ++ (h.name ++ a)).reverse.length := by
        have h₁ := List.length_pos_iff.mpr hne
        have h₂ := List.length_pos_iff.mpr hname
        have h₃ := List.length_pos_iff.mpr hane
        simp only [List.length_reverse, List.length_append]
        omega
      match (space ++ (h.name ++ a)).reverse, hlength with
      | last :: c :: d :: front, _ => exact ⟨last, c, d, front, rfl⟩
    have hlast : Text.isSpace last = true := by
      refine Text.isBlank_iff.mp hall last (List.mem_reverse.mp ?_)
      rw [hrev]
      exact List.mem_cons_self
    have hword : List.isPrefixOf? Keyword.library.text
        (Keyword.library.text ++ (space ++ (h.name ++ a) ++ rest)) =
        some (space ++ (h.name ++ a) ++ rest) := List.isPrefixOf?_eq_some_iff_append_eq.mpr rfl
    refine ⟨⟨[c], h.hue, h.language⟩, ?_⟩
    rw [hassoc]
    simp only [ofText?, hword, Option.bind_eq_bind, Option.bind_some, ofSpaced?,
      Text.span_append (Text.isBlank_iff.mp hall) hhead,
      List.isEmpty_eq_false_iff.mpr (List.append_ne_nil_of_left_ne_nil hne (h.name ++ a)),
      Bool.false_eq_true, if_false, hnamed, hrev, fields?_eq_some_iff.mpr (hany last hlast),
      Option.map_some]

/-- A header is found where there is one. -/
theorem exists_ofText? (hs : Shape t h) : ∃ h', ofText? t = some h' := by
  cases hblank : h.name.isBlank with
  | true => exact hs.exists_ofText?_of_blank hblank
  | false => exact (hs.trim_name hblank).exists_ofText?_of_trimmed (Text.trimmed_trim h.name)

end Shape
end LibraryHeader
end BlockText
