/-
Printed parts of headers.

The parts of a header that are no calls and no signatures are simple names, returns clauses, and what
a library header says.  Each has a predicate `IsRead` for the values that are read as they were
printed; all values that are read have it.

A simple name has no colon, so the name of a library header that is found is the one that was printed
(`LibraryHeader.ofText?_print`).
-/
import BlockText.Proofs.Name.Clause
import BlockText.Proofs.Number.Write
import BlockText.Proofs.Reading.LibraryHeader

namespace BlockText

/-! ## Simple names -/

namespace SimpleName

/-- The names that are read as themselves. -/
structure IsRead (name : Text) : Prop where
  trimmed : Text.Trimmed name
  ne_nil : name ≠ []
  numeral : Number.isNumeral name = false
  plain : ∀ c ∈ name, Category.isDelimiter c = false

theorem IsRead.isWritten {name : Text} (h : IsRead name) : IsWritten name :=
  ⟨Text.isBlank_eq_false_of_trimmed h.trimmed h.ne_nil, h.numeral, h.plain⟩

theorem IsRead.read {name : Text} (h : IsRead name) : read name = .ok name :=
  read_eq_ok_iff.mpr ⟨h.isWritten, Text.trim_of_trimmed h.trimmed⟩

theorem IsWritten.isRead_trim {text : Text} (h : IsWritten text) : IsRead text.trim := by
  refine ⟨Text.trimmed_trim text, fun hnil => ?_, ?_,
    fun c hc => h.plain c (Text.mem_of_mem_trim hc)⟩
  · have hblank := h.not_blank
    rw [Text.trim_eq_nil_iff.mp hnil] at hblank
    cases hblank
  · rw [Number.isNumeral_congr (Text.trim_trim text), h.numeral]

theorem isRead_of_read {text name : Text} (h : read text = .ok name) :
    IsRead name ∧ ∀ c ∈ name, c ∈ text := by
  obtain ⟨hw, rfl⟩ := read_eq_ok_iff.mp h
  exact ⟨hw.isRead_trim, fun c hc => Text.mem_of_mem_trim hc⟩

end SimpleName

/-! ## Returns clauses -/

namespace Returns

def print (r : Returns) : Text := "returns".toList ++ ' ' :: (r.name ++ ':' :: r.type)

theorem print_eq (r : Returns) :
    r.print = "returns".toList ++ ' ' :: (r.name ++ ':' :: r.type) := rfl

/-- The clauses that are read as they were printed. -/
structure IsRead (r : Returns) : Prop where
  name : SimpleName.IsRead r.name
  type : SimpleName.IsRead r.type
  nameFeed : '\n' ∉ r.name
  typeFeed : '\n' ∉ r.type

/-- What a clause says is read back, because its two names are trimmed. -/
theorem Says.isRead {clause : Text} {r : Returns} (h : Says clause r) : IsRead r := by
  obtain ⟨-, -, hname, hnameFeed, htype, htypeFeed⟩ := h
  exact ⟨hname.isRead_trim, htype.isRead_trim, fun hc => hnameFeed (Text.mem_of_mem_trim hc),
    fun hc => htypeFeed (Text.mem_of_mem_trim hc)⟩

theorem trimmed_print {r : Returns} (h : IsRead r) : Text.Trimmed r.print := by
  have hsplit : r.print = ("returns".toList ++ ' ' :: (r.name ++ [':'])) ++ r.type := by
    rw [print_eq, List.append_assoc, List.cons_append, List.append_assoc, List.singleton_append]
  rw [hsplit]
  exact Text.trimmed_append (List.append_ne_nil_of_left_ne_nil (by decide) _) h.type.ne_nil
    (Text.forall_mem_some (by decide)) h.type.trimmed.last

theorem feedless_print {r : Returns} (h : IsRead r) : '\n' ∉ r.print := by
  rw [print_eq, List.mem_append, List.mem_cons, List.mem_append, List.mem_cons, not_or, not_or,
    not_or, not_or]
  exact ⟨by decide, by decide, h.nameFeed, by decide, h.typeFeed⟩

theorem ofText?_print {r : Returns} (h : IsRead r) : ofText? r.print = some r := by
  rw [ofText?_eq_some_iff, Text.trim_of_trimmed (trimmed_print h)]
  have hsays : Says r.print ⟨r.name.trim, r.type.trim⟩ :=
    .mk (show Text.isBlank [' '] = true from rfl) (List.cons_ne_nil _ _) h.name.isWritten
      h.nameFeed h.type.isWritten h.typeFeed
  rwa [Text.trim_of_trimmed h.name.trimmed, Text.trim_of_trimmed h.type.trimmed] at hsays

theorem isRead_of_read {text block : Text} {r : Returns} (h : read text block = .ok r) :
    IsRead r :=
  (read_eq_ok_iff.mp h).isRead

/-- A printed clause is read as the clause. -/
theorem read_print {r : Returns} (h : IsRead r) (block : Text) : read r.print block = .ok r := by
  rw [Returns.read, ofText?_print h]

theorem print_ne_nil (r : Returns) : r.print ≠ [] := by
  rw [print_eq]
  exact List.append_ne_nil_of_left_ne_nil (by decide) _

end Returns

/-! ## Library headers -/

namespace LibraryHeader

/-- A label and a text in parentheses, with a space in front of each. -/
def field (label value : Text) : Text := ' ' :: (label ++ ' ' :: '(' :: (value ++ [')']))

/-- What a library header says behind its first word. -/
def said (h : LibraryHeader) : Text :=
  h.name ++ (field "hue:".toList h.hue ++ field "language:".toList h.language)

/-- The headers that are read as they were printed. -/
structure IsRead (h : LibraryHeader) : Prop where
  name : SimpleName.IsRead h.name
  hue : ')' ∉ h.hue
  language : ')' ∉ h.language

/-- A printed header is a header of its parts. -/
theorem shape_print {h : LibraryHeader} (hr : IsRead h) :
    Shape (Keyword.library.text ++ ' ' :: (h.said ++ [' ', '['])) h := by
  have hspace : Text.isBlank [' '] = true := by decide
  have hfields : Fields h.hue h.language
      (field "hue:".toList h.hue ++ (field "language:".toList h.language ++ [' ', '['])) := by
    simp only [field, List.cons_append, List.append_assoc, List.nil_append]
    exact .mk hspace (List.cons_ne_nil _ _) hspace hspace hspace hspace hr.hue hr.language
  have hsaid : ' ' :: (h.said ++ [' ', '[']) = [' '] ++ (h.name ++
      (field "hue:".toList h.hue ++ (field "language:".toList h.language ++ [' ', '[']))) := by
    rw [said, List.append_assoc, List.append_assoc, List.singleton_append]
  rw [hsaid]
  exact .mk hspace (List.cons_ne_nil _ _) hr.name.ne_nil hfields

/-- A printed header has the parts that it was printed from. -/
theorem ofText?_print {h : LibraryHeader} (hr : IsRead h) :
    ofText? (Keyword.library.text ++ ' ' :: (h.said ++ [' ', '['])) = some h :=
  (shape_print hr).ofText?_eq hr.name.trimmed hr.name.isWritten.colon_not_mem

/-! ### What is printed -/

theorem said_eq (h : LibraryHeader) :
    h.said = h.name ++ (field "hue:".toList h.hue ++
      ' ' :: ("language:".toList ++ ' ' :: '(' :: (h.language ++ [')']))) := rfl

theorem trimmed_said {h : LibraryHeader} (hr : IsRead h) : Text.Trimmed h.said := by
  rw [said_eq]
  refine ⟨Text.forall_head_append hr.name.ne_nil hr.name.trimmed.head _, fun c hc => ?_⟩
  rw [List.getLast?_append, List.getLast?_append, List.getLast?_cons, List.getLast?_append,
    List.getLast?_cons, List.getLast?_cons, List.getLast?_append] at hc
  cases hc
  show Text.isSpace ')' = false
  decide

theorem feedless_said {h : LibraryHeader} (hn : '\n' ∉ h.name) (hh : '\n' ∉ h.hue)
    (hl : '\n' ∉ h.language) : '\n' ∉ h.said := by
  rw [said_eq, field]
  simp only [List.mem_append, List.mem_cons, List.not_mem_nil, or_false, not_or]
  exact ⟨hn, ⟨by decide, by decide, by decide, by decide, hh, by decide⟩, by decide, by decide,
    by decide, by decide, hl, by decide⟩

/-- The digits of a hue are the hue. -/
theorem hueValue?_print (hue : Int64) (name language : Text) :
    hueValue? ⟨name, Text.signedDecimal hue.toInt, language⟩ = some hue := by
  have hmark : ∀ c ∈ Text.signedDecimal hue.toInt, Numeral.isMark c = true := fun c =>
    Numeral.isMark_of_integer? (Numeral.integer?_signedDecimal hue.toInt)
  have htrim : Text.trim (Text.signedDecimal hue.toInt) = Text.signedDecimal hue.toInt := by
    refine Text.trim_of_trimmed ⟨fun c hc => ?_, fun c hc => ?_⟩
    · exact Numeral.isSpace_eq_false_of_isMark (hmark c (List.mem_of_mem_head? hc))
    · exact Numeral.isSpace_eq_false_of_isMark (hmark c (List.mem_of_mem_getLast? hc))
  rw [hueValue?]
  simp only [htrim, Numeral.integer?_signedDecimal, Option.bind_eq_bind, Option.bind_some,
    Int64.minValue_le_toInt, Int64.toInt_le, and_self, if_true, Int64.ofInt_toInt]

end LibraryHeader
end BlockText
