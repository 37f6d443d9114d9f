/-
Which library headers open a library.

A header opens a library if it has the shape of one with a simple name, a hue of 64 bits and a language
(`LibraryHeader.Fits`).  A simple name has no colon, so it is the name that the reader finds if it is the
name of any shape of the header; the shape that fits is therefore the only one that does, and a header is
refused for its name only if no shape of it has a simple name (`Opening.ofHeader_library`).
-/
import BlockText.Proofs.Print.Clause
import BlockText.Proofs.Reading.Refusal

namespace BlockText
namespace LibraryHeader

/-- The text is a header of these parts, which make a library of hue `n`. -/
structure Fits (t : Text) (h : LibraryHeader) (n : Int) : Prop where
  shape : Shape t h
  name : SimpleName.IsRead h.name
  hue : Numeral.IsInteger h.hue.trim n
  range : -2 ^ 63 ≤ n ∧ n < 2 ^ 63
  language : h.language.isBlank = false

variable {t : Text} {h h' : LibraryHeader} {n n' : Int}

/-- A shape with a simple name is found, without the white space around the name. -/
theorem Shape.ofText?_of_isWritten (hs : Shape t h) (hw : SimpleName.IsWritten h.name) :
    ofText? t = some { h with name := h.name.trim } :=
  (hs.trim_name hw.not_blank).ofText?_eq (Text.trimmed_trim h.name)
    hw.isRead_trim.isWritten.colon_not_mem

theorem Fits.ofText?_eq (hf : Fits t h n) : ofText? t = some h :=
  hf.shape.ofText?_eq hf.name.trimmed hf.name.isWritten.colon_not_mem

theorem Fits.unique (hf : Fits t h n) (hf' : Fits t h' n') : h' = h ∧ n' = n := by
  obtain rfl : h' = h := Option.some.inj (hf'.ofText?_eq.symm.trans hf.ofText?_eq)
  have hn := Numeral.integer?_eq_some_iff.mpr hf.hue
  have hn' := Numeral.integer?_eq_some_iff.mpr hf'.hue
  exact ⟨rfl, Option.some.inj (hn'.symm.trans hn)⟩

/-- A hue is a number of 64 bits as it was written, never one that is wrapped around. -/
theorem hueValue?_eq_some_iff {hue : Int64} :
    h.hueValue? = some hue ↔ Numeral.IsInteger h.hue.trim hue.toInt := by
  rw [← Numeral.integer?_eq_some_iff, hueValue?]
  constructor
  · intro hh
    obtain ⟨n, hn, hh⟩ := Option.bind_eq_some_iff.mp hh
    split at hh
    next hrange =>
      cases hh
      rw [hn, Int64.toInt_ofInt_of_le hrange.1 (Int.lt_add_one_of_le hrange.2)]
    · cases hh
  · intro hn
    simp only [hn, Option.bind_eq_bind, Option.bind_some, Int64.minValue_le_toInt, Int64.toInt_le,
      and_self, if_true, Int64.ofInt_toInt]

end LibraryHeader

namespace Opening

open LibraryHeader

variable {line : Line} {depth : Nat}

/-- A header opens the library of the shape that fits. -/
theorem ofHeader_of_fits {h : LibraryHeader} {n : Int} (hf : Fits line.trimmed h n) :
    ∃ hue : Int64, hue.toInt = n ∧
      ofHeader .library depth line = .ok (some (library h.name hue h.language.trim)) := by
  have htoInt : (Int64.ofInt n).toInt = n := Int64.toInt_ofInt_of_le hf.range.1 hf.range.2
  refine ⟨Int64.ofInt n, htoInt, ofHeader_eq_ok_iff.mpr ⟨rfl, ?_⟩⟩
  refine .library hf.ofText?_eq hf.name.read (hueValue?_eq_some_iff.mpr ?_) hf.language
  rw [htoInt]
  exact hf.hue

/-- A header that opens a library has a shape that fits. -/
theorem exists_fits_of_ofHeader {o : Opening}
    (h : ofHeader .library depth line = .ok (some o)) : ∃ h n, Fits line.trimmed h n := by
  obtain ⟨hc, hsays⟩ := ofHeader_eq_ok_iff.mp h
  cases hsays with
  | @library header name hue hs hn hh hl =>
    obtain ⟨hw, -⟩ := SimpleName.read_eq_ok_iff.mp hn
    obtain ⟨hshape, -⟩ := shape_of_ofText? hs
    exact ⟨{ header with name := header.name.trim }, hue.toInt, hshape.trim_name hw.not_blank,
      hw.isRead_trim, hueValue?_eq_some_iff.mp hh, ⟨Int64.le_toInt hue, Int64.toInt_lt hue⟩, hl⟩
  | _ => cases hc

/-- The error of a library header is in its name if it has shapes and none of them has a simple name. -/
theorem ofHeader_library_eq_error {e : ParseError}
    (h : ofHeader .library depth line = .error e) :
    e.place = line ∧
      ((e.kind = .nameSyntax ∧ (∃ h, Shape line.trimmed h) ∧
        ∀ h, Shape line.trimmed h → ¬ SimpleName.IsWritten h.name) ∨
      (e.kind = .metadata ∧ ((∀ h, ¬ Shape line.trimmed h) ∨
        ∃ h, Shape line.trimmed h ∧ SimpleName.IsWritten h.name))) := by
  replace h : ofLibraryHeader line = .error e := Outcome.map_eq_error_iff.mp h
  rw [ofLibraryHeader] at h
  split at h
  next hnone =>
    cases h
    refine ⟨rfl, Or.inr ⟨rfl, Or.inl fun h hs => ?_⟩⟩
    obtain ⟨h', hh'⟩ := hs.exists_ofText?
    cases hnone.symm.trans hh'
  next header hsome =>
    have hshape := (shape_of_ofText? hsome).1
    rcases Outcome.bind_eq_error_iff.mp h with h | ⟨name, hn, h⟩
    · obtain ⟨error, he, rfl⟩ := Outcome.mapError_eq_error_iff.mp h
      refine ⟨rfl, Or.inl ⟨rfl, ⟨header, hshape⟩, fun h hs hw => ?_⟩⟩
      -- The reader would have found this simple name and read it.
      obtain rfl := Option.some.inj (hsome.symm.trans (hs.ofText?_of_isWritten hw))
      cases he.symm.trans hw.isRead_trim.read
    · have hw := (SimpleName.read_eq_ok_iff.mp (atLine_eq_ok_iff.mp hn)).1
      split at h
      · cases h
        exact ⟨rfl, Or.inr ⟨rfl, Or.inr ⟨header, hshape, hw⟩⟩⟩
      · split at h
        · cases h
          exact ⟨rfl, Or.inr ⟨rfl, Or.inr ⟨header, hshape, hw⟩⟩⟩
        · cases h

/-- A header opens a library if and only if a shape of it fits, and that shape is then the only one that
does and the one the library has its name, hue and language from.  Any other header is at fault: in its
name if it has shapes and the name of none is simple, and for its metadata if not. -/
theorem ofHeader_library (depth : Nat) (line : Line) :
    ((∃ o, ofHeader .library depth line = .ok (some o)) ↔ ∃ h n, Fits line.trimmed h n) ∧
    (∀ h n, Fits line.trimmed h n →
      (∀ h' n', Fits line.trimmed h' n' → h' = h ∧ n' = n) ∧
      ∃ hue : Int64, hue.toInt = n ∧
        ofHeader .library depth line = .ok (some (library h.name hue h.language.trim)) ∧
        ∀ b closing, (library h.name hue h.language.trim).close b closing =
          .ok (some (.library ⟨h.name, hue, h.language.trim, b.comments, b.definitions⟩))) ∧
    ((∀ h n, ¬ Fits line.trimmed h n) → ∃ e, ofHeader .library depth line = .error e ∧
      e.place = line ∧
        ((e.kind = .nameSyntax ∧ (∃ h, Shape line.trimmed h) ∧
          ∀ h, Shape line.trimmed h → ¬ SimpleName.IsWritten h.name) ∨
        (e.kind = .metadata ∧ ((∀ h, ¬ Shape line.trimmed h) ∨
          ∃ h, Shape line.trimmed h ∧ SimpleName.IsWritten h.name)))) := by
  refine ⟨⟨fun ⟨o, ho⟩ => exists_fits_of_ofHeader ho, fun ⟨h, n, hf⟩ => ?_⟩,
    fun h n hf => ⟨fun h' n' hf' => hf.unique hf', ?_⟩, fun hnone => ?_⟩
  · obtain ⟨hue, -, ho⟩ := ofHeader_of_fits hf
    exact ⟨_, ho⟩
  · obtain ⟨hue, hn, ho⟩ := ofHeader_of_fits hf
    exact ⟨hue, hn, ho, fun b closing => rfl⟩
  · cases hr : ofHeader .library depth line with
    | error e => exact ⟨e, rfl, ofHeader_library_eq_error hr⟩
    | ok o =>
      cases o with
      | none => exact absurd hr (ofHeader_ne_none (by simp [Opens]))
      | some o =>
        obtain ⟨h, n, hf⟩ := exists_fits_of_ofHeader hr
        exact absurd hf (hnone h n)

/-- The name may be the word that the fields begin with, and a parenthesis may stand in the language; a hue
past 64 bits does not wrap around. -/
theorem ofHeader_library_hue :
    (∃ hue : Int64, hue.toInt = 42 ∧
      ofHeader .library 0 ⟨1, 0, "library hue hue:( +042 ) language: (a(b ) [".toList⟩ =
        .ok (some (library "hue".toList hue "a(b".toList))) ∧
    ∃ e, ofHeader .library 0
        ⟨1, 0, "library x hue: (9223372036854775808) language: (en) [".toList⟩ = .error e ∧
      e.kind = .metadata := by
  constructor
  · have hfound : ofText? (Line.trimmed
        ⟨1, 0, "library hue hue:( +042 ) language: (a(b ) [".toList⟩) =
        some ⟨"hue".toList, " +042 ".toList, "a(b ".toList⟩ := by decide
    have hname : SimpleName.IsRead "hue".toList :=
      (SimpleName.isRead_of_read (rfl : SimpleName.read "hue".toList = .ok "hue".toList)).1
    have hhue : Numeral.IsInteger (Text.trim " +042 ".toList) 42 :=
      Numeral.integer?_eq_some_iff.mp (by decide)
    obtain ⟨-, hue, hn, ho, -⟩ := (ofHeader_library 0 _).2.1 _ _
      ⟨(shape_of_ofText? hfound).1, hname, hhue, by decide, by decide⟩
    exact ⟨hue, hn, ho⟩
  · have hfound : ofText? (Line.trimmed
        ⟨1, 0, "library x hue: (9223372036854775808) language: (en) [".toList⟩) =
        some ⟨"x".toList, "9223372036854775808".toList, "en".toList⟩ := by decide
    have hname : SimpleName.IsWritten "x".toList :=
      (SimpleName.read_eq_ok_iff.mp (rfl : SimpleName.read _ = .ok "x".toList)).1
    obtain ⟨e, he, -, hkind⟩ := (ofHeader_library 0
      ⟨1, 0, "library x hue: (9223372036854775808) language: (en) [".toList⟩).2.2 fun h n hf => by
        obtain rfl := Option.some.inj (hfound.symm.trans hf.ofText?_eq)
        have hn : Numeral.integer? (Text.trim "9223372036854775808".toList) =
            some 9223372036854775808 := by decide
        obtain rfl := Option.some.inj (hn.symm.trans (Numeral.integer?_eq_some_iff.mpr hf.hue))
        exact absurd hf.range.2 (by decide)
    refine ⟨e, he, ?_⟩
    rcases hkind with ⟨-, -, hnone⟩ | ⟨hkind, -⟩
    · exact absurd hname (hnone _ (shape_of_ofText? hfound).1)
    · exact hkind

end Opening
end BlockText
