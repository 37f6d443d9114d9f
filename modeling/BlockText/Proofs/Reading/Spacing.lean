/-
White space at the ends of lines.

Every reader of a line looks at its trimmed text, but the reader of escapes, which keeps lines as they
are.  So a change of lines that keeps what stands between the white space at their two ends
(`Respacing`) changes the code of a document line by line, and nothing else that is read
(`Document.ofLines_respace`).  Trimming is such a change, and so is none.

`Document.parse_spacing` compares two sources through their common image: sources with the same trimmed
lines, sources with the same lines, and a source with carriage returns before its line feeds.
-/
import BlockText.Proofs.Document.Code
import BlockText.Proofs.Text.Trim
import BlockText.Proofs.Reading.Recast
import BlockText.Proofs.Reading.Derivation

namespace BlockText

/-! ## Carriage returns -/

namespace Text

/-- The text with a carriage return before each line feed. -/
def crlf (t : Text) : Text := t.flatMap fun c => if c == '\n' then ['\r', '\n'] else [c]

theorem dropSuffix_cons {c r : Char} (h : c ≠ r) (t : Text) :
    dropSuffix [r] (c :: t) = c :: dropSuffix [r] t := by
  by_cases hs : [r] <:+ t
  · obtain ⟨front, rfl⟩ := hs
    rw [dropSuffix_append, ← List.cons_append, dropSuffix_append]
  · have hs' : ¬ [r] <:+ c :: t := by
      rw [List.suffix_cons_iff, not_or]
      refine ⟨fun he => h ?_, hs⟩
      exact (List.cons.inj he).1.symm
    rw [dropSuffix_of_not_suffix hs, dropSuffix_of_not_suffix hs']

theorem crlf_feed (t : Text) : crlf ('\n' :: t) = '\r' :: '\n' :: crlf t := rfl

theorem crlf_cons {c : Char} (h : c ≠ '\n') (t : Text) : crlf (c :: t) = c :: crlf t := by
  rw [crlf, List.flatMap_cons, beq_eq_false_iff_ne.mpr h]
  rfl

theorem pieces_feed (t : Text) : pieces ('\n' :: t) = [] :: pieces t := by
  rw [pieces, List.splitOn_cons_eq_if_modifyHead]
  rfl

theorem pieces_cons {c : Char} (h : c ≠ '\n') (t : Text) :
    pieces (c :: t) = (pieces t).modifyHead (c :: ·) := by
  rw [pieces, List.splitOn_cons_eq_if_modifyHead, beq_eq_false_iff_ne.mpr h]
  rfl

end Text

/-- Carriage returns before line feeds are no part of the lines. -/
theorem Line.map_text_crlf {t : Text} (h : '\r' ∉ t) :
    (ofSource t.crlf).map text = (ofSource t).map text := by
  rw [map_text_ofSource, map_text_ofSource]
  induction t with
  | nil => rfl
  | cons c t ih =>
    obtain ⟨hc, ht⟩ := not_or.mp fun hm => h (List.mem_cons.mpr hm)
    by_cases hn : c = '\n'
    · subst hn
      have hreturn : Text.pieces ('\r' :: '\n' :: Text.crlf t) = ['\r'] :: Text.pieces (Text.crlf t) := by
        rw [Text.pieces_cons (by decide), Text.pieces_feed]
        rfl
      rw [Text.crlf_feed, hreturn, Text.pieces_feed, List.map_cons, List.map_cons, ih ht]
      rfl
    · have hhead : ∀ ps : List Text, (ps.modifyHead (c :: ·)).map (Text.dropSuffix ['\r']) =
          (ps.map (Text.dropSuffix ['\r'])).modifyHead (c :: ·) := by
        intro ps
        cases ps with
        | nil => rfl
        | cons p ps =>
          rw [List.modifyHead_cons, List.map_cons, List.map_cons, List.modifyHead_cons,
            Text.dropSuffix_cons (Ne.symm hc)]
      rw [Text.crlf_cons hn, Text.pieces_cons hn, Text.pieces_cons hn, hhead, hhead, ih ht]

/-! ## Respaced lines -/

/-- A change of lines that keeps what stands between the white space at their ends. -/
structure Respacing (φ : Text → Text) : Prop where
  trim : ∀ t, (φ t).trim = t.trim
  nil : φ [] = []

theorem respacing_id : Respacing id := ⟨fun _ => rfl, rfl⟩

theorem respacing_trim : Respacing Text.trim := ⟨Text.trim_trim, rfl⟩

/-- The line with its text changed.  The place of a line in bytes depends on the lines before it, so it
is not kept. -/
def Line.respace (φ : Text → Text) (line : Line) : Line := ⟨line.number, 0, φ line.text⟩

/-- Lines are numbered in order, so their texts tell them apart. -/
theorem Line.map_respace_numbered {φ : Text → Text} {xs ys : List Text} {number a b : Nat}
    (h : (numbered number a xs).map (φ ·.text) = (numbered number b ys).map (φ ·.text)) :
    (numbered number a xs).map (respace φ) = (numbered number b ys).map (respace φ) := by
  induction xs generalizing ys number a b with
  | nil =>
    cases ys with
    | nil => rfl
    | cons y ys => cases h
  | cons x xs ih =>
    cases ys with
    | nil => cases h
    | cons y ys =>
      rw [numbered, numbered, List.map_cons, List.map_cons, List.cons.injEq] at h
      rw [numbered, numbered, List.map_cons, List.map_cons, ih h.2, respace, respace, h.1]

theorem Line.map_respace_congr {φ : Text → Text} {s₁ s₂ : Text}
    (h : (ofSource s₁).map (φ ·.text) = (ofSource s₂).map (φ ·.text)) :
    (ofSource s₁).map (respace φ) = (ofSource s₂).map (respace φ) :=
  map_respace_numbered h

def Verbatim.mapLines (φ : Text → Text) : Verbatim → Verbatim
  | hosted returns code => hosted returns (code.map φ)
  | comment pieces => comment pieces

/-- Respacing lines, and with them the code that is made of them. -/
def Recast.spacing {φ : Text → Text} (hφ : Respacing φ) : Recast where
  line := Line.respace φ
  node := Node.mapCode (Text.mapLines φ)
  verbatim := Verbatim.mapLines φ
  contents := Contents.mapCode (Text.mapLines φ)
  top := Contents.mapCode (Text.mapLines φ)
  trimmed_line l := hφ.trim l.text
  contents_empty := rfl
  contents_add := Contents.mapCode_add _
  top_add := Contents.mapCode_add _
  close o b l := Opening.close_mapCode _ o b l
  node_comment _ := rfl
  node_call _ _ := rfl
  verbatim_comment _ := rfl
  verbatim_hosted _ := rfl
  category_verbatim v := by cases v <;> rfl

/-- The lines of code that a reading keeps hold no line feeds, so they are respaced one by one. -/
theorem Recast.suits_spacing {φ : Text → Text} (hφ : Respacing φ) {strict : Bool} {s : State}
    (hs : s.Derived strict) (line : Line) : (Recast.spacing hφ).Suits s line := by
  intro header v hv
  cases hs.verbatim header v hv with
  | comment => exact (Recast.spacing hφ).take_comment _ line
  | hosted h hr hcode =>
    rename_i returns code
    have htrim : (line.respace φ).trimmed = line.trimmed := hφ.trim line.text
    show (Verbatim.hosted returns (code.map φ)).take (line.respace φ) = _
    rw [Verbatim.take, Verbatim.take, htrim]
    split
    · refine congrArg Sum.inr ?_
      show Node.step (.hosted _ _) = .step (.hosted _ (Text.mapLines φ (Text.joinLines code)))
      rw [Text.mapLines_joinLines hφ.nil fun t ht => (hcode t ht).feedless]
    · refine congrArg Sum.inl ?_
      show Verbatim.hosted _ _ = .hosted _ ((code ++ [line.text]).map φ)
      rw [List.map_append]
      rfl

/-- Respaced lines give the respaced document, or the error on the respaced line. -/
theorem Document.ofLines_respace {φ : Text → Text} (hφ : Respacing φ) (strict : Bool)
    (source : Text) :
    ofLines strict ((Line.ofSource source).map (Line.respace φ)) =
      ((parse strict source).map (mapCode (Text.mapLines φ))).mapError
        (fun e => e.on (e.place.respace φ)) := by
  rw [ofLines_eq, parse, ofLines_eq]
  exact (Recast.spacing hφ).run_finish (fun _ => rfl) strict (P := State.Derived strict)
    (fun line hl hs hm => State.derived_of_move (Line.not_mem_text hl) hs hm)
    (fun line _ hs => Recast.suits_spacing hφ hs line) (State.derived_start strict)

/-! ## Errors on respaced lines -/

/-- The errors say the same of lines of the same number. -/
structure ParseError.Alike (e e' : ParseError) : Prop where
  /-- They are of one variant, with the same fault in it. -/
  fault : e' = e.on e'.place
  lineNumber : e'.lineNumber = e.lineNumber
  kind : e'.kind = e.kind
  message : e'.message = e.message
  index? : e'.index? = e.index?
  /-- The texts of faults in names are the same. -/
  text : e.index?.isSome = true → e'.text = e.text

/-- The errors are the same but for the place in bytes. -/
structure ParseError.Same (e e' : ParseError) : Prop extends ParseError.Alike e e' where
  line_text : e'.place.text = e.place.text
  same_text : e'.text = e.text
  display : e'.display = e.display

namespace ParseError

variable {φ : Text → Text} {e e' : ParseError}

theorem alike_of_respace
    (h : e.on (e.place.respace φ) = e'.on (e'.place.respace φ)) : e.Alike e' := by
  cases e with
  | line fault l =>
    cases e' with
    | line fault' l' =>
      obtain ⟨rfl, hl⟩ := ParseError.line.inj h
      exact ⟨rfl, (Line.mk.inj hl).1.symm, rfl, rfl, rfl, fun hi => by cases hi⟩
    | name => cases h
  | name n l =>
    cases e' with
    | line => cases h
    | name n' l' =>
      obtain ⟨rfl, hl⟩ := ParseError.name.inj h
      exact ⟨rfl, (Line.mk.inj hl).1.symm, rfl, rfl, rfl, fun _ => rfl⟩

theorem same_of_respace
    (h : e.on (e.place.respace id) = e'.on (e'.place.respace id)) : e.Same e' := by
  have halike := alike_of_respace h
  have hplace : e'.place.text = e.place.text := by
    have hl := congrArg (fun e => e.place.text) h
    rw [place_on, place_on] at hl
    exact hl.symm
  have htext : e'.text = e.text := by
    rw [halike.fault]
    cases e with
    | line fault l => exact hplace
    | name n l => rfl
  refine ⟨halike, hplace, htext, ?_⟩
  rw [display.eq_def, display.eq_def, title, title, halike.kind, halike.message, halike.lineNumber]
  congr 1
  rw [halike.fault]
  cases e with
  | line fault l =>
    show ": \"".toList ++ e'.place.text ++ _ = _
    rw [hplace]
    rfl
  | name n l => rfl

end ParseError

/-! ## Sources that are read alike -/

namespace Document

theorem parse_respace {φ : Text → Text} (hφ : Respacing φ) (strict : Bool) {s₁ s₂ : Text}
    (h : (Line.ofSource s₁).map (φ ·.text) = (Line.ofSource s₂).map (φ ·.text)) :
    Outcome.Related
      (fun d₁ d₂ => d₁.mapCode (Text.mapLines φ) = d₂.mapCode (Text.mapLines φ))
      (fun e₁ e₂ => e₁.on (e₁.place.respace φ) = e₂.on (e₂.place.respace φ))
      (parse strict s₁) (parse strict s₂) := by
  refine Outcome.related_of_image ?_
  rw [← ofLines_respace hφ, ← ofLines_respace hφ, Line.map_respace_congr h]

theorem parse_same (strict : Bool) {s₁ s₂ : Text}
    (h : (Line.ofSource s₁).map Line.text = (Line.ofSource s₂).map Line.text) :
    Outcome.Related Eq ParseError.Same (parse strict s₁) (parse strict s₂) := by
  refine (parse_respace respacing_id strict h).mono (fun d₁ d₂ hd => ?_)
    fun _ _ => ParseError.same_of_respace
  rwa [Text.mapLines_id, mapCode_id, mapCode_id] at hd

/-- What is read of a source depends on its trimmed lines alone, but for code, which is the same line
by line up to white space at the ends.  With the same lines, whatever their endings, all that is read
is the same, and errors differ in nothing but the span. -/
theorem parse_spacing (strict : Bool) (s₁ s₂ : Text) :
    ((Line.ofSource s₁).map Line.trimmed = (Line.ofSource s₂).map Line.trimmed →
      Outcome.Related
        (fun d₁ d₂ => d₁.mapCode (Text.mapLines Text.trim) = d₂.mapCode (Text.mapLines Text.trim))
        ParseError.Alike (parse strict s₁) (parse strict s₂)) ∧
    ((Line.ofSource s₁).map Line.text = (Line.ofSource s₂).map Line.text →
      Outcome.Related Eq ParseError.Same (parse strict s₁) (parse strict s₂)) ∧
    ('\r' ∉ s₁ →
      Outcome.Related Eq ParseError.Same (parse strict s₁) (parse strict s₁.crlf)) := by
  refine ⟨fun h => ?_, parse_same strict, fun h => ?_⟩
  · exact (parse_respace respacing_trim strict h).mono (fun _ _ hd => hd)
      fun _ _ => ParseError.alike_of_respace
  · exact parse_same strict (Line.map_text_crlf h).symm

/-- An escape with a line indented in one source and not in the other, and a source with a call where
none may stand, with all endings and with one ending changed. -/
theorem parse_spacing_escape :
    Outcome.Related
        (fun d₁ d₂ => d₁.mapCode (Text.mapLines Text.trim) = d₂.mapCode (Text.mapLines Text.trim))
        ParseError.Alike
        (parse true "unit A [\nsprite B [\ndefine c [\nhosted [@\n\tx\n@]\n]\n]\n]".toList)
        (parse true "unit A [\nsprite B [\ndefine c [\nhosted [@\nx \n@]\n]\n]\n]".toList) ∧
      Outcome.Related Eq ParseError.Same (parse true "//a\nb\n".toList)
        (parse true "//a\r\nb\n".toList) ∧
      Outcome.Related Eq ParseError.Same (parse true "//a\nb\n".toList)
        (parse true (Text.crlf "//a\nb\n".toList)) :=
  ⟨(parse_spacing true _ _).1 (by decide), (parse_spacing true _ _).2.1 (by decide),
    (parse_spacing true _ []).2.2 (by decide)⟩

end Document
end BlockText
