/-
Lines as a cut of their source.

Cutting a source into lines loses nothing: behind the text of a line stand a line feed and at most one
carriage return, behind the last one at most the carriage return, and offsets count all of it.
`Line.Lays` says this of lines that are laid one after the other, each with what stands behind it.  What it
gives for one line is read off the lines from there on (`Line.Lays.behind`), so that only the line and its
neighbour are looked at.  `Line.ofSource_cut` puts it together.
-/
import BlockText.Proofs.Text.Slices

namespace BlockText

namespace Text

/-! ## Bytes and slices -/

theorem eq_nil_of_byteLength {t : Text} (h : byteLength t = 0) : t = [] := by
  cases t with
  | nil => rfl
  | cons c t =>
    have hpos := c.utf8Size_pos
    have hsum : c.utf8Size + byteLength t = 0 := h
    omega

/-- A text is cut at a number of bytes in one way. -/
theorem append_inj_of_byteLength {a b u v : Text} (h : a ++ u = b ++ v)
    (hlength : byteLength a = byteLength b) : a = b ∧ u = v := by
  rcases List.append_eq_append_iff.mp h with ⟨c, rfl, rfl⟩ | ⟨c, rfl, rfl⟩
  · rw [byteLength_append] at hlength
    obtain rfl := eq_nil_of_byteLength (t := c) (by omega)
    exact ⟨(List.append_nil a).symm, rfl⟩
  · rw [byteLength_append] at hlength
    obtain rfl := eq_nil_of_byteLength (t := c) (by omega)
    exact ⟨List.append_nil b, rfl⟩

/-- The raw line of a text that ends in a carriage return ends in two. -/
theorem returns_suffix {raw : Text} (h : (dropSuffix ['\r'] raw).getLast? = some '\r') :
    ['\r', '\r'] <:+ raw := by
  by_cases hraw : ['\r'] <:+ raw
  · obtain ⟨text, rfl⟩ := hraw
    rw [dropSuffix_append] at h
    obtain ⟨front, rfl⟩ := List.getLast?_eq_some_iff.mp h
    exact ⟨front, by simp⟩
  · rw [dropSuffix_of_not_suffix hraw] at h
    obtain ⟨front, hfront⟩ := List.getLast?_eq_some_iff.mp h
    exact absurd ⟨front, hfront.symm⟩ hraw

end Text

/-- The bytes of a span are one text. -/
theorem Span.Cuts.iff {span : Span} {source piece : Text} (h : span.Cuts source piece)
    (piece' : Text) : span.Cuts source piece' ↔ piece' = piece := by
  constructor
  · intro h'
    obtain ⟨a, u, hs, hstart, hstop⟩ := h
    obtain ⟨b, v, hs', hstart', hstop'⟩ := h'
    rw [hs, List.append_assoc, List.append_assoc] at hs'
    obtain ⟨rfl, hrest⟩ := Text.append_inj_of_byteLength hs' (by omega)
    exact (Text.append_inj_of_byteLength hrest (by omega)).1.symm
  · rintro rfl
    exact h

namespace Line

/-! ## Lines with what stands behind them -/

/-- Lines, each with what stands behind its text, spell the text one after the other, the first one with
this number and at this offset. -/
inductive Lays : Nat → Nat → List (Line × Text) → Text → Prop
  | last {number start : Nat} {text ending : Text} (hfeed : '\n' ∉ text)
    (hend : ending = [] ∨ ending = ['\r']) :
    Lays number start [(⟨number, start, text⟩, ending)] (text ++ ending)
  | next {number start : Nat} {text ending rest : Text} {items : List (Line × Text)}
    (hfeed : '\n' ∉ text) (hend : ending = ['\n'] ∨ ending = ['\r', '\n'])
    (h : Lays (number + 1) (start + Text.byteLength (text ++ ending)) items rest) :
    Lays number start ((⟨number, start, text⟩, ending) :: items) (text ++ ending ++ rest)

/-- A raw line is the text of its line and what is dropped behind it. -/
theorem exists_dropped {raw : Text} (h : '\n' ∉ raw) :
    ∃ text dropped, Text.dropSuffix ['\r'] raw = text ∧ raw = text ++ dropped ∧ '\n' ∉ text ∧
      (dropped = [] ∨ dropped = ['\r']) := by
  by_cases hraw : ['\r'] <:+ raw
  · obtain ⟨text, rfl⟩ := hraw
    exact ⟨text, ['\r'], Text.dropSuffix_append text _, rfl,
      fun hmem => h (List.mem_append_left _ hmem), Or.inr rfl⟩
  · exact ⟨raw, [], Text.dropSuffix_of_not_suffix hraw, (List.append_nil raw).symm, h, Or.inl rfl⟩

/-- Raw lines with line feeds between them are the text that their lines lay. -/
theorem exists_lays_numbered {raws : List Text} (hne : raws ≠ []) (h : ∀ raw ∈ raws, '\n' ∉ raw)
    (number start : Nat) :
    ∃ items, items.map Prod.fst = numbered number start raws ∧
      Lays number start items (Text.joinLines raws) := by
  induction raws generalizing number start with
  | nil => exact absurd rfl hne
  | cons raw raws ih =>
    obtain ⟨text, dropped, htext, hraw, hfeed, hd⟩ := exists_dropped (h raw List.mem_cons_self)
    cases raws with
    | nil =>
      refine ⟨[(⟨number, start, text⟩, dropped)], by simp [numbered, htext], ?_⟩
      rw [Text.joinLines_singleton, hraw]
      exact .last hfeed hd
    | cons raw' raws =>
      obtain ⟨items, hitems, hlays⟩ := ih (List.cons_ne_nil raw' raws)
        (fun r hr => h r (List.mem_cons_of_mem raw hr)) (number + 1) (start + raw.byteLength + 1)
      have hwidth : start + raw.byteLength + 1 =
          start + Text.byteLength (text ++ (dropped ++ ['\n'])) := by
        have hone : Text.byteLength ['\n'] = 1 := rfl
        rw [hraw, ← List.append_assoc, Text.byteLength_append _ ['\n'], hone]
        omega
      have hsplit : Text.joinLines (raw :: raw' :: raws) =
          text ++ (dropped ++ ['\n']) ++ Text.joinLines (raw' :: raws) := by
        rw [Text.joinLines_cons_cons, hraw]
        simp only [List.append_assoc, List.singleton_append]
      refine ⟨(⟨number, start, text⟩, dropped ++ ['\n']) :: items, ?_, ?_⟩
      · rw [List.map_cons, hitems, numbered.eq_2 number, htext]
      · rw [hwidth] at hlays
        rw [hsplit]
        refine .next hfeed ?_ hlays
        rcases hd with rfl | rfl
        · exact Or.inl rfl
        · exact Or.inr rfl

theorem exists_lays_ofSource (source : Text) :
    ∃ items, items.map Prod.fst = ofSource source ∧ Lays 1 0 items source := by
  have h := exists_lays_numbered (Text.pieces_ne_nil source)
    (fun _ hp => Text.not_mem_of_mem_pieces hp) 1 0
  rw [Text.joinLines_pieces] at h
  exact h

namespace Lays

variable {number start : Nat} {items front back : List (Line × Text)} {line : Line}
  {text ending : Text}

theorem ne_nil (h : Lays number start items text) : items ≠ [] := by
  cases h <;> exact List.cons_ne_nil _ _

/-- The texts and what stands behind them are all of the text. -/
theorem flatMap_eq (h : Lays number start items text) :
    (items.flatMap fun item => item.1.text ++ item.2) = text := by
  induction h with
  | last => exact List.flatMap_singleton _ _
  | next _ _ _ ih => rw [List.flatMap_cons, ih]

theorem length_eq (h : Lays number start items text) : items.length = text.count '\n' + 1 := by
  induction h with
  | last hfeed hend =>
    rw [List.count_append, List.count_eq_zero_of_not_mem hfeed]
    rcases hend with rfl | rfl <;> rfl
  | next hfeed hend _ ih =>
    rw [List.count_append, List.count_append, List.count_eq_zero_of_not_mem hfeed,
      List.length_cons, ih]
    rcases hend with rfl | rfl <;> simp <;> omega

/-- The first line has the number and the offset. -/
theorem of_head (h : Lays number start ((line, ending) :: back) text) :
    line.number = number ∧ line.start = start := by
  cases h <;> exact ⟨rfl, rfl⟩

/-- The lines behind some of the lines are laid behind these. -/
theorem behind (h : Lays number start (front ++ back) text) (hne : back ≠ []) :
    ∃ before after, text = before ++ after ∧
      Lays (number + front.length) (start + before.byteLength) back after := by
  induction front generalizing number start text with
  | nil => exact ⟨[], text, rfl, h⟩
  | cons item front ih =>
    generalize hitems : item :: front ++ back = items at h
    cases h with
    | last =>
      have hnil := (List.cons.inj hitems).2
      exact absurd (List.append_eq_nil_iff.mp hnil).2 hne
    | next hfeed hend h =>
      obtain ⟨-, rfl⟩ := List.cons.inj hitems
      rename_i text ending rest
      obtain ⟨before, after, rfl, hlays⟩ := ih h
      refine ⟨text ++ ending ++ before, after, by simp only [List.append_assoc], ?_⟩
      rw [Text.byteLength_append, List.length_cons, ← Nat.add_assoc start, Nat.add_comm front.length,
        ← Nat.add_assoc number]
      exact hlays

end Lays

/-! ## Sources -/

/-- How a line lies in its source, with this text behind its own, behind these lines and in front of those:
it has its number and is cut out by its span, and so is what stands up to the next line, or to the end. -/
structure LiesIn (source : Text) (front : List (Line × Text)) (line : Line) (ending : Text)
    (back : List (Line × Text)) : Prop where
  number : line.number = front.length + 1
  first : front = [] → line.start = 0
  text : ∀ piece, line.span.Cuts source piece ↔ piece = line.text
  feedless : '\n' ∉ line.text
  between : ∀ next ∈ back.head?, (ending = ['\n'] ∨ ending = ['\r', '\n']) ∧
    ∀ piece, Span.Cuts ⟨line.span.stop, next.1.span.start⟩ source piece ↔ piece = ending
  last : back = [] → (ending = [] ∨ ending = ['\r']) ∧
    ∀ piece, Span.Cuts ⟨line.span.stop, source.byteLength⟩ source piece ↔ piece = ending
  /-- One carriage return is dropped, so one that is left had another one behind it. -/
  returns : line.text.getLast? = some '\r' →
    ∃ raw, source.pieces[front.length]? = some raw ∧ ['\r', '\r'] <:+ raw

theorem exists_raw {source : Text} {line : Line} {i : Nat} (h : (ofSource source)[i]? = some line) :
    ∃ raw, source.pieces[i]? = some raw ∧ Text.dropSuffix ['\r'] raw = line.text := by
  have htext := congrArg (·[i]?) (map_text_ofSource source)
  simp only [List.getElem?_map, h, Option.map_some] at htext
  exact Option.map_eq_some_iff.mp htext.symm

/-- A line and what stands behind it lie where its number and its offset say. -/
theorem Lays.liesIn {source ending : Text} {line : Line} {front back : List (Line × Text)}
    (h : Lays 1 0 (front ++ (line, ending) :: back) source)
    (hitems : (front ++ (line, ending) :: back).map Prod.fst = ofSource source) :
    LiesIn source front line ending back := by
  have hfirst : front = [] → line.start = 0 := by
    intro hnil
    rw [hnil] at h
    exact h.of_head.2
  have hreturns : line.text.getLast? = some '\r' →
      ∃ raw, source.pieces[front.length]? = some raw ∧ ['\r', '\r'] <:+ raw := by
    intro hend
    have hline : (ofSource source)[front.length]? = some line := by
      rw [← hitems]
      simp
    obtain ⟨raw, hraw, hdrop⟩ := exists_raw hline
    exact ⟨raw, hraw, Text.returns_suffix (hdrop ▸ hend)⟩
  obtain ⟨before, after, hsource, hlays⟩ := h.behind (List.cons_ne_nil _ back)
  cases hlays with
  | last hfeed hend =>
    rename_i text
    have htext : Span.Cuts ⟨0 + before.byteLength, 0 + before.byteLength + text.byteLength⟩ source
        text := ⟨before, ending, by rw [hsource, List.append_assoc], by simp, by simp⟩
    have hwidth : source.byteLength = before.byteLength + text.byteLength + ending.byteLength := by
      rw [hsource, Text.byteLength_append, Text.byteLength_append]
      omega
    have hending : Span.Cuts ⟨0 + before.byteLength + text.byteLength, source.byteLength⟩ source
        ending := ⟨before ++ text, [], by simp [hsource], by simp [Text.byteLength_append],
          by simp [hwidth, Text.byteLength_append]⟩
    exact ⟨Nat.add_comm _ _, hfirst, htext.iff, hfeed, nofun, fun _ => ⟨hend, hending.iff⟩, hreturns⟩
  | next hfeed hend hlays =>
    rename_i text rest
    have htext : Span.Cuts ⟨0 + before.byteLength, 0 + before.byteLength + text.byteLength⟩ source
        text := ⟨before, ending ++ rest, by simp [hsource], by simp, by simp⟩
    refine ⟨Nat.add_comm _ _, hfirst, htext.iff, hfeed, fun next hnext => ⟨hend, ?_⟩, fun hnil => ?_,
      hreturns⟩
    · obtain ⟨items, rfl⟩ := List.head?_eq_some_iff.mp hnext
      have hending : Span.Cuts ⟨0 + before.byteLength + text.byteLength, next.1.span.start⟩ source
          ending := by
        refine ⟨before ++ text, rest, by simp [hsource], by simp [Text.byteLength_append], ?_⟩
        show next.1.start = _
        rw [hlays.of_head.2]
        simp only [Text.byteLength_append]
        omega
      exact hending.iff
    · exact absurd hnil hlays.ne_nil

/-- A line's span cuts out its text. -/
theorem cuts_of_mem {source : Text} {line : Line} (h : line ∈ ofSource source) :
    line.span.Cuts source line.text := by
  obtain ⟨items, hitems, hlays⟩ := exists_lays_ofSource source
  rw [← hitems] at h
  obtain ⟨item, hmem, rfl⟩ := List.mem_map.mp h
  obtain ⟨front, back, rfl⟩ := List.append_of_mem hmem
  exact ((hlays.liesIn hitems).text item.1.text).mpr rfl

/-- Nothing of a source is lost in its lines.  There is one more line than there are line feeds, they are
numbered from 1, and each is what its span cuts out of the source.  What stands between two of them is a
line feed, with or without a carriage return in front of it, and what stands behind the last one is nothing
or a carriage return.  The texts with what stands behind each of them are the source. -/
theorem ofSource_cut (source : Text) :
    (ofSource source).length = source.count '\n' + 1 ∧
      ∃ items : List (Line × Text), items.map Prod.fst = ofSource source ∧
        (items.flatMap fun item => item.1.text ++ item.2) = source ∧
        ∀ front line ending back, items = front ++ (line, ending) :: back →
          LiesIn source front line ending back := by
  obtain ⟨items, hitems, hlays⟩ := exists_lays_ofSource source
  refine ⟨?_, items, hitems, hlays.flatMap_eq, fun front line ending back hsplit => ?_⟩
  · rw [← hlays.length_eq, ← hitems, List.length_map]
  · rw [hsplit] at hlays hitems
    exact hlays.liesIn hitems

/-- One of two carriage returns stays, and one at the end of the source is dropped. -/
example : (ofSource "é\r\r\n\rb\r".toList).map (fun line => (line.span, line.text)) =
    [(⟨0, 3⟩, "é\r".toList), (⟨5, 7⟩, "\rb".toList)] := by decide

end Line
end BlockText
