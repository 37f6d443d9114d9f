/-
The lines of a source that is put together.

A source with a line feed in it has the lines before the feed and the lines after it, and the latter
are the lines of the second part with their numbers and offsets moved.  `Line.ofSource_append` says
this; everything that relates the reading of a whole source to the reading of a part rests on it.
`Text.firstLines` cuts a source behind some of its lines, which leaves these as they are
(`Line.ofSource_firstLines`).
-/
import Mathlib.Algebra.Ring.Nat
import Mathlib.Data.List.Basic
import BlockText.Line

namespace BlockText

namespace Text

theorem pieces_append (a b : Text) : pieces (a ++ '\n' :: b) = pieces a ++ pieces b :=
  List.splitOn_append_cons_self a b

theorem pieces_ne_nil (t : Text) : pieces t ≠ [] := List.splitOn_ne_nil '\n' t

theorem joinLines_pieces (t : Text) : joinLines (pieces t) = t := List.intercalate_splitOn '\n'

theorem joinLines_singleton (t : Text) : joinLines [t] = t := List.intercalate_singleton

theorem joinLines_cons_cons (t u : Text) (ts : List Text) :
    joinLines (t :: u :: ts) = t ++ '\n' :: joinLines (u :: ts) := by
  rw [joinLines, joinLines, List.intercalate_cons_cons, List.append_assoc]
  rfl

theorem pieces_joinLines {ts : List Text} (h : ∀ t ∈ ts, '\n' ∉ t) (hne : ts ≠ []) :
    pieces (joinLines ts) = ts :=
  List.splitOn_intercalate '\n' h hne

theorem not_mem_of_mem_pieces {t p : Text} (h : p ∈ pieces t) : '\n' ∉ p := by
  induction t generalizing p with
  | nil =>
    rw [pieces, List.splitOn_nil, List.mem_singleton] at h
    rw [h]
    exact List.not_mem_nil
  | cons c t ih =>
    rw [pieces, List.splitOn_cons_eq_if_modifyHead] at h
    split at h
    · rcases List.mem_cons.mp h with rfl | h
      · exact List.not_mem_nil
      · exact ih h
    next hc =>
      obtain ⟨q, qs, hq⟩ := List.exists_cons_of_ne_nil (pieces_ne_nil t)
      rw [pieces] at hq
      rw [hq, List.modifyHead_cons] at h
      rcases List.mem_cons.mp h with rfl | h
      · rw [List.mem_cons, not_or]
        refine ⟨fun he => hc (beq_iff_eq.mpr he.symm), ih ?_⟩
        rw [pieces, hq]
        exact List.mem_cons_self
      · refine ih ?_
        rw [pieces, hq]
        exact List.mem_cons_of_mem q h

theorem mem_of_mem_dropSuffix {p t : Text} {c : Char} (h : c ∈ dropSuffix p t) : c ∈ t := by
  rw [dropSuffix] at h
  cases hs : List.isSuffixOf? p t with
  | none =>
    rw [hs] at h
    exact h
  | some r =>
    rw [hs] at h
    rw [← List.isSuffixOf?_eq_some_iff_append_eq.mp hs]
    exact List.mem_append_left p h

theorem byteLength_append (a b : Text) : byteLength (a ++ b) = byteLength a + byteLength b := by
  induction a with
  | nil => rw [List.nil_append, byteLength, byteLength, List.foldr_nil, Nat.zero_add]
  | cons c a ih =>
    show c.utf8Size + byteLength (a ++ b) = c.utf8Size + byteLength a + byteLength b
    omega

/-- The pieces take the bytes of the text and one more, since each is counted with a line feed. -/
theorem sum_pieces (t : Text) :
    ((pieces t).map fun p => byteLength p + 1).sum = byteLength t + 1 := by
  induction t with
  | nil => rfl
  | cons c t ih =>
    obtain ⟨q, qs, hq⟩ := List.exists_cons_of_ne_nil (pieces_ne_nil t)
    rw [hq, List.map_cons, List.sum_cons] at ih
    rw [pieces] at hq
    rw [pieces, List.splitOn_cons_eq_if_modifyHead, hq]
    have hc : byteLength (c :: t) = c.utf8Size + byteLength t := rfl
    split
    next h =>
      have hfeed : c.utf8Size = 1 := by
        rw [beq_iff_eq.mp h]
        decide
      rw [List.map_cons, List.sum_cons, List.map_cons, List.sum_cons, hc, hfeed, ih]
      show 0 + 1 + (byteLength t + 1) = _
      omega
    · have hq' : byteLength (c :: q) = c.utf8Size + byteLength q := rfl
      rw [List.modifyHead_cons, List.map_cons, List.sum_cons, hc, hq']
      omega

end Text

/-! ## Moving lines -/

/-- A distance in a source: lines and bytes. -/
structure Shift where
  lines : Nat
  bytes : Nat

/-- The distance from the start of a source to what stands behind it and a line feed. -/
def Shift.past (source : Text) : Shift :=
  ⟨(Line.ofSource source).length, source.byteLength + 1⟩

def Span.shift (d : Shift) (span : Span) : Span := ⟨span.start + d.bytes, span.stop + d.bytes⟩

namespace Line

def shift (d : Shift) (line : Line) : Line :=
  ⟨line.number + d.lines, line.start + d.bytes, line.text⟩

@[simp] theorem shift_text (d : Shift) (line : Line) : (line.shift d).text = line.text := rfl

@[simp] theorem shift_trimmed (d : Shift) (line : Line) : (line.shift d).trimmed = line.trimmed :=
  rfl

theorem shift_span (d : Shift) (line : Line) : (line.shift d).span = line.span.shift d := by
  rw [span, Span.shift, shift, span]
  congr 1
  exact Nat.add_right_comm _ _ _

theorem numbered_append (number start : Nat) (xs ys : List Text) :
    numbered number start (xs ++ ys) =
      numbered number start xs ++
        numbered (number + xs.length) (start + (xs.map fun p => p.byteLength + 1).sum) ys := by
  induction xs generalizing number start with
  | nil => rfl
  | cons x xs ih =>
    rw [List.cons_append, numbered, numbered, ih, List.map_cons, List.sum_cons, List.length_cons,
      List.cons_append]
    congr 3 <;> omega

theorem numbered_shift (d : Shift) (number start : Nat) (xs : List Text) :
    numbered (number + d.lines) (start + d.bytes) xs = (numbered number start xs).map (shift d) := by
  induction xs generalizing number start with
  | nil => rfl
  | cons x xs ih =>
    rw [numbered, numbered, List.map_cons, ← ih, shift]
    congr 2 <;> omega

theorem length_numbered (number start : Nat) (xs : List Text) :
    (numbered number start xs).length = xs.length := by
  induction xs generalizing number start with
  | nil => rfl
  | cons x xs ih => rw [numbered, List.length_cons, ih, List.length_cons]

/-- The texts of the lines are the pieces without the carriage returns of their endings. -/
theorem map_text_ofSource (source : Text) :
    (ofSource source).map text = source.pieces.map (Text.dropSuffix ['\r']) := by
  have h : ∀ (xs : List Text) (number start : Nat),
      (numbered number start xs).map text = xs.map (Text.dropSuffix ['\r']) := by
    intro xs
    induction xs with
    | nil => intro _ _; rfl
    | cons x xs ih =>
      intro number start
      rw [numbered, List.map_cons, List.map_cons, ih]
  exact h _ _ _

/-- No line holds a line feed. -/
theorem not_mem_text {source : Text} {line : Line} (h : line ∈ ofSource source) :
    '\n' ∉ line.text := by
  have ht : line.text ∈ (ofSource source).map text := List.mem_map_of_mem h
  rw [map_text_ofSource, List.mem_map] at ht
  obtain ⟨p, hp, he⟩ := ht
  rw [← he]
  exact fun hc => Text.not_mem_of_mem_pieces hp (Text.mem_of_mem_dropSuffix hc)

theorem ofSource_append (a b : Text) :
    ofSource (a ++ '\n' :: b) = ofSource a ++ (ofSource b).map (shift (Shift.past a)) := by
  have hlines : (Shift.past a).lines = a.pieces.length := length_numbered _ _ _
  rw [ofSource, Text.pieces_append, numbered_append, Text.sum_pieces, ofSource, ofSource,
    ← numbered_shift, hlines]
  rfl

end Line

/-! ## The first lines of a source -/

/-- The first `k` lines of a text, with the line feeds between them. -/
def Text.firstLines (k : Nat) (t : Text) : Text := joinLines (t.pieces.take k)

theorem Text.firstLines_zero (t : Text) : firstLines 0 t = [] := rfl

theorem Text.pieces_firstLines {k : Nat} (hk : 0 < k) (t : Text) :
    pieces (firstLines k t) = t.pieces.take k := by
  refine pieces_joinLines (fun p hp => not_mem_of_mem_pieces (List.mem_of_mem_take hp)) ?_
  rw [Ne, List.take_eq_nil_iff, not_or]
  exact ⟨by omega, pieces_ne_nil t⟩

namespace Line

theorem numbered_take (number start k : Nat) (xs : List Text) :
    numbered number start (xs.take k) = (numbered number start xs).take k := by
  induction k generalizing number start xs with
  | zero => rfl
  | succ k ih =>
    cases xs with
    | nil => rfl
    | cons x xs => rw [List.take_succ_cons, numbered, numbered, List.take_succ_cons, ih]

/-- Cutting a source after some of its lines leaves these lines as they are. -/
theorem ofSource_firstLines {k : Nat} (hk : 0 < k) (t : Text) :
    ofSource (t.firstLines k) = (ofSource t).take k := by
  rw [ofSource, Text.pieces_firstLines hk, numbered_take]
  rfl

/-- Lines are numbered in order, from 1. -/
theorem number_of_split {source : Text} {before after : List Line} {line : Line}
    (h : ofSource source = before ++ line :: after) : line.number = before.length + 1 := by
  have hnumber : ∀ (before : List Line) (xs : List Text) (number start : Nat),
      numbered number start xs = before ++ line :: after →
        line.number = number + before.length := by
    intro before
    induction before with
    | nil =>
      intro xs number start h
      cases xs with
      | nil => cases h
      | cons x xs =>
        obtain ⟨rfl, -⟩ := List.cons.inj h
        rfl
    | cons l before ih =>
      intro xs number start h
      cases xs with
      | nil => cases h
      | cons x xs =>
        obtain ⟨-, h⟩ := List.cons.inj h
        rw [ih xs _ _ h, List.length_cons]
        omega
  rw [hnumber before source.pieces 1 0 h]
  omega

theorem number_of_getElem? {source : Text} {i : Nat} {line : Line}
    (h : (ofSource source)[i]? = some line) : line.number = i + 1 := by
  obtain ⟨hi, hline⟩ := List.getElem?_eq_some_iff.mp h
  have hsplit := List.take_append_drop i (ofSource source)
  rw [List.drop_eq_getElem_cons hi, hline] at hsplit
  rw [number_of_split hsplit.symm, List.length_take]
  omega

end Line
end BlockText
