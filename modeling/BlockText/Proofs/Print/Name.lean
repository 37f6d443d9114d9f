/-
Printed names.

A canonical name is printed with the texts of its arguments or slots in the place of its seams.  The
spaces in the name of a call become tabs, so that no header but one of a single word can show in it.

What is printed spells what was read: `Call.read_print` for call sites, and
`Signature.spells_print` for signatures.  The texts of arguments follow the grammar of call sites
again, so the induction is on the grammar (`Call.Spells.print_args`).
-/
import Mathlib.Data.List.Forall2
import BlockText.Proofs.Name.Signature
import BlockText.Proofs.Number.Write
import BlockText.Proofs.Reading.CallLine

namespace BlockText

/-! ## Seams -/

/-- A text with groups in the place of its seams, one after another. -/
def Text.fill : Text → List Text → Text
  | '(' :: ')' :: t, group :: groups => '(' :: (group ++ ')' :: fill t groups)
  | c :: t, groups => c :: fill t groups
  | [], _ => []

/-- A literal text with so many seams. -/
inductive Seamed : Text → Nat → Prop
  | nil : Seamed [] 0
  | plain {c : Char} {t : Text} {k : Nat} (hc : Call.isPlain c = true) (h : Seamed t k) :
    Seamed (c :: t) k
  | seam {t : Text} {k : Nat} (h : Seamed t k) : Seamed ('(' :: ')' :: t) (k + 1)

theorem Call.Spells.seamed {room : Nat} {t l : Text} {a : List Expression}
    (h : Call.Spells room t l a) : Seamed l a.length := by
  induction h with
  | nil => exact .nil
  | plain hc _ ih => exact .plain hc ih
  | group _ _ _ _ ih => exact .seam ih

theorem Signature.Spells.seamed {t l : Text} {ps bs : List Parameter}
    (h : Signature.Spells t l ps bs) : Seamed l ps.length := by
  induction h with
  | nil => exact .nil
  | plain hc _ ih => exact .plain hc ih
  | value _ _ _ ih => exact .seam ih
  | steps _ _ _ ih => exact ih

namespace Seamed

theorem gap {t : Text} {k : Nat} (u : Text) (h : Seamed t k) : Seamed (Text.gap u ++ t) k := by
  rcases Text.gap_eq u with hu | hu
  · rw [hu]
    exact h
  · rw [hu]
    exact .plain (by decide) h

/-- White space has no seams in it. -/
theorem collapse {t : Text} {k : Nat} (h : Seamed t k) : Seamed t.collapse k := by
  induction h with
  | nil =>
    rw [Text.collapse_nil]
    exact .nil
  | @plain c t k hc _ ih =>
    by_cases hs : Text.isSpace c = true
    · rw [Text.collapse_space_cons hs]
      exact ih
    · rw [Text.collapse_cons (by simpa using hs)]
      exact .plain hc (ih.gap t)
  | @seam t k _ ih =>
    have hgap : Text.gap (')' :: t) = [] :=
      Text.gap_of_head (fun c hc => by cases hc; decide)
    rw [Text.collapse_cons (by decide), hgap, List.nil_append, Text.collapse_cons (by decide)]
    exact .seam (ih.gap t)

theorem tabbed {t : Text} {k : Nat} (h : Seamed t k) : Seamed t.tabbed k := by
  induction h with
  | nil => exact .nil
  | plain hc _ ih =>
    rw [Text.tabbed_cons]
    refine .plain ?_ ih
    split
    · decide
    · exact hc
  | seam _ ih => exact .seam ih

end Seamed

namespace Text

theorem fill_plain {c : Char} (hc : Call.isPlain c = true) (t : Text) (groups : List Text) :
    fill (c :: t) groups = c :: fill t groups := by
  have ho : c ≠ '(' := by
    rintro rfl
    exact absurd hc (by decide)
  rw [fill]
  intro _ _ _ _ hopen
  exact absurd hopen ho

theorem fill_seam (t : Text) (group : Text) (groups : List Text) :
    fill ('(' :: ')' :: t) (group :: groups) = '(' :: (group ++ ')' :: fill t groups) := rfl

/-- The groups stand in parentheses, so the text starts and ends as it did. -/
theorem head?_fill {t : Text} {k : Nat} (h : Seamed t k) (groups : List Text) :
    (fill t groups).head? = t.head? := by
  cases h with
  | nil => rfl
  | plain hc _ => rw [fill_plain hc, List.head?_cons, List.head?_cons]
  | seam _ => cases groups <;> rfl

theorem getLast?_fill {t : Text} {k : Nat} (h : Seamed t k) {groups : List Text}
    (hlen : groups.length = k) : (fill t groups).getLast? = t.getLast? := by
  induction h generalizing groups with
  | nil => rfl
  | plain hc _ ih => rw [fill_plain hc, List.getLast?_cons, List.getLast?_cons, ih hlen]
  | seam _ ih =>
    cases groups with
    | nil => cases hlen
    | cons group groups =>
      rw [fill_seam, List.getLast?_cons, List.getLast?_cons, List.getLast?_append,
        List.getLast?_cons, List.getLast?_cons, ih (Nat.succ.inj hlen)]
      rfl

theorem trimmed_fill {t : Text} {k : Nat} (h : Seamed t k) {groups : List Text}
    (hlen : groups.length = k) (ht : Trimmed t) : Trimmed (fill t groups) := by
  refine ⟨?_, ?_⟩
  · rw [head?_fill h]
    exact ht.head
  · rw [getLast?_fill h hlen]
    exact ht.last

theorem lead_fill {t : Text} {k : Nat} (h : Seamed t k) (groups : List Text) :
    lead (fill t groups) = lead t := by
  induction h generalizing groups with
  | nil => rfl
  | plain hc _ ih => rw [fill_plain hc, lead, lead, ih]
  | seam _ => cases groups <;> rfl

theorem mem_fill {t : Text} {groups : List Text} {c : Char} (h : c ∈ fill t groups) :
    c ∈ t ∨ ∃ group ∈ groups, c ∈ group := by
  induction t, groups using fill.induct with
  | case1 t group groups ih =>
    rw [fill_seam, List.mem_cons, List.mem_append, List.mem_cons] at h
    rcases h with rfl | h | rfl | h
    · exact Or.inl List.mem_cons_self
    · exact Or.inr ⟨group, List.mem_cons_self, h⟩
    · exact Or.inl (List.mem_cons_of_mem _ List.mem_cons_self)
    · rcases ih h with h | ⟨g, hg, h⟩
      · exact Or.inl (List.mem_cons_of_mem _ (List.mem_cons_of_mem _ h))
      · exact Or.inr ⟨g, List.mem_cons_of_mem _ hg, h⟩
  | case2 d t groups hne ih =>
    rw [fill] at h
    · rcases List.mem_cons.mp h with rfl | h
      · exact Or.inl List.mem_cons_self
      · rcases ih h with h | h
        · exact Or.inl (List.mem_cons_of_mem _ h)
        · exact Or.inr h
    · exact hne
  | case3 groups => exact absurd h List.not_mem_nil

end Text

/-! ## Printed calls -/

mutual

/-- An expression as it stands between its parentheses. -/
def Expression.print (f : NumberNotation) : Expression → Text
  | .number value => f.write value
  | .call name args => Text.fill name.tabbed (printAll f args)

def Expression.printAll (f : NumberNotation) : List Expression → List Text
  | [] => []
  | e :: es => e.print f :: printAll f es

end

/-- A call site: the name with spaces written as tabs, and the arguments in parentheses. -/
def Call.print (f : NumberNotation) (call : Call) : Text :=
  Text.fill call.name.tabbed (Expression.printAll f call.args)

theorem Expression.printAll_eq (f : NumberNotation) (es : List Expression) :
    printAll f es = es.map (print f) := by
  induction es with
  | nil => rfl
  | cons e es ih => rw [printAll, ih, List.map_cons]

theorem Expression.print_call (f : NumberNotation) (name : Text) (args : List Expression) :
    (Expression.call name args).print f = Call.print f ⟨name, args⟩ := by
  rw [Expression.print, Call.print]

namespace Call

/-- The text between two parentheses denotes the expression, where it may open groups to this
depth. -/
def Groups (room : Nat) (group : Text) (e : Expression) : Prop :=
  ∃ inner innerArgs, Spells room group inner innerArgs ∧ Denotes inner innerArgs e

/-- A name with a group for each of its seams is spelled. -/
theorem spells_fill {room : Nat} {t : Text} {k : Nat} (h : Seamed t k) {es : List Expression}
    {groups : List Text} (hlen : es.length = k)
    (hg : List.Forall₂ (fun e group => ∃ r, room = r + 1 ∧ Groups r group e) es groups) :
    Spells room (Text.fill t groups) t es := by
  induction h generalizing es groups with
  | nil =>
    rw [List.length_eq_zero_iff.mp hlen]
    exact .nil
  | plain hc _ ih =>
    rw [Text.fill_plain hc]
    exact .plain hc (ih hlen hg)
  | seam _ ih =>
    cases hg with
    | nil => cases hlen
    | cons he hg =>
      obtain ⟨r, rfl, inner, innerArgs, hs, hd⟩ := he
      rw [Text.fill_seam]
      exact .group hs hd (ih (Nat.succ.inj hlen) hg)

/-- The white space of a name is no matter for what it denotes. -/
theorem denotes_tabbed {l : Text} {a : List Expression}
    (h : Denotes l a (.call l.collapse a)) :
    Denotes l.collapse.tabbed a (.call l.collapse a) := by
  have hc : l.collapse.tabbed.collapse = l.collapse := by
    rw [Text.collapse_tabbed, Text.collapse_collapse]
  have hd : ∀ e, Denotes l.collapse.tabbed a e → e = .call l.collapse.tabbed.collapse a →
      Denotes l.collapse.tabbed a (.call l.collapse a) := by
    intro e he heq
    rw [heq, hc] at he
    exact he
  cases h with
  | name hn hb =>
    have hnum : Number.isNumeral l = false := by
      rw [Number.isNumeral, hn]
      rfl
    refine hd _ (.name ?_ ?_) rfl
    · rw [← Number.isNumeral_of_collapse_eq hc, Number.isNumeral] at hnum
      simpa using hnum
    · rw [Text.isBlank_tabbed]
      rw [Bool.eq_false_iff] at hb ⊢
      exact fun h => hb (Text.collapse_eq_nil_iff.mp ((Text.collapse_collapse l).symm.trans
        (Text.collapse_eq_nil_of_blank h)))
  | call hne => exact hd _ (.call hne) rfl

theorem isPlain_of_isMark {c : Char} (h : Numeral.isMark c = true) : isPlain c = true := by
  rw [isPlain_iff]
  refine ⟨⟨?_, ?_⟩, ?_⟩ <;> rintro rfl <;> revert h <;> decide

/-- The text has tabs for its white space. -/
def Tabbed (t : Text) : Prop := ∀ c ∈ t, Text.isSpace c = true → c = '\t'

theorem tabbed_collapse (t : Text) : Tabbed t.collapse.tabbed := by
  intro c hc hs
  rw [Text.tabbed, List.mem_map] at hc
  obtain ⟨d, hd, rfl⟩ := hc
  rcases Text.mem_collapse hd with rfl | ⟨-, hns⟩
  · rfl
  · rw [Text.isSpace_tab, hns] at hs
    cases hs

/-- What the printed groups of a call are to be, where a group may open groups to this depth. -/
def Prints (f : NumberNotation) (room : Nat) (e : Expression) : Prop :=
  Groups room (e.print f) e ∧ Tabbed (e.print f)

section print

variable {f : NumberNotation} {room : Nat} {t l : Text} {a : List Expression}

/-- If the arguments of a call are printed well then so is the call. -/
theorem Spells.print_of_args (h : Spells room t l a)
    (ha : ∀ e ∈ a, ∃ r, room = r + 1 ∧ Prints f r e) :
    Spells room (Call.print f ⟨l.collapse, a⟩) l.collapse.tabbed a ∧
      Tabbed (Call.print f ⟨l.collapse, a⟩) := by
  have hseam : Seamed l.collapse.tabbed a.length := h.seamed.collapse.tabbed
  rw [Call.print, Expression.printAll_eq]
  refine ⟨spells_fill hseam rfl ?_, fun c hc hs => ?_⟩
  · rw [List.forall₂_map_right_iff, List.forall₂_same]
    intro e he
    obtain ⟨r, hr, hp⟩ := ha e he
    exact ⟨r, hr, hp.1⟩
  · rcases Text.mem_fill hc with hc | ⟨group, hg, hc⟩
    · exact tabbed_collapse l c hc hs
    · obtain ⟨e, he, rfl⟩ := List.mem_map.mp hg
      obtain ⟨r, -, hp⟩ := ha e he
      exact hp.2 c hc hs

/-- The arguments of a call are printed well, by induction on the grammar. -/
theorem Spells.print_args (f : NumberNotation) (h : Spells room t l a) :
    ∀ e ∈ a, ∃ r, room = r + 1 ∧ Prints f r e := by
  induction h with
  | nil => exact fun e he => absurd he List.not_mem_nil
  | plain _ _ ih => exact ih
  | @group room group inner text literal innerArgs args e hg he _ ihg ih =>
    intro e' he'
    rcases List.mem_cons.mp he' with rfl | he'
    · refine ⟨room, rfl, ?_⟩
      cases he with
      | @number value _ =>
        have hmark := Number.isMark_write f value
        refine ⟨⟨_, _, spells_of_plain room fun c hc => isPlain_of_isMark (hmark c hc),
          .number (Number.ofText?_write f value)⟩, fun c hc hs => ?_⟩
        rw [Numeral.isSpace_eq_false_of_isMark (hmark c hc)] at hs
        cases hs
      | name hn hb =>
        obtain ⟨hs, ht⟩ := hg.print_of_args ihg
        rw [Prints, Expression.print_call]
        exact ⟨⟨_, _, hs, denotes_tabbed (.name hn hb)⟩, ht⟩
      | call hne =>
        obtain ⟨hs, ht⟩ := hg.print_of_args ihg
        rw [Prints, Expression.print_call]
        exact ⟨⟨_, _, hs, denotes_tabbed (.call hne)⟩, ht⟩
    · exact ih e' he'

end print

section read

variable {text : Text} {call : Call}

/-- A printed call is read as the call. -/
theorem read_print (f : NumberNotation) (h : read text = .ok call) :
    read (call.print f) = .ok call := by
  obtain ⟨-, -, literal, hs, hname⟩ := read_eq_ok_iff.mp h
  obtain ⟨name, args⟩ := call
  obtain rfl : name = literal.collapse := hname
  obtain ⟨hprint, -⟩ := hs.print_of_args (hs.print_args f)
  have hc : literal.collapse.tabbed.collapse = literal.collapse := by
    rw [Text.collapse_tabbed, Text.collapse_collapse]
  have hread := read_iff_of_spells hprint
  rw [hc] at hread
  exact hread.mpr ((read_iff_of_spells hs).mp h)

theorem tabbed_print (f : NumberNotation) (h : read text = .ok call) : Tabbed (call.print f) := by
  obtain ⟨-, -, literal, hs, hname⟩ := read_eq_ok_iff.mp h
  obtain ⟨name, args⟩ := call
  obtain rfl : name = literal.collapse := hname
  exact (hs.print_of_args (hs.print_args f)).2

/-- The name of a call that is read has a seam for each argument. -/
theorem seamed_name (h : read text = .ok call) : Seamed call.name.tabbed call.args.length := by
  obtain ⟨-, -, literal, hs, hname⟩ := read_eq_ok_iff.mp h
  rw [hname]
  exact hs.seamed.collapse.tabbed

theorem trimmed_print (f : NumberNotation) (h : read text = .ok call) :
    Text.Trimmed (call.print f) := by
  obtain ⟨-, -, literal, -, hname⟩ := read_eq_ok_iff.mp h
  refine Text.trimmed_fill (seamed_name h) ?_ ?_
  · rw [Expression.printAll_eq, List.length_map]
  · rw [hname]
    exact Text.trimmed_tabbed (Text.trimmed_collapse literal)

/-- A printed call starts like what was read. -/
theorem lead_print (f : NumberNotation) (h : read text = .ok call)
    (ht : ∀ c ∈ text.head?, Text.isSpace c = false) :
    Text.lead (call.print f) = Text.lead text := by
  rw [print, Text.lead_fill (seamed_name h), Text.lead_tabbed, lead_name h ht]

end read

end Call
end BlockText
