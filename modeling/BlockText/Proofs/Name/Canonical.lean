/-
Names in canonical form.

Definitions are found by the names of their calls, so the two readers of names have to agree on what a
name may be.  `Name.IsCanonical` says it: one space between words, a seam for each argument or slot and
no other parenthesis, and no number.  Whatever `Call.read` and `Signature.read` give is canonical, and
so is every name in the arguments of a call, by induction on the grammar.
-/
import BlockText.Proofs.Print.Signature

namespace BlockText

/-! ## Canonical names -/

/-- The name of something that takes so many arguments. -/
structure Name.IsCanonical (name : Text) (arity : Nat) : Prop where
  ne_nil : name ≠ []
  normal : name.collapse = name
  numeral : Number.isNumeral name = false
  openBracket : '[' ∉ name
  /-- Parentheses stand in pairs with nothing between them, one pair for each argument. -/
  seamed : Seamed name arity

theorem Seamed.openBracket_not_mem {t : Text} {k : Nat} (h : Seamed t k) : '[' ∉ t := by
  induction h with
  | nil => exact List.not_mem_nil
  | plain hc _ ih =>
    rw [List.mem_cons, not_or]
    refine ⟨?_, ih⟩
    rintro rfl
    exact absurd hc (by decide)
  | seam _ ih =>
    rw [List.mem_cons, List.mem_cons, not_or, not_or]
    exact ⟨by decide, by decide, ih⟩

theorem Seamed.openParenthesis_mem {t : Text} {k : Nat} (h : Seamed t k) (hk : k ≠ 0) : '(' ∈ t := by
  induction h with
  | nil => exact absurd rfl hk
  | plain _ _ ih => exact List.mem_cons_of_mem _ (ih hk)
  | seam => exact List.mem_cons_self

namespace Name

/-- A name with a seam is no number, so this is asked of names without arguments only. -/
theorem isCanonical_iff {name : Text} {arity : Nat} :
    IsCanonical name arity ↔
      name ≠ [] ∧ name.collapse = name ∧ '[' ∉ name ∧ Seamed name arity ∧
        (arity = 0 → Number.isNumeral name = false) := by
  constructor
  · intro h
    exact ⟨h.ne_nil, h.normal, h.openBracket, h.seamed, fun _ => h.numeral⟩
  · rintro ⟨hne, hnormal, hbracket, hseamed, hnum⟩
    refine ⟨hne, hnormal, ?_, hbracket, hseamed⟩
    by_cases ha : arity = 0
    · exact hnum ha
    · exact Number.isNumeral_of_openParenthesis (hseamed.openParenthesis_mem ha)

theorem isCanonical_collapse {literal : Text} {arity : Nat} (hs : Seamed literal arity)
    (hne : literal.collapse ≠ []) (hnum : Number.isNumeral literal.collapse = false) :
    IsCanonical literal.collapse arity :=
  ⟨hne, Text.collapse_collapse literal, hnum, hs.collapse.openBracket_not_mem, hs.collapse⟩

/-- With an argument in it a name is neither blank nor a number. -/
theorem isCanonical_of_seam {literal : Text} {arity : Nat} (hs : Seamed literal arity)
    (ha : arity ≠ 0) : IsCanonical literal.collapse arity := by
  have hmem := hs.collapse.openParenthesis_mem ha
  exact isCanonical_collapse hs (List.ne_nil_of_mem hmem) (Number.isNumeral_of_openParenthesis hmem)

theorem isCanonical_of_plain {literal : Text} {arity : Nat} (hs : Seamed literal arity)
    (hb : literal.isBlank = false) (hn : Number.isNumeral literal = false) :
    IsCanonical literal.collapse arity := by
  refine isCanonical_collapse hs (fun h => ?_) (by rwa [Number.isNumeral_collapse])
  rw [Text.collapse_eq_nil_iff.mp h] at hb
  cases hb

end Name

/-! ## Calls -/

/-- All names in the expression are canonical and all numbers finite. -/
inductive Expression.WellNamed : Expression → Prop
  | number {value : Number} (h : value.rank < 2047 * Number.binade) : WellNamed (.number value)
  | call {name : Text} {args : List Expression} (h : Name.IsCanonical name args.length)
    (ha : ∀ e ∈ args, WellNamed e) : WellNamed (.call name args)

namespace Call

theorem Denotes.wellNamed {literal : Text} {args : List Expression} {e : Expression}
    (h : Denotes literal args e) (hs : Seamed literal args.length) (ha : ∀ e ∈ args, e.WellNamed) :
    e.WellNamed := by
  cases h with
  | @number value _ => exact .number value.finite
  | name hn hb =>
    refine .call (Name.isCanonical_of_plain hs hb ?_) ha
    rw [Number.isNumeral, hn]
    rfl
  | call hne => exact .call (Name.isCanonical_of_seam hs (mt List.length_eq_zero_iff.mp hne)) ha

theorem Spells.wellNamed {room : Nat} {text literal : Text} {args : List Expression}
    (h : Spells room text literal args) : ∀ e ∈ args, e.WellNamed := by
  induction h with
  | nil => exact fun e he => absurd he List.not_mem_nil
  | plain _ _ ih => exact ih
  | group hg hd _ ihg ih =>
    intro e he
    rcases List.mem_cons.mp he with rfl | he
    · exact hd.wellNamed hg.seamed ihg
    · exact ih e he

/-- A call that is read has canonical names only. -/
theorem wellNamed_of_read {text : Text} {call : Call} (h : read text = .ok call) :
    (Expression.call call.name call.args).WellNamed := by
  obtain ⟨-, -, literal, hs, hname⟩ := read_eq_ok_iff.mp h
  obtain ⟨name, args⟩ := call
  obtain rfl : name = literal.collapse := hname
  obtain ⟨hne, hnum⟩ := (read_iff_of_spells hs).mp h
  have hseamed := hs.seamed.collapse
  exact .call (Name.isCanonical_iff.mpr ⟨hne, Text.collapse_collapse literal,
    hseamed.openBracket_not_mem, hseamed, fun ha => hnum (List.length_eq_zero_iff.mp ha)⟩)
    hs.wellNamed

end Call

/-! ## Signatures -/

/-- What stands in a slot. -/
structure SlotText (t : Text) : Prop where
  ne_nil : t ≠ []
  trimmed : Text.Trimmed t
  /-- Neither parentheses nor an opening bracket nor a colon. -/
  inner : ∀ c ∈ t, c ≠ '(' ∧ c ≠ ')' ∧ c ≠ '[' ∧ c ≠ ':'

structure Parameter.WellNamed (p : Parameter) : Prop where
  name : SlotText p.name
  type : SlotText p.type

namespace Signature

theorem slotText_trim {t : Text} (h : ∀ c ∈ t, isInner c = true) (hne : t.trim ≠ []) :
    SlotText t.trim := by
  refine ⟨hne, Text.trimmed_trim t, fun c hc => ?_⟩
  obtain ⟨hp, hcolon⟩ := State.isInner_iff.mp (h c (Text.mem_of_mem_trim hc))
  obtain ⟨⟨ho, hclose⟩, hb⟩ := Call.isPlain_iff.mp hp
  exact ⟨ho, hclose, hb, hcolon⟩

theorem SpellsSlot.wellNamed {slot : Text} {p : Parameter} (h : SpellsSlot slot p) : p.WellNamed := by
  cases h with
  | mk hn ht hname htype => exact ⟨slotText_trim hn hname, slotText_trim ht htype⟩

/-- The name is canonical, with a seam for each slot for a value, and so is what stands in the slots. -/
structure WellNamed (s : Signature) : Prop where
  name : Name.IsCanonical s.name s.params.length
  params : ∀ p ∈ s.params, p.WellNamed
  blockLists : ∀ p ∈ s.blockLists, p.WellNamed

theorem wellNamed_of_read {text : Text} {s : Signature} (h : read text = .ok s) : s.WellNamed := by
  obtain ⟨literal, hs, hname, hne, hnum⟩ := read_eq_ok_iff.mp h
  refine ⟨?_, fun p hp => (hs.params p hp).1.wellNamed, fun p hp => (hs.blockLists p hp).1.wellNamed⟩
  rw [hname] at hne hnum ⊢
  exact Name.isCanonical_collapse hs.seamed hne hnum

end Signature
end BlockText
