/-
Signatures as literal texts with slots between them.

The grammar of `Proofs/Name/Signature` reads a signature one character or one slot at a time.  Here a
signature is cut as its author sees it: literal texts with written slots between them.  A text can be
cut in one way at most (`Factors.text_injective`).  A slot for a value leaves a seam in the name and a
slot for steps joins the literal texts on its two sides, and `read_eq_ok_iff_factors` says that the
reader accepts exactly the texts that can be cut with a name that is neither empty nor a number, and
that there is only one such cut.
-/
import Mathlib.Data.Set.Subsingleton
import BlockText.Proofs.Name.Signature

namespace BlockText
namespace Signature

/-! ## The parts of a signature -/

/-- A text between two slots. -/
structure Literal where
  text : Text
  plain : ∀ c ∈ text, c ≠ '(' ∧ c ≠ ')' ∧ c ≠ '['

/-- What is written on the two sides of the colon in a slot. -/
structure Group where
  name : Text
  type : Text
  name_inner : ∀ c ∈ name, c ≠ '(' ∧ c ≠ ')' ∧ c ≠ '[' ∧ c ≠ ':'
  type_inner : ∀ c ∈ type, c ≠ '(' ∧ c ≠ ')' ∧ c ≠ '[' ∧ c ≠ ':'
  name_not_blank : name.isBlank = false
  type_not_blank : type.isBlank = false

namespace Group

def text (g : Group) : Text := '(' :: (g.name ++ ':' :: g.type ++ [')'])

def parameter (g : Group) : Parameter := ⟨g.name.trim, g.type.trim⟩

/-- What stands for the slot in the name: steps are written behind a call and not in it. -/
def mark (g : Group) : Text := if g.parameter.isBlockList then [] else seam

end Group

/-- A cut of a text: a literal text, and slots with a literal text behind each. -/
structure Factors where
  first : Literal
  rest : List (Group × Literal)

namespace Factors

/-- The text that was cut. -/
def text (f : Factors) : Text := f.first.text ++ f.rest.flatMap fun (g, l) => g.text ++ l.text

/-- The literal texts with the marks of the slots between them. -/
def joined (f : Factors) : Text := f.first.text ++ f.rest.flatMap fun (g, l) => g.mark ++ l.text

def slots (f : Factors) : List Parameter := f.rest.map fun (g, _) => g.parameter

/-- What the text is a signature of. -/
def signature (f : Factors) : Signature :=
  ⟨f.joined.collapse, f.slots.filter (!·.isBlockList), f.slots.filter (·.isBlockList)⟩

/-- The cut with another slot and literal text in front of it. -/
def cons (l : Literal) (g : Group) (f : Factors) : Factors := ⟨l, (g, f.first) :: f.rest⟩

theorem text_cons (l : Literal) (g : Group) (f : Factors) :
    (cons l g f).text = l.text ++ (g.text ++ f.text) := by
  rw [text, cons, List.flatMap_cons, text, List.append_assoc g.text]

theorem joined_cons (l : Literal) (g : Group) (f : Factors) :
    (cons l g f).joined = l.text ++ (g.mark ++ f.joined) := by
  rw [joined, cons, List.flatMap_cons, joined, List.append_assoc g.mark]

theorem params_cons (l : Literal) (g : Group) (f : Factors) :
    (cons l g f).signature.params = [g.parameter].filter (!·.isBlockList) ++ f.signature.params := by
  rw [signature, signature, ← List.filter_append]
  rfl

theorem blockLists_cons (l : Literal) (g : Group) (f : Factors) :
    (cons l g f).signature.blockLists =
      [g.parameter].filter (·.isBlockList) ++ f.signature.blockLists := by
  rw [signature, signature, ← List.filter_append]
  rfl

end Factors

theorem isPlain_iff_ne {c : Char} : Call.isPlain c = true ↔ c ≠ '(' ∧ c ≠ ')' ∧ c ≠ '[' := by
  rw [Call.isPlain_iff, and_assoc]

theorem isInner_iff_ne {c : Char} :
    isInner c = true ↔ c ≠ '(' ∧ c ≠ ')' ∧ c ≠ '[' ∧ c ≠ ':' := by
  rw [State.isInner_iff, isPlain_iff_ne, and_assoc, and_assoc]

/-! ## A text is cut in one way

A literal text ends at the first parenthesis, and a slot at its first colon and the first closing
parenthesis behind this. -/

theorem Literal.append_inj {l l' : Literal} {x y : Text}
    (hx : ∀ c ∈ x.head?, Call.isPlain c = false) (hy : ∀ c ∈ y.head?, Call.isPlain c = false)
    (h : l.text ++ x = l'.text ++ y) : l = l' ∧ x = y := by
  have hspan := congrArg (List.span Call.isPlain) h
  rw [Text.span_append (fun c hc => isPlain_iff_ne.mpr (l.plain c hc)) hx,
    Text.span_append (fun c hc => isPlain_iff_ne.mpr (l'.plain c hc)) hy] at hspan
  obtain ⟨text, plain⟩ := l
  obtain ⟨text', plain'⟩ := l'
  obtain ⟨rfl, rfl⟩ := Prod.mk.inj hspan
  exact ⟨rfl, rfl⟩

theorem Group.append_inj {g g₁ : Group} {x y : Text} (h : g.text ++ x = g₁.text ++ y) :
    g = g₁ ∧ x = y := by
  obtain ⟨name, type, hn, ht, _, _⟩ := g
  obtain ⟨name₁, type₁, hn₁, ht₁, _, _⟩ := g₁
  have hcolon : name ++ ':' :: (type ++ ')' :: x) = name₁ ++ ':' :: (type₁ ++ ')' :: y) := by
    simpa [text] using h
  obtain ⟨rfl, hclose⟩ :=
    Text.append_cons_inj (fun hc => (hn ':' hc).2.2.2 rfl) (fun hc => (hn₁ ':' hc).2.2.2 rfl) hcolon
  obtain ⟨rfl, hrest⟩ :=
    Text.append_cons_inj (fun hc => (ht ')' hc).2.1 rfl) (fun hc => (ht₁ ')' hc).2.1 rfl) hclose
  exact ⟨rfl, hrest⟩

theorem Factors.head?_rest (rest : List (Group × Literal)) :
    ∀ c ∈ (rest.flatMap fun (g, l) => g.text ++ l.text).head?, Call.isPlain c = false := by
  cases rest with
  | nil => exact fun c hc => nomatch hc
  | cons part rest => exact Text.forall_mem_some (by decide)

theorem Factors.text_injective : Function.Injective text := by
  rintro ⟨first, rest⟩ ⟨first', rest'⟩ h
  obtain ⟨rfl, hrest⟩ := Literal.append_inj (head?_rest rest) (head?_rest rest') h
  congr 1
  clear h
  induction rest generalizing rest' with
  | nil =>
    cases rest' with
    | nil => rfl
    | cons => cases hrest
  | cons part rest ih =>
    cases rest' with
    | nil => cases hrest
    | cons part' rest' =>
      rw [List.flatMap_cons, List.flatMap_cons, List.append_assoc, List.append_assoc] at hrest
      obtain ⟨hg, hrest⟩ := Group.append_inj hrest
      obtain ⟨hl, hrest⟩ := Literal.append_inj (head?_rest rest) (head?_rest rest') hrest
      rw [Prod.ext hg hl, ih rest' hrest]

/-! ## Cuts spell signatures -/

theorem Literal.spells (l : Literal) : Spells l.text l.text [] [] :=
  spells_of_plain fun c hc => isPlain_iff_ne.mpr (l.plain c hc)

theorem Group.spellsSlot (g : Group) : SpellsSlot (g.name ++ ':' :: g.type) g.parameter :=
  .mk (fun c hc => isInner_iff_ne.mpr (g.name_inner c hc))
    (fun c hc => isInner_iff_ne.mpr (g.type_inner c hc))
    (by rw [ne_eq, Text.trim_eq_nil_iff, g.name_not_blank]; exact Bool.false_ne_true)
    (by rw [ne_eq, Text.trim_eq_nil_iff, g.type_not_blank]; exact Bool.false_ne_true)

theorem Group.spells (g : Group) :
    Spells g.text g.mark ([g.parameter].filter (!·.isBlockList))
      ([g.parameter].filter (·.isBlockList)) := by
  rw [mark, List.filter_singleton, List.filter_singleton]
  cases hp : g.parameter.isBlockList with
  | true => exact .steps g.spellsSlot hp .nil
  | false => exact .value g.spellsSlot hp .nil

/-- The text of a cut is read as the parts of it are. -/
theorem Factors.spells (f : Factors) :
    Spells f.text f.joined f.signature.params f.signature.blockLists := by
  obtain ⟨first, rest⟩ := f
  induction rest generalizing first with
  | nil =>
    have hs := first.spells
    rw [← List.append_nil first.text] at hs
    exact hs
  | cons part rest ih =>
    obtain ⟨g, l⟩ := part
    show Spells (cons first g ⟨l, rest⟩).text (cons first g ⟨l, rest⟩).joined
      (cons first g ⟨l, rest⟩).signature.params (cons first g ⟨l, rest⟩).signature.blockLists
    rw [text_cons, joined_cons, params_cons, blockLists_cons]
    exact first.spells.append (g.spells.append (ih l))

/-! ## Spelled texts can be cut -/

/-- A slot that is read was written as a group. -/
theorem SpellsSlot.exists_group {slot : Text} {p : Parameter} (h : SpellsSlot slot p) :
    ∃ g : Group, g.text = '(' :: (slot ++ [')']) ∧ g.parameter = p := by
  cases h with
  | @mk name type hn ht hname htype =>
    have not_blank {t : Text} (h : t.trim ≠ []) : t.isBlank = false := by
      rwa [ne_eq, Text.trim_eq_nil_iff, Bool.not_eq_true] at h
    exact ⟨⟨name, type, fun c hc => isInner_iff_ne.mp (hn c hc),
      fun c hc => isInner_iff_ne.mp (ht c hc), not_blank hname, not_blank htype⟩, rfl, rfl⟩

def Literal.empty : Literal := ⟨[], fun _ hc => absurd hc List.not_mem_nil⟩

def Literal.cons (c : Char) (hc : Call.isPlain c = true) (l : Literal) : Literal :=
  ⟨c :: l.text, List.forall_mem_cons.mpr ⟨isPlain_iff_ne.mp hc, l.plain⟩⟩

/-- What is spelled can be cut.  A character goes into the first literal text, and a slot gets an
empty one in front of it. -/
theorem Spells.exists_factors {text literal : Text} {params blockLists : List Parameter}
    (h : Spells text literal params blockLists) :
    ∃ f : Factors, f.text = text ∧ f.joined = literal ∧ f.signature.params = params ∧
      f.signature.blockLists = blockLists := by
  induction h with
  | nil => exact ⟨⟨.empty, []⟩, rfl, rfl, rfl, rfl⟩
  | plain hc _ ih =>
    obtain ⟨⟨first, rest⟩, rfl, rfl, rfl, rfl⟩ := ih
    exact ⟨⟨.cons _ hc first, rest⟩, rfl, rfl, rfl, rfl⟩
  | value hs hp _ ih | steps hs hp _ ih =>
    obtain ⟨f, rfl, rfl, rfl, rfl⟩ := ih
    obtain ⟨g, hg, rfl⟩ := hs.exists_group
    refine ⟨.cons .empty g f, ?_, ?_, ?_, ?_⟩
    · rw [Factors.text_cons, hg, List.cons_append, List.append_assoc]
      rfl
    · rw [Factors.joined_cons, Group.mark, hp]
      rfl
    · rw [Factors.params_cons, List.filter_singleton, hp]
      rfl
    · rw [Factors.blockLists_cons, List.filter_singleton, hp]
      rfl

/-! ## What the reader accepts -/

/-- A text is a signature where it can be cut with a name that is neither empty nor a number, and
what is read is what the cut says.  There is no second cut that could say something else. -/
theorem read_eq_ok_iff_factors {text : Text} {s : Signature} :
    (read text = .ok s ↔
      ∃ f : Factors, f.text = text ∧ f.signature.name ≠ [] ∧
        Number.isNumeral f.signature.name = false ∧ f.signature = s) ∧
      {f : Factors | f.text = text}.Subsingleton := by
  refine ⟨?_, fun f hf f' hf' => Factors.text_injective (hf.trans hf'.symm)⟩
  rw [read_eq_ok_iff]
  constructor
  · rintro ⟨literal, hs, hname, hne, hnum⟩
    obtain ⟨f, rfl, rfl, hparams, hblockLists⟩ := hs.exists_factors
    obtain ⟨name, params, blockLists⟩ := s
    obtain rfl : name = f.joined.collapse := hname
    obtain rfl : f.signature.params = params := hparams
    obtain rfl : f.signature.blockLists = blockLists := hblockLists
    exact ⟨f, rfl, hne, hnum, rfl⟩
  · rintro ⟨f, rfl, hne, hnum, rfl⟩
    exact ⟨f.joined, f.spells, rfl, hne, hnum⟩

end Signature
end BlockText
