/-
What a construct keeps of its contents.

A construct is finished with the kinds of contents that its category may hold, and takes no notice of
the others.  What a state holds fits the places that it stands in (`State.Derived.fits`), so there are
no others: a construct that is finished holds all that was read inside it (`Finishes.contents_eq`), and
only the constructs that are dropped finish to nothing (`Opening.Kept.close_ne_none`).
-/
import BlockText.Proofs.Reading.Derivation

namespace BlockText

/-! ## What may stand in a construct -/

/-- All that the contents hold may stand in a construct of this category; none is the file. -/
def Contents.Fits (b : Contents) (parent : Option Category) : Prop :=
  ∀ n, b.Holds n → Category.permits parent n.category = true

/-- Constructs of a kind that may not stand there are not there. -/
theorem Contents.Fits.eq_nil {b : Contents} {parent : Option Category} (hb : b.Fits parent)
    {α : Type} {xs : List α} {f : α → Node} (hx : ∀ x ∈ xs, b.Holds (f x))
    (hf : ∀ x, Category.permits parent (f x).category = false) : xs = [] := by
  refine List.eq_nil_iff_forall_not_mem.mpr fun x hm => ?_
  have hp := hb (f x) (hx x hm)
  rw [hf x] at hp
  cases hp

/-- Definitions of blocks are kept as such. -/
theorem map_filterMap_block {definitions : List Definition}
    (h : ∀ d ∈ definitions, ∃ e, d = .block e) :
    (definitions.filterMap Definition.block?).map .block = definitions := by
  induction definitions with
  | nil => rfl
  | cons d ds ih =>
    obtain ⟨e, rfl⟩ := h d List.mem_cons_self
    have htail := ih fun d hd => h d (List.mem_cons_of_mem _ hd)
    rw [List.filterMap_cons]
    exact congrArg (Definition.block e :: ·) htail

namespace Contents.Fits

variable {b : Contents} {parent : Option Category}

theorem units (hb : b.Fits parent) (h : Category.permits parent .unit = false) : b.units = [] :=
  hb.eq_nil (f := .unit) (fun _ hx => hx) fun _ => h

theorem libraries (hb : b.Fits parent) (h : Category.permits parent .library = false) :
    b.libraries = [] :=
  hb.eq_nil (f := .library) (fun _ hx => hx) fun _ => h

theorem sprites (hb : b.Fits parent) (h : Category.permits parent .sprite = false) :
    b.sprites = [] :=
  hb.eq_nil (f := .sprite) (fun _ hx => hx) fun _ => h

theorem stages (hb : b.Fits parent) (h : Category.permits parent .stage = false) : b.stages = [] :=
  hb.eq_nil (f := .stage) (fun _ hx => hx) fun _ => h

theorem definitions (hb : b.Fits parent) (h : Category.permits parent .blockDefinition = false)
    (h' : Category.permits parent .contextDefinition = false)
    (h'' : Category.permits parent .triggerDefinition = false) : b.definitions = [] :=
  hb.eq_nil (f := .definition) (fun _ hx => hx) fun d => by
    cases d with
    | block => exact h
    | context => exact h'
    | trigger => exact h''

theorem triggers (hb : b.Fits parent) (h : Category.permits parent .trigger = false) :
    b.triggers = [] :=
  hb.eq_nil (f := .trigger) (fun _ hx => hx) fun _ => h

theorem steps (hb : b.Fits parent) (h : Category.permits parent .stepCall = false)
    (h' : Category.permits parent .contextCall = false)
    (h'' : Category.permits parent .hosted = false) : b.steps = [] :=
  hb.eq_nil (f := .step) (fun _ hx => hx) fun s => by
    cases s with
    | call => exact h
    | context => exact h'
    | hosted => exact h''

/-- Where no definitions but those of blocks may stand, an actor keeps all definitions. -/
theorem blocks (hb : b.Fits parent) (h : Category.permits parent .contextDefinition = false)
    (h' : Category.permits parent .triggerDefinition = false) :
    (b.definitions.filterMap Definition.block?).map .block = b.definitions := by
  refine map_filterMap_block fun d hd => ?_
  have hp := hb (.definition d) hd
  cases d with
  | block e => exact ⟨e, rfl⟩
  | context e =>
    rw [Node.category, h] at hp
    cases hp
  | trigger e =>
    rw [Node.category, h'] at hp
    cases hp

end Contents.Fits

/-! ## Nothing is lost -/

/-- Outside all constructs stand comments and units. -/
theorem Contents.Fits.document_contents {b : Contents} (hb : b.Fits none) :
    (Document.mk b.comments b.units).contents = b :=
  Contents.ext rfl rfl (hb.libraries rfl).symm (hb.sprites rfl).symm (hb.stages rfl).symm
    (hb.definitions rfl rfl rfl).symm (hb.triggers rfl).symm (hb.steps rfl rfl rfl).symm

/-- A construct keeps its contents, if all of them may stand in it. -/
theorem Opening.Finishes.contents_eq {b : Contents} {line : Line} {o : Opening} {node : Node}
    (h : Finishes b line o node) (hb : b.Fits (some o.category)) : node.contents = b := by
  cases h with
  | unit =>
    exact Contents.ext rfl (hb.units rfl).symm rfl rfl rfl (hb.definitions rfl rfl rfl).symm
      (hb.triggers rfl).symm (hb.steps rfl rfl rfl).symm
  | library =>
    exact Contents.ext rfl (hb.units rfl).symm (hb.libraries rfl).symm (hb.sprites rfl).symm
      (hb.stages rfl).symm rfl (hb.triggers rfl).symm (hb.steps rfl rfl rfl).symm
  | sprite | stage =>
    exact Contents.ext rfl (hb.units rfl).symm (hb.libraries rfl).symm (hb.sprites rfl).symm
      (hb.stages rfl).symm (hb.blocks rfl rfl) rfl (hb.steps rfl rfl rfl).symm
  | blockDefinition | contextDefinition | triggerDefinition | trigger | contextCall =>
    exact Contents.ext rfl (hb.units rfl).symm (hb.libraries rfl).symm (hb.sprites rfl).symm
      (hb.stages rfl).symm (hb.definitions rfl rfl rfl).symm (hb.triggers rfl).symm rfl

/-! ## What is dropped -/

/-- The content of this construct is not dropped. -/
def Opening.Kept (o : Opening) : Prop := o.category ≠ .sounds ∧ o.category ≠ .costumes

theorem Opening.Kept.close_ne_none {o : Opening} (h : o.Kept) (b : Contents) (line : Line) :
    o.close b line ≠ .ok none := by
  intro hn
  cases o with
  | sounds => exact h.1 rfl
  | costumes => exact h.2 rfl
  | blockDefinition s | contextDefinition s =>
    obtain ⟨returns, -, hr⟩ := Outcome.bind_eq_ok_iff.mp hn
    cases hr
  | triggerDefinition s =>
    rw [close] at hn
    split at hn <;> cases hn
  | _ => cases hn

/-! ## States -/

/-- What the innermost open construct holds may stand in it. -/
theorem State.Derived.fits {strict : Bool} {s : State} {f : Frame} {rest : List Frame}
    (hs : s.Derived strict) (hf : s.frames = f :: rest) :
    f.contents.Fits (some f.opening.category) := by
  have hn := hs.frames
  rw [hf] at hn
  cases hn with
  | cons hl ho hb hr => exact fun n hh => (hb n hh).permitted

/-- So may what stands outside all constructs. -/
theorem State.Derived.fits_top {strict : Bool} {s : State} (hs : s.Derived strict) :
    s.top.Fits none :=
  fun n hn => (hs.top n hn).permitted

end BlockText
