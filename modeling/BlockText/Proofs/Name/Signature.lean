/-
The grammar of signatures.

`Signature.Spells` is the grammar that `Signature.read` reads: plain characters, and slots in
parentheses, of which those for values leave a seam in the name and those for steps leave nothing.
`read_eq_ok_iff` says that the reader accepts the texts of this grammar whose name is neither empty
nor a number.

The two directions are those of the grammar of call sites, with the open slot in place of the stack
of groups.
-/
import BlockText.Name.Signature
import BlockText.Proofs.Name.Call

namespace BlockText
namespace Signature

/-! ## The grammar -/

/-- The characters of the name or the type in a slot. -/
def isInner (c : Char) : Bool := Call.isPlain c && c != ':'

/-- The text between two parentheses is this slot. -/
inductive SpellsSlot : Text → Parameter → Prop
  | mk {name type : Text} (hn : ∀ c ∈ name, isInner c = true) (ht : ∀ c ∈ type, isInner c = true)
    (hname : name.trim ≠ []) (htype : type.trim ≠ []) :
    SpellsSlot (name ++ ':' :: type) ⟨name.trim, type.trim⟩

/-- The text is read as this literal text with these slots for values and for steps. -/
inductive Spells : Text → Text → List Parameter → List Parameter → Prop
  | nil : Spells [] [] [] []
  | plain {c : Char} {text literal : Text} {params blockLists : List Parameter}
    (hc : Call.isPlain c = true) (h : Spells text literal params blockLists) :
    Spells (c :: text) (c :: literal) params blockLists
  | value {slot text literal : Text} {p : Parameter} {params blockLists : List Parameter}
    (hs : SpellsSlot slot p) (hp : p.isBlockList = false)
    (h : Spells text literal params blockLists) :
    Spells ('(' :: (slot ++ ')' :: text)) ('(' :: ')' :: literal) (p :: params) blockLists
  | steps {slot text literal : Text} {p : Parameter} {params blockLists : List Parameter}
    (hs : SpellsSlot slot p) (hp : p.isBlockList = true)
    (h : Spells text literal params blockLists) :
    Spells ('(' :: (slot ++ ')' :: text)) literal params (p :: blockLists)

theorem Spells.append {t t' l l' : Text} {ps ps' bs bs' : List Parameter} (h : Spells t l ps bs)
    (h' : Spells t' l' ps' bs') : Spells (t ++ t') (l ++ l') (ps ++ ps') (bs ++ bs') := by
  induction h with
  | nil => exact h'
  | plain hc _ ih => exact .plain hc ih
  | value hs hp _ ih =>
    rw [List.cons_append, List.append_assoc]
    exact .value hs hp ih
  | steps hs hp _ ih =>
    rw [List.cons_append, List.append_assoc]
    exact .steps hs hp ih

/-- Plain characters stand for themselves. -/
theorem spells_of_plain {t : Text} (h : ∀ c ∈ t, Call.isPlain c = true) : Spells t t [] [] := by
  induction t with
  | nil => exact .nil
  | cons c t ih =>
    exact .plain (h c List.mem_cons_self) (ih fun d hd => h d (List.mem_cons_of_mem c hd))

/-! ## The steps of the reader -/

/-- The slot that the reader has read when it closes. -/
def Slot.parameter (slot : Slot) : Parameter :=
  ⟨Text.trim slot.name.reverse, Text.trim (slot.type.getD []).reverse⟩

namespace State

/-- The signature being read, with this behind what was read of it. -/
def extend (s : State) (literal : Text) (params blockLists : List Parameter) : State :=
  { s with
    literal := literal.reverse ++ s.literal
    params := params.reverse ++ s.params
    blockLists := blockLists.reverse ++ s.blockLists }

theorem isInner_iff {c : Char} : isInner c = true ↔ Call.isPlain c = true ∧ c ≠ ':' := by
  rw [isInner]
  simp only [Bool.and_eq_true, bne_iff_ne, ne_eq]

theorem not_isInner_cases {c : Char} (h : isInner c ≠ true) :
    c = '(' ∨ c = ')' ∨ c = '[' ∨ c = ':' := by
  rw [Ne, isInner_iff, not_and_or, not_not] at h
  rcases h with h | rfl
  · obtain rfl | rfl | rfl := Call.not_isPlain_cases h <;> decide
  · decide

theorem step_plain {s : State} (index : Nat) {c : Char} (hs : s.slot = none)
    (hc : Call.isPlain c = true) : s.step index c = .ok (s.extend [c] [] []) := by
  obtain ⟨⟨ho, hp⟩, hb⟩ := Call.isPlain_iff.mp hc
  rw [step, hs]
  show s.stepOutside index c = _
  unfold stepOutside
  split
  · exact absurd rfl hb
  · exact absurd rfl hp
  · exact absurd rfl ho
  · rfl

theorem step_open {s : State} (index : Nat) (hs : s.slot = none) :
    s.step index '(' = .ok { s with slot := some ⟨index, [], none⟩ } := by
  rw [step, hs]
  rfl

/-- The ways in which a character outside all slots is taken. -/
theorem stepOutside_cases {s t : State} {index : Nat} {c : Char} (hs : s.slot = none)
    (h : s.step index c = .ok t) :
    (Call.isPlain c = true ∧ t = s.extend [c] [] []) ∨
      (c = '(' ∧ t = { s with slot := some ⟨index, [], none⟩ }) := by
  by_cases hp : Call.isPlain c = true
  · rw [step_plain index hs hp] at h
    cases h
    exact Or.inl ⟨hp, rfl⟩
  by_cases ho : c = '('
  · subst ho
    rw [step_open index hs] at h
    cases h
    exact Or.inr ⟨rfl, rfl⟩
  · rw [step, hs] at h
    have h : s.stepOutside index c = .ok t := h
    unfold stepOutside at h
    split at h
    · cases h
    · cases h
    · exact absurd rfl ho
    next hb hc _ => exact absurd (Call.isPlain_iff.mpr ⟨⟨ho, hc⟩, hb⟩) hp

/-- A character that ends nothing is one of the type, or of the name as long as there is no type. -/
theorem step_inner {s : State} {slot : Slot} (index : Nat) {c : Char} (hs : s.slot = some slot)
    (hc : isInner c = true) :
    s.step index c = .ok { s with
      slot := some (slot.type.elim { slot with name := c :: slot.name } fun type =>
        { slot with type := some (c :: type) }) } := by
  obtain ⟨hp, hcolon⟩ := isInner_iff.mp hc
  obtain ⟨⟨ho, hclose⟩, hb⟩ := Call.isPlain_iff.mp hp
  rw [step, hs]
  show s.stepInside slot index c = _
  unfold stepInside
  split
  · exact absurd rfl ho
  · exact absurd rfl hb
  · exact absurd rfl hcolon
  · exact absurd rfl hcolon
  · exact absurd rfl hclose
  next ht =>
    rw [ht]
    rfl
  next ht =>
    rw [ht]
    rfl

theorem step_name {s : State} {slot : Slot} (index : Nat) {c : Char} (hs : s.slot = some slot)
    (ht : slot.type = none) (hc : isInner c = true) :
    s.step index c = .ok { s with slot := some { slot with name := c :: slot.name } } := by
  rw [step_inner index hs hc, ht]
  rfl

theorem step_type {s : State} {slot : Slot} {type : Text} (index : Nat) {c : Char}
    (hs : s.slot = some slot) (ht : slot.type = some type) (hc : isInner c = true) :
    s.step index c = .ok { s with slot := some { slot with type := some (c :: type) } } := by
  rw [step_inner index hs hc, ht]
  rfl

theorem step_colon {s : State} {slot : Slot} (index : Nat) (hs : s.slot = some slot)
    (ht : slot.type = none) :
    s.step index ':' = .ok { s with slot := some { slot with type := some [] } } := by
  have hstep : s.step index ':' = s.stepInside slot index ':' := by
    rw [step, hs]
  rw [hstep]
  cases slot with
  | mk opened name type =>
    subst ht
    rfl

/-- A slot closes with a name and a type in it, or is refused at its start. -/
theorem step_closeParenthesis {s : State} {slot : Slot} (index : Nat) (hs : s.slot = some slot) :
    s.step index ')' =
      if slot.parameter.name.isEmpty || slot.parameter.type.isEmpty then
        .error (.incompleteParameter, slot.opened)
      else .ok (s.addParameter slot.parameter) := by
  have hstep : s.step index ')' = s.stepInside slot index ')' := by
    rw [step, hs]
  rw [hstep]
  rfl

theorem step_close {s : State} {slot : Slot} (index : Nat) (hs : s.slot = some slot)
    (hn : slot.parameter.name ≠ []) (ht : slot.parameter.type ≠ []) :
    s.step index ')' = .ok (s.addParameter slot.parameter) := by
  have hne : (slot.parameter.name.isEmpty || slot.parameter.type.isEmpty) = false := by
    rw [Bool.or_eq_false_iff]
    exact ⟨by simpa using hn, by simpa using ht⟩
  rw [step_closeParenthesis index hs, hne]
  rfl

/-- The ways in which a character of a slot is taken. -/
theorem stepInside_cases {s t : State} {slot : Slot} {index : Nat} {c : Char}
    (hs : s.slot = some slot) (h : s.step index c = .ok t) :
    (isInner c = true ∧ slot.type = none ∧
        t = { s with slot := some { slot with name := c :: slot.name } }) ∨
      (c = ':' ∧ slot.type = none ∧ t = { s with slot := some { slot with type := some [] } }) ∨
      (∃ type, isInner c = true ∧ slot.type = some type ∧
        t = { s with slot := some { slot with type := some (c :: type) } }) ∨
      (c = ')' ∧ slot.parameter.name ≠ [] ∧ slot.parameter.type ≠ [] ∧
        t = s.addParameter slot.parameter) := by
  by_cases hi : isInner c = true
  · cases ht : slot.type with
    | none =>
      rw [step_name index hs ht hi] at h
      cases h
      exact Or.inl ⟨hi, rfl, by rw [ht]⟩
    | some type =>
      rw [step_type index hs ht hi] at h
      cases h
      exact Or.inr (Or.inr (Or.inl ⟨type, hi, rfl, rfl⟩))
  refine Or.inr ?_
  have hstep : s.step index c = s.stepInside slot index c := by
    rw [step, hs]
  rw [hstep] at h
  unfold stepInside at h
  split at h
  · cases h
  · cases h
  · cases h
  next ht =>
    cases h
    exact Or.inl ⟨rfl, ht, rfl⟩
  · simp only at h
    split at h
    · cases h
    next hne =>
      cases h
      rw [Bool.or_eq_true, not_or, List.isEmpty_iff, List.isEmpty_iff] at hne
      exact Or.inr (Or.inr ⟨rfl, hne.1, hne.2, rfl⟩)
  all_goals
    rename_i ho hb hcolon hclose _
    exact absurd (isInner_iff.mpr ⟨Call.isPlain_iff.mpr ⟨⟨ho, hclose⟩, hb⟩, hcolon⟩) hi

/-! ## From the grammar to the reader -/

theorem run_name {s : State} {slot : Slot} (hs : s.slot = some slot) (ht : slot.type = none)
    {name : Text} (hn : ∀ c ∈ name, isInner c = true) (index : Nat) (rest : Text) :
    s.run index (name ++ rest) =
      ({ s with slot := some { slot with name := name.reverse ++ slot.name } } : State).run
        (index + name.length) rest := by
  induction name generalizing s slot index with
  | nil =>
    rw [List.reverse_nil, List.nil_append, List.nil_append, ← hs]
    rfl
  | cons c name ih =>
    rw [List.cons_append, run, step_name index hs ht (hn c List.mem_cons_self)]
    show State.run _ (index + 1) (name ++ rest) = _
    rw [@ih _ { slot with name := c :: slot.name } rfl ht
      (fun d hd => hn d (List.mem_cons_of_mem c hd)) (index + 1)]
    simp only [List.reverse_cons, List.append_assoc, List.singleton_append, List.length_cons,
      Nat.add_assoc, Nat.add_comm 1]

theorem run_type {s : State} {slot : Slot} {before : Text} (hs : s.slot = some slot)
    (hb : slot.type = some before) {type : Text} (ht : ∀ c ∈ type, isInner c = true) (index : Nat)
    (rest : Text) :
    s.run index (type ++ rest) =
      ({ s with slot := some { slot with type := some (type.reverse ++ before) } } : State).run
        (index + type.length) rest := by
  induction type generalizing s slot before index with
  | nil =>
    rw [List.reverse_nil, List.nil_append, List.nil_append, ← hb, ← hs]
    rfl
  | cons c type ih =>
    rw [List.cons_append, run, step_type index hs hb (ht c List.mem_cons_self)]
    show State.run _ (index + 1) (type ++ rest) = _
    rw [@ih _ { slot with type := some (c :: before) } _ rfl rfl
      (fun d hd => ht d (List.mem_cons_of_mem c hd)) (index + 1)]
    simp only [List.reverse_cons, List.append_assoc, List.singleton_append, List.length_cons,
      Nat.add_assoc, Nat.add_comm 1]

/-- A slot is read from its opening parenthesis to its closing one. -/
theorem run_slot {s : State} (hs : s.slot = none) {slot : Text} {p : Parameter}
    (h : SpellsSlot slot p) (index : Nat) (rest : Text) :
    s.run index ('(' :: (slot ++ ')' :: rest)) =
      (s.addParameter p).run (index + (slot.length + 2)) rest := by
  cases h with
  | mk hn ht hname htype =>
    rename_i name type
    rw [run, step_open index hs]
    show State.run _ (index + 1) (name ++ ':' :: type ++ ')' :: rest) = _
    rw [List.append_assoc, run_name rfl rfl hn, List.cons_append, run, step_colon _ rfl rfl]
    show State.run _ (index + 1 + name.length + 1) (type ++ ')' :: rest) = _
    rw [run_type rfl rfl ht, run]
    have hp : Slot.parameter ⟨index, name.reverse ++ [], some (type.reverse ++ [])⟩ =
        ⟨name.trim, type.trim⟩ := by
      simp only [Slot.parameter, List.append_nil, List.reverse_reverse, Option.getD_some]
    rw [step_close _ rfl (by rw [hp]; exact hname) (by rw [hp]; exact htype), hp]
    show State.run _ _ rest = State.run _ _ rest
    have hindex : index + 1 + name.length + 1 + type.length + 1 =
        index + ((name ++ ':' :: type).length + 2) := by
      rw [List.length_append, List.length_cons]
      omega
    rw [hindex, addParameter, addParameter]

/-- What the grammar spells, the reader takes, whatever stands behind it. -/
theorem run_spells {text literal : Text} {params blockLists : List Parameter}
    (h : Spells text literal params blockLists) {s : State} (hs : s.slot = none) (index : Nat)
    (rest : Text) :
    s.run index (text ++ rest) =
      (s.extend literal params blockLists).run (index + text.length) rest := by
  induction h generalizing s index rest with
  | nil => rfl
  | plain hc h ih =>
    rename_i c text literal params blockLists
    rw [List.cons_append, run, step_plain index hs hc]
    show (s.extend [c] [] []).run (index + 1) (text ++ rest) = _
    rw [ih (s := s.extend [c] [] []) hs]
    simp only [extend, List.reverse_cons, List.append_assoc, List.singleton_append,
      List.reverse_nil, List.nil_append, List.length_cons, Nat.add_assoc, Nat.add_comm 1]
  | value hslot hp h ih =>
    rename_i slot text literal p params blockLists
    rw [List.cons_append, List.append_assoc, List.cons_append, run_slot hs hslot,
      ih (s := s.addParameter p) (by rw [addParameter, hp]; rfl)]
    simp only [extend, addParameter, hp, Bool.false_eq_true, if_false, seam, List.reverse_cons,
      List.append_assoc, List.cons_append, List.nil_append, List.reverse_nil, List.length_cons,
      List.length_append, hs]
    congr 1
    omega
  | steps hslot hp h ih =>
    rename_i slot text literal p params blockLists
    rw [List.cons_append, List.append_assoc, List.cons_append, run_slot hs hslot,
      ih (s := s.addParameter p) (by rw [addParameter, hp]; rfl)]
    simp only [extend, addParameter, hp, if_true, List.reverse_cons, List.append_assoc,
      List.cons_append, List.nil_append, List.length_cons, List.length_append, hs]
    congr 1
    omega

/-! ## From the reader to the grammar -/

/-- The state tracks the text: the signature read so far and the open slot have spelled it. -/
inductive Tracks : Text → State → Prop
  | outside {text literal : Text} {params blockLists : List Parameter}
    (h : Spells text literal params blockLists) :
    Tracks text ⟨literal.reverse, params.reverse, blockLists.reverse, none⟩
  | name {text literal name : Text} {params blockLists : List Parameter} {opened : Nat}
    (h : Spells text literal params blockLists) (hn : ∀ c ∈ name, isInner c = true) :
    Tracks (text ++ '(' :: name)
      ⟨literal.reverse, params.reverse, blockLists.reverse, some ⟨opened, name.reverse, none⟩⟩
  | type {text literal name type : Text} {params blockLists : List Parameter} {opened : Nat}
    (h : Spells text literal params blockLists) (hn : ∀ c ∈ name, isInner c = true)
    (ht : ∀ c ∈ type, isInner c = true) :
    Tracks (text ++ '(' :: (name ++ ':' :: type))
      ⟨literal.reverse, params.reverse, blockLists.reverse,
        some ⟨opened, name.reverse, some type.reverse⟩⟩

theorem inner_snoc {t : Text} {c : Char} (ht : ∀ d ∈ t, isInner d = true)
    (hc : isInner c = true) : ∀ d ∈ t ++ [c], isInner d = true := by
  intro d hd
  rcases List.mem_append.mp hd with hd | hd
  · exact ht d hd
  · rw [List.mem_singleton.mp hd]
    exact hc

theorem Tracks.outside_step {text literal : Text} {params blockLists : List Parameter}
    (h : Spells text literal params blockLists) {index : Nat} {c : Char} {t : State}
    (hstep : State.step ⟨literal.reverse, params.reverse, blockLists.reverse, none⟩ index c =
      .ok t) : Tracks (text ++ [c]) t := by
  rcases stepOutside_cases rfl hstep with ⟨hc, rfl⟩ | ⟨rfl, rfl⟩
  · have ht := Tracks.outside (h.append (.plain hc .nil))
    rw [List.append_nil, List.append_nil, List.reverse_append] at ht
    exact ht
  · exact @Tracks.name _ _ [] _ _ _ h fun d hd => absurd hd List.not_mem_nil

/-- A slot that closes is put into the signature. -/
theorem Tracks.close {text literal name type : Text} {params blockLists : List Parameter}
    (h : Spells text literal params blockLists) (hn : ∀ c ∈ name, isInner c = true)
    (ht : ∀ c ∈ type, isInner c = true) (hname : name.trim ≠ []) (htype : type.trim ≠ [])
    (slot : Option Slot) :
    Tracks (text ++ '(' :: (name ++ ':' :: type) ++ [')'])
      (State.addParameter ⟨literal.reverse, params.reverse, blockLists.reverse, slot⟩
        ⟨name.trim, type.trim⟩) := by
  have hs := SpellsSlot.mk hn ht hname htype
  rw [List.append_assoc, List.cons_append]
  rw [addParameter]
  by_cases hp : Parameter.isBlockList ⟨name.trim, type.trim⟩ = true
  · rw [if_pos hp]
    have ht := Tracks.outside (h.append (.steps hs hp .nil))
    rw [List.append_nil, List.append_nil, List.reverse_append] at ht
    exact ht
  · rw [if_neg hp]
    have ht := Tracks.outside (h.append (.value hs (by simpa using hp) .nil))
    rw [List.append_nil, List.reverse_append, List.reverse_append] at ht
    exact ht

theorem Tracks.step {before : Text} {s t : State} {index : Nat} {c : Char} (hs : Tracks before s)
    (h : s.step index c = .ok t) : Tracks (before ++ [c]) t := by
  cases hs with
  | outside hb => exact Tracks.outside_step hb h
  | name hb hn =>
    rename_i text literal name params blockLists opened
    rw [List.append_assoc, List.cons_append]
    rcases stepInside_cases rfl h with ⟨hc, -, rfl⟩ | ⟨rfl, -, rfl⟩ | ⟨type, -, ht, -⟩ | ⟨rfl, -, ht, -⟩
    · have ht := @Tracks.name _ _ _ _ _ opened hb (inner_snoc hn hc)
      rw [List.reverse_append] at ht
      exact ht
    · exact @Tracks.type _ _ _ [] _ _ _ hb hn fun d hd => absurd hd List.not_mem_nil
    · cases ht
    · exact absurd rfl ht
  | type hb hn hty =>
    rename_i text literal name type params blockLists opened
    rcases stepInside_cases rfl h with ⟨-, ht, -⟩ | ⟨rfl, ht, -⟩ | ⟨_, hc, ht, rfl⟩ | ⟨rfl, hname, htype, rfl⟩
    · cases ht
    · cases ht
    · cases ht
      have ht := @Tracks.type _ _ _ _ _ _ opened hb hn (inner_snoc hty hc)
      rw [List.reverse_append] at ht
      rw [List.append_assoc, List.cons_append, List.append_assoc]
      exact ht
    · have hp : Slot.parameter ⟨opened, name.reverse, some type.reverse⟩ =
          ⟨name.trim, type.trim⟩ := by
        simp only [Slot.parameter, List.reverse_reverse, Option.getD_some]
      rw [hp] at hname htype ⊢
      exact Tracks.close hb hn hty hname htype _

theorem Tracks.run {before text : Text} {s t : State} {index : Nat} (hs : Tracks before s)
    (h : s.run index text = .ok t) : Tracks (before ++ text) t := by
  induction text generalizing before s index with
  | nil =>
    cases h
    rwa [List.append_nil]
  | cons c text ih =>
    rw [State.run, Outcome.bind_eq_ok_iff] at h
    obtain ⟨u, hu, h⟩ := h
    have ht := ih (hs.step hu) h
    rwa [List.append_assoc] at ht

end State

/-! ## The reader and the grammar -/

/-- A signature is a text of the grammar whose name is neither empty nor a number. -/
theorem read_eq_ok_iff {text : Text} {s : Signature} :
    read text = .ok s ↔
      ∃ literal, Spells text literal s.params s.blockLists ∧ s.name = literal.collapse ∧
        s.name ≠ [] ∧ Number.isNumeral s.name = false := by
  rw [read, Outcome.mapError_eq_ok_iff, Outcome.bind_eq_ok_iff]
  constructor
  · rintro ⟨u, hrun, hfin⟩
    have hstart : State.Tracks [] .start := .outside .nil
    have ht := hstart.run hrun
    rw [List.nil_append] at ht
    cases ht with
    | outside h =>
      rename_i literal params blockLists
      simp only [State.finish, List.reverse_reverse, Option.isSome_none, Bool.false_eq_true,
        if_false] at hfin
      split at hfin
      · cases hfin
      next hne =>
        split at hfin
        · cases hfin
        next hnum =>
          cases hfin
          exact ⟨literal, h, rfl, by simpa using hne, by simpa using hnum⟩
    | name | type => cases hfin
  · rintro ⟨literal, h, hname, hne, hnum⟩
    have hrun := State.run_spells h (s := .start) rfl 0 []
    rw [List.append_nil] at hrun
    refine ⟨State.start.extend literal s.params s.blockLists, hrun, ?_⟩
    cases s with
    | mk name params blockLists =>
      have hne' : List.isEmpty (Text.collapse literal) = false := by
        rw [← hname]
        simpa using hne
      simp only [State.finish, State.extend, State.start, List.append_nil, List.reverse_reverse,
        Option.isSome_none, Bool.false_eq_true, if_false, hne']
      rw [← hname, hnum]
      rfl

end Signature
end BlockText
