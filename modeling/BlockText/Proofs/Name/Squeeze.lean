/-
Names and the width of white space.

Both readers of names go through texts that differ in their white space only (`Text.Alike`) in states
that differ in their white space only, since what they ask of a finished part does not depend on it:
whether it is blank, whether it is a number, and what its words are.  So calls are read as the same call,
and signatures as one with the same words in its slots, where the trimmed texts keep their white space.
-/
import Mathlib.Data.List.Forall2
import BlockText.Proofs.Name.Signature
import BlockText.Proofs.Text.Squeeze

namespace BlockText

/-! ## Scanners

Both scanners take one character after another, and go on over white space wherever they are. -/

/-- Two runs over texts that are alike end in related states or with the same fault, if the states stay
related over one character and over a run of white space in each text. -/
theorem related_run {σ : Type} {step : σ → Nat → Char → Except (NameFault × Nat) σ}
    {run : σ → Nat → Text → Except (NameFault × Nat) σ} {absorb : σ → Text → σ} {R : σ → σ → Prop}
    (hnil : ∀ s index, run s index [] = .ok s)
    (hcons : ∀ s index c text,
      run s index (c :: text) = step s index c >>= fun t => run t (index + 1) text)
    (hblank : ∀ s {a}, a.isBlank = true → ∀ index rest,
      run s index (a ++ rest) = run (absorb s a) (index + a.length) rest)
    (hstep : ∀ {s t} (i j : Nat) (c : Char), R s t →
      Outcome.Related R (fun e e' => e.1 = e'.1) (step s i c) (step t j c))
    (habsorb : ∀ {s t a b}, R s t → Text.Alike a b → R (absorb s a) (absorb t b))
    {x y : Text} (h : Text.Alike x y) {s t : σ} (hs : R s t) (i j : Nat) :
    Outcome.Related R (fun e e' => e.1 = e'.1) (run s i x) (run t j y) := by
  induction h generalizing s t i j with
  | nil =>
    rw [hnil, hnil]
    exact .ok hs
  | char _ ih =>
    rw [hcons, hcons]
    exact (hstep i j _ hs).bind fun _ _ hs => ih hs (i + 1) (j + 1)
  | run ha hb hane hbne _ ih =>
    rw [hblank s ha, hblank t hb]
    exact ih (habsorb hs (.of_run ha hb hane hbne)) _ _

/-! ## Calls -/

namespace Call

/-- What has been read differs in its white space only. -/
structure Draft.Alike (p q : Draft) : Prop where
  text : Text.Alike p.text q.text
  args : p.args = q.args

namespace Draft.Alike

variable {p q : Draft}

theorem finish_eq (h : p.Alike q) : p.finish = q.finish := by
  rw [finish, finish, h.text.collapse_eq, h.args]

theorem expression?_eq (h : p.Alike q) : p.expression? = q.expression? := by
  have hcollapse := h.text.collapse_eq
  rw [expression?, expression?, h.finish_eq, h.args, Number.ofText?_of_collapse_eq hcollapse,
    h.text.isBlank_eq, hcollapse]

theorem addArg (h : p.Alike q) (e : Expression) : (p.addArg e).Alike (q.addArg e) := by
  refine ⟨?_, by rw [Draft.addArg, Draft.addArg, h.args]⟩
  rw [Draft.text, Draft.text, Draft.addArg, Draft.addArg, List.reverse_append, List.reverse_append]
  exact h.text.append (.refl _)

end Draft.Alike

theorem State.run_blank (s : State) {a : Text} (ha : a.isBlank = true) (index : Nat) (rest : Text) :
    s.run index (a ++ rest) = (s.extend a []).run (index + a.length) rest :=
  s.run_plain (fun c hc => isPlain_of_isSpace (Text.isBlank_iff.mp ha c hc)) index rest

/-- The group being read and the groups around it differ in their white space only, and in where they
were opened. -/
structure State.Alike (s t : State) : Prop where
  current : s.current.Alike t.current
  around : List.Forall₂ (fun a b => a.1.Alike b.1) s.around t.around

namespace State.Alike

variable {s t : State}

theorem start : State.start.Alike State.start := ⟨⟨.nil, rfl⟩, .nil⟩

theorem extend (h : s.Alike t) {a b : Text} (hab : Text.Alike a b) :
    (s.extend a []).Alike (t.extend b []) := by
  refine ⟨⟨?_, h.current.args⟩, h.around⟩
  rw [Draft.text, Draft.text, State.extend, State.extend, List.reverse_append, List.reverse_append,
    List.reverse_reverse, List.reverse_reverse]
  exact h.current.text.append hab

theorem step (h : s.Alike t) (i j : Nat) (c : Char) :
    Outcome.Related State.Alike (fun e e' => e.1 = e'.1) (s.step i c) (t.step j c) := by
  by_cases hc : isPlain c = true
  · rw [step_plain s i hc, step_plain t j hc]
    exact .ok (h.extend (.refl [c]))
  obtain rfl | rfl | rfl := not_isPlain_cases hc
  · show Outcome.Related _ _ (if maxNesting ≤ s.around.length then _ else _)
      (if maxNesting ≤ t.around.length then _ else _)
    rw [h.around.length_eq]
    split
    · exact .error rfl
    · exact .ok ⟨⟨.nil, rfl⟩, .cons h.current h.around⟩
  · obtain ⟨current, around⟩ := s
    obtain ⟨current', around'⟩ := t
    obtain ⟨hcurrent, haround⟩ := h
    cases haround with
    | nil => exact .error rfl
    | cons hparent haround =>
      simp only [State.step, hcurrent.expression?_eq]
      cases current'.expression? with
      | ok e => exact .ok ⟨hparent.addArg e, haround⟩
      | error fault => exact .error rfl
  · exact .error rfl

theorem run (h : s.Alike t) {x y : Text} (hxy : Text.Alike x y) (i j : Nat) :
    Outcome.Related State.Alike (fun e e' => e.1 = e'.1) (s.run i x) (t.run j y) :=
  related_run (fun _ _ => rfl) (fun _ _ _ _ => rfl) (fun s _ ha => s.run_blank ha)
    (fun i j c hs => hs.step i j c) (fun hs hab => hs.extend hab) hxy h i j

/-- Where one text ends with no group open, so does the other. -/
theorem finish (h : s.Alike t) (i j : Nat) :
    Outcome.Related (· = ·) (fun e e' => e.1 = e'.1) (s.finish i) (t.finish j) := by
  obtain ⟨current, around⟩ := s
  obtain ⟨current', around'⟩ := t
  obtain ⟨hcurrent, haround⟩ := h
  rw [State.finish, State.finish, hcurrent.finish_eq]
  cases haround with
  | nil => exact .ok rfl
  | cons => exact .error rfl

end State.Alike

theorem related_scan {x y : Text} (h : Text.Alike x y) :
    Outcome.Related (· = ·) (fun e e' => e.1 = e'.1) (scan x) (scan y) :=
  (State.Alike.start.run h 0 0).bind fun _ _ hs => hs.finish x.length y.length

/-- Texts that differ in their white space only are the same call, or have the same fault. -/
theorem related_read {x y : Text} (h : Text.Alike x y) :
    Outcome.Related (· = ·) (fun e e' => e.fault = e'.fault) (read x) (read y) := by
  rw [read, read, h.isBlank_eq, Number.isNumeral_of_collapse_eq h.collapse_eq]
  split
  · exact .error rfl
  split
  · exact .error rfl
  · exact (related_scan h).mapError fun _ _ he => he

end Call

/-! ## Signatures -/

/-- The slot with one space between the words in it. -/
def Parameter.collapse (p : Parameter) : Parameter := ⟨p.name.collapse, p.type.collapse⟩

namespace Signature

/-- The slot with this text behind what was read of it. -/
def Slot.absorb (slot : Slot) (text : Text) : Slot :=
  match slot.type with
  | none => { slot with name := text.reverse ++ slot.name }
  | some type => { slot with type := some (text.reverse ++ type) }

/-- The slots differ in their white space only, and in where they were opened. -/
structure Slot.Alike (a b : Slot) : Prop where
  name : Text.Alike a.name.reverse b.name.reverse
  type : Option.Rel (fun x y => Text.Alike x.reverse y.reverse) a.type b.type

theorem alike_reverse_append {x y a b : Text} (h : Text.Alike x.reverse y.reverse)
    (hab : Text.Alike a b) : Text.Alike (a.reverse ++ x).reverse (b.reverse ++ y).reverse := by
  rw [List.reverse_append, List.reverse_append, List.reverse_reverse, List.reverse_reverse]
  exact h.append hab

namespace Slot.Alike

variable {a b : Slot}

theorem absorb (h : a.Alike b) {x y : Text} (hxy : Text.Alike x y) :
    (a.absorb x).Alike (b.absorb y) := by
  obtain ⟨opened, name, type⟩ := a
  obtain ⟨opened', name', type'⟩ := b
  obtain ⟨hname, htype⟩ := h
  cases htype with
  | none => exact ⟨alike_reverse_append hname hxy, .none⟩
  | some htype => exact ⟨hname, .some (alike_reverse_append htype hxy)⟩

theorem getD_type (h : a.Alike b) :
    Text.Alike (a.type.getD []).reverse (b.type.getD []).reverse := by
  obtain ⟨opened, name, type⟩ := a
  obtain ⟨opened', name', type'⟩ := b
  cases h.type with
  | none => exact .nil
  | some htype => exact htype

theorem collapse_parameter (h : a.Alike b) : a.parameter.collapse = b.parameter.collapse := by
  simp only [Parameter.collapse, parameter, Text.collapse_trim, h.name.collapse_eq,
    h.getD_type.collapse_eq]

theorem isBlockList_eq (h : a.Alike b) : a.parameter.isBlockList = b.parameter.isBlockList := by
  have hall : Category.blockListType.all (!Text.isSpace ·) = true := rfl
  have hword : ∀ c ∈ Category.blockListType, Text.isSpace c = false := fun c hc => by
    simpa using List.all_eq_true.mp hall c hc
  rw [Bool.eq_iff_iff, Parameter.isBlockList, Parameter.isBlockList, beq_iff_eq, beq_iff_eq,
    parameter, parameter, Text.trim_eq_iff_collapse_eq hword, Text.trim_eq_iff_collapse_eq hword,
    h.getD_type.collapse_eq]

theorem isEmpty_eq (h : a.Alike b) :
    (a.parameter.name.isEmpty || a.parameter.type.isEmpty) =
      (b.parameter.name.isEmpty || b.parameter.type.isEmpty) := by
  have trim {x y : Text} (h : Text.Alike x y) : x.trim.isEmpty = y.trim.isEmpty := by
    rw [Bool.eq_iff_iff, List.isEmpty_iff, List.isEmpty_iff, Text.trim_eq_nil_iff,
      Text.trim_eq_nil_iff, h.isBlank_eq]
  rw [parameter, parameter, trim h.name, trim h.getD_type]

end Slot.Alike

namespace State

/-- The signature being read, with plain text behind it. -/
def absorb (s : State) (text : Text) : State :=
  match s.slot with
  | none => s.extend text [] []
  | some slot => { s with slot := some (slot.absorb text) }

theorem run_blank (s : State) {a : Text} (ha : a.isBlank = true) (index : Nat) (rest : Text) :
    s.run index (a ++ rest) = (s.absorb a).run (index + a.length) rest := by
  have hinner : ∀ c ∈ a, isInner c = true := by
    intro c hc
    have hspace := Text.isBlank_iff.mp ha c hc
    refine isInner_iff.mpr ⟨Call.isPlain_of_isSpace hspace, ?_⟩
    rintro rfl
    revert hspace
    decide
  rw [absorb]
  cases hs : s.slot with
  | none =>
    exact run_spells (spells_of_plain fun c hc => (isInner_iff.mp (hinner c hc)).1) hs index rest
  | some slot =>
    obtain ⟨opened, name, type⟩ := slot
    cases type with
    | none => exact run_name hs rfl hinner index rest
    | some type => exact run_type hs rfl hinner index rest

theorem step_absorb {s : State} {slot : Slot} (index : Nat) {c : Char} (hs : s.slot = some slot)
    (hc : isInner c = true) : s.step index c = .ok (s.absorb [c]) := by
  rw [absorb, hs]
  obtain ⟨opened, name, type⟩ := slot
  cases type with
  | none => exact step_name index hs rfl hc
  | some type => exact step_type index hs rfl hc

/-- What has been read differs in its white space only, and the open slots in where they were opened. -/
structure Alike (s t : State) : Prop where
  literal : Text.Alike s.literal.reverse t.literal.reverse
  params : s.params.map Parameter.collapse = t.params.map Parameter.collapse
  blockLists : s.blockLists.map Parameter.collapse = t.blockLists.map Parameter.collapse
  slot : Option.Rel Slot.Alike s.slot t.slot

namespace Alike

variable {s t : State}

theorem start : State.start.Alike State.start := ⟨.nil, rfl, rfl, .none⟩

/-- A slot is open in both or in none. -/
theorem slot_cases (h : s.Alike t) :
    (s.slot = none ∧ t.slot = none) ∨
      ∃ a b, s.slot = some a ∧ t.slot = some b ∧ a.Alike b := by
  obtain ⟨literal, params, blockLists, slot⟩ := s
  obtain ⟨literal', params', blockLists', slot'⟩ := t
  cases h.slot with
  | none => exact Or.inl ⟨rfl, rfl⟩
  | some hab => exact Or.inr ⟨_, _, rfl, rfl, hab⟩

theorem absorb (h : s.Alike t) {x y : Text} (hxy : Text.Alike x y) :
    (s.absorb x).Alike (t.absorb y) := by
  obtain ⟨literal, params, blockLists, slot⟩ := s
  obtain ⟨literal', params', blockLists', slot'⟩ := t
  obtain ⟨hliteral, hparams, hblockLists, hslot⟩ := h
  cases hslot with
  | none => exact ⟨alike_reverse_append hliteral hxy, hparams, hblockLists, .none⟩
  | some hslot => exact ⟨hliteral, hparams, hblockLists, .some (hslot.absorb hxy)⟩

theorem addParameter (h : s.Alike t) {p q : Parameter} (hpq : p.collapse = q.collapse)
    (hb : p.isBlockList = q.isBlockList) : (s.addParameter p).Alike (t.addParameter q) := by
  rw [State.addParameter, State.addParameter, hb]
  split
  · refine ⟨h.literal, h.params, ?_, .none⟩
    rw [List.map_cons, List.map_cons, hpq, h.blockLists]
  · refine ⟨?_, ?_, h.blockLists, .none⟩
    · exact alike_reverse_append h.literal (.refl seam)
    · rw [List.map_cons, List.map_cons, hpq, h.params]

theorem step_outside (h : s.Alike t) (hs : s.slot = none) (ht : t.slot = none) (i j : Nat) (c : Char) :
    Outcome.Related State.Alike (fun e e' => e.1 = e'.1) (s.step i c) (t.step j c) := by
  by_cases hc : Call.isPlain c = true
  · rw [step_plain i hs hc, step_plain j ht hc]
    have hextend := h.absorb (.refl [c])
    rw [State.absorb, State.absorb, hs, ht] at hextend
    exact .ok hextend
  obtain rfl | rfl | rfl := Call.not_isPlain_cases hc
  · rw [step_open i hs, step_open j ht]
    exact .ok ⟨h.literal, h.params, h.blockLists, .some ⟨.nil, .none⟩⟩
  · rw [State.step, State.step, hs, ht]
    exact .error rfl
  · rw [State.step, State.step, hs, ht]
    exact .error rfl

theorem step_inside (h : s.Alike t) {a b : Slot} (hs : s.slot = some a) (ht : t.slot = some b)
    (hab : a.Alike b) (i j : Nat) (c : Char) :
    Outcome.Related State.Alike (fun e e' => e.1 = e'.1) (s.step i c) (t.step j c) := by
  by_cases hc : isInner c = true
  · rw [step_absorb i hs hc, step_absorb j ht hc]
    exact .ok (h.absorb (.refl [c]))
  obtain rfl | rfl | rfl | rfl := not_isInner_cases hc
  · rw [State.step, State.step, hs, ht]
    exact .error rfl
  · rw [step_closeParenthesis i hs, step_closeParenthesis j ht, hab.isEmpty_eq]
    split
    · exact .error rfl
    · exact .ok (h.addParameter hab.collapse_parameter hab.isBlockList_eq)
  · rw [State.step, State.step, hs, ht]
    exact .error rfl
  · obtain ⟨opened, name, type⟩ := a
    obtain ⟨opened', name', type'⟩ := b
    cases hab.type with
    | none =>
      rw [step_colon i hs rfl, step_colon j ht rfl]
      exact .ok ⟨h.literal, h.params, h.blockLists, .some ⟨hab.name, .some .nil⟩⟩
    | some =>
      rw [State.step, State.step, hs, ht]
      exact .error rfl

theorem step (h : s.Alike t) (i j : Nat) (c : Char) :
    Outcome.Related State.Alike (fun e e' => e.1 = e'.1) (s.step i c) (t.step j c) := by
  obtain ⟨hs, ht⟩ | ⟨a, b, hs, ht, hab⟩ := h.slot_cases
  · exact h.step_outside hs ht i j c
  · exact h.step_inside hs ht hab i j c

theorem run (h : s.Alike t) {x y : Text} (hxy : Text.Alike x y) (i j : Nat) :
    Outcome.Related State.Alike (fun e e' => e.1 = e'.1) (s.run i x) (t.run j y) :=
  related_run (fun _ _ => rfl) (fun _ _ _ _ => rfl) (fun s _ ha => s.run_blank ha)
    (fun i j c hs => hs.step i j c) (fun hs hab => hs.absorb hab) hxy h i j

end Alike
end State

/-- The signatures have one name, and the same words in their slots. -/
structure Alike (s t : Signature) : Prop where
  name : s.name = t.name
  params : s.params.map Parameter.collapse = t.params.map Parameter.collapse
  blockLists : s.blockLists.map Parameter.collapse = t.blockLists.map Parameter.collapse

theorem State.Alike.finish {s t : State} (h : s.Alike t) (i j : Nat) :
    Outcome.Related Signature.Alike (fun e e' => e.1 = e'.1) (s.finish i) (t.finish j) := by
  rw [State.finish, State.finish, h.literal.collapse_eq]
  obtain ⟨hs, ht⟩ | ⟨a, b, hs, ht, -⟩ := h.slot_cases
  · rw [hs, ht]
    show Outcome.Related _ _
      (if (Text.collapse t.literal.reverse).isEmpty then _ else _)
      (if (Text.collapse t.literal.reverse).isEmpty then _ else _)
    split
    · exact .error rfl
    split
    · exact .error rfl
    · refine .ok ⟨rfl, ?_, ?_⟩
      · rw [List.map_reverse, List.map_reverse, h.params]
      · rw [List.map_reverse, List.map_reverse, h.blockLists]
  · rw [hs, ht]
    exact .error rfl

/-- Texts that differ in their white space only are signatures that are alike, or have the same
fault. -/
theorem related_read {x y : Text} (h : Text.Alike x y) :
    Outcome.Related Signature.Alike (fun e e' => e.fault = e'.fault) (read x) (read y) := by
  rw [read, read]
  exact ((State.Alike.start.run h 0 0).bind fun _ _ hs => hs.finish x.length y.length).mapError
    fun _ _ he => he

end Signature

/-! ## Squeezed names -/

/-- One space for each run of white space changes neither what is called nor what is defined, nor the
message of what is wrong with a name. -/
theorem Name.read_squeeze (text : Text) :
    Outcome.Related (· = ·) (fun e e' => e.fault.message = e'.fault.message) (Call.read text)
        (Call.read text.squeeze) ∧
      Outcome.Related Signature.Alike (fun e e' => e.fault.message = e'.fault.message)
        (Signature.read text) (Signature.read text.squeeze) :=
  ⟨(Call.related_read (Text.alike_squeeze text)).mono (fun _ _ h => h)
      fun _ _ h => congrArg NameFault.message h,
    (Signature.related_read (Text.alike_squeeze text)).mono (fun _ _ h => h)
      fun _ _ h => congrArg NameFault.message h⟩

end BlockText
