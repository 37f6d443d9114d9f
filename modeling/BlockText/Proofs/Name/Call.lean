/-
The grammar of call sites.

`Call.Spells` is the grammar that `Call.read` reads: plain characters, and groups in parentheses
whose contents denote expressions.  `read_eq_ok_iff` says that the reader accepts the texts of this
grammar that are neither blank nor a number, and gives their name and their arguments.

One direction follows the grammar through the reader (`State.run_spells`).  The other keeps, for the
group being read and for each group around it, the part of the text that it has spelled so far
(`State.Tracks`).  Where the reader stops in other texts is `Call.Stops`.
-/
import BlockText.Name.Call
import BlockText.Proofs.Number.Numeral
import BlockText.Proofs.Outcome

namespace BlockText

theorem Category.isDelimiter_of_isSpace {c : Char} (h : Text.isSpace c = true) :
    isDelimiter c = false := by
  rw [isDelimiter]
  simp only [Bool.or_eq_false_iff, beq_eq_false_iff_ne, ne_eq]
  refine ⟨⟨⟨⟨?_, ?_⟩, ?_⟩, ?_⟩, ?_⟩ <;> rintro rfl <;> revert h <;> decide

namespace Call

/-! ## The grammar -/

/-- The characters that stand for themselves in a call. -/
def isPlain (c : Char) : Bool := c != '(' && c != ')' && c != '['

theorem isPlain_iff {c : Char} : isPlain c = true ↔ (c ≠ '(' ∧ c ≠ ')') ∧ c ≠ '[' := by
  rw [isPlain]
  simp only [Bool.and_eq_true, bne_iff_ne, ne_eq]

theorem not_isPlain_cases {c : Char} (h : isPlain c ≠ true) : c = '(' ∨ c = ')' ∨ c = '[' := by
  rwa [Ne, isPlain_iff, not_and_or, not_and_or, not_not, not_not, not_not, or_assoc] at h

theorem isPlain_of_isSpace {c : Char} (h : Text.isSpace c = true) : isPlain c = true := by
  rw [isPlain_iff]
  refine ⟨⟨?_, ?_⟩, ?_⟩ <;> rintro rfl <;> revert h <;> decide

/-- The literal text and the arguments of a group denote this expression. -/
inductive Denotes (literal : Text) : List Expression → Expression → Prop
  | number {value : Number} (h : Number.ofText? literal = some value) :
    Denotes literal [] (.number value)
  | name (hn : Number.ofText? literal = none) (hb : literal.isBlank = false) :
    Denotes literal [] (.call literal.collapse [])
  | call {args : List Expression} (h : args ≠ []) :
    Denotes literal args (.call literal.collapse args)

/-- The text is read as this literal text with these arguments, where a group may open groups to
this depth. -/
inductive Spells : Nat → Text → Text → List Expression → Prop
  | nil {room : Nat} : Spells room [] [] []
  | plain {room : Nat} {c : Char} {text literal : Text} {args : List Expression}
    (hc : isPlain c = true) (h : Spells room text literal args) :
    Spells room (c :: text) (c :: literal) args
  | group {room : Nat} {group inner text literal : Text} {innerArgs args : List Expression}
    {e : Expression} (hg : Spells room group inner innerArgs) (he : Denotes inner innerArgs e)
    (h : Spells (room + 1) text literal args) :
    Spells (room + 1) ('(' :: (group ++ ')' :: text)) ('(' :: ')' :: literal) (e :: args)

theorem Spells.append {room : Nat} {t t' l l' : Text} {a a' : List Expression}
    (h : Spells room t l a) (h' : Spells room t' l' a') :
    Spells room (t ++ t') (l ++ l') (a ++ a') := by
  induction h with
  | nil => exact h'
  | plain hc _ ih => exact .plain hc (ih h')
  | group hg he _ _ ih =>
    rw [List.cons_append, List.append_assoc]
    exact .group hg he (ih h')

/-- Plain characters stand for themselves. -/
theorem spells_of_plain (room : Nat) {t : Text} (h : ∀ c ∈ t, isPlain c = true) :
    Spells room t t [] := by
  induction t with
  | nil => exact .nil
  | cons c t ih =>
    exact .plain (h c List.mem_cons_self) (ih fun d hd => h d (List.mem_cons_of_mem c hd))

/-- A text without arguments has no groups. -/
theorem Spells.eq_of_args_nil {room : Nat} {t l : Text} (h : Spells room t l []) :
    t = l ∧ ∀ c ∈ t, isPlain c = true := by
  generalize ha : ([] : List Expression) = a at h
  induction h with
  | nil => exact ⟨rfl, fun c hc => absurd hc List.not_mem_nil⟩
  | plain hc _ ih =>
    obtain ⟨rfl, hp⟩ := ih ha
    exact ⟨rfl, fun d hd => (List.mem_cons.mp hd).elim (fun h => h ▸ hc) (hp d)⟩
  | group => cases ha

theorem Spells.openParenthesis_mem {room : Nat} {t l : Text} {a : List Expression}
    (h : Spells room t l a) (ha : a ≠ []) : '(' ∈ t := by
  induction h with
  | nil => exact absurd rfl ha
  | plain _ _ ih => exact List.mem_cons_of_mem _ (ih ha)
  | group => exact List.mem_cons_self

theorem Spells.openBracket_not_mem {room : Nat} {t l : Text} {a : List Expression}
    (h : Spells room t l a) : '[' ∉ t := by
  induction h with
  | nil => exact List.not_mem_nil
  | plain hc _ ih =>
    rw [List.mem_cons, not_or]
    refine ⟨?_, ih⟩
    rintro rfl
    revert hc
    decide
  | group _ _ _ ihg ih =>
    simp only [List.mem_cons, List.mem_append, not_or]
    exact ⟨by decide, ihg, by decide, ih⟩

/-- The literal text of a call is blank only if nothing but white space was written. -/
theorem Spells.isBlank_eq {room : Nat} {t l : Text} {a : List Expression}
    (h : Spells room t l a) : t.isBlank = l.isBlank := by
  induction h with
  | nil => rfl
  | plain _ _ ih =>
    rw [Text.isBlank, Text.isBlank] at *
    rw [List.all_cons, List.all_cons, ih]
  | group => rfl

/-- A call starts like its literal text. -/
theorem Spells.lead_eq {room : Nat} {t l : Text} {a : List Expression} (h : Spells room t l a) :
    Text.lead t = Text.lead l := by
  induction h with
  | nil => rfl
  | plain _ _ ih => rw [Text.lead, Text.lead, ih]
  | group => rfl

theorem Spells.head?_eq {room : Nat} {t l : Text} {a : List Expression} (h : Spells room t l a) :
    t.head? = l.head? := by
  cases h <;> rfl

/-! ## Expressions -/

/-- A group is read as what it denotes. -/
theorem expression?_eq_ok_iff {l : Text} {a : List Expression} {e : Expression} :
    Draft.expression? ⟨l.reverse, a.reverse⟩ = .ok e ↔ Denotes l a e := by
  rw [Draft.expression?, Draft.finish, Draft.text, List.reverse_reverse, List.reverse_reverse]
  cases a with
  | nil =>
    simp only [List.reverse_nil, List.isEmpty_nil, if_true]
    cases hn : Number.ofText? l with
    | some value =>
      constructor
      · intro h
        cases h
        exact .number hn
      · intro h
        cases h with
        | number hv => rw [hn] at hv; cases hv; rfl
        | name hv => rw [hn] at hv; cases hv
        | call h => exact absurd rfl h
    | none =>
      by_cases hb : l.isBlank = true
      · simp only [hb, if_true]
        refine ⟨fun h => (by cases h), fun h => ?_⟩
        cases h with
        | number hv => rw [hn] at hv; cases hv
        | name _ hv => rw [hb] at hv; cases hv
        | call h => exact absurd rfl h
      · simp only [hb, if_false, Bool.false_eq_true]
        constructor
        · intro h
          cases h
          exact .name hn (by simpa using hb)
        · intro h
          cases h with
          | number hv => rw [hn] at hv; cases hv
          | name => rfl
          | call h => exact absurd rfl h
  | cons x a =>
    have hne : (x :: a).reverse.isEmpty = false := by
      rw [List.isEmpty_reverse]
      rfl
    simp only [hne, Bool.false_eq_true, if_false]
    constructor
    · intro h
      cases h
      exact .call (List.cons_ne_nil x a)
    · intro h
      cases h
      rfl

/-- A group that is no expression is empty. -/
theorem expression?_eq_error_iff {p : Draft} {fault : NameFault} :
    p.expression? = .error fault ↔
      fault = .emptyGroup ∧ p.args = [] ∧ p.text.isBlank = true := by
  constructor
  · intro h
    rw [Draft.expression?] at h
    split at h
    next ha =>
      split at h
      · cases h
      · split at h
        next hb =>
          cases h
          exact ⟨rfl, List.isEmpty_iff.mp ha, hb⟩
        · cases h
    · cases h
  · rintro ⟨rfl, ha, hb⟩
    rw [Draft.expression?, ha, Number.ofText?_of_blank hb]
    simp only [List.isEmpty_nil, if_true, hb]

theorem exists_expression? {p : Draft} (h : p.args = [] → p.text.isBlank = false) :
    ∃ e, p.expression? = .ok e := by
  cases he : p.expression? with
  | ok e => exact ⟨e, rfl⟩
  | error fault =>
    obtain ⟨-, ha, hb⟩ := expression?_eq_error_iff.mp he
    rw [h ha] at hb
    cases hb

namespace State

/-! ## The steps of the reader -/

/-- The group being read, with this behind what was read of it. -/
def extend (s : State) (literal : Text) (args : List Expression) : State :=
  { s with current := ⟨literal.reverse ++ s.current.literal, args.reverse ++ s.current.args⟩ }

theorem step_plain (s : State) (index : Nat) {c : Char} (hc : isPlain c = true) :
    s.step index c = .ok (s.extend [c] []) := by
  obtain ⟨⟨ho, hp⟩, hb⟩ := isPlain_iff.mp hc
  unfold step
  split
  · exact absurd rfl ho
  · exact absurd rfl hp
  · exact absurd rfl hb
  · rfl

theorem step_open {s : State} (index : Nat) (h : s.around.length < maxNesting) :
    s.step index '(' = .ok ⟨.start, (s.current, index) :: s.around⟩ := by
  show (if maxNesting ≤ s.around.length then _ else _) = _
  rw [if_neg (by omega)]

theorem step_close {s : State} (index : Nat) {parent : Draft} {opened : Nat}
    {around : List (Draft × Nat)} {e : Expression} (hs : s.around = (parent, opened) :: around)
    (he : s.current.expression? = .ok e) :
    s.step index ')' = .ok ⟨parent.addArg e, around⟩ := by
  simp only [step, hs, he]

/-- The ways in which a character is taken. -/
theorem step_cases {s t : State} {index : Nat} {c : Char} (h : s.step index c = .ok t) :
    (isPlain c = true ∧ t = s.extend [c] []) ∨
      (c = '(' ∧ s.around.length < maxNesting ∧ t = ⟨.start, (s.current, index) :: s.around⟩) ∨
      ∃ parent opened around e, c = ')' ∧ s.around = (parent, opened) :: around ∧
        s.current.expression? = .ok e ∧ t = ⟨parent.addArg e, around⟩ := by
  by_cases hp : isPlain c = true
  · rw [step_plain s index hp] at h
    cases h
    exact Or.inl ⟨hp, rfl⟩
  refine Or.inr ?_
  unfold step at h
  split at h
  · split at h
    · cases h
    next hd =>
      cases h
      exact Or.inl ⟨rfl, by omega, rfl⟩
  · split at h
    · cases h
    next hs =>
      split at h
      next he =>
        cases h
        exact Or.inr ⟨_, _, _, _, rfl, hs, he, rfl⟩
      · cases h
  · cases h
  next ho hc hb => exact absurd (isPlain_iff.mpr ⟨⟨ho, hc⟩, hb⟩) hp

/-- The characters that are refused, each with the fault and where it shows. -/
inductive Refuses (s : State) (index : Nat) : Char → NameFault → Nat → Prop
  | tooDeep (h : maxNesting ≤ s.around.length) : Refuses s index '(' .tooDeep index
  | unopened (h : s.around = []) : Refuses s index ')' .closeParenthesis index
  | empty {parent : Draft} {opened : Nat} {around : List (Draft × Nat)}
    (hs : s.around = (parent, opened) :: around) (ha : s.current.args = [])
    (hb : s.current.text.isBlank = true) : Refuses s index ')' .emptyGroup opened
  | bracket : Refuses s index '[' .openBracket index

theorem step_eq_error_iff {s : State} {index : Nat} {c : Char} {fault : NameFault} {shown : Nat} :
    s.step index c = .error (fault, shown) ↔ s.Refuses index c fault shown := by
  constructor
  · intro h
    unfold step at h
    split at h
    · split at h
      next hd =>
        cases h
        exact .tooDeep hd
      · cases h
    · split at h
      next hs =>
        cases h
        exact .unopened hs
      next hs =>
        split at h
        · cases h
        next he =>
          cases h
          obtain ⟨rfl, ha, hb⟩ := expression?_eq_error_iff.mp he
          exact .empty hs ha hb
    · cases h
      exact .bracket
    · cases h
  · intro h
    cases h with
    | tooDeep hd =>
      show (if maxNesting ≤ s.around.length then _ else _) = _
      rw [if_pos hd]
    | unopened hs => simp only [step, hs]
    | empty hs ha hb => simp only [step, hs, expression?_eq_error_iff.mpr ⟨rfl, ha, hb⟩]
    | bracket => rfl

/-! ## Parts of a run -/

theorem run_append (s : State) (index : Nat) (a b : Text) :
    s.run index (a ++ b) = s.run index a >>= fun t => t.run (index + a.length) b := by
  induction a generalizing s index with
  | nil => rfl
  | cons c a ih =>
    rw [List.cons_append, run, run]
    cases s.step index c with
    | error e => rfl
    | ok t =>
      show t.run (index + 1) (a ++ b) = t.run (index + 1) a >>= _
      rw [ih, List.length_cons, Nat.add_assoc, Nat.add_comm 1]

/-- What each step keeps of the text so far and the state holds behind a run. -/
theorem run_induction {P : Text → State → Prop}
    (hstep : ∀ {before s t index c}, P before s → s.step index c = .ok t → P (before ++ [c]) t)
    {before text : Text} {s t : State} {index : Nat} (hs : P before s)
    (h : s.run index text = .ok t) : P (before ++ text) t := by
  induction text generalizing before s index with
  | nil =>
    cases h
    rwa [List.append_nil]
  | cons c text ih =>
    rw [State.run, Outcome.bind_eq_ok_iff] at h
    obtain ⟨u, hu, h⟩ := h
    have ht := ih (hstep hs hu) h
    rwa [List.append_assoc] at ht

/-- A run fails at the first character that is refused. -/
theorem refuses_of_run {s : State} {index : Nat} {text : Text} {fault : NameFault} {shown : Nat}
    (h : s.run index text = .error (fault, shown)) :
    ∃ done c rest t, text = done ++ c :: rest ∧ s.run index done = .ok t ∧
      t.Refuses (index + done.length) c fault shown := by
  induction text generalizing s index with
  | nil => cases h
  | cons c text ih =>
    rw [run, Outcome.bind_eq_error_iff] at h
    rcases h with h | ⟨u, hu, h⟩
    · exact ⟨[], c, text, s, rfl, rfl, step_eq_error_iff.mp h⟩
    · obtain ⟨done, d, rest, t, rfl, hrun, hd⟩ := ih h
      refine ⟨c :: done, d, rest, t, rfl, ?_, ?_⟩
      · rw [run, Outcome.bind_eq_ok_iff]
        exact ⟨u, hu, hrun⟩
      · rwa [List.length_cons, Nat.add_comm done.length, ← Nat.add_assoc]

/-! ## From the grammar to the reader -/

/-- Plain characters are taken at any depth. -/
theorem run_plain (s : State) {text : Text} (h : ∀ c ∈ text, isPlain c = true) (index : Nat)
    (rest : Text) :
    s.run index (text ++ rest) = (s.extend text []).run (index + text.length) rest := by
  induction text generalizing s index with
  | nil => rfl
  | cons c text ih =>
    rw [List.cons_append, run, step_plain s index (h c List.mem_cons_self)]
    show (s.extend [c] []).run (index + 1) (text ++ rest) = _
    rw [ih (s.extend [c] []) fun d hd => h d (List.mem_cons_of_mem c hd)]
    simp only [extend, List.reverse_cons, List.append_assoc, List.singleton_append,
      List.reverse_nil, List.nil_append, List.length_cons, Nat.add_assoc, Nat.add_comm 1]

/-- What the grammar spells, the reader takes, whatever stands behind it. -/
theorem run_spells {room : Nat} {text literal : Text} {args : List Expression}
    (h : Spells room text literal args) {s : State} (hd : s.around.length + room ≤ maxNesting)
    (index : Nat) (rest : Text) :
    s.run index (text ++ rest) = (s.extend literal args).run (index + text.length) rest := by
  induction h generalizing s index rest with
  | nil => rfl
  | plain hc h ih =>
    rename_i c text literal args
    rw [List.cons_append, run, step_plain s index hc]
    show (s.extend [c] []).run (index + 1) (text ++ rest) = _
    rw [ih (s := s.extend [c] []) hd]
    simp only [extend, List.reverse_cons, List.append_assoc, List.singleton_append,
      List.reverse_nil, List.nil_append, List.length_cons, Nat.add_assoc, Nat.add_comm 1]
  | group hg he h ihg ih =>
    rename_i room group inner text literal innerArgs args e
    rw [List.cons_append, List.append_assoc, List.cons_append, run, step_open index (by omega)]
    show (⟨.start, (s.current, index) :: s.around⟩ : State).run (index + 1) _ = _
    rw [ihg (by rw [List.length_cons]; omega), run]
    have hinner : Draft.expression? ⟨inner.reverse ++ [], innerArgs.reverse ++ []⟩ = .ok e := by
      rw [List.append_nil, List.append_nil]
      exact expression?_eq_ok_iff.mpr he
    rw [step_close (e := e) _ rfl hinner]
    show (⟨s.current.addArg e, s.around⟩ : State).run _ (text ++ rest) = _
    rw [ih (s := ⟨s.current.addArg e, s.around⟩) hd]
    simp only [extend, Draft.addArg, seam, List.reverse_cons, List.append_assoc, List.cons_append,
      List.nil_append, List.reverse_nil, List.length_cons, List.length_append]
    congr 1
    omega

/-! ## From the reader to the grammar -/

/-- The state tracks the text: the group being read and the groups around it have spelled it. -/
inductive Tracks : Text → State → Prop
  | top {text literal : Text} {args : List Expression} (h : Spells maxNesting text literal args) :
    Tracks text ⟨⟨literal.reverse, args.reverse⟩, []⟩
  | inside {before text literal : Text} {args : List Expression} {parent : Draft} {opened : Nat}
    {around : List (Draft × Nat)} (hp : Tracks before ⟨parent, around⟩)
    (hd : around.length < maxNesting)
    (h : Spells (maxNesting - (around.length + 1)) text literal args) :
    Tracks (before ++ '(' :: text) ⟨⟨literal.reverse, args.reverse⟩, (parent, opened) :: around⟩

theorem Tracks.extend {before : Text} {s : State} (hs : Tracks before s) {text literal : Text}
    {args : List Expression} (h : Spells (maxNesting - s.around.length) text literal args) :
    Tracks (before ++ text) (s.extend literal args) := by
  cases hs with
  | top hb =>
    have ht := Tracks.top (hb.append h)
    rwa [List.reverse_append, List.reverse_append] at ht
  | inside hp hd hb =>
    rename_i opened _
    have ht := @Tracks.inside _ _ _ _ _ opened _ hp hd (hb.append h)
    rw [List.reverse_append, List.reverse_append] at ht
    rw [List.append_assoc]
    exact ht

theorem Tracks.step {before : Text} {s t : State} {index : Nat} {c : Char} (hs : Tracks before s)
    (h : s.step index c = .ok t) : Tracks (before ++ [c]) t := by
  rcases step_cases h with ⟨hc, rfl⟩ | ⟨rfl, hd, rfl⟩ | ⟨parent, opened, around, e, rfl, ha, he, rfl⟩
  · exact hs.extend (.plain hc .nil)
  · exact .inside hs hd .nil
  · cases hs with
    | top => cases ha
    | inside hp hd hb =>
      cases ha
      rw [expression?_eq_ok_iff] at he
      have hroom : maxNesting - around.length = maxNesting - (around.length + 1) + 1 := by omega
      have hg := Spells.group hb he Spells.nil
      rw [← hroom] at hg
      have ht := hp.extend hg
      rw [List.append_assoc]
      exact ht

theorem Tracks.run {before text : Text} {s t : State} {index : Nat} (hs : Tracks before s)
    (h : s.run index text = .ok t) : Tracks (before ++ text) t :=
  run_induction Tracks.step hs h

end State

/-! ## The reader and the grammar -/

/-- A text is read to the end, with no group open there. -/
theorem scan_eq_ok_iff_run {text : Text} {call : Call} :
    scan text = .ok call ↔
      ∃ p : Draft, State.start.run 0 text = .ok ⟨p, []⟩ ∧ p.finish = call := by
  rw [scan, Outcome.bind_eq_ok_iff]
  constructor
  · rintro ⟨⟨p, around⟩, hrun, hfin⟩
    rw [State.finish] at hfin
    split at hfin
    next ha =>
      cases hfin
      obtain rfl : around = [] := List.isEmpty_iff.mp ha
      exact ⟨p, hrun, rfl⟩
    · cases hfin
  · rintro ⟨p, hrun, rfl⟩
    exact ⟨_, hrun, rfl⟩

/-- Where the reader stops in a text that is no call site. -/
inductive Stops (text : Text) : NameFault → Nat → Prop
  | refused {done rest : Text} {c : Char} {s : State} {fault : NameFault} {shown : Nat}
    (ht : text = done ++ c :: rest) (hrun : State.start.run 0 done = .ok s)
    (h : s.Refuses done.length c fault shown) : Stops text fault shown
  | unclosed {s : State} (hrun : State.start.run 0 text = .ok s) (h : s.around ≠ []) :
    Stops text .missingClose text.length

theorem stops_of_scan {text : Text} {fault : NameFault} {shown : Nat}
    (h : scan text = .error (fault, shown)) : Stops text fault shown := by
  rw [scan, Outcome.bind_eq_error_iff] at h
  rcases h with h | ⟨s, hrun, hfin⟩
  · obtain ⟨done, c, rest, s, ht, hrun, hc⟩ := State.refuses_of_run h
    rw [Nat.zero_add] at hc
    exact .refused ht hrun hc
  · rw [State.finish] at hfin
    split at hfin
    · cases hfin
    next ha =>
      cases hfin
      exact .unclosed hrun fun h => ha (List.isEmpty_iff.mpr h)

theorem scan_eq_ok_iff {text : Text} {call : Call} :
    scan text = .ok call ↔
      ∃ literal, Spells maxNesting text literal call.args ∧ call.name = literal.collapse := by
  rw [scan_eq_ok_iff_run]
  constructor
  · rintro ⟨p, hrun, rfl⟩
    have hstart : State.Tracks [] .start := .top .nil
    have ht := hstart.run hrun
    rw [List.nil_append] at ht
    cases ht with
    | top h =>
      rename_i literal args
      refine ⟨literal, ?_, ?_⟩
      · rwa [Draft.finish, List.reverse_reverse]
      · rw [Draft.finish, Draft.text, List.reverse_reverse]
  · rintro ⟨literal, h, hname⟩
    have hrun := State.run_spells h (s := .start) (Nat.le_of_eq (Nat.zero_add _)) 0 []
    rw [List.append_nil] at hrun
    refine ⟨⟨literal.reverse ++ [], call.args.reverse ++ []⟩, hrun, ?_⟩
    rw [Draft.finish, Draft.text, List.append_nil, List.append_nil, List.reverse_reverse,
      List.reverse_reverse, ← hname]

/-- A text that is neither blank nor a number is read as far as the reader comes. -/
theorem read_eq_ok_iff_scan {text : Text} {call : Call} :
    read text = .ok call ↔
      text.isBlank = false ∧ Number.isNumeral text = false ∧ scan text = .ok call := by
  rw [read]
  by_cases hb : text.isBlank = true
  · simp only [hb, if_true]
    exact ⟨fun h => (by cases h), fun h => absurd h.1 (by decide)⟩
  by_cases hn : Number.isNumeral text = true
  · simp only [hb, hn, if_true]
    exact ⟨fun h => (by cases h), fun h => absurd h.2.1 (by decide)⟩
  rw [if_neg hb, if_neg hn, Outcome.mapError_eq_ok_iff]
  exact ⟨fun h => ⟨by simpa using hb, by simpa using hn, h⟩, fun h => h.2.2⟩

theorem read_error_cases {text : Text} {e : NameError} (h : read text = .error e) :
    e = ⟨.blankCall, text, 0⟩ ∨ e = ⟨.numeric, text, 0⟩ ∨
      ∃ fault shown, e = ⟨fault, text, shown⟩ ∧ scan text = .error (fault, shown) := by
  rw [read] at h
  split at h
  · exact Or.inl (Except.error.inj h).symm
  split at h
  · exact Or.inr (Or.inl (Except.error.inj h).symm)
  obtain ⟨⟨fault, shown⟩, hscan, rfl⟩ := Outcome.mapError_eq_error_iff.mp h
  exact Or.inr (Or.inr ⟨fault, shown, rfl, hscan⟩)

/-- A call site is a text of the grammar that is neither blank nor a number. -/
theorem read_eq_ok_iff {text : Text} {call : Call} :
    read text = .ok call ↔
      text.isBlank = false ∧ Number.isNumeral text = false ∧
        ∃ literal, Spells maxNesting text literal call.args ∧ call.name = literal.collapse := by
  rw [read_eq_ok_iff_scan, scan_eq_ok_iff]

/-- A text of the grammar is a call site if its name is not empty and, where it has no groups, is no
number. -/
theorem read_iff_of_spells {text literal : Text} {args : List Expression}
    (hs : Spells maxNesting text literal args) :
    read text = .ok ⟨literal.collapse, args⟩ ↔
      literal.collapse ≠ [] ∧ (args = [] → Number.isNumeral literal.collapse = false) := by
  have hblank : literal.collapse ≠ [] ↔ text.isBlank = false := by
    rw [Ne, Text.collapse_eq_nil_iff, hs.isBlank_eq, Bool.not_eq_true]
  have hnumeral : (args = [] → Number.isNumeral literal.collapse = false) ↔
      Number.isNumeral text = false := by
    rw [Number.isNumeral_collapse]
    by_cases ha : args = []
    · subst ha
      rw [hs.eq_of_args_nil.1]
      exact ⟨fun h => h rfl, fun h _ => h⟩
    · exact ⟨fun _ => Number.isNumeral_of_openParenthesis (hs.openParenthesis_mem ha),
        fun _ h => absurd h ha⟩
  rw [hblank, hnumeral, read_eq_ok_iff]
  exact ⟨fun h => ⟨h.1, h.2.1⟩, fun h => ⟨h.1, h.2, literal, hs, rfl⟩⟩

end Call
end BlockText
