/-
Sources that are cut off.

What is open after some lines is known by its first lines, `State.headers`.  A line leaves them as
they are, opens one construct, or closes the innermost one (`headers_of_move`), so the constructs of
a source are nested like brackets.  `Construct` says with numbers of lines where one opens and where
it closes.

`Document.truncated` says what is left of a good source that ends early: a document whose contents
are the first contents of the whole one, or the error of the innermost construct that is cut.  No
construct is kept in part.
-/
import Mathlib.Data.Nat.Find
import BlockText.Proofs.Reading.Online

namespace BlockText

/-! ## What is open -/

namespace State

/-- The first lines of the open constructs, the innermost one first. -/
def headers (s : State) : List Line :=
  (s.verbatim.map (·.1)).toList ++ s.frames.map (·.header)

theorem innermost?_map_fst (s : State) : s.innermost?.map (·.1) = s.headers.head? := by
  rw [innermost?, headers]
  cases s.verbatim with
  | none =>
    show (s.frames.head?.map _).map _ = (s.frames.map (·.header)).head?
    rw [List.head?_map, Option.map_map]
    rfl
  | some p => rfl

theorem headers_add (s : State) (node : Node) : (s.add node).headers = s.headers := by
  rw [headers, headers, add]
  cases s.frames <;> rfl

theorem headers_settle (s : State) (node : Option Node) : (s.settle node).headers = s.headers := by
  cases node with
  | none => rfl
  | some node => exact headers_add s node

/-- What a line does to the open constructs. -/
theorem headers_of_move {strict : Bool} {s t : State} {line : Line} (h : Move strict s line t) :
    t.headers = s.headers ∨ t.headers = line :: s.headers ∨ ∃ l, s.headers = l :: t.headers := by
  cases h with
  | resumed hv =>
    rename_i header v
    have hs : s.headers = header :: s.frames.map (·.header) := by
      rw [headers, hv]
      rfl
    cases v.take line with
    | inl v' =>
      left
      rw [hs]
      rfl
    | inr node =>
      refine Or.inr (Or.inr ⟨header, ?_⟩)
      rw [hs, resume, headers_add]
      rfl
  | closed hv hf hc hn =>
    rename_i f rest node
    refine Or.inr (Or.inr ⟨f.header, ?_⟩)
    rw [headers_settle, headers, headers, hv, hf]
    rfl
  | blank => exact Or.inl rfl
  | comment hl hc hp =>
    cases Comment.start line.trimmed with
    | inl v =>
      refine Or.inr (Or.inl ?_)
      rw [headers, headers, hl.verbatim]
      rfl
    | inr c =>
      refine Or.inl ?_
      show (({ s with verbatim := none } : State).add _).headers = _
      rw [headers_add, headers, headers, hl.verbatim]
  | called hl hc hp hr => exact Or.inl (headers_add s _)
  | escaped hl hc hp hr =>
    refine Or.inr (Or.inl ?_)
    rw [headers, headers, hl.verbatim]
    rfl
  | opened hl hc hp ho =>
    refine Or.inr (Or.inl ?_)
    rw [headers, headers, push, hl.verbatim]
    rfl

/-! ## What is finished -/

/-- Comments and units stay, and more are put behind them. -/
structure Grows (b c : Contents) : Prop where
  comments : b.comments <+: c.comments
  units : b.units <+: c.units

theorem Grows.refl (b : Contents) : Grows b b := ⟨List.prefix_refl _, List.prefix_refl _⟩

theorem Grows.trans {a b c : Contents} (h : Grows a b) (h' : Grows b c) : Grows a c :=
  ⟨h.comments.trans h'.comments, h.units.trans h'.units⟩

theorem grows_add (s : State) (node : Node) : Grows s.top (s.add node).top := by
  rw [add]
  cases s.frames with
  | cons f rest => exact Grows.refl _
  | nil =>
    cases node with
    | comment c => exact ⟨List.prefix_append _ _, List.prefix_refl _⟩
    | unit u => exact ⟨List.prefix_refl _, List.prefix_append _ _⟩
    | _ => exact ⟨List.prefix_refl _, List.prefix_refl _⟩

theorem grows_resume (s : State) (header : Line) (r : Verbatim ⊕ Node) :
    Grows s.top (s.resume header r).top := by
  cases r with
  | inl v => exact Grows.refl _
  | inr node => exact grows_add { s with verbatim := none } node

theorem grows_of_move {strict : Bool} {s t : State} {line : Line} (h : Move strict s line t) :
    Grows s.top t.top := by
  cases h with
  | resumed => exact grows_resume s _ _
  | closed =>
    rename_i rest node hv hf hc hn
    cases node with
    | none => exact Grows.refl _
    | some node => exact grows_add { s with frames := rest } node
  | blank => exact Grows.refl _
  | comment => exact grows_resume s _ _
  | called => exact grows_add s _
  | escaped => exact Grows.refl _
  | opened => exact Grows.refl _

/-- What is finished outside all constructs stays while more is read. -/
theorem grows_of_run {strict : Bool} {s t : State} {lines : List Line}
    (h : s.run strict lines = .ok t) : Grows s.top t.top :=
  run_induction (P := fun t => Grows s.top t.top) (fun _ _ hs hm => hs.trans (grows_of_move hm))
    (Grows.refl _) h

end State

namespace Document

/-! ## Constructs by their lines -/

/-- The first lines of the constructs that are open behind the first `k` lines of a source, the
innermost one first. -/
def openAfter (strict : Bool) (source : Text) (k : Nat) : List Line :=
  match State.start.run strict ((Line.ofSource source).take k) with
  | .ok s => s.headers
  | .error _ => []

/-- A construct opens on line `i` and closes on line `j`: more is open behind each line from `i` up
to `j` than before line `i`, and no more behind line `j`. -/
structure Construct (strict : Bool) (source : Text) (i j : Nat) : Prop where
  numbered : 1 ≤ i
  later : i < j
  within : j ≤ (Line.ofSource source).length
  inside : ∀ m, i ≤ m → m < j →
    (openAfter strict source (i - 1)).length < (openAfter strict source m).length
  closes : (openAfter strict source j).length ≤ (openAfter strict source (i - 1)).length

/-- Of two constructs around the end of line `k`, the one whose line is the last of those that are
open there is in the other one. -/
theorem Construct.innermost {strict : Bool} {source : Text} {i j i' j' k : Nat}
    (h : Construct strict source i j) (hik : i ≤ k) (hkj : k < j)
    (htop : (openAfter strict source k).length = (openAfter strict source (i - 1)).length + 1)
    (h' : Construct strict source i' j') (hik' : i' ≤ k) (hkj' : k < j') : i' ≤ i ∧ j ≤ j' := by
  have hfirst : i' ≤ i := by
    by_contra hlt
    have hin := h.inside (i' - 1) (by omega) (by omega)
    have hout := h'.inside k hik' hkj'
    omega
  refine ⟨hfirst, ?_⟩
  by_contra hlt
  have hin := h.inside j' (by omega) (by omega)
  have hout := h'.closes
  rcases Nat.eq_or_lt_of_le hfirst with heq | hless
  · rw [heq] at hout
    omega
  · have hbefore := h'.inside (i - 1) (by omega) (by omega)
    omega

section good

variable {strict : Bool} {source : Text} {d : Document}

/-- Every beginning of a good source can be read. -/
theorem exists_run_take (h : parse strict source = .ok d) (k : Nat) :
    ∃ s, State.start.run strict ((Line.ofSource source).take k) = .ok s ∧
      ∃ t, s.run strict ((Line.ofSource source).drop k) = .ok t ∧ t.finish = .ok d := by
  obtain ⟨t, hrun, hfin⟩ := parse_eq_ok_iff.mp h
  rw [← List.take_append_drop k (Line.ofSource source), State.run_append,
    Outcome.bind_eq_ok_iff] at hrun
  obtain ⟨s, hs, hrest⟩ := hrun
  exact ⟨s, hs, t, hrest, hfin⟩

theorem openAfter_eq {k : Nat} {s : State}
    (h : State.start.run strict ((Line.ofSource source).take k) = .ok s) :
    openAfter strict source k = s.headers := by
  rw [openAfter, h]

theorem openAfter_zero (strict : Bool) (source : Text) : openAfter strict source 0 = [] := rfl

/-- What one line does to the open constructs of a good source. -/
theorem openAfter_succ (h : parse strict source = .ok d) {k : Nat} {line : Line}
    (hline : (Line.ofSource source)[k]? = some line) :
    openAfter strict source (k + 1) = openAfter strict source k ∨
      openAfter strict source (k + 1) = line :: openAfter strict source k ∨
      ∃ l, openAfter strict source k = l :: openAfter strict source (k + 1) := by
  obtain ⟨s, hs, -⟩ := exists_run_take h k
  obtain ⟨t, ht, -⟩ := exists_run_take h (k + 1)
  have hstep : s.step strict line = .ok t := by
    rw [List.take_add_one, hline, State.run_append, hs] at ht
    obtain ⟨u, hu, hnil⟩ := Outcome.bind_eq_ok_iff.mp (show s.step strict line >>= _ = _ from ht)
    cases hnil
    exact hu
  rw [openAfter_eq hs, openAfter_eq ht]
  exact State.headers_of_move (State.move_of_step hstep)

/-- Nothing is open at the end of a good source. -/
theorem openAfter_length (h : parse strict source = .ok d) :
    openAfter strict source (Line.ofSource source).length = [] := by
  obtain ⟨t, hrun, hfin⟩ := parse_eq_ok_iff.mp h
  obtain ⟨hv, hf, -⟩ := State.finish_eq_ok_iff.mp hfin
  rw [openAfter_eq (s := t) (by rw [List.take_length]; exact hrun), State.headers, hv, hf]
  rfl

/-- The innermost construct that is open opened on a line behind which it stayed open. -/
theorem exists_opening_line (h : parse strict source = .ok d) {k : Nat}
    (hk : k ≤ (Line.ofSource source).length) {header : Line} {rest : List Line}
    (hopen : openAfter strict source k = header :: rest) :
    ∃ i, i < k ∧ (Line.ofSource source)[i]? = some header ∧
      openAfter strict source i = rest ∧
      ∀ m, i < m → m ≤ k → rest.length < (openAfter strict source m).length := by
  -- A closing line goes back to the line that opened what it closed, and from there to the one
  -- that opened what is innermost now, so the induction is on all smaller numbers of lines.
  induction k using Nat.strong_induction_on generalizing header rest with
  | _ k ih =>
    cases k with
    | zero =>
      rw [openAfter_zero] at hopen
      cases hopen
    | succ k =>
      obtain ⟨line, hline⟩ : ∃ line, (Line.ofSource source)[k]? = some line :=
        ⟨_, List.getElem?_eq_getElem (by omega)⟩
      have hlast : ∀ {i}, (∀ m, i < m → m ≤ k → rest.length < (openAfter strict source m).length) →
          ∀ m, i < m → m ≤ k + 1 → rest.length < (openAfter strict source m).length := by
        intro i hm m him hmk
        rcases Nat.eq_or_lt_of_le hmk with rfl | hlt
        · rw [hopen]
          exact Nat.lt_succ_self _
        · exact hm m him (by omega)
      rcases openAfter_succ h hline with hsame | hnew | ⟨l, hclosed⟩
      · obtain ⟨i, hi, hhead, hrest, hm⟩ := ih k (by omega) (by omega) (hsame.symm.trans hopen)
        exact ⟨i, by omega, hhead, hrest, hlast hm⟩
      · rw [hopen] at hnew
        obtain ⟨rfl, hrest⟩ := List.cons.inj hnew
        exact ⟨k, by omega, hline, hrest.symm, hlast (fun m hkm hmk => absurd hmk (by omega))⟩
      · rw [hopen] at hclosed
        obtain ⟨p, hp, -, hrest, hm⟩ := ih k (by omega) (by omega) hclosed
        obtain ⟨i, hi, hhead, hrest', hm'⟩ := ih p (by omega) (by omega) hrest
        refine ⟨i, by omega, hhead, hrest', hlast fun m him hmk => ?_⟩
        by_cases hpm : m ≤ p
        · exact hm' m him hpm
        · have := hm m (by omega) hmk
          rw [List.length_cons] at this
          omega

/-- What is open behind line `k` of a good source is a construct that opens on line `k` or before it
and closes behind it, and the innermost one of these. -/
theorem exists_construct (h : parse strict source = .ok d) {k : Nat}
    (hk : k < (Line.ofSource source).length) {header : Line} {rest : List Line}
    (hopen : openAfter strict source k = header :: rest) :
    ∃ i j, (Line.ofSource source)[i - 1]? = some header ∧ Construct strict source i j ∧ i ≤ k ∧
      k < j ∧ ∀ i' j', Construct strict source i' j' → i' ≤ k → k < j' → i' ≤ i ∧ j ≤ j' := by
  obtain ⟨i, hik, hheader, hrest, hinside⟩ := exists_opening_line h (Nat.le_of_lt hk) hopen
  -- The construct closes on the first line behind which as little is open as before it.
  have hclose : ∃ j, k < j ∧ (openAfter strict source j).length ≤ rest.length := by
    refine ⟨_, hk, ?_⟩
    rw [openAfter_length h]
    exact Nat.zero_le _
  classical
  have hkj := (Nat.find_spec hclose).1
  have hleast : ∀ m, k < m → m < Nat.find hclose →
      rest.length < (openAfter strict source m).length := by
    intro m hkm hmj
    by_contra hle
    exact Nat.find_min hclose hmj ⟨hkm, by omega⟩
  have hc : Construct strict source (i + 1) (Nat.find hclose) := by
    refine ⟨by omega, by omega, ?_, fun m him hmj => ?_, ?_⟩
    · refine Nat.find_min' hclose ⟨hk, ?_⟩
      rw [openAfter_length h]
      exact Nat.zero_le _
    · rw [Nat.add_sub_cancel, hrest]
      by_cases hmk : m ≤ k
      · exact hinside m him hmk
      · exact hleast m (by omega) hmj
    · rw [Nat.add_sub_cancel, hrest]
      exact (Nat.find_spec hclose).2
  refine ⟨i + 1, Nat.find hclose, hheader, hc, hik, hkj, fun i' j' hc' hik' hkj' => ?_⟩
  refine hc.innermost hik hkj ?_ hc' hik' hkj'
  rw [Nat.add_sub_cancel, hrest, hopen, List.length_cons]

/-! ## Sources that are cut off -/

/-- A good source that is cut off behind some of its lines gives the first contents of the whole
document, or the error of the innermost construct that is cut. -/
theorem truncated (h : parse strict source = .ok d) {k : Nat}
    (hk : k < (Line.ofSource source).length) :
    (∃ d', parse strict (source.firstLines k) = .ok d' ∧ d'.units <+: d.units ∧
        d'.comments <+: d.comments) ∨
      ∃ e i j, parse strict (source.firstLines k) = .error e ∧ e.Unterminated ∧
        e.lineNumber = i ∧ (Line.ofSource source)[i - 1]? = some e.place ∧
        Construct strict source i j ∧ i ≤ k ∧ k < j ∧
        ∀ i' j', Construct strict source i' j' → i' ≤ k → k < j' → i' ≤ i ∧ j ≤ j' := by
  rcases Nat.eq_zero_or_pos k with rfl | hpos
  · refine Or.inl ⟨⟨[], []⟩, ?_, List.nil_prefix, List.nil_prefix⟩
    rw [Text.firstLines_zero, parse_nil]
  obtain ⟨s, hs, t, ht, hfin⟩ := exists_run_take h k
  have hparse : parse strict (source.firstLines k) = s.finish := by
    rw [parse_firstLines strict hpos, hs]
    rfl
  rw [hparse]
  cases hend : s.finish with
  | ok d' =>
    obtain ⟨-, -, rfl⟩ := State.finish_eq_ok_iff.mp hend
    obtain ⟨-, -, rfl⟩ := State.finish_eq_ok_iff.mp hfin
    have hgrows := State.grows_of_run ht
    exact Or.inl ⟨_, rfl, hgrows.units, hgrows.comments⟩
  | error e =>
    right
    obtain ⟨header, category, hinner, rfl⟩ := State.finish_eq_error_iff.mp hend
    have hopen : ∃ rest, openAfter strict source k = header :: rest := by
      rw [openAfter_eq hs]
      have hhead := State.innermost?_map_fst s
      rw [hinner] at hhead
      exact ⟨_, (List.eq_cons_of_mem_head? hhead.symm)⟩
    obtain ⟨rest, hopen⟩ := hopen
    obtain ⟨i, j, hheader, hc, hik, hkj, hmin⟩ := exists_construct h hk hopen
    refine ⟨_, i, j, rfl, ParseError.unterminated_iff.mpr ⟨_, _, rfl⟩, ?_, hheader, hc, hik, hkj,
      hmin⟩
    show header.number = i
    have hnumber := Line.number_of_getElem? hheader
    have hpos := hc.numbered
    omega

end good

/-- Two lines of a unit with a stage in it are refused for the stage, which is the innermost construct
that they cut. -/
theorem truncated_stage :
    ∃ (source : Text) (d : Document) (e : ParseError) (j : Nat), source = ['u', 'n', 'i', 't', ' ',
        'A', ' ', '[', '\n', 's', 't', 'a', 'g', 'e', ' ', '[', '\n', ']', '\n', ']'] ∧
      parse true source = .ok d ∧ 2 < (Line.ofSource source).length ∧
      parse true (source.firstLines 2) = .error e ∧ e.Unterminated ∧ e.lineNumber = 2 ∧
      (Line.ofSource source)[1]? = some e.place ∧ Construct true source 2 j ∧ 2 < j ∧
      ∀ i' j', Construct true source i' j' → i' ≤ 2 → 2 < j' → i' ≤ 2 ∧ j ≤ j' := by
  let source : Text := ['u', 'n', 'i', 't', ' ', 'A', ' ', '[', '\n', 's', 't', 'a', 'g', 'e', ' ',
    '[', '\n', ']', '\n', ']']
  obtain ⟨d, hd⟩ : ∃ d, parse true source = .ok d := ⟨_, rfl⟩
  have hk : 2 < (Line.ofSource source).length := by decide
  have hcut : parse true (source.firstLines 2) =
      .error (.line (.unterminated .stage) ⟨2, 9, ['s', 't', 'a', 'g', 'e', ' ', '[']⟩) := rfl
  rcases truncated hd hk with ⟨d', hd', -⟩ | ⟨e, i, j, he, hu, hi, hplace, hc, -, hkj, hmin⟩
  · rw [hcut] at hd'
    cases hd'
  · obtain rfl : i = 2 := by
      rw [hcut] at he
      cases he
      exact hi.symm
    exact ⟨source, d, e, j, rfl, hd, hk, he, hu, hi, hplace, hc, hkj, hmin⟩

end Document
end BlockText
