/-
Signatures and the calls of them.

A call of a definition is written like its signature, with an argument in parentheses in the place
of each slot for a value and with nothing in the place of the slots for steps; `Signature.callText`
is this text.  `read_callText` says that it is read as a call of the definition with these
arguments: the two readers make the same name of what stands between the groups.
-/
import BlockText.Proofs.Name.Signature

namespace BlockText

namespace Call

/-! ## Arguments in parentheses -/

/-- The text is one argument with its parentheses. -/
structure IsArgument (text : Text) (e : Expression) : Prop where
  opens : ['('] <+: text
  closes : [')'] <:+ text
  reads : ∃ name, Call.read ('x' :: ' ' :: text) = .ok ⟨name, [e]⟩

/-- What one group in parentheses denotes, with plain text behind it. -/
theorem Spells.group_inv {room : Nat} {text literal : Text} {e : Expression}
    (h : Spells (room + 1) ('(' :: text) literal [e]) :
    ∃ group inner innerArgs rest, text = group ++ ')' :: rest ∧
      Spells room group inner innerArgs ∧ Denotes inner innerArgs e ∧
      ∀ c ∈ rest, isPlain c = true := by
  generalize ht : '(' :: text = t at h
  cases h with
  | plain hc h =>
    cases ht
    exact absurd hc (by decide)
  | group hg he h =>
    cases ht
    exact ⟨_, _, _, _, rfl, hg, he, h.eq_of_args_nil.2⟩

/-- An argument in parentheses is a group that denotes it. -/
theorem IsArgument.exists_group {text : Text} {e : Expression} (h : IsArgument text e) :
    ∃ group inner innerArgs, text = '(' :: (group ++ [')']) ∧
      Spells (maxNesting - 1) group inner innerArgs ∧ Denotes inner innerArgs e := by
  obtain ⟨⟨t, rfl⟩, hclose, name, hr⟩ := h
  obtain ⟨-, -, literal, hs, -⟩ := read_eq_ok_iff.mp hr
  cases hs with
  | plain _ hs =>
    cases hs with
    | plain _ hs =>
      obtain ⟨group, inner, innerArgs, rest, rfl, hg, he, hp⟩ :=
        @Spells.group_inv (maxNesting - 1) _ _ _ hs
      -- the last character is the one that closes the group, since no other is left for it
      have hrest : rest = [] := by
        rcases List.eq_nil_or_concat rest with hrest | ⟨front, c, rfl⟩
        · exact hrest
        · obtain ⟨u, hu⟩ := hclose
          have hlast := congrArg List.getLast? hu
          simp only [List.concat_eq_append, List.singleton_append, List.getLast?_append,
            List.getLast?_cons, List.getLast?_nil, Option.some_or, Option.getD_some,
            Option.getD_none, Option.some.injEq] at hlast
          have hmem : c ∈ front.concat c := by
            rw [List.concat_eq_append]
            exact List.mem_append_right front List.mem_cons_self
          have hc := hp c hmem
          rw [← hlast] at hc
          exact absurd hc (by decide)
      subst hrest
      exact ⟨group, inner, innerArgs, rfl, hg, he⟩

end Call

namespace Signature

/-! ## The text of a call -/

/-- The text of a slot names the type of slots for steps. -/
def takesSteps (slot : Text) : Bool :=
  Text.trim (slot.dropWhile (· != ':')).tail == Category.blockListType

/-- The text with the arguments in the place of the slots for values, where the open slot has this
text so far. -/
def fill : Option Text → List Text → Text → Text
  | _, _, [] => []
  | none, args, c :: text =>
    if c == '(' then fill (some []) args text else c :: fill none args text
  | some slot, args, c :: text =>
    if c == ')' then
      if takesSteps slot then fill none args text else args.headD [] ++ fill none args.tail text
    else fill (some (slot ++ [c])) args text

/-- The signature in the text with arguments in parentheses in the place of the slots for values,
one after another, and without the slots for steps. -/
def callText (text : Text) (args : List Text) : Text := fill none args text

theorem fill_plain {c : Char} (hc : Call.isPlain c = true) (args : List Text) (text : Text) :
    fill none args (c :: text) = c :: fill none args text := by
  obtain ⟨⟨ho, -⟩, -⟩ := Call.isPlain_iff.mp hc
  rw [fill, if_neg (by simpa using ho)]

theorem fill_inner {slot : Text} (hs : ∀ c ∈ slot, c ≠ ')') (before : Text) (args : List Text)
    (text : Text) :
    fill (some before) args (slot ++ ')' :: text) =
      if takesSteps (before ++ slot) then fill none args text
      else args.headD [] ++ fill none args.tail text := by
  induction slot generalizing before with
  | nil => rw [List.nil_append, List.append_nil, fill, if_pos (by decide)]
  | cons c slot ih =>
    have hc : c ≠ ')' := hs c List.mem_cons_self
    rw [List.cons_append, fill, if_neg (by simpa using hc),
      ih fun d hd => hs d (List.mem_cons_of_mem c hd), List.append_assoc, List.singleton_append]

/-- The text of a slot shows the type that the slot has. -/
theorem SpellsSlot.takesSteps_eq {slot : Text} {p : Parameter} (h : SpellsSlot slot p) :
    takesSteps slot = p.isBlockList := by
  cases h with
  | mk hn ht hname htype =>
    rename_i name type
    have hd : (name ++ ':' :: type).dropWhile (· != ':') = ':' :: type := by
      rw [List.dropWhile_append_of_pos fun c hc => by
        simpa using (State.isInner_iff.mp (hn c hc)).2]
      rfl
    rw [takesSteps, hd]
    rfl

theorem SpellsSlot.ne_closeParenthesis {slot : Text} {p : Parameter} (h : SpellsSlot slot p) :
    ∀ c ∈ slot, c ≠ ')' := by
  have hinner : ∀ c, isInner c = true → c ≠ ')' := fun c hc =>
    (Call.isPlain_iff.mp (State.isInner_iff.mp hc).1).1.2
  cases h with
  | mk hn ht hname htype =>
    intro c hc
    rcases List.mem_append.mp hc with hc | hc
    · exact hinner c (hn c hc)
    rcases List.mem_cons.mp hc with rfl | hc
    · decide
    · exact hinner c (ht c hc)

theorem fill_slot {slot : Text} {p : Parameter} (h : SpellsSlot slot p) (args : List Text)
    (text : Text) :
    fill none args ('(' :: (slot ++ ')' :: text)) =
      if p.isBlockList then fill none args text
      else args.headD [] ++ fill none args.tail text := by
  rw [fill, if_pos (by decide), fill_inner h.ne_closeParenthesis, List.nil_append,
    h.takesSteps_eq]

/-- The text of a call spells what is left of the signature, with a seam for each argument. -/
theorem spells_callText {text literal : Text} {params blockLists : List Parameter}
    (h : Spells text literal params blockLists) {args : List Text} {es : List Expression}
    (hargs : List.Forall₂ Call.IsArgument args es) (hlen : args.length = params.length) :
    Call.Spells maxNesting (callText text args) literal es := by
  rw [callText]
  induction h generalizing args es with
  | nil =>
    cases hargs with
    | nil => exact .nil
    | cons => cases hlen
  | plain hc _ ih =>
    rw [fill_plain hc]
    exact .plain hc (ih hargs hlen)
  | value hs hp _ ih =>
    cases hargs with
    | nil => cases hlen
    | cons ha hargs =>
      obtain ⟨group, inner, innerArgs, rfl, hg, he⟩ := ha.exists_group
      rw [fill_slot hs, hp, if_neg (by decide), List.headD_cons, List.tail_cons, List.cons_append,
        List.append_assoc, List.singleton_append]
      exact @Call.Spells.group (maxNesting - 1) _ _ _ _ _ _ _ hg he (ih hargs (Nat.succ.inj hlen))
  | steps hs hp _ ih =>
    rw [fill_slot hs, hp, if_pos rfl]
    exact ih hargs hlen

/-! ## Agreement -/

/-- The call of a definition that is written with these arguments is read as a call of the name of
the definition with these arguments. -/
theorem read_callText {text : Text} {s : Signature} (h : read text = .ok s) {args : List Text}
    {es : List Expression} (hlen : args.length = s.params.length)
    (hargs : List.Forall₂ Call.IsArgument args es) :
    Call.read (callText text args) = .ok ⟨s.name, es⟩ := by
  obtain ⟨literal, hs, hname, hne, hnum⟩ := read_eq_ok_iff.mp h
  have hcall := spells_callText hs hargs hlen
  have hlit : literal.isBlank = false := by
    rw [Bool.eq_false_iff]
    intro hb
    rw [hname, Text.collapse_eq_nil_of_blank hb] at hne
    exact hne rfl
  refine Call.read_eq_ok_iff.mpr ⟨?_, ?_, literal, hcall, hname⟩
  · rw [hcall.isBlank_eq, hlit]
  · by_cases hes : es = []
    · -- without arguments the text is the literal text, which is a number only if the name is
      subst hes
      rw [hcall.eq_of_args_nil.1, ← Number.isNumeral_collapse, ← hname, hnum]
    · exact Number.isNumeral_of_openParenthesis (hcall.openParenthesis_mem hes)

/-- A slot for a value beside one for steps, called with a call in the place of the value. -/
theorem read_callText_nested :
    ∃ s, read
        ['a', ' ', '(', 'n', ':', 'N', ')', ' ', '(', 's', ':', 'B', 'l', 'o', 'c', 'k', 'L', 'i',
        's', 't', ')', ' ', 'b'] = .ok s ∧
      Call.read
          (callText
            ['a', ' ', '(', 'n', ':', 'N', ')', ' ', '(', 's', ':', 'B', 'l', 'o', 'c', 'k', 'L',
            'i', 's', 't', ')', ' ', 'b']
            [['(', 'd', ' ', '(', 'e', ')', ')']]) =
        .ok ⟨s.name, [.call ['d', ' ', '(', ')'] [.call ['e'] []]]⟩ ∧
      s.name = ['a', ' ', '(', ')', ' ', 'b'] := by
  refine ⟨_, rfl, read_callText rfl rfl (.cons ?_ .nil), rfl⟩
  exact ⟨⟨_, rfl⟩, ⟨['(', 'd', ' ', '(', 'e', ')'], rfl⟩, ⟨_, rfl⟩⟩

end Signature
end BlockText
