/-
Printed signatures.

A signature is printed as its name with the slots for values in the place of the seams, and the slots
for steps behind it.  `Signature.read_print` says that it is read as the signature.

A header of a context or a trigger shows at its slots that it is none of a block.  The test looks at
the line and not at what was read, and `Category.hasBlockList_spells` says what it sees: whether some
slot for steps has a name without delimiters.  This is the same for the printed header.
-/
import BlockText.Proofs.Print.Name

namespace BlockText

/-! ## Printed slots -/

/-- A slot as it stands between its parentheses. -/
def Parameter.print (p : Parameter) : Text := p.name ++ ':' :: p.type

/-- The slots for steps, one behind another. -/
def Signature.blockListText : List Parameter → Text
  | [] => []
  | p :: ps => '(' :: (p.print ++ ')' :: blockListText ps)

def Signature.print (s : Signature) : Text :=
  Text.fill s.name (s.params.map Parameter.print) ++ blockListText s.blockLists

namespace Signature

theorem SpellsSlot.print {slot : Text} {p : Parameter} (h : SpellsSlot slot p) :
    SpellsSlot p.print p := by
  cases h with
  | @mk name type hn ht hname htype =>
    have hs := SpellsSlot.mk (fun c hc => hn c (Text.mem_of_mem_trim hc))
      (fun c hc => ht c (Text.mem_of_mem_trim hc)) (by rwa [Text.trim_trim])
      (by rwa [Text.trim_trim])
    rw [Text.trim_trim, Text.trim_trim] at hs
    exact hs

theorem Spells.params {t l : Text} {ps bs : List Parameter} (h : Spells t l ps bs) :
    ∀ p ∈ ps, SpellsSlot p.print p ∧ p.isBlockList = false := by
  induction h with
  | nil => exact fun p hp => absurd hp List.not_mem_nil
  | plain _ _ ih => exact ih
  | value hs hp _ ih =>
    intro q hq
    rcases List.mem_cons.mp hq with rfl | hq
    · exact ⟨hs.print, hp⟩
    · exact ih q hq
  | steps _ _ _ ih => exact ih

theorem Spells.blockLists {t l : Text} {ps bs : List Parameter} (h : Spells t l ps bs) :
    ∀ p ∈ bs, SpellsSlot p.print p ∧ p.isBlockList = true := by
  induction h with
  | nil => exact fun p hp => absurd hp List.not_mem_nil
  | plain _ _ ih => exact ih
  | value _ _ _ ih => exact ih
  | steps hs hp _ ih =>
    intro q hq
    rcases List.mem_cons.mp hq with rfl | hq
    · exact ⟨hs.print, hp⟩
    · exact ih q hq

theorem spells_fill {t : Text} {k : Nat} (h : Seamed t k) {ps : List Parameter}
    (hlen : ps.length = k) (hp : ∀ p ∈ ps, SpellsSlot p.print p ∧ p.isBlockList = false) :
    Spells (Text.fill t (ps.map Parameter.print)) t ps [] := by
  induction h generalizing ps with
  | nil =>
    rw [List.length_eq_zero_iff.mp hlen]
    exact .nil
  | plain hc _ ih =>
    rw [Text.fill_plain hc]
    exact .plain hc (ih hlen hp)
  | seam _ ih =>
    cases ps with
    | nil => cases hlen
    | cons p ps =>
      obtain ⟨hs, hb⟩ := hp p List.mem_cons_self
      rw [List.map_cons, Text.fill_seam]
      exact .value hs hb (ih (Nat.succ.inj hlen) fun q hq => hp q (List.mem_cons_of_mem p hq))

theorem spells_blockListText {bs : List Parameter}
    (hb : ∀ p ∈ bs, SpellsSlot p.print p ∧ p.isBlockList = true) :
    Spells (blockListText bs) [] [] bs := by
  induction bs with
  | nil => exact .nil
  | cons p bs ih =>
    obtain ⟨hs, hp⟩ := hb p List.mem_cons_self
    exact .steps hs hp (ih fun q hq => hb q (List.mem_cons_of_mem p hq))

section print

variable {text : Text} {s : Signature}

theorem seamed_name (h : read text = .ok s) : Seamed s.name s.params.length := by
  obtain ⟨literal, hs, hname, -⟩ := read_eq_ok_iff.mp h
  rw [hname]
  exact hs.seamed.collapse

/-- What is printed spells the signature. -/
theorem spells_print (h : read text = .ok s) : Spells s.print s.name s.params s.blockLists := by
  obtain ⟨literal, hs, -⟩ := read_eq_ok_iff.mp h
  have hprint := (spells_fill (seamed_name h) rfl hs.params).append
    (spells_blockListText hs.blockLists)
  rwa [List.append_nil, List.append_nil, List.nil_append] at hprint

/-- A printed signature is read as the signature. -/
theorem read_print (h : read text = .ok s) : read s.print = .ok s := by
  obtain ⟨literal, -, hname, hne, hnum⟩ := read_eq_ok_iff.mp h
  refine read_eq_ok_iff.mpr ⟨s.name, spells_print h, ?_, hne, hnum⟩
  rw [hname, Text.collapse_collapse]

theorem getLast?_blockListText (bs : List Parameter) :
    ∀ c ∈ (blockListText bs).getLast?, c = ')' := by
  induction bs with
  | nil => exact fun c hc => absurd hc (by simp [blockListText])
  | cons p bs ih =>
    intro c hc
    rw [blockListText, List.getLast?_cons, List.getLast?_append, List.getLast?_cons] at hc
    cases hl : (blockListText bs).getLast? with
    | none =>
      rw [hl] at hc
      exact (Option.some.inj hc).symm
    | some d =>
      rw [hl] at hc
      exact ih c (by rw [hl]; exact hc)

theorem trimmed_print (h : read text = .ok s) : Text.Trimmed s.print := by
  obtain ⟨literal, -, hname, hne, -⟩ := read_eq_ok_iff.mp h
  have hfill : Text.Trimmed (Text.fill s.name (s.params.map Parameter.print)) := by
    refine Text.trimmed_fill (seamed_name h) (List.length_map _) ?_
    rw [hname]
    exact Text.trimmed_collapse literal
  obtain ⟨c, hc⟩ : ∃ c, (Text.fill s.name (s.params.map Parameter.print)).head? = some c := by
    rw [Text.head?_fill (seamed_name h)]
    cases hn : s.name with
    | nil => exact absurd hn hne
    | cons c t => exact ⟨c, rfl⟩
  refine ⟨fun d hd => ?_, fun d hd => ?_⟩
  · rw [print, List.head?_append, hc] at hd
    exact hfill.head d (hc ▸ hd)
  · rw [print, List.getLast?_append] at hd
    cases hl : (blockListText s.blockLists).getLast? with
    | none =>
      rw [hl] at hd
      exact hfill.last d hd
    | some e =>
      rw [hl] at hd
      rw [getLast?_blockListText s.blockLists d (by rw [hl]; exact hd)]
      decide

end print

/-! ## Line feeds -/

theorem SpellsSlot.feedless {slot : Text} {p : Parameter} (h : SpellsSlot slot p)
    (hf : '\n' ∉ slot) : '\n' ∉ p.print := by
  cases h with
  | mk hn ht =>
    rw [List.mem_append, List.mem_cons, not_or, not_or] at hf
    rw [Parameter.print, List.mem_append, List.mem_cons, not_or, not_or]
    exact ⟨fun hc => hf.1 (Text.mem_of_mem_trim hc), by decide,
      fun hc => hf.2.2 (Text.mem_of_mem_trim hc)⟩

theorem Spells.feedless {t l : Text} {ps bs : List Parameter} (h : Spells t l ps bs)
    (hf : '\n' ∉ t) : (∀ p ∈ ps, '\n' ∉ p.print) ∧ ∀ p ∈ bs, '\n' ∉ p.print := by
  induction h with
  | nil => exact ⟨fun p hp => absurd hp List.not_mem_nil, fun p hp => absurd hp List.not_mem_nil⟩
  | plain _ _ ih => exact ih fun hc => hf (List.mem_cons_of_mem _ hc)
  | value hs _ _ ih =>
    rw [List.mem_cons, List.mem_append, List.mem_cons, not_or, not_or, not_or] at hf
    obtain ⟨hps, hbs⟩ := ih hf.2.2.2
    refine ⟨fun q hq => ?_, hbs⟩
    rcases List.mem_cons.mp hq with rfl | hq
    · exact hs.feedless hf.2.1
    · exact hps q hq
  | steps hs _ _ ih =>
    rw [List.mem_cons, List.mem_append, List.mem_cons, not_or, not_or, not_or] at hf
    obtain ⟨hps, hbs⟩ := ih hf.2.2.2
    refine ⟨hps, fun q hq => ?_⟩
    rcases List.mem_cons.mp hq with rfl | hq
    · exact hs.feedless hf.2.1
    · exact hbs q hq

theorem feedless_blockListText {bs : List Parameter} (h : ∀ p ∈ bs, '\n' ∉ p.print) :
    '\n' ∉ blockListText bs := by
  induction bs with
  | nil => exact List.not_mem_nil
  | cons p bs ih =>
    rw [blockListText, List.mem_cons, List.mem_append, List.mem_cons, not_or, not_or, not_or]
    exact ⟨by decide, h p List.mem_cons_self, by decide,
      ih fun q hq => h q (List.mem_cons_of_mem p hq)⟩

theorem feedless_print {text : Text} {s : Signature} (h : read text = .ok s)
    (hf : '\n' ∉ text) : '\n' ∉ s.print := by
  obtain ⟨literal, hs, hname, -⟩ := read_eq_ok_iff.mp h
  obtain ⟨hps, hbs⟩ := hs.feedless hf
  rw [print, List.mem_append, not_or]
  refine ⟨fun hc => ?_, feedless_blockListText hbs⟩
  rcases Text.mem_fill hc with hc | ⟨group, hg, hc⟩
  · rw [hname] at hc
    rcases Text.mem_collapse hc with h | ⟨-, h⟩ <;> revert h <;> decide
  · obtain ⟨p, hp, rfl⟩ := List.mem_map.mp hg
    exact hps p hp hc

/-! ## The slots that a header shows -/

/-- The slot shows that it takes steps, to a reader that looks for its type only. -/
def isShown (p : Parameter) : Bool :=
  p.isBlockList && p.name.all fun c => !Category.isDelimiter c

theorem all_trim (t : Text) :
    (t.trim.all fun c => !Category.isDelimiter c) = t.all fun c => !Category.isDelimiter c := by
  obtain ⟨a, b, ha, hb, ht⟩ := Text.exists_trim t
  have hblank : ∀ u : Text, u.isBlank = true → (u.all fun c => !Category.isDelimiter c) = true := by
    intro u hu
    refine List.all_eq_true.mpr fun c hc => ?_
    rw [Category.isDelimiter_of_isSpace (Text.isBlank_iff.mp hu c hc)]
    rfl
  have hall := congrArg (fun u : Text => u.all fun c => !Category.isDelimiter c) ht
  simp only [List.all_append, hblank a ha, hblank b hb, Bool.true_and, Bool.and_true] at hall
  exact hall.symm

theorem closeParenthesis_not_mem {t : Text} (h : ∀ c ∈ t, isInner c = true) : ')' ∉ t := by
  intro hc
  exact absurd (h _ hc) (by decide)

/-- The type that stands before the closing parenthesis is that of steps, white space apart. -/
theorem startsWith_blockListType {type : Text} (ht : ∀ c ∈ type, isInner c = true)
    (hne : type.trim ≠ []) (rest : Text) :
    (match Category.blockListType.isPrefixOf? (Text.trimStart (type ++ ')' :: rest)) with
      | some r => [')'].isPrefixOf (Text.trimStart r)
      | none => false) = (type.trim == Category.blockListType) := by
  obtain ⟨a, b, ha, hb, htype⟩ := Text.exists_trim type
  have hmem : ∀ c ∈ type.trim ++ b, c ∈ type := by
    intro c hc
    rw [htype, List.append_assoc]
    exact List.mem_append_right a hc
  have hstart : Text.trimStart (type ++ ')' :: rest) = type.trim ++ (b ++ ')' :: rest) := by
    have heq : type ++ ')' :: rest = a ++ (type.trim ++ (b ++ ')' :: rest)) := by
      rw [← List.append_assoc, ← List.append_assoc, ← htype]
    rw [heq, Text.trimStart_append_of_blank ha]
    exact Text.trimStart_of_head (Text.forall_head_append hne (Text.trimmed_trim type).head _)
  rw [hstart]
  by_cases heq : type.trim = Category.blockListType
  · rw [heq, List.isPrefixOf?_eq_some_iff_append_eq.mpr rfl, beq_self_eq_true]
    simp only [Text.trimStart_append_of_blank hb]
    rfl
  · rw [beq_eq_false_iff_ne.mpr heq]
    split
    next r hr =>
      rw [Bool.eq_false_iff]
      intro hp
      -- both texts go on blank to the first closing parenthesis
      obtain ⟨u, hu⟩ := List.isPrefixOf_iff_prefix.mp hp
      obtain ⟨b', hb', hrest⟩ := Text.exists_trimStart r
      have hr := List.isPrefixOf?_eq_some_iff_append_eq.mp hr
      rw [hrest, ← hu, ← List.append_assoc, ← List.append_assoc] at hr
      have hleft : ')' ∉ Category.blockListType ++ b' := by
        rw [List.mem_append, not_or]
        refine ⟨by decide, fun hc => ?_⟩
        exact absurd (Text.isBlank_iff.mp hb' _ hc) (by decide)
      have hright : ')' ∉ type.trim ++ b := fun hc =>
        closeParenthesis_not_mem ht (hmem _ hc)
      rw [List.append_assoc, ← List.append_assoc type.trim b] at hr
      have htrim := congrArg Text.trim (Text.append_cons_inj hleft hright hr).1
      rw [Text.trim_append_of_blank _ hb', Text.trim_append_of_blank _ hb, Text.trim_trim] at htrim
      refine heq (htrim.symm.trans ?_)
      decide
    · rfl

theorem startsBlockList_slot {slot : Text} {p : Parameter} (h : SpellsSlot slot p) (rest : Text) :
    Category.startsBlockList (slot ++ ')' :: rest) = isShown p := by
  cases h with
  | @mk name type hn ht hname htype =>
    have hne : name ≠ [] := by
      rintro rfl
      exact hname rfl
    rw [isShown, Parameter.isBlockList, all_trim, Category.startsBlockList,
      List.span_eq_takeWhile_dropWhile, List.append_assoc]
    by_cases hall : (name.all fun c => !Category.isDelimiter c) = true
    · have hpos := List.all_eq_true.mp hall
      rw [List.takeWhile_append_of_pos hpos, List.dropWhile_append_of_pos hpos, hall,
        Bool.and_true]
      have htake : (name ++ List.takeWhile (fun c => !Category.isDelimiter c)
          (':' :: type ++ ')' :: rest)).isEmpty = false := by
        cases name with
        | nil => exact absurd rfl hne
        | cons c name => rfl
      simp only [htake, Bool.not_false, Bool.true_and]
      exact startsWith_blockListType ht htype rest
    · -- a delimiter in the name is no colon, so the test fails there
      have hdrop : ∃ c u, List.dropWhile (fun c => !Category.isDelimiter c)
          (name ++ (':' :: type ++ ')' :: rest)) = c :: u ∧ c ≠ ':' := by
        have hcons : List.dropWhile (fun c => !Category.isDelimiter c) name ≠ [] := by
          intro hnil
          exact hall (List.all_eq_true.mpr (List.dropWhile_eq_nil_iff.mp hnil))
        obtain ⟨c, u, hc⟩ := List.exists_cons_of_ne_nil hcons
        have hmem : c ∈ name := (List.dropWhile_suffix _).subset (hc ▸ List.mem_cons_self)
        refine ⟨c, u ++ (':' :: type ++ ')' :: rest), ?_, (State.isInner_iff.mp (hn c hmem)).2⟩
        rw [List.dropWhile_append, hc]
        rfl
      obtain ⟨c, u, hc, hcolon⟩ := hdrop
      rw [hc, eq_false_of_ne_true hall, Bool.and_false]
      simp only
      split
      next type' htype' =>
        obtain ⟨rfl, -⟩ := List.cons.inj htype'
        exact absurd rfl hcolon
      · exact Bool.and_false _

theorem hasBlockList_append {a : Text} (h : '(' ∉ a) (t : Text) :
    Category.hasBlockList (a ++ t) = Category.hasBlockList t := by
  induction a with
  | nil => rfl
  | cons c a ih =>
    rw [List.mem_cons, not_or] at h
    rw [List.cons_append, Category.hasBlockList, beq_eq_false_iff_ne.mpr (Ne.symm h.1),
      Bool.false_and, Bool.false_or, ih h.2]

theorem openParenthesis_not_mem {slot : Text} {p : Parameter} (h : SpellsSlot slot p) :
    '(' ∉ slot := by
  cases h with
  | mk hn ht =>
    rw [List.mem_append, List.mem_cons, not_or, not_or]
    exact ⟨fun hc => absurd (hn _ hc) (by decide), by decide,
      fun hc => absurd (ht _ hc) (by decide)⟩

/-- The test of a line sees the slots for steps whose names have no delimiters. -/
theorem hasBlockList_spells {text literal tail : Text} {params blockLists : List Parameter}
    (h : Spells text literal params blockLists) (htail : '(' ∉ tail) :
    Category.hasBlockList (text ++ tail) = blockLists.any isShown := by
  have hslot : ∀ {slot rest : Text} {p : Parameter}, SpellsSlot slot p →
      Category.hasBlockList ('(' :: (slot ++ ')' :: rest)) =
        (isShown p || Category.hasBlockList rest) := by
    intro slot rest p hs
    have hclose : '(' ∉ slot ++ [')'] := by
      rw [List.mem_append, not_or]
      exact ⟨openParenthesis_not_mem hs, by decide⟩
    have hrest := hasBlockList_append hclose rest
    rw [List.append_assoc] at hrest
    rw [Category.hasBlockList, startsBlockList_slot hs, ← hrest]
    rfl
  induction h with
  | nil =>
    have ht := hasBlockList_append htail []
    rw [List.append_nil] at ht
    exact ht
  | plain hc _ ih =>
    obtain ⟨⟨ho, -⟩, -⟩ := Call.isPlain_iff.mp hc
    rw [List.cons_append, Category.hasBlockList, beq_eq_false_iff_ne.mpr ho, Bool.false_and,
      Bool.false_or, ih]
  | value hs hp _ ih =>
    rw [List.cons_append, List.append_assoc, List.cons_append, hslot hs, ih, isShown, hp,
      Bool.false_and, Bool.false_or]
  | steps hs hp _ ih =>
    rw [List.cons_append, List.append_assoc, List.cons_append, hslot hs, ih, List.any_cons]

end Signature
end BlockText
