/-
The grammar of returns clauses.

A clause is the word `returns`, white space, and two simple names with a colon between them
(`Returns.Says`).  The reader drops all the white space behind the word and cuts at the first colon,
while the grammar leaves open how much of it belongs to the name; what is read is trimmed, so every way
to cut a clause gives the same names (`Returns.Says.unique`).  Any other text is refused with the name
of the block (`Returns.read_grammar`).
-/
import BlockText.Name.Simple
import BlockText.Proofs.Number.Numeral

namespace BlockText

/-! ## Simple names -/

namespace SimpleName

/-- The texts that are names, with white space around them. -/
structure IsWritten (text : Text) : Prop where
  not_blank : text.isBlank = false
  numeral : Number.isNumeral text = false
  plain : ∀ c ∈ text, Category.isDelimiter c = false

/-- The reader accepts these texts and trims them. -/
theorem read_eq_ok_iff {text name : Text} :
    read text = .ok name ↔ IsWritten text ∧ text.trim = name := by
  rw [read]
  constructor
  · intro h
    split at h
    · cases h
    split at h
    · cases h
    next hblank =>
      split at h
      · cases h
      next hnumeral =>
        split at h
        · cases h
        next hfind =>
          cases h
          rw [List.findIdx?_eq_none_iff] at hfind
          exact ⟨⟨by simpa using hblank, by simpa using hnumeral, hfind⟩, rfl⟩
  · rintro ⟨h, rfl⟩
    have hempty : text.isEmpty = false := by
      cases text with
      | nil => exact absurd h.not_blank (by decide)
      | cons => rfl
    rw [hempty, h.not_blank, h.numeral, List.findIdx?_eq_none_iff.mpr h.plain]
    rfl

/-- White space in front of a name is no matter. -/
theorem IsWritten.trimStart {text : Text} (h : IsWritten text) : IsWritten text.trimStart := by
  refine ⟨?_, ?_, fun c hc => h.plain c ((List.dropWhile_suffix _).subset hc)⟩
  · obtain ⟨a, ha, ht⟩ := Text.exists_trimStart text
    rw [← h.not_blank, ht, Text.isBlank_append, ha, Bool.true_and, ← ht]
  · rw [Number.isNumeral_congr (Text.trim_trimStart text), h.numeral]

theorem IsWritten.colon_not_mem {text : Text} (h : IsWritten text) : ':' ∉ text :=
  fun hc => absurd (h.plain ':' hc) (by decide)

end SimpleName

/-! ## Clauses -/

namespace Returns

/-- The text is a clause that says this. -/
inductive Says : Text → Returns → Prop
  | mk {space name type : Text} (hspace : space.isBlank = true) (hne : space ≠ [])
    (hname : SimpleName.IsWritten name) (hnameFeed : '\n' ∉ name)
    (htype : SimpleName.IsWritten type) (htypeFeed : '\n' ∉ type) :
    Says ("returns".toList ++ (space ++ (name ++ ':' :: type))) ⟨name.trim, type.trim⟩

theorem body?_eq_some_iff {clause body : Text} :
    body? clause = some body ↔
      ∃ space rest, clause = "returns".toList ++ (space ++ rest) ∧ space.isBlank = true ∧
        space ≠ [] ∧ rest.trimStart = body := by
  rw [body?]
  constructor
  · intro h
    split at h
    next c rest hp =>
      split at h
      next hc =>
        cases h
        refine ⟨[c], rest, (List.isPrefixOf?_eq_some_iff_append_eq.mp hp).symm, ?_,
          List.cons_ne_nil c [], rfl⟩
        rw [Text.isBlank, List.all_cons, hc]
        rfl
      · cases h
    · cases h
  · rintro ⟨space, rest, rfl, hspace, hne, rfl⟩
    cases space with
    | nil => exact absurd rfl hne
    | cons c space =>
      rw [Text.isBlank, List.all_cons, Bool.and_eq_true] at hspace
      rw [List.isPrefixOf?_eq_some_iff_append_eq.mpr rfl]
      show (if Text.isSpace c = true then some (Text.trimStart (space ++ rest)) else none) = _
      rw [if_pos hspace.1, Text.trimStart_append_of_blank hspace.2]

theorem part?_eq_some_iff {t name : Text} :
    part? t = some name ↔ '\n' ∉ t ∧ SimpleName.read t = .ok name := by
  rw [part?]
  by_cases hfeed : '\n' ∈ t
  · rw [if_pos (List.contains_iff_mem.mpr hfeed)]
    exact ⟨fun h => (by cases h), fun h => absurd hfeed h.1⟩
  · rw [if_neg (mt List.contains_iff_mem.mp hfeed)]
    cases SimpleName.read t with
    | error e => exact ⟨fun h => (by cases h), fun h => (by cases h.2)⟩
    | ok n =>
      rw [Except.ok.injEq]
      exact ⟨fun h => ⟨hfeed, Option.some.inj h⟩, fun h => congrArg some h.2⟩

/-- The reader accepts the clauses, with any white space around them. -/
theorem ofText?_eq_some_iff {text : Text} {r : Returns} :
    ofText? text = some r ↔ Says text.trim r := by
  rw [ofText?]
  generalize text.trim = clause
  constructor
  · intro h
    obtain ⟨body, hbody, h⟩ := Option.bind_eq_some_iff.mp h
    obtain ⟨space, rest, rfl, hspace, hne, rfl⟩ := body?_eq_some_iff.mp hbody
    split at h
    next name c type hspan =>
      obtain ⟨n, hn, h⟩ := Option.bind_eq_some_iff.mp h
      obtain ⟨t, ht, h⟩ := Option.bind_eq_some_iff.mp h
      cases h
      obtain ⟨hnf, hn⟩ := part?_eq_some_iff.mp hn
      obtain ⟨htf, ht⟩ := part?_eq_some_iff.mp ht
      obtain ⟨hname, rfl⟩ := SimpleName.read_eq_ok_iff.mp hn
      obtain ⟨htype, rfl⟩ := SimpleName.read_eq_ok_iff.mp ht
      -- the white space that the reader drops belongs to the space of the clause
      obtain ⟨a, ha, hrest⟩ := Text.exists_trimStart rest
      rw [hrest, Text.eq_of_span hspan, ← List.append_assoc space]
      exact .mk (Text.isBlank_append_of_blank hspace ha)
        (List.append_ne_nil_of_left_ne_nil hne a) hname hnf htype htf
    · cases h
  · rintro ⟨hspace, hne, hname, hnf, htype, htf⟩
    rename_i space name type
    have hbody : body? ("returns".toList ++ (space ++ (name ++ ':' :: type))) =
        some (name.trimStart ++ ':' :: type) :=
      body?_eq_some_iff.mpr ⟨space, _, rfl, hspace, hne, Text.trimStart_append hname.not_blank _⟩
    have hpart : part? name.trimStart = some name.trim :=
      part?_eq_some_iff.mpr ⟨fun hc => hnf ((List.dropWhile_suffix _).subset hc),
        SimpleName.read_eq_ok_iff.mpr ⟨hname.trimStart, Text.trim_trimStart name⟩⟩
    have htype : part? type = some type.trim :=
      part?_eq_some_iff.mpr ⟨htf, SimpleName.read_eq_ok_iff.mpr ⟨htype, rfl⟩⟩
    simp only [hbody, Option.bind_eq_bind, Option.bind_some,
      Text.span_ne hname.trimStart.colon_not_mem, hpart, htype, Option.pure_def]

/-- A clause says one thing, however its white space is dealt out. -/
theorem Says.unique {clause : Text} {r r' : Returns} (h : Says clause.trim r)
    (h' : Says clause.trim r') : r = r' := by
  rw [← ofText?_eq_some_iff] at h h'
  exact Option.some.inj (h.symm.trans h')

theorem read_eq_ok_iff {text block : Text} {r : Returns} :
    read text block = .ok r ↔ Says text.trim r := by
  rw [read, ← ofText?_eq_some_iff]
  cases ofText? text with
  | some returns => rw [Except.ok.injEq, Option.some.injEq]
  | none => exact iff_of_false nofun nofun

theorem read_of_not_says {text : Text} (h : ∀ r, ¬ Says text.trim r) (block : Text) :
    read text block = .error ⟨.malformedReturns block, text, 0⟩ := by
  have hnone : ofText? text = none := by
    rw [Option.eq_none_iff_forall_ne_some]
    exact fun r hr => h r (ofText?_eq_some_iff.mp hr)
  rw [read, hnone]

/-- A clause is read as what it says, trimmed, and says no two things.  Any other text has one fault, at its
first character, whatever is wrong with it, and the fault is told with the name of the block. -/
theorem read_grammar (text block : Text) :
    (∀ r, read text block = .ok r ↔ Says text.trim r) ∧
      (∀ r r', Says text.trim r → Says text.trim r' → r = r') ∧
      ((∀ r, ¬ Says text.trim r) →
        ∃ e, read text block = .error e ∧ e.index = 0 ∧ e.text = text ∧
          e.fault.message =
            "problem parsing returns for block definition \"".toList ++ block ++ ['"']) :=
  ⟨fun _ => read_eq_ok_iff, fun _ _ => Says.unique,
    fun h => ⟨_, read_of_not_says h block, rfl, rfl, rfl⟩⟩

/-- A clause over two lines, and one with a second colon. -/
theorem read_grammar_spaced :
    read " returns \n total  cost :Number ".toList "go".toList =
        .ok ⟨"total  cost".toList, "Number".toList⟩ ∧
      ∃ e, read " returns a:b:c".toList "go".toList = .error e ∧ e.index = 0 ∧
        e.text = " returns a:b:c".toList ∧
        e.fault.message = "problem parsing returns for block definition \"go\"".toList := by
  have hname : SimpleName.IsWritten "total  cost ".toList :=
    (SimpleName.read_eq_ok_iff.mp (rfl : SimpleName.read _ = .ok "total  cost".toList)).1
  have htype : SimpleName.IsWritten "Number".toList :=
    (SimpleName.read_eq_ok_iff.mp (rfl : SimpleName.read _ = .ok "Number".toList)).1
  have hsays : Says (Text.trim " returns \n total  cost :Number ".toList)
      ⟨"total  cost".toList, "Number".toList⟩ :=
    .mk (show Text.isBlank " \n ".toList = true by decide) (by decide) hname (by decide) htype
      (by decide)
  have hnone : ofText? " returns a:b:c".toList = none := by decide
  refine ⟨((read_grammar _ _).1 _).mpr hsays, (read_grammar _ _).2.2 fun r hr => ?_⟩
  rw [← ofText?_eq_some_iff, hnone] at hr
  cases hr

end Returns
end BlockText
