/-
Printed comments and escapes.

A comment of one line is printed behind two slashes, and a comment of several lines between an
opening and a closing mark.  The closing mark goes on the line of the last piece, but on a line of its
own behind an empty one: on the line of an empty piece it would be a mark alone, and then the reader
drops the piece.  An escape is printed as a header, its code as it is, and a closing mark.

What is printed is an entry of every place that the construct can stand in (`Comment.item_print`,
`Hosted.item_print`).
-/
import BlockText.Proofs.Print.CallLine

namespace BlockText

/-! ## Comments -/

namespace Comment

/-- The pieces of a comment behind the first one, and the closing mark. -/
def ending : List Text → List Text
  | [] => []
  | [last] => if last.isEmpty then [[], ['*', '/']] else [last ++ [' ', '*', '/']]
  | piece :: next :: rest => piece :: ending (next :: rest)

/-- The lines of a comment. -/
def print (c : Comment) : List Text :=
  match c.text.pieces with
  | [] => []
  | [piece] => ['/' :: '/' :: ' ' :: piece]
  | first :: next :: rest => ('/' :: '*' :: ' ' :: first) :: ending (next :: rest)

section ending

variable {pieces : List Text} {piece : Text}

theorem takePiece_unended (hne : pieces = [] → piece ≠ []) (h : ¬ ['*', '/'] <:+ piece) :
    Verbatim.takePiece pieces piece = .inl (.comment (pieces ++ [piece])) := by
  have hsuffix : List.isSuffixOf? ['*', '/'] piece = none := by
    cases hs : List.isSuffixOf? ['*', '/'] piece with
    | none => rfl
    | some t => exact absurd ⟨t, List.isSuffixOf?_eq_some_iff_append_eq.mp hs⟩ h
  have hempty : (piece.isEmpty && pieces.isEmpty) = false := by
    rw [Bool.and_eq_false_iff, List.isEmpty_eq_false_iff, List.isEmpty_eq_false_iff]
    by_cases hp : pieces = []
    · exact Or.inl (hne hp)
    · exact Or.inr hp
  rw [Verbatim.takePiece, hsuffix, hempty]
  rfl

/-- The closing mark on the line of a piece. -/
theorem takePiece_ended (pieces : List Text) (ht : Text.Trimmed piece) (hne : piece ≠ []) :
    Verbatim.takePiece pieces (piece ++ [' ', '*', '/']) =
      .inr ⟨Text.joinLines (pieces ++ [piece])⟩ := by
  have hsuffix : List.isSuffixOf? ['*', '/'] (piece ++ [' ', '*', '/']) =
      some (piece ++ [' ']) := by
    rw [List.isSuffixOf?_eq_some_iff_append_eq, List.append_assoc]
    rfl
  have htrim : Text.trim (piece ++ [' ']) = piece := by
    rw [Text.trim_append_of_blank _ (by decide), Text.trim_of_trimmed ht]
  have hempty : piece.isEmpty = false := List.isEmpty_eq_false_iff.mpr hne
  rw [Verbatim.takePiece, hsuffix]
  simp only [htrim, hempty, Bool.false_and, Bool.false_eq_true, if_false]

/-- The closing mark alone. -/
theorem takePiece_mark (hne : pieces ≠ []) :
    Verbatim.takePiece pieces ['*', '/'] = .inr ⟨Text.joinLines pieces⟩ := by
  have hempty : pieces.isEmpty = false := List.isEmpty_eq_false_iff.mpr hne
  have hsuffix : List.isSuffixOf? ['*', '/'] ['*', '/'] = some [] := by decide
  have htrim : Text.trim [] = [] := rfl
  rw [Verbatim.takePiece, hsuffix]
  simp only [htrim, hempty, List.isEmpty_nil, Bool.not_false, Bool.and_true, if_true]

theorem ends_of_take {t : Text} {ts : List Text} {node : Node} {r : Verbatim ⊕ Comment}
    (ht : Verbatim.takePiece pieces t.trim = r) (h : Verbatim.Ends (r.map id .comment) ts node) :
    Verbatim.Ends (.inl (.comment pieces)) (t :: ts) node := by
  refine .more ?_
  show Verbatim.Ends ((Verbatim.takePiece pieces t.trim).map id .comment) ts node
  rw [ht]
  exact h

theorem trimmed_marked {t : Text} (ht : Text.Trimmed t) (hne : t ≠ []) :
    Text.Trimmed (t ++ [' ', '*', '/']) :=
  Text.trimmed_append hne (List.cons_ne_nil _ _) ht.head (Text.forall_mem_some (by decide))

/-- The pieces that are left and the closing mark end a comment. -/
theorem ends_ending {rest : List Text} (hp : pieces ≠ []) (hr : rest ≠ [])
    (ht : ∀ p ∈ rest, Text.Trimmed p) (hu : ∀ p ∈ rest.dropLast, ¬ ['*', '/'] <:+ p) :
    Verbatim.Ends (.inl (.comment pieces)) (ending rest)
      (.comment ⟨Text.joinLines (pieces ++ rest)⟩) := by
  induction rest generalizing pieces with
  | nil => exact absurd rfl hr
  | cons t rest ih =>
    have htrim : t.trim = t := Text.trim_of_trimmed (ht t List.mem_cons_self)
    have hsnoc : pieces ++ [t] ≠ [] := by simp
    cases rest with
    | nil =>
      by_cases hne : t = []
      · subst hne
        show Verbatim.Ends _ [[], ['*', '/']] _
        refine ends_of_take (takePiece_unended (fun h => absurd h hp) (by decide)) ?_
        exact ends_of_take (takePiece_mark hsnoc) .done
      · have hending : ending [t] = [t ++ [' ', '*', '/']] := if_neg (by simpa using hne)
        have hmarked := Text.trim_of_trimmed (trimmed_marked (ht t List.mem_cons_self) hne)
        have htake := takePiece_ended pieces (ht t List.mem_cons_self) hne
        rw [← hmarked] at htake
        rw [hending]
        exact ends_of_take htake .done
    | cons u rest =>
      have htake := takePiece_unended (fun h => absurd h hp) (hu t List.mem_cons_self)
      rw [← htrim] at htake
      have hrest := ih hsnoc (List.cons_ne_nil u rest) (fun p hp => ht p (List.mem_cons_of_mem t hp))
        fun p hp => hu p (List.mem_cons_of_mem t hp)
      rw [List.append_assoc, List.singleton_append] at hrest
      refine ends_of_take htake ?_
      rw [htrim]
      exact hrest

theorem feedless_ending {rest : List Text} (h : ∀ p ∈ rest, '\n' ∉ p) :
    ∀ t ∈ ending rest, '\n' ∉ t := by
  induction rest with
  | nil => exact fun t ht => absurd ht List.not_mem_nil
  | cons p rest ih =>
    have hp := h p List.mem_cons_self
    cases rest with
    | nil =>
      intro t ht
      rw [ending] at ht
      split at ht
      · revert t
        decide
      · rw [List.mem_singleton.mp ht, List.mem_append, not_or]
        exact ⟨hp, by decide⟩
    | cons q rest =>
      intro t ht
      rcases List.mem_cons.mp ht with rfl | ht
      · exact hp
      · exact ih (fun r hr => h r (List.mem_cons_of_mem p hr)) t ht

end ending

/-! ### The first line -/

/-- A line that shows a mark of a comment starts one. -/
theorem ofLine_mark {t rest : Text} {mark : Char} (h : t.trim = '/' :: mark :: rest)
    (hm : mark = '/' ∨ mark = '*') : Category.ofLine t = .comment := by
  have htrim : (Line.bare t).trimmed = (Line.bare t.trim).trimmed := (Text.trim_trim t).symm
  have hskip : Category.cascade.find? (·.acceptsTrimmed t.trim) =
      (Category.comment :: Category.cascade.drop 2).find? (·.acceptsTrimmed t.trim) := by
    rw [h]
    rfl
  have hcat : Category.ofLine t.trim = .comment := by
    refine Category.ofLine_eq_of_find? (Text.trimmed_trim t) hskip ?_
    rw [h]
    rcases hm with rfl | rfl <;> rfl
  exact (Category.ofLine_congr htrim).trans hcat

theorem trim_marked {piece : Text} (mark : Char) (hmark : Text.isSpace mark = false)
    (ht : Text.Trimmed piece) :
    ∃ rest : Text, Text.trim ('/' :: mark :: ' ' :: piece) = '/' :: mark :: rest ∧
      rest.trim = piece := by
  by_cases hne : piece = []
  · subst hne
    refine ⟨[], ?_, rfl⟩
    have htrim := Text.trim_pad (a := []) (t := ['/', mark]) (b := [' ']) (by decide)
      ⟨Text.forall_mem_some (by decide), Text.forall_mem_some hmark⟩ (by decide)
    exact htrim
  · refine ⟨' ' :: piece, ?_, ?_⟩
    · have happ : '/' :: mark :: ' ' :: piece = ['/', mark, ' '] ++ piece := rfl
      rw [happ]
      refine Text.trim_of_trimmed ?_
      exact Text.trimmed_append (List.cons_ne_nil _ _) hne (Text.forall_mem_some (by decide)) ht.last
    · have hpad := Text.blank_append_trim (a := [' ']) (by decide) piece
      rw [Text.trim_of_trimmed ht] at hpad
      exact hpad

/-- A comment of one line. -/
theorem opened_slashes {piece : Text} (ht : Text.Trimmed piece) :
    opened ('/' :: '/' :: ' ' :: piece) = .inr (.comment ⟨piece⟩) := by
  obtain ⟨rest, htrim, hrest⟩ := trim_marked '/' (by decide) ht
  have hprefix : List.isPrefixOf? ['/', '/'] ('/' :: '/' :: rest) = some rest :=
    List.isPrefixOf?_eq_some_iff_append_eq.mpr rfl
  rw [opened, htrim, start, hprefix]
  show Sum.inr (Node.comment ⟨Text.trim rest⟩) = _
  rw [hrest]

/-- The first line of a comment of several lines. -/
theorem opened_mark {piece : Text} (ht : Text.Trimmed piece) (hne : piece ≠ [])
    (hu : ¬ ['*', '/'] <:+ piece) :
    opened ('/' :: '*' :: ' ' :: piece) = .inl (.comment [piece]) := by
  obtain ⟨rest, htrim, hrest⟩ := trim_marked '*' (by decide) ht
  have hprefix : List.isPrefixOf? ['/', '/'] ('/' :: '*' :: rest) = none := rfl
  have hdrop : Text.dropPrefix ['/', '*'] ('/' :: '*' :: rest) = rest :=
    Text.dropPrefix_append ['/', '*'] rest
  have htake := @takePiece_unended [] piece (fun _ => hne) hu
  rw [opened, htrim, start, hprefix]
  show (Verbatim.takePiece [] (Text.trim (Text.dropPrefix ['/', '*'] ('/' :: '*' :: rest)))).map id
    Node.comment = _
  rw [hdrop, hrest, htake]
  rfl

/-- A printed comment is an entry wherever a comment may stand. -/
theorem item_print {strict : Bool} {path : Path} {c : Comment} (hw : c.Written)
    (hp : Category.permits path.parent .comment = true) :
    Item strict path c.print (some (.comment c)) ∧ ∀ t ∈ c.print, '\n' ∉ t := by
  obtain ⟨text⟩ := c
  have hfeed : ∀ p ∈ text.pieces, '\n' ∉ p := fun p hp => Text.not_mem_of_mem_pieces hp
  have htext := Text.joinLines_pieces text
  have hmarked : ∀ {mark : Char} {piece : Text}, mark = '/' ∨ mark = '*' → Text.Trimmed piece →
      '\n' ∉ piece → Enters strict path (.bare ('/' :: mark :: ' ' :: piece)) .comment := by
    intro mark piece hm ht hf
    obtain ⟨rest, htrim, -⟩ := trim_marked mark (by rcases hm with rfl | rfl <;> decide) ht
    refine .of_text (ofLine_mark htrim hm) (by simp [Category.IsCall]) hp ?_ ?_
    · rw [htrim]
      simp
    · rw [List.mem_cons, List.mem_cons, List.mem_cons, not_or, not_or, not_or]
      exact ⟨by decide, by rcases hm with rfl | rfl <;> decide, by decide, hf⟩
  obtain ⟨ht, hu, hhead⟩ := hw
  rw [print]
  dsimp only at ht hu hhead ⊢
  cases hpieces : text.pieces with
  | nil => exact absurd hpieces (Text.pieces_ne_nil text)
  | cons first rest =>
    rw [hpieces] at ht hu hhead hfeed htext
    have htfirst := ht first List.mem_cons_self
    have hffirst := hfeed first List.mem_cons_self
    cases rest with
    | nil =>
      rw [Text.joinLines_singleton] at htext
      subst htext
      have henter := hmarked (Or.inl rfl) htfirst hffirst
      refine ⟨.comment henter ?_, fun t hm => ?_⟩
      · rw [opened_slashes htfirst]
        exact .done
      · rw [List.mem_singleton.mp hm]
        exact henter.feedless
    | cons next rest =>
      have henter := hmarked (Or.inr rfl) htfirst hffirst
      have hne : first ≠ [] := fun hnil => hhead (by rw [hnil]; rfl)
      have hends := @ends_ending [first] (next :: rest) (List.cons_ne_nil _ _) (List.cons_ne_nil _ _)
        (fun p hp => ht p (List.mem_cons_of_mem first hp))
        fun p hp => hu p (List.mem_cons_of_mem first hp)
      rw [List.singleton_append, htext] at hends
      refine ⟨.comment henter ?_, fun t hm => ?_⟩
      · rw [opened_mark htfirst hne (hu first List.mem_cons_self)]
        exact hends
      · rcases List.mem_cons.mp hm with rfl | hm
        · exact henter.feedless
        · exact feedless_ending (fun p hp => hfeed p (List.mem_cons_of_mem first hp)) t hm

end Comment

/-! ## Escapes -/

namespace Hosted

/-- The clause of a header, with a space behind it. -/
def clauseText : Option Returns → Text
  | none => []
  | some r => r.print ++ [' ']

/-- The header of an escape. -/
def header (returns : Option Returns) : Text :=
  Keyword.hosted.text ++ ' ' :: (clauseText returns ++ ['[', '@'])

/-- The lines of code.  Empty code has no lines. -/
def codeLines (code : Text) : List Text := if code.isEmpty then [] else code.pieces

/-- The lines of an escape. -/
def print (returns : Option Returns) (code : Text) : List Text :=
  header returns :: (codeLines code ++ [['@', ']']])

variable {returns : Option Returns}

theorem trim_clauseText (h : ∀ r ∈ returns, r.IsRead) :
    Text.trim (' ' :: clauseText returns) = Returns.clause returns := by
  cases returns with
  | none => rfl
  | some r =>
    exact Text.trim_pad (a := [' ']) (by decide) (Returns.trimmed_print (h r rfl)) (by decide)

theorem trimmed_header (returns : Option Returns) : Text.Trimmed (header returns) := by
  refine Text.trimmed_append (by decide) (List.cons_ne_nil _ _) (Text.forall_mem_some (by decide))
    fun c hc => ?_
  rw [List.getLast?_cons, List.getLast?_append] at hc
  cases hc
  show Text.isSpace '@' = false
  decide

theorem ofLine_header (returns : Option Returns) :
    Category.ofLine (header returns) = .hosted := by
  refine Category.ofLine_eq_of_find? (trimmed_header returns) rfl ?_
  rw [Category.acceptsTrimmed, Category.isKeyed, Bool.and_eq_true]
  refine ⟨rfl, ?_⟩
  have hsplit : header returns =
      (Keyword.hosted.text ++ ' ' :: clauseText returns) ++ ['[', '@'] := by
    rw [header, List.append_assoc, List.cons_append]
  rw [hsplit]
  exact Category.endsWith_append _ _

theorem feedless_header (h : ∀ r ∈ returns, r.IsRead) : '\n' ∉ header returns := by
  have hclause : '\n' ∉ clauseText returns := by
    cases returns with
    | none => exact List.not_mem_nil
    | some r =>
      rw [clauseText, List.mem_append, not_or]
      exact ⟨Returns.feedless_print (h r rfl), by decide⟩
  rw [header, List.mem_append, List.mem_cons, List.mem_append, not_or, not_or, not_or]
  exact ⟨by decide, by decide, hclause, by decide⟩

/-- A printed header is read as what it was printed from. -/
theorem hostedReturns_header (h : ∀ r ∈ returns, r.IsRead) (block : Text) :
    hostedReturns block (.bare (header returns)) = .ok returns := by
  have htrimmed : (Line.bare (header returns)).trimmed = header returns :=
    Text.trim_of_trimmed (trimmed_header returns)
  have hclause : hostedClause (header returns) = Returns.clause returns := by
    have hprefix : List.isPrefixOf? Keyword.hosted.text (header returns) =
        some (' ' :: clauseText returns ++ ['[', '@']) :=
      List.isPrefixOf?_eq_some_iff_append_eq.mpr rfl
    have hsuffix : List.isSuffixOf? ['[', '@'] (' ' :: clauseText returns ++ ['[', '@']) =
        some (' ' :: clauseText returns) :=
      List.isSuffixOf?_eq_some_iff_append_eq.mpr rfl
    rw [hostedClause, hprefix]
    simp only [hsuffix, Option.getD_some]
    exact trim_clauseText h
  rw [hostedReturns, htrimmed, hclause]
  exact Returns.read_clause h block _

theorem codeLines_joinLines {code : List Text} (h : ∀ t ∈ code, IsCode t) :
    ∀ t ∈ codeLines (Text.joinLines code), IsCode t := by
  rw [codeLines]
  split
  · exact fun t ht => absurd ht List.not_mem_nil
  next hne =>
    have hcode : code ≠ [] := by
      rintro rfl
      exact hne rfl
    rwa [Text.pieces_joinLines (fun t ht => (h t ht).feedless) hcode]

theorem joinLines_codeLines (code : Text) : Text.joinLines (codeLines code) = code := by
  rw [codeLines]
  split
  next he => exact (List.isEmpty_iff.mp he).symm
  · exact Text.joinLines_pieces code

/-- A printed escape is an entry wherever an escape may stand. -/
theorem item_print {strict : Bool} {path : Path} (hp : Category.permits path.parent .hosted = true)
    (hr : ∀ r ∈ returns, r.IsRead) {code : List Text} (hcode : ∀ t ∈ code, IsCode t) :
    Item strict path (print returns (Text.joinLines code))
      (some (.step (.hosted returns (Text.joinLines code)))) ∧
      ∀ t ∈ print returns (Text.joinLines code), '\n' ∉ t := by
  have hlines := codeLines_joinLines hcode
  have hhead : (header returns).trim.head? ≠ some ']' := by
    rw [Text.trim_of_trimmed (trimmed_header returns)]
    exact fun hh => by cases hh
  have henter : Enters strict path (.bare (header returns)) .hosted :=
    .of_text (ofLine_header returns) (by simp [Category.IsCall]) hp hhead (feedless_header hr)
  refine ⟨?_, fun t ht => ?_⟩
  · have hclose : Text.trim ['@', ']'] = ['@', ']'] := by decide
    have hitem := Item.escaped henter (hostedReturns_header hr path.block)
      (fun t ht => (hlines t ht).unended) hclose
    rwa [joinLines_codeLines] at hitem
  · rcases List.mem_cons.mp ht with rfl | ht
    · exact henter.feedless
    · rcases List.mem_append.mp ht with ht | ht
      · exact (hlines t ht).feedless
      · rw [List.mem_singleton.mp ht]
        decide

end Hosted
end BlockText
