/-
Fixtures are taken apart as they were put together.

`Fixture.Assembly` is a fixture as it is written: front matter between two lines of dashes, any line end
behind each of its lines, and the source.  The closing dashes are looked for by the line feed in front of
them.  That feed ends a line of front matter or the opening dashes, so the search goes from one line to the
next, and no line before the closing one starts with dashes (`Fixture.indexOf?_closing`).
-/
import BlockText.Fixture
import BlockText.Proofs.Text.Trim

namespace BlockText

namespace Text

/-- A search passes over what has nothing in it that the text it looks for starts with. -/
theorem indexOf?_append_of_not_mem {c : Char} {needle front back : Text} {n : Nat}
    (hfront : c ∉ front) (h : indexOf? (c :: needle) back = some n) :
    indexOf? (c :: needle) (front ++ back) = some (front.length + n) := by
  induction front with
  | nil =>
    rw [List.nil_append, h, List.length_nil, Nat.zero_add]
  | cons d front ih =>
    rw [List.mem_cons, not_or] at hfront
    have hne : List.isPrefixOf (c :: needle) (d :: (front ++ back)) = false := by
      simp [List.isPrefixOf, hfront.1]
    rw [List.cons_append, indexOf?, if_neg (by rw [hne]; decide), ih hfront.2, Option.map_some,
      List.length_cons]
    exact congrArg some (by omega)

/-- A beginning without the next character ends before it. -/
theorem prefix_of_append_cons {p a b : Text} {c : Char} (hc : c ∉ p) (h : p <+: a ++ c :: b) :
    p <+: a := by
  rcases List.prefix_or_prefix_of_prefix h (List.prefix_append a (c :: b)) with hp | ⟨q, rfl⟩
  · exact hp
  · rw [List.prefix_append_right_inj] at h
    cases q with
    | nil => exact ⟨[], by simp⟩
    | cons d q =>
      obtain ⟨rfl, -⟩ := List.cons_prefix_cons.mp h
      simp at hc

end Text

/-! ## Fixtures as they are written -/

/-- The end of a line: a line feed, which may follow a carriage return. -/
inductive LineEnd
  | feed
  | returnFeed
  deriving DecidableEq

namespace LineEnd

/-- What stands in front of the line feed. -/
def lead : LineEnd → Text
  | feed => []
  | returnFeed => ['\r']

def text (e : LineEnd) : Text := e.lead ++ ['\n']

theorem feed_not_mem_lead (e : LineEnd) : '\n' ∉ e.lead := by cases e <;> decide

theorem isBlank_text (e : LineEnd) : Text.isBlank e.text = true := by cases e <;> rfl

theorem exists_cons_text (e : LineEnd) : ∃ c rest, e.text = c :: rest ∧ c ∉ Fixture.dashes := by
  cases e
  · exact ⟨'\n', [], rfl, by decide⟩
  · exact ⟨'\r', ['\n'], rfl, by decide⟩

end LineEnd

namespace Fixture

/-- A line of front matter: it does not close the front matter. -/
structure FrontLine where
  text : Text
  ending : LineEnd
  feedless : '\n' ∉ text
  undashed : ¬ dashes <+: text

/-- A fixture as it is written. -/
structure Assembly where
  /-- The number of byte order marks. -/
  marks : Nat
  /-- The end of the opening line of dashes. -/
  opening : LineEnd
  lines : List FrontLine
  /-- The end of the closing line of dashes. -/
  closing : LineEnd
  source : Text

/-- The lines with their ends. -/
def FrontLine.join (lines : List FrontLine) : Text :=
  lines.flatMap fun line => line.text ++ line.ending.text

namespace Assembly

def frontMatter (a : Assembly) : Text := FrontLine.join a.lines

/-- What stands behind the opening dashes. -/
def body (a : Assembly) : Text :=
  a.opening.text ++ a.frontMatter ++ (dashes ++ (a.closing.text ++ a.source))

def content (a : Assembly) : Text := List.replicate a.marks '\uFEFF' ++ (dashes ++ a.body)

end Assembly

/-! ## The closing dashes -/

theorem FrontLine.not_prefix (line : FrontLine) (back : Text) :
    ¬ dashes <+: line.text ++ (line.ending.text ++ back) := by
  intro h
  obtain ⟨c, rest, htext, hc⟩ := line.ending.exists_cons_text
  rw [htext, List.cons_append] at h
  exact line.undashed (Text.prefix_of_append_cons hc h)

/-- Behind a line end and lines of front matter, dashes are found at the line feed in front of them.  The
induction is on the lines: the search passes over the end of a line and the text of the next one, which
leaves a line end and fewer lines. -/
theorem indexOf?_closing (e : LineEnd) (lines : List FrontLine) (rest : Text) :
    ∃ before, e.text ++ FrontLine.join lines = before ++ ['\n'] ∧
      Text.indexOf? ('\n' :: dashes) (before ++ '\n' :: (dashes ++ rest)) = some before.length := by
  induction lines generalizing e with
  | nil =>
    refine ⟨e.lead, List.append_nil _, ?_⟩
    have hfound : Text.indexOf? ('\n' :: dashes) ('\n' :: (dashes ++ rest)) = some 0 := by
      simp [Text.indexOf?, dashes]
    exact Text.indexOf?_append_of_not_mem e.feed_not_mem_lead hfound
  | cons line lines ih =>
    obtain ⟨before, hbefore, hindex⟩ := ih line.ending
    refine ⟨e.lead ++ '\n' :: (line.text ++ before), ?_, ?_⟩
    · show e.lead ++ ['\n'] ++ (line.text ++ line.ending.text ++ FrontLine.join lines) = _
      rw [List.append_assoc line.text, hbefore]
      simp
    · -- the feed in front of the line does not start the closing dashes, since the line starts with none
      have hline := Text.indexOf?_append_of_not_mem line.feedless hindex
      have hends : before ++ '\n' :: (dashes ++ rest) =
          line.ending.text ++ (FrontLine.join lines ++ (dashes ++ rest)) := by
        rw [← List.append_assoc line.ending.text, hbefore]
        simp only [List.append_assoc, List.singleton_append]
      have hopen : ¬ dashes <+: line.text ++ (before ++ '\n' :: (dashes ++ rest)) := by
        rw [hends]
        exact line.not_prefix _
      have hfeed : Text.indexOf? ('\n' :: dashes)
          ('\n' :: (line.text ++ (before ++ '\n' :: (dashes ++ rest)))) =
          some (line.text.length + before.length + 1) := by
        rw [Text.indexOf?, if_neg, hline, Option.map_some]
        rw [List.isPrefixOf_iff_prefix, List.prefix_cons_inj]
        exact hopen
      have hlead := Text.indexOf?_append_of_not_mem e.feed_not_mem_lead hfeed
      simpa [Nat.add_assoc] using hlead

/-! ## Taking a fixture apart -/

theorem dropLineEnd_text (e : LineEnd) (source : Text) : dropLineEnd (e.text ++ source) = source := by
  cases e <;> rfl

/-- The parts of a fixture whose closing dashes stand behind this much of its body. -/
theorem split_of_indexOf? {marks : Nat} {before rest : Text}
    (h : Text.indexOf? ('\n' :: dashes) (before ++ '\n' :: (dashes ++ rest)) = some before.length) :
    split (List.replicate marks '\uFEFF' ++ (dashes ++ (before ++ '\n' :: (dashes ++ rest)))) =
      .ok (before.trim, dropLineEnd rest) := by
  have hmarks : List.dropWhile (· == '\uFEFF')
      (List.replicate marks '\uFEFF' ++ (dashes ++ (before ++ '\n' :: (dashes ++ rest)))) =
      dashes ++ (before ++ '\n' :: (dashes ++ rest)) :=
    Text.dropWhile_append_eq (fun _ hd => List.eq_of_mem_replicate hd) (by simp [dashes])
  have hbody : List.isPrefixOf? dashes (dashes ++ (before ++ '\n' :: (dashes ++ rest))) =
      some (before ++ '\n' :: (dashes ++ rest)) := List.isPrefixOf?_eq_some_iff_append_eq.mpr rfl
  have hdrop : (before ++ '\n' :: (dashes ++ rest)).drop (before.length + 4) = rest := by
    rw [← List.drop_drop, List.drop_left]
    rfl
  rw [split, hmarks]
  simp only [hbody, h, List.take_left, hdrop]

theorem read_of_split {content frontMatter source : Text}
    (h : split content = .ok (frontMatter, source)) :
    read content = match Config.ofText? frontMatter with
      | some config => .ok ⟨config, source⟩
      | none => .error .badFrontMatter := by
  rw [read, h]
  rfl

namespace Assembly

theorem split_content (a : Assembly) : split a.content = .ok (a.frontMatter.trim, a.source) := by
  obtain ⟨before, hbefore, hindex⟩ :=
    indexOf?_closing a.opening a.lines (a.closing.text ++ a.source)
  have hbody : a.body = before ++ '\n' :: (dashes ++ (a.closing.text ++ a.source)) := by
    show a.opening.text ++ FrontLine.join a.lines ++ _ = _
    rw [hbefore, List.append_assoc, List.singleton_append]
  have htrim : before.trim = a.frontMatter.trim := calc
    before.trim = Text.trim (before ++ ['\n']) :=
      (Text.trim_append_of_blank before (by decide)).symm
    _ = Text.trim (a.opening.text ++ a.frontMatter) := congrArg Text.trim hbefore.symm
    _ = a.frontMatter.trim := Text.blank_append_trim a.opening.isBlank_text _
  rw [content, hbody, split_of_indexOf? hindex, dropLineEnd_text, htrim]

/-- A fixture is taken apart as it was put together, with any number of byte order marks and whatever line
ends stand behind its lines.  What is read as front matter is the front matter, trimmed, and if it is
accepted the source is the source, with the blank lines that it starts with and the dashes in it. -/
theorem read_content (a : Assembly) :
    split a.content = .ok (a.frontMatter.trim, a.source) ∧
      (∀ config, Config.ofText? a.frontMatter.trim = some config →
        read a.content = .ok ⟨config, a.source⟩) ∧
      (Config.ofText? a.frontMatter.trim = none → read a.content = .error .badFrontMatter) := by
  have hread := read_of_split a.split_content
  refine ⟨a.split_content, fun config hconfig => ?_, fun hconfig => ?_⟩
  · rw [hread, hconfig]
  · rw [hread, hconfig]

/-- Two byte order marks, line ends of both kinds, a comment of dashes in the front matter, and a source
that starts with a blank line and a line of dashes. -/
theorem read_content_dashes :
    ∃ (a : Assembly) (config : Config),
      a.content = "\uFEFF\uFEFF---\n\r\nstrict = true\r\n #---\n---\r\n\r\n---\nunit A [".toList ∧
      read a.content = .ok ⟨config, "\r\n---\nunit A [".toList⟩ ∧ config.strict = true := by
  have h := (read_content ⟨2, .feed, [⟨[], .returnFeed, by decide, by decide⟩,
    ⟨"strict = true".toList, .returnFeed, by decide, by decide⟩,
    ⟨" #---".toList, .feed, by decide, by decide⟩], .returnFeed, "\r\n---\nunit A [".toList⟩).2.1
  exact ⟨_, { Config.default with strict := true }, by decide, h _ rfl, rfl⟩

end Assembly
end Fixture
end BlockText
