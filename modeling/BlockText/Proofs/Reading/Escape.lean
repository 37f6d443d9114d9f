/-
Escapes are opaque.

The lines of an escape between its header and its closing mark are not looked at: whatever stands
there, except a closing mark, gives the same document with other code in this one place.  `Opaque` says
this of lines that hold an escape and of what they are read as.  It is shown for the escape itself and
passed on from an entry to the lines of the construct that holds it (`Opaque.around`), up to the whole
source (`Document.parse_recode`).
-/
import BlockText.Proofs.Document.Place
import BlockText.Proofs.Reading.Grammar

namespace BlockText

/-! ## Places in lists -/

section lists

variable {α β : Type}

@[simp] theorem modify_length_append (f : α → α) (xs : List α) (x : α) (ys : List α) :
    (xs ++ x :: ys).modify xs.length f = xs ++ f x :: ys := by
  induction xs with
  | nil => rfl
  | cons y xs ih => exact congrArg (y :: ·) ih

/-- What is left of a list at a place comes from a place in it. -/
theorem exists_of_filterMap_eq {f : α → Option β} {l : List α} {xs ys : List β} {y : β}
    (h : l.filterMap f = xs ++ y :: ys) :
    ∃ front a back, l = front ++ a :: back ∧ front.filterMap f = xs ∧ f a = some y ∧
      back.filterMap f = ys := by
  obtain ⟨l₁, l₂, rfl, hx, hy⟩ := List.filterMap_eq_append_iff.mp h
  obtain ⟨l₃, a, l₄, rfl, hnone, ha, hrest⟩ := List.filterMap_eq_cons_iff.mp hy
  refine ⟨l₁ ++ l₃, a, l₄, by rw [List.append_assoc], ?_, ha, hrest⟩
  rw [List.filterMap_append, hx, List.filterMap_eq_nil_iff.mpr hnone, List.append_nil]

theorem exists_of_getElem?_filterMap {f : α → Option β} {l : List α} {i : Nat} {y : β}
    (h : (l.filterMap f)[i]? = some y) :
    ∃ front a back, l = front ++ a :: back ∧ f a = some y ∧ (front.filterMap f).length = i := by
  obtain ⟨hlt, hy⟩ := List.getElem?_eq_some_iff.mp h
  have hsplit := List.take_append_drop i (l.filterMap f)
  rw [List.drop_eq_getElem_cons hlt, hy] at hsplit
  obtain ⟨front, a, back, hl, hfront, ha, -⟩ := exists_of_filterMap_eq hsplit.symm
  refine ⟨front, a, back, hl, ha, ?_⟩
  rw [hfront, List.length_take]
  omega

end lists

/-! ## Escapes in lines -/

/-- A header, code lines and a closing line are an escape with this code. -/
structure IsEscape (strict : Bool) (returns : Option Returns) (code : Text) (header : Text)
    (body : List Text) (close : Text) : Prop where
  categorized : State.categorize strict (.bare header) = .ok .hosted
  read : ∃ block, hostedReturns block (.bare header) = .ok returns
  unended : ∀ t ∈ body, t.trim ≠ ['@', ']']
  closes : close.trim = ['@', ']']
  joined : code = Text.joinLines body

/-- The lines hold this escape, and whatever code lines stand in it, the lines are read as `P` says
of the code. -/
def Opaque (strict : Bool) (returns : Option Returns) (code : Text) (P : List Text → Text → Prop)
    (texts : List Text) : Prop :=
  ∃ before header body close after, texts = before ++ header :: (body ++ close :: after) ∧
    IsEscape strict returns code header body close ∧
    ∀ lines : List Text, (∀ t ∈ lines, t.trim ≠ ['@', ']']) →
      P (before ++ header :: (lines ++ close :: after)) (Text.joinLines lines)

section levels

variable {strict : Bool} {returns : Option Returns} {code : Text} {path : Path} {texts : List Text}

/-- Lines around the lines of an escape. -/
theorem Opaque.around {P Q : List Text → Text → Prop} (h : Opaque strict returns code P texts)
    (front back : List Text) (hPQ : ∀ ts c, P ts c → Q (front ++ ts ++ back) c) :
    Opaque strict returns code Q (front ++ texts ++ back) := by
  obtain ⟨before, header, body, close, after, rfl, hescape, hread⟩ := h
  refine ⟨front ++ before, header, body, close, after ++ back, ?_, hescape, fun lines hl => ?_⟩
  · simp only [List.append_assoc, List.cons_append]
  · have hq := hPQ _ _ (hread lines hl)
    simp only [List.append_assoc, List.cons_append] at hq ⊢
    exact hq

theorem Opaque.imp {P Q : List Text → Text → Prop} (h : Opaque strict returns code P texts)
    (hPQ : ∀ ts c, P ts c → Q ts c) : Opaque strict returns code Q texts := by
  obtain ⟨before, header, body, close, after, rfl, hescape, hread⟩ := h
  exact ⟨before, header, body, close, after, rfl, hescape, fun lines hl => hPQ _ _ (hread lines hl)⟩

/-- An escape in an entry of a body.  The entry is a construct of some kind, the one at `i` of its
kind in the contents. -/
theorem opaque_body {α : Type} {sel : Node → Option α} {mk : α → Node} {p : Contents → List α}
    (hp : ∀ nodes, p (.ofNodes nodes) = nodes.filterMap sel)
    (hmk : ∀ {n : Node} {x : α}, sel n = some x → n = mk x) {b : Contents}
    (hb : Body strict path texts b) {i : Nat} {x : α} (hx : (p b)[i]? = some x)
    {g : Text → Node}
    (hentry : ∀ {ts}, Item strict path ts (some (mk x)) →
      Opaque strict returns code (fun ts c => Item strict path ts (some (g c))) ts) :
    ∃ xs ys, b = .ofNodes (xs ++ mk x :: ys) ∧ (xs.filterMap sel).length = i ∧
      Opaque strict returns code
        (fun ts c => Body strict path ts (.ofNodes (xs ++ g c :: ys))) texts := by
  obtain ⟨items, hi, rfl, rfl⟩ := hb
  rw [hp] at hx
  obtain ⟨xs, n, ys, hnodes, hn, hlength⟩ := exists_of_getElem?_filterMap hx
  obtain rfl := hmk hn
  obtain ⟨front, item, back, rfl, hfront, hitem, hback⟩ := exists_of_filterMap_eq hnodes
  refine ⟨xs, ys, by rw [hnodes], hlength, ?_⟩
  have hopaque := hentry (hitem ▸ hi item (by simp))
  have hall := hopaque.around (front.flatMap (·.1)) (back.flatMap (·.1))
    (Q := fun ts c => Body strict path ts (.ofNodes (xs ++ g c :: ys))) fun ts c hts => ?_
  · rw [List.flatMap_append, List.flatMap_cons, ← List.append_assoc]
    exact hall
  · refine ⟨front ++ (ts, some (g c)) :: back, fun j hj => ?_, ?_, ?_⟩
    · rcases List.mem_append.mp hj with hj | hj
      · exact hi j (List.mem_append_left _ hj)
      · rcases List.mem_cons.mp hj with rfl | hj
        · exact hts
        · exact hi j (List.mem_append_right _ (List.mem_cons_of_mem item hj))
    · rw [List.flatMap_append, List.flatMap_cons, List.append_assoc]
    · rw [List.filterMap_append, hfront]
      show Contents.ofNodes (xs ++ g c :: back.filterMap (·.2)) = _
      rw [hback]

/-- The entry that is an escape. -/
theorem opaque_hosted {ts : List Text}
    (h : Item strict path ts (some (.step (.hosted returns code)))) :
    Opaque strict returns code
      (fun ts c => Item strict path ts (some (.step (.hosted returns c)))) ts := by
  generalize hnode : some (Node.step (.hosted returns code)) = node at h
  cases h with
  | blank | comment | called => cases hnode
  | escaped h hr hcode hclose =>
    rename_i header close returns' code'
    cases hnode
    refine ⟨[], header, code', close, [], rfl, ⟨h.categorized, ⟨_, hr⟩, hcode, hclose, rfl⟩, ?_⟩
    exact fun lines hl => .escaped h hr hl hclose
  | finished h ho hi hc hn =>
    rw [← hnode] at hn
    cases Opening.close_eq_some_iff.mp hn

/-- An escape in a construct with a header and a closing line. -/
theorem opaque_finished {ts : List Text} {node : Node} {g : Text → Node}
    (h : Item strict path ts (some node)) (hne : Opening.Opens node.category)
    (hbody : ∀ {o texts b close}, Body strict (o :: path) texts b →
      Opening.Finishes b close o node → ∃ F : Text → Contents,
        Opaque strict returns code (fun ts c => Body strict (o :: path) ts (F c)) texts ∧
          ∀ c, Opening.Finishes (F c) close o (g c)) :
    Opaque strict returns code (fun ts c => Item strict path ts (some (g c))) ts := by
  generalize hnode : some node = node' at h
  obtain ⟨-, hcomment, hhosted, hcall⟩ := hne
  cases h with
  | blank => cases hnode
  | comment => cases hnode; exact absurd rfl hcomment
  | called => cases hnode; exact absurd rfl hcall
  | escaped => cases hnode; exact absurd rfl hhosted
  | finished h ho hi hc hn =>
    rename_i header close o items
    subst hnode
    obtain ⟨F, hopaque, hclose⟩ := hbody ⟨items, hi, rfl, rfl⟩ (Opening.close_eq_some_iff.mp hn)
    refine hopaque.around [header] [close] fun ts c hts => ?_
    obtain ⟨items', hi', rfl, hb⟩ := hts
    refine .finished h ho hi' hc ?_
    rw [hb]
    exact Opening.close_eq_some_iff.mpr (hclose c)

/-! ## Steps -/

theorem Contents.ofNodes_modify_step (f : Step → Step) (xs : List Node) (s : Step)
    (ys : List Node) :
    ofNodes (xs ++ .step (f s) :: ys) = { ofNodes (xs ++ .step s :: ys) with
      steps := (ofNodes (xs ++ .step s :: ys)).steps.modify (xs.filterMap Node.step?).length f } := by
  simp [ofNodes_eq, List.filterMap_cons]

/-- An escape among steps. -/
theorem opaque_steps {index : Nat} {contexts : List Nat} {b : Contents}
    (hb : Body strict path texts b)
    (h : Step.at? index contexts b.steps = some (.hosted returns code)) :
    Opaque strict returns code (fun ts c => Body strict path ts
      { b with steps := Step.recodeAt index c contexts b.steps }) texts := by
  induction contexts generalizing path texts b with
  | nil =>
    obtain ⟨xs, ys, rfl, hlength, hopaque⟩ := opaque_body Contents.steps_ofNodes Node.eq_of_step? hb
      (show b.steps[index]? = some (.hosted returns code) from h)
      (g := fun c => .step (.hosted returns c)) opaque_hosted
    refine hopaque.imp fun ts c hts => ?_
    rw [← hlength]
    exact Contents.ofNodes_modify_step (Step.recode c) xs (.hosted returns code) ys ▸ hts
  | cons i contexts ih =>
    rw [Step.at?] at h
    split at h
    next name args inner comments hi =>
      have hentry : ∀ {ts}, Item strict path ts (some (.step (.context name args inner comments))) →
          Opaque strict returns code (fun ts c => Item strict path ts
            (some (.step (.context name args (Step.recodeAt index c contexts inner) comments)))) ts := by
        intro ts hitem
        refine opaque_finished hitem (by simp [Node.category, Opening.Opens]) fun hbody hclose => ?_
        cases hclose with
        | contextCall call => exact ⟨_, ih hbody h, fun c => .contextCall call⟩
      obtain ⟨xs, ys, rfl, hlength, hopaque⟩ :=
        opaque_body Contents.steps_ofNodes Node.eq_of_step? hb hi hentry
      refine hopaque.imp fun ts c hts => ?_
      rw [← hlength]
      exact Contents.ofNodes_modify_step (Step.mapInner (Step.recodeAt index c contexts)) xs
        (.context name args inner comments) ys ▸ hts
    · cases h

/-! ## Definitions and triggers -/

variable {index : Nat} {contexts : List Nat} {ts : List Text}

theorem opaque_definition {d : Definition} (hi : Item strict path ts (some (.definition d)))
    (h : Step.at? index contexts d.steps = some (.hosted returns code)) :
    Opaque strict returns code (fun ts c => Item strict path ts
      (some (.definition (d.mapSteps (Step.recodeAt index c contexts))))) ts := by
  have hne : Opening.Opens (Node.definition d).category := by
    cases d <;> simp [Node.category, Opening.Opens]
  refine opaque_finished hi hne fun hbody hclose => ?_
  cases hclose with
  | blockDefinition hr => exact ⟨_, opaque_steps hbody h, fun c => .blockDefinition hr⟩
  | contextDefinition hr => exact ⟨_, opaque_steps hbody h, fun c => .contextDefinition hr⟩
  | triggerDefinition hl => exact ⟨_, opaque_steps hbody h, fun c => .triggerDefinition hl⟩

theorem opaque_trigger {t : Trigger} (hi : Item strict path ts (some (.trigger t)))
    (h : Step.at? index contexts t.steps = some (.hosted returns code)) :
    Opaque strict returns code (fun ts c => Item strict path ts
      (some (.trigger (t.mapSteps (Step.recodeAt index c contexts))))) ts := by
  refine opaque_finished hi (by simp [Node.category, Opening.Opens]) fun hbody hclose => ?_
  cases hclose with
  | trigger event => exact ⟨_, opaque_steps hbody h, fun c => .trigger event⟩

/-! ## Libraries, sprites and stages -/

theorem opaque_library {l : Library} {j : Nat} {steps : List Step}
    (hi : Item strict path ts (some (.library l)))
    (hj : l.definitions[j]?.map (·.steps) = some steps)
    (h : Step.at? index contexts steps = some (.hosted returns code)) :
    Opaque strict returns code (fun ts c => Item strict path ts
      (some (.library (l.mapSteps (Step.recodeAt index c contexts) j)))) ts := by
  obtain ⟨d, hd, rfl⟩ := Option.map_eq_some_iff.mp hj
  refine opaque_finished hi (by simp [Node.category, Opening.Opens])
    fun {_ _ _ close} hbody hclose => ?_
  cases hclose with
  | library name hue language =>
    obtain ⟨xs, ys, rfl, hlength, hopaque⟩ := opaque_body Contents.definitions_ofNodes
      Node.eq_of_definition? hbody hd fun hitem => opaque_definition hitem h
    refine ⟨_, hopaque, fun c => ?_⟩
    have hfin := @Opening.Finishes.library (.ofNodes (xs ++
      .definition (d.mapSteps (Step.recodeAt index c contexts)) :: ys)) close name hue language
    rw [← hlength]
    simpa [Library.mapSteps, List.filterMap_cons] using hfin

/-- An escape in what a sprite or a stage holds. -/
theorem opaque_actor {b : Contents} {part : ActorPart} {steps : List Step}
    (hb : Body strict path texts b) (hpart : b.actor.steps? part = some steps)
    (h : Step.at? index contexts steps = some (.hosted returns code)) :
    ∃ F : Text → Contents, Opaque strict returns code (fun ts c => Body strict path ts (F c)) texts ∧
      ∀ c, (F c).actor = b.actor.mapSteps (Step.recodeAt index c contexts) part := by
  cases part with
  | definition i =>
    obtain ⟨d, hd, rfl⟩ := Option.map_eq_some_iff.mp hpart
    obtain ⟨xs, ys, rfl, hlength, hopaque⟩ := opaque_body (p := fun b => b.actor.definitions)
      Contents.blocks_ofNodes Node.eq_of_block? hb hd fun hitem => opaque_definition hitem h
    refine ⟨_, hopaque, fun c => ?_⟩
    rw [← hlength]
    simp [Actor.mapSteps, Contents.actor, List.filterMap_cons, Definition.block?,
      Definition.mapSteps, List.filterMap_filterMap]
  | trigger i =>
    obtain ⟨t, ht, rfl⟩ := Option.map_eq_some_iff.mp hpart
    obtain ⟨xs, ys, rfl, hlength, hopaque⟩ := opaque_body Contents.triggers_ofNodes
      Node.eq_of_trigger? hb ht fun hitem => opaque_trigger hitem h
    refine ⟨_, hopaque, fun c => ?_⟩
    rw [← hlength]
    simp [Actor.mapSteps, Contents.actor, List.filterMap_cons]

theorem opaque_sprite {s : Sprite} {part : ActorPart} {steps : List Step}
    (hi : Item strict path ts (some (.sprite s))) (hpart : s.actor.steps? part = some steps)
    (h : Step.at? index contexts steps = some (.hosted returns code)) :
    Opaque strict returns code (fun ts c => Item strict path ts
      (some (.sprite (s.mapSteps (Step.recodeAt index c contexts) part)))) ts := by
  refine opaque_finished hi (by simp [Node.category, Opening.Opens])
    fun {_ _ _ close} hbody hclose => ?_
  cases hclose with
  | sprite name =>
    obtain ⟨F, hopaque, hactor⟩ := opaque_actor hbody hpart h
    refine ⟨F, hopaque, fun c => ?_⟩
    have hfin : Opening.Finishes (F c) close (.sprite name) _ := .sprite name
    rw [hactor c] at hfin
    exact hfin

theorem opaque_stage {s : Stage} {part : ActorPart} {steps : List Step}
    (hi : Item strict path ts (some (.stage s))) (hpart : s.actor.steps? part = some steps)
    (h : Step.at? index contexts steps = some (.hosted returns code)) :
    Opaque strict returns code (fun ts c => Item strict path ts
      (some (.stage (s.mapSteps (Step.recodeAt index c contexts) part)))) ts := by
  refine opaque_finished hi (by simp [Node.category, Opening.Opens])
    fun {_ _ _ close} hbody hclose => ?_
  cases hclose with
  | stage name =>
    obtain ⟨F, hopaque, hactor⟩ := opaque_actor hbody hpart h
    refine ⟨F, hopaque, fun c => ?_⟩
    have hfin : Opening.Finishes (F c) close (.stage name) _ := .stage name
    rw [hactor c] at hfin
    exact hfin

/-! ## Units -/

theorem opaque_unit {u : CompilationUnit} {part : UnitPart} {steps : List Step}
    (hi : Item strict path ts (some (.unit u))) (hpart : u.steps? part = some steps)
    (h : Step.at? index contexts steps = some (.hosted returns code)) :
    Opaque strict returns code (fun ts c => Item strict path ts
      (some (.unit (u.mapSteps (Step.recodeAt index c contexts) part)))) ts := by
  refine opaque_finished hi (by simp [Node.category, Opening.Opens])
    fun {_ _ _ close} hbody hclose => ?_
  cases hclose with
  | unit name =>
    cases part with
    | library i j =>
      obtain ⟨l, hl, hj⟩ := Option.bind_eq_some_iff.mp hpart
      obtain ⟨xs, ys, rfl, hlength, hopaque⟩ := opaque_body Contents.libraries_ofNodes
        Node.eq_of_library? hbody hl fun hitem => opaque_library hitem hj h
      refine ⟨_, hopaque, fun c => ?_⟩
      have hfin := @Opening.Finishes.unit (.ofNodes (xs ++
        .library (l.mapSteps (Step.recodeAt index c contexts) j) :: ys)) close name
      rw [← hlength]
      simpa [CompilationUnit.mapSteps, List.filterMap_cons] using hfin
    | sprite i part =>
      obtain ⟨s, hs, hj⟩ := Option.bind_eq_some_iff.mp hpart
      obtain ⟨xs, ys, rfl, hlength, hopaque⟩ := opaque_body Contents.sprites_ofNodes
        Node.eq_of_sprite? hbody hs fun hitem => opaque_sprite hitem hj h
      refine ⟨_, hopaque, fun c => ?_⟩
      have hfin := @Opening.Finishes.unit (.ofNodes (xs ++
        .sprite (s.mapSteps (Step.recodeAt index c contexts) part) :: ys)) close name
      rw [← hlength]
      simpa [CompilationUnit.mapSteps, List.filterMap_cons] using hfin
    | stage i part =>
      obtain ⟨s, hs, hj⟩ := Option.bind_eq_some_iff.mp hpart
      obtain ⟨xs, ys, rfl, hlength, hopaque⟩ := opaque_body Contents.stages_ofNodes
        Node.eq_of_stage? hbody hs fun hitem => opaque_stage hitem hj h
      refine ⟨_, hopaque, fun c => ?_⟩
      have hfin := @Opening.Finishes.unit (.ofNodes (xs ++
        .stage (s.mapSteps (Step.recodeAt index c contexts) part) :: ys)) close name
      rw [← hlength]
      simpa [CompilationUnit.mapSteps, List.filterMap_cons] using hfin

end levels

/-! ## Sources -/

/-- The text of a raw line: a carriage return at its end belongs to the line feed. -/
def Line.chomp (raw : Text) : Text := Text.dropSuffix ['\r'] raw

namespace Document

/-- An escape of a good source may hold any other lines, and the document is the same with these lines
as the code in this one place. -/
theorem parse_recode {strict : Bool} {source : Text} {d : Document} {p : StepPlace}
    {returns : Option Returns} {code : Text} (h : parse strict source = .ok d)
    (hp : d.step? p = some (.hosted returns code)) :
    ∃ before header body close after,
      source.pieces = before ++ header :: (body ++ close :: after) ∧
      IsEscape strict returns code (Line.chomp header) (body.map Line.chomp) (Line.chomp close) ∧
      ∀ lines : List Text,
        (∀ t ∈ lines, '\n' ∉ t ∧ ¬ ['\r'] <:+ t ∧ t.trim ≠ ['@', ']']) →
        parse strict (Text.joinLines (before ++ header :: (lines ++ close :: after))) =
            .ok (d.recode p (Text.joinLines lines)) ∧
          (d.recode p (Text.joinLines lines)).step? p =
            some (.hosted returns (Text.joinLines lines)) := by
  obtain ⟨b, hbody, rfl⟩ := parse_eq_ok_iff_body.mp h
  obtain ⟨u, hu, hunit⟩ := Option.bind_eq_some_iff.mp hp
  obtain ⟨steps, hsteps, hat⟩ := Option.bind_eq_some_iff.mp hunit
  obtain ⟨xs, ys, rfl, hlength, hopaque⟩ := opaque_body Contents.units_ofNodes Node.eq_of_unit?
    hbody hu fun hitem => opaque_unit hitem hsteps hat
  rw [Line.map_text_ofSource] at hopaque
  obtain ⟨before', header', body', close', after', htexts, hescape, hread⟩ := hopaque
  obtain ⟨before, rest, hpieces, rfl, hrest⟩ := List.map_eq_append_iff.mp htexts
  obtain ⟨header, tail, hcons, rfl, htail⟩ := List.map_eq_cons_iff.mp hrest
  obtain ⟨body, last, rfl, rfl, hlast⟩ := List.map_eq_append_iff.mp htail
  obtain ⟨close, after, rfl, rfl, rfl⟩ := List.map_eq_cons_iff.mp hlast
  rw [hcons] at hpieces
  refine ⟨before, header, body, close, after, hpieces, hescape, fun lines hlines =>
    ⟨?_, step?_recode hp (Text.joinLines lines)⟩⟩
  have hfeed : ∀ t ∈ before ++ header :: (lines ++ close :: after), '\n' ∉ t := by
    intro t ht
    have hold : ∀ t ∈ before ++ header :: (body ++ close :: after), '\n' ∉ t := by
      rw [← hpieces]
      exact fun t => Text.not_mem_of_mem_pieces
    simp only [List.mem_append, List.mem_cons] at ht hold
    rcases ht with ht | ht | ht | ht | ht
    · exact hold t (Or.inl ht)
    · exact hold t (Or.inr (Or.inl ht))
    · exact (hlines t ht).1
    · exact hold t (Or.inr (Or.inr (Or.inr (Or.inl ht))))
    · exact hold t (Or.inr (Or.inr (Or.inr (Or.inr ht))))
  have hchomp : lines.map (Text.dropSuffix ['\r']) = lines := by
    refine (List.map_congr_left fun t ht => ?_).trans (List.map_id lines)
    exact Text.dropSuffix_of_not_suffix (hlines t ht).2.1
  refine parse_eq_ok_iff_body.mpr ⟨.ofNodes (xs ++ .unit (u.mapSteps
    (Step.recodeAt p.index (Text.joinLines lines) p.contexts) p.part) :: ys), ?_, ?_⟩
  · rw [Line.map_text_ofSource, Text.pieces_joinLines hfeed (by simp)]
    have hnew := hread lines fun t ht => (hlines t ht).2.2
    rw [List.map_append, List.map_cons, List.map_append, List.map_cons, hchomp]
    exact hnew
  · simp [recode, List.filterMap_cons, ← hlength]

/-- The escape in a definition of a stage. -/
theorem parse_recode_stage :
    ∃ (source : Text) (d : Document) (p : StepPlace), source = ['u', 'n', 'i', 't', ' ', 'A', ' ',
        '[', '\n', 's', 't', 'a', 'g', 'e', ' ', '[', '\n', 'd', 'e', 'f', 'i', 'n', 'e', ' ', 'f',
        ' ', '[', '\n', 'h', 'o', 's', 't', 'e', 'd', ' ', '[', '@', '\n', ']', '\n', '@', ']', '\n',
        ']', '\n', ']', '\n', ']'] ∧
      parse true source = .ok d ∧ d.step? p = some (.hosted none [']']) ∧
      ∃ before header body close after,
        source.pieces = before ++ header :: (body ++ close :: after) ∧
        IsEscape true none [']'] (Line.chomp header) (body.map Line.chomp) (Line.chomp close) ∧
        ∀ lines : List Text,
          (∀ t ∈ lines, '\n' ∉ t ∧ ¬ ['\r'] <:+ t ∧ t.trim ≠ ['@', ']']) →
          parse true (Text.joinLines (before ++ header :: (lines ++ close :: after))) =
              .ok (d.recode p (Text.joinLines lines)) ∧
            (d.recode p (Text.joinLines lines)).step? p =
              some (.hosted none (Text.joinLines lines)) :=
  ⟨_, _, ⟨0, .stage 0 (.definition 0), [], 0⟩, rfl, rfl, rfl, parse_recode rfl rfl⟩

end Document
end BlockText
