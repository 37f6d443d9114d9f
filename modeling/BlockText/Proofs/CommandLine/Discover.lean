/-
Which fixtures a command is about.

Fixtures are found by a walk, sorted by category and place, put together by category, and kept where
their category is asked for.  None of this loses a fixture or takes one twice: what is selected is what
was found and is asked for, in the order of `foundLe` (`CommandLine.flatMap_select`).  The order is a
linear one (`CommandLine.discover_of_perm`), so what is selected depends neither on the order in
which the walk came to the fixtures nor on the order of the requests (`CommandLine.select_congr`).
-/
import BlockText.CommandLine.FixtureRun
import BlockText.Proofs.FileTree.Walk
import BlockText.Proofs.Text.Trim

namespace BlockText
namespace CommandLine

/-! ## Order -/

/-- The test is the one of a linear order. -/
structure IsOrder {α : Type} (le : α → α → Bool) : Prop where
  total : ∀ a b, le a b = true ∨ le b a = true
  trans : ∀ {a b c}, le a b = true → le b c = true → le a c = true
  antisymm : ∀ {a b}, le a b = true → le b a = true → a = b

namespace IsOrder

variable {α : Type} {le : α → α → Bool} (h : IsOrder le) {a b c : α} {s t u : Bool}
include h

/-- A second test decides between equals. -/
theorem then_iff : (le a b && (!le b a || s)) = true ↔ le a b = true ∧ (a = b → s = true) := by
  rw [Bool.and_eq_true]
  refine and_congr_right fun hab => ?_
  constructor
  · rintro hs rfl
    rw [hab] at hs
    exact hs
  · intro hs
    by_cases hba : le b a = true
    · rw [hs (h.antisymm hab hba)]
      exact Bool.or_true _
    · rw [eq_false_of_ne_true hba]
      rfl

theorem then_total (hs : s = true ∨ t = true) :
    (le a b && (!le b a || s)) = true ∨ (le b a && (!le a b || t)) = true := by
  rw [h.then_iff, h.then_iff]
  by_cases he : a = b
  · subst he
    have haa : le a a = true := (h.total a a).elim id id
    exact hs.imp (fun hs => ⟨haa, fun _ => hs⟩) fun ht => ⟨haa, fun _ => ht⟩
  · exact (h.total a b).imp (fun hab => ⟨hab, fun he' => absurd he' he⟩)
      fun hba => ⟨hba, fun he' => absurd he'.symm he⟩

theorem then_trans (hst : s = true → t = true → u = true)
    (hab : (le a b && (!le b a || s)) = true) (hbc : (le b c && (!le c b || t)) = true) :
    (le a c && (!le c a || u)) = true := by
  rw [h.then_iff] at hab hbc ⊢
  refine ⟨h.trans hab.1 hbc.1, ?_⟩
  rintro rfl
  have he : a = b := h.antisymm hab.1 hbc.1
  exact hst (hab.2 he) (hbc.2 he.symm)

theorem then_antisymm (hab : (le a b && (!le b a || s)) = true)
    (hba : (le b a && (!le a b || t)) = true) : a = b ∧ s = true ∧ t = true := by
  rw [h.then_iff] at hab hba
  have he : a = b := h.antisymm hab.1 hba.1
  exact ⟨he, hab.2 he, hba.2 he.symm⟩

/-- Lists of ordered items are ordered. -/
theorem list : IsOrder (listLe le) where
  total xs ys := by
    induction xs generalizing ys with
    | nil => exact Or.inl (by rw [listLe])
    | cons x xs ih =>
      cases ys with
      | nil => exact Or.inr (by rw [listLe])
      | cons y ys => exact h.then_total (ih ys)
  trans {xs ys zs} hxy hyz := by
    induction xs generalizing ys zs with
    | nil => rw [listLe]
    | cons x xs ih =>
      match ys, zs with
      | [], _ => cases hxy
      | y :: ys, [] => cases hyz
      | y :: ys, z :: zs => exact h.then_trans ih hxy hyz
  antisymm {xs ys} hxy hyx := by
    induction xs generalizing ys with
    | nil =>
      cases ys with
      | nil => rfl
      | cons y ys => cases hyx
    | cons x xs ih =>
      cases ys with
      | nil => cases hxy
      | cons y ys =>
        obtain ⟨rfl, hs, ht⟩ := h.then_antisymm hxy hyx
        rw [ih hs ht]

end IsOrder

theorem isOrder_textLe : IsOrder textLe :=
  IsOrder.list
    { total := fun a b => by simpa using Nat.le_total a.toNat b.toNat
      trans := fun hab hbc =>
        decide_eq_true (Nat.le_trans (of_decide_eq_true hab) (of_decide_eq_true hbc))
      antisymm := fun {a b} hab hba =>
        Char.toNat_inj.mp (Nat.le_antisymm (of_decide_eq_true hab) (of_decide_eq_true hba)) }

theorem isOrder_placeLe : IsOrder placeLe := isOrder_textLe.list

/-! ## Finding fixtures -/

theorem foundLe_total (a b : Found) : (foundLe a b || foundLe b a) = true := by
  rw [Bool.or_eq_true]
  exact isOrder_textLe.then_total (isOrder_placeLe.total a.place b.place)

theorem foundLe_trans (a b c : Found) (hab : foundLe a b = true) (hbc : foundLe b c = true) :
    foundLe a c = true :=
  isOrder_textLe.then_trans isOrder_placeLe.trans hab hbc

/-- The last name on the way is that of a fixture. -/
def EndsAsFixture (names : Place) : Prop := ∃ name ∈ names.getLast?, fixtureEnding <:+ name

theorem endsAsFixture_iff {names : Place} :
    isFixtureName (names.getLast?.getD []) = true ↔ EndsAsFixture names := by
  rw [isFixtureName, List.isSuffixOf_iff_suffix, EndsAsFixture]
  cases names.getLast? with
  | none => exact iff_of_false (fun h => nomatch List.suffix_nil.mp h) fun ⟨_, h, _⟩ => nomatch h
  | some name => exact ⟨fun h => ⟨name, rfl, h⟩, fun ⟨_, he, h⟩ => Option.some.inj he ▸ h⟩

section discover

variable {tree tree' : FileTree} {path : Text}

theorem perm_discover (tree : FileTree) (path : Text) :
    (discover tree path).Perm (((tree.below path).filter fun p =>
      isFixtureName (p.getLast?.getD [])).map (foundAt path)) :=
  List.mergeSort_perm _ _

theorem mem_discover {f : Found} : f ∈ discover tree path ↔
    ∃ names, (names ∈ tree.below path ∧ EndsAsFixture names) ∧ foundAt path names = f := by
  rw [(perm_discover tree path).mem_iff, List.mem_map]
  simp only [List.mem_filter, endsAsFixture_iff]

/-- A fixture is found once. -/
theorem nodup_discover (tree : FileTree) (path : Text) : (discover tree path).Nodup := by
  rw [(perm_discover tree path).nodup_iff]
  refine ((tree.nodup_below path).filter _).map fun p q he => ?_
  exact congrArg Found.place he

/-- The order in which a walk comes to the fixtures does not show. -/
theorem discover_of_perm (h : (tree'.below path).Perm (tree.below path)) :
    discover tree' path = discover tree path := by
  have hperm : (discover tree' path).Perm (discover tree path) :=
    (perm_discover tree' path).trans
      (((h.filter _).map _).trans (perm_discover tree path).symm)
  refine hperm.eq_of_pairwise (fun a b ha hb hab hba => ?_)
    (List.pairwise_mergeSort foundLe_trans foundLe_total _)
    (List.pairwise_mergeSort foundLe_trans foundLe_total _)
  -- category and path are told from the place
  obtain ⟨-, hp, hq⟩ := isOrder_textLe.then_antisymm hab hba
  obtain ⟨p, -, rfl⟩ := mem_discover.mp ha
  obtain ⟨q, -, rfl⟩ := mem_discover.mp hb
  have hplace : p = q := isOrder_placeLe.antisymm hp hq
  rw [hplace]

end discover

/-! ## Categories -/

section groupBy

variable {α : Type} {key : α → Text}

theorem flatMap_groupBy (key : α → Text) (l : List α) : (groupBy key l).flatMap (·.2) = l := by
  induction l with
  | nil => rfl
  | cons x l ih =>
    rw [groupBy]
    split
    next k ys groups hg =>
      rw [hg, List.flatMap_cons] at ih
      split
      · rw [List.flatMap_cons, List.cons_append, ih]
      · rw [List.flatMap_cons, List.flatMap_cons, List.singleton_append, ih]
    next hg =>
      rw [hg] at ih
      rw [← ih]
      rfl

/-- A group holds something, all of it with the group's key. -/
theorem mem_groupBy {l : List α} {g : Text × List α} (hg : g ∈ groupBy key l) :
    g.2 ≠ [] ∧ ∀ x ∈ g.2, key x = g.1 := by
  induction l generalizing g with
  | nil => cases hg
  | cons x l ih =>
    have hnew : ([x] ≠ []) ∧ ∀ y ∈ [x], key y = key x :=
      ⟨List.cons_ne_nil _ _, fun y hy => congrArg key (List.mem_singleton.mp hy)⟩
    rw [groupBy] at hg
    split at hg
    next k ys groups hgroups =>
      rw [hgroups] at ih
      split at hg
      next hk =>
        rcases List.mem_cons.mp hg with rfl | hg
        · refine ⟨List.cons_ne_nil _ _, fun y hy => ?_⟩
          rcases List.mem_cons.mp hy with rfl | hy
          · exact (beq_iff_eq.mp hk).symm
          · exact (ih List.mem_cons_self).2 y hy
        · exact ih (List.mem_cons_of_mem _ hg)
      next =>
        rcases List.mem_cons.mp hg with rfl | hg
        · exact hnew
        · exact ih hg
    next =>
      rw [List.mem_singleton.mp hg]
      exact hnew

/-- Keeping groups by their key is keeping items by their key. -/
theorem flatMap_filter_groupBy (keep : Text → Bool) (l : List α) :
    ((groupBy key l).filter fun g => keep g.1).flatMap (·.2) = l.filter fun x => keep (key x) := by
  have hgroups : ∀ gs : List (Text × List α), (∀ g ∈ gs, ∀ x ∈ g.2, key x = g.1) →
      (gs.filter fun g => keep g.1).flatMap (·.2) =
        (gs.flatMap (·.2)).filter fun x => keep (key x) := by
    intro gs
    induction gs with
    | nil => exact fun _ => rfl
    | cons g gs ih =>
      intro h
      have hg : g.2.filter (fun x => keep (key x)) = if keep g.1 then g.2 else [] := by
        split
        next hk => exact List.filter_eq_self.mpr fun x hx => (h g List.mem_cons_self x hx).symm ▸ hk
        next hk =>
          exact List.filter_eq_nil_iff.mpr fun x hx => (h g List.mem_cons_self x hx).symm ▸ hk
      rw [List.flatMap_cons, List.filter_append, hg, List.filter_cons,
        ← ih fun g' hg' => h g' (List.mem_cons_of_mem g hg')]
      split
      · rw [List.flatMap_cons]
      · rfl
  rw [hgroups _ fun g hg => (mem_groupBy hg).2, flatMap_groupBy]

end groupBy

/-! ## Requests -/

theorem exists_dropWhile_slashes (t : Text) : ∃ slashes, (∀ c ∈ slashes, c = '/') ∧
    t = slashes ++ t.dropWhile (· == '/') ∧ (t.dropWhile (· == '/')).head? ≠ some '/' := by
  refine ⟨t.takeWhile (· == '/'), fun c hc => ?_, List.takeWhile_append_dropWhile.symm, fun h => ?_⟩
  · exact beq_iff_eq.mp (List.all_eq_true.mp List.all_takeWhile c hc)
  · have hnot := List.head?_dropWhile_not (· == '/') t
    rw [h] at hnot
    cases hnot

/-- What a request is without the slashes around it. -/
theorem requested_eq_iff {request name : Text} :
    requested request = name ↔ ∃ before after, request = before ++ name ++ after ∧
      (∀ c ∈ before ++ after, c = '/') ∧ name.head? ≠ some '/' ∧ name.getLast? ≠ some '/' := by
  have hreq : requested request =
      ((request.dropWhile (· == '/')).reverse.dropWhile (· == '/')).reverse := rfl
  rw [hreq]
  constructor
  · rintro rfl
    obtain ⟨before, hbefore, hrequest, hhead⟩ := exists_dropWhile_slashes request
    obtain ⟨after, hafter, hrest, hlast⟩ :=
      exists_dropWhile_slashes (request.dropWhile (· == '/')).reverse
    generalize request.dropWhile (· == '/') = rest at *
    generalize rest.reverse.dropWhile (· == '/') = name at *
    have hrest : rest = name.reverse ++ after.reverse := by
      rw [← List.reverse_append, ← hrest, List.reverse_reverse]
    refine ⟨before, after.reverse, ?_, fun c hc => ?_, fun h => hhead ?_, ?_⟩
    · rw [hrequest, hrest, List.append_assoc]
    · exact (List.mem_append.mp hc).elim (hbefore c) fun hc => hafter c (List.mem_reverse.mp hc)
    · rw [hrest, List.head?_append, h]
      rfl
    · rwa [List.getLast?_reverse]
  · rintro ⟨before, after, rfl, hslash, hhead, hlast⟩
    have hafter : ∀ c ∈ after.reverse, c = '/' := fun c hc =>
      hslash c (List.mem_append_right _ (List.mem_reverse.mp hc))
    by_cases hname : name = []
    · -- then all of the request is slashes
      have hall : (before ++ after).dropWhile (· == '/') = [] := by
        have hdrop := Text.dropWhile_append_eq hslash (t := []) (fun h => nomatch h)
        rwa [List.append_nil] at hdrop
      rw [hname, List.append_nil, hall]
      rfl
    · have hrest : (name ++ after).head? ≠ some '/' := by
        rwa [List.head?_append_of_ne_nil _ hname]
      have hbefore : ∀ c ∈ before, c = '/' := fun c hc => hslash c (List.mem_append_left _ hc)
      rw [List.append_assoc, Text.dropWhile_append_eq hbefore hrest, List.reverse_append,
        Text.dropWhile_append_eq hafter (by rwa [List.head?_reverse]), List.reverse_reverse]

/-- Nothing is requested, or some request, without the slashes around it, is the category or leads to
one above it. -/
def Requests (requests : List Text) (category : Text) : Prop :=
  requests = [] ∨ ∃ request ∈ requests, ∃ before name after, request = before ++ name ++ after ∧
    (∀ c ∈ before ++ after, c = '/') ∧ name.head? ≠ some '/' ∧ name.getLast? ≠ some '/' ∧
    (category = name ∨ name ++ ['/'] <+: category)

/-- The test for `Requests`. -/
def isRequested (requests : List Text) (category : Text) : Bool :=
  requests.isEmpty || requests.any fun r => asksFor (requested r) category

theorem isRequested_iff {requests : List Text} {category : Text} :
    isRequested requests category = true ↔ Requests requests category := by
  rw [isRequested, Bool.or_eq_true, List.isEmpty_iff, List.any_eq_true]
  refine or_congr_right (exists_congr fun r => and_congr_right fun _ => ?_)
  rw [asksFor, Bool.or_eq_true, beq_iff_eq, List.isPrefixOf_iff_prefix]
  constructor
  · intro h
    obtain ⟨before, after, hr, hslash, hhead, hlast⟩ := requested_eq_iff.mp (rfl : requested r = _)
    exact ⟨before, _, after, hr, hslash, hhead, hlast, h⟩
  · rintro ⟨before, name, after, hr, hslash, hhead, hlast, h⟩
    rw [requested_eq_iff.mpr ⟨before, after, hr, hslash, hhead, hlast⟩]
    exact h

theorem select_eq (all : Categories) (requests : List Text) :
    select all requests = all.filter fun g => isRequested requests g.1 := by
  rw [select]
  split
  next h =>
    refine (List.filter_eq_self.mpr fun g _ => ?_).symm
    rw [isRequested, h]
    rfl
  next h =>
    refine List.filter_congr fun g _ => ?_
    rw [isRequested, eq_false_of_ne_true h]
    rfl

/-- Neither the order of the requests shows nor how often one is made. -/
theorem select_congr {requests requests' : List Text} (h : ∀ r, r ∈ requests' ↔ r ∈ requests)
    (all : Categories) : select all requests' = select all requests := by
  rw [select_eq, select_eq]
  refine List.filter_congr fun g _ => ?_
  rw [Bool.eq_iff_iff, isRequested_iff, isRequested_iff, Requests, Requests,
    List.eq_nil_iff_forall_not_mem, List.eq_nil_iff_forall_not_mem]
  simp only [h]

/-- What is selected is what was found and is asked for. -/
theorem flatMap_select (found : List Found) (requests : List Text) :
    (select (groupBy (·.category) found) requests).flatMap (·.2) =
      found.filter fun f => isRequested requests f.category := by
  rw [select_eq, flatMap_filter_groupBy]

end CommandLine
end BlockText
