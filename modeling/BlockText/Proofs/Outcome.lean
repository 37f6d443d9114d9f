/-
Outcomes of readers: which successes and which errors a combined reader has.
-/
namespace BlockText
namespace Outcome

variable {ε ε' α β : Type} {r : Except ε α}

theorem bind_eq_ok_iff {f : α → Except ε β} {y : β} :
    r >>= f = .ok y ↔ ∃ x, r = .ok x ∧ f x = .ok y := by
  cases r with
  | error e => exact ⟨fun h => (nomatch h), fun ⟨_, h, _⟩ => (nomatch h)⟩
  | ok x => exact ⟨fun h => ⟨x, rfl, h⟩, fun ⟨_, hx, h⟩ => Except.ok.inj hx ▸ h⟩

theorem bind_eq_error_iff {f : α → Except ε β} {e : ε} :
    r >>= f = .error e ↔ r = .error e ∨ ∃ x, r = .ok x ∧ f x = .error e := by
  cases r with
  | error e' =>
    refine ⟨fun h => Or.inl (congrArg Except.error (Except.error.inj h)), fun h => ?_⟩
    rcases h with h | ⟨_, h, _⟩
    · exact congrArg Except.error (Except.error.inj h)
    · cases h
  | ok x =>
    refine ⟨fun h => Or.inr ⟨x, rfl, h⟩, fun h => ?_⟩
    rcases h with h | ⟨_, hx, h⟩
    · cases h
    · exact Except.ok.inj hx ▸ h

theorem map_eq_ok_iff {f : α → β} {y : β} : r.map f = .ok y ↔ ∃ x, r = .ok x ∧ f x = y := by
  cases r with
  | error e => exact ⟨fun h => (nomatch h), fun ⟨_, h, _⟩ => (nomatch h)⟩
  | ok x =>
    exact ⟨fun h => ⟨x, rfl, Except.ok.inj h⟩,
      fun ⟨_, hx, h⟩ => congrArg Except.ok (Except.ok.inj hx ▸ h)⟩

theorem map_eq_error_iff {f : α → β} {e : ε} : r.map f = .error e ↔ r = .error e := by
  cases r with
  | error e' => exact ⟨fun h => congrArg Except.error (Except.error.inj h),
      fun h => congrArg Except.error (Except.error.inj h)⟩
  | ok x => exact ⟨fun h => (nomatch h), fun h => (nomatch h)⟩

theorem mapError_eq_ok_iff {f : ε → ε'} {x : α} : r.mapError f = .ok x ↔ r = .ok x := by
  cases r with
  | error e => exact ⟨fun h => (nomatch h), fun h => (nomatch h)⟩
  | ok y => exact ⟨fun h => congrArg Except.ok (Except.ok.inj h),
      fun h => congrArg Except.ok (Except.ok.inj h)⟩

theorem mapError_eq_error_iff {f : ε → ε'} {e : ε'} :
    r.mapError f = .error e ↔ ∃ e', r = .error e' ∧ f e' = e := by
  cases r with
  | error e' =>
    exact ⟨fun h => ⟨e', rfl, Except.error.inj h⟩,
      fun ⟨_, he, h⟩ => congrArg Except.error (Except.error.inj he ▸ h)⟩
  | ok y => exact ⟨fun h => (nomatch h), fun ⟨_, h, _⟩ => (nomatch h)⟩

theorem mapError_map {f : ε → ε'} {g : α → β} (r : Except ε α) :
    (r.map g).mapError f = (r.mapError f).map g := by
  cases r <;> rfl

theorem mapError_bind {f : ε → ε'} {g : α → Except ε β} (r : Except ε α) :
    (r >>= g).mapError f = r.mapError f >>= fun x => (g x).mapError f := by
  cases r <;> rfl

/-- Both readers succeed or both fail, with related results. -/
inductive Related (R : α → β → Prop) (E : ε → ε' → Prop) : Except ε α → Except ε' β → Prop
  | ok {x : α} {y : β} (h : R x y) : Related R E (.ok x) (.ok y)
  | error {e : ε} {e' : ε'} (h : E e e') : Related R E (.error e) (.error e')

/-- Outcomes with one image are related by having one image. -/
theorem related_of_image {γ ζ : Type} {r : Except ε α} {r' : Except ε' β} {f : α → γ} {f' : β → γ}
    {g : ε → ζ} {g' : ε' → ζ} (h : (r.map f).mapError g = (r'.map f').mapError g') :
    Related (fun x y => f x = f' y) (fun e e' => g e = g' e') r r' := by
  cases r with
  | error e =>
    cases r' with
    | error e' => exact .error (Except.error.inj h)
    | ok y => cases h
  | ok x =>
    cases r' with
    | error e' => cases h
    | ok y => exact .ok (Except.ok.inj h)

theorem Related.mono {R R' : α → β → Prop} {E E' : ε → ε' → Prop} {r : Except ε α}
    {r' : Except ε' β} (h : Related R E r r') (hr : ∀ x y, R x y → R' x y)
    (he : ∀ e e', E e e' → E' e e') : Related R' E' r r' := by
  cases h with
  | ok h => exact .ok (hr _ _ h)
  | error h => exact .error (he _ _ h)

theorem Related.of_map {γ : Type} {R : α → β → Prop} {E : ε → ε' → Prop} {f : γ → α}
    {r : Except ε γ} {r' : Except ε' β} (h : Related R E (r.map f) r') :
    Related (fun x y => R (f x) y) E r r' := by
  cases r with
  | error e =>
    cases h with
    | error h => exact .error h
  | ok x =>
    cases h with
    | ok h => exact .ok h

theorem Related.bind {α' β' : Type} {R : α → α' → Prop} {R' : β → β' → Prop} {E : ε → ε' → Prop}
    {r : Except ε α} {r' : Except ε' α'} {f : α → Except ε β} {f' : α' → Except ε' β'}
    (h : Related R E r r')
    (hf : ∀ x y, R x y → Related R' E (f x) (f' y)) : Related R' E (r >>= f) (r' >>= f') := by
  cases h with
  | ok h => exact hf _ _ h
  | error h => exact .error h

theorem Related.mapError {ζ ζ' : Type} {R : α → β → Prop} {E : ε → ε' → Prop} {F : ζ → ζ' → Prop}
    {r : Except ε α} {r' : Except ε' β} {f : ε → ζ} {f' : ε' → ζ'} (h : Related R E r r')
    (he : ∀ e e', E e e' → F (f e) (f' e')) : Related R F (r.mapError f) (r'.mapError f') := by
  cases h with
  | ok h => exact .ok h
  | error h => exact .error (he _ _ h)

end Outcome
end BlockText
