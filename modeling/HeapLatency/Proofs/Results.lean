/-!
# Results

What is known of a computation that succeeds: that its parts do, and with which values. One that
fails does so at its first part that fails.
-/

namespace HeapLatency

theorem bind_eq_ok {ε α β : Type} {first : Except ε α} {second : α → Except ε β} {b : β} :
    first >>= second = .ok b ↔ ∃ a, first = .ok a ∧ second a = .ok b := by
  cases first with
  | error e => simp [bind, Except.bind]
  | ok a => simp [bind, Except.bind]

theorem bind_eq_error {ε α β : Type} {first : Except ε α} {second : α → Except ε β} {e : ε} :
    first >>= second = .error e ↔
      first = .error e ∨ ∃ a, first = .ok a ∧ second a = .error e := by
  cases first with
  | error e => simp [bind, Except.bind]
  | ok a => simp [bind, Except.bind]

theorem pure_eq_ok {ε α : Type} {a b : α} : (pure a : Except ε α) = .ok b ↔ b = a := by
  constructor
  · intro h
    cases h
    rfl
  · rintro rfl
    rfl

theorem map_eq_ok {ε α β : Type} {f : α → β} {outcome : Except ε α} {b : β} :
    outcome.map f = .ok b ↔ ∃ a, outcome = .ok a ∧ b = f a := by
  cases outcome with
  | error e => exact iff_of_false nofun nofun
  | ok a =>
    constructor
    · intro h
      cases h
      exact ⟨a, rfl, rfl⟩
    · rintro ⟨a, h, rfl⟩
      cases h
      rfl

theorem map_eq_error {ε α β : Type} {f : α → β} {outcome : Except ε α} {error : ε} :
    outcome.map f = .error error ↔ outcome = .error error := by
  cases outcome with
  | error e =>
    constructor
    · intro h
      cases h
      rfl
    · intro h
      cases h
      rfl
  | ok a => exact iff_of_false nofun nofun

theorem mapError_eq_ok {ε φ α : Type} {f : ε → φ} {outcome : Except ε α} {a : α} :
    outcome.mapError f = .ok a ↔ outcome = .ok a := by
  cases outcome with
  | error e => exact iff_of_false nofun nofun
  | ok b =>
    constructor
    · intro h
      cases h
      rfl
    · intro h
      cases h
      rfl

theorem mapError_map {ε φ α β : Type} (f : α → β) (g : ε → φ) (outcome : Except ε α) :
    (outcome.map f).mapError g = (outcome.mapError g).map f := by
  cases outcome <;> rfl

theorem mapM_eq_pure {m : Type → Type} [Monad m] [LawfulMonad m] {α β : Type} {f : α → m β}
    {g : α → β} {items : List α} (h : ∀ a ∈ items, f a = pure (g a)) :
    items.mapM f = pure (items.map g) := by
  induction items with
  | nil => rw [List.mapM_nil, List.map_nil]
  | cons a items ih =>
    rw [List.mapM_cons, h a List.mem_cons_self, ih fun b hb => h b (List.mem_cons_of_mem a hb),
      pure_bind, pure_bind, List.map_cons]

/-- Where all steps that fail do so with one fault, and one of them fails, the fault is theirs. -/
theorem mapM_eq_error {ε α β : Type} {f : α → Except ε β} {error : ε} {items : List α}
    (hsome : ∃ a ∈ items, f a = .error error)
    (hall : ∀ a ∈ items, ∀ other, f a = .error other → other = error) :
    items.mapM f = .error error := by
  induction items with
  | nil =>
    obtain ⟨a, ha, -⟩ := hsome
    cases ha
  | cons a items ih =>
    rw [List.mapM_cons, bind_eq_error]
    cases hfirst : f a with
    | error other => exact .inl (by rw [hall a List.mem_cons_self other hfirst])
    | ok b =>
      refine .inr ⟨b, rfl, bind_eq_error.2 (.inl (ih ?_ ?_))⟩
      · obtain ⟨c, hc, hfault⟩ := hsome
        rcases List.mem_cons.1 hc with rfl | hc
        · rw [hfirst] at hfault
          cases hfault
        · exact ⟨c, hc, hfault⟩
      · exact fun c hc => hall c (List.mem_cons_of_mem a hc)

theorem exists_of_isOk {ε α : Type} {outcome : Except ε α} (h : outcome.isOk = true) :
    ∃ a, outcome = .ok a := by
  cases outcome with
  | error e => cases h
  | ok a => exact ⟨a, rfl⟩

theorem exists_error_of_ne_ok {ε α : Type} {outcome : Except ε α} (h : ∀ a, outcome ≠ .ok a) :
    ∃ error, outcome = .error error := by
  cases outcome with
  | error error => exact ⟨error, rfl⟩
  | ok a => exact absurd rfl (h a)

theorem eq_ok_of_toOption {ε α : Type} {outcome : Except ε α} {a : α}
    (h : outcome.toOption = some a) : outcome = .ok a := by
  cases outcome with
  | error e => cases h
  | ok b => exact congrArg Except.ok (Option.some.inj h)

/-- What can be told of a result is told of a result that there is. -/
theorem exists_of_toOption_map {ε α γ : Type} {outcome : Except ε α} {f : α → γ} {c : γ}
    (h : outcome.toOption.map f = some c) : ∃ a, outcome = .ok a ∧ f a = c := by
  obtain ⟨a, ha, hc⟩ := Option.map_eq_some_iff.1 h
  exact ⟨a, eq_ok_of_toOption ha, hc⟩

theorem exists_of_map_toOption {ε α β γ : Type} {run : Except ε α × β} {f : α → γ} {c : γ}
    (h : run.1.toOption.map f = some c) : ∃ a b, run = (.ok a, b) ∧ f a = c := by
  obtain ⟨a, ha, hc⟩ := exists_of_toOption_map h
  exact ⟨a, run.2, Prod.ext ha rfl, hc⟩

end HeapLatency
