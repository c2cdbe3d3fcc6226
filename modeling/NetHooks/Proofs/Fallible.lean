/-!
# Computations that may fail

When a chain of computations gives a result, each of them gave one; and what each step of a
fold keeps, the fold keeps.
-/
namespace NetHooks

universe u v w

theorem bind_eq_ok {ε : Type u} {α β : Type v} {x : Except ε α} {f : α → Except ε β} {b : β} :
    x >>= f = .ok b ↔ ∃ a, x = .ok a ∧ f a = .ok b := by
  cases x with
  | error e => simp [bind, Except.bind]
  | ok a => simp [bind, Except.bind]

theorem bind_eq_error {ε : Type u} {α β : Type v} {x : Except ε α} {f : α → Except ε β} {e : ε} :
    x >>= f = .error e ↔ x = .error e ∨ ∃ a, x = .ok a ∧ f a = .error e := by
  cases x with
  | error e => simp [bind, Except.bind]
  | ok a => simp [bind, Except.bind]

theorem map_eq_ok {ε : Type u} {α : Type v} {β : Type w} {x : Except ε α} {f : α → β} {b : β} :
    x.map f = .ok b ↔ ∃ a, x = .ok a ∧ f a = b := by
  cases x with
  | error e => simp [Except.map]
  | ok a => simp [Except.map]

theorem map_eq_error {ε : Type u} {α : Type v} {β : Type w} {x : Except ε α} {f : α → β} {e : ε} :
    x.map f = .error e ↔ x = .error e := by
  cases x with
  | error e' => simp [Except.map]
  | ok a => simp [Except.map]

theorem mapError_eq_ok {ε : Type u} {ε' : Type v} {α : Type w} {x : Except ε α} {f : ε → ε'} {a : α} :
    x.mapError f = .ok a ↔ x = .ok a := by
  constructor
  · intro h
    cases x with
    | error e => cases h
    | ok b => exact congrArg Except.ok (Except.ok.inj h)
  · rintro rfl
    rfl

theorem mapError_eq_error {ε : Type u} {ε' : Type v} {α : Type w} {x : Except ε α} {f : ε → ε'}
    {e' : ε'} : x.mapError f = .error e' ↔ ∃ e, x = .error e ∧ f e = e' := by
  constructor
  · intro h
    cases x with
    | error e => exact ⟨e, rfl, Except.error.inj h⟩
    | ok a => cases h
  · rintro ⟨e, rfl, rfl⟩
    rfl

/-- When each computation gives what its argument was made from, all together do. -/
theorem mapM_map_eq_ok {ε : Type u} {α β : Type v} {f : β → Except ε α} {g : α → β}
    (h : ∀ a, f (g a) = .ok a) (l : List α) : (l.map g).mapM f = .ok l := by
  induction l with
  | nil => rfl
  | cons a l ih =>
      rw [List.map_cons, List.mapM_cons]
      exact bind_eq_ok.2 ⟨a, h a, bind_eq_ok.2 ⟨l, ih, rfl⟩⟩

/-- Computations that each give a result under a condition on their argument. -/
theorem mapM_eq_ok_iff {ε : Type u} {α β : Type v} {f : α → Except ε β} {P : α → Prop} {g : α → β}
    (h : ∀ a b, f a = .ok b ↔ P a ∧ b = g a) {l : List α} {bs : List β} :
    l.mapM f = .ok bs ↔ (∀ a ∈ l, P a) ∧ bs = l.map g := by
  induction l generalizing bs with
  | nil => simp [pure, Except.pure, eq_comm]
  | cons a l ih =>
      rw [List.mapM_cons, bind_eq_ok, List.forall_mem_cons, List.map_cons]
      constructor
      · rintro ⟨b, ha, hrest⟩
        obtain ⟨bs', hl, hbs⟩ := bind_eq_ok.1 hrest
        obtain ⟨hPa, rfl⟩ := (h a b).1 ha
        obtain ⟨hPl, rfl⟩ := ih.1 hl
        cases hbs
        exact ⟨⟨hPa, hPl⟩, rfl⟩
      · rintro ⟨⟨hPa, hPl⟩, rfl⟩
        exact ⟨g a, (h a _).2 ⟨hPa, rfl⟩, bind_eq_ok.2 ⟨_, ih.2 ⟨hPl, rfl⟩, rfl⟩⟩

/-- A fold whose steps give results, and change a part of the state only, is a fold of that
part. -/
theorem foldlM_map_eq_ok {ε : Type u} {α β : Type w} {σ τ : Type v} {step : σ → β → Except ε σ}
    {g : α → β} {embed : τ → σ} {next : τ → α → τ} {l : List α}
    (h : ∀ s, ∀ a ∈ l, step (embed s) (g a) = .ok (embed (next s a))) (s : τ) :
    (l.map g).foldlM step (embed s) = .ok (embed (l.foldl next s)) := by
  induction l generalizing s with
  | nil => rfl
  | cons a l ih =>
      have hfirst := h s a List.mem_cons_self
      have hrest := ih fun s x hx => h s x (List.mem_cons_of_mem _ hx)
      rw [List.map_cons, List.foldlM_cons]
      exact bind_eq_ok.2 ⟨_, hfirst, hrest _⟩

/-- A property that each step keeps holds at the end. -/
theorem foldlM_keeps {ε : Type u} {α : Type w} {β : Type v} {step : β → α → Except ε β} {P : β → Prop}
    (hstep : ∀ b a b', P b → step b a = .ok b' → P b') {l : List α} {b b' : β} (hb : P b)
    (h : l.foldlM step b = .ok b') : P b' := by
  induction l generalizing b with
  | nil =>
      cases h
      exact hb
  | cons a l ih =>
      rw [List.foldlM_cons] at h
      obtain ⟨between, ha, hrest⟩ := bind_eq_ok.1 h
      exact ih (hstep b a between hb ha) hrest

/-- When a fold gives a result, so did the step at each member. -/
theorem exists_step_of_foldlM {ε : Type u} {α : Type w} {β : Type v} {step : β → α → Except ε β}
    {l : List α} {a : α} {b b' : β} (ha : a ∈ l) (h : l.foldlM step b = .ok b') :
    ∃ before after, step before a = .ok after := by
  induction l generalizing b with
  | nil => cases ha
  | cons x l ih =>
      rw [List.foldlM_cons] at h
      obtain ⟨between, hx, hrest⟩ := bind_eq_ok.1 h
      rcases List.mem_cons.1 ha with rfl | ha
      · exact ⟨b, between, hx⟩
      · exact ih ha hrest

/-- A fold fails as the first step that fails. -/
theorem foldlM_eq_error_iff {ε : Type u} {α : Type w} {β : Type v} {step : β → α → Except ε β}
    {l : List α} {b : β} {e : ε} : l.foldlM step b = .error e ↔
      ∃ before a after b', l = before ++ a :: after ∧ before.foldlM step b = .ok b' ∧
        step b' a = .error e := by
  constructor
  · intro h
    induction l generalizing b with
    | nil => cases h
    | cons a l ih =>
        rw [List.foldlM_cons] at h
        rcases bind_eq_error.1 h with ha | ⟨between, ha, hrest⟩
        · exact ⟨[], a, l, b, rfl, rfl, ha⟩
        · obtain ⟨before, a', after, b', rfl, hbefore, ha'⟩ := ih hrest
          refine ⟨a :: before, a', after, b', rfl, ?_, ha'⟩
          rw [List.foldlM_cons]
          exact bind_eq_ok.2 ⟨between, ha, hbefore⟩
  · rintro ⟨before, a, after, b', rfl, hbefore, ha⟩
    rw [List.foldlM_append]
    refine bind_eq_error.2 (.inr ⟨b', hbefore, ?_⟩)
    rw [List.foldlM_cons]
    exact bind_eq_error.2 (.inl ha)

/-- Of several computations, the first that fails gives the error. -/
theorem mapM_eq_error_iff {ε : Type u} {α β : Type v} {f : α → Except ε β} {l : List α} {e : ε} :
    l.mapM f = .error e ↔
      ∃ before a after bs, l = before ++ a :: after ∧ before.mapM f = .ok bs ∧ f a = .error e := by
  constructor
  · intro h
    induction l with
    | nil => cases h
    | cons a l ih =>
        rw [List.mapM_cons] at h
        rcases bind_eq_error.1 h with ha | ⟨b, ha, hrest⟩
        · exact ⟨[], a, l, [], rfl, rfl, ha⟩
        · rcases bind_eq_error.1 hrest with hl | ⟨bs, -, hdone⟩
          · obtain ⟨before, a', after, bs, rfl, hbefore, ha'⟩ := ih hl
            refine ⟨a :: before, a', after, b :: bs, rfl, ?_, ha'⟩
            rw [List.mapM_cons]
            exact bind_eq_ok.2 ⟨b, ha, bind_eq_ok.2 ⟨bs, hbefore, rfl⟩⟩
          · cases hdone
  · rintro ⟨before, a, after, bs, rfl, hbefore, ha⟩
    rw [List.mapM_append]
    refine bind_eq_error.2 (.inr ⟨bs, hbefore, ?_⟩)
    refine bind_eq_error.2 (.inl ?_)
    rw [List.mapM_cons]
    exact bind_eq_error.2 (.inl ha)

end NetHooks
