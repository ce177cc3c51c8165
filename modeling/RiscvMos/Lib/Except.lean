import Mathlib.Init

/-! Rules for computations that may halt. -/

/-- What a computation that was evaluated gives. -/
theorem Option.exists_of_any {α : Type} {o : Option α} {q : α → Prop} [DecidablePred q]
    (h : o.any (fun a => decide (q a)) = true) : ∃ a, o = some a ∧ q a := by
  obtain ⟨a, ha, hq⟩ := (Option.any_eq_true _ o).mp h
  exact ⟨a, ha, of_decide_eq_true hq⟩

theorem Except.ok_of_toOption {ε α : Type} {x : Except ε α} {a : α} (h : x.toOption = some a) :
    x = .ok a := by
  cases x with
  | error e => cases h
  | ok b => rw [Option.some.inj h]

theorem Except.bind_ok_iff {ε α β : Type} {x : Except ε α} {f : α → Except ε β} {b : β} :
    (x >>= f) = .ok b ↔ ∃ a, x = .ok a ∧ f a = .ok b := by
  cases x <;> simp [bind, Except.bind]

/-- A loop whose every step returns, keeps `P`, establishes `Q` of its element
and keeps `Q` of the others. -/
theorem Except.foldlM_ok {ε σ α : Type} {f : σ → α → Except ε σ} {P : σ → Prop}
    {Q : α → σ → Prop}
    (hstep : ∀ s a, P s → ∃ s', f s a = .ok s' ∧ P s' ∧ Q a s' ∧ ∀ b, Q b s → Q b s')
    (l : List α) {s : σ} (hs : P s) :
    ∃ s', l.foldlM f s = .ok s' ∧ P s' ∧ (∀ a ∈ l, Q a s') ∧ ∀ b, Q b s → Q b s' := by
  induction l generalizing s with
  | nil => exact ⟨s, rfl, hs, by simp, fun _ h => h⟩
  | cons a l ih =>
    obtain ⟨s₁, h₁, hP₁, hQ₁, hk₁⟩ := hstep s a hs
    obtain ⟨s', h', hP', hQ', hk'⟩ := ih hP₁
    refine ⟨s', ?_, hP', ?_, fun b hb => hk' b (hk₁ b hb)⟩
    · rw [List.foldlM_cons]
      exact Except.bind_ok_iff.mpr ⟨s₁, h₁, h'⟩
    · intro b hb
      rcases List.mem_cons.mp hb with rfl | hb
      · exact hk' b hQ₁
      · exact hQ' b hb

section
variable {σ ε α β : Type}

theorem ExceptT.bind_run (m : ExceptT ε (StateM σ) α) (f : α → ExceptT ε (StateM σ) β) (s : σ) :
    (m >>= f) s = match m s with
      | (.ok a, s') => f a s'
      | (.error e, s') => (.error e, s') := by
  show ExceptT.bindCont f (m s).1 (m s).2 = _
  cases m s with
  | mk r s' =>
    cases r with
    | error e => rfl
    | ok a => rfl

/-- A computation that keeps its state when it fails. -/
theorem ExceptT.bind_ok_iff {m : ExceptT ε (StateM σ) α} {f : α → ExceptT ε (StateM σ) β}
    {s s' : σ} {b : β} :
    (m >>= f) s = (.ok b, s') ↔ ∃ a s₁, m s = (.ok a, s₁) ∧ f a s₁ = (.ok b, s') := by
  rw [ExceptT.bind_run]
  constructor
  · intro h
    cases hm : m s with
    | mk r s₁ =>
      rw [hm] at h
      cases r with
      | error e => cases h
      | ok a => exact ⟨a, s₁, rfl, h⟩
  · intro ⟨a, s₁, hm, h⟩
    rw [hm]
    exact h

/-- A computation that does not. -/
theorem StateT.bind_ok_iff {m : StateT σ (Except ε) α} {f : α → StateT σ (Except ε) β}
    {s s' : σ} {b : β} :
    (m >>= f) s = .ok (b, s') ↔ ∃ a s₁, m s = .ok (a, s₁) ∧ f a s₁ = .ok (b, s') := by
  show (m s >>= fun x => f x.1 x.2) = _ ↔ _
  rw [Except.bind_ok_iff]
  constructor
  · intro ⟨⟨a, s₁⟩, hm, h⟩
    exact ⟨a, s₁, hm, h⟩
  · intro ⟨a, s₁, hm, h⟩
    exact ⟨(a, s₁), hm, h⟩

end
