import Mathlib.Init

/-!
Rules for computations with a state that may stop: what such a computation ends
with, and for which reasons it may stop, while the state only makes progress.
-/

/-- A progress relation of states, and the reasons for which a computation may stop in a
state. A reason that arises later was there from the start. -/
structure Progress (σ ε : Type) where
  rel : σ → σ → Prop
  stops : ε → σ → Prop
  refl : ∀ s, rel s s
  trans : ∀ {s s' s''}, rel s s' → rel s' s'' → rel s s''
  back : ∀ {s s' e}, rel s s' → stops e s' → stops e s

variable {σ ε α β : Type}

/-- From `s` the computation makes progress and ends with `Q`, or stops for a reason. -/
def Runs (P : Progress σ ε) (m : StateT σ (Except ε) α) (s : σ) (Q : α → σ → Prop) : Prop :=
  match m s with
  | .ok (a, s') => P.rel s s' ∧ Q a s'
  | .error e => P.stops e s

namespace Runs

variable {P : Progress σ ε} {m : StateT σ (Except ε) α} {f : α → StateT σ (Except ε) β}
    {s s' : σ} {a : α}
  {Q : α → σ → Prop} {R : β → σ → Prop}

theorem of_ok (h : m s = .ok (a, s')) (rel : P.rel s s') (hQ : Q a s') : Runs P m s Q := by
  unfold Runs
  rw [h]
  exact ⟨rel, hQ⟩

theorem of_error {e : ε} (h : m s = .error e) (stop : P.stops e s) : Runs P m s Q := by
  unfold Runs
  rw [h]
  exact stop

theorem pure (hQ : Q a s) : Runs P (Pure.pure a) s Q := of_ok rfl (P.refl s) hQ

theorem mono (h : Runs P m s Q) {Q' : α → σ → Prop}
    (weaker : ∀ a s', P.rel s s' → Q a s' → Q' a s') :
    Runs P m s Q' := by
  unfold Runs at h ⊢
  cases out : m s with
  | error e =>
    rw [out] at h
    exact h
  | ok p =>
    rw [out] at h
    exact ⟨h.1, weaker p.1 p.2 h.1 h.2⟩

theorem bind (h : Runs P m s Q) (rest : ∀ a s', P.rel s s' → Q a s' → Runs P (f a) s' R) :
    Runs P (m >>= f) s R := by
  unfold Runs at h
  show match m s >>= fun p => f p.1 p.2 with
    | .ok (b, s') => P.rel s s' ∧ R b s'
    | .error e => P.stops e s
  cases out : m s with
  | error e =>
    rw [out] at h
    exact h
  | ok p =>
    rw [out] at h
    have next := rest p.1 p.2 h.1 h.2
    unfold Runs at next
    show match f p.1 p.2 with
      | .ok (b, s') => P.rel s s' ∧ R b s'
      | .error e => P.stops e s
    cases out₂ : f p.1 p.2 with
    | error e =>
      rw [out₂] at next
      exact P.back h.1 next
    | ok q =>
      rw [out₂] at next
      exact ⟨P.trans h.1 next.1, next.2⟩

/-- A step that always ends. -/
theorem bind_ok (h : m s = .ok (a, s')) (rel : P.rel s s') (rest : Runs P (f a) s' R) :
    Runs P (m >>= f) s R :=
  bind (Q := fun b t => b = a ∧ t = s') (of_ok h rel ⟨rfl, rfl⟩) fun b t _ same => by
    rw [same.1, same.2]
    exact rest

/-- A computation that goes on as another one does from a later state. -/
theorem goes_on {m' : StateT σ (Except ε) α} (h : m s = m' s') (rel : P.rel s s')
    (rest : Runs P m' s' Q) : Runs P m s Q := by
  unfold Runs at rest ⊢
  rw [h]
  cases out : m' s' with
  | error e =>
    rw [out] at rest
    exact P.back rel rest
  | ok p =>
    rw [out] at rest
    exact ⟨P.trans rel rest.1, rest.2⟩

/-- What a computation that ended gave. -/
theorem result (h : Runs P m s Q) (out : m s = .ok (a, s')) : P.rel s s' ∧ Q a s' := by
  unfold Runs at h
  rw [out] at h
  exact h

/-- Why a computation stopped. -/
theorem stopped {e : ε} (h : Runs P m s Q) (out : m s = .error e) : P.stops e s := by
  unfold Runs at h
  rw [out] at h
  exact h

/-- There may be more reasons to stop. -/
theorem weaken {P' : Progress σ ε} (h : Runs P m s Q) (rel : ∀ s', P.rel s s' → P'.rel s s')
    (stops : ∀ e, P.stops e s → P'.stops e s) : Runs P' m s Q := by
  unfold Runs at h ⊢
  cases out : m s with
  | error e =>
    rw [out] at h
    exact stops e h
  | ok p =>
    rw [out] at h
    exact ⟨rel p.2 h.1, h.2⟩

/-- A computation that has no reason to stop ends. -/
theorem total (h : Runs P m s Q) (none : ∀ e, ¬ P.stops e s) :
    ∃ a s', m s = .ok (a, s') ∧ P.rel s s' ∧ Q a s' := by
  unfold Runs at h
  cases out : m s with
  | error e =>
    rw [out] at h
    exact absurd h (none e)
  | ok p =>
    rw [out] at h
    exact ⟨p.1, p.2, rfl, h⟩

end Runs
