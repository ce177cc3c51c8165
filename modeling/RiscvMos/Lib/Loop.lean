import Mathlib.Logic.Function.Iterate

/-!
`while` loops with fuel: `run c f` goes on with `f` as long as `c` holds.
-/

namespace Loop

variable {σ : Type*}

def run (c : σ → Bool) (f : σ → σ) : Nat → σ → Option σ
  | 0, _ => none
  | fuel + 1, s => if c s = true then run c f fuel (f s) else some s

variable {c : σ → Bool} {f : σ → σ} {fuel k : Nat} {s s' : σ}

/-- The loop ends when its test fails first. -/
theorem run_ends (more : ∀ i < k, c (f^[i] s) = true) (stop : c (f^[k] s) = false)
    (enough : k < fuel) :
    run c f fuel s = some (f^[k] s) := by
  induction k generalizing fuel s with
  | zero =>
    cases fuel with
    | zero => exact absurd enough (Nat.lt_irrefl 0)
    | succ fuel =>
      have fails : ¬c s = true := by
        rw [Function.iterate_zero_apply] at stop
        rw [stop]
        exact Bool.false_ne_true
      exact if_neg fails
  | succ k ih =>
    cases fuel with
    | zero => exact absurd enough (Nat.not_lt_zero _)
    | succ fuel =>
      have first : c s = true := more 0 (Nat.succ_pos k)
      rw [run, if_pos first]
      exact ih (fun i hi => more (i + 1) (Nat.succ_lt_succ hi)) stop (Nat.lt_of_succ_lt_succ enough)

/-- Where a loop ends its test fails, and it held on the way. -/
theorem run_some (h : run c f fuel s = some s') :
    ∃ k, s' = f^[k] s ∧ c s' = false ∧ ∀ i < k, c (f^[i] s) = true := by
  induction fuel generalizing s with
  | zero => cases h
  | succ fuel ih =>
    unfold run at h
    by_cases more : c s = true
    · rw [if_pos more] at h
      obtain ⟨k, last, stop, way⟩ := ih h
      refine ⟨k + 1, last, stop, fun i hi => ?_⟩
      cases i with
      | zero => exact more
      | succ i => exact way i (Nat.lt_of_succ_lt_succ hi)
    · rw [if_neg more] at h
      refine ⟨0, (Option.some.inj h).symm, ?_, fun i hi => absurd hi (Nat.not_lt_zero i)⟩
      rw [← Option.some.inj h]
      exact eq_false_of_ne_true more

/-- A test that never fails. -/
theorem run_never (h : ∀ i, c (f^[i] s) = true) : run c f fuel s = none := by
  cases run_ : run c f fuel s with
  | none => rfl
  | some s' =>
    obtain ⟨k, last, stop, _⟩ := run_some run_
    rw [last, h k] at stop
    cases stop

end Loop
