import Mathlib.Order.Basic
import Mathlib.Data.Set.Insert
import Mathlib.Data.List.Basic

/-!
A set of free elements, from which the least usable one is taken and to which known ones
are given back.
-/

namespace FirstFree

inductive Op (α : Type*) where
  | take
  | free (x : α)

inductive Reply (α : Type*) where
  | got (x : α)
  | full
  | done

variable {α : Type*} [PartialOrder α] {usable known : α → Prop} {A B C : Set α}
    {op : Op α} {r : Reply α}
  {ops : List (Op α)} {rs : List (Reply α)} {x : α}

/-- An operation on the set of the free elements. -/
inductive Step (usable known : α → Prop) : Set α → Op α → Reply α → Set α → Prop
  | got {A : Set α} {x : α} (free : x ∈ A) (fit : usable x) (least : ∀ y ∈ A, usable y → x ≤ y) :
    Step usable known A .take (.got x) (A \ {x})
  | full {A : Set α} (none : ∀ y ∈ A, ¬usable y) : Step usable known A .take .full A
  | freed {A : Set α} {x : α} (valid : known x) : Step usable known A (.free x) .done (insert x A)
  | ignored {A : Set α} {x : α} (invalid : ¬known x) : Step usable known A (.free x) .done A

inductive Run (usable known : α → Prop) : Set α → List (Op α) → List (Reply α) → Set α → Prop
  | nil {A : Set α} : Run usable known A [] [] A
  | cons {A B C : Set α} {op : Op α} {r : Reply α} {ops : List (Op α)} {rs : List (Reply α)}
    (step : Step usable known A op r B) (run : Run usable known B ops rs C) :
      Run usable known A (op :: ops) (r :: rs) C

theorem Step.free (h : Step usable known A op (.got x) B) : x ∈ A ∧ x ∉ B := by
  cases h with
  | got free => exact ⟨free, fun h => h.2 rfl⟩

/-- Only giving it back makes an element free. -/
theorem Step.absent (h : Step usable known A op r B) (hx : x ∉ A)
    (other : op ≠ .free x) : x ∉ B := by
  cases h with
  | got => exact fun h => hx h.1
  | full => exact hx
  | @freed _ y =>
    rintro (same | member)
    · exact other (by rw [same])
    · exact hx member
  | ignored => exact hx

theorem Run.absent (h : Run usable known A ops rs B) (hx : x ∉ A) {j : Nat}
    (got : rs[j]? = some (.got x)) :
    ∃ k < j, ops[k]? = some (.free x) := by
  induction h generalizing j with
  | nil => cases got
  | @cons A B C op r ops rs step run ih =>
    cases j with
    | zero =>
      cases got
      exact absurd step.free.1 hx
    | succ j =>
      by_cases back : op = .free x
      · exact ⟨0, Nat.succ_pos j, by rw [back]; rfl⟩
      · obtain ⟨k, less, there⟩ := ih (step.absent hx back) got
        exact ⟨k + 1, Nat.succ_lt_succ less, there⟩

/-- Between two times that an element is taken it is given back. -/
theorem Run.again (h : Run usable known A ops rs B) {i j : Nat} (less : i < j)
    (first : rs[i]? = some (.got x))
    (second : rs[j]? = some (.got x)) : ∃ k, i < k ∧ k < j ∧ ops[k]? = some (.free x) := by
  induction h generalizing i j with
  | nil => cases first
  | @cons A B C op r ops rs step run ih =>
    cases j with
    | zero => exact absurd less (Nat.not_lt_zero i)
    | succ j =>
      cases i with
      | zero =>
        cases first
        obtain ⟨k, less, there⟩ := run.absent step.free.2 second
        exact ⟨k + 1, Nat.succ_pos k, Nat.succ_lt_succ less, there⟩
      | succ i =>
        obtain ⟨k, low, high, there⟩ := ih (Nat.lt_of_succ_lt_succ less) first second
        exact ⟨k + 1, Nat.succ_lt_succ low, Nat.succ_lt_succ high, there⟩

end FirstFree
