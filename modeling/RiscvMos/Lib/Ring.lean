import Mathlib.Data.List.Basic
import Mathlib.Logic.Function.Basic

/-!
# Ring buffers

A ring of `c` cells carries a sequence of items from one side to the other.
Item `k` travels in cell `k % c`; `lo` items have been taken and `hi` put.
-/

namespace Ring

variable {α : Type} {c lo hi : Nat} {cell : Nat → α} {items : List α}

/-- The cells hold the items from `lo` up to `hi`. -/
def Holds (c : Nat) (cell : Nat → α) (items : List α) (lo hi : Nat) : Prop :=
  ∀ k, lo ≤ k → k < hi → items[k]? = some (cell (k % c))

theorem mod_ne {k : Nat} (hk : k < hi) (hlt : hi < k + c) : k % c ≠ hi % c := by
  intro h
  have hz := Nat.sub_mod_eq_zero_of_mod_eq h.symm
  rw [Nat.mod_eq_of_lt (by omega)] at hz
  omega

/-- Put the next item while a cell is left. -/
theorem Holds.put (h : Holds c cell items lo hi) (hlt : hi < lo + c) {b : α}
    (hb : items[hi]? = some b) :
    Holds c (Function.update cell (hi % c) b) items lo (hi + 1) := by
  intro k hlo hk
  by_cases hkhi : k = hi
  · rw [hkhi, Function.update_self, hb]
  · rw [Function.update_of_ne (mod_ne (by omega) (by omega))]
    exact h k hlo (by omega)

/-- Take the oldest item. -/
theorem Holds.take (h : Holds c cell items lo hi) (hlt : lo < hi) :
    items[lo]? = some (cell (lo % c)) ∧ Holds c cell items (lo + 1) hi := by
  constructor
  · exact h lo (Nat.le_refl lo) hlt
  · intro k hlo hk
    exact h k (by omega) hk

/-- More items to come. -/
theorem Holds.append (h : Holds c cell items lo hi) (more : List α) :
    Holds c cell (items ++ more) lo hi := by
  intro k hlo hk
  have hitem := h k hlo hk
  rw [List.getElem?_append_left (List.getElem?_eq_some_iff.mp hitem).1, hitem]

end Ring
