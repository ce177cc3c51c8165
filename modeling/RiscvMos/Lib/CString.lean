import Mathlib.Logic.Function.Basic
import Mathlib.Data.List.Basic

/-!
Strings in a memory of bytes: some bytes at an address, and bytes with a `NUL` behind
them.
-/

namespace CString

variable {m m' : Nat → Nat} {a b : Nat} {xs ys : List Nat}

/-- The bytes are at the address. -/
def Holds (m : Nat → Nat) : Nat → List Nat → Prop
  | _, [] => True
  | a, b :: xs => m a = b ∧ Holds m (a + 1) xs

/-- A string is at the address, with its `NUL`. -/
def Text (m : Nat → Nat) : Nat → List Nat → Prop
  | a, [] => m a = 0
  | a, b :: xs => m a = b ∧ b ≠ 0 ∧ Text m (a + 1) xs

instance Text.decidable (m : Nat → Nat) : (a : Nat) → (xs : List Nat) → Decidable (Text m a xs)
  | a, [] => inferInstanceAs (Decidable (m a = 0))
  | a, b :: xs =>
    have := Text.decidable m (a + 1) xs
    inferInstanceAs (Decidable (m a = b ∧ b ≠ 0 ∧ Text m (a + 1) xs))

theorem text_append :
    Text m a (xs ++ ys) ↔ (Holds m a xs ∧ ∀ b ∈ xs, b ≠ 0) ∧ Text m (a + xs.length) ys := by
  induction xs generalizing a with
  | nil => exact (and_iff_right ⟨trivial, fun b hb => absurd hb List.not_mem_nil⟩).symm
  | cons b xs ih =>
    have place : a + 1 + xs.length = a + (xs.length + 1) := by omega
    rw [List.cons_append, Text, Holds, ih, List.length_cons, place, List.forall_mem_cons]
    tauto

theorem text_iff : Text m a xs ↔ (Holds m a xs ∧ ∀ b ∈ xs, b ≠ 0) ∧ m (a + xs.length) = 0 := by
  have whole : Text m a (xs ++ []) ↔
      (Holds m a xs ∧ ∀ b ∈ xs, b ≠ 0) ∧ Text m (a + xs.length) [] := text_append
  rw [List.append_nil] at whole
  exact whole

theorem Holds.congr (h : Holds m a xs) (same : ∀ i, a ≤ i → i < a + xs.length → m' i = m i) :
    Holds m' a xs := by
  induction xs generalizing a with
  | nil => trivial
  | cons b xs ih =>
    rw [List.length_cons] at same
    refine ⟨(same a (Nat.le_refl a) (by omega)).trans h.1,
      ih h.2 fun i low high => same i (by omega) (by omega)⟩

theorem Text.congr (h : Text m a xs) (same : ∀ i, a ≤ i → i ≤ a + xs.length → m' i = m i) :
    Text m' a xs := by
  obtain ⟨⟨holds, nonzero⟩, nul⟩ := text_iff.mp h
  refine text_iff.mpr ⟨⟨holds.congr fun i low high => same i low (by omega), nonzero⟩, ?_⟩
  rw [same _ (Nat.le_add_right a _) (Nat.le_refl _)]
  exact nul

end CString
