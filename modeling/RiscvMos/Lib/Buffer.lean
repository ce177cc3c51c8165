import Mathlib.Logic.Function.Basic
import Mathlib.Data.List.Basic

/-!
Buffers that are written from the front: what stands in the first places, and the
loop that turns these around in place.
-/

namespace Buffer
variable {α : Type} {buf : Nat → α} {n i : Nat}

/-- What stands in the first places. -/
def first (n : Nat) (buf : Nat → α) : List α := (List.range n).map buf

theorem first_length (n : Nat) (buf : Nat → α) : (first n buf).length = n := by
  rw [first, List.length_map, List.length_range]

theorem first_congr {buf' : Nat → α} (same : ∀ i < n, buf' i = buf i) :
    first n buf' = first n buf :=
  List.map_congr_left fun i hi => same i (List.mem_range.mp hi)

theorem first_update (n : Nat) (buf : Nat → α) (a : α) :
    first (n + 1) (Function.update buf n a) = first n buf ++ [a] := by
  have before : (List.range n).map (Function.update buf n a) = (List.range n).map buf :=
    first_congr fun i hi => Function.update_of_ne (Nat.ne_of_lt hi) a buf
  rw [first, List.range_succ, List.map_append, before, List.map_singleton, Function.update_self]
  rfl

theorem first_get {l : List α} (h : first n buf = l) (hi : i < l.length) : buf i = l[i] := by
  subst h
  rw [first_length] at hi
  simp only [first, List.getElem_map, List.getElem_range]

/-- The loop that swaps the two ends and goes on between them. -/
def turn : Nat → Nat → Nat → (Nat → α) → Nat → α
  | 0, _, _, buf => buf
  | turns + 1, start, last, buf =>
    if start < last then
      turn turns (start + 1) (last - 1)
        (Function.update (Function.update buf start (buf last)) last (buf start))
    else buf

/-- Each turn swaps the two ends of what is left. -/
theorem turn_at {turns start last : Nat} (enough : last - start ≤ turns) (buf : Nat → α) (i : Nat) :
    turn turns start last buf i = if start ≤ i ∧ i ≤ last then buf (start + last - i)
    else buf i := by
  induction turns generalizing start last buf with
  | zero =>
    by_cases inside : start ≤ i ∧ i ≤ last
    · rw [if_pos inside, turn, show start + last - i = i by omega]
    · rw [if_neg inside, turn]
  | succ turns ih =>
    unfold turn
    by_cases more : start < last
    · rw [if_pos more, ih (by omega)]
      by_cases first : i = start
      · rw [first, if_neg (by omega), if_pos (by omega), Function.update_of_ne (by omega),
          Function.update_self, Nat.add_sub_cancel_left]
      · by_cases final : i = last
        · rw [final, if_neg (by omega), if_pos (by omega), Function.update_self, Nat.add_sub_cancel]
        · by_cases inside : start ≤ i ∧ i ≤ last
          · rw [if_pos (by omega), if_pos inside, Function.update_of_ne (by omega),
              Function.update_of_ne (by omega),
              show start + 1 + (last - 1) - i = start + last - i by omega]
          · rw [if_neg (by omega), if_neg inside, Function.update_of_ne final,
              Function.update_of_ne first]
    · rw [if_neg more]
      by_cases inside : start ≤ i ∧ i ≤ last
      · rw [if_pos inside, show start + last - i = i by omega]
      · rw [if_neg inside]

/-- The loop turns the first part around. -/
theorem first_turn (turns : Nat) {a b : List α} (h : first n buf = a ++ b) (ha : a ≠ [])
    (enough : a.length - 1 ≤ turns) :
    first n (turn turns 0 (a.length - 1) buf) = a.reverse ++ b := by
  have pos : 0 < a.length := List.length_pos_iff.mpr ha
  have total : n = a.length + b.length := by
    rw [← List.length_append, ← h, first_length]
  have at_ (i : Nat) (hi : i < (a ++ b).length) : buf i = (a ++ b)[i] := first_get h hi
  apply List.ext_getElem
  · rw [first_length, List.length_append, List.length_reverse, total]
  · intro i hi hi'
    rw [first_length] at hi
    simp only [first, List.getElem_map, List.getElem_range]
    rw [turn_at (by omega)]
    by_cases inside : i < a.length
    · rw [if_pos (by omega), at_ _ (by rw [List.length_append]; omega),
        List.getElem_append_left (by omega),
        List.getElem_append_left (by rw [List.length_reverse]; exact inside),
        List.getElem_reverse]
      congr 1
      omega
    · rw [if_neg (by omega), at_ _ (by rw [List.length_append]; omega),
        List.getElem_append_right (by omega),
        List.getElem_append_right (by rw [List.length_reverse]; omega)]
      simp only [List.length_reverse]

end Buffer
