import Mathlib.Data.Nat.Digits.Lemmas

/-!
Numerals: the digits of a number from the first to the last, the loop that finds
them from the last on, and the number that a text with digits in it stands for.
-/

namespace RiscvMos.Numeral

/-- The digits of a number; 0 has one. -/
def digitsOf (base n : Nat) : List Nat := if n = 0 then [0] else (Nat.digits base n).reverse

/-- The loop that divides by the base, with a bound on its turns. -/
def divLoop (base : Nat) : Nat → Nat → List Nat
  | 0, _ => []
  | turns + 1, n => n % base :: if n / base = 0 then [] else divLoop base turns (n / base)

/-- What the digits in a text stand for; other characters are passed over. -/
def read {α : Type} (digit : α → Option Nat) (base : Nat) (text : List α) (acc : Nat) : Nat :=
  text.foldl (fun acc c => match digit c with | some d => acc * base + d | none => acc) acc

section
variable {base n turns : Nat}

theorem divLoop_eq (hb : 2 ≤ base) (hn : n < base ^ (turns + 1)) :
    divLoop base (turns + 1) n = (digitsOf base n).reverse := by
  induction turns generalizing n with
  | zero =>
    have small : n < base := by simpa using hn
    have zero : n / base = 0 := Nat.div_eq_of_lt small
    unfold divLoop digitsOf
    rw [if_pos zero, Nat.mod_eq_of_lt small]
    by_cases h : n = 0
    · rw [if_pos h, h]
      rfl
    · rw [if_neg h, Nat.digits_of_lt base n h small]
      rfl
  | succ turns ih =>
    unfold divLoop
    by_cases zero : n / base = 0
    · have small : n < base := (Nat.div_eq_zero_iff.mp zero).resolve_left (by omega)
      rw [if_pos zero, Nat.mod_eq_of_lt small, digitsOf]
      by_cases h : n = 0
      · rw [if_pos h, h]
        rfl
      · rw [if_neg h, Nat.digits_of_lt base n h small]
        rfl
    · have rest : n / base < base ^ (turns + 1) := by
        apply Nat.div_lt_of_lt_mul
        rw [← Nat.pow_succ']
        exact hn
      have pos : n ≠ 0 := by
        rintro rfl
        exact zero (Nat.zero_div base)
      rw [if_neg zero, ih rest, digitsOf, digitsOf, if_neg zero, if_neg pos, List.reverse_reverse,
        List.reverse_reverse, Nat.digits_def' hb (Nat.pos_of_ne_zero pos)]

theorem digitsOf_lt (hb : 2 ≤ base) {d : Nat} (h : d ∈ digitsOf base n) : d < base := by
  unfold digitsOf at h
  by_cases zero : n = 0
  · rw [if_pos zero, List.mem_singleton] at h
    omega
  · rw [if_neg zero, List.mem_reverse] at h
    exact Nat.digits_lt_base hb h

theorem digitsOf_value (base n : Nat) :
    (digitsOf base n).foldl (fun acc d => acc * base + d) 0 = n := by
  unfold digitsOf
  by_cases zero : n = 0
  · rw [if_pos zero, zero, List.foldl_cons, List.foldl_nil, Nat.zero_mul]
  · have step : (fun d acc : Nat => acc * base + d) = fun d acc => (d : Nat) + base * acc := by
      funext d acc
      rw [Nat.mul_comm, Nat.add_comm]
    have value := Nat.ofDigits_digits base n
    rw [Nat.ofDigits_eq_foldr] at value
    rw [if_neg zero, List.foldl_reverse, step]
    exact value

end

section
variable {α : Type} {digit : α → Option Nat} {base : Nat}

theorem read_append (text text' : List α) (acc : Nat) :
    read digit base (text ++ text') acc = read digit base text' (read digit base text acc) :=
  List.foldl_append

theorem read_other {c : α} (h : digit c = none) (n acc : Nat) :
    read digit base (List.replicate n c) acc = acc := by
  induction n with
  | zero => rfl
  | succ n ih =>
    rw [List.replicate_succ, read, List.foldl_cons, h]
    exact ih

theorem read_zeros {c : α} (h : digit c = some 0) (n : Nat) :
    read digit base (List.replicate n c) 0 = 0 := by
  induction n with
  | zero => rfl
  | succ n ih =>
    rw [List.replicate_succ, read, List.foldl_cons, h, Nat.zero_mul]
    exact ih

/-- A text of digits is read back. -/
theorem read_map {ch : Nat → α} (hch : ∀ d < base, digit (ch d) = some d) {ds : List Nat}
    (hds : ∀ d ∈ ds, d < base)
    (acc : Nat) : read digit base (ds.map ch) acc = ds.foldl (fun acc d => acc * base + d) acc := by
  induction ds generalizing acc with
  | nil => rfl
  | cons d ds ih =>
    rw [List.map_cons, read, List.foldl_cons, hch d (hds d List.mem_cons_self), List.foldl_cons]
    exact ih (fun d' h => hds d' (List.mem_cons_of_mem d h)) _

end

end RiscvMos.Numeral
