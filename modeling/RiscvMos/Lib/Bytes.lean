import Mathlib.Data.Nat.Basic
import Mathlib.Data.List.Basic
import Mathlib.Algebra.Order.Ring.Nat

/-!
Memory that is addressed by bytes: stores of byte strings, one after the other,
and little-endian words.
-/

namespace Bytes

/-- The bytes `bs` are stored from the address `a` on. -/
def store (m : Nat → Nat) (a : Nat) (bs : List Nat) : Nat → Nat :=
  fun x => if a ≤ x ∧ x < a + bs.length then bs.getD (x - a) 0 else m x

/-- Stores in the order of the list. -/
def stores (m : Nat → Nat) (ws : List (Nat × List Nat)) : Nat → Nat :=
  ws.foldl (fun m w => store m w.1 w.2) m

/-- The `n` bytes of a word, the lowest first. -/
def le : Nat → Nat → List Nat
  | 0, _ => []
  | n + 1, v => v % 256 :: le n (v / 256)

/-- The word of `n` bytes at the address `a`. -/
def load (m : Nat → Nat) (a : Nat) : Nat → Nat
  | 0 => 0
  | n + 1 => m a + 256 * load m (a + 1) n

variable {m m' : Nat → Nat} {a x n v : Nat} {bs : List Nat}

@[simp] theorem le_length (n v : Nat) : (le n v).length = n := by
  induction n generalizing v with
  | zero => rfl
  | succ n ih => simp [le, ih]

theorem mem_le_lt {b : Nat} (h : b ∈ le n v) : b < 256 := by
  induction n generalizing v with
  | zero => cases h
  | succ n ih =>
    cases List.mem_cons.mp h with
    | inl first =>
      rw [first]
      exact Nat.mod_lt v (by decide)
    | inr rest => exact ih rest

theorem store_at {j : Nat} (h : j < bs.length) : store m a bs (a + j) = bs.getD j 0 := by
  simp [store, h]

theorem store_of_disjoint (h : x < a ∨ a + bs.length ≤ x) : store m a bs x = m x := by
  simp only [store]
  rw [if_neg (by omega)]

@[simp] theorem stores_nil : stores m [] = m := rfl

@[simp] theorem stores_cons (w : Nat × List Nat) (ws : List (Nat × List Nat)) :
    stores m (w :: ws) = stores (store m w.1 w.2) ws := rfl

theorem stores_append (us ws : List (Nat × List Nat)) :
    stores m (us ++ ws) = stores (stores m us) ws :=
  List.foldl_append ..

/-- Stores inside a range. -/
def Inside (lo hi : Nat) (ws : List (Nat × List Nat)) : Prop :=
  ∀ w ∈ ws, lo ≤ w.1 ∧ w.1 + w.2.length ≤ hi

theorem Inside.mono {lo hi lo' hi' : Nat} {ws : List (Nat × List Nat)} (h : Inside lo hi ws)
    (hlo : lo' ≤ lo) (hhi : hi ≤ hi') : Inside lo' hi' ws := by
  intro w hw
  have := h w hw
  omega

theorem Inside.append {lo hi : Nat} {us ws : List (Nat × List Nat)} (hu : Inside lo hi us)
    (hw : Inside lo hi ws) : Inside lo hi (us ++ ws) := by
  intro w h
  cases List.mem_append.mp h with
  | inl h => exact hu w h
  | inr h => exact hw w h

theorem Inside.cons {lo hi : Nat} {w : Nat × List Nat} {ws : List (Nat × List Nat)}
    (hw : lo ≤ w.1 ∧ w.1 + w.2.length ≤ hi) (h : Inside lo hi ws) : Inside lo hi (w :: ws) := by
  intro u hu
  cases List.mem_cons.mp hu with
  | inl same => rw [same]; exact hw
  | inr other => exact h u other

theorem Inside.nil {lo hi : Nat} : Inside lo hi [] := fun _ h => absurd h List.not_mem_nil

/-- Stores inside a range leave every byte outside it. -/
theorem stores_of_inside {lo hi : Nat} {ws : List (Nat × List Nat)} (h : Inside lo hi ws)
    (hx : x < lo ∨ hi ≤ x) : stores m ws x = m x := by
  induction ws generalizing m with
  | nil => rfl
  | cons w ws ih =>
    have first := h w List.mem_cons_self
    rw [stores_cons, ih fun u hu => h u (List.mem_cons_of_mem _ hu)]
    exact store_of_disjoint (by omega)

theorem load_congr (h : ∀ j, j < n → m (a + j) = m' (a + j)) : load m a n = load m' a n := by
  induction n generalizing a with
  | zero => rfl
  | succ n ih =>
    have first := h 0 (by omega)
    have rest : load m (a + 1) n = load m' (a + 1) n := by
      apply ih
      intro j hj
      have := h (j + 1) (by omega)
      rwa [Nat.add_assoc, Nat.add_comm 1 j]
    rw [load, load, rest]
    rw [Nat.add_zero] at first
    rw [first]

theorem load_of_disjoint {b : Nat} (h : b + n ≤ a ∨ a + bs.length ≤ b) :
    load (store m a bs) b n = load m b n :=
  load_congr fun _ hj => store_of_disjoint (by omega)

/-- The value of a word is what its bytes encode. -/
theorem load_of_le (h : ∀ j, j < n → m (a + j) = (le n v).getD j 0) : load m a n = v % 256 ^ n := by
  induction n generalizing a v with
  | zero => simp [load, Nat.mod_one]
  | succ n ih =>
    have first : m a = v % 256 := by simpa [le] using h 0 (by omega)
    have rest : load m (a + 1) n = v / 256 % 256 ^ n := by
      apply ih
      intro j hj
      have := h (j + 1) (by omega)
      rw [Nat.add_assoc, Nat.add_comm 1 j, this]
      simp [le]
    rw [load, first, rest, pow_succ', Nat.mod_mul]

theorem le_getD {j : Nat} (h : j < n) : (le n v).getD j 0 = v / 256 ^ j % 256 := by
  induction n generalizing v j with
  | zero => omega
  | succ n ih =>
    cases j with
    | zero => simp [le]
    | succ j =>
      have rest := ih (v := v / 256) (j := j) (by omega)
      rw [Nat.div_div_eq_div_mul, ← pow_succ'] at rest
      simpa [le] using rest

/-- The bytes of a word are those it was loaded from. -/
theorem load_byte (bytes : ∀ x, m x < 256) {k : Nat} (h : k < n) :
    load m a n / 256 ^ k % 256 = m (a + k) := by
  have first := bytes a
  induction n generalizing a k with
  | zero => cases h
  | succ n ih =>
    cases k with
    | zero =>
      rw [load, pow_zero, Nat.div_one, Nat.add_mul_mod_self_left, Nat.mod_eq_of_lt first]
      rfl
    | succ k =>
      have rest := ih (a := a + 1) (Nat.lt_of_succ_lt_succ h) (bytes (a + 1))
      rw [load, pow_succ', ← Nat.div_div_eq_div_mul, Nat.add_mul_div_left _ _ (by decide),
        Nat.div_eq_of_lt first, Nat.zero_add, rest, Nat.add_assoc, Nat.add_comm 1 k]

/-- The low bytes of a word that was stored. -/
theorem load_store_low (m : Nat → Nat) (a v : Nat) {n k : Nat} (h : n ≤ k) :
    load (store m a (le k v)) a n = v % 256 ^ n := by
  apply load_of_le
  intro j hj
  rw [store_at (by rw [le_length]; omega), le_getD (by omega), le_getD hj]

theorem load_store_le (m : Nat → Nat) (a n v : Nat) : load (store m a (le n v)) a n = v % 256 ^ n :=
  load_store_low m a v (Nat.le_refl n)

/-- The same memory at other addresses. -/
theorem load_shift (m : Nat → Nat) (lo hi o n : Nat) :
    load (fun x => m (x - lo + hi)) (lo + o) n = load m (hi + o) n := by
  induction n generalizing o with
  | zero => rfl
  | succ n ih =>
    have here : lo + o - lo + hi = hi + o := by omega
    have rest := ih (o + 1)
    rw [← Nat.add_assoc, ← Nat.add_assoc] at rest
    rw [load, load, rest, here]

theorem load_of_inside {lo hi : Nat} {ws : List (Nat × List Nat)} (h : Inside lo hi ws)
    (ha : a + n ≤ lo ∨ hi ≤ a) : load (stores m ws) a n = load m a n := by
  apply load_congr
  intro j hj
  exact stores_of_inside h (by omega)

end Bytes
