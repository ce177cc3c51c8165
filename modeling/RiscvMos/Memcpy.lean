import RiscvMos.Lib.Bytes
import RiscvMos.Lib.Loop
import Mathlib.Tactic.IntervalCases

/-!
`memcpy` and `memset` of `lib/string.c`, with pointers of 64 bits, against the loops over
single bytes.
-/

namespace RiscvMos.Memcpy

open Bytes (store load le)

abbrev Memory := Nat → Nat

/-- A pointer, as a `u_long`. -/
def addr (a : Nat) : Nat := a % 2 ^ 64

/-- Single steps up to an address that is a multiple of four, words while they fit, and single steps
for the rest. -/
def throughWords {σ : Type} (ptr : σ → Nat) (byte word : σ → σ) (fuel max : Nat)
    (s : σ) : Option σ := do
  let s ← Loop.run (fun s => decide (ptr s % 4 ≠ 0 ∧ ptr s < max)) byte fuel s
  let s ← Loop.run (fun s => decide (addr (ptr s + 4) ≤ max)) word fuel s
  Loop.run (fun s => decide (ptr s < max)) byte fuel s

/-- The memory and the pointers of `memcpy`. -/
structure Copying where
  mem : Memory
  dst : Nat
  src : Nat

/-- `*(char *)dst++ = *(char *)src++`. -/
def Copying.byte (s : Copying) : Copying :=
  ⟨Function.update s.mem s.dst (s.mem s.src), addr (s.dst + 1), addr (s.src + 1)⟩

/-- `*(uint32_t *)dst = *(uint32_t *)src; dst += 4; src += 4`. -/
def Copying.word (s : Copying) : Copying :=
  ⟨store s.mem s.dst (le 4 (load s.mem s.src 4)), addr (s.dst + 4), addr (s.src + 4)⟩

/-- The memory that is left and the result. -/
def memcpy (fuel : Nat) (m : Memory) (dst src n : Nat) : Option (Memory × Nat) :=
  let max := addr (dst + n)
  let s :=
    if src % 4 ≠ dst % 4 then Loop.run (fun s => decide (s.dst < max)) Copying.byte
      fuel ⟨m, dst, src⟩
    else throughWords Copying.dst Copying.byte Copying.word fuel max ⟨m, dst, src⟩
  s.map fun s => (s.mem, dst)

/-- The memory and the pointer of `memset`. -/
structure Setting where
  mem : Memory
  dst : Nat

/-- `*(u_char *)dst++ = byte`. -/
def Setting.byte (b : Nat) (s : Setting) : Setting :=
  ⟨Function.update s.mem s.dst b, addr (s.dst + 1)⟩

/-- `*(uint32_t *)dst = word; dst += 4`. -/
def Setting.word (w : Nat) (s : Setting) : Setting := ⟨store s.mem s.dst (le 4 w), addr (s.dst + 4)⟩

/-- `c & 0xff`. -/
def lowByte (c : Int) : Nat := (c % 256).toNat

/-- `byte | byte << 8 | byte << 16 | byte << 24`. -/
def wordOf (b : Nat) : Nat := b ||| b <<< 8 ||| b <<< 16 ||| b <<< 24

def memset (fuel : Nat) (m : Memory) (dst : Nat) (c : Int) (n : Nat) : Option (Memory × Nat) :=
  let max := addr (dst + n)
  let byte := lowByte c
  let word := wordOf byte
  (throughWords Setting.dst (Setting.byte byte) (Setting.word word) fuel max ⟨m, dst⟩).map
    fun s => (s.mem, dst)

/-! ## The loops over single bytes -/

/-- The bytes copied one by one, from the first on. -/
def copyUp (m : Memory) (dst src : Nat) : Nat → Memory
  | 0 => m
  | n + 1 => Function.update (copyUp m dst src n) (dst + n) (copyUp m dst src n (src + n))

/-- A range filled with a byte. -/
def filled (m : Memory) (dst b n : Nat) : Memory :=
  fun x => if dst ≤ x ∧ x < dst + n then b else m x

/-- `memcpy` returns, with the bytes copied one by one. -/
def Copies (m : Memory) (dst src n : Nat) : Prop :=
  ∃ fuel, memcpy fuel m dst src n = some (copyUp m dst src n, dst)

/-- `memset` returns, with the range filled. -/
def Fills (m : Memory) (dst : Nat) (c : Int) (n : Nat) : Prop :=
  ∃ fuel, memset fuel m dst c n = some (filled m dst (lowByte c) n, dst)

section
variable {σ : Type} {ptr : σ → Nat} {byte word : σ → σ} {s : σ} {n k : Nat}

theorem iterate_ptr {step : σ → σ} {d : Nat} (steps : ∀ s, ptr (step s) = addr (ptr s + d))
    (low : ptr s < 2 ^ 64) (k : Nat) :
    ptr (step^[k] s) = addr (ptr s + d * k) := by
  induction k with
  | zero => exact (Nat.mod_eq_of_lt low).symm
  | succ k ih =>
    rw [Function.iterate_succ_apply', steps, ih, addr, addr, addr, Nat.mod_add_mod,
      Nat.mul_succ, Nat.add_assoc]

/-- A pointer that stays below the end of the address space. -/
theorem iterate_ptr_lt (steps : ∀ s, ptr (byte s) = addr (ptr s + 1))
    (fits : ptr s + n < 2 ^ 64) (hk : k ≤ n) :
    ptr (byte^[k] s) = ptr s + k := by
  rw [iterate_ptr steps (by omega), Nat.one_mul]
  exact Nat.mod_eq_of_lt (by omega)

/-- The loop for the rest. -/
theorem bytes_end (steps : ∀ s, ptr (byte s) = addr (ptr s + 1)) (fits : ptr s + n < 2 ^ 64)
    {fuel : Nat} (hk : k ≤ n) (enough : n < fuel) :
    Loop.run (fun t => decide (ptr t < ptr s + n)) byte fuel (byte^[k] s) = some (byte^[n] s) := by
  have whole : byte^[n - k] (byte^[k] s) = byte^[n] s := by
    rw [← Function.iterate_add_apply, Nat.sub_add_cancel hk]
  rw [← whole]
  apply Loop.run_ends
  · intro i hi
    rw [← Function.iterate_add_apply, decide_eq_true_iff, iterate_ptr_lt steps fits (by omega)]
    omega
  · rw [whole, decide_eq_false_iff_not, iterate_ptr_lt steps fits (Nat.le_refl n)]
    exact Nat.lt_irrefl _
  · omega

/-- The number of steps to a multiple of four, if there are so many. -/
def toAligned (p n : Nat) : Nat := min ((4 - p % 4) % 4) n

/-- With room for one more word behind the range, the loops make as many single steps as it
has bytes. -/
theorem throughWords_ends (steps : ∀ s, ptr (byte s) = addr (ptr s + 1))
    (fits : ptr s + n + 4 < 2 ^ 64)
    (whole : ∀ k, k + 4 ≤ n → (ptr s + k) % 4 = 0 → word (byte^[k] s) = byte^[k + 4] s) {fuel : Nat}
    (enough : n < fuel) :
    throughWords ptr byte word fuel (ptr s + n) s = some (byte^[n] s) := by
  have inside : ptr s + n < 2 ^ 64 := by omega
  have place : ∀ {k}, k ≤ n → ptr (byte^[k] s) = ptr s + k := iterate_ptr_lt steps inside
  have few : toAligned (ptr s) n ≤ n := Nat.min_le_right _ _
  have first : Loop.run (fun t => decide (ptr t % 4 ≠ 0 ∧ ptr t < ptr s + n)) byte fuel s =
      some (byte^[toAligned (ptr s) n] s) := by
    apply Loop.run_ends
    · intro i hi
      unfold toAligned at hi
      rw [decide_eq_true_iff, place (by omega)]
      omega
    · rw [decide_eq_false_iff_not, place few]
      unfold toAligned
      omega
    · unfold toAligned
      omega
  have words : ∀ i, toAligned (ptr s) n + 4 * i ≤ n →
      word^[i] (byte^[toAligned (ptr s) n] s) = byte^[toAligned (ptr s) n + 4 * i] s := by
    intro i
    induction i with
    | zero => exact fun _ => rfl
    | succ i ih =>
      intro room
      rw [Function.iterate_succ_apply', ih (by omega),
        whole _ (by omega) (by unfold toAligned at *; omega), Nat.mul_succ,
        Nat.add_assoc]
  have second : Loop.run (fun t => decide (addr (ptr t + 4) ≤ ptr s + n)) word fuel
      (byte^[toAligned (ptr s) n] s) =
      some (byte^[toAligned (ptr s) n + 4 * ((n - toAligned (ptr s) n) / 4)] s) := by
    rw [← words ((n - toAligned (ptr s) n) / 4) (by omega)]
    apply Loop.run_ends
    · intro i hi
      rw [words i (by omega), decide_eq_true_iff, place (by omega), addr]
      omega
    · rw [words _ (by omega), decide_eq_false_iff_not, place (by omega), addr]
      omega
    · omega
  unfold throughWords
  simp only [Option.bind_eq_bind, first, second, Option.bind_some]
  apply bytes_end steps inside
  · omega
  · exact enough

/-- Where a word behind the range goes over the end of the address space, the loop over the
words does not end. -/
theorem throughWords_never (steps : ∀ s, ptr (byte s) = addr (ptr s + 1))
    (strides : ∀ s, ptr (word s) = addr (ptr s + 4))
    (fits : ptr s + n < 2 ^ 64) (high : 2 ^ 64 ≤ ptr s + n + 4) (fuel : Nat) :
    throughWords ptr byte word fuel (ptr s + n) s = none := by
  unfold throughWords
  cases first : Loop.run (fun t => decide (ptr t % 4 ≠ 0 ∧ ptr t < ptr s + n)) byte fuel s with
  | none => rfl
  | some t =>
    obtain ⟨k, last, stop, way⟩ := Loop.run_some first
    have few : k ≤ n := by
      by_contra more
      have early := way n (Nat.lt_of_not_le more)
      rw [decide_eq_true_iff, iterate_ptr_lt steps fits (Nat.le_refl n)] at early
      exact absurd early.2 (Nat.lt_irrefl _)
    have place : ptr t = ptr s + k := by
      rw [last]
      exact iterate_ptr_lt steps fits few
    rw [decide_eq_false_iff_not, place] at stop
    have never : Loop.run (fun t => decide (addr (ptr t + 4) ≤ ptr s + n)) word fuel t = none := by
      apply Loop.run_never
      intro i
      rw [decide_eq_true_iff, iterate_ptr strides (by omega), place]
      unfold addr
      omega
    simp only [Option.bind_eq_bind, Option.bind_some, never, Option.bind_none]

end

section
variable {m : Memory} {a b dst src n k x : Nat}

theorem copyUp_add (m : Memory) (dst src k j : Nat) :
    copyUp m dst src (k + j) = copyUp (copyUp m dst src k) (dst + k) (src + k) j := by
  induction j with
  | zero => rfl
  | succ j ih =>
    rw [← Nat.add_assoc, copyUp, copyUp, ih, Nat.add_assoc dst, Nat.add_assoc src]

theorem copyUp_lt (bytes : ∀ x, m x < 256) (n : Nat) : ∀ x, copyUp m dst src n x < 256 := by
  induction n with
  | zero => exact bytes
  | succ n ih =>
    intro x
    unfold copyUp
    by_cases here : x = dst + n
    · rw [here, Function.update_self]
      exact ih _
    · rw [Function.update_of_ne here]
      exact ih x

/-- No byte is read that was stored. -/
theorem copyUp_apart (apart : a ≤ b ∨ b + n ≤ a) :
    copyUp m a b n x = if a ≤ x ∧ x < a + n then m (b + (x - a)) else m x := by
  induction n generalizing x with
  | zero =>
    rw [if_neg (by omega)]
    rfl
  | succ n ih =>
    have apart' : a ≤ b ∨ b + n ≤ a := by omega
    unfold copyUp
    by_cases here : x = a + n
    · have place : b + (a + n - a) = b + n := by omega
      rw [here, Function.update_self, ih apart', if_neg (by omega), if_pos (by omega), place]
    · rw [Function.update_of_ne here, ih apart']
      by_cases inside : a ≤ x ∧ x < a + n
      · rw [if_pos inside, if_pos (by omega)]
      · rw [if_neg inside, if_neg (by omega)]

/-- A word of the same alignment is copied as its bytes are. -/
theorem store_word (bytes : ∀ x, m x < 256) (same : a % 4 = b % 4) :
    store m a (le 4 (load m b 4)) = copyUp m a b 4 := by
  funext x
  rw [copyUp_apart (by omega)]
  unfold store
  rw [Bytes.le_length]
  by_cases inside : a ≤ x ∧ x < a + 4
  · have few : x - a < 4 := by omega
    rw [if_pos inside, if_pos inside, Bytes.le_getD few, Bytes.load_byte bytes few]
  · rw [if_neg inside, if_neg inside]

theorem copying_iterate (hd : dst + n < 2 ^ 64) (hs : src + n ≤ 2 ^ 64)
    (start : src < 2 ^ 64) (hk : k ≤ n) :
    Copying.byte^[k] ⟨m, dst, src⟩ = ⟨copyUp m dst src k, addr (dst + k), addr (src + k)⟩ := by
  induction k with
  | zero =>
    have dst_ : addr (dst + 0) = dst := Nat.mod_eq_of_lt (by omega)
    have src_ : addr (src + 0) = src := Nat.mod_eq_of_lt start
    rw [dst_, src_]
    rfl
  | succ k ih =>
    have dst_ : addr (dst + k) = dst + k := Nat.mod_eq_of_lt (by omega)
    have src_ : addr (src + k) = src + k := Nat.mod_eq_of_lt (by omega)
    rw [Function.iterate_succ_apply', ih (by omega), dst_, src_]
    rfl

theorem copying_word (bytes : ∀ x, m x < 256) (hd : dst + n < 2 ^ 64) (hs : src + n ≤ 2 ^ 64)
    (start : src < 2 ^ 64) (same : src % 4 = dst % 4) (hk : k + 4 ≤ n) :
    Copying.word (Copying.byte^[k] ⟨m, dst, src⟩) = Copying.byte^[k + 4] ⟨m, dst, src⟩ := by
  have dst_ : addr (dst + k) = dst + k := Nat.mod_eq_of_lt (by omega)
  have src_ : addr (src + k) = src + k := Nat.mod_eq_of_lt (by omega)
  have words : store (copyUp m dst src k) (dst + k) (le 4 (load (copyUp m dst src k) (src + k) 4)) =
      copyUp (copyUp m dst src k) (dst + k) (src + k) 4 := store_word (copyUp_lt bytes k) (by omega)
  rw [copying_iterate hd hs start (by omega), copying_iterate hd hs start hk, dst_, src_,
    Copying.word, words, copyUp_add]
  rfl

/-- All four bytes of the word are the byte. -/
theorem le_wordOf (hb : b < 256) : le 4 (wordOf b) = [b, b, b, b] := by
  revert b
  decide +kernel

theorem lowByte_lt (c : Int) : lowByte c < 256 := by
  unfold lowByte
  omega

theorem filled_succ : Function.update (filled m dst b k) (dst + k) b = filled m dst b (k + 1) := by
  funext x
  unfold filled
  by_cases here : x = dst + k
  · rw [here, Function.update_self, if_pos (by omega)]
  · rw [Function.update_of_ne here]
    by_cases inside : dst ≤ x ∧ x < dst + k
    · rw [if_pos inside, if_pos (by omega)]
    · rw [if_neg inside, if_neg (by omega)]

theorem setting_iterate (hd : dst + n < 2 ^ 64) (hk : k ≤ n) :
    (Setting.byte b)^[k] ⟨m, dst⟩ = ⟨filled m dst b k, addr (dst + k)⟩ := by
  induction k with
  | zero =>
    have dst_ : addr (dst + 0) = dst := Nat.mod_eq_of_lt (by omega)
    have none_ : filled m dst b 0 = m := by
      funext x
      exact if_neg (by omega)
    rw [dst_, none_]
    rfl
  | succ k ih =>
    have dst_ : addr (dst + k) = dst + k := Nat.mod_eq_of_lt (by omega)
    rw [Function.iterate_succ_apply', ih (by omega), dst_, Setting.byte, filled_succ]
    rfl

theorem setting_word (hb : b < 256) (hd : dst + n < 2 ^ 64) (hk : k + 4 ≤ n) :
    Setting.word (wordOf b) ((Setting.byte b)^[k] ⟨m, dst⟩) =
    (Setting.byte b)^[k + 4] ⟨m, dst⟩ := by
  have dst_ : addr (dst + k) = dst + k := Nat.mod_eq_of_lt (by omega)
  have words : store (filled m dst b k) (dst + k) [b, b, b, b] = filled m dst b (k + 4) := by
    funext x
    unfold store filled
    rw [List.length_cons, List.length_cons, List.length_cons, List.length_singleton]
    by_cases inside : dst + k ≤ x ∧ x < dst + k + (1 + 1 + 1 + 1)
    · obtain ⟨j, few, place⟩ : ∃ j < 4, x = dst + k + j := ⟨x - (dst + k), by omega, by omega⟩
      have byte : [b, b, b, b].getD (x - (dst + k)) 0 = b := by
        rw [place, Nat.add_sub_cancel_left]
        interval_cases j <;> rfl
      rw [if_pos inside, byte, if_pos (by omega)]
    · rw [if_neg inside]
      by_cases below : dst ≤ x ∧ x < dst + k
      · rw [if_pos below, if_pos (by omega)]
      · rw [if_neg below, if_neg (by omega)]
  rw [setting_iterate hd (by omega), setting_iterate hd hk, dst_, Setting.word, le_wordOf hb, words]
  rfl

theorem memcpy_gap (hd : dst + n < 2 ^ 64) (gap : src % 4 ≠ dst % 4) (fuel : Nat) :
    memcpy fuel m dst src n =
      (Loop.run (fun s : Copying => decide (s.dst < dst + n)) Copying.byte fuel ⟨m, dst, src⟩).map
      fun s => (s.mem, dst) := by
  have max : addr (dst + n) = dst + n := Nat.mod_eq_of_lt hd
  unfold memcpy
  simp only [max, if_pos gap]

theorem memcpy_same (hd : dst + n < 2 ^ 64) (same : src % 4 = dst % 4) (fuel : Nat) :
    memcpy fuel m dst src n =
      (throughWords Copying.dst Copying.byte Copying.word fuel (dst + n) ⟨m, dst, src⟩).map fun s =>
      (s.mem, dst) := by
  have max : addr (dst + n) = dst + n := Nat.mod_eq_of_lt hd
  unfold memcpy
  simp only [max, if_neg (not_not.mpr same)]

theorem memcpy_unaligned (hd : dst + n < 2 ^ 64) (hs : src + n ≤ 2 ^ 64) (start : src < 2 ^ 64)
    (gap : src % 4 ≠ dst % 4) :
    Copies m dst src n := by
  have run := @bytes_end Copying Copying.dst Copying.byte ⟨m, dst, src⟩ n 0 (fun _ => rfl) hd
    (n + 1) (Nat.zero_le n)
    (Nat.lt_succ_self n)
  refine ⟨n + 1, ?_⟩
  rw [memcpy_gap hd gap]
  simp only [Function.iterate_zero_apply] at run
  rw [run, copying_iterate hd hs start (Nat.le_refl n)]
  rfl

theorem memcpy_aligned (bytes : ∀ x, m x < 256) (hd : dst + n < 2 ^ 64) (hs : src + n ≤ 2 ^ 64)
    (start : src < 2 ^ 64)
    (same : src % 4 = dst % 4) : Copies m dst src n ↔ dst + n + 4 < 2 ^ 64 := by
  constructor
  · rintro ⟨fuel, run⟩
    by_contra high
    have never := @throughWords_never Copying Copying.dst Copying.byte Copying.word
      ⟨m, dst, src⟩ n (fun _ => rfl)
      (fun _ => rfl) hd (Nat.le_of_not_lt high) fuel
    rw [memcpy_same hd same, never] at run
    cases run
  · intro room
    have run := @throughWords_ends Copying Copying.dst Copying.byte Copying.word ⟨m, dst, src⟩ n
      (fun _ => rfl) room
      (fun k hk _ => copying_word bytes hd hs start same hk) (n + 1) (Nat.lt_succ_self n)
    refine ⟨n + 1, ?_⟩
    rw [memcpy_same hd same, run, copying_iterate hd hs start (Nat.le_refl n)]
    rfl

theorem memset_fills (hd : dst + n < 2 ^ 64) (c : Int) :
    Fills m dst c n ↔ dst + n + 4 < 2 ^ 64 := by
  have max : addr (dst + n) = dst + n := Nat.mod_eq_of_lt hd
  constructor
  · rintro ⟨fuel, run⟩
    by_contra high
    have never := @throughWords_never Setting Setting.dst (Setting.byte (lowByte c))
      (Setting.word (wordOf (lowByte c)))
      ⟨m, dst⟩ n (fun _ => rfl) (fun _ => rfl) hd (Nat.le_of_not_lt high) fuel
    unfold memset at run
    simp only [max] at never run
    rw [never] at run
    cases run
  · intro room
    have run := @throughWords_ends Setting Setting.dst (Setting.byte (lowByte c))
      (Setting.word (wordOf (lowByte c)))
      ⟨m, dst⟩ n (fun _ => rfl) room (fun k hk _ => setting_word (lowByte_lt c) hd hk) (n + 1)
      (Nat.lt_succ_self n)
    refine ⟨n + 1, ?_⟩
    unfold memset
    simp only [max] at run ⊢
    rw [run, setting_iterate hd (Nat.le_refl n)]
    rfl

/-- The loops over words are those over bytes, for all alignments and overlaps, as long as a
word behind the range does not go over the end of the address space. -/
theorem bytewise_iff (bytes : ∀ x, m x < 256) (hd : dst + n < 2 ^ 64) (hs : src + n ≤ 2 ^ 64)
    (start : src < 2 ^ 64) :
    (Copies m dst src n ↔ src % 4 ≠ dst % 4 ∨ dst + n + 4 < 2 ^ 64) ∧
      ∀ c, Fills m dst c n ↔ dst + n + 4 < 2 ^ 64 := by
  refine ⟨?_, memset_fills hd⟩
  by_cases gap : src % 4 ≠ dst % 4
  · exact iff_of_true (memcpy_unaligned hd hs start gap) (.inl gap)
  · rw [memcpy_aligned bytes hd hs start (not_not.mp gap)]
    exact (or_iff_right gap).symm

/-- The range is copied onto itself, one word up. -/
theorem bytewise_iff_overlap :
    (Copies (fun x => x % 256) 4 0 8 ↔ 0 % 4 ≠ 4 % 4 ∨ 4 + 8 + 4 < 2 ^ 64) ∧
      ∀ c, Fills (fun x => x % 256) 4 c 8 ↔ 4 + 8 + 4 < 2 ^ 64 :=
  bytewise_iff (fun x => Nat.mod_lt x (by decide)) (by decide) (by decide) (by decide)

/-- The word before the last one. -/
theorem memcpy_endless : ¬Copies (fun _ => 0) (2 ^ 64 - 8) 0 4 := by
  rw [memcpy_aligned (fun _ => by decide) (by decide) (by decide) (by decide) (by decide)]
  decide

end

end RiscvMos.Memcpy
