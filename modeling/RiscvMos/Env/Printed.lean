import RiscvMos.Env.Copies

/-! What `sys_print_cons` prints, for a range that is mapped. -/

namespace RiscvMos.Kernel

open Pmap

/-- The characters that a call outputs, if it prints every byte that it touches. -/
def printed (r : Ran) : List Nat := r.touched.map fun t => t.pmap.byteAt t.pa

/-- The byte at an address of the env. -/
def userByte (k : Kernel) (c : EnvIdx) (va : Nat) : Nat := k.pmap.byteAt (k.pmap.getPa c va)

/-- The range `[s, s + num)` is mapped user memory. -/
structure UserRange (k : Kernel) (c : EnvIdx) (s num : Nat) : Prop where
  below : s + num ≤ ulim
  mapped : ∀ j < num, UserPage k.pmap c (s + j)

def userBytes (k : Kernel) (c : EnvIdx) (s num : Nat) : List Nat :=
  (List.range num).map fun j => userByte k c (s + j)

/-- The caller's bytes are printed, in their order, and the call returns 0. -/
structure Prints (k : Kernel) (c : EnvIdx) (s num : Nat) : Prop where
  chars : printed (k.sysPrintCons c s num) = userBytes k c s num
  returns : ∃ k', (k.sysPrintCons c s num).result = .ok (0, k')

/-- The length of the first piece, `s % PAGE_SIZE`, is right: there is only one
piece, or the start is the start or the middle of a page, or the first two pieces
end where the page ends. -/
def SplitsWell (s num : Nat) : Prop :=
  s / 4096 = (s + num) / 4096 ∨ s % 4096 = 0 ∨ s % 4096 = 2048 ∨
    (s % 4096 < 2048 ∧ s % 4096 + num = 4096)

variable {k : Kernel} {c : EnvIdx} {s num n : Nat}

theorem UserRange.sub (h : UserRange k c s num) {a m : Nat} (hm : a + m ≤ num) :
    UserRange k c (s + a) m := by
  constructor
  · have := h.below
    omega
  · intro j hj
    rw [Nat.add_assoc]
    exact h.mapped (a + j) (by omega)

theorem UserRange.head (h : UserRange k c s num) {m : Nat} (hm : m ≤ num) : UserRange k c s m := by
  have := h.below
  exact ⟨by omega, fun j hj => h.mapped j (by omega)⟩

theorem UserRange.first (h : UserRange k c s num) (pos : 0 < num) : UserPage k.pmap c s :=
  h.mapped 0 pos

theorem userBytes_length (k : Kernel) (c : EnvIdx) (s num : Nat) :
    (userBytes k c s num).length = num := by
  simp [userBytes]

theorem userBytes_add (k : Kernel) (c : EnvIdx) (s a b : Nat) :
    userBytes k c s (a + b) = userBytes k c s a ++ userBytes k c (s + a) b := by
  unfold userBytes
  rw [List.range_add, List.map_append, List.map_map]
  congr 1
  apply List.map_congr_left
  intro j _
  simp only [Function.comp, Nat.add_assoc]

/-- The bytes of one piece, as long as it ends in the page it starts in. -/
theorem touches_userBytes (h : UserRange k c s n) (hn : s % 4096 + n ≤ 4096) :
    (touches k.pmap (k.pmap.getPa c s) n).map (fun t => t.pmap.byteAt t.pa) =
    userBytes k c s n := by
  unfold touches userBytes
  rw [List.map_map]
  apply List.map_congr_left
  intro j hj
  rw [List.mem_range] at hj
  have first := h.first (by omega)
  obtain ⟨-, same, small⟩ := getPa_page (s + j) (by omega) first
  have place : uLong (k.pmap.getPa c s + j) = k.pmap.getPa c (s + j) := by
    unfold uLong
    omega
  simp only [Function.comp, place, userByte]

theorem demandPage_mapped {alloc : Pmap EnvIdx → EnvIdx → Nat → Nat → Except Halt (Reply EnvIdx)}
    (h : UserPage k.pmap c s) : k.demandPage c alloc s = .ok k := by
  unfold Kernel.demandPage
  rw [if_pos h.1]

theorem printPages_mapped (m : Nat) (h : UserRange k c s (4096 * m)) (aligned : s % 4096 = 0) :
    (printPages c m k s).2 = .ok k ∧
      (printPages c m k s).1.map (fun t => t.pmap.byteAt t.pa) = userBytes k c s (4096 * m) := by
  induction m generalizing s with
  | zero => exact ⟨rfl, rfl⟩
  | succ m ih =>
    have below := h.below
    simp only [ulim] at below
    have first := h.first (by omega)
    have next : uLong (s + 4096) = s + 4096 := by
      unfold uLong
      omega
    obtain ⟨ok, rest⟩ := ih (s := s + 4096) (h.sub (by omega)) (by omega)
    have whole : UserRange k c s 4096 := h.head (Nat.le_mul_of_pos_right 4096 (Nat.succ_pos m))
    have page := touches_userBytes whole (by rw [aligned, Nat.zero_add])
    have split : 4096 * (m + 1) = 4096 + 4096 * m := by omega
    simp only [printPages, demandPage_mapped first, next]
    constructor
    · exact ok
    · rw [List.map_append, page, rest, split, userBytes_add]

theorem printRest_mapped (h : UserRange k c s num) (fits : s % 4096 + num ≤ 4096) :
    printed (printRest c k s num) = userBytes k c s num ∧
    (printRest c k s num).result = .ok (0, k) := by
  unfold printRest
  by_cases zero : num = 0
  · subst zero
    exact ⟨rfl, rfl⟩
  · have first := h.mapped 0 (by omega)
    rw [Nat.add_zero] at first
    rw [if_neg zero, demandPage_mapped first]
    exact ⟨touches_userBytes h fits, rfl⟩

/-- Whole pages and a last piece, from the start of a page or within one page. -/
theorem printLong_mapped (h : UserRange k c s num) (starts : s % 4096 = 0 ∨ s % 4096 + num ≤ 4096) :
    printed (printLong c k s num) = userBytes k c s num ∧
    (printLong c k s num).result = .ok (0, k) := by
  have below := h.below
  simp only [ulim] at below
  have last : uLong (s + num / 4096 * 4096) = s + 4096 * (num / 4096) := by
    unfold uLong
    omega
  have aligned : s % 4096 = 0 ∨ num / 4096 = 0 := by omega
  have pages : (printPages c (num / 4096) k s).2 = .ok k ∧
      (printPages c (num / 4096) k s).1.map (fun t => t.pmap.byteAt t.pa) =
      userBytes k c s (4096 * (num / 4096)) := by
    cases aligned with
    | inl start => exact printPages_mapped _ (h.head (by omega)) start
    | inr none =>
      rw [none]
      exact ⟨rfl, rfl⟩
  obtain ⟨ok, whole⟩ := pages
  obtain ⟨rest, result⟩ :=
    printRest_mapped (h.sub (a := 4096 * (num / 4096)) (m := num % 4096) (by omega)) (by omega)
  unfold printLong
  rw [ok]
  dsimp only
  rw [last]
  constructor
  · have split : num = 4096 * (num / 4096) + num % 4096 := by omega
    simp only [printed, List.map_append] at rest ⊢
    rw [whole, rest, ← userBytes_add, ← split]
  · exact result

/-- The physical address and the length do not wrap. -/
theorem getPa_no_wrap (h : UserRange k c s num) :
    ¬ uLong (k.pmap.getPa c s + num) < k.pmap.getPa c s := by
  have below := h.below
  simp only [ulim] at below
  by_cases zero : num = 0
  · have := getPa_lt k.pmap c s
    unfold uLong
    omega
  · have first := h.mapped 0 (by omega)
    rw [Nat.add_zero] at first
    obtain ⟨-, -, small⟩ := getPa_page s rfl first
    unfold uLong
    omega

theorem printCons_splitsWell (h : UserRange k c s num) (well : SplitsWell s num) :
    Prints k c s num := by
  have below := h.below
  simp only [ulim] at below
  have sum : uLong (s + num) = s + num := by
    unfold uLong
    omega
  by_cases one : s / 4096 = (s + num) / 4096
  · have eq : k.sysPrintCons c s num = ⟨touches k.pmap (k.pmap.getPa c s) num, .ok (0, k)⟩ := by
      rw [sysPrintCons, if_neg (getPa_no_wrap h), sum, if_pos one]
    constructor
    · rw [eq]
      exact touches_userBytes h (by omega)
    · rw [eq]
      exact ⟨k, rfl⟩
  · -- the head is `s % 4096` long, which is where the page ends or before it
    have head : s % 4096 ≤ num ∧ s % 4096 + s % 4096 ≤ 4096 := by
      unfold SplitsWell at well
      omega
    have rest : (s + s % 4096) % 4096 = 0 ∨ (s + s % 4096) % 4096 + (num - s % 4096) ≤ 4096 := by
      unfold SplitsWell at well
      omega
    have start : uLong (s + s % 4096) = s + s % 4096 := by
      unfold uLong
      omega
    have left : uLongSub num (s % 4096) = num - s % 4096 := by
      unfold uLongSub uLong
      omega
    have eq : k.sysPrintCons c s num =
        ⟨touches k.pmap (k.pmap.getPa c s) (s % 4096) ++
          (printLong c k (s + s % 4096) (num - s % 4096)).touched,
          (printLong c k (s + s % 4096) (num - s % 4096)).result⟩ := by
      rw [sysPrintCons, if_neg (getPa_no_wrap h), sum, if_neg one, start, left]
    obtain ⟨chars, result⟩ :=
      printLong_mapped (h.sub (a := s % 4096) (m := num - s % 4096) (by omega)) rest
    have page := touches_userBytes (n := s % 4096) (h.head (by omega)) (by omega)
    constructor
    · have split : num = s % 4096 + (num - s % 4096) := by omega
      rw [eq]
      simp only [printed, List.map_append] at chars ⊢
      rw [page, chars, ← userBytes_add, ← split]
    · rw [eq]
      exact ⟨k, result⟩

/-! For a range that is not split well, a memory in which the output is wrong:
every user page is the frame `0x80003` of zeros, and the bytes of the next frame are 1. -/

def flatPmap : Pmap EnvIdx :=
  oneTable (fun _ => 0x80003) fun p _ => if p = 0x80003 then 0 else 0x0101010101010101

def flatKernel : Kernel := { onePageKernel with pmap := flatPmap }

theorem flat_getPa (va : Nat) : flatPmap.getPa c va = 0x80003000 + va % 4096 := by
  have small : 0x80003 < 2 ^ 44 := by decide
  rw [flatPmap, oneTable_getPa fun _ => small]

theorem flat_userPage (va : Nat) : UserPage flatPmap c va := oneTable_userPage

theorem flat_userRange (h : s + num ≤ ulim) : UserRange flatKernel c s num :=
  ⟨h, fun _ _ => flat_userPage _⟩

theorem flat_byteAt_frame {o : Nat} (h : o < 4096) : flatPmap.byteAt (0x80003000 + o) = 0 := by
  have page : (0x80003000 + o) / 4096 = 0x80003 := by omega
  have words : flatPmap.mem 0x80003 = fun _ => 0 := by
    funext i
    have frame : (0x80003 : Nat) ≠ 0x80000 ∧ (0x80003 : Nat) ≠ 0x80001 ∧
        (0x80003 : Nat) ≠ 0x80002 := by decide
    simp only [flatPmap, oneTable, if_neg frame.1, if_neg frame.2.1, if_neg frame.2.2, if_true]
  rw [Pmap.byteAt, page, words, Nat.zero_shiftRight]

/-- A piece that goes on past the page reaches the next frame. -/
theorem flat_touches_past {o : Nat} (past : 4096 < s % 4096 + n) (ho : o = 1) :
    o ∈ (touches flatPmap (flatPmap.getPa c s) n).map fun t => t.pmap.byteAt t.pa := by
  have next : uLong (flatPmap.getPa c s + (4096 - s % 4096)) = 0x80004000 := by
    rw [flat_getPa]
    unfold uLong
    omega
  have touched :=
    mem_touches flatPmap (flatPmap.getPa c s) (i := 4096 - s % 4096) (n := n) (by omega)
  rw [next] at touched
  have byte : flatPmap.byteAt 0x80004000 = o := by
    rw [ho]
    decide
  exact List.mem_map.mpr ⟨_, touched, byte⟩

theorem flat_printLong_past {t m : Nat} (ht : t < 2 ^ 64) (inside : t % 4096 ≠ 0)
    (past : 4096 < t % 4096 + m) :
    1 ∈ (printLong c flatKernel t m).touched.map fun t => t.pmap.byteAt t.pa := by
  have mapped : UserPage flatKernel.pmap c t := flat_userPage t
  unfold printLong
  by_cases long : 4096 ≤ m
  · -- the first whole page starts inside a page
    obtain ⟨i, hi⟩ : ∃ i, m / 4096 = i + 1 := ⟨m / 4096 - 1, by omega⟩
    have first : 1 ∈ (printPages c (i + 1) flatKernel t).1.map fun t => t.pmap.byteAt t.pa := by
      rw [printPages, demandPage_mapped mapped]
      rw [List.map_append]
      exact List.mem_append_left _ (flat_touches_past (by omega) rfl)
    rw [hi]
    split
    · exact first
    · rw [List.map_append]
      exact List.mem_append_left _ first
  · have none : m / 4096 = 0 := by omega
    have rest : m % 4096 = m := by omega
    have start : uLong (t + 0 * 4096) = t := by
      unfold uLong
      omega
    rw [none, rest]
    simp only [printPages, List.nil_append, start]
    rw [printRest, if_neg (by omega), demandPage_mapped mapped]
    exact flat_touches_past past rfl

theorem flat_not_prints (h : s + num ≤ ulim) (badly : ¬ SplitsWell s num) :
    ¬ Prints flatKernel c s num := by
  intro prints
  have zeros : 1 ∉ userBytes flatKernel c s num := by
    intro one
    obtain ⟨j, -, byte⟩ := List.mem_map.mp one
    have zero : userByte flatKernel c (s + j) = 0 := by
      unfold userByte
      rw [show flatKernel.pmap = flatPmap from rfl, flat_getPa]
      exact flat_byteAt_frame (Nat.mod_lt _ (by decide))
    omega
  apply zeros
  rw [← prints.chars]
  have below := h
  simp only [ulim] at below
  have sum : uLong (s + num) = s + num := by
    unfold uLong
    omega
  have more : s / 4096 ≠ (s + num) / 4096 := fun one => badly (.inl one)
  have eq : flatKernel.sysPrintCons c s num =
      ⟨touches flatPmap (flatPmap.getPa c s) (s % 4096) ++
          (printLong c flatKernel (uLong (s + s % 4096)) (uLongSub num (s % 4096))).touched,
        (printLong c flatKernel (uLong (s + s % 4096)) (uLongSub num (s % 4096))).result⟩ := by
    rw [sysPrintCons, if_neg (getPa_no_wrap (flat_userRange h)), sum, if_neg more]
    rfl
  rw [eq, printed, List.map_append]
  by_cases high : 2048 < s % 4096
  · -- the head itself goes on past the page
    exact List.mem_append_left _ (flat_touches_past (by omega) rfl)
  · have left : uLongSub num (s % 4096) = num - s % 4096 := by
      unfold SplitsWell at badly
      unfold uLongSub uLong
      omega
    have start : uLong (s + s % 4096) = s + s % 4096 := by
      unfold uLong
      omega
    rw [left, start]
    apply List.mem_append_right
    exact flat_printLong_past (by omega) (by unfold SplitsWell at badly; omega)
      (by unfold SplitsWell at badly; omega)

/-- For every mapped range and every memory, the call prints the caller's bytes
exactly where the first piece has the right length. -/
theorem print_cons_iff (h : s + num ≤ ulim) :
    (∀ k c, UserRange k c s num → Prints k c s num) ↔ SplitsWell s num := by
  constructor
  · intro prints
    by_contra badly
    exact flat_not_prints (c := 0) h badly (prints flatKernel 0 (flat_userRange h))
  · intro well k c range
    exact printCons_splitsWell range well

theorem print_cons_iff_two_pages :
    0x400000 + 5000 ≤ ulim ∧
      ((∀ k c, UserRange k c 0x400000 5000 → Prints k c 0x400000 5000) ↔
        SplitsWell 0x400000 5000) :=
  ⟨by decide, print_cons_iff (by decide)⟩

/-- The last 2047 bytes of the one page of the env: 2049 bytes are printed before
the count wraps. -/
theorem page_end_misprinted :
    UserRange onePageKernel 0 0x400801 2047 ∧ ¬ Prints onePageKernel 0 0x400801 2047 := by
  have page : UserPage onePage 0 0x400000 := by decide +kernel
  have range : UserRange onePageKernel 0 0x400801 2047 :=
    ⟨by decide, fun j hj => (getPa_page (0x400801 + j) (by omega) page).1⟩
  refine ⟨range, ?_⟩
  intro prints
  have eq := congrArg List.length prints.chars
  rw [userBytes_length, sysPrintCons, if_neg (getPa_no_wrap range), if_neg (by decide)] at eq
  simp only [printed, List.map_append, List.length_append, List.length_map, touches,
    List.length_range] at eq
  omega

end RiscvMos.Kernel
