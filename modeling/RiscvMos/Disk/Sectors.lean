import RiscvMos.Env.Copies
import RiscvMos.Env.Printed

/-! `sys_read_sector` and `sys_write_sector` with what they move, and the loops
of `fs/ide.c`. The device does each request, with status 0. -/

namespace RiscvMos

open Pmap

/-- The kernel, the data of the two request buffers, and the disk. -/
structure DiskMachine where
  kernel : Kernel
  readBuffer : Nat → Nat
  writeBuffer : Nat → Nat
  sectors : Nat → Nat → Nat

namespace DiskMachine

/-- The copies of `sys_write_sector` to `write_buffer.data`. -/
def fillBuffer (s : Pmap EnvIdx) (buf : Nat → Nat) (ps : List (Nat × Nat × Nat)) : Nat → Nat :=
  ps.foldl (fun buf p j =>
    if p.2.1 ≤ j ∧ j < p.2.1 + p.2.2 then s.byteAt (uLong (p.1 + (j - p.2.1))) else buf j) buf

def sysWriteSector (m : DiskMachine) (c : EnvIdx) (va sector : Nat) : Except Halt DiskMachine := do
  let (k, ps) ← m.kernel.sectorPieces c va
  let data := fillBuffer k.pmap m.writeBuffer ps
  .ok { m with kernel := k, writeBuffer := data, sectors := Function.update m.sectors sector data }

def sysReadSector (m : DiskMachine) (c : EnvIdx) (va sector : Nat) : Except Halt DiskMachine := do
  let (_, k) ← (m.kernel.sysReadSector c (fun n => some (m.sectors n)) va sector).result
  .ok { m with kernel := k, readBuffer := m.sectors sector }

/-- The loop of `ide_write` from `i` on; `i * BY2SECT` and `secno + i` are `u_int`s. -/
def ideWriteFrom (c : EnvIdx) (secno src : Nat) : Nat → Nat → DiskMachine → Except Halt DiskMachine
  | 0, _, m => .ok m
  | n + 1, i, m => do
    let m ← m.sysWriteSector c (uLong (src + uInt (i * 512))) (uInt (secno + i))
    ideWriteFrom c secno src n (i + 1) m

def ideWrite (m : DiskMachine) (c : EnvIdx) (secno src nsecs : Nat) : Except Halt DiskMachine :=
  ideWriteFrom c secno src nsecs 0 m

/-- The loop of `ide_read` from `i` on. -/
def ideReadFrom (c : EnvIdx) (secno dst : Nat) : Nat → Nat → DiskMachine → Except Halt DiskMachine
  | 0, _, m => .ok m
  | n + 1, i, m => do
    let m ← m.sysReadSector c (uLong (dst + uInt (i * 512))) (uInt (secno + i))
    ideReadFrom c secno dst n (i + 1) m

def ideRead (m : DiskMachine) (c : EnvIdx) (secno dst nsecs : Nat) : Except Halt DiskMachine :=
  ideReadFrom c secno dst nsecs 0 m

variable {m m' m₁ : DiskMachine} {k : Kernel} {c : EnvIdx} {va va' sector secno n i : Nat}

/-- The pieces of a mapped sector: where the bytes from `va` on are. -/
theorem sectorPieces_mapped (h : Kernel.UserRange k c va 512) :
    (va % 4096 ≤ 3584 ∧ k.sectorPieces c va = .ok (k, [(k.pmap.getPa c va, 0, 512)])) ∨
    (3584 < va % 4096 ∧ k.sectorPieces c va = .ok (k, [(k.pmap.getPa c va, 0, 4096 - va % 4096),
      (k.pmap.getPa c (va + (4096 - va % 4096)), 4096 - va % 4096,
        512 - (4096 - va % 4096))])) := by
  have below := h.below
  simp only [ulim] at below
  have first := h.first (by omega)
  have last : uLong (va + 511) = va + 511 := by
    unfold uLong
    omega
  by_cases inside : va % 4096 ≤ 3584
  · left
    refine ⟨inside, ?_⟩
    unfold Kernel.sectorPieces
    rw [Kernel.demandPage_mapped first]
    dsimp only [bind, Except.bind]
    rw [last, if_neg (by omega)]
  · right
    refine ⟨by omega, ?_⟩
    have next : uLong (va + 512) = va + 512 := by
      unfold uLong
      omega
    -- the page of `va + 512`, which is looked up, is the one the range goes on in
    have second := h.mapped (4096 - va % 4096) (by omega)
    obtain ⟨page, same, small⟩ := Kernel.getPa_page (va + 512) (by omega) second
    have offset : va / 4096 * 4096 + 4096 - va = 4096 - va % 4096 := by omega
    have back : uLongSub (k.pmap.getPa c (va + 512)) (512 - (4096 - va % 4096)) =
        k.pmap.getPa c (va + (4096 - va % 4096)) := by
      unfold uLongSub uLong
      omega
    unfold Kernel.sectorPieces
    rw [Kernel.demandPage_mapped first]
    dsimp only [bind, Except.bind]
    rw [last, if_pos (by omega), offset, next, Kernel.demandPage_mapped page]
    dsimp only
    rw [back]

/-- Byte `j` of the sector at `va` is at this address. -/
theorem getPa_piece (h : Kernel.UserRange k c va n) {j : Nat} (hj : j < n)
    (page : va % 4096 + j < 4096) :
    k.pmap.getPa c (va + j) = k.pmap.getPa c va + j ∧ k.pmap.getPa c va + j < 2 ^ 57 := by
  have first := h.first (by omega)
  obtain ⟨-, same, small⟩ := Kernel.getPa_page (va + j) (by omega) first
  omega

theorem fillBuffer_mapped (h : Kernel.UserRange k c va 512) (buf : Nat → Nat) :
    ∃ ps, k.sectorPieces c va = .ok (k, ps) ∧
      ∀ j < 512, fillBuffer k.pmap buf ps j = Kernel.userByte k c (va + j) := by
  cases sectorPieces_mapped h with
  | inl one =>
    refine ⟨_, one.2, ?_⟩
    intro j hj
    obtain ⟨place, small⟩ := getPa_piece h hj (by omega)
    have address : uLong (k.pmap.getPa c va + j) = k.pmap.getPa c (va + j) := by
      unfold uLong
      omega
    simp only [fillBuffer, List.foldl_cons, List.foldl_nil]
    rw [if_pos (by omega), Nat.sub_zero, address, Kernel.userByte]
  | inr two =>
    refine ⟨_, two.2, ?_⟩
    intro j hj
    simp only [fillBuffer, List.foldl_cons, List.foldl_nil]
    by_cases head : j < 4096 - va % 4096
    · obtain ⟨place, small⟩ := getPa_piece h hj (by omega)
      have address : uLong (k.pmap.getPa c va + j) = k.pmap.getPa c (va + j) := by
        unfold uLong
        omega
      rw [if_neg (by omega), if_pos (by omega), Nat.sub_zero, address, Kernel.userByte]
    · have tail := h.sub (a := 4096 - va % 4096) (m := 512 - (4096 - va % 4096)) (by omega)
      obtain ⟨place, small⟩ := getPa_piece tail (j := j - (4096 - va % 4096)) (by omega) (by omega)
      have index : va + (4096 - va % 4096) + (j - (4096 - va % 4096)) = va + j := by omega
      rw [index] at place
      have address : uLong (k.pmap.getPa c (va + (4096 - va % 4096)) + (j - (4096 - va % 4096))) =
          k.pmap.getPa c (va + j) := by
        unfold uLong
        omega
      rw [if_pos (by omega), address, Kernel.userByte]

/-- A sector is written as it is in memory. -/
theorem sysWriteSector_mapped (h : Kernel.UserRange m.kernel c va 512) (sector : Nat) :
    ∃ data, m.sysWriteSector c va sector =
        .ok { m with writeBuffer := data, sectors := Function.update m.sectors sector data } ∧
      ∀ j < 512, data j = Kernel.userByte m.kernel c (va + j) := by
  obtain ⟨ps, pieces, filled⟩ := fillBuffer_mapped h m.writeBuffer
  refine ⟨_, ?_, filled⟩
  unfold sysWriteSector
  rw [pieces]
  rfl

theorem getPa_offset (h : k.pmap.isMappedPage c va = true) :
    k.pmap.getPa c va % 4096 = va % 4096 := by
  obtain ⟨-, t0, -, -, leaf⟩ := exists_leafPte h
  rw [getPa_of_leafPte leaf]
  omega

/-- What a read does to memory: the bytes of the range are `data`, and no other
byte and no address space is changed. -/
structure Filled (k k' : Kernel) (c : EnvIdx) (va n : Nat) (data : Nat → Nat) : Prop where
  spaces : SameSpaces k.pmap k'.pmap
  filled : ∀ j < n, k'.pmap.byteAt (k.pmap.getPa c (va + j)) = data j
  kept : ∀ x, (∀ j < n, k.pmap.getPa c (va + j) ≠ x) → k'.pmap.byteAt x = k.pmap.byteAt x

/-- The frames of a piece. -/
theorem piece_frames (hu : k.pmap.UserApart) (h : Kernel.UserRange k c va n)
    (page : va % 4096 + n ≤ 4096) :
    ∀ j < n, ¬ k.pmap.TablePage (uLong (k.pmap.getPa c va + j) / 4096) := by
  intro j hj
  have below := h.below
  obtain ⟨place, small⟩ := getPa_piece h hj (by omega)
  have address : uLong (k.pmap.getPa c va + j) = k.pmap.getPa c (va + j) := by
    unfold uLong
    omega
  rw [address]
  exact hu.frame (by omega) (h.mapped j hj).1

/-- A copy to a piece that lies in one page. -/
theorem copyTo_piece {data : Nat → Nat} {off : Nat} (hu : k.pmap.UserApart)
    (h : Kernel.UserRange k c va n)
    (page : va % 4096 + n ≤ 4096) (bytes : ∀ j < n, data (off + j) < 256) :
    Filled k { k with pmap := k.pmap.copyTo (k.pmap.getPa c va) data off n } c va n fun j =>
    data (off + j) := by
  have frames := piece_frames hu h page
  by_cases none : n = 0
  · subst none
    exact ⟨SameSpaces.refl _, fun j hj => absurd hj (Nat.not_lt_zero j), fun _ _ => rfl⟩
  · obtain ⟨place, small⟩ := getPa_piece h (j := n - 1) (by omega) (by omega)
    have byte := @byteAt_copyTo _ k.pmap (k.pmap.getPa c va) off n _ (by omega) bytes
    constructor
    · exact copyTo_sameSpaces frames
    · intro j hj
      obtain ⟨here, -⟩ := getPa_piece h hj (by omega)
      have index : k.pmap.getPa c va + j - k.pmap.getPa c va = j := by omega
      rw [byte, here, if_pos (by omega), index]
    · intro x hx
      rw [byte, if_neg]
      intro inside
      obtain ⟨here, -⟩ := getPa_piece h (j := x - k.pmap.getPa c va) (by omega) (by omega)
      exact hx (x - k.pmap.getPa c va) (by omega) (by omega)

theorem userRange_same {k' : Kernel} (same : SameSpaces k.pmap k'.pmap)
    (h : Kernel.UserRange k c va n) :
    Kernel.UserRange k' c va n := by
  have below := h.below
  refine ⟨below, ?_⟩
  intro j hj
  obtain ⟨mapped, user⟩ := h.mapped j hj
  exact ⟨(same.isMappedPage (by omega)).trans
    mapped, by rw [same.getPerm (by omega) mapped]; exact user⟩

/-- Two pieces one after the other, whose bytes are not at the same place. -/
theorem Filled.append {k₁ k₂ : Kernel} {a b : Nat} {data : Nat → Nat}
    (h : Kernel.UserRange k c va (a + b))
    (first : Filled k k₁ c va a data) (second : Filled k₁ k₂ c (va + a) b fun j => data (a + j))
    (apart : ∀ i < a, ∀ j < b, k.pmap.getPa c (va + i) ≠ k.pmap.getPa c (va + a + j)) :
    Filled k k₂ c va (a + b) data := by
  have below := h.below
  have same : ∀ j < b, k₁.pmap.getPa c (va + a + j) = k.pmap.getPa c (va + a + j) := by
    intro j hj
    apply first.spaces.getPa (by omega)
    rw [Nat.add_assoc]
    exact (h.mapped (a + j) (by omega)).1
  constructor
  · exact first.spaces.trans second.spaces
  · intro j hj
    by_cases head : j < a
    · rw [second.kept _ fun i hi => by rw [same i hi]; exact (apart j head i hi).symm]
      exact first.filled j head
    · have index : va + a + (j - a) = va + j := by omega
      have last := second.filled (j - a) (by omega)
      rw [same (j - a) (by omega), index] at last
      rw [last]
      congr 1
      omega
  · intro x hx
    rw [second.kept x, first.kept x fun j hj => hx j (by omega)]
    intro j hj
    rw [same j hj, Nat.add_assoc]
    exact hx (a + j) (by omega)

/-- A sector is read to memory as it is on the disk. -/
theorem sysReadSector_mapped (hu : m.kernel.pmap.UserApart) (h : Kernel.UserRange m.kernel c va 512)
    (bytes : ∀ j < 512, m.sectors sector j < 256) :
    ∃ k', m.sysReadSector c va sector =
    .ok { m with kernel := k', readBuffer := m.sectors sector } ∧
      Filled m.kernel k' c va 512 (m.sectors sector) := by
  have start : ∀ j, 0 + j = j := Nat.zero_add
  cases sectorPieces_mapped h with
  | inl one =>
    have from0 : ∀ j < 512, m.sectors sector (0 + j) < 256 := fun j hj => by
      rw [start]; exact bytes j hj
    have filled := copyTo_piece hu h (by omega) from0
    simp only [start] at filled
    refine ⟨_, ?_, filled⟩
    unfold sysReadSector Kernel.sysReadSector
    simp only [one.2, List.foldl_cons, List.foldl_nil, bind, Except.bind]
  | inr two =>
    have split : 512 = 4096 - va % 4096 + (512 - (4096 - va % 4096)) := by omega
    have head := h.head (m := 4096 - va % 4096) (by omega)
    have tail := h.sub (a := 4096 - va % 4096) (m := 512 - (4096 - va % 4096)) (by omega)
    have from0 : ∀ j < 4096 - va % 4096, m.sectors sector (0 + j) < 256 := fun j hj => by
      rw [start]
      exact bytes j (by omega)
    have first := copyTo_piece hu head (by omega) from0
    simp only [start] at first
    have next : ∀ j < 512 - (4096 - va % 4096), m.sectors sector (4096 - va % 4096 + j) < 256 :=
      fun j hj => bytes _ (by omega)
    have second :=
      copyTo_piece (first.spaces.userApart hu) (userRange_same first.spaces tail) (by omega) next
    have apart : ∀ i < 4096 - va % 4096, ∀ j < 512 - (4096 - va % 4096),
        m.kernel.pmap.getPa c (va + i) ≠ m.kernel.pmap.getPa c (va + (4096 - va % 4096) + j) := by
      intro i hi j hj same
      have low := getPa_offset (h.mapped i (by omega)).1
      have high := getPa_offset (tail.mapped j hj).1
      rw [same] at low
      omega
    have place := @SameSpaces.getPa _ _ _ first.spaces c (va + (4096 - va % 4096))
      (by have := h.below; omega)
      (tail.first (by omega)).1
    have whole := Filled.append (split ▸ h) first second apart
    rw [← split] at whole
    refine ⟨_, ?_, whole⟩
    unfold sysReadSector Kernel.sysReadSector
    simp only [two.2, List.foldl_cons, List.foldl_nil, bind, Except.bind, place]

/-- The same for bytes that are stored in their order: where two addresses of
the range are the same place, the last one's byte stays. -/
structure FilledInOrder (k k' : Kernel) (c : EnvIdx) (va n : Nat) (data : Nat → Nat) : Prop where
  spaces : SameSpaces k.pmap k'.pmap
  filled : ∀ j < n, (∀ i, j < i → i < n → k.pmap.getPa c (va + i) ≠ k.pmap.getPa c (va + j)) →
    k'.pmap.byteAt (k.pmap.getPa c (va + j)) = data j
  kept : ∀ x, (∀ j < n, k.pmap.getPa c (va + j) ≠ x) → k'.pmap.byteAt x = k.pmap.byteAt x

theorem FilledInOrder.append {k₁ k₂ : Kernel} {a b : Nat} {data : Nat → Nat}
    (h : Kernel.UserRange k c va (a + b)) (first : FilledInOrder k k₁ c va a data)
    (second : FilledInOrder k₁ k₂ c (va + a) b fun j => data (a + j)) :
    FilledInOrder k k₂ c va (a + b) data := by
  have below := h.below
  have same : ∀ j < b, k₁.pmap.getPa c (va + a + j) = k.pmap.getPa c (va + (a + j)) := by
    intro j hj
    rw [Nat.add_assoc]
    exact first.spaces.getPa (by omega) (h.mapped (a + j) (by omega)).1
  constructor
  · exact first.spaces.trans second.spaces
  · intro j hj last
    by_cases head : j < a
    · rw [second.kept _ fun i hi => by rw [same i hi]; exact last (a + i) (by omega) (by omega)]
      exact first.filled j head fun i hi hia => last i hi (by omega)
    · obtain ⟨i, rfl⟩ : ∃ i, j = a + i := ⟨j - a, by omega⟩
      have byte := second.filled i (by omega) fun t ht htb => by
        rw [same t htb, same i (by omega)]
        exact last (a + t) (by omega) (by omega)
      rwa [same i (by omega)] at byte
  · intro x hx
    rw [second.kept x, first.kept x fun j hj => hx j (by omega)]
    intro j hj
    rw [same j hj]
    exact hx (a + j) (by omega)

/-- The arguments of the call for sector `i`. -/
theorem ide_args (h : va + 512 * i ≤ ulim) : uLong (va + uInt (i * 512)) = va + 512 * i := by
  simp only [ulim] at h
  unfold uLong uInt
  omega

/-- `n` sectors from `i` on are written as they are in memory, and no others. -/
structure Written (m m' : DiskMachine) (c : EnvIdx) (secno src n i : Nat) : Prop where
  kernel : m'.kernel = m.kernel
  written : ∀ t, i ≤ t → t < i + n → ∀ j < 512,
    m'.sectors (uInt (secno + t)) j = Kernel.userByte m.kernel c (src + 512 * t + j)
  kept : ∀ x, (∀ t, i ≤ t → t < i + n → x ≠ uInt (secno + t)) → m'.sectors x = m.sectors x

theorem ideWriteFrom_mapped {src total : Nat} (h : Kernel.UserRange m.kernel c src (512 * total))
    (hi : i + n ≤ total) :
    ∃ m', ideWriteFrom c secno src n i m = .ok m' ∧ Written m m' c secno src n i := by
  induction n generalizing m i with
  | zero => exact ⟨m, rfl, rfl, fun t _ _ => by omega, fun _ _ => rfl⟩
  | succ n ih =>
    have below := h.below
    have sector := h.sub (a := 512 * i) (m := 512) (by omega)
    obtain ⟨data, written, bytes⟩ := sysWriteSector_mapped sector (uInt (secno + i))
    obtain ⟨m', rest, done⟩ :=
      ih (m := { m with writeBuffer := data, sectors := Function.update m.sectors _ data })
      (i := i + 1) h (by omega)
    refine ⟨m', ?_, done.kernel, ?_, ?_⟩
    · rw [ideWriteFrom, ide_args (by omega), written]
      exact rest
    · intro t low high j hj
      by_cases own : t = i
      · subst own
        -- no later sector has the same number
        have other : ∀ u, t + 1 ≤ u → u < t + 1 + n → uInt (secno + t) ≠ uInt (secno + u) := by
          intro u hu hn
          simp only [ulim] at below
          unfold uInt
          omega
        rw [done.kept _ other]
        simp only [Function.update_self]
        exact bytes j hj
      · exact done.written t (by omega) (by omega) j hj
    · intro x hx
      rw [done.kept x fun t low high => hx t (by omega) (by omega)]
      exact Function.update_of_ne (hx i (Nat.le_refl i) (by omega)) _ _

/-- `n` sectors from `i` on are read to memory as they are on the disk. -/
theorem ideReadFrom_mapped {dst : Nat} (hu : m.kernel.pmap.UserApart)
    {total : Nat} (h : Kernel.UserRange m.kernel c dst (512 * total)) (hi : i + n ≤ total)
    (bytes : ∀ t, i ≤ t → t < i + n → ∀ j < 512, m.sectors (uInt (secno + t)) j < 256) :
    ∃ m', ideReadFrom c secno dst n i m = .ok m' ∧ m'.sectors = m.sectors ∧
      FilledInOrder m.kernel m'.kernel c (dst + 512 * i) (512 * n)
        fun j => m.sectors (uInt (secno + (i + j / 512))) (j % 512) := by
  induction n generalizing m i with
  | zero => exact ⟨m, rfl, rfl, SameSpaces.refl _, fun j hj => by omega, fun _ _ => rfl⟩
  | succ n ih =>
    have below := h.below
    have sector := h.sub (a := 512 * i) (m := 512) (by omega)
    obtain ⟨k', read, filled⟩ := sysReadSector_mapped hu sector (bytes i (Nat.le_refl i) (by omega))
    obtain ⟨m', rest, sectors, done⟩ :=
      ih (m := { m with kernel := k', readBuffer := m.sectors (uInt (secno + i)) }) (i := i + 1)
        (filled.spaces.userApart hu) (userRange_same filled.spaces h) (by omega)
        fun t low high => bytes t (by omega) (by omega)
    refine ⟨m', ?_, sectors, ?_⟩
    · rw [ideReadFrom, ide_args (by omega), read]
      exact rest
    · have split : 512 * (n + 1) = 512 + 512 * n := by rw [Nat.mul_succ, Nat.add_comm]
      rw [Nat.mul_succ, ← Nat.add_assoc] at done
      rw [split]
      apply @FilledInOrder.append _ _ _ k' _ _ _ _ (h.sub (by omega))
      · refine ⟨filled.spaces, fun j hj _ => ?_, filled.kept⟩
        rw [filled.filled j hj, Nat.div_eq_of_lt hj, Nat.mod_eq_of_lt hj, Nat.add_zero]
      · refine ⟨done.spaces, fun j hj last => ?_, done.kept⟩
        rw [done.filled j hj last]
        have next : i + 1 + j / 512 = i + (512 + j) / 512 := by omega
        have same : j % 512 = (512 + j) % 512 := by omega
        simp only
        rw [next, same]

/-- What else a write from `n` bytes and a read to the `n` bytes at `va` leave: the
address spaces, every other byte of user memory, and the sectors not in `own`. -/
structure Kept (m m' : DiskMachine) (c : EnvIdx) (va n : Nat) (own : Nat → Prop) : Prop where
  mapped : ∀ d v, v < ulim → m'.kernel.pmap.isMappedPage d v = m.kernel.pmap.isMappedPage d v
  getPa : ∀ d v, v < ulim → m.kernel.pmap.isMappedPage d v = true →
    m'.kernel.pmap.getPa d v = m.kernel.pmap.getPa d v
  bytes : ∀ x, (∀ j < n, m.kernel.pmap.getPa c (va + j) ≠ x) →
    m'.kernel.pmap.byteAt x = m.kernel.pmap.byteAt x
  sectors : ∀ x, ¬ own x → m'.sectors x = m.sectors x

theorem sector_moved {va₁ va₂ : Nat} (hu : m.kernel.pmap.UserApart)
    (h₁ : Kernel.UserRange m.kernel c va₁ 512)
    (h₂ : Kernel.UserRange m.kernel c va₂ 512) (sector : Nat) :
    ∃ m₁ m₂, m.sysWriteSector c va₁ sector = .ok m₁ ∧ m₁.sysReadSector c va₂ sector = .ok m₂ ∧
      (∀ j < 512, Kernel.userByte m₂.kernel c (va₂ + j) = Kernel.userByte m.kernel c (va₁ + j)) ∧
      Kept m m₂ c va₂ 512 (· = sector) := by
  have below := h₂.below
  obtain ⟨data, written, bytes⟩ := sysWriteSector_mapped h₁ sector
  obtain ⟨k', read, filled⟩ := @sysReadSector_mapped
    { m with writeBuffer := data, sectors := Function.update m.sectors sector data }
    _ _ sector hu h₂
    (by
      intro j hj
      simp only [Function.update_self]
      rw [bytes j hj]
      exact byteAt_lt _ _)
  refine ⟨_, _, written, read, ?_, ?_, ?_, filled.kept, ?_⟩
  · intro j hj
    rw [Kernel.userByte, filled.spaces.getPa (by omega) (h₂.mapped j hj).1,
      filled.filled j hj, ← bytes j hj]
    simp only [Function.update_self]
  · exact fun d v hv => filled.spaces.isMappedPage hv
  · exact fun d v hv mapped => filled.spaces.getPa hv mapped
  · exact fun x hx => Function.update_of_ne hx _ _

theorem sectors_moved {va₁ va₂ : Nat} (hu : m.kernel.pmap.UserApart)
    (h₁ : Kernel.UserRange m.kernel c va₁ (512 * n))
    (h₂ : Kernel.UserRange m.kernel c va₂ (512 * n)) (secno : Nat) :
    ∃ m₁ m₂, m.ideWrite c secno va₁ n = .ok m₁ ∧ m₁.ideRead c secno va₂ n = .ok m₂ ∧
      (∀ j < 512 * n,
        (∀ i, j < i → i < 512 * n →
          m.kernel.pmap.getPa c (va₂ + i) ≠ m.kernel.pmap.getPa c (va₂ + j)) →
        Kernel.userByte m₂.kernel c (va₂ + j) = Kernel.userByte m.kernel c (va₁ + j)) ∧
      Kept m m₂ c va₂ (512 * n) fun x => ∃ i < n, x = uInt (secno + i) := by
  have below := h₂.below
  obtain ⟨m₁, write, written⟩ := @ideWriteFrom_mapped _ _ secno n 0 _ _ h₁ (by omega)
  have same := written.kernel
  obtain ⟨m₂, read, sectors, filled⟩ := @ideReadFrom_mapped m₁ _ secno n 0 _
    (by rw [same]; exact hu) _ (by rw [same]; exact h₂) (by omega) (by
      intro t low high j hj
      rw [written.written t low high j hj]
      exact byteAt_lt _ _)
  rw [same, Nat.mul_zero, Nat.add_zero] at filled
  refine ⟨m₁, m₂, write, read, ?_, ?_, ?_, filled.kept, ?_⟩
  · intro j hj last
    have data := written.written (j / 512) (by omega) (by omega) (j % 512) (by omega)
    have index : va₁ + 512 * (j / 512) + j % 512 = va₁ + j := by omega
    rw [index] at data
    rw [Kernel.userByte, filled.spaces.getPa (by omega) (h₂.mapped j hj).1, filled.filled j hj last,
      Nat.zero_add, data]
  · exact fun d v hv => filled.spaces.isMappedPage hv
  · exact fun d v hv mapped => filled.spaces.getPa hv mapped
  · intro x hx
    rw [sectors, written.kept x]
    intro t low high eq
    exact hx ⟨t, by omega, eq⟩

/-- What is written from one range and read to another is there, byte for byte;
where two addresses of the second range are one place in memory, the last counts. -/
theorem sectors_round_trip {m : DiskMachine} (hu : m.kernel.pmap.UserApart) (c : EnvIdx) :
    (∀ va₁ va₂ sector, Kernel.UserRange m.kernel c va₁ 512 → Kernel.UserRange m.kernel c va₂ 512 →
      ∃ m₁ m₂, m.sysWriteSector c va₁ sector = .ok m₁ ∧ m₁.sysReadSector c va₂ sector = .ok m₂ ∧
        (∀ j < 512, Kernel.userByte m₂.kernel c (va₂ + j) = Kernel.userByte m.kernel c (va₁ + j)) ∧
        Kept m m₂ c va₂ 512 (· = sector)) ∧
    (∀ va₁ va₂ secno n, Kernel.UserRange m.kernel c va₁ (512 * n) →
      Kernel.UserRange m.kernel c va₂ (512 * n) →
      ∃ m₁ m₂, m.ideWrite c secno va₁ n = .ok m₁ ∧ m₁.ideRead c secno va₂ n = .ok m₂ ∧
        (∀ j < 512 * n,
          (∀ i, j < i → i < 512 * n →
            m.kernel.pmap.getPa c (va₂ + i) ≠ m.kernel.pmap.getPa c (va₂ + j)) →
          Kernel.userByte m₂.kernel c (va₂ + j) = Kernel.userByte m.kernel c (va₁ + j)) ∧
        Kept m m₂ c va₂ (512 * n) fun x => ∃ i < n, x = uInt (secno + i)) :=
  ⟨fun _ _ sector h₁ h₂ => sector_moved hu h₁ h₂ sector,
    fun _ _ secno _ h₁ h₂ => sectors_moved hu h₁ h₂ secno⟩

/-- A memory in which the pages `0x401` and `0x402` are one frame. The first bytes
of the words of page `0x400` are 1, all others are 0. -/
def sharedPmap : Pmap EnvIdx :=
  Kernel.oneTable (fun i => if i = 0 then 0x80003 else 0x80004) fun p _ =>
    if p = 0x80003 then 1 else 0

def sharedMachine : DiskMachine where
  kernel := { Kernel.onePageKernel with pmap := sharedPmap }
  readBuffer := fun _ => 0
  writeBuffer := fun _ => 0
  sectors := fun _ _ => 0

theorem sharedPmap_userApart : sharedPmap.UserApart := by
  apply Kernel.oneTable_userApart
  · intro i
    split <;> decide
  · intro i
    split <;> decide

theorem sectors_round_trip_shared :
    sharedMachine.kernel.pmap.UserApart ∧
      ∃ m₁ m₂, sharedMachine.sysWriteSector 0 0x400f00 8 = .ok m₁ ∧
      m₁.sysReadSector 0 0x402f00 8 = .ok m₂ ∧
        (∀ j < 512, Kernel.userByte m₂.kernel 0 (0x402f00 + j) =
          Kernel.userByte sharedMachine.kernel 0 (0x400f00 + j)) ∧
        Kept sharedMachine m₂ 0 0x402f00 512 (· = 8) :=
  ⟨sharedPmap_userApart, (sectors_round_trip sharedPmap_userApart 0).1 0x400f00 0x402f00 8
    ⟨by decide, fun _ _ => Kernel.oneTable_userPage⟩
    ⟨by decide, fun _ _ => Kernel.oneTable_userPage⟩⟩

theorem shared_getPa {va : Nat} :
    sharedPmap.getPa 0 va = 4096 * (if vpn0 va = 0 then 0x80003 else 0x80004) + va % 4096 := by
  apply Kernel.oneTable_getPa
  intro i
  split <;> decide

/-- Nine sectors, read to two pages that are one frame: the first byte is overwritten
by the byte that is read to the second page. -/
theorem shared_page_overwritten :
    Kernel.UserRange sharedMachine.kernel 0 0x400000 (512 * 9) ∧
      Kernel.UserRange sharedMachine.kernel 0 0x401000 (512 * 9) ∧
      ∃ m₁ m₂, sharedMachine.ideWrite 0 8 0x400000 9 = .ok m₁ ∧ m₁.ideRead 0 8 0x401000 9 = .ok m₂ ∧
        Kernel.userByte m₂.kernel 0 0x401000 ≠ Kernel.userByte sharedMachine.kernel 0 0x400000 := by
  have h₁ : Kernel.UserRange sharedMachine.kernel 0 0x400000 (512 * 9) :=
    ⟨by decide, fun _ _ => Kernel.oneTable_userPage⟩
  have h₂ : Kernel.UserRange sharedMachine.kernel 0 0x401000 (512 * 9) :=
    ⟨by decide, fun _ _ => Kernel.oneTable_userPage⟩
  refine ⟨h₁, h₂, ?_⟩
  obtain ⟨m₁, m₂, write, read, bytes, kept⟩ := sectors_moved sharedPmap_userApart h₁ h₂ 8
  refine ⟨m₁, m₂, write, read, ?_⟩
  have place : ∀ j, j < 4608 →
      sharedPmap.getPa 0 (0x401000 + j) = 0x80004000 + (0x401000 + j) % 4096 := by
    intro j hj
    have index : vpn0 (0x401000 + j) ≠ 0 := by
      intro zero
      have val := congrArg Fin.val zero
      rw [vpn0_val] at val
      simp only [Fin.val_zero] at val
      omega
    rw [shared_getPa, if_neg index]
  have second := bytes 4096 (by decide) fun i low high same => by
    have left : sharedMachine.kernel.pmap = sharedPmap := rfl
    rw [left, place i (by omega), place 4096 (by decide)] at same
    omega
  have one_place : m₂.kernel.pmap.getPa 0 0x401000 = m₂.kernel.pmap.getPa 0 (0x401000 + 4096) := by
    rw [kept.getPa 0 _ (by decide) (h₂.first (by decide)).1,
      kept.getPa 0 _ (by decide) (h₂.mapped 4096 (by decide)).1]
    exact (place 0 (by decide)).trans (place 4096 (by decide)).symm
  rw [Kernel.userByte, one_place]
  rw [Kernel.userByte] at second
  rw [second]
  decide +kernel

end DiskMachine
end RiscvMos
