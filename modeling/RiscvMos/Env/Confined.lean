import RiscvMos.Env.UserMem

/-!
Which bytes the calls of `Env/UserMem.lean` reach. None of them tests `PTE_U`,
and some go on past the end of the page they translated: a call stays in the
user's own memory exactly when its pages carry `PTE_U` and each piece that runs
past its page finds the user's memory there too.
-/

namespace RiscvMos.Kernel

open Pmap

inductive UserCall where
  | sysPrintCons (s num : Nat)
  | sysSetTrapframe (envid tf : Nat)
  | sysReadSector (disk : Nat → Option (Nat → Nat)) (va sector : Nat)
  | sysWriteSector (ok : Bool) (va sector : Nat)
  | sysPanic (msg : Nat)

namespace UserCall

def ran (k : Kernel) (c : EnvIdx) : UserCall → Ran
  | .sysPrintCons s num => k.sysPrintCons c s num
  | .sysSetTrapframe envid tf => k.sysSetTrapframe c envid tf
  | .sysReadSector disk va sector => k.sysReadSector c disk va sector
  | .sysWriteSector ok va _ => k.sysWriteSector c ok va
  | .sysPanic msg => k.sysPanic c msg

/-- The `n` addresses from `start` on. -/
def span (start n va : Nat) : Prop := ∃ i < n, va = uLong (start + i)

/-- The addresses of the argument. A string ends with its first zero byte. -/
def Range (k : Kernel) (c : EnvIdx) : UserCall → Nat → Prop
  | .sysPrintCons s num => span s num
  | .sysSetTrapframe _ tf => span tf 320
  | .sysReadSector _ start _ => span start 512
  | .sysWriteSector _ start _ => span start 512
  | .sysPanic msg => fun va => ∃ i, va = uLong (msg + i) ∧
    ∀ j < i, k.pmap.byteAt (k.pmap.getPa c (uLong (msg + j))) ≠ 0

end UserCall

/-- `cur_pgdir` maps the page of `va` for user code. -/
def UserPage (s : Pmap EnvIdx) (c : EnvIdx) (va : Nat) : Prop :=
  s.isMappedPage c va = true ∧ s.getPerm c va &&& pteU ≠ 0

/-- Every byte that is touched is one the user can reach at an address of the
range; or the call is refused, and nothing is touched or changed. -/
def Within (k : Kernel) (c : EnvIdx) (range : Nat → Prop) (ran : Ran) : Prop :=
  (∀ t ∈ ran.touched, ∃ va, range va ∧ UserPage t.pmap c va ∧ t.pmap.getPa c va = t.pa) ∨
  (ran.touched = [] ∧ ∃ r < 0, ran.result = .ok (r, k))

/-- The range maps the bytes of the frame from `a` up to `b` for user code. -/
def FrameLent (s : Pmap EnvIdx) (c : EnvIdx) (range : Nat → Prop) (frame a b : Nat) : Prop :=
  ∀ d, a ≤ d → d < b →
    ∃ va, range va ∧ va % 4096 = d ∧ UserPage s c va ∧ s.getPa c va / 4096 = frame

/-- So it does in each frame that the `n` bytes from `pa` on reach. -/
def Covered (s : Pmap EnvIdx) (c : EnvIdx) (range : Nat → Prop) (pa n : Nat) : Prop :=
  ∀ frame, FrameLent s c range frame (pa - 4096 * frame) (min 4096 (pa + n - 4096 * frame))

/-- `n` pieces of a page and one of `last` bytes, each at the page that the call
finds, or gives itself, at the next address. -/
def PagesCovered (c : EnvIdx) (range : Nat → Prop) (last : Nat) : Nat → Kernel → Nat → Prop
  | 0, k, va => last = 0 ∨ ∀ k', k.demandPage c allocPageUser va = .ok k' →
    Covered k'.pmap c range (k'.pmap.getPa c va) last
  | n + 1, k, va => ∀ k', k.demandPage c allocPageUser va = .ok k' →
    Covered k'.pmap c range (k'.pmap.getPa c va) 4096 ∧
      PagesCovered c range last n k' (uLong (va + 4096))

/-- A sector lies in pages of the user, once `sys_read_sector` or
`sys_write_sector` has looked for them; the second allocation leaves the first page. -/
def SectorProper (k : Kernel) (c : EnvIdx) (va : Nat) : Prop :=
  ∀ k₁, k.demandPage c allocPage va = .ok k₁ →
    if va / 4096 = uLong (va + 511) / 4096 then UserPage k₁.pmap c va
    else ∀ k₂, k₁.demandPage c allocPage (uLong (va + 512)) = .ok k₂ →
      UserPage k₂.pmap c va ∧ k₂.pmap.getPa c va = k₁.pmap.getPa c va ∧
        UserPage k₂.pmap c (uLong (va + 512))

/-- The arguments with which a call stays in the user's memory. -/
def Proper (k : Kernel) (c : EnvIdx) : UserCall → Prop
  | .sysPrintCons s num =>
    uLong (k.pmap.getPa c s + num) < k.pmap.getPa c s ∨
    (s / 4096 = uLong (s + num) / 4096 ∧ (num = 0 ∨ UserPage k.pmap c s)) ∨
    (s / 4096 ≠ uLong (s + num) / 4096 ∧ s % 4096 ≤ num ∧
      Covered k.pmap c (UserCall.span s num) (k.pmap.getPa c s) (s % 4096) ∧
      PagesCovered c (UserCall.span s num) ((num - s % 4096) % 4096) ((num - s % 4096) / 4096) k
        (uLong (s + s % 4096)))
  | .sysSetTrapframe envid tf =>
    (∃ r, k.setTrapframe c envid tf = .error r) ∨
    (UserPage k.pmap c tf ∧ UserPage k.pmap c (tf + 319) ∧
      k.pmap.getPa c (tf + 319) = k.pmap.getPa c tf + 319)
  | .sysReadSector _ va _ | .sysWriteSector _ va _ => k.SectorProper c va
  | .sysPanic msg =>
    ∃ n, (∀ j < n, k.pmap.byteAt (trup (k.pmap.getPa c msg) + j) ≠ 0) ∧
      k.pmap.byteAt (trup (k.pmap.getPa c msg) + n) = 0 ∧
      Covered k.pmap c ((UserCall.sysPanic msg).Range k c) (trup (k.pmap.getPa c msg)) (n + 1)

section
variable {k k' : Kernel} {c : EnvIdx} {s : Pmap EnvIdx} {va pa n : Nat} {range : Nat → Prop}

/-! ## Bytes and frames -/

/-- Some address of the range is mapped to the byte, for user code. -/
def Lent (s : Pmap EnvIdx) (c : EnvIdx) (range : Nat → Prop) (pa : Nat) : Prop :=
  ∃ va, range va ∧ UserPage s c va ∧ s.getPa c va = pa

/-- A translation keeps the offset in the page. -/
theorem UserPage.getPa (h : UserPage s c va) :
    s.getPa c va % 4096 = va % 4096 ∧ s.getPa c va < 2 ^ 56 := by
  obtain ⟨-, t0, -, -, hl⟩ := exists_leafPte h.1
  have hlt : ptePage (s.mem t0 (vpn0 va)) < 2 ^ 44 := by
    rw [ptePage_eq]
    omega
  rw [getPa_of_leafPte hl]
  omega

/-- So does that of any address, unless there is none. -/
theorem getPa_offset (s : Pmap EnvIdx) (c : EnvIdx) (va : Nat) :
    s.getPa c va = noAddr ∨ (s.getPa c va % 4096 = va % 4096 ∧ s.getPa c va < 2 ^ 56) := by
  cases hl : s.leafPte (s.pgdir c >>> 12) va with
  | none => simp [getPa_leafPte, hl]
  | some w =>
    have hlt : ptePage w < 2 ^ 44 := by
      rw [ptePage_eq]
      omega
    rw [getPa_of_leafPte hl]
    omega

theorem getPa_lt (s : Pmap EnvIdx) (c : EnvIdx) (va : Nat) : s.getPa c va < 2 ^ 64 := by
  rcases getPa_offset s c va with h | h
  · rw [h]
    decide
  · omega

/-- Two addresses of one page. -/
theorem getPa_page (va' : Nat) (hpage : va' / 4096 = va / 4096) (hm : UserPage s c va) :
    UserPage s c va' ∧ s.getPa c va' + va % 4096 = s.getPa c va + va' % 4096 ∧
    s.getPa c va < 2 ^ 56 := by
  have hwalk : s.leafPte (s.pgdir c >>> 12) va' = s.leafPte (s.pgdir c >>> 12) va :=
    leafPte_page hpage
  obtain ⟨hmap, hu⟩ := hm
  obtain ⟨hd, t0, -, -, hl⟩ := exists_leafPte hmap
  rw [getPerm_of_leafPte hl] at hu
  have hl' := hwalk.trans hl
  have hlt : ptePage (s.mem t0 (vpn0 va)) < 2 ^ 44 := by
    rw [ptePage_eq]
    omega
  refine ⟨⟨isMappedPage_leafPte.mpr ⟨hd, by rw [hl']; rfl⟩, ?_⟩, ?_, ?_⟩
  · rw [getPerm_of_leafPte hl']
    exact hu
  · rw [getPa_of_leafPte hl', getPa_of_leafPte hl]
    omega
  · rw [getPa_of_leafPte hl]
    omega

theorem Lent.lt (h : Lent s c range pa) : pa < 2 ^ 56 := by
  obtain ⟨va, -, hu, rfl⟩ := h
  exact hu.getPa.2

/-- A translation whose byte is lent is one. -/
theorem Lent.start (h : Lent s c range (s.getPa c va)) :
    s.getPa c va % 4096 = va % 4096 ∧ s.getPa c va < 2 ^ 56 := by
  have hlt := h.lt
  rcases getPa_offset s c va with hno | h
  · rw [hno] at hlt
    exact absurd hlt (by decide)
  · exact h

/-- A piece of a page of the user's is covered. -/
theorem UserPage.lent {i : Nat} (hu : UserPage s c va) (hva : va < 2 ^ 64)
    (hi : va % 4096 + i < 4096) (hr : range (uLong (va + i))) :
    Lent s c range (uLong (s.getPa c va + i)) := by
  have hadd : uLong (va + i) = va + i := by
    unfold uLong
    omega
  obtain ⟨hu', hpa, hlt⟩ := getPa_page (va + i) (by omega) hu
  refine ⟨va + i, hadd ▸ hr, hu', ?_⟩
  unfold uLong
  omega

end

instance (s : Pmap EnvIdx) (c : EnvIdx) (va : Nat) : Decidable (UserPage s c va) :=
  inferInstanceAs (Decidable (_ ∧ _))

/-- A kernel whose env 0 has one page, at `0x400000`. -/
def onePageKernel : Kernel := { envInit onePage 0x80300000 with curenv := some 0 }

theorem mem_touches (s : Pmap EnvIdx) (pa : Nat) {i n : Nat} (hi : i < n) :
    ⟨s, uLong (pa + i)⟩ ∈ touches s pa n :=
  List.mem_map.mpr ⟨i, List.mem_range.mpr hi, rfl⟩

end RiscvMos.Kernel
