import Mathlib.Data.Nat.Bitwise
import Mathlib.Tactic.Ring

/-! `include/asm/sv39.h`, `include/mmu.h` and `include/memory.h`: the Sv39
entry format and the address layout. Words and addresses are natural numbers;
a physical page is named by its number, the address shifted by 12. -/

namespace RiscvMos

def pteV := 0x001
def pteR := 0x002
def pteW := 0x004
def pteX := 0x008
def pteU := 0x010
def pteG := 0x020
/-- `PTE_RSW1`, reserved for software: copy on write. -/
def pteCow := 0x100
/-- `PTE_RSW2`, reserved for software: shared by fork. -/
def pteLibrary := 0x200

/-- `PTE_PPN`. -/
def ptePpn := 0x003ffffffffffc00

/-- `PTE_OFFSET`. -/
def pteOffset := 0xfff

/-- An index into a page table: 512 entries of eight bytes fill a page. -/
abbrev Vpn := Fin 512

/-- An index into `envs[NENV]`. -/
abbrev EnvIdx := Fin 1024

instance vpnNeZero : NeZero 512 := ⟨by decide⟩
instance envIdxNeZero : NeZero 1024 := ⟨by decide⟩

theorem and_mask_lt (n : Nat) : n &&& 0x1FF < 512 :=
  Nat.lt_of_le_of_lt Nat.and_le_right (by decide)

def vpn0 (va : Nat) : Vpn := ⟨(va >>> 12) &&& 0x1FF, and_mask_lt _⟩
def vpn1 (va : Nat) : Vpn := ⟨(va >>> 21) &&& 0x1FF, and_mask_lt _⟩
def vpn2 (va : Nat) : Vpn := ⟨(va >>> 30) &&& 0x1FF, and_mask_lt _⟩

def pte2pa (pte : Nat) : Nat := (pte &&& ptePpn) <<< 2
def pte2perm (pte : Nat) : Nat := pte &&& 0x3ff
def pa2pte (pa : Nat) : Nat := (pa >>> 2) &&& ptePpn

def pageSize := 4096

/-- `KERNBASE`, the first byte of RAM. -/
def kernbase := 0x80000000
def memorySize := 0x04000000
def ulim := 0x80000000
def utop := ulim
def uxstacktop := utop
def ustacktop := utop - 2 * pageSize
def ucow := 0x003ff000
def utemp := 0x003fe000

/-- `PAGE_TABLE`, where user code reads its own page tables. -/
def pageTable := 0xc0000000

/-- Root entries that every directory shares with `base_pgdir`: the kernel
half `[2]` and `[PENVS]`. -/
def shared (i : Vpn) : Prop := i = 2 ∨ i = 4

instance (i : Vpn) : Decidable (shared i) := inferInstanceAs (Decidable (_ ∨ _))

/-- `PA2PTE(pa) | perm | PTE_V`. -/
def mkPte (pa perm : Nat) : Nat := pa2pte pa ||| perm ||| pteV

/-- The page number an entry holds, `PTE2PA(pte) >> 12`. -/
def ptePage (pte : Nat) : Nat := pte2pa pte >>> 12

/-- `*pte & PTE_V`. -/
def valid (pte : Nat) : Prop := pte &&& pteV ≠ 0

instance (pte : Nat) : Decidable (valid pte) := inferInstanceAs (Decidable (_ ≠ _))

/-- Page `p` has a control block in `pages[]`. -/
def inRam (p : Nat) : Prop := 0x80000 ≤ p ∧ p < 0x84000

instance (p : Nat) : Decidable (inRam p) := inferInstanceAs (Decidable (_ ∧ _))

/-! ## Arithmetic of the fields -/

theorem vpn0_val (va : Nat) : (vpn0 va).val = va / 4096 % 512 := by
  simp [vpn0, Nat.shiftRight_eq_div_pow, Nat.and_two_pow_sub_one_eq_mod (n := 9)]

theorem vpn1_val (va : Nat) : (vpn1 va).val = va / 2097152 % 512 := by
  simp [vpn1, Nat.shiftRight_eq_div_pow, Nat.and_two_pow_sub_one_eq_mod (n := 9)]

theorem vpn2_val (va : Nat) : (vpn2 va).val = va / 1073741824 % 512 := by
  simp [vpn2, Nat.shiftRight_eq_div_pow, Nat.and_two_pow_sub_one_eq_mod (n := 9)]

/-- The addresses of a page have the same indices. -/
theorem vpn_page {va va' : Nat} (page : va' / 4096 = va / 4096) :
    vpn2 va' = vpn2 va ∧ vpn1 va' = vpn1 va ∧ vpn0 va' = vpn0 va := by
  simp only [Fin.ext_iff, vpn0_val, vpn1_val, vpn2_val]
  omega

theorem and_shiftLeft (x m n : Nat) : x &&& (m <<< n) = ((x >>> n) &&& m) <<< n := by
  apply Nat.eq_of_testBit_eq
  intro i
  by_cases hi : n ≤ i <;> simp [Nat.testBit_shiftLeft, hi]

theorem and_ptePpn (x : Nat) : x &&& ptePpn = x / 1024 % 2 ^ 44 * 1024 := by
  have hm : ptePpn = (2 ^ 44 - 1) <<< 10 := by decide
  rw [hm, and_shiftLeft, Nat.and_two_pow_sub_one_eq_mod, Nat.shiftRight_eq_div_pow,
    Nat.shiftLeft_eq]

theorem ptePage_eq (pte : Nat) : ptePage pte = pte / 1024 % 2 ^ 44 := by
  simp only [ptePage, pte2pa, and_ptePpn, Nat.shiftLeft_eq, Nat.shiftRight_eq_div_pow]
  omega

theorem pte2pa_eq (pte : Nat) : pte2pa pte = ptePage pte * 4096 := by
  rw [ptePage_eq, pte2pa, and_ptePpn, Nat.shiftLeft_eq]
  omega

theorem pa2pte_eq (pa : Nat) : pa2pte pa = pa / 4096 % 2 ^ 44 * 1024 := by
  rw [pa2pte, and_ptePpn, Nat.shiftRight_eq_div_pow]
  omega

theorem mkPte_eq (pa : Nat) {perm : Nat} (h : perm < 0x400) :
    mkPte pa perm = pa / 4096 % 2 ^ 44 * 1024 + (perm ||| pteV) := by
  have hlt : perm ||| pteV < 2 ^ 10 := Nat.or_lt_two_pow h (by decide)
  have := Nat.shiftLeft_add_eq_or_of_lt hlt (pa / 4096 % 2 ^ 44)
  rw [mkPte, pa2pte_eq, Nat.or_assoc, ← Nat.shiftLeft_eq _ 10, ← this, Nat.shiftLeft_eq]

theorem ptePage_mkPte {pa perm : Nat} (h : perm < 0x400) (hpa : pa < 2 ^ 56) :
    ptePage (mkPte pa perm) = pa / 4096 := by
  have hlt : perm ||| pteV < 2 ^ 10 := Nat.or_lt_two_pow h (by decide)
  rw [ptePage_eq, mkPte_eq pa h]
  omega

theorem pte2perm_mkPte {pa perm : Nat} (h : perm < 0x400) :
    pte2perm (mkPte pa perm) = perm ||| pteV := by
  have hlt : perm ||| pteV < 2 ^ 10 := Nat.or_lt_two_pow h (by decide)
  rw [pte2perm, mkPte_eq pa h, show (0x3ff : Nat) = 2 ^ 10 - 1 from rfl,
    Nat.and_two_pow_sub_one_eq_mod]
  omega

theorem valid_iff (pte : Nat) : valid pte ↔ pte.testBit 0 = true := by
  simp [valid, pteV, Nat.and_one_is_mod, Nat.testBit_zero]

theorem valid_or_pteV (x : Nat) : valid (x ||| pteV) := by
  simp [valid_iff, pteV]

theorem valid_mkPte (pa perm : Nat) : valid (mkPte pa perm) := valid_or_pteV _

@[simp] theorem not_valid_zero : ¬ valid 0 := by simp [valid]

end RiscvMos
