import RiscvMos.Env.Confined

/-! What a copy of the kernel to memory does, byte by byte, and that it leaves
every address space as it is where it does not hit a page table. -/

namespace RiscvMos

theorem setByte_split (w j b : Nat) :
    setByte w j b = 256 ^ j * (256 * (w / 256 ^ (j + 1)) + b) + w % 256 ^ j ∧
      w = 256 ^ j * (256 * (w / 256 ^ (j + 1)) + w / 256 ^ j % 256) + w % 256 ^ j := by
  have pow : 2 ^ (8 * j) = 256 ^ j := by rw [Nat.pow_mul]
  have high : w / 256 ^ j = 256 * (w / 256 ^ (j + 1)) + w / 256 ^ j % 256 := by
    rw [pow_succ, ← Nat.div_div_eq_div_mul]
    exact (Nat.div_add_mod _ _).symm
  have whole : w = 256 ^ j * (256 * (w / 256 ^ (j + 1)) + w / 256 ^ j % 256) + w % 256 ^ j := by
    rw [← high]
    exact (Nat.div_add_mod _ _).symm
  refine ⟨?_, whole⟩
  unfold setByte
  rw [Nat.shiftRight_eq_div_pow, pow]
  have cut : w - w / 256 ^ j % 256 * 256 ^ j =
      256 ^ j * (256 * (w / 256 ^ (j + 1))) + w % 256 ^ j := by
    rw [Nat.mul_add] at whole
    rw [Nat.mul_comm (w / 256 ^ j % 256)]
    omega
  rw [cut, Nat.mul_add, Nat.mul_comm b]
  omega

theorem digit_of_low {w x i j : Nat} (h : i < j) (low : w % 256 ^ j = x % 256 ^ j) :
    w / 256 ^ i % 256 = x / 256 ^ i % 256 := by
  have cut : ∀ y, y / 256 ^ i % 256 = y % 256 ^ j % (256 ^ i * 256) / 256 ^ i := by
    intro y
    rw [Nat.mod_mod_of_dvd _ (by rw [← pow_succ]; exact Nat.pow_dvd_pow 256 h),
      Nat.mod_mul_right_div_self]
  rw [cut w, cut x, low]

theorem digit_of_high {w x i j : Nat} (h : j < i) (high : w / 256 ^ (j + 1) = x / 256 ^ (j + 1)) :
    w / 256 ^ i % 256 = x / 256 ^ i % 256 := by
  have split : 256 ^ i = 256 ^ (j + 1) * 256 ^ (i - (j + 1)) := by
    rw [← pow_add]
    congr 1
    omega
  rw [split, ← Nat.div_div_eq_div_mul, ← Nat.div_div_eq_div_mul, high]

/-- The bytes of a word after one of them was replaced. -/
theorem setByte_digit (w : Nat) {b : Nat} (hb : b < 256) (i j : Nat) :
    (setByte w j b >>> (8 * i)) % 256 = if i = j then b else (w >>> (8 * i)) % 256 := by
  obtain ⟨new, old⟩ := setByte_split w j b
  have pos : 0 < 256 ^ j := Nat.pow_pos (by decide)
  have pow : 2 ^ (8 * i) = 256 ^ i := by rw [Nat.pow_mul]
  have low : setByte w j b % 256 ^ j = w % 256 ^ j := by
    rw [new, Nat.mul_add_mod, Nat.mod_mod]
  have div : setByte w j b / 256 ^ j = 256 * (w / 256 ^ (j + 1)) + b := by
    rw [new, Nat.mul_add_div pos, Nat.div_eq_of_lt (Nat.mod_lt _ pos), Nat.add_zero]
  rw [Nat.shiftRight_eq_div_pow, Nat.shiftRight_eq_div_pow, pow]
  by_cases same : i = j
  · subst same
    rw [if_pos rfl, div]
    omega
  · rw [if_neg same]
    by_cases less : i < j
    · exact digit_of_low less low
    · apply digit_of_high (j := j) (by omega)
      rw [pow_succ, ← Nat.div_div_eq_div_mul, div, ← Nat.div_div_eq_div_mul]
      have high : w / 256 ^ j / 256 = w / 256 ^ (j + 1) := by rw [pow_succ, Nat.div_div_eq_div_mul]
      rw [high]
      omega

namespace Pmap

variable {D : Type} {s : Pmap D}

theorem byteAt_lt (s : Pmap D) (pa : Nat) : s.byteAt pa < 256 := Nat.mod_lt _ (by decide)

theorem byteAt_storeByte (s : Pmap D) {b : Nat} (hb : b < 256) (pa x : Nat) :
    (s.storeByte pa b).byteAt x = if x = pa then b else s.byteAt x := by
  unfold byteAt storeByte
  dsimp only
  rw [setPte_mem]
  by_cases word : x / 4096 = pa / 4096 ∧ x % 4096 / 8 = pa % 4096 / 8
  · have entry : x / 4096 = pa / 4096 ∧
        (⟨x % 4096 / 8, by omega⟩ : Vpn) = ⟨pa % 4096 / 8, by omega⟩ :=
      ⟨word.1, Fin.ext word.2⟩
    rw [if_pos entry, setByte_digit _ hb]
    have index : x % 8 = pa % 8 ↔ x = pa := by omega
    by_cases same : x = pa
    · rw [if_pos (index.mpr same), if_pos same]
    · rw [if_neg (index.not.mpr same), if_neg same, ← entry.1, ← entry.2]
  · have entry :
        ¬ (x / 4096 = pa / 4096 ∧ (⟨x % 4096 / 8, by omega⟩ : Vpn) =
          ⟨pa % 4096 / 8, by omega⟩) := by
      intro h
      exact word ⟨h.1, congrArg Fin.val h.2⟩
    have other : x ≠ pa := by
      intro same
      exact word (by rw [same]; exact ⟨rfl, rfl⟩)
    rw [if_neg entry, if_neg other]

/-- A copy that does not wrap changes the bytes of its range alone. -/
theorem copyTo_succ (s : Pmap D) (pa off n : Nat) (data : Nat → Nat) :
    s.copyTo pa data off (n + 1) = (s.copyTo pa data off n).storeByte (uLong (pa + n))
    (data (off + n)) := by
  unfold copyTo
  rw [List.range_succ, List.foldl_append, List.foldl_cons, List.foldl_nil]

theorem byteAt_copyTo (s : Pmap D) {pa off n : Nat} {data : Nat → Nat} (hpa : pa + n ≤ 2 ^ 64)
    (hdata : ∀ i < n, data (off + i) < 256) (x : Nat) :
    (s.copyTo pa data off n).byteAt x = if pa ≤ x ∧ x < pa + n then data (off + (x - pa))
    else s.byteAt x := by
  induction n with
  | zero =>
    rw [if_neg (by omega)]
    rfl
  | succ n ih =>
    have place : uLong (pa + n) = pa + n := by
      unfold uLong
      omega
    rw [copyTo_succ, place, byteAt_storeByte _ (hdata n (by omega)),
      ih (by omega) fun i hi => hdata i (by omega)]
    by_cases last : x = pa + n
    · have index : x - pa = n := by omega
      rw [if_pos last, if_pos (by omega), index]
    · rw [if_neg last]
      by_cases inside : pa ≤ x ∧ x < pa + n
      · rw [if_pos inside, if_pos (by omega)]
      · rw [if_neg inside, if_neg (by omega)]

/-- The same address spaces. -/
structure SameSpaces (s s' : Pmap D) : Prop where
  ent : s'.ent = s.ent
  pgdir : s'.pgdir = s.pgdir

namespace SameSpaces

variable {s' s'' : Pmap D}

theorem refl (s : Pmap D) : SameSpaces s s := ⟨rfl, rfl⟩

theorem trans (h : SameSpaces s s') (h' : SameSpaces s' s'') : SameSpaces s s'' :=
  ⟨h'.ent.trans h.ent, h'.pgdir.trans h.pgdir⟩

theorem tablePage (h : SameSpaces s s') (p : Nat) : s'.TablePage p ↔ s.TablePage p := by
  simp only [TablePage, tgt_eq_of_ent h.ent]

theorem view (h : SameSpaces s s') (d : D) (va : Nat) : s'.view d va = s.view d va := by
  rw [Pmap.view, Pmap.view, h.ent]

theorem isMappedPage (h : SameSpaces s s') {d : D} {va : Nat} (hva : va < ulim) :
    s'.isMappedPage d va = s.isMappedPage d va := by
  rw [isMappedPage_eq (not_shared_of_user hva), isMappedPage_eq (not_shared_of_user hva), h.view]

theorem getPa (h : SameSpaces s s') {d : D} {va : Nat} (hva : va < ulim)
    (hm : s.isMappedPage d va = true) :
    s'.getPa d va = s.getPa d va := by
  obtain ⟨perm, hview⟩ := view_of_isMappedPage (not_shared_of_user hva) hm
  rw [getPa_of_view (not_shared_of_user hva) hview,
    getPa_of_view (not_shared_of_user hva) ((h.view d va).trans hview)]

theorem getPerm (h : SameSpaces s s') {d : D} {va : Nat} (hva : va < ulim)
    (hm : s.isMappedPage d va = true) :
    s'.getPerm d va = s.getPerm d va := by
  obtain ⟨perm, hview⟩ := view_of_isMappedPage (not_shared_of_user hva) hm
  rw [getPerm_of_view (not_shared_of_user hva) hview,
    getPerm_of_view (not_shared_of_user hva) ((h.view d va).trans hview)]

theorem userApart (h : SameSpaces s s') (hu : s.UserApart) : s'.UserApart :=
  UserApart.of_ent hu h.ent

end SameSpaces

theorem storeByte_sameSpaces {pa b : Nat} (h : ¬ s.TablePage (pa / 4096)) :
    SameSpaces s (s.storeByte pa b) :=
  ⟨writePage_ent h _, rfl⟩

theorem copyTo_sameSpaces {pa off n : Nat} {data : Nat → Nat}
    (h : ∀ i < n, ¬ s.TablePage (uLong (pa + i) / 4096)) :
    SameSpaces s (s.copyTo pa data off n) := by
  induction n with
  | zero => exact SameSpaces.refl s
  | succ n ih =>
    have before := ih fun i hi => h i (by omega)
    rw [copyTo_succ]
    exact before.trans (storeByte_sameSpaces (by rw [before.tablePage]; exact h n (by omega)))

/-- The frame of a user page is no page table. -/
theorem UserApart.frame (hu : s.UserApart) {d : D} {va : Nat} (hva : va < ulim)
    (hm : s.isMappedPage d va = true) :
    ¬ s.TablePage (s.getPa d va / 4096) := by
  obtain ⟨perm, hview⟩ := view_of_isMappedPage (not_shared_of_user hva) hm
  exact hu d va hva _ (tgt_eq_some.mpr ⟨perm, hview⟩)

end Pmap

namespace Kernel

open Pmap

/-! A memory with one page table: entry `i` of the last level is the frame `frame i`,
at every user address and for every env. -/

def oneTable (frame : Vpn → Nat) (data : Nat → Vpn → Nat) : Pmap EnvIdx where
  mem := fun p i =>
    if p = 0x80000 then mkPte 0x80001000 0
    else if p = 0x80001 then mkPte 0x80002000 0
    else if p = 0x80002 then mkPte (4096 * frame i) demandPerm
    else data p i
  ppRef := fun _ => 1
  pageFreeList := []
  pgdir := fun _ => 0x80000000

section OneTable

variable {c : EnvIdx} {frame : Vpn → Nat} {data : Nat → Vpn → Nat} {va : Nat}

theorem oneTable_walk : (oneTable frame data).walk 0x80000 va = .pte0 0x80002 := by
  have mem2 : (oneTable frame data).mem 0x80000 (vpn2 va) = mkPte 0x80001000 0 := rfl
  have page2 : ptePage (mkPte 0x80001000 0) = 0x80001 := by decide
  have mem1 : (oneTable frame data).mem 0x80001 (vpn1 va) = mkPte 0x80002000 0 := rfl
  have page1 : ptePage (mkPte 0x80002000 0) = 0x80002 := by decide
  simp only [walk, mem2, page2, mem1, page1, valid_mkPte, if_true]

theorem oneTable_pgdir :
    (oneTable frame data).pgdir c ≠ 0 ∧ (oneTable frame data).pgdir c >>> 12 = 0x80000 := by
  have pgdir : (oneTable frame data).pgdir c = 0x80000000 := rfl
  rw [pgdir]
  decide

theorem oneTable_leafPte : (oneTable frame data).leafPte ((oneTable frame data).pgdir c >>> 12) va =
    some (mkPte (4096 * frame (vpn0 va)) demandPerm) := by
  unfold leafPte
  rw [oneTable_pgdir.2, oneTable_walk]
  exact if_pos (valid_mkPte _ _)

theorem oneTable_getPa (h : ∀ i, frame i < 2 ^ 44) :
    (oneTable frame data).getPa c va = 4096 * frame (vpn0 va) + va % 4096 := by
  have small := h (vpn0 va)
  rw [getPa_of_leafPte oneTable_leafPte, ptePage_mkPte (by decide) (by omega)]
  omega

theorem oneTable_userPage : UserPage (oneTable frame data) c va := by
  constructor
  · exact isMappedPage_leafPte.mpr ⟨oneTable_pgdir.1, by rw [oneTable_leafPte]; rfl⟩
  · rw [getPerm_of_leafPte oneTable_leafPte, pte2perm_mkPte (by decide)]
    decide

theorem oneTable_root : (oneTable frame data).tgt (.root c) = some 0x80000 := by
  simp only [tgt, ent, ent.root, if_neg oneTable_pgdir.1, oneTable_pgdir.2, Option.map_some]

theorem oneTable_pte2 {i : Vpn} {p : Nat} (h : (oneTable frame data).tgt (.pte2 c i) = some p) :
    p = 0x80001 := by
  by_cases hi : (Slot.root c).leaves i
  · have none : (oneTable frame data).tgt (.pte2 c i) = none :=
      tgt_eq_none.mpr (ent_child_leaves (oneTable frame data) hi)
    exact absurd (none.symm.trans h) (Option.some_ne_none p).symm
  · have child := tgt_child (oneTable frame data) (x := .root c) trivial hi
    rw [oneTable_root] at child
    have entry : entry (mkPte 0x80001000 0) = some (0x80001000 / 4096, 0 ||| pteV) :=
      entry_mkPte (by decide) (by decide)
    have mem : (oneTable frame data).mem 0x80000 i = mkPte 0x80001000 0 := rfl
    simp only [Option.bind_some, mem, entry, Option.map_some] at child
    exact (Option.some.inj (child.symm.trans h)).symm

theorem oneTable_pte1 {i j : Vpn} {p : Nat} (h : (oneTable frame data).tgt (.pte1 c i j) = some p) :
    p = 0x80002 := by
  have child := tgt_child (oneTable frame data) (x := .pte2 c i) (i := j) trivial id
  cases above : (oneTable frame data).tgt (.pte2 c i) with
  | none =>
    rw [above] at child
    exact absurd (child.symm.trans h) (Option.some_ne_none p).symm
  | some t =>
    rw [above, oneTable_pte2 above] at child
    have entry : entry (mkPte 0x80002000 0) = some (0x80002000 / 4096, 0 ||| pteV) :=
      entry_mkPte (by decide) (by decide)
    have mem : (oneTable frame data).mem 0x80001 j = mkPte 0x80002000 0 := rfl
    simp only [Option.bind_some, mem, entry, Option.map_some] at child
    exact (Option.some.inj (child.symm.trans h)).symm

theorem oneTable_tablePage {p : Nat} (h : (oneTable frame data).TablePage p) : p ≤ 0x80002 := by
  obtain ⟨x, hx, htgt⟩ := h
  cases x with
  | root d =>
    have root : p = 0x80000 := (Option.some.inj (oneTable_root.symm.trans htgt)).symm
    omega
  | pte2 d i => exact (oneTable_pte2 htgt).le.trans (by decide)
  | pte1 d i j => exact (oneTable_pte1 htgt).le
  | pte0 d i j k => exact hx.elim

theorem oneTable_userApart (h : ∀ i, frame i < 2 ^ 44) (high : ∀ i, 0x80002 < frame i) :
    (oneTable frame data).UserApart := by
  intro d va hva p hp table
  obtain ⟨perm, view⟩ := tgt_eq_some.mp hp
  have place := getPa_of_view (not_shared_of_user hva) view
  rw [oneTable_getPa h] at place
  have low := oneTable_tablePage table
  have frames := high (vpn0 va)
  omega

end OneTable

end Kernel
end RiscvMos
