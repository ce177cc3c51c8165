import RiscvMos.Env.Copies
import RiscvMos.Env.SelfView

/-!
The window after `sys_read_sector` and `sys_write_sector`. They make a missing
page with `alloc_page`, which does not map the tables it creates in the window.
-/

namespace RiscvMos

namespace Pmap

variable {D : Type}

/-! The addresses of `pt2[va >> VPN2_SHIFT]`, `pt1[va >> VPN1_SHIFT]` and
`pt0[va >> VPN0_SHIFT]`. -/

def addr2 (va : Nat) : Nat := pageTable + (pageTable >>> 9) + (pageTable >>> 18) + 8 * (va >>> 30)
def addr1 (va : Nat) : Nat := pageTable + (pageTable >>> 9) + 8 * (va >>> 21)
def addr0 (va : Nat) : Nat := pageTable + 8 * (va >>> 12)

/-- The page of `va` is mapped; its entries in the window are those of the walk, and user
code finds it mapped. -/
structure ShowsWalk (s : Pmap D) (d : D) (va : Nat) : Prop where
  mapped : s.isMappedPage d va = true
  pt2 : s.getPa d (addr2 va) = pteAddr (s.pgdir d >>> 12) (vpn2 va)
  pt1 : s.getPa d (addr1 va) = pteAddr (ptePage (s.pte2 d va)) (vpn1 va)
  pt0 : s.getPa d (addr0 va) = pteAddr (ptePage (s.pte1 d va)) (vpn0 va)
  isMapped : s.isMapped d va = some true

/-- The slots on the way to user pages. -/
def UserPath (d : D) (x : Slot D) : Prop := ∃ va < ulim, OnPath d va x

section
variable {M : Nat → Prop} {s s' : Pmap D} {d : D} {va w t : Nat} {i : Vpn}

theorem addr_inWindow (hva : va < 2 ^ 39) :
    InWindow (addr2 va) ∧ InWindow (addr1 va) ∧ InWindow (addr0 va) := by
  simp only [InWindow, addr2, addr1, addr0, pageTable, Nat.shiftRight_eq_div_pow]
  omega

theorem addr2_mod : addr2 va % 4096 = 8 * (vpn2 va).val := by
  rw [vpn2_val]
  simp only [addr2, pageTable, Nat.shiftRight_eq_div_pow]
  omega

theorem addr1_mod : addr1 va % 4096 = 8 * (vpn1 va).val := by
  rw [vpn1_val]
  simp only [addr1, pageTable, Nat.shiftRight_eq_div_pow]
  omega

theorem addr0_mod : addr0 va % 4096 = 8 * (vpn0 va).val := by
  rw [vpn0_val]
  simp only [addr0, pageTable, Nat.shiftRight_eq_div_pow]
  omega

/-- A load in the window that does not fault reads some page, which `get_pa` gives. -/
theorem reads_of_load (hd : s.pgdir d ≠ 0) (hw : InWindow w) (hi : w % 4096 = 8 * i.val) {x : Nat}
    (load : s.userLoad d w = some x) (pa : s.getPa d w = pteAddr t i) : s.Reads d w t := by
  obtain ⟨p, translated, -⟩ := Option.map_eq_some_iff.mp load
  unfold Pmap.translate at translated
  rw [if_pos (.inl (hw.2.trans (by decide)))] at translated
  cases leaf : s.leafPte (s.pgdir d >>> 12) w with
  | none =>
    rw [leaf] at translated
    cases translated
  | some pte =>
    rw [leaf] at translated
    dsimp only at translated
    by_cases permitted : permits pte .load
    · have view := ent_of_leafPte hd hw.not_shared leaf
      have place := getPa_of_view hw.not_shared view
      rw [pa, pteAddr, page2pa, Nat.shiftLeft_eq] at place
      have small := i.isLt
      have same : ptePage pte = t := by omega
      exact ⟨_, same ▸ view, (permits_perm pte _).mpr permitted⟩
    · rw [if_neg permitted] at translated
      cases translated

theorem valid_of_entry {pte p perm : Nat} (h : entry pte = some (p, perm)) :
    valid pte ∧ ptePage pte = p := by
  unfold entry at h
  by_cases there : valid pte
  · rw [if_pos there] at h
    exact ⟨there, (Prod.mk.inj (Option.some.inj h)).1⟩
  · rw [if_neg there] at h
    cases h

theorem pte2_of_tgt (hd : s.pgdir d ≠ 0) (hva : va < ulim)
    (h : s.tgt (.pte2 d (vpn2 va)) = some t) :
    valid (s.pte2 d va) ∧ ptePage (s.pte2 d va) = t := by
  have root : s.tgt (.root d) = some (s.pgdir d >>> 12) := by simp [tgt, ent, ent.root, hd]
  obtain ⟨perm, slot⟩ := tgt_eq_some.mp h
  exact valid_of_entry
    ((ent_child_of (x := .root d) (i := vpn2 va) trivial (not_shared_of_user hva) root).symm.trans
      slot)

theorem pte1_of_tgt {t2 : Nat} (hd : s.pgdir d ≠ 0) (hva : va < ulim)
    (h2 : s.tgt (.pte2 d (vpn2 va)) = some t2)
    (h : s.tgt (.pte1 d (vpn2 va) (vpn1 va)) = some t) :
    valid (s.pte1 d va) ∧ ptePage (s.pte1 d va) = t := by
  obtain ⟨perm, slot⟩ := tgt_eq_some.mp h
  have slot' := (ent_child_of (x := .pte2 d (vpn2 va)) (i := vpn1 va) trivial id h2).symm.trans slot
  rw [← (pte2_of_tgt hd hva h2).2] at slot'
  exact valid_of_entry slot'

/-- The two tables of `va`, by their slots. -/
theorem tables_iff (hd : s.pgdir d ≠ 0) (hva : va < ulim) :
    valid (s.pte2 d va) ∧ valid (s.pte1 d va) ↔ s.tgt (.pte1 d (vpn2 va) (vpn1 va)) ≠ none := by
  constructor
  · rintro ⟨v2, v1⟩
    rw [tgt_pte1 hd hva v2 v1]
    exact Option.some_ne_none _
  · intro there
    obtain ⟨t, h⟩ := Option.ne_none_iff_exists'.mp there
    cases h2 : s.tgt (.pte2 d (vpn2 va)) with
    | none => exact absurd (tgt_eq_none.mpr (pte1_none_of_pte2 (tgt_eq_none.mp h2))) there
    | some t2 => exact ⟨(pte2_of_tgt hd hva h2).1, (pte1_of_tgt hd hva h2 h).1⟩

/-- Where the self-map agrees, user code reads every table there is. -/
theorem SelfMapAgrees.reads (h : SelfMapAgrees s d) (hd : s.pgdir d ≠ 0) (hva : va < ulim) :
    s.Reads d (addr2 va) (s.pgdir d >>> 12) ∧
    (valid (s.pte2 d va) → s.Reads d (addr1 va) (ptePage (s.pte2 d va)) ∧
      (valid (s.pte1 d va) → s.Reads d (addr0 va) (ptePage (s.pte1 d va)))) := by
  have small : va < 2 ^ 39 := hva.trans (by decide)
  obtain ⟨in2, in1, in0⟩ := addr_inWindow small
  have mapped := h.isMapped va hva
  unfold Pmap.isMapped at mapped
  obtain ⟨x2, load2, mapped⟩ := Option.bind_eq_some_iff.mp mapped
  have reads2 : s.Reads d (addr2 va) (s.pgdir d >>> 12) :=
    reads_of_load hd in2 addr2_mod load2 (h.pte2 va hva)
  refine ⟨reads2, fun v2 => ?_⟩
  have same2 : s.pte2 d va = x2 :=
    Option.some.inj ((reads2.load hd in2 addr2_mod).2.symm.trans load2)
  rw [if_neg (not_not.mpr (same2 ▸ v2))] at mapped
  obtain ⟨x1, load1, mapped⟩ := Option.bind_eq_some_iff.mp mapped
  have reads1 : s.Reads d (addr1 va) (ptePage (s.pte2 d va)) :=
    reads_of_load hd in1 addr1_mod load1 (h.pte1 va hva v2)
  refine ⟨reads1, fun v1 => ?_⟩
  have same1 : s.pte1 d va = x1 :=
    Option.some.inj ((reads1.load hd in1 addr1_mod).2.symm.trans load1)
  rw [if_neg (not_not.mpr (same1 ▸ v1))] at mapped
  obtain ⟨x0, load0, -⟩ := Option.bind_eq_some_iff.mp mapped
  exact reads_of_load hd in0 addr0_mod load0 (h.pte0 va hva v2 v1)

/-- The tables of a mapped page that user code reads show its walk. -/
theorem showsWalk_of_reads (hd : s.pgdir d ≠ 0) (hva : va < 2 ^ 39)
    (mapped : s.isMappedPage d va = true)
    (reads2 : s.Reads d (addr2 va) (s.pgdir d >>> 12))
    (reads1 : s.Reads d (addr1 va) (ptePage (s.pte2 d va)))
    (reads0 : s.Reads d (addr0 va) (ptePage (s.pte1 d va))) : ShowsWalk s d va := by
  obtain ⟨in2, in1, in0⟩ := addr_inWindow hva
  obtain ⟨v2, v1, v0⟩ := (isMappedPage_ptes hd).mp mapped
  obtain ⟨pa2, load2⟩ := reads2.load hd in2 addr2_mod
  obtain ⟨pa1, load1⟩ := reads1.load hd in1 addr1_mod
  obtain ⟨pa0, load0⟩ := reads0.load hd in0 addr0_mod
  refine ⟨mapped, pa2, pa1, pa0, ?_⟩
  have pt2 : s.pt2 d (va >>> 30) = some (s.pte2 d va) := load2
  have pt1 : s.pt1 d (va >>> 21) = some (s.pte1 d va) := load1
  have pt0 : s.pt0 d (va >>> 12) = some (s.mem (ptePage (s.pte1 d va)) (vpn0 va)) := load0
  unfold Pmap.isMapped
  simp [pt2, pt1, pt0, v2, v1, v0]

/-- An entry that `get_pa` finds in the window is a slot's. -/
theorem tgt_of_getPa (hd : s.pgdir d ≠ 0) (hw : InWindow w) (hi : w % 4096 = 8 * i.val)
    (pa : s.getPa d w = pteAddr t i) :
    s.tgt (leafSlot d w) = some t := by
  have small := i.isLt
  rw [pteAddr, page2pa, Nat.shiftLeft_eq] at pa
  cases view : s.view d w with
  | none =>
    rw [getPa_eq hd hw.not_shared, view] at pa
    simp only [Option.map_none, Option.getD_none, noAddr] at pa
    omega
  | some e =>
    obtain ⟨p, perm⟩ := e
    rw [getPa_of_view hw.not_shared view] at pa
    have same : p = t := by omega
    exact tgt_eq_some.mpr ⟨perm, same ▸ view⟩

theorem window_not_userPath (hw : InWindow w) : ¬ UserPath d (leafSlot d w) := by
  rintro ⟨va, hva, path⟩
  rcases path with h | h | h | h
  · cases h
  · cases h
  · cases h
  · exact vpn2_ne_three_of_user hva ((Slot.pte0.inj h).2.1.symm.trans hw.vpn2_eq)

variable [DecidableEq D] [Fintype D]

/-- What changes when pages are given to user addresses of `d`. -/
structure Grows (M : Nat → Prop) (d : D) (s s' : Pmap D) : Prop where
  consistent : Consistent M s'
  userApart : s'.UserApart
  frame : Frame M (UserPath d) s s'

omit [DecidableEq D] in
theorem Grows.trans {s'' : Pmap D} (h : Grows M d s s') (h' : Grows M d s' s'') : Grows M d s s'' :=
  ⟨h'.consistent, h'.userApart, h.frame.trans h'.frame⟩

theorem allocPage_grows (hs : Consistent M s) (hu : s.UserApart) (hva : va < ulim) {perm : Nat}
    (h : s.allocPage d va perm = .ok (0, s')) :
    Grows M d s s' ∧ s'.isMappedPage d va = true ∧ SameElsewhere d va s s' := by
  have small : va < 2 ^ 39 := hva.trans (by decide)
  have unshared := not_shared_of_user hva
  obtain ⟨-, onPath, -⟩ := allocPage_spec hs small unshared h
  unfold allocPage at h
  split at h
  · cases h
  rename_i hperm
  obtain ⟨hs', -, -, q, -, leaf, -, after, -⟩ :=
    allocVia_spec hs noSelf_spec small unshared (apart_noTouch s) (by omega) h
  refine ⟨⟨hs', ?_, onPath.mono fun x hx => ⟨va, hva, hx⟩⟩, ?_, ?_⟩
  · apply hu.leaf small (onPath.mono fun x hx => .inl hx)
    intro p _ hp
    rw [tgt, leaf, Option.map_some, Option.some_inj] at hp
    subst hp
    rintro ⟨y, table, yp⟩
    exact after y (by rintro rfl; exact table) yp
  · rw [isMappedPage_eq unshared, view, leaf]
    rfl
  · apply sameElsewhere_of_frame onPath
    intro d' va' hva' other path
    rcases path with path | path | path | path
    · cases path
    · cases path
    · cases path
    · obtain ⟨rfl, page⟩ := leafSlot_inj (hva'.trans (by decide)) small path
      exact other.elim (fun h => h rfl) fun h => h page

/-- The kernel's own page at `ULIM`, behind tables that `page_alloc` does not give out. -/
structure DirectMap (M : Nat → Prop) (s : Pmap D) (d : D) : Prop where
  mapped : s.isMappedPage d ulim = true
  table1 : ¬ M (ptePage (s.pte2 d ulim))
  table0 : ¬ M (ptePage (s.pte1 d ulim))
  page : ¬ M (s.getPa d ulim / 4096)

omit [DecidableEq D] [Fintype D] in
theorem pgdir_of_tgt {r : Nat} (h : s.tgt (.root d) = some r) :
    s.pgdir d ≠ 0 ∧ s.pgdir d >>> 12 = r := by
  simp only [tgt, ent, ent.root] at h
  split at h
  · cases h
  · rename_i hd
    exact ⟨hd, Option.some.inj h⟩

omit [DecidableEq D] in
theorem Grows.pgdir (h : Grows M d s s') (hd : s.pgdir d ≠ 0) :
    s'.pgdir d ≠ 0 ∧ s'.pgdir d >>> 12 = s.pgdir d >>> 12 :=
  pgdir_of_tgt (h.frame.table (.root d) _ trivial (by simp [tgt, ent, ent.root, hd]))

omit [DecidableEq D] in
/-- It stays where it is. -/
theorem DirectMap.grows (h : DirectMap M s d) (g : Grows M d s s') (hp : va / 4096 = ulim / 4096) :
    s'.isMappedPage d va = true ∧ ¬ M (s'.getPa d va / 4096) ∧
    ptePage (s'.pte2 d va) = ptePage (s.pte2 d ulim) := by
  obtain ⟨same2, same1, same0⟩ := vpn_page hp
  obtain ⟨hd, -⟩ := exists_leafPte h.mapped
  obtain ⟨v2, v1, v0⟩ := (isMappedPage_ptes hd).mp h.mapped
  obtain ⟨hd', root⟩ := g.pgdir hd
  have entry2 : s'.pte2 d va = s.pte2 d ulim := by
    unfold Pmap.pte2
    rw [root, same2]
    exact g.frame.sharedEntry d _ _ (by simp [tgt, ent, ent.root, hd]) (.inl (by decide))
  have entry1 : s'.pte1 d va = s.pte1 d ulim := by
    unfold Pmap.pte1
    rw [entry2, same1, g.frame.kernel _ h.table1]
  have entry0 : s'.mem (ptePage (s'.pte1 d va)) (vpn0 va) =
      s.mem (ptePage (s.pte1 d ulim)) (vpn0 ulim) := by
    rw [entry1, same0, g.frame.kernel _ h.table0]
  have v2' : valid (s'.pte2 d va) := entry2 ▸ v2
  have v1' : valid (s'.pte1 d va) := entry1 ▸ v1
  have v0' : valid (s'.mem (ptePage (s'.pte1 d va)) (vpn0 va)) := entry0 ▸ v0
  refine ⟨(isMappedPage_ptes hd').mpr ⟨v2', v1', v0'⟩, ?_, by rw [entry2]⟩
  have old := getPa_of_leafPte (leafPte_ptes v2 v1 v0)
  have new := getPa_of_leafPte (leafPte_ptes v2' v1' v0')
  have page : s'.getPa d va / 4096 = s.getPa d ulim / 4096 := by
    rw [old, new, entry0]
    omega
  rw [page]
  exact h.page

end

end Pmap

namespace Kernel

open Pmap

/-- A sector call that returns 0. -/
inductive SectorRun (k : Kernel) (c : EnvIdx) (va : Nat) (k' : Kernel) : Prop where
  | read {disk : Nat → Option (Nat → Nat)} {sector : Nat}
    (run : (k.sysReadSector c disk va sector).result = .ok (0, k'))
  | write {ok : Bool} (run : (k.sysWriteSector c ok va).result = .ok (0, k'))

/-- The page of `va` is there, or `alloc_page` gives it. -/
def Provided (c : EnvIdx) (va : Nat) (k k' : Kernel) : Prop :=
  (k.pmap.isMappedPage c va = true ∧ k' = k) ∨
  (k.pmap.isMappedPage c va = false ∧ ∃ s, k.pmap.allocPage c va demandPerm = .ok (0, s) ∧
    k' = { k with pmap := s })

/-- No allocation of the call fails. -/
def AllProvided (k : Kernel) (c : EnvIdx) (va : Nat) : Prop :=
  ∃ k₁, Provided c va k k₁ ∧ (va / 4096 = (va + 511) / 4096 ∨ ∃ k₂, Provided c (va + 512) k₁ k₂)

section
variable {M : Nat → Prop} {k k' k₁ : Kernel} {c : EnvIdx} {va va' : Nat}

theorem Provided.demandPage (h : Provided c va k k') : k.demandPage c allocPage va = .ok k' := by
  unfold Kernel.demandPage
  rcases h with ⟨mapped, rfl⟩ | ⟨unmapped, s, gives, rfl⟩
  · rw [if_pos mapped]
  · rw [if_neg (by rw [unmapped]; exact Bool.false_ne_true), gives]
    rfl

theorem getPa_mapped {s : Pmap EnvIdx} (h : s.isMappedPage c va = true) :
    ∃ p < 2 ^ 44, s.getPa c va = p * 4096 + va % 4096 := by
  obtain ⟨-, t0, -, -, leaf⟩ := exists_leafPte h
  refine ⟨_, ?_, getPa_of_leafPte leaf⟩
  rw [ptePage_eq]
  omega

theorem Provided.grows (hs : Consistent M k.pmap) (hu : k.pmap.UserApart) (hva : va < ulim)
    (h : Provided c va k k') :
    Grows M c k.pmap k'.pmap ∧ k'.pmap.isMappedPage c va = true ∧
    SameElsewhere c va k.pmap k'.pmap := by
  rcases h with ⟨mapped, rfl⟩ | ⟨-, s, gives, rfl⟩
  · exact ⟨⟨hs, hu, Frame.refl _⟩, mapped, fun _ _ _ _ => ⟨rfl, fun _ => ⟨rfl, rfl⟩⟩⟩
  · exact allocPage_grows hs hu hva gives

/-- What the call does before it copies: both pages are there, and it stores into no table. -/
structure Prepared (M : Nat → Prop) (c : EnvIdx) (va : Nat) (k k₂ : Kernel)
    (ps : List (Nat × Nat × Nat)) : Prop where
  pieces : k.sectorPieces c va = .ok (k₂, ps)
  grows : Grows M c k.pmap k₂.pmap
  mapped : ∀ j < 512, va + j < ulim → k₂.pmap.isMappedPage c (va + j) = true
  apart : ∀ p ∈ ps, ∀ i < p.2.2, ¬ k₂.pmap.TablePage (uLong (p.1 + i) / 4096)

theorem prepared_one (hs : Consistent M k.pmap) (hu : k.pmap.UserApart) (hva : va < ulim)
    (h : Provided c va k k₁)
    (one : va / 4096 = (va + 511) / 4096) :
    Prepared M c va k k₁ [(k₁.pmap.getPa c va, 0, 512)] := by
  obtain ⟨grows, mapped, -⟩ := h.grows hs hu hva
  obtain ⟨p, small, place⟩ := getPa_mapped mapped
  have below : va < 0x80000000 := hva
  have last : uLong (va + 511) = va + 511 := Nat.mod_eq_of_lt (by omega)
  refine ⟨?_, grows, fun j hj _ => ?_, ?_⟩
  · unfold sectorPieces
    rw [h.demandPage]
    dsimp only [bind, Except.bind]
    rw [last, if_neg (not_not.mpr one)]
  · have page : (va + j) / 4096 = va / 4096 := by omega
    rw [isMappedPage_page page]
    exact mapped
  · simp only [List.mem_singleton, forall_eq]
    intro i hi
    have page : uLong (k₁.pmap.getPa c va + i) / 4096 = k₁.pmap.getPa c va / 4096 := by
      rw [place]
      unfold uLong
      omega
    rw [page]
    exact grows.userApart.frame hva mapped

theorem prepared_two {k₂ : Kernel} (hs : Consistent M k.pmap) (hu : k.pmap.UserApart)
    (hva : va < ulim)
    (kernel : ulim < va + 512 → DirectMap M k.pmap c) (h₁ : Provided c va k k₁)
    (h₂ : Provided c (va + 512) k₁ k₂)
    (two : va / 4096 ≠ (va + 511) / 4096) : ∃ ps, Prepared M c va k k₂ ps := by
  have below : va < 0x80000000 := hva
  have last : uLong (va + 511) = va + 511 := Nat.mod_eq_of_lt (by omega)
  have next : uLong (va + 512) = va + 512 := Nat.mod_eq_of_lt (by omega)
  have offset : va / 4096 * 4096 + 4096 - va = 4096 - va % 4096 := by omega
  obtain ⟨grows₁, mapped₁, -⟩ := h₁.grows hs hu hva
  obtain ⟨live, -⟩ := exists_leafPte mapped₁
  obtain ⟨grows, first, place, second, apart⟩ :
    Grows M c k.pmap k₂.pmap ∧ k₂.pmap.isMappedPage c va = true ∧
      k₂.pmap.getPa c va = k₁.pmap.getPa c va ∧ k₂.pmap.isMappedPage c (va + 512) = true ∧
        ¬ k₂.pmap.TablePage (k₂.pmap.getPa c (va + 512) / 4096) := by
    by_cases user : va + 512 < ulim
    · obtain ⟨grows₂, mapped₂, others⟩ := h₂.grows grows₁.consistent grows₁.userApart user
      obtain ⟨still, there⟩ := others c va hva (.inr (by omega))
      exact ⟨grows₁.trans grows₂, still.trans mapped₁, (there live).1, mapped₂,
        grows₂.userApart.frame user mapped₂⟩
    · -- the second page is the kernel's
      have above : ulim < va + 512 := by
        unfold ulim at user ⊢
        omega
      have page : (va + 512) / 4096 = ulim / 4096 := by
        unfold ulim at above ⊢
        omega
      obtain ⟨there, outside, -⟩ := (kernel above).grows grows₁ page
      have same : k₂ = k₁ := by
        rcases h₂ with ⟨-, same⟩ | ⟨unmapped, -⟩
        · exact same
        · rw [there] at unmapped
          cases unmapped
      rw [same]
      refine ⟨grows₁, mapped₁, rfl, there, ?_⟩
      rintro ⟨x, -, target⟩
      exact outside (grows₁.consistent.mem_of_tgt target)
  obtain ⟨p, small, place₁⟩ := getPa_mapped mapped₁
  obtain ⟨q, small', place₂⟩ := getPa_mapped second
  refine ⟨[(k₁.pmap.getPa c va, 0, 4096 - va % 4096),
    (uLongSub (k₂.pmap.getPa c (va + 512)) (512 - (4096 - va % 4096)),
    4096 - va % 4096, 512 - (4096 - va % 4096))], ?_, grows, fun j hj _ => ?_, ?_⟩
  · unfold sectorPieces
    rw [h₁.demandPage]
    dsimp only [bind, Except.bind]
    rw [last, if_pos two, offset, next, h₂.demandPage]
  · by_cases head : (va + j) / 4096 = va / 4096
    · rw [isMappedPage_page head]
      exact first
    · have page : (va + j) / 4096 = (va + 512) / 4096 := by omega
      rw [isMappedPage_page page]
      exact second
  · simp only [List.mem_cons, List.mem_nil_iff, or_false, forall_eq_or_imp, forall_eq]
    constructor
    · intro i hi
      have page : uLong (k₁.pmap.getPa c va + i) / 4096 = k₂.pmap.getPa c va / 4096 := by
        rw [place, place₁]
        unfold uLong
        omega
      rw [page]
      exact grows.userApart.frame hva first
    · intro i hi
      have page :
          uLong (uLongSub (k₂.pmap.getPa c (va + 512)) (512 - (4096 - va % 4096)) + i) / 4096 =
          k₂.pmap.getPa c (va + 512) / 4096 := by
        rw [place₂]
        unfold uLongSub uLong
        omega
      rw [page]
      exact apart

theorem AllProvided.prepared (hs : Consistent M k.pmap) (hu : k.pmap.UserApart) (hva : va < ulim)
    (kernel : ulim < va + 512 → DirectMap M k.pmap c) (h : k.AllProvided c va) :
    ∃ k₂ ps, Prepared M c va k k₂ ps := by
  obtain ⟨k₁, first, one | ⟨k₂, second⟩⟩ := h
  · exact ⟨k₁, _, prepared_one hs hu hva first one⟩
  · by_cases one : va / 4096 = (va + 511) / 4096
    · exact ⟨k₁, _, prepared_one hs hu hva first one⟩
    · exact ⟨k₂, prepared_two hs hu hva kernel first second one⟩

theorem copyTo_mem (s : Pmap EnvIdx) {pa off n t : Nat} {data : Nat → Nat}
    (h : ∀ i < n, t ≠ uLong (pa + i) / 4096) :
    (s.copyTo pa data off n).mem t = s.mem t := by
  induction n with
  | zero => rfl
  | succ n ih =>
    rw [copyTo_succ]
    have before := ih fun i hi => h i (Nat.lt_succ_of_lt hi)
    exact (setPte_mem_of_ne _ _ _ (h n (Nat.lt_succ_self n))).trans before

/-- The bytes of the sector change no table. -/
theorem pieces_stored {s : Pmap EnvIdx} {ps : List (Nat × Nat × Nat)} (data : Nat → Nat)
    (apart : ∀ p ∈ ps, ∀ i < p.2.2, ¬ s.TablePage (uLong (p.1 + i) / 4096)) :
    SameSpaces s (ps.foldl (fun s p => s.copyTo p.1 data p.2.1 p.2.2) s) ∧
      ∀ t, s.TablePage t →
      (ps.foldl (fun s p => s.copyTo p.1 data p.2.1 p.2.2) s).mem t = s.mem t := by
  induction ps generalizing s with
  | nil => exact ⟨SameSpaces.refl s, fun _ _ => rfl⟩
  | cons p ps ih =>
    have same : SameSpaces s (s.copyTo p.1 data p.2.1 p.2.2) :=
      copyTo_sameSpaces (apart p List.mem_cons_self)
    obtain ⟨rest, mem⟩ := ih (s := s.copyTo p.1 data p.2.1 p.2.2) fun q hq i hi => by
      rw [same.tablePage]
      exact apart q (List.mem_cons_of_mem _ hq) i hi
    refine ⟨same.trans rest, fun t table => ?_⟩
    rw [List.foldl_cons, mem t ((same.tablePage t).mpr table)]
    apply copyTo_mem
    rintro i hi rfl
    exact apart p List.mem_cons_self i hi table

/-- After the call, the tables are those that were prepared. -/
theorem Prepared.stored {k₂ : Kernel} {ps : List (Nat × Nat × Nat)} (h : Prepared M c va k k₂ ps)
    (run : k.SectorRun c va k') :
    SameSpaces k₂.pmap k'.pmap ∧ ∀ t, k₂.pmap.TablePage t → k'.pmap.mem t = k₂.pmap.mem t := by
  cases run with
  | @read disk sector run =>
    unfold sysReadSector at run
    rw [h.pieces] at run
    dsimp only at run
    cases answer : disk sector with
    | none =>
      rw [answer] at run
      cases run
    | some data =>
      rw [answer] at run
      obtain ⟨-, rfl⟩ := Prod.mk.inj (Except.ok.inj run)
      exact pieces_stored data h.apart
  | @write ok run =>
    unfold sysWriteSector at run
    rw [h.pieces] at run
    dsimp only at run
    split at run
    · obtain ⟨-, rfl⟩ := Prod.mk.inj (Except.ok.inj run)
      exact ⟨SameSpaces.refl _, fun _ _ => rfl⟩
    · cases run

/-- User code reads in the window what it read before. -/
theorem reads_grows {s s₂ s' : Pmap EnvIdx} {w t : Nat} (h : s.Reads c w t) (g : Grows M c s s₂)
    (same : SameSpaces s₂ s') (hw : InWindow w) : s'.Reads c w t := by
  obtain ⟨perm, view, permitted⟩ := h
  refine ⟨perm, ?_, permitted⟩
  rw [same.view]
  exact (g.frame.ent_eq _ (window_not_userPath hw)).trans view

/-- The self-map shows both pages of the sector if and only if they are user pages whose
tables were there before. -/
theorem sector_view_iff (hs : Consistent M k.pmap) (hu : k.pmap.UserApart) (hd : k.pmap.pgdir c ≠ 0)
    (coherent : SelfMapAgrees k.pmap c) (kernel : ulim < va + 512 → DirectMap M k.pmap c)
    (hva : va < ulim) (provided : k.AllProvided c va) (run : k.SectorRun c va k') :
    (∀ j < 512, ShowsWalk k'.pmap c (va + j)) ↔
      ∀ j < 512, va + j < ulim ∧ valid (k.pmap.pte2 c (va + j)) ∧
      valid (k.pmap.pte1 c (va + j)) := by
  obtain ⟨k₂, ps, prepared⟩ := provided.prepared hs hu hva kernel
  obtain ⟨same, kept⟩ := prepared.stored run
  have grows := prepared.grows
  have tgts := tgt_eq_of_ent same.ent
  obtain ⟨live₂, root₂⟩ := grows.pgdir hd
  have live : k'.pmap.pgdir c ≠ 0 := by rwa [same.pgdir]
  have root : k'.pmap.pgdir c >>> 12 = k.pmap.pgdir c >>> 12 := by rw [same.pgdir, root₂]
  have small : ∀ j < 512, va + j < 2 ^ 39 := by
    intro j hj
    unfold ulim at hva
    omega
  constructor
  · intro shows j hj
    obtain ⟨-, in1, in0⟩ := addr_inWindow (small j hj)
    have user : va + j < ulim := by
      by_contra high
      have page : (va + j) / 4096 = ulim / 4096 := by
        unfold ulim at high hva ⊢
        omega
      have direct := kernel (by omega)
      have entry : ptePage (k'.pmap.pte2 c (va + j)) = ptePage (k.pmap.pte2 c ulim) := by
        rw [← (direct.grows grows page).2.2]
        unfold Pmap.pte2
        rw [same.pgdir, kept _ ⟨.root c, trivial, by simp [tgt, ent, ent.root, live₂]⟩]
      -- the window shows pages that `page_alloc` gives out alone
      have shown := tgt_of_getPa live in1 addr1_mod (shows j hj).pt1
      rw [entry, tgts] at shown
      exact direct.table1 (grows.consistent.mem_of_tgt shown)
    refine ⟨user, (tables_iff hd user).mpr fun missing => ?_⟩
    obtain ⟨v2, v1, -⟩ := (isMappedPage_ptes live).mp (shows j hj).mapped
    have table := tgt_pte1 live user v2 v1
    have level1 : (Slot.pte1 c (vpn2 (va + j)) (vpn1 (va + j))).IsTable := trivial
    have shown := tgt_of_getPa live in0 addr0_mod (shows j hj).pt0
    generalize ptePage (k'.pmap.pte1 c (va + j)) = t at table shown
    rw [tgts] at table shown
    rw [grows.frame.tgt_eq (window_not_userPath in0)] at shown
    -- a page that was mapped is no new table
    by_cases old : k.pmap.TablePage t
    · obtain ⟨y, isTable, place⟩ := old
      have same :=
        grows.consistent.distinct isTable level1 (grows.frame.table y t isTable place) table
      rw [same, missing] at place
      cases place
    · exact (grows.frame.data _ t (window_not_userPath in0) shown old).2 ⟨_, level1, table⟩
  · intro there j hj
    obtain ⟨user, v2, v1⟩ := there j hj
    obtain ⟨in2, in1, in0⟩ := addr_inWindow (small j hj)
    have table2 := grows.frame.table (.pte2 c _) _ trivial (tgt_pte2 hd user v2)
    have table1 := grows.frame.table (.pte1 c _ _) _ trivial (tgt_pte1 hd user v2 v1)
    rw [← tgts] at table2 table1
    obtain ⟨reads2, reads⟩ := coherent.reads hd user
    obtain ⟨reads1, reads⟩ := reads v2
    have reads0 := reads v1
    apply showsWalk_of_reads live (small j hj)
    · rw [same.isMappedPage user]
      exact prepared.mapped j hj user
    · rw [root]
      exact reads_grows reads2 grows same in2
    · rw [(pte2_of_tgt live user table2).2]
      exact reads_grows reads1 grows same in1
    · rw [(pte1_of_tgt live user table2 table1).2]
      exact reads_grows reads0 grows same in0

end

/-- Env 0 with a page at `0x400000`. -/
def oneUserPage : Pmap EnvIdx := (Call.allocPageUser 0 0x400000 7).after firstEnv.pmap

theorem firstEnv_viewed : Viewed (· ∈ somePages) 0 firstEnv.pmap :=
  setsUp_viewed noEnv_tended.consistent noEnv_tended.userApart rfl firstEnv_setsUp

theorem oneUserPage_viewed : Viewed (· ∈ somePages) 0 oneUserPage := by
  have empty : Maps MapOp.Counts firstEnv.pmap firstEnv.pmap := .start
  exact firstEnv_viewed.run
    (empty.alloc 0 0x400000 7 trivial (by decide) (by decide +kernel) (by decide +kernel))

/-- `alloc_page` gives a page, and the sector is written from it. -/
theorem sectorRun_write {k : Kernel} {va : Nat} (hva : va < ulim)
    (one : va / 4096 = (va + 511) / 4096)
    (unmapped : k.pmap.isMappedPage 0 va = false)
    (code : (Call.allocPage 0 va demandPerm).code k.pmap = some 0) :
    k.AllProvided 0 va ∧
    k.SectorRun 0 va { k with pmap := (Call.allocPage 0 va demandPerm).after k.pmap } := by
  have provided :
      Provided 0 va k { k with pmap := (Call.allocPage 0 va demandPerm).after k.pmap } :=
    .inr ⟨unmapped, _, Call.run_after code, rfl⟩
  refine ⟨⟨_, provided, .inl one⟩, @SectorRun.write k 0 va _ true ?_⟩
  have below : va < 0x80000000 := hva
  have last : uLong (va + 511) = va + 511 := Nat.mod_eq_of_lt (by omega)
  unfold sysWriteSector sectorPieces
  rw [provided.demandPage]
  dsimp only [bind, Except.bind]
  rw [last, if_neg (not_not.mpr one)]
  rfl

/-- The page behind it has the same tables. -/
theorem sector_view_next :
    ∃ k', ({ firstEnv with pmap := oneUserPage } : Kernel).SectorRun 0 0x401000 k' ∧
    ∀ j < 512, ShowsWalk k'.pmap 0 (0x401000 + j) := by
  obtain ⟨provided, run⟩ :=
    @sectorRun_write { firstEnv with pmap := oneUserPage } 0x401000 (by decide) (by decide)
    (by decide +kernel) (by decide +kernel)
  have viewed : Viewed (· ∈ somePages) 0 oneUserPage := oneUserPage_viewed
  refine ⟨_, run,
    (sector_view_iff viewed.consistent viewed.userApart viewed.live
      (viewed.mirrored.agrees viewed.live)
    (fun above => absurd above (by decide)) (by decide) provided run).mpr fun j hj => ?_⟩
  have page : (0x401000 + j) / 4096 = 0x401000 / 4096 := by omega
  obtain ⟨same2, same1, -⟩ := vpn_page page
  refine ⟨by unfold ulim; omega, ?_, ?_⟩
  · have table : valid (oneUserPage.pte2 0 0x401000) := by decide +kernel
    unfold Pmap.pte2 at table ⊢
    rw [same2]
    exact table
  · have table : valid (oneUserPage.pte1 0 0x401000) := by decide +kernel
    unfold Pmap.pte1 Pmap.pte2 at table ⊢
    rw [same2, same1]
    exact table

/-- The first page of an env: the kernel finds it mapped, and user code faults on `pt1`. -/
theorem sector_view_lost : SelfMapAgrees firstEnv.pmap 0 ∧ firstEnv.AllProvided 0 0x400000 ∧
    ∃ k', firstEnv.SectorRun 0 0x400000 k' ∧ k'.pmap.isMappedPage 0 0x400000 = true ∧
      k'.pmap.pt1 0 (0x400000 >>> 21) = none ∧ k'.pmap.isMapped 0 0x400000 = none := by
  obtain ⟨provided, run⟩ :=
    @sectorRun_write firstEnv 0x400000 (by decide) (by decide) (by decide +kernel)
    (by decide +kernel)
  exact ⟨firstEnv_viewed.mirrored.agrees firstEnv_viewed.live, provided, _,
    run, by decide +kernel, by decide +kernel, by decide +kernel⟩

end Kernel

end RiscvMos
