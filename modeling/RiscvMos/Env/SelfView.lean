import RiscvMos.Pmap.SelfMap
import RiscvMos.Env.Teardown
import RiscvMos.Env.User
import Mathlib.Data.Fintype.Prod

/-!
What user code reads through the window at `PAGE_TABLE` is what the kernel's
walk finds: the macros `pt0`, `pt1`, `pt2` and `is_mapped` of
`user/include/lib.h` and `pageref` of `user/lib/pageref.c`.
-/

namespace RiscvMos.Pmap

variable {D : Type}

/-! ## The user's view -/

section
variable (s : Pmap D) (d : D)

/-- A load by user code; `none` is a fault. -/
def userLoad (va : Nat) : Option Nat :=
  (s.translate d .load va).map fun p => s.mem p (wordIdx va)

/-- `pt2[i]`, `pt1[i]` and `pt0[i]`. -/
def pt2 (i : Nat) : Option Nat :=
  s.userLoad d (pageTable + (pageTable >>> 9) + (pageTable >>> 18) + 8 * i)
def pt1 (i : Nat) : Option Nat := s.userLoad d (pageTable + (pageTable >>> 9) + 8 * i)
def pt0 (i : Nat) : Option Nat := s.userLoad d (pageTable + 8 * i)

/-- The macro `is_mapped`. -/
def isMapped (va : Nat) : Option Bool := do
  let pte2 ← s.pt2 d (va >>> 30)
  if ¬ valid pte2 then return false
  let pte1 ← s.pt1 d (va >>> 21)
  if ¬ valid pte1 then return false
  let pte0 ← s.pt0 d (va >>> 12)
  return decide (valid pte0)

/-- `pageref`. The array `pages` is the kernel's, as the `PENVS` window shows it. -/
def pageref (va : Nat) : Option Nat := do
  if ← s.isMapped d va then
    let pte ← s.pt0 d (va >>> 12)
    return s.ppRef (pte2pa pte >>> 12)
  else return 0

end

/-- `*pte2` and `*pte1` of the walk for `va`. -/
def pte2 (s : Pmap D) (d : D) (va : Nat) : Nat := s.mem (s.pgdir d >>> 12) (vpn2 va)
def pte1 (s : Pmap D) (d : D) (va : Nat) : Nat := s.mem (ptePage (s.pte2 d va)) (vpn1 va)

/-- The self-map leads to the entries of the walk for every user address, and
the user's macros answer as the kernel does. -/
structure SelfMapAgrees (s : Pmap D) (d : D) : Prop where
  pte2 : ∀ va < ulim,
    s.getPa d (pageTable + (pageTable >>> 9) + (pageTable >>> 18) + 8 * (va >>> 30)) =
    pteAddr (s.pgdir d >>> 12) (vpn2 va)
  pte1 : ∀ va < ulim, valid (s.pte2 d va) →
    s.getPa d (pageTable + (pageTable >>> 9) + 8 * (va >>> 21)) =
      pteAddr (ptePage (s.pte2 d va)) (vpn1 va)
  pte0 : ∀ va < ulim, valid (s.pte2 d va) → valid (s.pte1 d va) →
    s.getPa d (pageTable + 8 * (va >>> 12)) = pteAddr (ptePage (s.pte1 d va)) (vpn0 va)
  pt2 : ∀ va < ulim, s.pt2 d (va >>> 30) = some (s.pte2 d va)
  pt1 : ∀ va < ulim, valid (s.pte2 d va) → s.pt1 d (va >>> 21) = some (s.pte1 d va)
  isMapped : ∀ va < ulim, s.isMapped d va = some (s.isMappedPage d va)
  pt0 : ∀ va < ulim, s.isMappedPage d va = true →
    s.pt0 d (va >>> 12) = s.leafPte (s.pgdir d >>> 12) va
  pageref : ∀ va < ulim, s.pageref d va =
    some (if s.isMappedPage d va = true then s.ppRef (s.getPa d va / 4096) else 0)

/-- User code reads page `t` at `w`. -/
def Reads (s : Pmap D) (d : D) (w t : Nat) : Prop :=
  ∃ perm, s.view d w = some (t, perm) ∧ permits perm .load

section
variable {M : Nat → Prop} {s s' : Pmap D} {d d' : D} {va w t : Nat} {i : Vpn}

theorem permits_perm (pte : Nat) (cause : Fault) :
    permits (pte2perm pte) cause ↔ permits pte cause := by
  unfold permits
  cases cause <;> simp only [pte2perm_and pte (show 0x3ff &&& pteU = pteU by decide),
    pte2perm_and pte (show 0x3ff &&& pteR = pteR by decide),
    pte2perm_and pte (show 0x3ff &&& pteW = pteW by decide),
    pte2perm_and pte (show 0x3ff &&& pteX = pteX by decide)]

theorem Reads.load (h : s.Reads d w t) (hd : s.pgdir d ≠ 0) (hw : InWindow w)
    (hi : w % 4096 = 8 * i.val) :
    s.getPa d w = pteAddr t i ∧ s.userLoad d w = some (s.mem t i) := by
  obtain ⟨perm, view, permitted⟩ := h
  have mapped : s.isMappedPage d w = true := by
    rw [isMappedPage_eq hw.not_shared, view]
    rfl
  obtain ⟨-, t0, -, valid0, leaf⟩ := exists_leafPte mapped
  obtain ⟨page, bits⟩ :=
    Prod.mk.inj (Option.some.inj ((ent_of_leafPte hd hw.not_shared leaf).symm.trans view))
  have word : wordIdx w = i := by
    apply Fin.ext
    rw [wordIdx]
    simp only [Nat.shiftRight_eq_div_pow, show (0x1FF : Nat) = 2 ^ 9 - 1 from rfl,
      Nat.and_two_pow_sub_one_eq_mod]
    omega
  rw [← bits, permits_perm] at permitted
  constructor
  · rw [getPa_of_view hw.not_shared view, pteAddr, page2pa, Nat.shiftLeft_eq, hi]
  · rw [userLoad, Pmap.translate, if_pos (.inl (hw.2.trans (by decide))), leaf]
    simp only [permitted, if_true, Option.map_some, page, word]

/-- A word of a table that the window shows, at offset `8 * n` of the window. -/
theorem Mirrored.load (h : Mirrored d s) {x : Slot D} {t wva : Nat} {i : Vpn} (hd : s.pgdir d ≠ 0)
    (hx : UserTable d x) (ht : s.tgt x = some t) (hwva : InWindow wva)
    (hslot : leafSlot d wva = x.self) (hi : wva % 4096 = 8 * i.val) :
    s.getPa d wva = pteAddr t i ∧ s.userLoad d wva = some (s.mem t i) := by
  obtain ⟨perm, he⟩ := tgt_eq_some.mp (h.shown x t hx id ht)
  rw [← hslot] at he
  have hread := h.readable (vpn1 wva) (vpn0 wva) t perm (by rw [← he, leafSlot, hwva.vpn2_eq])
  have reads : s.Reads d wva t := ⟨perm, he, hread.2.1, hread.1⟩
  exact reads.load hd hwva hi

/-! The three addresses of the window for a user address. -/

theorem leafSlot_pt2 (d : D) (hva : va < ulim) :
    leafSlot d (pageTable + (pageTable >>> 9) + (pageTable >>> 18) + 8 * (va >>> 30)) =
      (Slot.root d).self := by
  simp only [ulim] at hva
  simp only [leafSlot, Slot.self, Slot.pte0.injEq, Fin.ext_iff, vpn0_val, vpn1_val, vpn2_val,
    Nat.shiftRight_eq_div_pow, pageTable, true_and]
  refine ⟨?_, ?_, ?_⟩
  · show _ = 3
    omega
  · show _ = 3
    omega
  · show _ = 3
    omega

theorem leafSlot_pt1 (d : D) (hva : va < ulim) :
    leafSlot d (pageTable + (pageTable >>> 9) + 8 * (va >>> 21)) =
    (Slot.pte2 d (vpn2 va)).self := by
  simp only [ulim] at hva
  simp only [leafSlot, Slot.self, Slot.pte0.injEq, Fin.ext_iff, vpn0_val, vpn1_val, vpn2_val,
    Nat.shiftRight_eq_div_pow, pageTable, true_and]
  refine ⟨?_, ?_, ?_⟩
  · show _ = 3
    omega
  · show _ = 3
    omega
  · omega

theorem leafSlot_pt0 (d : D) (hva : va < ulim) :
    leafSlot d (pageTable + 8 * (va >>> 12)) = (Slot.pte1 d (vpn2 va) (vpn1 va)).self := by
  simp only [ulim] at hva
  simp only [leafSlot, Slot.self, Slot.pte0.injEq, Fin.ext_iff, vpn0_val, vpn1_val, vpn2_val,
    Nat.shiftRight_eq_div_pow, pageTable, true_and]
  refine ⟨?_, ?_, ?_⟩
  · show _ = 3
    omega
  · omega
  · omega

theorem tgt_pte2 (hd : s.pgdir d ≠ 0) (hva : va < ulim) (hv2 : valid (s.pte2 d va)) :
    s.tgt (.pte2 d (vpn2 va)) = some (ptePage (s.pte2 d va)) := by
  have hroot : s.tgt (.root d) = some (s.pgdir d >>> 12) := by simp [tgt, ent, ent.root, hd]
  have hent := ent_child_of (x := .root d) (i := vpn2 va) trivial (not_shared_of_user hva) hroot
  exact tgt_eq_some.mpr ⟨_, hent.trans (if_pos hv2)⟩

theorem tgt_pte1 (hd : s.pgdir d ≠ 0) (hva : va < ulim) (hv2 : valid (s.pte2 d va))
    (hv1 : valid (s.pte1 d va)) :
    s.tgt (.pte1 d (vpn2 va) (vpn1 va)) = some (ptePage (s.pte1 d va)) := by
  have hent := ent_child_of (x := .pte2 d (vpn2 va)) (i := vpn1 va) trivial id (tgt_pte2 hd hva hv2)
  exact tgt_eq_some.mpr ⟨_, hent.trans (if_pos hv1)⟩

section
variable (h : Mirrored d s) (hd : s.pgdir d ≠ 0) (hva : va < ulim)
include h hd hva

theorem Mirrored.load_pt2 :
    s.getPa d (pageTable + (pageTable >>> 9) + (pageTable >>> 18) + 8 * (va >>> 30)) =
      pteAddr (s.pgdir d >>> 12) (vpn2 va) ∧ s.pt2 d (va >>> 30) = some (s.pte2 d va) := by
  have hroot : s.tgt (.root d) = some (s.pgdir d >>> 12) := by simp [tgt, ent, ent.root, hd]
  simp only [ulim] at hva
  refine h.load hd .root hroot ?_ (leafSlot_pt2 d hva) ?_
  · simp only [InWindow, pageTable, Nat.shiftRight_eq_div_pow]
    omega
  · rw [vpn2_val]
    simp only [pageTable, Nat.shiftRight_eq_div_pow]
    omega

theorem Mirrored.load_pt1 (hv2 : valid (s.pte2 d va)) :
    s.getPa d (pageTable + (pageTable >>> 9) + 8 * (va >>> 21)) =
      pteAddr (ptePage (s.pte2 d va)) (vpn1 va) ∧ s.pt1 d (va >>> 21) = some (s.pte1 d va) := by
  have hlt : va < 0x80000000 := hva
  refine h.load hd (.pte2 (vpn2_lt_of_user hva)) (tgt_pte2 hd hva hv2) ?_ (leafSlot_pt1 d hva) ?_
  · simp only [InWindow, pageTable, Nat.shiftRight_eq_div_pow]
    omega
  · rw [vpn1_val]
    simp only [pageTable, Nat.shiftRight_eq_div_pow]
    omega

theorem Mirrored.load_pt0 (hv2 : valid (s.pte2 d va)) (hv1 : valid (s.pte1 d va)) :
    s.getPa d (pageTable + 8 * (va >>> 12)) = pteAddr (ptePage (s.pte1 d va)) (vpn0 va) ∧
      s.pt0 d (va >>> 12) = some (s.mem (ptePage (s.pte1 d va)) (vpn0 va)) := by
  have hlt : va < 0x80000000 := hva
  refine h.load hd (.pte1 (vpn2_lt_of_user hva)) (tgt_pte1 hd hva hv2 hv1) ?_
    (leafSlot_pt0 d hva) ?_
  · simp only [InWindow, pageTable, Nat.shiftRight_eq_div_pow]
    omega
  · rw [vpn0_val]
    simp only [pageTable, Nat.shiftRight_eq_div_pow]
    omega

end

/-- The kernel's walk, by its three entries. -/
theorem isMappedPage_ptes (hd : s.pgdir d ≠ 0) : s.isMappedPage d va = true ↔
    valid (s.pte2 d va) ∧ valid (s.pte1 d va) ∧
    valid (s.mem (ptePage (s.pte1 d va)) (vpn0 va)) := by
  unfold isMappedPage walk
  rw [if_neg hd]
  by_cases hv2 : valid (s.pte2 d va)
  · by_cases hv1 : valid (s.pte1 d va)
    · simp only [pte2] at hv2
      simp only [pte1, pte2] at hv1 ⊢
      simp [hv2, hv1]
    · simp only [pte2] at hv2
      simp only [pte1, pte2] at hv1 ⊢
      simp [hv2, hv1]
  · simp only [pte2] at hv2 ⊢
    simp [hv2]

theorem leafPte_ptes (hv2 : valid (s.pte2 d va)) (hv1 : valid (s.pte1 d va))
    (hv0 : valid (s.mem (ptePage (s.pte1 d va)) (vpn0 va))) :
    s.leafPte (s.pgdir d >>> 12) va = some (s.mem (ptePage (s.pte1 d va)) (vpn0 va)) := by
  unfold leafPte walk
  simp only [pte1, pte2] at hv2 hv1 hv0 ⊢
  simp [hv2, hv1, hv0]

theorem Mirrored.isMapped (h : Mirrored d s) (hd : s.pgdir d ≠ 0) (hva : va < ulim) :
    s.isMapped d va = some (s.isMappedPage d va) := by
  have hiff : s.isMappedPage d va = true ↔ _ := isMappedPage_ptes hd
  unfold Pmap.isMapped
  rw [(h.load_pt2 hd hva).2]
  by_cases hv2 : valid (s.pte2 d va)
  · rw [Option.bind_eq_bind, Option.bind_some, if_neg (not_not.mpr hv2), (h.load_pt1 hd hva hv2).2]
    by_cases hv1 : valid (s.pte1 d va)
    · rw [(h.load_pt0 hd hva hv2 hv1).2]
      by_cases hv0 : valid (s.mem (ptePage (s.pte1 d va)) (vpn0 va))
      · simp [hv1, hv0, hiff.mpr ⟨hv2, hv1, hv0⟩]
      · have hm : s.isMappedPage d va = false :=
          Bool.eq_false_iff.mpr fun hm => hv0 (hiff.mp hm).2.2
        simp [hv0, hm]
    · have hm : s.isMappedPage d va = false := Bool.eq_false_iff.mpr fun hm => hv1 (hiff.mp hm).2.1
      simp [hv1, hm]
  · have hm : s.isMappedPage d va = false := Bool.eq_false_iff.mpr fun hm => hv2 (hiff.mp hm).1
    simp [hv2, hm]

theorem Mirrored.agrees (h : Mirrored d s) (hd : s.pgdir d ≠ 0) : SelfMapAgrees s d := by
  constructor
  · intro va hva
    exact (h.load_pt2 hd hva).1
  · intro va hva hv2
    exact (h.load_pt1 hd hva hv2).1
  · intro va hva hv2 hv1
    exact (h.load_pt0 hd hva hv2 hv1).1
  · intro va hva
    exact (h.load_pt2 hd hva).2
  · intro va hva hv2
    exact (h.load_pt1 hd hva hv2).2
  · intro va hva
    exact h.isMapped hd hva
  · intro va hva hm
    obtain ⟨hv2, hv1, hv0⟩ := (isMappedPage_ptes hd).mp hm
    rw [(h.load_pt0 hd hva hv2 hv1).2, leafPte_ptes hv2 hv1 hv0]
  · intro va hva
    unfold Pmap.pageref
    rw [h.isMapped hd hva]
    by_cases hm : s.isMappedPage d va = true
    · obtain ⟨hv2, hv1, hv0⟩ := (isMappedPage_ptes hd).mp hm
      rw [(h.load_pt0 hd hva hv2 hv1).2, getPa_of_leafPte (leafPte_ptes hv2 hv1 hv0)]
      have hdiv : (ptePage (s.mem (ptePage (s.pte1 d va)) (vpn0 va)) * 4096 + va % 4096) / 4096 =
          pte2pa (s.mem (ptePage (s.pte1 d va)) (vpn0 va)) >>> 12 := by
        rw [pte2pa_eq, Nat.shiftRight_eq_div_pow]
        omega
      simp [hm, hdiv]
    · simp [hm]

/-! ## The calls -/

variable [DecidableEq D]

/-- A page at `va`: an address of the window was empty, and its page can be read. -/
theorem Mirrored.stored (h : Mirrored d s) (hva : va < 2 ^ 39) (hroot : s.ent (.root d) ≠ none)
    {q perm : Nat} (hst : Stored M d va (some (q, perm)) s s')
    (hwin : vpn2 va = 3 → s.ent (leafSlot d va) = none ∧ Readable perm) : Mirrored d s' := by
  by_cases h3 : vpn2 va = 3
  · obtain ⟨hnone, hread⟩ := hwin h3
    have hleaf : s'.ent (leafSlot d va) = some (q, perm) := by rw [hst.ent, Function.update_self]
    refine (h.show (inWindow_of_vpn2 hva h3) hroot (hst.frame.mono ?_) hleaf hread ?_).mono ?_ ?_
    · rintro x rfl
      exact .inr (.inr (.inr rfl))
    · intro x hx hlive hself
      obtain ⟨t, ht⟩ := Option.ne_none_iff_exists'.mp hlive
      have := h.shown x t hx id ht
      rw [hself, tgt, hnone] at this
      cases this
    · rintro x - - ⟨hP, -⟩
      exact hP
    · rintro i ⟨hW, -⟩
      exact hW
  · exact h.leaf h3 hst.ent

variable [Fintype D]

theorem Mirrored.alloc (h : Mirrored d s) (hs : Consistent M s) (hva : va < 2 ^ 39)
    (huw : UserOrWindow va) (hd : s.pgdir d ≠ 0) {perm : Nat} {r : Int}
    (hwin : vpn2 va = 3 → s.ent (leafSlot d va) = none ∧ Readable (perm ||| pteV))
    (hall : s.AllocsAll d va perm) (ha : s.allocPageUser d va perm = .ok (r, s')) :
    r = 0 ∧ Mirrored d s' := by
  obtain ⟨s₁, hrun⟩ := hall
  unfold allocPageUser at ha
  split at ha
  · cases ha
  rename_i hperm
  rw [Nat.not_le] at hperm
  obtain ⟨rfl, rfl⟩ := Prod.mk.inj (Except.ok.inj
    ((descend_mono selfMap_of_selfMapped hrun).symm.trans ha))
  refine ⟨rfl, ?_⟩
  rcases descend_mirrored h hs hva huw hd hrun with ⟨s₂, t0, hs₂, hm, hroot, ht, hn, hleaf⟩ |
    ⟨t0, ht, hfound⟩
  · rcases allocLeaf_spec hs₂ ht hn hperm hleaf with ⟨-, -, q, hfresh⟩ | ⟨hr, -⟩
    · exact hm.stored hva hroot hfresh.stored fun h3 => ⟨hn, (hwin h3).2⟩
    · exact absurd hr (by decide)
  · obtain ⟨-, q, hfresh⟩ := replaceLeaf_spec hs ht hperm hfound
    exact h.stored hva (by simp [ent, ent.root, hd]) hfresh.stored hwin

theorem Mirrored.map (h : Mirrored d s) (hs : Consistent M s) (hva : va < ulim) (hd : s.pgdir d ≠ 0)
    {pa perm : Nat} {r : Int} (hall : s.MapsAll d va pa perm)
    (ha : s.mapPageUser d va pa perm = .ok (r, s')) : r = 0 ∧ Mirrored d s' := by
  have hlt : va < 2 ^ 39 := hva.trans (by decide)
  have hv := vpn2_lt_of_user hva
  obtain ⟨s₁, hrun⟩ := hall
  unfold mapPageUser at ha
  split at ha
  · cases ha
  split at ha
  · cases ha
  rename_i hperm hpa
  rw [Nat.not_le] at hperm
  rw [not_not] at hpa
  obtain ⟨rfl, rfl⟩ := Prod.mk.inj (Except.ok.inj
    ((descend_mono selfMap_of_selfMapped hrun).symm.trans ha))
  refine ⟨rfl, ?_⟩
  rcases descend_mirrored h hs hlt (.inl hv) hd hrun with ⟨s₂, t0, hs₂, hm, -, ht, hn, hleaf⟩ |
    ⟨t0, ht, hfound⟩
  · obtain ⟨hst, -⟩ := mapLeaf_spec hs₂ ht hn hperm hpa
    rw [(Prod.mk.inj (Except.ok.inj hleaf)).2] at hst
    exact hm.leaf (vpn_ne_three hv) hst.ent
  · obtain ⟨s₂, heq, hst, -⟩ := remapLeaf_spec hs ht hperm hpa
    obtain ⟨-, rfl⟩ := Prod.mk.inj (Except.ok.inj (heq.symm.trans hfound))
    exact h.leaf (vpn_ne_three hv) hst.ent

omit [DecidableEq D] [Fintype D] in
/-- A call touches the tables of its own directory only. -/
theorem dir_of_touched {x : Slot D} (h : Touched (OnPath d) d va x) : x.dir = d := by
  have hpath : ∀ {va}, OnPath d va x → x.dir = d := by
    rintro va (rfl | rfl | rfl | rfl) <;> rfl
  rcases h with h | h | h | h
  · exact hpath h
  · exact hpath h
  · exact hpath h
  · exact hpath h

omit [DecidableEq D] [Fintype D] in
/-- The window of another directory. -/
theorem Mirrored.other (h : Mirrored d s) (hne : d' ≠ d)
    (hf : Frame M (Touched (OnPath d') d' va) s s') : Mirrored d s' := by
  apply h.of_ent
  intro x hx
  apply hf.ent_eq
  intro ht
  exact hne ((dir_of_touched ht).symm.trans hx)

omit [DecidableEq D] [Fintype D] in
theorem faultGives_cases {cause : Fault} {tval perm : Nat}
    (h : s.faultGives d cause tval = some (va, perm)) :
    (va = tval ∧ (s.isMappedPage d tval = true → cause = .load)) ∨
    (va = uxframe ∧ s.isMappedPage d tval = true ∧ s.getPerm d tval &&& pteCow ≠ 0) := by
  unfold faultGives at h
  split at h
  · rename_i hm
    split at h
    · cases h
    rename_i hfetch
    split at h
    · rename_i hcow
      split at h
      · exact .inr ⟨(Prod.mk.inj (Option.some.inj h)).1.symm, hm, hcow⟩
      · cases h
    split at h
    · cases h
    · rename_i hstore
      refine .inl ⟨(Prod.mk.inj (Option.some.inj h)).1.symm, fun _ => ?_⟩
      cases cause with
      | fetch => exact absurd rfl hfetch
      | load => rfl
      | store => exact absurd rfl hstore
  · rename_i hm
    exact .inl ⟨(Prod.mk.inj (Option.some.inj h)).1.symm, fun hm' => absurd hm' hm⟩

omit [DecidableEq D] [Fintype D] in
/-- In the window a fault gives out a page only where there was none: what is
there can be read. -/
theorem Mirrored.unmapped (h : Mirrored d s) {cause : Fault} {tval perm : Nat}
    (hwin : InWindow tval)
    (htr : s.translate d cause tval = none) (hg : s.faultGives d cause tval = some (va, perm)) :
    va = tval ∧ s.ent (leafSlot d tval) = none := by
  have hv : ¬ shared (vpn2 tval) := hwin.not_shared
  by_cases hm : s.isMappedPage d tval = true
  · exfalso
    obtain ⟨hd, t0, -, hv0, hl⟩ := exists_leafPte hm
    have he := ent_of_leafPte hd hv hl
    have hread := h.readable (vpn1 tval) (vpn0 tval) _ _ (by rw [← he, leafSlot, hwin.vpn2_eq])
    rcases faultGives_cases hg with ⟨-, hload⟩ | ⟨-, -, hcow⟩
    · obtain rfl := hload hm
      have hpermits : permits (s.mem t0 (vpn0 tval)) .load := by
        constructor
        · rw [← pte2perm_and _ (by decide)]
          exact hread.2.1
        · show s.mem t0 (vpn0 tval) &&& pteR ≠ 0
          rw [← pte2perm_and _ (by decide)]
          exact hread.1
      rw [Pmap.translate, if_pos (.inl (hwin.2.trans (by decide))), hl] at htr
      simp [hpermits] at htr
    · rw [getPerm_of_leafPte hl] at hcow
      exact hcow hread.2.2
  · rcases faultGives_cases hg with ⟨rfl, -⟩ | ⟨-, hm', -⟩
    · refine ⟨rfl, ?_⟩
      rw [isMappedPage_eq hv] at hm
      simpa [view] using hm
    · exact absurd hm' hm

/-! ## Runs -/

/-- What is done to the directories. -/
inductive MapOp (D : Type) where
  | allocPageUser (d : D) (va perm : Nat)
  | mapPageUser (d : D) (va pa perm : Nat)
  | unmapPage (d : D) (va : Nat)
  | fault (d : D) (cause : Fault) (tval : Nat) (tf : Trapframe)

/-- The calls on user addresses, all of them below `ULIM`, and the faults that give out
a page, in which no `page_alloc` fails. `map_page_user` maps pages that some user address maps, and
a fault comes from an env that `env_setup_vm` has set up. -/
inductive MapStep (s : Pmap D) : MapOp D → Pmap D → Prop where
  | allocPageUser {d : D} {va perm : Nat} {r : Int} {s' : Pmap D} (hva : va < ulim)
      (hall : s.AllocsAll d va perm) (hrun : s.allocPageUser d va perm = .ok (r, s')) :
      MapStep s (.allocPageUser d va perm) s'
  | mapPageUser {d d₀ : D} {va va₀ perm : Nat} {r : Int} {s' : Pmap D} (hva : va < ulim)
      (hva₀ : va₀ < ulim) (hm : s.isMappedPage d₀ va₀ = true)
      (hall : s.MapsAll d va (s.getPa d₀ va₀) perm)
      (hrun : s.mapPageUser d va (s.getPa d₀ va₀) perm = .ok (r, s')) :
      MapStep s (.mapPageUser d va (s.getPa d₀ va₀) perm) s'
  | unmapPage {d : D} {va : Nat} {r : Int} {s' : Pmap D} (hva : va < ulim)
      (hrun : s.unmapPage d va = .ok (r, s')) : MapStep s (.unmapPage d va) s'
  | fault {d : D} {cause : Fault} {tval va perm : Nat} {tf : Trapframe} {cow : Bool} {s' : Pmap D}
      (hva : tval < ulim ∨ InWindow tval) (hset : s.ent (.pte1 d 3 3) ≠ none)
      (htr : s.translate d cause tval = none) (hg : s.faultGives d cause tval = some (va, perm))
      (hall : s.AllocsAll d va perm) (hrun : s.handleFault d cause tval tf = .ok (cow, s')) :
      MapStep s (.fault d cause tval tf) s'

/-- The step gives no page its 65536th reference. -/
def MapOp.Counts (s : Pmap D) : MapOp D → Prop
  | .mapPageUser _ _ pa _ => s.ppRef (pa / 4096) < 65535
  | _ => True

/-- The states that steps which meet `P` lead to. -/
inductive Maps (P : Pmap D → MapOp D → Prop) (s₀ : Pmap D) : Pmap D → Prop where
  | start : Maps P s₀ s₀
  | step {s s' : Pmap D} {op : MapOp D} (h : Maps P s₀ s) (hP : P s op) (hs : MapStep s op s') :
      Maps P s₀ s'

structure Viewed (M : Nat → Prop) (d : D) (s : Pmap D) : Prop where
  consistent : Consistent M s
  userApart : s.UserApart
  live : s.pgdir d ≠ 0
  mirrored : Mirrored d s

omit [DecidableEq D] [Fintype D] in
theorem pgdir_of_frame {C : Slot D → Prop} (hf : Frame M C s s') (hd : s.pgdir d ≠ 0) :
    s'.pgdir d ≠ 0 := by
  intro h0
  have hroot := hf.table (.root d) (s.pgdir d >>> 12) trivial (by simp [tgt, ent, ent.root, hd])
  rw [tgt, ent_none_of_pgdir (.root d) h0] at hroot
  cases hroot

omit [Fintype D] in
theorem AllocsAll.code {perm : Nat} {r : Int} (hall : s.AllocsAll d va perm)
    (ha : s.allocPageUser d va perm = .ok (r, s')) : r = 0 := by
  obtain ⟨s₁, hrun⟩ := hall
  unfold allocPageUser at ha
  split at ha
  · cases ha
  exact (Prod.mk.inj
    (Except.ok.inj ((descend_mono selfMap_of_selfMapped hrun).symm.trans ha))).1.symm

omit [Fintype D] in
theorem MapsAll.code {pa perm : Nat} {r : Int} (hall : s.MapsAll d va pa perm)
    (ha : s.mapPageUser d va pa perm = .ok (r, s')) : r = 0 := by
  obtain ⟨s₁, hrun⟩ := hall
  unfold mapPageUser at ha
  split at ha
  · cases ha
  split at ha
  · cases ha
  exact (Prod.mk.inj
    (Except.ok.inj ((descend_mono selfMap_of_selfMapped hrun).symm.trans ha))).1.symm

theorem UserOrWindow.not_shared (h : UserOrWindow va) : ¬ shared (vpn2 va) := by
  rcases h with hv | hv
  · exact not_shared_of_lt hv
  · rw [hv]
    decide

/-- One call to `alloc_page_user` on any directory. -/
theorem Viewed.alloc (h : Viewed M d s) (hva : va < 2 ^ 39) (huw : UserOrWindow va)
    (hT : Apart (OnPath d') d' va s) {perm : Nat} {r : Int}
    (hwin : d' = d → vpn2 va = 3 → s.ent (leafSlot d va) = none ∧ Readable (perm ||| pteV))
    (hall : s.AllocsAll d' va perm) (ha : s.allocPageUser d' va perm = .ok (r, s')) :
    Viewed M d s' := by
  obtain rfl := hall.code ha
  have hv := huw.not_shared
  obtain ⟨hs', hf, -⟩ := allocPageUser_spec h.consistent hva hv hT ha
  refine ⟨hs', allocPageUser_userApart h.consistent hva hv hT h.userApart ha,
    pgdir_of_frame hf h.live, ?_⟩
  by_cases hd : d' = d
  · subst hd
    exact (h.mirrored.alloc h.consistent hva huw h.live (hwin rfl) hall ha).2
  · exact h.mirrored.other hd hf

theorem Viewed.step (h : Viewed M d s) {op : MapOp D} (hP : op.Counts s) (hstep : MapStep s op s') :
    Viewed M d s' := by
  cases hstep with
  | allocPageUser hva hall hrun =>
    have hlt := hva.trans (by decide : ulim < 2 ^ 39)
    have h3 := vpn2_ne_three_of_user hva
    exact h.alloc hlt (.inl (vpn2_lt_of_user hva)) (apart_of_ne s hlt h3)
      (fun _ h3' => absurd h3' h3) hall
      hrun
  | @mapPageUser d' d₀ va va₀ perm r s' hva hva₀ hm hall hrun =>
    have hlt := hva.trans (by decide : ulim < 2 ^ 39)
    obtain rfl := hall.code hrun
    obtain ⟨perm₀, hview⟩ := view_of_isMappedPage (not_shared_of_user hva₀) hm
    have htgt : s.tgt (leafSlot d₀ va₀) = some (s.getPa d₀ va₀ / 4096) :=
      tgt_eq_some.mpr ⟨perm₀, hview⟩
    obtain ⟨hf, -⟩ := mapPageUser_spec h.consistent hlt (not_shared_of_user hva)
      (apart_of_ne s hlt (vpn2_ne_three_of_user hva)) hrun
    refine ⟨mapPageUser_consistent h.consistent h.userApart hva hva₀ htgt hP hrun,
      mapPageUser_userApart h.consistent h.userApart hva hva₀ htgt hrun,
      pgdir_of_frame hf h.live, ?_⟩
    by_cases hd : d' = d
    · subst hd
      exact (h.mirrored.map h.consistent hva h.live hall hrun).2
    · exact h.mirrored.other hd hf
  | @unmapPage d' va r s' hva hrun =>
    have hlt := hva.trans (by decide : ulim < 2 ^ 39)
    obtain ⟨s₁, hrun', hs', hst⟩ := unmapPage_ok (d := d') h.consistent (not_shared_of_user hva)
      (Addressable.not_kernel (.inl hva))
    obtain ⟨-, rfl⟩ := Prod.mk.inj (Except.ok.inj (hrun'.symm.trans hrun))
    have hf : Frame M (Touched (OnPath d') d' va) s s₁ := hst.frame.mono (by
      rintro x rfl
      exact .inl (.inr (.inr (.inr rfl))))
    refine ⟨hs', h.userApart.leaf hlt hf fun p _ hp => ?_, pgdir_of_frame hf h.live, ?_⟩
    · rw [tgt, hst.ent, Function.update_self] at hp
      cases hp
    · by_cases hd : d' = d
      · subst hd
        exact h.mirrored.leaf (vpn2_ne_three_of_user hva) hst.ent
      · exact h.mirrored.other hd hf
  | @fault d' cause tval va perm tf cow s' hva hset htr hg hall hrun =>
    obtain ⟨rfl, hlt, r, s₁, ha, hs⟩ := handleFault_gives hrun hg
    have huw : UserOrWindow va := by
      rcases faultGives_cases hg with ⟨rfl, -⟩ | ⟨rfl, -⟩
      · rcases hva with hva | hwin
        · exact .inl (vpn2_lt_of_user hva)
        · exact .inr hwin.vpn2_eq
      · exact .inl (by decide)
    have h₁ : Viewed M d s₁ := by
      refine h.alloc hlt huw (apart_of_pte1 hset hlt) ?_ hall ha
      rintro rfl h3
      rcases hva with hva | hwin
      · rcases faultGives_cases hg with ⟨rfl, -⟩ | ⟨rfl, -⟩
        · exact absurd h3 (vpn2_ne_three_of_user hva)
        · exact absurd h3 (by decide)
      · obtain ⟨rfl, hnone⟩ := h.mirrored.unmapped hwin htr hg
        exact ⟨hnone, by decide⟩
    rcases hs with rfl | hst
    · exact h₁
    · have hd' : s₁.pgdir d' ≠ 0 := by
        obtain rfl := hall.code ha
        obtain ⟨-, hf, -⟩ :=
          allocPageUser_spec h.consistent hlt huw.not_shared (apart_of_pte1 hset hlt) ha
        exact live_of_window (hf.window hset)
      obtain ⟨-, p, hM, hp, -, rfl⟩ := storeFrame_eq h₁.consistent h₁.userApart hd' hst
      have hent := writePage_ent hp (frameWords tf (s₁.mem p))
      exact ⟨h₁.consistent.write hp _, h₁.userApart.of_ent hent, h₁.live,
        h₁.mirrored.of_ent fun x _ => by rw [hent]⟩

theorem Viewed.run {s₀ : Pmap D} (h : Viewed M d s₀) (hrun : Maps MapOp.Counts s₀ s) :
    Viewed M d s := by
  induction hrun with
  | start => exact h
  | step _ hP hstep ih => exact ih.step hP hstep

/-- The window of a new directory shows its root table, and nothing else. -/
theorem newDir_mirrored {s₁ s₂ : Pmap D} (hs : Consistent M s) (hd : s.pgdir d = 0)
    (hroot : s.allocPgdir d = .ok (0, s₁))
    (hwin : s₁.mapPage d Kernel.rootWindow (s₁.pgdir d) (pteR ||| pteU) = .ok (0, s₂)) :
    Mirrored d s₂ := by
  have hlt : Kernel.rootWindow < 2 ^ 39 := by decide
  have hslot : leafSlot d Kernel.rootWindow = .pte0 d 3 3 3 := by simp [leafSlot]; decide
  obtain ⟨hs₁, -, pp, hent₁, -⟩ := allocPgdir_spec hs hd hroot
  obtain ⟨hf₂, hent₂, -⟩ := mapPage_spec hs₁ hlt (by decide) hwin
  have hleaf := hent₂ rfl
  rw [hslot] at hleaf
  have hpath : ∀ x, OnPath d Kernel.rootWindow x ↔
      x = .root d ∨ x = .pte2 d 3 ∨ x = .pte1 d 3 3 ∨ x = .pte0 d 3 3 3 := by
    intro x
    rw [OnPath, hslot, show vpn2 Kernel.rootWindow = 3 by decide,
      show vpn1 Kernel.rootWindow = 3 by decide]
  have hnone : ∀ x : Slot D, x.dir = d → ¬ OnPath d Kernel.rootWindow x → s₂.ent x = none := by
    intro x hx hp
    have hne : x ≠ .root d := fun h => hp ((hpath x).mpr (.inl h))
    rw [hf₂.ent_eq x hp, hent₁, Function.update_of_ne hne]
    exact ent_none_of_pgdir x (by rw [hx, hd])
  have hempty : ∀ i : Vpn, i.val < 2 →
      s₂.ent (.pte2 d i) = none ∧ ∀ j, s₂.ent (.pte1 d i j) = none := by
    intro i hi
    have h3 := vpn_ne_three hi
    refine ⟨hnone _ rfl ?_, fun j => hnone _ rfl ?_⟩
    · simp [hpath, h3]
    · simp [hpath, h3]
  constructor
  · intro x t hx _ ht
    cases hx with
    | root =>
      have hroot₁ : s₁.tgt (.root d) = some pp := by
        rw [tgt, hent₁, Function.update_self, Option.map_some]
      have hd₁ : s₁.pgdir d ≠ 0 := by
        intro h0
        rw [tgt, ent_none_of_pgdir (.root d) h0] at hroot₁
        cases hroot₁
      have hpgdir : s₁.tgt (.root d) = some (s₁.pgdir d / 4096) := by
        simp [tgt, ent, ent.root, hd₁, Nat.shiftRight_eq_div_pow]
      have hkeep := hf₂.table (.root d) _ trivial hpgdir
      rw [hkeep] at ht
      rw [Slot.self, tgt, hleaf, Option.map_some]
      exact ht
    | pte2 hi =>
      rw [tgt, (hempty _ hi).1] at ht
      cases ht
    | pte1 hi =>
      rw [tgt, (hempty _ hi).2] at ht
      cases ht
  · intro i hi _ hne
    exact absurd (hempty i hi).1 hne
  · intro j k p perm he
    by_cases hjk : j = 3 ∧ k = 3
    · rw [hjk.1, hjk.2, hleaf] at he
      rw [← (Prod.mk.inj (Option.some.inj he)).2]
      decide
    · rw [hnone _ rfl] at he
      · cases he
      · simpa [hpath] using hjk

end

/-! Steps on a concrete state. -/

section
variable [DecidableEq D] {P : Pmap D → MapOp D → Prop} {s₀ s : Pmap D}

/-- The code of a reply. -/
def replyCode : Except Halt (Reply D) → Option Int
  | .ok (r, _) => some r
  | .error _ => none

omit [DecidableEq D] in
theorem ok_of_replyCode {x : Except Halt (Reply D)} {r : Int} (h : replyCode x = some r) :
    ∃ s', x = .ok (r, s') := by
  cases x with
  | error e => cases h
  | ok p => exact ⟨p.2, by rw [← Option.some.inj h]⟩

omit [DecidableEq D] in
theorem replyCode_eq {x : Except Halt (Reply D)} {r : Int} :
    replyCode x = some r ↔ ∃ s', x = .ok (r, s') :=
  ⟨ok_of_replyCode, fun ⟨s', h⟩ => by rw [h, replyCode]⟩

instance (d : D) (va perm : Nat) : Decidable (s.AllocsAll d va perm) :=
  decidable_of_iff _ replyCode_eq

instance (d : D) (va pa perm : Nat) : Decidable (s.MapsAll d va pa perm) :=
  decidable_of_iff _ replyCode_eq

theorem Maps.alloc (h : Maps P s₀ s) (d : D) (va perm : Nat) (hP : P s (.allocPageUser d va perm))
    (hva : va < ulim)
    (hall : replyCode (descend (selfMapped d) (allocLeaf va perm) (replaceLeaf va perm)
      s d va) = some 0) (hcode : (Call.allocPageUser d va perm).code s = some 0) :
    Maps P s₀ ((Call.allocPageUser d va perm).after s) :=
  .step h hP (.allocPageUser hva (ok_of_replyCode hall) (Call.run_after hcode))

theorem Maps.map (h : Maps P s₀ s) (d : D) (va : Nat) (d₀ : D) (va₀ perm : Nat)
    (hP : P s (.mapPageUser d va (s.getPa d₀ va₀) perm)) (hva : va < ulim) (hva₀ : va₀ < ulim)
    (hm : s.isMappedPage d₀ va₀ = true)
    (hall : replyCode (descend (selfMapped d)
      (fun s' t0 => .ok (0, mapLeaf va (s.getPa d₀ va₀) perm s' t0))
      (remapLeaf va (s.getPa d₀ va₀) perm) s d va) = some 0)
    (hcode : (Call.mapPageUser d va (s.getPa d₀ va₀) perm).code s = some 0) :
    Maps P s₀ ((Call.mapPageUser d va (s.getPa d₀ va₀) perm).after s) :=
  .step h hP (.mapPageUser hva hva₀ hm (ok_of_replyCode hall) (Call.run_after hcode))

theorem Maps.unmap (h : Maps P s₀ s) (d : D) (va : Nat) (hP : P s (.unmapPage d va))
    (hva : va < ulim)
    (hcode : (Call.unmapPage d va).code s = some 0) : Maps P s₀ ((Call.unmapPage d va).after s) :=
  .step h hP (.unmapPage hva (Call.run_after hcode))

end

end RiscvMos.Pmap

namespace RiscvMos.Kernel

open Pmap

/-- What `env_setup_vm` leaves. -/
theorem setsUp_viewed {M : Nat → Prop} {k₀ k₁ : Kernel} {e : EnvIdx} (hs : Consistent M k₀.pmap)
    (hu : k₀.pmap.UserApart) (hd : k₀.pmap.pgdir e = 0) (hsetup : SetsUp k₀ e k₁) :
    Viewed M e k₁.pmap := by
  obtain ⟨hx, s₁, s₂, hroot, hwin⟩ := hsetup
  obtain ⟨⟨r₁, s₁'⟩, hroot', hx⟩ := Except.bind_ok_iff.mp hx
  obtain ⟨-, rfl⟩ := Prod.mk.inj (Except.ok.inj (hroot.symm.trans hroot'))
  obtain ⟨⟨r₂, s₂'⟩, hwin', hx⟩ := Except.bind_ok_iff.mp hx
  obtain ⟨-, rfl⟩ := Prod.mk.inj (Except.ok.inj (hwin.symm.trans hwin'))
  obtain rfl := Except.ok.inj hx
  obtain ⟨hs₂, hu₂, hw₂, -⟩ := newDir_spec hs hu hd hroot hwin
  have hd₂ := live_of_window hw₂
  have hent := ent_setShared hs₂.distinct hd₂ (.inr rfl)
    (Kernel.baseEntry { k₀ with pmap := s₂ } 4 ||| pteV)
  constructor
  · exact hs₂.setShared hd₂ (.inr rfl) _
  · exact hu₂.of_ent hent
  · exact hd₂
  · apply (newDir_mirrored hs hd hroot hwin).of_ent
    intro x _
    rw [Kernel.setRootEntry, hent]

/-- From `env_setup_vm` on, the window of the env agrees with its tables. -/
theorem self_map_agrees {M : Nat → Prop} {k₀ k₁ : Kernel} {e : EnvIdx} {s : Pmap EnvIdx}
    (hs : Consistent M k₀.pmap) (hu : k₀.pmap.UserApart) (hd : k₀.pmap.pgdir e = 0)
    (hsetup : SetsUp k₀ e k₁) (hrun : Maps MapOp.Counts k₁.pmap s) : SelfMapAgrees s e := by
  have h := (setsUp_viewed hs hu hd hsetup).run hrun
  exact h.mirrored.agrees h.live

/-- A page at `0x400000`, mapped a second time. -/
theorem self_map_agrees_twice : ∃ s, Maps MapOp.Counts firstEnv.pmap s ∧
    s.isMappedPage 0 0x40000000 = true ∧ SelfMapAgrees s 0 := by
  have h₀ : Maps MapOp.Counts firstEnv.pmap firstEnv.pmap := .start
  have h₁ := h₀.alloc 0 0x400000 7 trivial (by decide) (by decide +kernel) (by decide +kernel)
  have h₂ := h₁.map 0 0x40000000 0 0x400000 7 (by show _ < 65535; decide +kernel)
    (by decide) (by decide)
    (by decide +kernel) (by decide +kernel) (by decide +kernel)
  exact ⟨_, h₂, by decide +kernel,
    self_map_agrees noEnv_tended.consistent noEnv_tended.userApart rfl
    firstEnv_setsUp h₂⟩

/-- Env 1 maps one page at all but one of the addresses behind 128 tables. -/
def crowdedMem (t : Nat) (i : Vpn) : Nat :=
  if t = 0x83000 then
    if i = 0 then mkPte (page2pa 0x83001) 0 else if i = 3 then mkPte (page2pa 0x83002) 0 else 0
  else if t = 0x83001 then if i.val < 128 then mkPte (page2pa (0x83100 + i)) 0 else 0
  else if t = 0x83002 then
    if i = 0 then mkPte (page2pa 0x83004) 0 else if i = 3 then mkPte (page2pa 0x83003) 0 else 0
  else if t = 0x83003 then
    if i = 0 then mkPte (page2pa 0x83001) (pteR ||| pteU)
    else if i = 3 then mkPte (page2pa 0x83000) (pteR ||| pteU) else 0
  else if t = 0x83004 then
    if i.val < 128 then mkPte (page2pa (0x83100 + i)) (pteR ||| pteU) else 0
  else if 0x83100 ≤ t ∧ t < 0x83180 then
    if t = 0x8317f ∧ i = 511 then 0 else mkPte (page2pa 0x83005) (pteR ||| pteU)
  else kernelTables t i

def crowded : Pmap EnvIdx where
  mem := crowdedMem
  ppRef p :=
    if p = 0x83005 then 65535 else if p = 0x83000 ∨ p = 0x83001 ∨ (0x83100 ≤ p ∧ p < 0x83180) then 2
    else if 0x83002 ≤ p ∧ p < 0x83005 then 1 else 0
  pageFreeList := List.range' 0x83200 16
  pgdir := fun e => if e = 1 then 0x83000000 else 0


/-- Where the slots of `crowded` point. -/
def crowdedTgt : Slot EnvIdx → Option Nat
  | .root d => if d = 1 then some 0x83000 else none
  | .pte2 d i =>
    if d = 1 ∧ i = 0 then some 0x83001 else if d = 1 ∧ i = 3 then some 0x83002 else none
  | .pte1 d i j =>
    if d = 1 ∧ i = 0 ∧ j.val < 128 then some (0x83100 + j)
    else if d = 1 ∧ i = 3 ∧ j = 0 then some 0x83004
    else if d = 1 ∧ i = 3 ∧ j = 3 then some 0x83003 else none
  | .pte0 d i j k =>
    if d = 1 ∧ i = 0 ∧ j.val < 128 ∧ ¬ (j = 127 ∧ k = 511) then some 0x83005
    else if d = 1 ∧ i = 3 ∧ j = 3 ∧ k = 0 then some 0x83001
    else if d = 1 ∧ i = 3 ∧ j = 3 ∧ k = 3 then some 0x83000
    else if d = 1 ∧ i = 3 ∧ j = 0 ∧ k.val < 128 then some (0x83100 + k) else none

def CrowdedPage (p : Nat) : Prop :=
  (0x83000 ≤ p ∧ p < 0x83006) ∨ (0x83100 ≤ p ∧ p < 0x83180) ∨ (0x83200 ≤ p ∧ p < 0x83210)

theorem entry_page {p perm : Nat} (hp : p < 2 ^ 44) (h : perm < 0x400) :
    (entry (mkPte (page2pa p) perm)).map Prod.fst = some p := by
  rw [entry_mkPte h (by rw [page2pa, Nat.shiftLeft_eq]; omega), page2pa_div]
  rfl


theorem entry_page_ite {p perm : Nat} {c : Prop} [Decidable c] {w : Nat} (hp : p < 2 ^ 44)
    (h : perm < 0x400) :
    (entry (if c then mkPte (page2pa p) perm else w)).map Prod.fst =
      if c then some p else (entry w).map Prod.fst := by
  split
  · exact entry_page hp h
  · rfl

theorem crowded_tgt : crowded.tgt = crowdedTgt := by
  have hroot : ∀ d, crowded.tgt (.root d) = crowdedTgt (.root d) := by
    intro d
    by_cases hd : d = 1
    · subst hd
      rfl
    · simp [tgt, ent, ent.root, crowded, crowdedTgt, hd]
  have h2 : ∀ d i, crowded.tgt (.pte2 d i) = crowdedTgt (.pte2 d i) := by
    intro d i
    by_cases hi : shared i
    · have hnone : crowded.ent (.pte2 d i) = none := ent_child_leaves (x := .root d) crowded hi
      rw [tgt, hnone]
      rcases hi with rfl | rfl <;> simp [crowdedTgt]
    · refine (tgt_child (x := .root d) crowded trivial hi).trans ?_
      rw [hroot]
      by_cases hd : d = 1
      · simp [crowdedTgt, hd, crowded, crowdedMem, entry_page_ite, pteR, pteU]
      · simp [crowdedTgt, hd]
  have h1 : ∀ d i j, crowded.tgt (.pte1 d i j) = crowdedTgt (.pte1 d i j) := by
    intro d i j
    refine (tgt_child (x := .pte2 d i) crowded trivial id).trans ?_
    rw [h2]
    by_cases hd : d = 1 ∧ i = 0
    · have hp : 0x83100 + j.val < 2 ^ 44 := by omega
      simp [crowdedTgt, hd, crowded, crowdedMem, entry_page_ite hp]
    · by_cases hd' : d = 1 ∧ i = 3
      · simp [crowdedTgt, hd', crowded, crowdedMem, entry_page_ite]
      · simp [crowdedTgt, hd, hd', ← and_assoc]
  have h0 : ∀ d i j k, crowded.tgt (.pte0 d i j k) = crowdedTgt (.pte0 d i j k) := by
    intro d i j k
    refine (tgt_child (x := .pte1 d i j) crowded trivial id).trans ?_
    rw [h1]
    by_cases hd : d = 1 ∧ i = 0 ∧ j.val < 128
    · have hne : ∀ n, n < 0x83100 → 0x83100 + j.val ≠ n := by omega
      have hlast : 0x83100 + j.val = 0x8317f ↔ j = 127 := by
        rw [Fin.ext_iff]; show _ ↔ j.val = 127; omega
      have hin : 0x83100 + j.val < 0x83180 := by omega
      by_cases hk : j = 127 ∧ k = 511
      · simp [crowdedTgt, hk, crowded, crowdedMem]
      · have hmem : crowdedMem (0x83100 + j) k = mkPte (page2pa 0x83005) (pteR ||| pteU) := by
          rw [crowdedMem, if_neg (by omega), if_neg (by omega), if_neg (by omega),
            if_neg (by omega), if_neg (by omega), if_pos (by omega), if_neg (by rwa [hlast])]
        have hpage : (entry (crowded.mem (0x83100 + j) k)).map Prod.fst = some 0x83005 := by
          rw [show crowded.mem = crowdedMem from rfl, hmem]
          exact entry_page (by decide) (by decide)
        simpa [crowdedTgt, hd, hk] using hpage
    · by_cases h33 : d = 1 ∧ i = 3 ∧ j = 3
      · simp [crowdedTgt, h33, crowded, crowdedMem, entry_page_ite, pteR, pteU]
      · by_cases h30 : d = 1 ∧ i = 3 ∧ j = 0
        · have hp : 0x83100 + k.val < 2 ^ 44 := by omega
          simp [crowdedTgt, h30, crowded, crowdedMem, entry_page_ite hp, pteR, pteU]
        · simp [crowdedTgt, hd, h33, h30, ← and_assoc]
  funext x
  cases x with
  | root d => exact hroot d
  | pte2 d i => exact h2 d i
  | pte1 d i j => exact h1 d i j
  | pte0 d i j k => exact h0 d i j k

def crowdedSlots : Finset (Slot EnvIdx) :=
  (Finset.univ.erase ((127 : Fin 128), (511 : Vpn))).image fun q =>
    .pte0 1 0 (q.1.castLE (by decide)) q.2

theorem crowdedSlots_card : crowdedSlots.card = 65535 := by
  rw [crowdedSlots, Finset.card_image_of_injective, Finset.card_erase_of_mem (Finset.mem_univ _),
    Finset.card_univ, Fintype.card_prod, Fintype.card_fin, Fintype.card_fin]
  · rintro ⟨i, j⟩ ⟨i', j'⟩ h
    simpa using h

theorem mem_crowdedSlots (x : Slot EnvIdx) : crowdedTgt x = some 0x83005 ↔ x ∈ crowdedSlots := by
  simp only [crowdedSlots, Finset.mem_image, Finset.mem_erase, Finset.mem_univ,
    and_true, Prod.exists]
  cases x with
  | root d => simp [crowdedTgt]
  | pte2 d i => simp [crowdedTgt]; grind
  | pte1 d i j =>
    simp [crowdedTgt]
    grind
  | pte0 d i j k =>
    simp only [crowdedTgt]
    constructor
    · intro h
      have hd : d = 1 ∧ i = 0 ∧ j.val < 128 ∧ ¬ (j = 127 ∧ k = 511) := by
        split_ifs at h
        · assumption
        · simp at h
        · simp at h
        · simp at h; omega
      refine ⟨⟨j, hd.2.2.1⟩, k, ?_, ?_⟩
      · intro h
        obtain ⟨h1, h2⟩ := Prod.mk.inj h
        refine hd.2.2.2 ⟨?_, h2⟩
        rw [Fin.ext_iff] at h1 ⊢
        exact h1
      · obtain ⟨rfl, rfl, -⟩ := hd
        rfl
    · rintro ⟨a, b, hne, h⟩
      obtain ⟨rfl, rfl, rfl, rfl⟩ := Slot.pte0.inj h
      rw [if_pos]
      refine ⟨rfl, rfl, a.isLt, ?_⟩
      rintro ⟨ha, rfl⟩
      apply hne
      rw [Fin.ext_iff] at ha
      exact Prod.ext (Fin.ext ha) rfl

theorem crowded_count {p : Nat} (hp : CrowdedPage p) :
    crowded.ppRef p = RefCount.refs crowdedTgt p := by
  by_cases h5 : p = 0x83005
  · subst h5
    rw [RefCount.refs_eq_card crowdedSlots mem_crowdedSlots, crowdedSlots_card]
    rfl
  rcases hp with hp | hp | hp
  · have : p = 0x83000 ∨ p = 0x83001 ∨ p = 0x83002 ∨ p = 0x83003 ∨ p = 0x83004 := by omega
    rcases this with rfl | rfl | rfl | rfl | rfl
    · rw [RefCount.refs_eq_card {.root 1, .pte0 1 3 3 3}]
      · rfl
      · intro x
        cases x <;> simp [crowdedTgt] <;> grind
    · rw [RefCount.refs_eq_card {.pte2 1 0, .pte0 1 3 3 0}]
      · rfl
      · intro x
        cases x <;> simp [crowdedTgt] <;> grind
    · rw [RefCount.refs_eq_card {.pte2 1 3}]
      · rfl
      · intro x
        cases x <;> simp [crowdedTgt] <;> grind
    · rw [RefCount.refs_eq_card {.pte1 1 3 3}]
      · rfl
      · intro x
        cases x <;> simp [crowdedTgt] <;> grind
    · rw [RefCount.refs_eq_card {.pte1 1 3 0}]
      · rfl
      · intro x
        cases x <;> simp [crowdedTgt] <;> grind
  · obtain ⟨j, hj, rfl⟩ : ∃ j, j < 128 ∧ p = 0x83100 + j := ⟨p - 0x83100, by omega, by omega⟩
    rw [RefCount.refs_eq_card {.pte1 1 0 ⟨j, by omega⟩, .pte0 1 3 0 ⟨j, by omega⟩}]
    · rw [Finset.card_pair (by simp)]
      simp only [crowded]
      rw [if_neg (by omega), if_pos (by omega)]
    · intro x
      cases x <;> simp [crowdedTgt] <;> grind
  · rw [RefCount.refs_eq_card ∅]
    · simp only [crowded]
      rw [if_neg (by omega), if_neg (by omega), if_neg (by omega), Finset.card_empty]
    · intro x
      cases x <;> simp [crowdedTgt] <;> grind

theorem crowded_consistent : Consistent CrowdedPage crowded := by
  constructor
  · rw [crowded_tgt]
    constructor
    · intro p hp
      exact crowded_count hp
    · intro p hp
      simp only [crowded, List.mem_range'_1]
      unfold CrowdedPage at hp
      split_ifs <;> simp <;> omega
    · exact List.nodup_range'
    · intro p hp
      simp only [crowded, List.mem_range'_1] at hp
      exact .inr (.inr hp)
    · intro x p hx
      unfold CrowdedPage
      cases x <;> simp only [crowdedTgt] at hx <;> split_ifs at hx <;> simp at hx <;> omega
  · intro p hp
    simp only [crowded]
    split_ifs <;> omega
  · intro x y p hx hy hxp hyp
    rw [crowded_tgt] at hxp hyp
    cases x <;> cases y <;> simp [Slot.IsTable] at hx hy <;> simp [crowdedTgt] at hxp hyp <;> grind
  · intro d
    simp only [crowded]
    split <;> rfl
  · intro p hp
    unfold CrowdedPage at hp
    unfold inRam
    omega

theorem crowded_userApart : crowded.UserApart := by
  intro d va hva p hp
  have h3 := vpn2_ne_three_of_user hva
  rintro ⟨x, hx, hxp⟩
  rw [crowded_tgt] at hp hxp
  have hp5 : p = 0x83005 := by
    simp [crowdedTgt, h3] at hp
    exact hp.2.symm
  subst hp5
  cases x <;> simp [Slot.IsTable] at hx <;> simp [crowdedTgt] at hxp <;> grind

/-- Env 1 maps one page at 65535 addresses. -/
def crowdedKernel : Kernel := envInit crowded 0x80300000

def crowdedDir : Pmap EnvIdx := (Call.allocPgdir 0).after crowded

def crowdedWindow : Pmap EnvIdx :=
  (Call.mapPage 0 rootWindow (crowdedDir.pgdir 0) (pteR ||| pteU)).after crowdedDir

/-- Env 0 beside it, after `env_setup_vm`. -/
def newcomer : Kernel :=
  Kernel.setRootEntry { crowdedKernel with pmap := crowdedWindow } 0 4
    (Kernel.baseEntry { crowdedKernel with pmap := crowdedWindow } 4 ||| pteV)

theorem newcomer_setsUp : SetsUp crowdedKernel 0 newcomer := by
  have hroot : crowdedKernel.pmap.allocPgdir 0 = .ok (0, crowdedDir) :=
    Call.run_after (s := crowded) (c := .allocPgdir 0) (by decide +kernel)
  have hwin : crowdedDir.mapPage 0 rootWindow (crowdedDir.pgdir 0) (pteR ||| pteU) =
      .ok (0, crowdedWindow) :=
    Call.run_after (c := .mapPage 0 rootWindow (crowdedDir.pgdir 0) (pteR ||| pteU))
      (by decide +kernel)
  exact ⟨Except.bind_ok_iff.mpr ⟨_, hroot, Except.bind_ok_iff.mpr ⟨_, hwin, rfl⟩⟩,
    _, _, hroot, hwin⟩

/-- Two more references wrap the count, and the page is freed while it is
mapped. It becomes a table of the window, is freed a second time, and is then
given out as a zeroed page. -/
theorem self_map_loses_table :
    Consistent CrowdedPage crowdedKernel.pmap ∧ crowdedKernel.pmap.UserApart ∧
    crowdedKernel.pmap.pgdir 0 = 0 ∧ SetsUp crowdedKernel 0 newcomer ∧
    ∃ s, Maps (fun _ _ => True) newcomer.pmap s ∧ ¬ SelfMapAgrees s 0 := by
  refine ⟨crowded_consistent, crowded_userApart, rfl, newcomer_setsUp, ?_⟩
  have h₀ : Maps (fun _ _ => True) newcomer.pmap newcomer.pmap := .start
  have h₁ := h₀.alloc 0 0x0000 7 trivial (by decide) (by decide +kernel) (by decide +kernel)
  have h₂ := h₁.alloc 0 0x1000 7 trivial (by decide) (by decide +kernel) (by decide +kernel)
  have h₃ := h₂.map 0 0x2000 1 0 7 trivial (by decide) (by decide) (by decide +kernel)
    (by decide +kernel)
    (by decide +kernel)
  have h₄ := h₃.map 0 0x3000 1 0 7 trivial (by decide) (by decide) (by decide +kernel)
    (by decide +kernel)
    (by decide +kernel)
  have h₅ := h₄.unmap 0 0x2000 trivial (by decide) (by decide +kernel)
  have h₆ := h₅.unmap 0 0x0000 trivial (by decide) (by decide +kernel)
  have h₇ := h₆.unmap 0 0x1000 trivial (by decide) (by decide +kernel)
  have h₈ := h₇.alloc 0 0x40000000 7 trivial (by decide) (by decide +kernel) (by decide +kernel)
  have h₉ := h₈.unmap 0 0x3000 trivial (by decide) (by decide +kernel)
  have h₁₀ := h₉.alloc 0 0x4000 7 trivial (by decide) (by decide +kernel) (by decide +kernel)
  refine ⟨_, h₁₀, fun h => ?_⟩
  exact absurd (h.pte0 0x40000000 (by decide) (by decide +kernel) (by decide +kernel))
    (by decide +kernel)

end RiscvMos.Kernel
