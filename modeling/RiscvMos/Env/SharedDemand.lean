import RiscvMos.Env.Translation

/-!
Demand paging behind the shared root entries. Every env can have a page mapped
there, for all envs: one free page is enough where the level-0 table exists,
and the new table and its self-map take the rest.
-/

namespace RiscvMos.Pmap

variable {D : Type} [DecidableEq D]

section
variable [Fintype D] {M K1 K0 : Nat → Prop} {s s' : Pmap D} {d : D} {va : Nat}

/-- The free pages a demand-zero page at `va` takes, where only the level-0
table may be missing. -/
def demandNeeded (s : Pmap D) (d : D) (va : Nat) : Nat :=
  if s.missing d va = 0 then 1 else s.tableNeeded d (selfVa0 va)

omit [DecidableEq D] [Fintype D] in
theorem allocLeaf_nil {t0 perm : Nat} (h : s.pageFreeList = []) :
    allocLeaf va perm s t0 = .ok (-eNoMem, s) := by
  simp [allocLeaf, allocEntry, pageAlloc, h]

omit [DecidableEq D] [Fintype D] in
theorem allocLeaf_cons (va t0 perm : Nat) {q : Nat} {rest : List Nat}
    (h : s.pageFreeList = q :: rest) :
    ∃ s', allocLeaf va perm s t0 = .ok (0, s') ∧ s'.pgdir = s.pgdir ∧
      s'.mem = ((s.writePage q fun _ => 0).setPte t0 (vpn0 va) (mkPte (page2pa q) perm)).mem := by
  simp only [allocLeaf, allocEntry, pageAlloc, h]
  exact ⟨_, rfl, rfl, rfl⟩

omit [DecidableEq D] [Fintype D] in
/-- A new page behind a shared root entry is one user code gains. -/
theorem demand_gained (hd : s'.pgdir d ≠ 0) (hv : shared (vpn2 va))
    (hm : s.isMappedPage d va = false) {q : Nat} (hlt : page2pa q < 2 ^ 56)
    (hleaf : s'.leafPte (s'.pgdir d >>> 12) va = some (mkPte (page2pa q) demandPerm)) :
    ¬ TranslationsKept s s' d va := by
  intro hkept
  have hm' : s'.isMappedPage d va = true := isMappedPage_leafPte.mpr ⟨hd, by rw [hleaf]; rfl⟩
  have hu : s'.getPerm d va &&& pteU ≠ 0 := by
    rw [getPerm_of_leafPte hleaf, pte2perm_and _ (by decide), (Prod.mk.inj (userPage_demand hlt)).2]
    decide
  have := (hkept.noUser d va hv hm' hu).1
  rw [hm] at this
  cases this

omit [DecidableEq D] [Fintype D] in
/-- `s` with a new, empty level-0 table `q` in entry `j` of `t1`. -/
theorem leafPte_newTable (hk : KernelHalf M K1 K0 s) {q t1 w : Nat} {j : Vpn} (hM : M q)
    (hroot : s.pgdir d >>> 12 ≠ q) (hrM : M (s.pgdir d >>> 12)) (ht1 : K1 t1)
    (hnone : ¬ valid (s.mem t1 j)) (hw : ptePage w = q) (hd : s.pgdir d ≠ 0)
    (hv : shared (vpn2 va)) :
    ((s.writePage q fun _ => 0).setPte t1 j w).leafPte (s.pgdir d >>> 12) va =
      s.leafPte (s.pgdir d >>> 12) va := by
  have h1q : ∀ t, K1 t → t ≠ q := by
    rintro t ht rfl
    exact hk.own1 t ht hM
  have h0q : ∀ t, K0 t → t ≠ q := by
    rintro t ht rfl
    exact hk.own0 t ht hM
  have hmem : ∀ t, t ≠ q → t ≠ t1 → ((s.writePage q fun _ => 0).setPte t1 j w).mem t = s.mem t := by
    intro t htq ht
    rw [setPte_mem_of_ne _ _ _ ht]
    simp [writePage, htq]
  have hroot1 : s.pgdir d >>> 12 ≠ t1 := by
    intro h
    rw [h] at hrM
    exact hk.own1 t1 ht1 hrM
  have hrm := hmem _ hroot hroot1
  have hqm : ((s.writePage q fun _ => 0).setPte t1 j w).mem q = fun _ => 0 := by
    rw [setPte_mem_of_ne _ _ _ (h1q t1 ht1).symm]
    simp [writePage]
  have h1m : ∀ k, ((s.writePage q fun _ => 0).setPte t1 j w).mem t1 k =
      if k = j then w else s.mem t1 k := by
    intro k
    rw [setPte_mem]
    by_cases hk : k = j <;> simp [hk, writePage, h1q t1 ht1]
  rcases hk.walk_cases hd hv with ⟨hv2, -⟩ | ⟨t, hv2, ht, hKt, hrest⟩
  · simp only [leafPte, walk, hrm, hv2, if_false]
  by_cases hslot : t = t1 ∧ vpn1 va = j
  · -- the new table is on the way, and there was none before
    obtain ⟨rfl, rfl⟩ := hslot
    have hbefore : s.leafPte (s.pgdir d >>> 12) va = none := by
      simp only [leafPte, walk, hv2, if_true, ht, hnone, if_false]
    rw [hbefore]
    by_cases hvw : valid w
    · simp only [leafPte, walk, hrm, hv2, if_true, ht, h1m, hvw, hw, hqm, not_valid_zero, if_false]
    · simp only [leafPte, walk, hrm, hv2, if_true, ht, h1m, hvw, if_false]
  · have hword : ((s.writePage q fun _ => 0).setPte t1 j w).mem t (vpn1 va) =
        s.mem t (vpn1 va) := by
      by_cases htt : t = t1
      · subst htt
        rw [h1m, if_neg fun h => hslot ⟨rfl, h⟩]
      · rw [hmem t (h1q t hKt) htt]
    rcases hrest with ⟨hv1, -⟩ | ⟨t0, hv1, ht0, hKt0, -⟩
    · simp only [leafPte, walk, hrm, hv2, if_true, ht, hword, hv1, if_false]
    · have hne : t0 ≠ t1 := by
        rintro rfl
        exact hk.levels t0 ht1 hKt0
      simp only [leafPte, walk, hrm, hv2, if_true, ht, hword, hv1, ht0, hmem t0 (h0q t0 hKt0) hne]

omit [DecidableEq D] in
/-- A page that became a table of the kernel half is no longer one of the
counted ones. -/
theorem allocEntry_kernel (hs : Consistent M s) {t1 q : Nat} {j : Vpn} (ht1 : ¬ M t1)
    (h : s.allocEntry t1 j 0 = some (q, s')) :
    s.pageFreeList = q :: s'.pageFreeList ∧ s'.pgdir = s.pgdir ∧
    s'.mem = ((s.writePage q fun _ => 0).setPte t1 j (mkPte (page2pa q) 0)).mem ∧
    (∀ p, p ≠ q → s'.ppRef p = s.ppRef p) ∧ s'.ent = s.ent ∧
    Consistent (fun p => M p ∧ p ≠ q) s' := by
  unfold allocEntry pageAlloc at h
  cases hl : s.pageFreeList with
  | nil => simp [hl] at h
  | cons pp rest =>
    simp only [hl, Option.some_inj, Prod.mk.injEq] at h
    obtain ⟨rfl, rfl⟩ := h
    have hmem : pp ∈ s.pageFreeList := by rw [hl]; exact List.mem_cons_self
    have hnot := hs.counted.tgt_ne_of_free hmem
    have href : ∀ p, p ≠ pp → Function.update s.ppRef pp ((s.ppRef pp + 1) % 65536) p = s.ppRef p :=
      fun p hp => Function.update_of_ne hp _ _
    have hent : ((({ s with pageFreeList := rest, mem := Function.update s.mem pp fun _ => 0 } :
        Pmap D).setPte t1 j (mkPte (page2pa pp) 0)).incRef pp).ent = s.ent := by
      refine ent_congr rfl fun x t _ ht => ?_
      have htp : t ≠ pp := by
        rintro rfl
        exact hnot x ht
      have htt : t ≠ t1 := by
        rintro rfl
        exact ht1 (hs.mem_of_tgt ht)
      simp [incRef, setPte, htt, htp]
    refine ⟨rfl, rfl, rfl, href, hent, ⟨?_, ?_, ?_, hs.aligned, fun p hp => hs.ram p hp.1⟩⟩
    · have hc := hs.counted
      have hnd := hc.nodup
      rw [hl] at hnd
      refine ⟨fun p hp => ?_, fun p hp => ?_, (List.nodup_cons.mp hnd).2, fun p hp => ?_,
        fun x p hx => ?_⟩
      · refine (href p hp.2).trans ?_
        rw [tgt_eq_of_ent hent]
        exact hc.count p hp.1
      · have := hc.free_iff p hp.1
        rw [hl, List.mem_cons, or_iff_right hp.2] at this
        show p ∈ rest ↔ _
        rw [this]
        exact (Eq.congr_left (href p hp.2)).symm
      · refine ⟨hc.free_sub p (by rw [hl]; exact List.mem_cons_of_mem _ hp), ?_⟩
        rintro rfl
        exact (List.nodup_cons.mp hnd).1 hp
      · rw [tgt_eq_of_ent hent] at hx
        refine ⟨hc.tgt_sub x p hx, ?_⟩
        rintro rfl
        exact hnot x hx
    · intro p hp
      exact lt_of_eq_of_lt (href p hp.2) (hs.small p hp.1)
    · exact distinct_of_ent hs.distinct hent

omit [DecidableEq D] [Fintype D] in
theorem KernelHalf.newTable (hk : KernelHalf M K1 K0 s) {t1 q w : Nat} {j : Vpn} (hq : M q)
    (hroot : ∀ d, s.pgdir d ≠ 0 → M (s.pgdir d >>> 12) ∧ s.pgdir d >>> 12 ≠ q) (ht1 : K1 t1)
    (hw : ptePage w = q) (hpg : s'.pgdir = s.pgdir)
    (hmem : s'.mem = ((s.writePage q fun _ => 0).setPte t1 j w).mem) :
    KernelHalf (fun p => M p ∧ p ≠ q) K1 (fun t => K0 t ∨ t = q) s' := by
  have h1q : ∀ t, K1 t → t ≠ q := by
    rintro t ht rfl
    exact hk.own1 t ht hq
  have h0q : ∀ t, K0 t → t ≠ q := by
    rintro t ht rfl
    exact hk.own0 t ht hq
  have hother : ∀ t, t ≠ q → t ≠ t1 → s'.mem t = s.mem t := by
    intro t htq ht
    rw [hmem, setPte_mem_of_ne _ _ _ ht]
    simp [writePage, htq]
  constructor
  · intro d i hd hi hv
    rw [hpg] at hd hv ⊢
    obtain ⟨hM, hrq⟩ := hroot d hd
    have hr1 : s.pgdir d >>> 12 ≠ t1 := by
      intro h
      rw [h] at hM
      exact hk.own1 t1 ht1 hM
    rw [hother _ hrq hr1] at hv ⊢
    exact hk.table1 d i hd hi hv
  · intro t k ht hv
    by_cases hslot : t = t1 ∧ k = j
    · right
      rw [hmem, setPte_mem, if_pos hslot]
      exact hw
    · left
      have hword : s'.mem t k = s.mem t k := by
        rw [hmem, setPte_mem, if_neg hslot]
        simp [writePage, h1q t ht]
      rw [hword] at hv ⊢
      exact hk.table0 t k ht hv
  · intro t i ht hv hu
    rcases ht with ht | rfl
    · have hne : t ≠ t1 := by
        rintro rfl
        exact hk.levels t ht1 ht
      rw [hother t (h0q t ht) hne] at hv hu ⊢
      obtain ⟨hM, h1, h0⟩ := hk.user t i ht hv hu
      refine ⟨fun h => hM h.1, h1, ?_⟩
      rintro (h | h)
      · exact h0 h
      · rw [h] at hM
        exact hM hq
    · -- the new table is empty
      rw [hmem, setPte_mem_of_ne _ _ _ (h1q t1 ht1).symm] at hv
      simp [writePage] at hv
  · rintro t ht (h | rfl)
    · exact hk.levels t ht h
    · exact h1q t ht rfl
  · intro t ht h
    exact hk.own1 t ht h.1
  · rintro t (ht | rfl) h
    · exact hk.own0 t ht h.1
    · exact h.2 rfl

omit [DecidableEq D] in
/-- The tables on the way to a shared address that is not mapped. -/
theorem FaultReady.sharedPath (hr : FaultReady M K1 K0 s d) (hv : shared (vpn2 va))
    (hm : s.isMappedPage d va = false) :
    ∃ t1, ptePage (s.mem (s.pgdir d >>> 12) (vpn2 va)) = t1 ∧ K1 t1 ∧
      ((s.missing d va ≠ 0 ∧ ¬ valid (s.mem t1 (vpn1 va)) ∧
        s.walk (s.pgdir d >>> 12) va = .noPte0 t1) ∨
      ∃ t0, s.missing d va = 0 ∧ valid (s.mem t1 (vpn1 va)) ∧ ptePage (s.mem t1 (vpn1 va)) = t0 ∧
        K0 t0 ∧ s.walk (s.pgdir d >>> 12) va = .pte0 t0 ∧ ¬ valid (s.mem t0 (vpn0 va))) := by
  rcases hr.kernel.walk_cases hr.live hv with ⟨hn, -⟩ | ⟨t1, -, ht1, hK1, hrest⟩
  · exact absurd (hr.entries _ hv) hn
  refine ⟨t1, ht1, hK1, ?_⟩
  rcases hrest with ⟨hn, hw⟩ | ⟨t0, hv1, ht0, hK0, hw⟩
  · left
    exact ⟨by simp [missing, hr.live, hw], hn, hw⟩
  · right
    refine ⟨t0, by simp [missing, hr.live, hw], hv1, ht0, hK0, hw, ?_⟩
    simpa [isMappedPage, hr.live, hw] using hm

/-- The level-0 table is there: one free page, and user code has it. -/
theorem shared_kept_iff_of_table (hr : FaultReady M K1 K0 s d) (hv : shared (vpn2 va))
    (hm : s.isMappedPage d va = false) {t1 t0 : Nat}
    (ht1 : ptePage (s.mem (s.pgdir d >>> 12) (vpn2 va)) = t1) (hK1 : K1 t1)
    (hv1 : valid (s.mem t1 (vpn1 va))) (ht0 : ptePage (s.mem t1 (vpn1 va)) = t0) (hK0 : K0 t0)
    (hw : s.walk (s.pgdir d >>> 12) va = .pte0 t0) (hv0 : ¬ valid (s.mem t0 (vpn0 va))) :
    (∀ r s', s.allocPageUser d va demandPerm = .ok (r, s') → TranslationsKept s s' d va) ↔
      s.pageFreeList.length < 1 := by
  have hcall : s.allocPageUser d va demandPerm = allocLeaf va demandPerm s t0 := by
    rw [allocPageUser, if_neg (Nat.not_le.mpr demandPerm_lt), descend, if_neg hr.live, hw]
    simp only [replaceLeaf, if_neg hv0]
  rw [hcall]
  cases hl : s.pageFreeList with
  | nil =>
    refine iff_of_true (fun r s' h => ?_) (by simp)
    rw [allocLeaf_nil hl] at h
    obtain ⟨-, rfl⟩ := Prod.mk.inj (Except.ok.inj h)
    exact translationsKept_of_mem rfl rfl
  | cons q rest =>
    refine iff_of_false (fun hall => ?_) (by simp)
    obtain ⟨s', h, hpg, hmem⟩ := allocLeaf_cons va t0 demandPerm hl
    have hfree : q ∈ s.pageFreeList := by rw [hl]; exact List.mem_cons_self
    have hM := hr.consistent.counted.free_sub q hfree
    have hroot : s.tgt (.root d) = some (s.pgdir d >>> 12) := by simp [tgt, ent, ent.root, hr.live]
    have hrM := hr.consistent.mem_of_tgt hroot
    refine demand_gained (q := q) (hpg ▸ hr.live) hv hm
      (hr.consistent.lt_of_mem hM) ?_ (hall 0 s' h)
    rw [leafPte_of_mem hmem, hpg, leafPte_replaced (hr.entries _ hv) ht1 hv1 ht0 ?_ ?_
      (valid_mkPte _ _), if_neg]
    · rintro (h | h)
      · exact hr.consistent.counted.tgt_ne_of_free hfree _ (h ▸ hroot)
      · exact hr.kernel.own1 t1 hK1 (h ▸ hM)
    · rintro rfl
      exact hr.kernel.own0 _ hK0 hrM
    · rintro rfl
      exact hr.kernel.levels _ hK1 hK0

/-- `s₂` is `s` with a new level-0 table `q` for `va` under `t1`, and its
self-map done. -/
structure TableMade (M : Nat → Prop) (s : Pmap D) (d : D) (va t1 q : Nat) (s₂ : Pmap D) : Prop where
  roots : SameRoots s s₂
  leaf : ∀ d' va', s.pgdir d' ≠ 0 → shared (vpn2 va') →
    s₂.leafPte (s.pgdir d' >>> 12) va' = s.leafPte (s.pgdir d' >>> 12) va'
  pte2 : s₂.mem (s.pgdir d >>> 12) (vpn2 va) = s.mem (s.pgdir d >>> 12) (vpn2 va)
  pte1 : s₂.mem t1 (vpn1 va) = mkPte (page2pa q) 0
  freed : ∀ x ∈ s₂.pageFreeList, M x ∧ x ≠ q ∧ x ≠ s.pgdir d >>> 12
  supply : 1 ≤ s₂.pageFreeList.length ↔ s.tableNeeded d (selfVa0 va) ≤ s.pageFreeList.length

theorem makeTable (hr : FaultReady M K1 K0 s d) (hva : va < 2 ^ 39) {t1 q : Nat} {rest : List Nat}
    (hK1 : K1 t1) (hv1 : ¬ valid (s.mem t1 (vpn1 va))) (hv : shared (vpn2 va))
    (hl : s.pageFreeList = q :: rest) :
    ∃ s₂, createPte0 (selfMap d) (allocLeaf va demandPerm) s t1 va = allocLeaf va demandPerm s₂ q ∧
      TableMade M s d va t1 q s₂ := by
  obtain ⟨s₁, ha, hrest⟩ := allocEntry_cons t1 (vpn1 va) 0 hl
  obtain ⟨-, hpg₁, hmem₁, href₁, hent₁, hs₁⟩ :=
    allocEntry_kernel hr.consistent (hr.kernel.own1 t1 hK1) ha
  have hqf : q ∈ s.pageFreeList := by rw [hl]; exact List.mem_cons_self
  have hM := hr.consistent.counted.free_sub q hqf
  have hwq : ptePage (mkPte (page2pa q) 0) = q := by
    rw [ptePage_mkPte (by decide) (hr.consistent.lt_of_mem hM), page2pa_div]
  have hroot : ∀ d', s.pgdir d' ≠ 0 → s.tgt (.root d') = some (s.pgdir d' >>> 12) := by
    intro d' hd'
    simp [tgt, ent, ent.root, hd']
  have hrootM : ∀ d', s.pgdir d' ≠ 0 → M (s.pgdir d' >>> 12) ∧ s.pgdir d' >>> 12 ≠ q := by
    intro d' hd'
    refine ⟨hr.consistent.mem_of_tgt (hroot d' hd'), ?_⟩
    intro h
    exact hr.consistent.counted.tgt_ne_of_free hqf _ (h ▸ hroot d' hd')
  have hk₁ := hr.kernel.newTable hM hrootM hK1 hwq hpg₁ hmem₁
  have hwin := selfVa0_inWindow hva
  have hvw : ¬ shared (vpn2 (selfVa0 va)) := by rw [hwin.vpn2_eq]; decide
  obtain ⟨r₂, s₂, hmap, hself, hlen, hfrom⟩ := selfMap_free (d := d) hs₁ hwin (vpn0 va)
    (hr.consistent.ram q hM)
  obtain ⟨hf, -⟩ := mapPage_spec hs₁ hwin.lt hvw hmap
  have hd₁ : ∀ d', s.pgdir d' ≠ 0 → s₁.pgdir d' ≠ 0 := fun d' hd' => hpg₁ ▸ hd'
  have hroots : SameRoots s₁ s₂ := by
    refine sameRoots_of_frame hf fun d' hd' => hd₁ d' ?_
    have : d' = d := by simpa [OnPath, leafSlot] using hd'
    rw [this]
    exact hr.live
  have ht1q : t1 ≠ q := by
    rintro rfl
    exact hr.kernel.own1 t1 hK1 hM
  refine ⟨s₂, ?_, ?_, fun d' va' hd' hv' => ?_, ?_, ?_, fun x hx => ?_, ?_⟩
  · simp only [createPte0, ha]
    exact congrArg (fun m => m >>= fun s => allocLeaf va demandPerm s q) hself
  · intro d'
    rw [(hroots d').2, (hroots d').1, hpg₁]
    exact ⟨Iff.rfl, rfl⟩
  · have h₂ := hk₁.leafPte_frame hf (hd₁ d' hd') hv'
    rw [hpg₁] at h₂
    rw [h₂, leafPte_of_mem hmem₁]
    exact leafPte_newTable hr.kernel hM (hrootM d' hd').2 (hrootM d' hd').1 hK1 hv1 hwq hd' hv'
  · rw [hf.sharedEntry d _ _ (by rw [tgt_eq_of_ent hent₁]; exact hroot d hr.live) hv, hmem₁,
      setPte_mem_of_ne _ _ _ ?_]
    · simp [writePage, (hrootM d hr.live).2]
    · intro h
      have := (hrootM d hr.live).1
      rw [h] at this
      exact hr.kernel.own1 t1 hK1 this
  · rw [hf.kernel t1 fun h => hr.kernel.own1 t1 hK1 h.1, hmem₁, setPte_mem, if_pos ⟨rfl, rfl⟩]
  · have hroot₁ : s₁.tgt (.root d) = some (s.pgdir d >>> 12) := by
      rw [tgt_eq_of_ent hent₁]
      exact hroot d hr.live
    rcases hfrom x hx with hx₁ | ⟨htgt, h1⟩
    · refine ⟨(hs₁.counted.free_sub x hx₁).1, (hs₁.counted.free_sub x hx₁).2, ?_⟩
      rintro rfl
      exact hs₁.counted.tgt_ne_of_free hx₁ _ hroot₁
    · have hMx := hs₁.mem_of_tgt htgt
      refine ⟨hMx.1, hMx.2, ?_⟩
      rintro rfl
      rw [hs₁.counted.count _ hMx] at h1
      cases RefCount.eq_of_refs_one h1 htgt hroot₁
  · rw [hlen]
    refine freeAfter_pos_iff hvw hl hrest ?_ ?_ (fun p perm hp => ?_) (pteAddr_div q _)
    · rw [missing_eq _ _ hvw, missing_eq _ _ hvw, hent₁]
    · rw [view, view, hent₁]
    · have hpq : p ≠ q := by
        rintro rfl
        exact hr.consistent.counted.tgt_ne_of_free hqf _ (tgt_eq_some.mpr ⟨perm, hp⟩)
      exact ⟨hpq, href₁ p hpq⟩

/-- The level-0 table has to be made: whether a page is left for the leaf
depends on what the self-map of the table takes. -/
theorem shared_kept_iff_of_noTable (hr : FaultReady M K1 K0 s d) (hva : va < 2 ^ 39)
    (hv : shared (vpn2 va)) (hm : s.isMappedPage d va = false) {t1 : Nat}
    (ht1 : ptePage (s.mem (s.pgdir d >>> 12) (vpn2 va)) = t1) (hK1 : K1 t1)
    (hv1 : ¬ valid (s.mem t1 (vpn1 va))) (hw : s.walk (s.pgdir d >>> 12) va = .noPte0 t1) :
    (∀ r s', s.allocPageUser d va demandPerm = .ok (r, s') → TranslationsKept s s' d va) ↔
      s.pageFreeList.length < s.tableNeeded d (selfVa0 va) := by
  have hcall : s.allocPageUser d va demandPerm =
      createPte0 (selfMap d) (allocLeaf va demandPerm) s t1 va := by
    rw [allocPageUser, if_neg (Nat.not_le.mpr demandPerm_lt), descend, if_neg hr.live, hw]
  rw [hcall]
  cases hl : s.pageFreeList with
  | nil =>
    have := s.tableNeeded_pos d (selfVa0 va)
    refine iff_of_true (fun r s' h => ?_) (by simp only [List.length_nil]; omega)
    rw [createPte0, allocEntry_nil _ _ _ hl] at h
    obtain ⟨-, rfl⟩ := Prod.mk.inj (Except.ok.inj h)
    exact translationsKept_of_mem rfl rfl
  | cons q rest =>
    obtain ⟨s₂, hrun, hmade⟩ := makeTable hr hva hK1 hv1 hv hl
    have hsupply := hmade.supply
    rw [hrun, ← hl, ← Nat.not_le, ← hsupply]
    cases hl₂ : s₂.pageFreeList with
    | nil =>
      refine iff_of_true (fun r s' h => ?_) (by simp)
      rw [allocLeaf_nil hl₂] at h
      obtain ⟨-, rfl⟩ := Prod.mk.inj (Except.ok.inj h)
      refine translationsKept_of_leafPte hmade.roots (fun hm' => ?_) fun d' va' hd' hv' => ?_
      · rw [hm] at hm'
        cases hm'
      · rw [hmade.leaf d' va' hd' hv']
    | cons q₂ rest₂ =>
      refine iff_of_false (fun hall => ?_) (by simp)
      obtain ⟨s', h, hpg, hmem⟩ := allocLeaf_cons va q demandPerm hl₂
      obtain ⟨hM₂, hne, hroot⟩ := hmade.freed q₂ (by rw [hl₂]; exact List.mem_cons_self)
      have hd' : s'.pgdir d ≠ 0 := by
        rw [hpg]
        exact fun h0 => hr.live ((hmade.roots d).1.mp h0)
      have hMq := hr.consistent.counted.free_sub q (by rw [hl]; exact List.mem_cons_self)
      have hrq : s.pgdir d >>> 12 ≠ q := by
        intro h
        refine hr.consistent.counted.tgt_ne_of_free (p := q) (by rw [hl]; exact List.mem_cons_self)
          (.root d) ?_
        simp [tgt, ent, ent.root, hr.live, h]
      have h1q : t1 ≠ q := by
        rintro rfl
        exact hr.kernel.own1 t1 hK1 hMq
      refine demand_gained hd' hv hm (hr.consistent.lt_of_mem hM₂) ?_ (hall 0 s' h)
      have hv2 : valid (s₂.mem (s.pgdir d >>> 12) (vpn2 va)) := by
        rw [hmade.pte2]
        exact hr.entries _ hv
      have ht1' : ptePage (s₂.mem (s.pgdir d >>> 12) (vpn2 va)) = t1 := by
        rw [hmade.pte2]
        exact ht1
      have hv1' : valid (s₂.mem t1 (vpn1 va)) := by
        rw [hmade.pte1]
        exact valid_mkPte _ _
      have ht0' : ptePage (s₂.mem t1 (vpn1 va)) = q := by
        rw [hmade.pte1, ptePage_mkPte (by decide) (hr.consistent.lt_of_mem hMq), page2pa_div]
      rw [leafPte_of_mem hmem, hpg, (hmade.roots d).2,
        leafPte_replaced hv2 ht1' hv1' ht0' hrq h1q (valid_mkPte _ _), if_neg]
      rintro (h | h)
      · exact hroot h.symm
      · exact hr.kernel.own1 t1 hK1 (h ▸ hM₂)

/-- A fault on a shared address that is not mapped. -/
theorem shared_kept_iff (hr : FaultReady M K1 K0 s d) (hva : va < 2 ^ 39)
    (hv : shared (vpn2 va)) (hm : s.isMappedPage d va = false) :
    (∀ r s', s.allocPageUser d va demandPerm = .ok (r, s') → TranslationsKept s s' d va) ↔
      s.pageFreeList.length < s.demandNeeded d va := by
  obtain ⟨t1, ht1, hK1, ⟨hmiss, hv1, hw⟩ | ⟨t0, hmiss, hv1, ht0, hK0, hw, hv0⟩⟩ :=
    hr.sharedPath hv hm
  · rw [demandNeeded, if_neg hmiss]
    exact shared_kept_iff_of_noTable hr hva hv hm ht1 hK1 hv1 hw
  · rw [demandNeeded, if_pos hmiss]
    exact shared_kept_iff_of_table hr hv hm ht1 hK1 hv1 ht0 hK0 hw hv0

end

end RiscvMos.Pmap
