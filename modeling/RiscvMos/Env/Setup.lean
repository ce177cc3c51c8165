import RiscvMos.Env.Lives
import RiscvMos.Pmap.Run

/-!
`env_alloc` with few free pages. `env_setup_vm` needs three: a root table and
the two tables that map it at `rootWindow`. It does not look at the codes of its
two calls, so that it goes on without the pages.
-/

namespace RiscvMos.Pmap

variable {D : Type} [DecidableEq D] {s : Pmap D} {d : D} {a b c q t : Nat} {rest : List Nat}
    {i : Vpn} {perm : Nat}

/-- What `allocEntry` leaves. -/
def filled (s : Pmap D) (t : Nat) (i : Vpn) (perm q : Nat) (rest : List Nat) : Pmap D :=
  Pmap.incRef
    (Pmap.setPte { s with pageFreeList := rest, mem := Function.update s.mem q fun _ => 0 } t i
    (mkPte (page2pa q) perm)) q

/-- What `alloc_pgdir` leaves. -/
def rooted (s : Pmap D) (d : D) (q : Nat) (rest : List Nat) : Pmap D :=
  Pmap.setPgdir
    (Pmap.incRef { s with pageFreeList := rest, mem := Function.update s.mem q fun _ => 0 } q) d
    (page2pa q)

omit [DecidableEq D] in
theorem allocEntry_eq (h : s.pageFreeList = q :: rest) :
    s.allocEntry t i perm = some (q, s.filled t i perm q rest) := by
  simp only [allocEntry, pageAlloc, h, filled]

theorem allocPgdir_eq (h : s.pageFreeList = q :: rest) :
    s.allocPgdir d = .ok (0, s.rooted d q rest) := by
  simp only [allocPgdir, pageAlloc, h, rooted]

omit [DecidableEq D] in
theorem filled_mem_table (h : t ≠ q) :
    (s.filled t i perm q rest).mem t = Function.update (s.mem t) i (mkPte (page2pa q) perm) := by
  simp [filled, incRef, setPte, h]

omit [DecidableEq D] in
theorem filled_mem_new (h : t ≠ q) : (s.filled t i perm q rest).mem q = fun _ => 0 := by
  simp [filled, incRef, setPte, h.symm]

omit [DecidableEq D] in
theorem filled_mem_other {p : Nat} (ht : p ≠ t) (hq : p ≠ q) :
    (s.filled t i perm q rest).mem p = s.mem p := by
  simp [filled, incRef, setPte, ht, hq]

theorem rooted_mem_new :
    (s.rooted d q rest).mem q = fun _ => 0 := by simp [rooted, incRef, setPgdir]

theorem rooted_mem_other {p : Nat} (hq : p ≠ q) : (s.rooted d q rest).mem p = s.mem p := by
  simp [rooted, incRef, setPgdir, hq]

theorem rooted_pgdir : (s.rooted d q rest).pgdir d = page2pa q := by simp [rooted, incRef, setPgdir]

theorem page2pa_shift (p : Nat) : page2pa p >>> 12 = p := by
  rw [Nat.shiftRight_eq_div_pow]
  exact page2pa_div p

theorem mappablePa_page2pa (h : inRam q) : mappablePa (page2pa q) := by
  rw [mappablePa, page2pa, Nat.shiftLeft_eq]
  simp only [inRam, kernbase, memorySize] at *
  omega

theorem ptePage_page2pa (h : inRam q) (hp : perm < 0x400) :
    ptePage (mkPte (page2pa q) perm) = q := by
  have hlt : page2pa q < 2 ^ 56 := by
    rw [page2pa, Nat.shiftLeft_eq]
    simp only [inRam] at h
    omega
  rw [ptePage_mkPte hp hlt, page2pa_div]

/-- The call of `env_setup_vm` that maps the root table, from a root table of zeros. -/
theorem mapPage_rootWindow (hd : s.pgdir d = page2pa a) (ha : inRam a)
    (hzero : s.mem a = fun _ => 0) :
    s.mapPage d Kernel.rootWindow (page2pa a) (pteR ||| pteU) =
      match s.pageFreeList with
      | [] => .ok (-eNoMem, s)
      | [b] => .ok (-eNoMem, s.filled a 3 0 b [])
      | b :: c :: rest =>
        .ok (0, mapLeaf Kernel.rootWindow (page2pa a) (pteR ||| pteU)
          ((s.filled a 3 0 b (c :: rest)).filled b 3 0 c rest) c) := by
  have hne : page2pa a ≠ 0 := by
    rw [page2pa, Nat.shiftLeft_eq]
    simp only [inRam] at ha
    omega
  have hwalk : s.walk (page2pa a >>> 12) Kernel.rootWindow = .noPte1 a := by
    rw [page2pa_shift]
    unfold walk
    dsimp only
    rw [hzero, if_neg not_valid_zero]
  have hv2 : vpn2 Kernel.rootWindow = 3 := by decide
  have hv1 : vpn1 Kernel.rootWindow = 3 := by decide
  unfold mapPage
  rw [if_neg (by decide), if_neg (not_not.mpr (mappablePa_page2pa ha))]
  unfold descend
  rw [hd, if_neg hne, hwalk]
  dsimp only
  unfold createPte1
  rw [hv2]
  cases hl : s.pageFreeList with
  | nil =>
    have hnone : s.allocEntry a 3 0 = none := by simp [allocEntry, pageAlloc, hl]
    rw [hnone]
  | cons b rest =>
    rw [allocEntry_eq hl]
    dsimp only [noSelf, bind, Except.bind]
    unfold createPte0
    rw [hv1]
    have hfree : (s.filled a 3 0 b rest).pageFreeList = rest := rfl
    cases rest with
    | nil =>
      have hnone : (s.filled a 3 0 b []).allocEntry b 3 0 = none := by
        simp [allocEntry, pageAlloc, hfree]
      rw [hnone]
    | cons c rest =>
      rw [allocEntry_eq hfree]
      rfl

/-- Setting the valid bit changes an entry that lacks it. -/
theorem or_pteV_eq_iff {w : Nat} : w ||| pteV = w ↔ valid w := by
  constructor
  · intro h
    rw [← h]
    exact valid_or_pteV w
  · intro h
    rw [valid_iff] at h
    apply Nat.eq_of_testBit_eq
    intro i
    rw [Nat.testBit_or]
    cases i with
    | zero => rw [h, Bool.true_or]
    | succ i =>
      have hbit : pteV.testBit (i + 1) = false := by simp [pteV, Nat.testBit_succ]
      rw [hbit, Bool.or_false]

omit [DecidableEq D] in
/-- A root table whose entry 3 is empty maps nothing at `rootWindow`. -/
theorem rootWindow_unmapped (hd : s.pgdir d = page2pa a) (h : ¬ valid (s.mem a 3)) :
    s.isMappedPage d Kernel.rootWindow = false := by
  unfold isMappedPage
  split
  · rfl
  · have hwalk : s.walk (s.pgdir d >>> 12) Kernel.rootWindow = .noPte1 a := by
      rw [hd, page2pa_shift]
      exact if_neg h
    rw [hwalk]

omit [DecidableEq D] in
/-- The table below is empty. -/
theorem rootWindow_unmapped_below (hd : s.pgdir d = page2pa a) (hb : ptePage (s.mem a 3) = b)
    (h : ¬ valid (s.mem b 3)) : s.isMappedPage d Kernel.rootWindow = false := by
  by_cases hv : valid (s.mem a 3)
  · unfold isMappedPage
    split
    · rfl
    · have hwalk : s.walk (s.pgdir d >>> 12) Kernel.rootWindow = .noPte0 b := by
        rw [hd, page2pa_shift, ← hb]
        rw [← hb] at h
        exact (if_pos hv).trans (if_neg h)
      rw [hwalk]
  · exact rootWindow_unmapped hd hv

omit [DecidableEq D] in
theorem rootWindow_mapped (hd : s.pgdir d = page2pa a) (hne : page2pa a ≠ 0)
    (hva : valid (s.mem a 3))
    (hb : ptePage (s.mem a 3) = b) (hvb : valid (s.mem b 3)) (hc : ptePage (s.mem b 3) = c)
    (hvc : valid (s.mem c 3)) (hpage : ptePage (s.mem c 3) = a) :
    s.isMappedPage d Kernel.rootWindow = true ∧ s.getPa d Kernel.rootWindow = s.pgdir d := by
  have hwalk : s.walk (page2pa a >>> 12) Kernel.rootWindow = .pte0 c := by
    rw [page2pa_shift]
    rw [← hb] at hvb hc
    rw [← hc]
    exact (if_pos hva).trans (if_pos hvb)
  have hv0 : vpn0 Kernel.rootWindow = 3 := by decide
  constructor
  · unfold isMappedPage
    rw [hd, if_neg hne, hwalk]
    dsimp only
    rw [hv0]
    exact decide_eq_true hvc
  · unfold getPa
    rw [hd, hwalk]
    dsimp only
    have hoff : Kernel.rootWindow &&& pteOffset = 0 := by decide
    rw [hv0, if_pos hvc, pte2pa_eq, hpage, hoff, Nat.or_zero, page2pa, Nat.shiftLeft_eq]

end RiscvMos.Pmap

namespace RiscvMos.Kernel

open Pmap

/-- What the comments say of `env_alloc`: it returns 0 with an address space set
up, or a negative code with nothing taken. -/
def AllocClean (k : Kernel) (parentId : Nat) : Prop :=
  (∃ e k', k.envAlloc parentId = .ok (.ok e, k') ∧ k'.pmap.pgdir e ≠ 0 ∧
    k'.pmap.isMappedPage e rootWindow = true ∧ k'.pmap.getPa e rootWindow = k'.pmap.pgdir e ∧
    k'.pmap.mem (k'.pmap.pgdir e >>> 12) 4 = k'.baseEntry 4) ∨
  ∃ r k', k.envAlloc parentId = .ok (.error r, k') ∧ r < 0 ∧ k'.envFreeList = k.envFreeList ∧
    k'.asidBitmap = k.asidBitmap ∧ k'.pmap.ppRef = k.pmap.ppRef ∧
    k'.pmap.pageFreeList = k.pmap.pageFreeList

/-- The free pages are different pages of RAM, and `base_pgdir` is not one of them. -/
structure FreePages (k : Kernel) : Prop where
  nodup : k.pmap.pageFreeList.Nodup
  ram : ∀ p ∈ k.pmap.pageFreeList, inRam p
  base : k.basePgdir >>> 12 ∉ k.pmap.pageFreeList

section
variable {k : Kernel} {e : EnvIdx} {a b c : Nat} {rest : List Nat}

/-- Entry `[PENVS]` of a root table that is not that of `base_pgdir`. -/
theorem setRootEntry_base (k : Kernel) (e : EnvIdx) (hd : k.pmap.pgdir e = page2pa a)
    (hbase : k.basePgdir >>> 12 ≠ a)
    (w : Nat) : (k.setRootEntry e 4 w).baseEntry 4 = k.baseEntry 4 ∧
      (k.setRootEntry e 4 w).pmap.mem ((k.setRootEntry e 4 w).pmap.pgdir e >>> 12) 4 = w := by
  have hd' : (k.setRootEntry e 4 w).pmap.pgdir e = page2pa a := hd
  constructor
  · unfold baseEntry setRootEntry Pmap.setPte
    dsimp only
    rw [hd, page2pa_shift, Function.update_of_ne hbase]
  · rw [hd', page2pa_shift]
    unfold setRootEntry Pmap.setPte
    dsimp only
    rw [hd, page2pa_shift, Function.update_self, Function.update_self]

/-- With no free page at all the kernel panics. -/
theorem envSetupVm_nil (hd : k.pmap.pgdir e = 0) (h : k.pmap.pageFreeList = []) :
    k.envSetupVm e = .error (.panic "invalid phisical memory") := by
  have halloc : k.pmap.allocPgdir e = .ok (-eNoMem, k.pmap) := by simp [allocPgdir, pageAlloc, h]
  have hmap : k.pmap.mapPage e rootWindow (k.pmap.pgdir e) (pteR ||| pteU) =
      .error (.panic "invalid phisical memory") := by
    rw [hd]
    unfold mapPage
    rw [if_neg (by decide), if_pos (by decide)]
  unfold envSetupVm
  rw [halloc]
  dsimp only [bind, Except.bind]
  rw [hmap]

/-- With one free page or more there is a root table. -/
theorem envSetupVm_cons (h : k.pmap.pageFreeList = a :: rest) (ha : inRam a) :
    k.envSetupVm e =
      let s := k.pmap.rooted e a rest
      match rest with
      | [] =>
        .ok (setRootEntry { k with pmap := s } e 4 (baseEntry { k with pmap := s } 4 ||| pteV))
      | [b] =>
        let s := s.filled a 3 0 b []
        .ok (setRootEntry { k with pmap := s } e 4 (baseEntry { k with pmap := s } 4 ||| pteV))
      | b :: c :: rest =>
        let s := mapLeaf rootWindow (page2pa a) (pteR ||| pteU)
          ((s.filled a 3 0 b (c :: rest)).filled b 3 0 c rest) c
        .ok (setRootEntry { k with pmap := s } e 4
          (baseEntry { k with pmap := s } 4 ||| pteV)) := by
  have hmap :=
    mapPage_rootWindow (s := k.pmap.rooted e a rest) (d := e) rooted_pgdir ha rooted_mem_new
  have hfree : (k.pmap.rooted e a rest).pageFreeList = rest := rfl
  rw [hfree] at hmap
  unfold envSetupVm
  rw [allocPgdir_eq h]
  dsimp only [bind, Except.bind]
  rw [rooted_pgdir, hmap]
  cases rest with
  | nil => rfl
  | cons b rest =>
    cases rest with
    | nil => rfl
    | cons c rest => rfl

/-- With fewer than three pages the new env has no self-map, if there is one. -/
theorem envSetupVm_few (hf : FreePages k) (hd : k.pmap.pgdir e = 0)
    (h : k.pmap.pageFreeList.length < 3)
    {k' : Kernel} (hk : k.envSetupVm e = .ok k') : k'.pmap.isMappedPage e rootWindow = false := by
  cases hl : k.pmap.pageFreeList with
  | nil =>
    rw [envSetupVm_nil hd hl] at hk
    cases hk
  | cons a rest =>
    have ha : inRam a := hf.ram a (by simp [hl])
    have hnd := hf.nodup
    rw [hl] at hnd
    rw [envSetupVm_cons hl ha] at hk
    cases rest with
    | nil =>
      obtain rfl := Except.ok.inj hk
      apply rootWindow_unmapped (a := a)
      · exact rooted_pgdir
      · unfold setRootEntry setPte
        simp [rooted_pgdir, page2pa_shift, rooted_mem_new]
    | cons b rest =>
      cases rest with
      | cons c rest =>
        simp only [hl, List.length_cons] at h
        omega
      | nil =>
        have hab : a ≠ b := by
          rintro rfl
          simp at hnd
        have hb : inRam b := hf.ram b (by simp [hl])
        obtain rfl := Except.ok.inj hk
        have hroot : ((k.pmap.rooted e a [b]).filled a 3 0 b []).pgdir e = page2pa a := rooted_pgdir
        apply rootWindow_unmapped_below (a := a) (b := b)
        · exact hroot
        · unfold setRootEntry setPte
          dsimp only
          rw [hroot, page2pa_shift, Function.update_self, Function.update_of_ne (by decide),
            filled_mem_table hab, Function.update_self]
          exact ptePage_page2pa hb (by decide)
        · unfold setRootEntry setPte
          dsimp only
          rw [hroot, page2pa_shift, Function.update_of_ne hab.symm, filled_mem_new hab]
          exact not_valid_zero

/-- With three pages the address space is set up. -/
theorem envSetupVm_three (hf : FreePages k) (h : 3 ≤ k.pmap.pageFreeList.length) :
    ∃ k', k.envSetupVm e = .ok k' ∧ k'.pmap.pgdir e ≠ 0 ∧ k'.pmap.isMappedPage e rootWindow = true ∧
      k'.pmap.getPa e rootWindow = k'.pmap.pgdir e ∧ k'.baseEntry 4 = k.baseEntry 4 ∧
      k'.pmap.mem (k'.pmap.pgdir e >>> 12) 4 = k.baseEntry 4 ||| pteV := by
  match hl : k.pmap.pageFreeList with
  | [] =>
    rw [hl] at h
    simp at h
  | [a] =>
    rw [hl] at h
    simp at h
  | [a, b] =>
    rw [hl] at h
    simp at h
  | a :: b :: c :: rest =>
    have hnd := hf.nodup
    have hbase := hf.base
    rw [hl] at hnd hbase
    simp only [List.nodup_cons, List.mem_cons, not_or] at hnd hbase
    obtain ⟨⟨hab, hac, -⟩, ⟨hbc, -⟩, -⟩ := hnd
    obtain ⟨hba, hbb, hbc', -⟩ := hbase
    have ha : inRam a := hf.ram a (by simp [hl])
    have hb : inRam b := hf.ram b (by simp [hl])
    have hc : inRam c := hf.ram c (by simp [hl])
    have hv0 : vpn0 rootWindow = 3 := by decide
    have hne : page2pa a ≠ 0 := by
      rw [page2pa, Nat.shiftLeft_eq]
      simp only [inRam] at ha
      omega
    have hin : kernbase ≤ page2pa a ∧ page2pa a < kernbase + memorySize := by
      rw [page2pa, Nat.shiftLeft_eq]
      simp only [inRam, kernbase, memorySize] at *
      omega
    have hsetup := envSetupVm_cons (e := e) hl ha
    dsimp only at hsetup
    -- the four pages that matter, before the root entry is written
    generalize hs : mapLeaf rootWindow (page2pa a) (pteR ||| pteU)
      (((k.pmap.rooted e a (b :: c :: rest)).filled a 3 0 b (c :: rest)).filled b 3 0 c rest) c =
      s at hsetup
    have hmem : s.mem a 3 = mkPte (page2pa b) 0 ∧ s.mem b 3 = mkPte (page2pa c) 0 ∧
        s.mem c 3 = mkPte (page2pa a) (pteR ||| pteU) ∧
        s.mem (k.basePgdir >>> 12) = k.pmap.mem (k.basePgdir >>> 12) ∧
        s.pgdir e = page2pa a := by
      rw [← hs]
      unfold mapLeaf
      rw [if_pos hin]
      refine ⟨?_, ?_, ?_, ?_, ?_⟩
      · simp only [incRef, setPte, Function.update_of_ne hac]
        rw [filled_mem_other hab hac, filled_mem_table hab, Function.update_self]
      · simp only [incRef, setPte, Function.update_of_ne hbc]
        rw [filled_mem_table hbc, Function.update_self]
      · simp only [incRef, setPte, Function.update_self, hv0]
      · simp only [incRef, setPte, Function.update_of_ne hbc']
        rw [filled_mem_other hbb hbc', filled_mem_other hba hbb, rooted_mem_other hba]
      · exact rooted_pgdir
    obtain ⟨h3a, h3b, h3c, hbase, hroot⟩ := hmem
    have hbase4 : baseEntry { k with pmap := s } 4 = k.baseEntry 4 := congrFun hbase 4
    rw [hbase4] at hsetup
    obtain ⟨hb4, hr4⟩ := setRootEntry_base { k with pmap := s } e hroot hba (k.baseEntry 4 ||| pteV)
    have hother : ∀ p, p ≠ a →
        (setRootEntry { k with pmap := s } e 4 (k.baseEntry 4 ||| pteV)).pmap.mem p = s.mem p := by
      intro p hp
      unfold setRootEntry setPte
      dsimp only
      rw [hroot, page2pa_shift, Function.update_of_ne hp]
    have hthree : (setRootEntry { k with pmap := s } e 4 (k.baseEntry 4 ||| pteV)).pmap.mem a
        3 = s.mem a 3 := by
      unfold setRootEntry setPte
      dsimp only
      rw [hroot, page2pa_shift, Function.update_self, Function.update_of_ne (by decide)]
    have hroot' : (setRootEntry { k with pmap := s } e 4 (k.baseEntry 4 ||| pteV)).pmap.pgdir e =
        page2pa a := hroot
    obtain ⟨hm, hpa⟩ := rootWindow_mapped (a := a) (b := b) (c := c) hroot' hne
      (by rw [hthree, h3a]; exact valid_mkPte _ _)
      (by rw [hthree, h3a]; exact ptePage_page2pa hb (by decide))
      (by rw [hother b (Ne.symm hab), h3b]; exact valid_mkPte _ _)
      (by rw [hother b (Ne.symm hab), h3b]; exact ptePage_page2pa hc (by decide))
      (by rw [hother c (Ne.symm hac), h3c]; exact valid_mkPte _ _)
      (by rw [hother c (Ne.symm hac), h3c]; exact ptePage_page2pa ha (by decide))
    exact ⟨_, hsetup, hroot' ▸ hne, hm, hpa, hb4.trans hbase4, hr4⟩

/-- With an env and an ASID `env_alloc` returns no code but 0. -/
theorem envAlloc_ne_error {parentId asid : Nat} {es : List EnvIdx} {r : Int} {k' : Kernel}
    (hl : k.envFreeList = e :: es)
    (ha : k.asidAlloc = some asid) : k.envAlloc parentId ≠ .ok (.error r, k') := by
  intro h
  rw [envAlloc_eq hl, ha] at h
  obtain ⟨k₁, -, h⟩ := Except.bind_ok_iff.mp h
  cases h

theorem not_allocClean_few (hf : FreePages k) (parentId : Nat) {asid : Nat} {es : List EnvIdx}
    (hl : k.envFreeList = e :: es) (ha : k.asidAlloc = some asid)
    (h3 : ¬ 3 ≤ k.pmap.pageFreeList.length) :
    ¬ k.AllocClean parentId := by
  have hf' : FreePages (k.claimed e asid parentId) := ⟨hf.nodup, hf.ram, hf.base⟩
  have hd : (k.claimed e asid parentId).pmap.pgdir e = 0 := by
    show Function.update k.pmap.pgdir e 0 e = 0
    simp
  rintro (⟨e', k', h, -, hm, -⟩ | ⟨r, k', h, -⟩)
  · rw [envAlloc_eq hl, ha] at h
    obtain ⟨k₁, hk₁, h⟩ := Except.bind_ok_iff.mp h
    obtain ⟨he, rfl⟩ := Prod.mk.inj (Except.ok.inj h)
    obtain rfl := Except.ok.inj he
    have hno := envSetupVm_few hf' hd (by show k.pmap.pageFreeList.length < 3; omega) hk₁
    have hm' : k₁.pmap.isMappedPage e rootWindow = true := hm
    rw [hno] at hm'
    cases hm'
  · exact envAlloc_ne_error hl ha h

end

/-- `env_alloc` is as its comments say when it stops before `env_setup_vm`, or
when three pages are free and `base_pgdir` has an entry `[PENVS]`. -/
theorem allocClean_iff {k : Kernel} (hf : FreePages k) (parentId : Nat) :
    k.AllocClean parentId ↔ k.envFreeList = [] ∨ k.asidAlloc = none ∨
      (3 ≤ k.pmap.pageFreeList.length ∧ valid (k.baseEntry 4)) := by
  cases hl : k.envFreeList with
  | nil =>
    have halloc : k.envAlloc parentId = .ok (.error (-eNoFreeEnv), k) := by
      unfold envAlloc
      rw [hl]
    exact iff_of_true (.inr ⟨_, _, halloc, by decide, rfl, rfl, rfl, rfl⟩) (.inl rfl)
  | cons e rest =>
    cases ha : k.asidAlloc with
    | none =>
      have halloc : k.envAlloc parentId = .ok (.error (-eNoFreeEnv), k.named e) := by
        rw [envAlloc_eq hl, ha]
      exact iff_of_true (.inr ⟨_, _, halloc, by decide, rfl, rfl, rfl, rfl⟩) (.inr (.inl rfl))
    | some asid =>
      have heq : k.envAlloc parentId = _ := envAlloc_eq hl
      rw [ha] at heq
      dsimp only at heq
      have hf' : FreePages (k.claimed e asid parentId) := ⟨hf.nodup, hf.ram, hf.base⟩
      have hbase : (k.claimed e asid parentId).baseEntry 4 = k.baseEntry 4 := rfl
      by_cases h3 : 3 ≤ k.pmap.pageFreeList.length
      · obtain ⟨k₁, hk₁, hne, hm, hpa, hb4, hr4⟩ := envSetupVm_three (e := e) hf' h3
        rw [hk₁] at heq
        rw [hbase] at hb4 hr4
        constructor
        · rintro (⟨e', k', h, -, -, -, hent⟩ | ⟨r, k', h, -⟩)
          · obtain ⟨he, rfl⟩ := Prod.mk.inj (Except.ok.inj (heq.symm.trans h))
            obtain rfl := Except.ok.inj he
            have hent' : k₁.pmap.mem (k₁.pmap.pgdir e >>> 12) 4 = k₁.baseEntry 4 := hent
            rw [hr4, hb4] at hent'
            exact .inr (.inr ⟨h3, or_pteV_eq_iff.mp hent'⟩)
          · exact absurd h (envAlloc_ne_error hl ha)
        · rintro (h | h | ⟨-, hv⟩)
          · cases h
          · cases h
          · refine .inl ⟨e, _, heq, hne, hm, hpa, ?_⟩
            show k₁.pmap.mem (k₁.pmap.pgdir e >>> 12) 4 = k₁.baseEntry 4
            rw [hr4, hb4]
            exact or_pteV_eq_iff.mpr hv
      · apply iff_of_false
        · exact not_allocClean_few hf parentId hl ha h3
        · rintro (h | h | ⟨h, -⟩)
          · cases h
          · cases h
          · exact h3 h

/-- Memory with an entry `[PENVS]` in `base_pgdir` and `n` free pages. -/
def sparePmap (n : Nat) : Pmap EnvIdx :=
  { mem := Function.update (fun _ _ => 0) 0x82000
      (Function.update (fun _ => 0) 4 (mkPte (page2pa 0x82fff) 0)),
    ppRef := fun _ => 0, pageFreeList := List.range' 0x83000 n, pgdir := fun _ => 0 }

theorem freePages_spare {n : Nat} (hn : n ≤ 0x1000) :
    FreePages (envInit (sparePmap n) 0x82000000) := by
  constructor
  · exact List.nodup_range'
  · intro p hp
    have hp' : p ∈ List.range' 0x83000 n := hp
    rw [List.mem_range'_1] at hp'
    simp only [inRam]
    omega
  · intro hp
    have hp' : 0x82000000 >>> 12 ∈ List.range' 0x83000 n := hp
    rw [List.mem_range'_1] at hp'
    omega

theorem allocClean_spare : FreePages (envInit (sparePmap 3) 0x82000000) ∧
    (envInit (sparePmap 3) 0x82000000).AllocClean 0 :=
  ⟨freePages_spare (by decide),
    (allocClean_iff (freePages_spare (by decide)) 0).mpr (.inr (.inr ⟨by decide, by
    decide +kernel⟩))⟩

/-- With two free pages `env_alloc` returns 0 and the env has no self-map. -/
theorem two_pages_unmapped :
    ((envInit (sparePmap 2) 0x82000000).envAlloc 0).toOption.map
    (fun r => (r.1.toOption, r.2.pmap.isMappedPage 0 rootWindow)) =
      some (some 0, false) ∧
    ¬ (envInit (sparePmap 2) 0x82000000).AllocClean 0 := by
  refine ⟨by decide +kernel, ?_⟩
  have hl : (envInit (sparePmap 2) 0x82000000).envFreeList =
      0 :: (List.finRange 1023).map Fin.succ := by
    simp only [envInit]
    exact List.finRange_succ
  have ha : (envInit (sparePmap 2) 0x82000000).asidAlloc = some 1 := by decide +kernel
  exact not_allocClean_few (freePages_spare (by decide)) 0 hl ha (by decide)

end RiscvMos.Kernel
