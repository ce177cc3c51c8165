import RiscvMos.Env.SharedDemand
import RiscvMos.Pmap.Guard

/-!
The fault handler and the pages that user code can write. The handler gives
`PTE_W` to any mapped page without `PTE_COW` that is stored to; a fault that is
`CarefulFault` keeps memory `Guarded`.
-/

namespace RiscvMos.Pmap

variable {D : Type}

/-- The page that a fault at `tval` gives out: its address and permission. -/
def faultGives (s : Pmap D) (d : D) (cause : Fault) (tval : Nat) : Option (Nat × Nat) :=
  if s.isMappedPage d tval = true then
    if cause = .fetch then none
    else if s.getPerm d tval &&& pteCow ≠ 0 then
      if s.isMappedPage d uxframe = false then some (uxframe, demandPerm) else none
    else if cause = .store then none
    else some (tval, demandPerm)
  else some (tval, demandPerm)

/-- What a fault must not do: write to a page that is none of the env's to
write, or put a page where it is not the env's to put, or fail half way. -/
structure CarefulFault (G : D → Nat → Prop) (s : Pmap D) (d : D) (cause : Fault) (va : Nat) :
    Prop where
  store : cause = .store → s.isMappedPage d va = true → s.getPerm d va &&& pteCow = 0 →
    s.getPerm d va &&& pteU ≠ 0 → ¬ shared (vpn2 va) ∧
      ¬ s.TablePage (s.getPa d va / 4096) ∧ G d (s.getPa d va / 4096)
  load : cause = .load → s.isMappedPage d va = true → s.getPerm d va &&& pteCow = 0 →
    ¬ shared (vpn2 va) ∧ (s.SoleRef d va ∨ s.pageFreeList ≠ [])
  unmapped : s.isMappedPage d va = false → ¬ shared (vpn2 va)

/-- What a step on memory leaves in place for the envs: their roots, with the
shared entries and the window's table, and `base_pgdir`. -/
structure Carries (M K0 : Nat → Prop) (s s' : Pmap D) : Prop where
  roots : SameRoots s s'
  window : ∀ d, s.ent (.pte1 d 3 3) ≠ none → s'.ent (.pte1 d 3 3) ≠ none
  entries : ∀ d i, s.pgdir d ≠ 0 → shared i → valid (s.mem (s.pgdir d >>> 12) i) →
    valid (s'.mem (s.pgdir d >>> 12) i)
  base : ∀ p, ¬ M p → ¬ K0 p → s'.mem p = s.mem p

section
variable {M K1 K0 : Nat → Prop} {G G' : D → Nat → Prop} {s s₁ s' : Pmap D} {d : D} {va : Nat}

theorem Carries.refl (s : Pmap D) : Carries M K0 s s :=
  ⟨.refl s, fun _ h => h, fun _ _ _ _ h => h, fun _ _ _ => rfl⟩

theorem Carries.trans (h : Carries M K0 s s₁) (h' : Carries M K0 s₁ s') : Carries M K0 s s' := by
  refine ⟨fun d => ?_, fun d hd => h'.window d (h.window d hd), fun d i hd hi hv => ?_,
    fun p hM hK => (h'.base p hM hK).trans (h.base p hM hK)⟩
  · exact ⟨(h'.roots d).1.trans (h.roots d).1, (h'.roots d).2.trans (h.roots d).2⟩
  · have hd₁ : s₁.pgdir d ≠ 0 := fun h0 => hd ((h.roots d).1.mp h0)
    have hv₁ := h.entries d i hd hi hv
    rw [← (h.roots d).2] at hv₁ ⊢
    exact h'.entries d i hd₁ hi hv₁

/-- A call on a directory that has its root. -/
theorem Carries.of_frame {C : Slot D → Prop} (hf : Frame M C s s')
    (hC : ∀ d, C (.root d) → s.pgdir d ≠ 0) : Carries M K0 s s' := by
  refine ⟨sameRoots_of_frame hf hC, fun d hd h0 => ?_, fun d i hd hi hv => ?_,
    fun p hM _ => hf.kernel p hM⟩
  · obtain ⟨⟨p, perm⟩, he⟩ := Option.ne_none_iff_exists'.mp hd
    have := hf.table (.pte1 d 3 3) p trivial (tgt_eq_some.mpr ⟨perm, he⟩)
    rw [tgt, h0] at this
    cases this
  · rwa [hf.sharedEntry d _ i (by simp [tgt, ent, ent.root, hd]) hi]

/-- A store that changes no slot. -/
theorem Carries.of_ent (hpg : s'.pgdir = s.pgdir) (hent : s'.ent = s.ent)
    (hentries : ∀ d i, s.pgdir d ≠ 0 → shared i → valid (s.mem (s.pgdir d >>> 12) i) →
      valid (s'.mem (s.pgdir d >>> 12) i))
    (hbase : ∀ p, ¬ M p → ¬ K0 p → s'.mem p = s.mem p) : Carries M K0 s s' := by
  refine ⟨fun d => ?_, fun d hd => ?_, hentries, hbase⟩
  · rw [hpg]
    exact ⟨Iff.rfl, rfl⟩
  · rwa [hent]

theorem Carries.of_write {p : Nat} (hM : M p) (hp : ¬ s.TablePage p) (f : Vpn → Nat) :
    Carries M K0 s (s.writePage p f) := by
  have hmem : ∀ t, t ≠ p → (s.writePage p f).mem t = s.mem t := by
    intro t ht
    simp [writePage, ht]
  refine .of_ent rfl (writePage_ent hp f) (fun d i hd _ hv => ?_) fun t ht _ => hmem t ?_
  · rwa [hmem]
    rintro rfl
    exact hp ⟨.root d, trivial, by simp [tgt, ent, ent.root, hd]⟩
  · rintro rfl
    exact ht hM

variable [Fintype D]

theorem Guarded.regrant (h : Guarded M K1 K0 G s)
    (hG : ∀ d p, G d p → p ∉ s.pageFreeList → G' d p) : Guarded M K1 K0 G' s :=
  h.of_ent h.consistent rfl h.kernel h.readonly hG

/-- What user code may write: a page that is no table and that the env was
given for writing, not behind a shared root entry. -/
theorem Guarded.writable (h : Guarded M K1 K0 G s) (hd : s.pgdir d ≠ 0) {pte : Nat}
    (hl : s.leafPte (s.pgdir d >>> 12) va = some pte) (hu : pte &&& pteU ≠ 0)
    (hw : pte &&& pteW ≠ 0) :
    ¬ shared (vpn2 va) ∧ M (ptePage pte) ∧ ¬ s.TablePage (ptePage pte) ∧ G d (ptePage pte) := by
  by_cases hv : shared (vpn2 va)
  · obtain ⟨t0, hK, hv0, rfl⟩ := h.kernel.leaf hd hv hl
    exact absurd (h.readonly t0 _ hK hv0 hu) hw
  · have he := ent_of_leafPte hd hv hl
    rw [← pte2perm_and pte (by decide)] at hu hw
    obtain ⟨hn, hg⟩ := h.granted _ _ _ _ _ _ he hu hw
    exact ⟨hv, h.consistent.mem_of_tgt (tgt_eq_some.mpr ⟨_, he⟩), hn, hg⟩

omit [Fintype D] in
theorem Carries.of_touched [DecidableEq D] (hva : va < 2 ^ 39) (hd : s.pgdir d ≠ 0)
    (hf : Frame M (Touched (OnPath d) d va) s s') : Carries M K0 s s' := by
  refine .of_frame hf fun d' hd' => ?_
  rw [touched_root hva hd']
  exact hd

variable [DecidableEq D]

/-- Over a page that is mapped there is a page to be had: it is freed on the
way, or another one is free. -/
theorem allocPageUser_zero (hs : Consistent M s) (hv : ¬ shared (vpn2 va))
    (hm : s.isMappedPage d va = true) (hfree : s.SoleRef d va ∨ s.pageFreeList ≠ []) {perm : Nat}
    {r : Int} (h : s.allocPageUser d va perm = .ok (r, s')) : r = 0 := by
  obtain ⟨hd, t0, hw, hv0, hl⟩ := exists_leafPte hm
  have htgt := tgt_eq_some.mpr ⟨_, ent_of_leafPte hd hv hl⟩
  have hdiv : s.getPa d va / 4096 = ptePage (s.mem t0 (vpn0 va)) := by
    rw [getPa_of_leafPte hl]
    omega
  unfold allocPageUser at h
  split at h
  · cases h
  rw [descend, if_neg hd, hw] at h
  obtain ⟨r₁, s₁, heq, -, -, hcons⟩ :=
    replaceLeaf_eq perm hv0 (hs.ram _ (hs.mem_of_tgt htgt))
  obtain ⟨rfl, rfl⟩ := Prod.mk.inj (Except.ok.inj (heq.symm.trans h))
  cases hq : s.freeAfterDrop (ptePage (s.mem t0 (vpn0 va))) with
  | cons q rest => exact (hcons q rest hq).1
  | nil =>
    unfold freeAfterDrop at hq
    split at hq
    · cases hq
    · rename_i href
      rcases hfree with ⟨-, h1⟩ | hne
      · rw [hdiv] at h1
        rw [h1] at href
        exact absurd (by decide) href
      · exact absurd hq hne

/-- Demand paging of an address that is not shared. -/
theorem Guarded.demand (h : Guarded M K1 K0 G s) (hr : FaultReady M K1 K0 s d) (hva : va < 2 ^ 39)
    (hv : ¬ shared (vpn2 va))
    (hfree : s.isMappedPage d va = true → s.SoleRef d va ∨ s.pageFreeList ≠ [])
    (hG : ∀ d p, G d p → p ∉ s'.pageFreeList → G' d p)
    (hnew : ∀ q, s'.ent (leafSlot d va) = some (q, demandPerm ||| pteV) → G' d q) {r : Int}
    (ha : s.allocPageUser d va demandPerm = .ok (r, s')) :
    Guarded M K1 K0 G' s' ∧ Carries M K0 s s' := by
  by_cases h0 : r = 0
  · subst h0
    refine ⟨h.alloc hva hr.live hv (hr.apart hva) hG (fun _ => by decide)
      (fun q hq _ => hnew q hq) ha, .of_touched hva hr.live ?_⟩
    exact (allocPageUser_spec h.consistent hva hv (hr.apart hva) ha).2.1
  · have hm : s.isMappedPage d va = false := by
      by_contra hm
      have hm' : s.isMappedPage d va = true := by simpa using hm
      exact h0 (allocPageUser_zero h.consistent hv hm' (hfree hm') ha)
    have hnone : s.ent (leafSlot d va) = none := by
      rw [isMappedPage_eq hv] at hm
      simpa [view] using hm
    exact ⟨h.allocFail hva hr.live hv (hr.apart hva) hG hnone ha h0,
      .of_touched hva hr.live (demand_frame hr hva hv hm ha)⟩

theorem Guarded.enterCow (h : Guarded M K1 K0 G s) (hr : FaultReady M K1 K0 s d)
    (hG : ∀ d p, G d p → p ∉ s'.pageFreeList → G' d p)
    (hnew : ∀ q, s.isMappedPage d uxframe = false →
      s'.ent (leafSlot d uxframe) = some (q, demandPerm ||| pteV) → G' d q) {tf : Trapframe}
    (ha : s.enterCow d tf = .ok s') : Guarded M K1 K0 G' s' ∧ Carries M K0 s s' := by
  have hlt : uxframe < 2 ^ 39 := by decide
  have hv : ¬ shared (vpn2 uxframe) := by decide
  unfold Pmap.enterCow at ha
  split at ha
  · rename_i hm
    obtain ⟨⟨r, s₁⟩, halloc, ha⟩ := Except.bind_ok_iff.mp ha
    have hf := demand_frame hr hlt hv hm halloc
    have hcar : Carries M K0 s s₁ := .of_touched hlt hr.live hf
    have hd₁ : s₁.pgdir d ≠ 0 := fun h0 => hr.live ((hcar.roots d).1.mp h0)
    have hstore : ∀ G₁, Guarded M K1 K0 G₁ s₁ → ∃ p, M p ∧ ¬ s₁.TablePage p ∧
        s' = s₁.writePage p (frameWords tf (s₁.mem p)) := by
      intro G₁ h₁
      obtain ⟨-, p, hM, hp, -, hs'⟩ := storeFrame_eq h₁.consistent h₁.userApart hd₁ ha
      exact ⟨p, hM, hp, hs'⟩
    -- which page the store goes to does not matter for the slots
    have hsame : s'.ent = s₁.ent ∧ s'.pageFreeList = s₁.pageFreeList := by
      have h₁ : Guarded M K1 K0 (fun _ _ => True) s₁ :=
        (h.demand hr hlt hv (fun hm' => absurd hm' (by simp [hm])) (fun _ _ _ _ => trivial)
          (fun _ _ => trivial) halloc).1
      obtain ⟨p, -, hp, rfl⟩ := hstore _ h₁
      exact ⟨writePage_ent hp _, rfl⟩
    have h₁ : Guarded M K1 K0 G' s₁ := (h.demand hr hlt hv (fun hm' => absurd hm' (by simp [hm]))
      (by rw [← hsame.2]; exact hG) (fun q hq => hnew q hm (by rw [hsame.1]; exact hq)) halloc).1
    obtain ⟨p, hM, hp, rfl⟩ := hstore _ h₁
    exact ⟨h₁.write hM hp _, hcar.trans (.of_write hM hp _)⟩
  · obtain ⟨-, p, hM, hp, -, rfl⟩ := storeFrame_eq h.consistent h.userApart hr.live ha
    exact ⟨(h.regrant hG).write hM hp _, .of_write hM hp _⟩

theorem Carries.upgrade (h : Guarded M K1 K0 G s) (hva : va < 2 ^ 39)
    (hm : s.isMappedPage d va = true) {bits : Nat} {r : Int} (hb : bits < 0x400)
    (hmap : s.mapPage d va (s.getPa d va) (s.getPerm d va ||| bits) = .ok (r, s')) :
    Carries M K0 s s' := by
  have hd := (exists_leafPte hm).1
  by_cases hv : shared (vpn2 va)
  · obtain ⟨t0, w, hw, -, rfl, -⟩ := mapPage_upgrade hm hb hmap
    have hK := h.kernel.table_of_walk hd hv hw
    have hmem : ∀ p, ¬ K0 p → (s.setPte t0 (vpn0 va) w).mem p = s.mem p := by
      intro p hp
      refine setPte_mem_of_ne s _ w ?_
      rintro rfl
      exact hp hK
    refine .of_ent rfl (ent_setKernel h.consistent (h.kernel.own0 t0 hK) _ w)
      (fun d' i hd' _ hv' => ?_)
      fun p _ hp => hmem p hp
    rwa [hmem _ fun hK' => h.kernel.own0 _ hK' ?_]
    exact h.consistent.mem_of_tgt (x := .root d') (by simp [tgt, ent, ent.root, hd'])
  · refine .of_frame (mapPage_spec h.consistent hva hv hmap).1 fun d' hd' => ?_
    have : d' = d := by simpa [OnPath, leafSlot] using hd'
    rw [this]
    exact hd

/-- A careful fault keeps memory guarded. -/
theorem Guarded.handleFault (h : Guarded M K1 K0 G s) (hr : FaultReady M K1 K0 s d) {cause : Fault}
    (hva : va < 2 ^ 39) (hc : CarefulFault G s d cause va)
    (hG : ∀ d p, G d p → p ∉ s'.pageFreeList → G' d p)
    (hnew : ∀ va' q, s.faultGives d cause va = some (va', demandPerm) → ¬ shared (vpn2 va') →
      s'.ent (leafSlot d va') = some (q, demandPerm ||| pteV) → G' d q) {tf :
      Trapframe} {cow : Bool}
    (ha : s.handleFault d cause va tf = .ok (cow, s')) :
    Guarded M K1 K0 G' s' ∧ Carries M K0 s s' := by
  have hup : ∀ bits r, bits < 0x400 → bits &&& pteU = 0 → bits &&& pteCow = 0 →
      s.isMappedPage d va = true →
      (bits &&& pteW ≠ 0 → s.getPerm d va &&& pteU ≠ 0 → ¬ shared (vpn2 va) ∧
        ¬ s.TablePage (s.getPa d va / 4096) ∧ G d (s.getPa d va / 4096)) →
      s.mapPage d va (s.getPa d va) (s.getPerm d va ||| bits) = .ok (r, s') →
      Guarded M K1 K0 G' s' ∧ Carries M K0 s s' := by
    intro bits r hb hu hcow hm hw hmap
    exact ⟨(h.upgrade hva hm hb hu hcow hw hmap).regrant hG, .upgrade h hva hm hb hmap⟩
  unfold Pmap.handleFault at ha
  unfold faultGives at hnew
  split at ha
  · cases ha
  by_cases hm : s.isMappedPage d va = true
  · rw [if_pos hm] at ha
    simp only [hm, if_true] at hnew
    split at ha
    · obtain ⟨⟨r, s₁⟩, hmap, ha⟩ := Except.bind_ok_iff.mp ha
      obtain ⟨-, rfl⟩ := Prod.mk.inj (Except.ok.inj ha)
      exact hup pteX r (by decide) (by decide) (by decide) hm (fun hw => absurd (by decide) hw) hmap
    rename_i hfetch
    rw [if_neg hfetch] at hnew
    split at ha
    · rename_i hcow
      rw [if_pos hcow] at hnew
      obtain ⟨s₁, hent, ha⟩ := Except.bind_ok_iff.mp ha
      obtain ⟨-, rfl⟩ := Prod.mk.inj (Except.ok.inj ha)
      exact h.enterCow hr hG
        (fun q hux he => hnew uxframe q (by rw [if_pos hux]) (by decide) he) hent
    rename_i hcow
    rw [if_neg hcow] at hnew
    rw [not_not] at hcow
    split at ha
    · rename_i hstore
      obtain ⟨⟨r, s₁⟩, hmap, ha⟩ := Except.bind_ok_iff.mp ha
      obtain ⟨-, rfl⟩ := Prod.mk.inj (Except.ok.inj ha)
      exact hup pteW r (by decide) (by decide) (by decide) hm
        (fun _ hu => hc.store hstore hm hcow hu) hmap
    rename_i hstore
    rw [if_neg hstore] at hnew
    have hload : cause = .load := by
      cases cause with
      | fetch => exact absurd rfl hfetch
      | load => rfl
      | store => exact absurd rfl hstore
    obtain ⟨⟨r, s₁⟩, halloc, ha⟩ := Except.bind_ok_iff.mp ha
    obtain ⟨-, rfl⟩ := Prod.mk.inj (Except.ok.inj ha)
    obtain ⟨hv, hfree⟩ := hc.load hload hm hcow
    exact h.demand hr hva hv (fun _ => hfree) hG (fun q => hnew va q rfl hv) halloc
  · rw [if_neg hm] at ha
    simp only [hm] at hnew
    obtain ⟨⟨r, s₁⟩, halloc, ha⟩ := Except.bind_ok_iff.mp ha
    obtain ⟨-, rfl⟩ := Prod.mk.inj (Except.ok.inj ha)
    have hv := hc.unmapped (by simpa using hm)
    exact h.demand hr hva hv (fun h => absurd h hm) hG (fun q => hnew va q rfl hv) halloc

end

end RiscvMos.Pmap
