import RiscvMos.Env.GuardFault
import RiscvMos.Env.FaultSafe
import RiscvMos.Env.Send

/-!
An env gives all its memory back: from `env_setup_vm` through the calls that
map and unmap its pages to `env_free`. A fault behind a shared root entry puts
a page where no `env_free` looks for it, and a page whose count wraps around is
freed too early; the runs here do neither.
-/

namespace RiscvMos.Pmap

variable {D : Type} [DecidableEq D] [Fintype D] {M : Nat → Prop} {s s' : Pmap D} {d : D} {va : Nat}

theorem mapPageUser_userApart (hs : Consistent M s) (hu : s.UserApart) (hva : va < ulim)
    {pa perm va₀ : Nat} {d₀ : D} (hva₀ : va₀ < ulim)
    (hsrc : s.tgt (leafSlot d₀ va₀) = some (pa / 4096))
    (h : s.mapPageUser d va pa perm = .ok (0, s')) : s'.UserApart := by
  have hlt : va < 2 ^ 39 := hva.trans (by decide)
  obtain ⟨hf, he, -⟩ := mapPageUser_spec hs hlt (not_shared_of_user hva)
    (apart_of_ne s hlt (vpn2_ne_three_of_user hva)) h
  apply hu.leaf hlt hf
  intro p _ hp
  rw [tgt, he rfl, Option.map_some, Option.some_inj] at hp
  subst hp
  exact mapPageUser_notTable hs hu hva hva₀ hsrc h

omit [DecidableEq D] [Fintype D] in
theorem Frame.window {C : Slot D → Prop} (hf : Frame M C s s') (h : s.ent (.pte1 d 3 3) ≠ none) :
    s'.ent (.pte1 d 3 3) ≠ none := by
  intro h0
  obtain ⟨⟨p, perm⟩, he⟩ := Option.ne_none_iff_exists'.mp h
  have := hf.table (.pte1 d 3 3) p trivial (tgt_eq_some.mpr ⟨perm, he⟩)
  rw [tgt, h0] at this
  cases this

omit [DecidableEq D] [Fintype D] in
theorem live_of_window (h : s.ent (.pte1 d 3 3) ≠ none) : s.pgdir d ≠ 0 := by
  intro h0
  exact h (ent_none_of_pgdir (.pte1 d 3 3) h0)

/-- `env_setup_vm`'s two calls: a root table, mapped at `[3][3][3]`. -/
theorem newDir_spec {s₁ s₂ : Pmap D} (hs : Consistent M s) (hu : s.UserApart) (hd : s.pgdir d = 0)
    (hroot : s.allocPgdir d = .ok (0, s₁))
    (hwin : s₁.mapPage d Kernel.rootWindow (s₁.pgdir d) (pteR ||| pteU) = .ok (0, s₂)) :
    Consistent M s₂ ∧ s₂.UserApart ∧ s₂.ent (.pte1 d 3 3) ≠ none ∧
      ∀ d', s.ent (.pte1 d' 3 3) ≠ none → s₂.ent (.pte1 d' 3 3) ≠ none := by
  have hlt : Kernel.rootWindow < 2 ^ 39 := by decide
  obtain ⟨hs₁, hf₁, pp, hent₁, href⟩ := allocPgdir_spec hs hd hroot
  have hd₁ : s₁.pgdir d ≠ 0 := by
    intro h0
    have hnone : s₁.ent (.root d) = none := ent_none_of_pgdir (.root d) h0
    rw [hent₁, Function.update_self] at hnone
    cases hnone
  have htgt : s₁.tgt (.root d) = some (s₁.pgdir d / 4096) := by
    simp [tgt, ent, ent.root, hd₁, Nat.shiftRight_eq_div_pow]
  obtain ⟨hf₂, hent₂, -, -, hcons⟩ := mapPage_spec hs₁ hlt (by decide) hwin
  refine ⟨?_, ?_, ?_, fun d' h => hf₂.window (hf₁.window h)⟩
  · apply hcons ⟨_, htgt⟩
    have hpp : s₁.pgdir d / 4096 = pp := by
      rw [tgt, hent₁, Function.update_self] at htgt
      exact (Option.some.inj htgt).symm
    have hle := refs_onPath_le hf₂ (s₁.pgdir d / 4096)
    rw [← hs₁.counted.count _ (hs₁.mem_of_tgt htgt), hpp, href] at hle
    rw [hpp]
    omega
  · have hu₁ : s₁.UserApart := by
      intro d' va hva p hp
      have hne : ¬ leafSlot d' va = .root d := by simp [leafSlot]
      rw [hf₁.tgt_eq hne] at hp
      exact (hf₁.data _ p hne hp (hu d' va hva p hp)).2
    apply hu₁.leaf hlt (hf₂.mono fun x hx => .inl hx)
    intro p hv
    exact absurd hv (by decide)
  · intro hnone
    have hleaf : s₂.ent (leafSlot d Kernel.rootWindow) = none := by
      apply leaf_none_of_pte1
      exact hnone
    rw [hent₂ rfl] at hleaf
    cases hleaf

omit [DecidableEq D] in
/-- A page put in a table that no slot leads to is lost for the slots. -/
theorem allocKernel_spec (hs : Consistent M s) {t perm q : Nat} {i : Vpn} (ht : ¬ M t)
    (h : s.allocEntry t i perm = some (q, s')) :
    M q ∧ Consistent (fun p => M p ∧ p ≠ q) s' ∧ s'.ent = s.ent := by
  unfold allocEntry at h
  cases ha : s.pageAlloc with
  | none => simp [ha] at h
  | some e =>
    obtain ⟨pp, s₁⟩ := e
    simp only [ha, Option.some_inj, Prod.mk.injEq] at h
    obtain ⟨rfl, rfl⟩ := h
    have hent₁ := pageAlloc_ent hs ha
    obtain ⟨rest, hl, rfl⟩ := pageAlloc_eq_some ha
    have hM : M pp := hs.counted.free_sub pp (by simp [hl])
    have hnot : ∀ x, s.tgt x ≠ some pp := hs.counted.tgt_ne_of_free (by simp [hl])
    have hnd := hs.counted.nodup
    rw [hl, List.nodup_cons] at hnd
    have hent :
        (({ s with pageFreeList := rest, mem := Function.update s.mem pp fun _ => 0 }.setPte t i
        (mkPte (page2pa pp) perm)).incRef pp).ent = s.ent := by
      rw [← hent₁]
      refine ent_congr rfl fun x p _ hp => setPte_mem_of_ne _ i _ ?_
      rintro rfl
      rw [tgt, hent₁] at hp
      exact ht (hs.mem_of_tgt hp)
    refine ⟨hM, ⟨⟨?_, ?_, hnd.2, ?_, ?_⟩, ?_, distinct_of_ent hs.distinct hent, hs.aligned,
      fun p hp => hs.ram p hp.1⟩, hent⟩
    · intro p hp
      rw [tgt_eq_of_ent hent, ← hs.counted.count p hp.1]
      simp [incRef, setPte, hp.2]
    · intro p hp
      have hfree := hs.counted.free_iff p hp.1
      rw [hl] at hfree
      simpa [incRef, setPte, hp.2] using hfree
    · intro p hp
      change p ∈ rest at hp
      refine ⟨hs.counted.free_sub p (by simp [hl, hp]), ?_⟩
      rintro rfl
      exact hnd.1 hp
    · intro x p hp
      rw [tgt_eq_of_ent hent] at hp
      refine ⟨hs.mem_of_tgt hp, ?_⟩
      rintro rfl
      exact hnot x hp
    · intro p hp
      simpa [incRef, setPte, hp.2] using hs.small p hp.1

omit [Fintype D] in
/-- A fault that gives out a page makes one call to do so. -/
theorem handleFault_gives {cause : Fault} {tval perm : Nat} {tf : Trapframe} {cow : Bool}
    (h : s.handleFault d cause tval tf = .ok (cow, s'))
    (hg : s.faultGives d cause tval = some (va, perm)) :
    perm = demandPerm ∧ va < 2 ^ 39 ∧ ∃ r s₁, s.allocPageUser d va demandPerm = .ok (r, s₁) ∧
      (s' = s₁ ∨ s₁.storeFrame d tf = .ok s') := by
  have hdemand : handleFault.demand d tval s = .ok (cow, s') →
      ∃ r s₁, s.allocPageUser d tval demandPerm = .ok (r, s₁) ∧ s' = s₁ := by
    intro h
    obtain ⟨⟨r, s₁⟩, ha, h⟩ := Except.bind_ok_iff.mp h
    exact ⟨r, s₁, ha, (Prod.mk.inj (Except.ok.inj h)).2.symm⟩
  unfold handleFault at h
  unfold faultGives at hg
  split at h
  · cases h
  rename_i hrange
  have hlt : tval < 2 ^ 39 := by omega
  by_cases hm : s.isMappedPage d tval = true
  · rw [if_pos hm] at h hg
    split at h
    · rename_i hfetch
      rw [if_pos hfetch] at hg
      cases hg
    rename_i hfetch
    rw [if_neg hfetch] at hg
    split at h
    · rename_i hcow
      rw [if_pos hcow] at hg
      obtain ⟨s₂, hent, h⟩ := Except.bind_ok_iff.mp h
      obtain ⟨-, rfl⟩ := Prod.mk.inj (Except.ok.inj h)
      unfold enterCow at hent
      split at hent
      · rename_i hux
        rw [if_pos hux] at hg
        obtain ⟨rfl, rfl⟩ := Prod.mk.inj (Option.some.inj hg)
        obtain ⟨⟨r, s₁⟩, ha, hst⟩ := Except.bind_ok_iff.mp hent
        exact ⟨rfl, by decide, r, s₁, ha, .inr hst⟩
      · rename_i hux
        rw [if_neg hux] at hg
        cases hg
    rename_i hcow
    rw [if_neg hcow] at hg
    split at h
    · rename_i hstore
      rw [if_pos hstore] at hg
      cases hg
    rename_i hstore
    rw [if_neg hstore] at hg
    obtain ⟨rfl, rfl⟩ := Prod.mk.inj (Option.some.inj hg)
    obtain ⟨r, s₁, ha, rfl⟩ := hdemand h
    exact ⟨rfl, hlt, r, _, ha, .inl rfl⟩
  · rw [if_neg hm] at h hg
    obtain ⟨rfl, rfl⟩ := Prod.mk.inj (Option.some.inj hg)
    obtain ⟨r, s₁, ha, rfl⟩ := hdemand h
    exact ⟨rfl, hlt, r, _, ha, .inl rfl⟩

end RiscvMos.Pmap

namespace RiscvMos.Kernel

open Pmap

/-- What happens to the memory of the envs. `envRun` is the turn of an env. -/
inductive MemOp where
  | sysMemAlloc (envid va perm : Nat)
  | sysMemMap (srcid srcva dstid dstva perm : Nat)
  | sysMemUnmap (envid va : Nat)
  | sysIpcRecv (dstva : Nat)
  | sysIpcTrySend (envid value srcva perm : Nat)
  | fault (cause : Fault) (tval : Nat) (tf : Trapframe)
  | envRun (e : EnvIdx)

def memExec (k : Kernel) : MemOp → Except Halt (Int × Kernel)
  | .sysMemAlloc envid va perm => k.sysMemAlloc envid va perm
  | .sysMemMap srcid srcva dstid dstva perm => k.sysMemMap srcid srcva dstid dstva perm
  | .sysMemUnmap envid va => k.sysMemUnmap envid va
  | .sysIpcRecv dstva => k.sysIpcRecv dstva
  | .sysIpcTrySend envid value srcva perm => k.sysIpcTrySend envid value srcva perm
  | .fault cause tval tf => do
    let (_, k) ← k.handleException cause tval tf
    .ok (0, k)
  | .envRun e => do
    let k ← k.envRun e
    .ok (0, k)

/-- The step found the pages it needed. A fault is one that gives out a page. -/
def Supplied (k : Kernel) (r : Int) : MemOp → Prop
  | .fault cause tval _ => ∀ c, k.curenv = some c →
    ∃ va perm s, k.pmap.faultGives c cause tval = some (va, perm) ∧
      k.pmap.allocPageUser c va perm = .ok (0, s)
  | _ => r ≠ -eNoMem

/-- The step puts no page behind a shared root entry, and gives no page its
65536th reference. -/
def Returnable (k : Kernel) : MemOp → Prop
  | .sysMemMap srcid srcva _ _ _ => ∀ c src, k.curenv = some c →
    k.envid2env c srcid (k.envs c).envId = .ok src → k.pmap.isMappedPage src srcva = true →
    k.pmap.ppRef (k.pmap.getPa src srcva / 4096) < 65535
  | .sysIpcTrySend _ _ srcva _ => ∀ c, k.curenv = some c → k.pmap.isMappedPage c srcva = true →
    k.pmap.ppRef (k.pmap.getPa c srcva / 4096) < 65535
  | .fault cause tval _ => ∀ c va perm, k.curenv = some c →
    k.pmap.faultGives c cause tval = some (va, perm) → ¬ shared (vpn2 va)
  | _ => True

/-- Steps that find their pages and meet `P`. -/
inductive Uses (P : Kernel → MemOp → Prop) (k₀ : Kernel) : Kernel → Prop where
  | start : Uses P k₀ k₀
  | step {k k' : Kernel} {op : MemOp} {r : Int} (h : Uses P k₀ k) (hP : P k op)
      (hx : k.memExec op = .ok (r, k')) (hs : Supplied k r op) : Uses P k₀ k'

/-- `env_setup_vm` when both of its calls return 0. -/
def SetsUp (k : Kernel) (e : EnvIdx) (k' : Kernel) : Prop :=
  k.envSetupVm e = .ok k' ∧ ∃ s₁ s₂, k.pmap.allocPgdir e = .ok (0, s₁) ∧
    s₁.mapPage e rootWindow (s₁.pgdir e) (pteR ||| pteU) = .ok (0, s₂)

/-! ## The invariant -/

structure Tended (M : Nat → Prop) (k : Kernel) : Prop where
  consistent : Consistent M k.pmap
  userApart : k.pmap.UserApart
  live : ∀ e, (k.envs e).envStatus ≠ .free → k.pmap.ent (.pte1 e 3 3) ≠ none
  cur : CurInv k
  dstva : ∀ e, (k.envs e).envIpcRecving = true → (k.envs e).envIpcDstva < ulim

section
variable {M : Nat → Prop} {k k' : Kernel} {c e : EnvIdx} {r : Int}

theorem Tended.pmap (h : Tended M k) {s : Pmap EnvIdx} (hs : Consistent M s) (hu : s.UserApart)
    (hw : ∀ e, k.pmap.ent (.pte1 e 3 3) ≠ none → s.ent (.pte1 e 3 3) ≠ none) :
    Tended M { k with pmap := s } :=
  ⟨hs, hu, fun e he => hw e (h.live e he), h.cur, h.dstva⟩

theorem Tended.setRootEntry (h : Tended M k) (hd : k.pmap.pgdir e ≠ 0) {i : Vpn} (hi : shared i)
    (w : Nat) : Tended M (k.setRootEntry e i w) := by
  have hent := ent_setShared h.consistent.distinct hd hi w
  exact h.pmap (h.consistent.setShared hd hi w) (h.userApart.of_ent hent) fun e' he' => by
    rwa [hent]

/-- Only the env table changes. -/
theorem Tended.envs (h : Tended M k) (hp : k'.pmap = k.pmap) (hcur : CurInv k')
    (hst : ∀ x, (k'.envs x).envStatus ≠ .free → k.pmap.ent (.pte1 x 3 3) ≠ none)
    (hdst : ∀ x, (k'.envs x).envIpcRecving = true → (k'.envs x).envIpcDstva < ulim) :
    Tended M k' := by
  constructor
  · rw [hp]
    exact h.consistent
  · rw [hp]
    exact h.userApart
  · rw [hp]
    exact hst
  · exact hcur
  · exact hdst

theorem Tended.envRun (h : Tended M k) (hrun : k.envRun e = .ok k') : Tended M k' := by
  unfold Kernel.envRun at hrun
  split at hrun
  · cases hrun
  rename_i hr
  rw [not_not] at hr
  obtain rfl := Except.ok.inj hrun
  have hfree : (k.envs e).envStatus ≠ .free := by
    rw [hr]
    decide
  have hd := live_of_window (h.live e hfree)
  have hk₁ : Tended M (Kernel.setEnv { k with curenv := some e } e
      { k.envs e with envRuns := uInt ((k.envs e).envRuns + 1) }) := by
    apply h.envs
    · rfl
    · intro c hc
      obtain rfl := Option.some.inj hc
      simpa [setEnv] using hfree
    · intro x hx
      by_cases hxe : x = e
      · rw [hxe]
        exact h.live e hfree
      · exact h.live x (by simpa [setEnv, hxe] using hx)
    · intro x hx
      by_cases hxe : x = e
      · subst hxe
        simp only [setEnv, Function.update_self] at hx ⊢
        exact h.dstva x hx
      · simp only [setEnv, Function.update_of_ne hxe] at hx ⊢
        exact h.dstva x hx
  exact (hk₁.setRootEntry hd (.inl rfl) _).setRootEntry (e := e) hd (.inr rfl) _

theorem Tended.schedule (h : Tended M k) {yield : Bool} (hrun : k.schedule yield = .ok k') :
    Tended M k' := by
  obtain ⟨k₁, e, hp, -, he, hc, hrun⟩ := schedule_envRun hrun
  apply Tended.envRun _ hrun
  apply h.envs hp
  · intro c hcur
    rw [he]
    exact h.cur c (hc ▸ hcur)
  · rw [he]
    exact h.live
  · rw [he]
    exact h.dstva

/-! ## The steps -/

theorem Tended.alloc (h : Tended M k) {va perm : Nat} {s : Pmap EnvIdx} (hva : va < 2 ^ 39)
    (hv : ¬ shared (vpn2 va)) (he : (k.envs e).envStatus ≠ .free)
    (ha : k.pmap.allocPageUser e va perm = .ok (0, s)) : Tended M { k with pmap := s } := by
  have hT := apart_of_pte1 (h.live e he) hva
  obtain ⟨hs, hf, -⟩ := allocPageUser_spec h.consistent hva hv hT ha
  exact h.pmap hs (allocPageUser_userApart h.consistent hva hv hT h.userApart ha) fun x => hf.window

/-- A page that `c` has at a user address, for `e` at another. -/
theorem Tended.map (h : Tended M k) {va srcva perm : Nat} {s : Pmap EnvIdx} (hva : va < ulim)
    (hsrc : srcva < ulim) (hm : k.pmap.isMappedPage c srcva = true)
    (href : k.pmap.ppRef (k.pmap.getPa c srcva / 4096) < 65535)
    (ha : k.pmap.mapPageUser e va (k.pmap.getPa c srcva) perm = .ok (0, s)) :
    Tended M { k with pmap := s } := by
  have hlt : va < 2 ^ 39 := hva.trans (by decide)
  obtain ⟨perm₀, hview⟩ := view_of_isMappedPage (not_shared_of_user hsrc) hm
  have htgt : k.pmap.tgt (leafSlot c srcva) = some (k.pmap.getPa c srcva / 4096) :=
    tgt_eq_some.mpr ⟨perm₀, hview⟩
  obtain ⟨hf, -⟩ := mapPageUser_spec h.consistent hlt (not_shared_of_user hva)
    (apart_of_ne k.pmap hlt (vpn2_ne_three_of_user hva)) ha
  apply h.pmap
  · exact mapPageUser_consistent h.consistent h.userApart hva hsrc htgt href ha
  · exact mapPageUser_userApart h.consistent h.userApart hva hsrc htgt ha
  · intro x
    exact hf.window

theorem Tended.unmap (h : Tended M k) {va : Nat} {s : Pmap EnvIdx} (hva : va < ulim)
    (ha : k.pmap.unmapPage e va = .ok (r, s)) : Tended M { k with pmap := s } := by
  have hlt : va < 2 ^ 39 := hva.trans (by decide)
  obtain ⟨s₁, hrun, hs, hst⟩ := unmapPage_ok (d := e) h.consistent (not_shared_of_user hva)
    (Addressable.not_kernel (.inl hva))
  obtain ⟨-, rfl⟩ := Prod.mk.inj (Except.ok.inj (hrun.symm.trans ha))
  apply h.pmap hs
  · apply h.userApart.leaf hlt (hst.frame.mono _)
    · intro p _ hp
      rw [tgt, hst.ent, Function.update_self] at hp
      cases hp
    · rintro x rfl
      exact .inl (.inr (.inr (.inr rfl)))
  · intro x
    exact hst.frame.window

theorem Tended.fault (h : Tended M k) {cause : Fault} {tval : Nat} {tf : Trapframe} {res : Resume}
    (hP : Returnable k (.fault cause tval tf)) (hsup : Supplied k r (.fault cause tval tf))
    (hx : k.handleException cause tval tf = .ok (res, k')) : Tended M k' := by
  obtain ⟨c, cow, s, hc, hf, rfl⟩ := handleException_ok hx
  obtain ⟨va, perm, s₁, hg, ha⟩ := hsup c hc
  obtain ⟨rfl, hva, r₁, s₂, ha₁, hs⟩ := handleFault_gives hf hg
  obtain ⟨rfl, rfl⟩ := Prod.mk.inj (Except.ok.inj (ha.symm.trans ha₁))
  have hlive := h.cur c hc
  have h₁ := h.alloc hva (hP c va _ hc hg) hlive ha
  rcases hs with rfl | hst
  · exact h₁
  · -- the trap frame goes to a user page, which is no table
    obtain ⟨-, p, hM, hp, -, rfl⟩ := storeFrame_eq h₁.consistent h₁.userApart
      (live_of_window (h₁.live c hlive)) hst
    have hent := writePage_ent hp (frameWords tf (s₁.mem p))
    apply h.pmap
    · exact h₁.consistent.write hp _
    · exact h₁.userApart.of_ent hent
    · intro x hx
      rw [hent]
      exact (allocPageUser_spec h.consistent hva (hP c va _ hc hg)
        (apart_of_pte1 (h.live c hlive) hva) ha).2.1.window hx

theorem Tended.ipcDeliver (h : Tended M k) (he : (k.envs e).envStatus ≠ .free) (value perm : Nat) :
    Tended M (k.ipcDeliver c e value perm) := by
  apply h.envs
  · rfl
  · intro x hx
    by_cases hxe : x = e
    · simp [Kernel.ipcDeliver, schedInsertTail, setEnv, hxe]
    · simpa [Kernel.ipcDeliver, schedInsertTail, setEnv, hxe] using h.cur x hx
  · intro x hx
    by_cases hxe : x = e
    · rw [hxe]
      exact h.live e he
    · exact h.live x (by simpa [Kernel.ipcDeliver, schedInsertTail, setEnv, hxe] using hx)
  · intro x hx
    by_cases hxe : x = e
    · simp [Kernel.ipcDeliver, schedInsertTail, setEnv, hxe] at hx
    · simp only [Kernel.ipcDeliver, schedInsertTail, setEnv, Function.update_of_ne hxe] at hx ⊢
      exact h.dstva x hx

theorem Tended.send (h : Tended M k) {envid value srcva perm : Nat}
    (hP : Returnable k (.sysIpcTrySend envid value srcva perm)) (hr : r ≠ -eNoMem)
    (hx : k.sysIpcTrySend envid value srcva perm = .ok (r, k')) : Tended M k' := by
  rcases sysIpcTrySend_msg hx with ⟨rfl, -⟩ | ⟨c, e, s, hc, htgt, -⟩
  · exact h
  obtain ⟨hill, he, hrecv⟩ := sendTarget_eq_some htgt
  have hd := h.ipcDeliver (c := c) (envid2env_not_free h.cur hc he) value perm
  rw [sysIpcTrySend_eq value perm hc htgt] at hx
  split at hx
  · obtain ⟨-, rfl⟩ := Prod.mk.inj (Except.ok.inj hx)
    exact hd
  split at hx
  · obtain ⟨-, rfl⟩ := Prod.mk.inj (Except.ok.inj hx)
    exact hd
  rename_i hm
  have hm : k.pmap.isMappedPage c srcva = true := by simpa using hm
  obtain ⟨s', hmap, rfl⟩ := liftPmap_ok hx
  obtain rfl : r = 0 := (mapPageUser_codes hmap).resolve_right hr
  exact hd.map (h.dstva e hrecv) (lt_ulim_of_legal hill) hm (hP c hc hm) hmap

theorem Tended.recv (h : Tended M k) {dstva : Nat} (hx : k.sysIpcRecv dstva = .ok (r, k')) :
    Tended M k' := by
  rcases sysIpcRecv_msg hx with ⟨-, rfl⟩ | ⟨hill, c, q, hc, hrun⟩
  · exact h
  refine Tended.schedule ?_ hrun
  apply h.envs
  · rfl
  · intro x hx
    by_cases hxc : x = c
    · simp [setEnv, blocked, hxc]
    · simpa [setEnv, hxc] using h.cur x hx
  · intro x hx
    by_cases hxc : x = c
    · rw [hxc]
      exact h.live c (h.cur c hc)
    · exact h.live x (by simpa [setEnv, hxc] using hx)
  · intro x hx
    by_cases hxc : x = c
    · simp only [setEnv, blocked, hxc, Function.update_self]
      exact lt_ulim_of_legal hill
    · simp only [setEnv, Function.update_of_ne hxc] at hx ⊢
      exact h.dstva x hx

theorem Tended.memExec (h : Tended M k) {op : MemOp} (hP : Returnable k op)
    (hx : k.memExec op = .ok (r, k')) (hs : Supplied k r op) : Tended M k' := by
  cases op with
  | sysMemAlloc envid va perm =>
    rcases sysMemAlloc_ok hx with rfl | ⟨c, e, s, hc, he, hill, ha, rfl⟩
    · exact h
    have hva := lt_ulim_of_not_illegal hill
    obtain rfl : r = 0 := (allocPageUser_codes ha).resolve_right hs
    exact h.alloc (hva.trans (by decide)) (not_shared_of_user hva)
      (envid2env_not_free h.cur hc he) ha
  | sysMemMap srcid srcva dstid dstva perm =>
    rcases sysMemMap_ok hx with rfl | ⟨c, src, dst, s, hc, hsrc, hdst, hill₁, hill₂, hm, ha, rfl⟩
    · exact h
    obtain rfl : r = 0 := (mapPageUser_codes ha).resolve_right hs
    exact h.map (lt_ulim_of_not_illegal hill₂) (lt_ulim_of_not_illegal hill₁) hm
      (hP c src hc hsrc hm) ha
  | sysMemUnmap envid va =>
    rcases sysMemUnmap_ok hx with rfl | ⟨c, e, s, hc, he, hill, ha, rfl⟩
    · exact h
    exact h.unmap (lt_ulim_of_not_illegal hill) ha
  | sysIpcRecv dstva => exact h.recv hx
  | sysIpcTrySend envid value srcva perm => exact h.send hP hs hx
  | fault cause tval tf =>
    obtain ⟨⟨res, k₁⟩, hf, hx⟩ := Except.bind_ok_iff.mp hx
    obtain ⟨-, rfl⟩ := Prod.mk.inj (Except.ok.inj hx)
    exact h.fault hP hs hf
  | envRun e =>
    obtain ⟨k₁, hrun, hx⟩ := Except.bind_ok_iff.mp hx
    obtain ⟨-, rfl⟩ := Prod.mk.inj (Except.ok.inj hx)
    exact h.envRun hrun

theorem Tended.uses (h : Tended M k) (hrun : Uses Returnable k k') : Tended M k' := by
  induction hrun with
  | start => exact h
  | step _ hP hx hs ih => exact ih.memExec hP hx hs

/-- A new env has its root table, and the window that shows it. -/
theorem Tended.setsUp (h : Tended M k) (hd : k.pmap.pgdir e = 0) (hsetup : SetsUp k e k')
    (st : EnvStatus) : Tended M (k'.setStatus e st) := by
  obtain ⟨hrun, s₁, s₂, hroot, hwin⟩ := hsetup
  obtain ⟨⟨r₁, s₁'⟩, hroot', hrun⟩ := Except.bind_ok_iff.mp hrun
  obtain ⟨-, rfl⟩ := Prod.mk.inj (Except.ok.inj (hroot.symm.trans hroot'))
  obtain ⟨⟨r₂, s₂'⟩, hwin', hrun⟩ := Except.bind_ok_iff.mp hrun
  obtain ⟨-, rfl⟩ := Prod.mk.inj (Except.ok.inj (hwin.symm.trans hwin'))
  obtain rfl := Except.ok.inj hrun
  obtain ⟨hs₂, hu₂, hw₂, hkeep⟩ := newDir_spec h.consistent h.userApart hd hroot hwin
  have hd₂ := live_of_window hw₂
  have h₂ : Tended M { k with pmap := s₂ } := h.pmap hs₂ hu₂ hkeep
  have h₃ := h₂.setRootEntry hd₂ (.inr rfl) (Kernel.baseEntry { k with pmap := s₂ } 4 ||| pteV)
  have hent := ent_setShared hs₂.distinct hd₂ (.inr rfl)
    (Kernel.baseEntry { k with pmap := s₂ } 4 ||| pteV)
  apply h₃.envs
  · rfl
  · intro c hc
    have hce : c ≠ e := by
      rintro rfl
      exact live_of_window (h.live c (h.cur c hc)) hd
    simpa [setStatus, setEnv, Kernel.setRootEntry, hce] using h.cur c hc
  · intro x hx
    rw [Kernel.setRootEntry, hent]
    by_cases hxe : x = e
    · rw [hxe]
      exact hw₂
    · exact h₂.live x (by simpa [setStatus, setEnv, Kernel.setRootEntry, hxe] using hx)
  · intro x hx
    by_cases hxe : x = e
    · subst hxe
      simp only [setStatus, setEnv, Function.update_self] at hx ⊢
      exact h.dstva x hx
    · simp only [setStatus, setEnv, Function.update_of_ne hxe] at hx ⊢
      exact h.dstva x hx

theorem schedRemove_pmap (h : k.schedRemove e = .ok k') : k'.pmap = k.pmap := by
  unfold schedRemove at h
  split at h
  · cases h
  · rw [← Except.ok.inj h]

theorem schedRemove_some {q : Tailq EnvIdx} (h : k.envSchedList.remove e = some q) :
    k.schedRemove e = .ok { k with envSchedList := q } := by
  rw [schedRemove, h]

/-- From `env_setup_vm` to `env_free`. The page references are all given back
before the last statement of `env_free`, which takes the env off the scheduler
list. -/
theorem env_free_returns_memory {k₀ k₁ k₂ : Kernel} {st : EnvStatus} (h₀ : Tended M k₀)
    (hd : k₀.pmap.pgdir e = 0) (hsetup : SetsUp k₀ e k₁)
    (hrun : Uses Returnable (k₁.setStatus e st) k₂) :
    ∃ s, k₂.pmap.destroyPgdir e = .ok (0, s) ∧ Released M e k₂.pmap s ∧
      (∀ k₃, k₂.envFree e = .ok k₃ → k₃.pmap = s) ∧
      (k₂.envSchedList.remove e ≠ none → ∃ k₃, k₂.envFree e = .ok k₃) := by
  have h₂ := (h₀.setsUp hd hsetup st).uses hrun
  obtain ⟨s, hdes, -, hrel⟩ := destroyPgdir_released h₂.consistent e
  refine ⟨s, hdes, hrel, fun k₃ hfree => ?_, fun hrem => ?_⟩
  · obtain ⟨⟨r', s'⟩, hdes', hfree⟩ := Except.bind_ok_iff.mp hfree
    obtain ⟨-, rfl⟩ := Prod.mk.inj (Except.ok.inj (hdes.symm.trans hdes'))
    exact schedRemove_pmap hfree
  · obtain ⟨q, hq⟩ := Option.ne_none_iff_exists'.mp hrem
    unfold envFree
    rw [hdes]
    exact ⟨_, schedRemove_some hq⟩

end

/-! Running a step on a concrete state. -/

def MemOp.code (k : Kernel) (op : MemOp) : Option Int :=
  match k.memExec op with
  | .ok (r, _) => some r
  | .error _ => none

def MemOp.after (k : Kernel) (op : MemOp) : Kernel :=
  match k.memExec op with
  | .ok (_, k') => k'
  | .error _ => k

theorem MemOp.run_after {k : Kernel} {op : MemOp} {r : Int} (h : op.code k = some r) :
    k.memExec op = .ok (r, op.after k) := by
  unfold code at h
  unfold after
  cases hx : k.memExec op with
  | error e => simp [hx] at h
  | ok p =>
    rw [hx] at h
    obtain ⟨r', k'⟩ := p
    rw [Option.some.inj h]

theorem supplied_fault {k : Kernel} {c : EnvIdx} {cause : Fault} {tval va : Nat} {tf : Trapframe}
    {r : Int} (hc : k.curenv = some c) (hg : k.pmap.faultGives c cause tval = some (va, demandPerm))
    (ha : (Call.allocPageUser c va demandPerm).code k.pmap = some 0) :
    Supplied k r (.fault cause tval tf) := by
  intro c' hc'
  obtain rfl := Option.some.inj (hc.symm.trans hc')
  exact ⟨va, demandPerm, _, hg, Call.run_after ha⟩

/-- The kernel before its first env. -/
def noEnv : Kernel := envInit noEnvs 0x80300000

theorem noEnv_tended : Tended (· ∈ somePages) noEnv := by
  constructor
  · exact noDirs_consistent (s := noEnvs) (fun _ => rfl) (by decide) (fun _ _ => rfl) (by decide)
  · intro d va _ p hp
    rw [tgt, noDirs_ent (s := noEnv.pmap) (fun _ => rfl)] at hp
    cases hp
  · intro e he
    exact absurd rfl he
  · intro c hc
    cases hc
  · intro e he
    cases he

/-- Env 0 after `env_setup_vm`. -/
def firstEnv : Kernel :=
  Kernel.setRootEntry { noEnv with pmap := oneEnvWindow } 0 4
    (Kernel.baseEntry { noEnv with pmap := oneEnvWindow } 4 ||| pteV)

theorem firstEnv_setsUp : SetsUp noEnv 0 firstEnv := by
  refine ⟨?_, oneEnvDir, oneEnvWindow, oneEnvDir_run, oneEnvWindow_run⟩
  have hroot : noEnv.pmap.allocPgdir 0 = .ok (0, oneEnvDir) := oneEnvDir_run
  have hwin : oneEnvDir.mapPage 0 rootWindow (oneEnvDir.pgdir 0) (pteR ||| pteU) =
    .ok (0, oneEnvWindow) := oneEnvWindow_run
  exact Except.bind_ok_iff.mpr ⟨_, hroot, Except.bind_ok_iff.mpr ⟨_, hwin, rfl⟩⟩

/-- Env 0 when it runs for the first time. -/
def firstTurn : Kernel := (MemOp.envRun 0).after (firstEnv.setStatus 0 .runnable)

theorem firstTurn_uses (P : Kernel → MemOp → Prop)
    (hP : P (firstEnv.setStatus 0 .runnable) (.envRun 0)) :
    Uses P (firstEnv.setStatus 0 .runnable) firstTurn := by
  have hnm : (0 : Int) ≠ -eNoMem := by decide
  exact .step .start hP (MemOp.run_after (r := 0) (by decide +kernel)) hnm

/-- A page for the first store, given back at the end. -/
theorem env_free_returns_memory_store : ∃ k₂ s,
    Uses Returnable (firstEnv.setStatus 0 .runnable) k₂ ∧ k₂.pmap.isMappedPage 0 0x400000 = true ∧
      k₂.pmap.destroyPgdir 0 = .ok (0, s) ∧ Released (· ∈ somePages) 0 k₂.pmap s := by
  have hg : firstTurn.pmap.faultGives 0 .store 0x400000 = some (0x400000, demandPerm) := by
    decide +kernel
  have huses : Uses Returnable (firstEnv.setStatus 0 .runnable)
      ((MemOp.fault .store 0x400000 fun _ => 0).after firstTurn) := by
    refine .step (firstTurn_uses _ trivial) ?_ (MemOp.run_after (r := 0) (by decide +kernel))
      (supplied_fault rfl hg (by decide +kernel))
    intro c va perm hc hg'
    obtain rfl := Option.some.inj hc
    obtain ⟨rfl, -⟩ := Prod.mk.inj (Option.some.inj (hg.symm.trans hg'))
    decide
  obtain ⟨s, hdes, hrel, -⟩ := env_free_returns_memory noEnv_tended rfl firstEnv_setsUp huses
  exact ⟨_, s, huses, by decide +kernel, hdes, hrel⟩

/-- A load behind root entry `[4]`: the page goes into a table that all envs
share, and is not given back. -/
theorem fault_page_not_returned : ∃ k₂ s,
    Uses (fun _ _ => True) (firstEnv.setStatus 0 .runnable) k₂ ∧
      k₂.pmap.destroyPgdir 0 = .ok (0, s) ∧ ¬ Released (· ∈ somePages) 0 k₂.pmap s := by
  have hg : firstTurn.pmap.faultGives 0 .load 0x100100000 = some (0x100100000, demandPerm) := by
    decide +kernel
  have halloc :
      (Call.allocPageUser (0 : EnvIdx) 0x100100000 demandPerm).code firstTurn.pmap = some 0 := by
    decide +kernel
  have hfault : firstTurn.memExec (.fault .load 0x100100000 fun _ => 0) =
      .ok (0, { firstTurn with
        pmap := (Call.allocPageUser 0 0x100100000 demandPerm).after firstTurn.pmap }) := by
    have hm : firstTurn.pmap.isMappedPage 0 0x100100000 = false := by decide +kernel
    have hrun : firstTurn.pmap.handleFault 0 .load 0x100100000 (fun _ => 0) = .ok (false,
        (Call.allocPageUser 0 0x100100000 demandPerm).after firstTurn.pmap) := by
      rw [handleFault, if_neg (by decide), if_neg (by rw [hm]; decide)]
      exact Except.bind_ok_iff.mpr ⟨_, Call.run_after halloc, rfl⟩
    exact Except.bind_ok_iff.mpr ⟨_, Except.bind_ok_iff.mpr ⟨_, hrun, rfl⟩, rfl⟩
  have huses := Uses.step (firstTurn_uses (fun _ _ => True) trivial) trivial hfault
    (supplied_fault rfl hg halloc)
  have hs := ((noEnv_tended.setsUp rfl firstEnv_setsUp .runnable).uses
    (firstTurn_uses Returnable trivial)).consistent
  -- the page is the next free one, and no slot leads to it
  obtain ⟨q, hq⟩ : ∃ q, firstTurn.pmap.allocEntry 0x80304 256 demandPerm = some (q,
      (Call.allocPageUser 0 0x100100000 demandPerm).after firstTurn.pmap) := by
    have hrun : firstTurn.pmap.allocPageUser 0 0x100100000 demandPerm = .ok (0, _) :=
      Call.run_after halloc
    have hwalk : firstTurn.pmap.walk (firstTurn.pmap.pgdir 0 >>> 12) 0x100100000 =
        .pte0 0x80304 := by
      decide +kernel
    rw [allocPageUser, if_neg (by decide), descend, if_neg (by decide +kernel), hwalk] at hrun
    dsimp only at hrun
    rw [replaceLeaf, if_neg (by decide +kernel)] at hrun
    unfold allocLeaf at hrun
    split at hrun
    · cases hrun
    · rename_i q s' ha
      obtain rfl := (Prod.mk.inj (Except.ok.inj hrun)).2
      exact ⟨q, ha⟩
  obtain ⟨hM, hs', hent⟩ := allocKernel_spec hs (by decide) hq
  obtain ⟨s, hdes, hs₂, -⟩ := destroyPgdir_released hs' 0
  refine ⟨_, s, huses, hdes, fun hrel => ?_⟩
  have hfree := hrel.freed q hM fun x hx => absurd rfl (hs'.mem_of_tgt hx).2
  exact (hs₂.counted.free_sub q hfree).2 rfl

end RiscvMos.Kernel
