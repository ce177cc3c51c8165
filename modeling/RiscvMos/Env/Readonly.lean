import RiscvMos.Env.FaultSafe
import RiscvMos.Env.GuardFault
import RiscvMos.Env.User
import RiscvMos.Env.Reach
import RiscvMos.Pmap.Run

/-!
The kernel's bookkeeping is read-only for user code: `envs` and `pages`, the
page tables in the window, and the pages an env was only given to read. The
fault handler gives `PTE_W` to any mapped page that is stored to, so this holds
in the runs where no such page is.
-/

namespace RiscvMos

/-- `G e p`: env `e` was given page `p` with `PTE_W` or `PTE_COW`. -/
abbrev Grants := EnvIdx → Nat → Prop

namespace Kernel

open Pmap

/-- The page that a step gives out: the env, the address and the permission. -/
def Act.gives (k : Kernel) (cur : EnvIdx) : Act → Option (EnvIdx × Nat × Nat)
  | .access cause va _ _ =>
    if k.pmap.translate cur cause va = none then
      (k.pmap.faultGives cur cause va).map fun g => (cur, g)
    else none
  | .sysMemAlloc envid va perm =>
    match k.envid2env cur envid (k.envs cur).envId with
    | .ok e => some (e, va, uInt perm)
    | .error _ => none
  | .sysMemMap _ _ dstid dstva perm =>
    match k.envid2env cur dstid (k.envs cur).envId with
    | .ok e => some (e, dstva, uInt perm)
    | .error _ => none
  | _ => none

/-- The grants after a step: those of before whose page was not freed, and the
page that the step put in place. -/
def regrant (G : Grants) (k : Kernel) (a : Act) (r : Int) (k' : Kernel) : Grants := fun e p =>
  (G e p ∧ p ∉ k'.pmap.pageFreeList) ∨
  ∃ cur va perm, k.curenv = some cur ∧ a.gives k cur = some (e, va, perm) ∧ r = 0 ∧
    perm &&& (pteW ||| pteCow) ≠ 0 ∧ k'.pmap.isMappedPage e va = true ∧
    k'.pmap.getPerm e va = perm ||| pteV ∧ p = k'.pmap.getPa e va / 4096

/-- No entry that user code can use and write leads into `envs` or `pages`, to a
table in the window, or to a page the env was not given for writing. -/
def ReadOnly (G : Grants) (k : Kernel) : Prop :=
  ∀ e va pte, k.pmap.pgdir e ≠ 0 → k.pmap.leafPte (k.pmap.pgdir e >>> 12) va = some pte →
    pte &&& pteU ≠ 0 →
    vpn2 va = 4 ∨ (vpn2 va = 3 ∧ k.pmap.TablePage (ptePage pte)) ∨ ¬ G e (ptePage pte) →
    pte &&& pteW = 0

/-- The steps that keep the bookkeeping read-only. -/
def Careful (G : Grants) (k : Kernel) (cur : EnvIdx) : Act → Prop
  | .access cause va _ _ => k.pmap.translate cur cause va = none → 0x3000 ≤ va →
    va < 0x200000000 → CarefulFault G k.pmap cur cause va
  | .sysMemAlloc envid va _ => ∀ e, k.envid2env cur envid (k.envs cur).envId = .ok e →
    k.pmap.isMappedPage e va = true → k.pmap.SoleRef e va ∨ k.pmap.pageFreeList ≠ []
  | .sysMemMap srcid srcva _ _ _ => ∀ src, k.envid2env cur srcid (k.envs cur).envId = .ok src →
    k.pmap.isMappedPage src srcva = true → k.pmap.ppRef (k.pmap.getPa src srcva / 4096) < 65535
  | _ => True

/-! ## The invariant -/

/-- Memory is guarded, every env has its directory, and `base_pgdir` leads to the
tables of the kernel half. -/
structure Secure (M K1 K0 : Nat → Prop) (G : Grants) (k : Kernel) : Prop where
  guarded : Guarded M K1 K0 G k.pmap
  baseApart : ¬ M (k.basePgdir >>> 12) ∧ ¬ K0 (k.basePgdir >>> 12)
  base : ∀ i, shared i → valid (k.baseEntry i) ∧ K1 (ptePage (k.baseEntry i))
  live : ∀ e, (k.envs e).envStatus ≠ .free → k.pmap.pgdir e ≠ 0 ∧ k.pmap.ent (.pte1 e 3 3) ≠ none
  cur : ∀ c, k.curenv = some c → (k.envs c).envStatus ≠ .free ∧
    ∀ i, shared i → valid (k.pmap.mem (k.pmap.pgdir c >>> 12) i)

section
variable {M K1 K0 : Nat → Prop} {G G' : Grants} {k k' : Kernel} {c e : EnvIdx}

theorem Secure.readOnly (h : Secure M K1 K0 G k) : ReadOnly G k := by
  intro e va pte hd hl hu hbook
  by_contra hw
  obtain ⟨hv, -, hn, hg⟩ := h.guarded.writable hd hl hu hw
  rcases hbook with h4 | ⟨-, htab⟩ | hng
  · exact hv (.inr h4)
  · exact hn htab
  · exact hng hg

/-- The running env can take a fault. -/
theorem Secure.faultReady (h : Secure M K1 K0 G k) (hc : k.curenv = some c) :
    FaultReady M K1 K0 k.pmap c := by
  obtain ⟨hst, hent⟩ := h.cur c hc
  obtain ⟨hd, hw⟩ := h.live c hst
  exact ⟨h.guarded.consistent, h.guarded.kernel, hd, hent, hw, h.guarded.userApart,
    h.guarded.noCow c⟩

/-- A step on memory. -/
theorem Secure.step (h : Secure M K1 K0 G k) {s : Pmap EnvIdx} (hg : Guarded M K1 K0 G' s)
    (hc : Carries M K0 k.pmap s) : Secure M K1 K0 G' { k with pmap := s } := by
  have hd : ∀ e, k.pmap.pgdir e ≠ 0 → s.pgdir e ≠ 0 := fun e he h0 => he ((hc.roots e).1.mp h0)
  have hbase : ∀ i, Kernel.baseEntry { k with pmap := s } i = k.baseEntry i := by
    intro i
    simp only [baseEntry, hc.base _ h.baseApart.1 h.baseApart.2]
  refine ⟨hg, h.baseApart, fun i hi => ?_, fun e he => ?_, fun c' hc' => ?_⟩
  · rw [hbase]
    exact h.base i hi
  · obtain ⟨hd₀, hw₀⟩ := h.live e he
    exact ⟨hd e hd₀, hc.window e hw₀⟩
  · obtain ⟨hst, hent⟩ := h.cur c' hc'
    refine ⟨hst, fun i hi => ?_⟩
    show valid (s.mem (s.pgdir c' >>> 12) i)
    rw [(hc.roots c').2]
    exact hc.entries c' i (h.live c' hst).1 hi (hent i hi)

theorem ptePage_or_pteV (w : Nat) : ptePage (w ||| pteV) = ptePage w := by
  rw [ptePage_eq, ptePage_eq]
  have hdiv : (w ||| pteV) / 1024 = w / 1024 := by
    have := Nat.shiftRight_or_distrib (a := w) (b := pteV) (i := 10)
    simpa [Nat.shiftRight_eq_div_pow, pteV] using this
  rw [hdiv]

/-- `env_run` sets the shared entries of the env it runs. -/
theorem Secure.setRootEntry (h : Secure M K1 K0 G k) (hd : k.pmap.pgdir e ≠ 0) {i : Vpn}
    (hi : shared i) {w : Nat} (hv : valid w) (hw : K1 (ptePage w)) :
    Secure M K1 K0 G (k.setRootEntry e i w) := by
  refine h.step (h.guarded.setShared hd hi hw) (.of_ent rfl
    (ent_setShared h.guarded.consistent.distinct hd hi w) (fun d' j _ _ hvj => ?_) fun p hp _ => ?_)
  · rw [setPte_mem]
    split
    · exact hv
    · exact hvj
  · refine setPte_mem_of_ne _ i w ?_
    rintro rfl
    exact hp (h.guarded.consistent.mem_of_tgt (x := .root e) (by simp [tgt, ent, ent.root, hd]))

/-- Only what the scheduler keeps changes. -/
theorem Secure.sched (h : Secure M K1 K0 G k) (hp : k'.pmap = k.pmap)
    (hb : k'.basePgdir = k.basePgdir) (hst : ∀ e, (k'.envs e).envStatus = (k.envs e).envStatus)
    (hcur : ∀ c, k'.curenv = some c → (k.envs c).envStatus ≠ .free ∧
      ∀ i, shared i → valid (k.pmap.mem (k.pmap.pgdir c >>> 12) i)) : Secure M K1 K0 G k' := by
  refine ⟨by rw [hp]; exact h.guarded, by rw [hb]; exact h.baseApart,
    fun i hi => ?_, fun e he => ?_,
    fun c hc => ?_⟩
  · simp only [baseEntry, hp, hb]
    exact h.base i hi
  · rw [hst] at he
    rw [hp]
    exact h.live e he
  · rw [hst, hp]
    exact hcur c hc

theorem Secure.baseEntry_setRootEntry (h : Secure M K1 K0 G k) (hd : k.pmap.pgdir e ≠ 0) (i j : Vpn)
    (w : Nat) : (k.setRootEntry e i w).baseEntry j = k.baseEntry j := by
  have hne : k.basePgdir >>> 12 ≠ k.pmap.pgdir e >>> 12 := by
    intro heq
    apply h.baseApart.1
    rw [heq]
    exact h.guarded.consistent.mem_of_tgt (x := .root e) (by simp [tgt, ent, ent.root, hd])
  show (k.pmap.setPte _ i w).mem (k.basePgdir >>> 12) j = k.pmap.mem (k.basePgdir >>> 12) j
  rw [setPte_mem_of_ne _ i w hne]

theorem Secure.envRun (h : Secure M K1 K0 G k) (hrun : k.envRun e = .ok k') :
    Secure M K1 K0 G k' := by
  unfold Kernel.envRun at hrun
  split at hrun
  · cases hrun
  rename_i hr
  rw [not_not] at hr
  obtain rfl := Except.ok.inj hrun
  have hfree : (k.envs e).envStatus ≠ .free := by rw [hr]; decide
  have hd := (h.live e hfree).1
  have h2 := h.base 2 (.inl rfl)
  have h4 := h.base 4 (.inr rfl)
  have hset := (h.setRootEntry hd (.inl rfl) h2.1 h2.2).setRootEntry (e := e) hd (.inr rfl)
    (valid_or_pteV (k.baseEntry 4)) (by rw [ptePage_or_pteV]; exact h4.2)
  have hbase := h.baseEntry_setRootEntry hd 2 4 (k.baseEntry 2)
  refine hset.sched ?_ rfl (fun x => ?_) fun c hc => ?_
  · rw [← hbase]
    rfl
  · by_cases hx : x = e
    · subst hx
      simp [Kernel.setRootEntry, setEnv]
    · simp [Kernel.setRootEntry, setEnv, hx]
  · obtain rfl := Option.some.inj hc
    refine ⟨hfree, fun i hi => ?_⟩
    show valid (((k.pmap.setPte _ 2 _).setPte _ 4 _).mem (k.pmap.pgdir e >>> 12) i)
    rcases hi with rfl | rfl
    · rw [setPte_mem, if_neg fun h => absurd h.2 (by decide), setPte_mem, if_pos ⟨rfl, rfl⟩]
      exact h2.1
    · rw [setPte_mem, if_pos ⟨rfl, rfl⟩]
      exact valid_or_pteV _

theorem Secure.schedule (h : Secure M K1 K0 G k) {yield : Bool} (hrun : k.schedule yield = .ok k') :
    Secure M K1 K0 G k' := by
  obtain ⟨k₁, e, hp, hb, he, hc, hrun⟩ := schedule_envRun hrun
  refine Secure.envRun (h.sched hp hb (fun x => by rw [he]) fun c hcur => ?_) hrun
  exact h.cur c (hc ▸ hcur)

/-! ## The steps -/

theorem regrant_old {a : Act} {r : Int} (e : EnvIdx) (p : Nat) (hg : G e p)
    (hp : p ∉ k'.pmap.pageFreeList) : regrant G k a r k' e p := .inl ⟨hg, hp⟩

/-- The page of an entry that a step has put in place. -/
theorem regrant_new {a : Act} {va perm q : Nat} (hc : k.curenv = some c)
    (hgives : a.gives k c = some (e, va, perm)) (hv : ¬ shared (vpn2 va))
    (hw : perm &&& pteW ≠ 0) (he : k'.pmap.ent (leafSlot e va) = some (q, perm ||| pteV)) :
    regrant G k a 0 k' e q := by
  refine .inr ⟨c, va, perm, hc, hgives, rfl, ?_, ?_, getPerm_of_view hv he, ?_⟩
  · rw [Nat.and_or_distrib_left]
    intro h0
    exact hw (Nat.or_eq_zero_iff.mp h0).1
  · rw [isMappedPage_eq hv, view, he]
    rfl
  · rw [getPa_of_view hv he]
    omega

theorem Secure.access (h : Secure M K1 K0 G k) {cause : Fault} {va w : Nat} {tf : Trapframe}
    (hcare : ∀ c, k.curenv = some c → Careful G k c (.access cause va w tf))
    (ha : k.access cause va w tf = .ok k') :
    Secure M K1 K0 (regrant G k (.access cause va w tf) 0 k') k' := by
  unfold Kernel.access at ha
  split at ha
  · cases ha
  rename_i c hc
  split at ha
  · -- the hardware makes the access
    rename_i p htr
    obtain rfl := Except.ok.inj ha
    by_cases hst : cause = .store
    · subst hst
      simp only [if_true]
      unfold Pmap.translate at htr
      split at htr
      · split at htr
        · rename_i pte hl
          split at htr
          · rename_i hperm
            obtain rfl := Option.some.inj htr
            obtain ⟨hu, -, hw⟩ := hperm
            have hd := (h.live c (h.cur c hc).1).1
            obtain ⟨-, hM, hn, -⟩ := h.guarded.writable hd hl hu hw
            refine h.step ((h.guarded.write hM hn _).regrant fun e p hg hp => ?_)
              (.of_write hM hn (Function.update (k.pmap.mem (ptePage pte)) (wordIdx va) w))
            exact regrant_old e p hg hp
          · cases htr
        · cases htr
      · cases htr
    · simp only [if_neg hst]
      exact h.step (h.guarded.regrant fun e p hg hp => regrant_old e p hg hp) (.refl _)
  · rename_i htr
    obtain ⟨⟨res, k₁⟩, hex, ha⟩ := Except.bind_ok_iff.mp ha
    obtain rfl := Except.ok.inj ha
    obtain ⟨c', cow, s, hc', hf, rfl⟩ := handleException_ok hex
    obtain rfl := Option.some.inj (hc.symm.trans hc')
    have hrange : 0x3000 ≤ va ∧ va < 0x200000000 := by
      by_contra hn
      rw [handleFault, if_pos (by omega)] at hf
      cases hf
    have hva : va < 2 ^ 39 := by omega
    have hstep : Guarded M K1 K0 (regrant G k (.access cause va w tf) 0 { k with pmap := s }) s ∧
        Carries M K0 k.pmap s := by
      refine h.guarded.handleFault (h.faultReady hc) hva (hcare c hc htr hrange.1 hrange.2)
        (fun e p hg hp => regrant_old e p hg hp) (fun va' q hgives hv he => ?_) hf
      apply regrant_new hc ?_ hv (by decide) he
      simp only [Act.gives, htr, if_true, hgives, Option.map_some]
    exact h.step hstep.1 hstep.2

theorem envid2env_live (h : Secure M K1 K0 G k) (hc : k.curenv = some c) {envid checkperm : Nat}
    (he : k.envid2env c envid checkperm = .ok e) :
    k.pmap.pgdir e ≠ 0 := by
  have hst : (k.envs e).envStatus ≠ .free := by
    unfold envid2env at he
    simp only at he
    split at he
    · obtain rfl := Except.ok.inj he
      exact (h.cur c hc).1
    split at he
    · cases he
    rename_i hn
    split at he
    · cases he
    · obtain rfl := Except.ok.inj he
      exact fun hf => hn (.inl hf)
  exact (h.live e hst).1

theorem Secure.sysMemAlloc (h : Secure M K1 K0 G k) {envid va perm : Nat} {r : Int}
    (hcare : ∀ c, k.curenv = some c → Careful G k c (.sysMemAlloc envid va perm))
    (ha : k.sysMemAlloc envid va perm = .ok (r, k')) :
    Secure M K1 K0 (regrant G k (.sysMemAlloc envid va perm) r k') k' := by
  have hsame : ∀ r, Secure M K1 K0 (regrant G k (.sysMemAlloc envid va perm) r k) k := fun r =>
    h.step (h.guarded.regrant fun e p hg hp => regrant_old e p hg hp) (.refl _)
  rcases sysMemAlloc_ok ha with rfl | ⟨c, e, s, hc, he, hill, halloc, rfl⟩
  · exact hsame _
  have hva := lt_ulim_of_not_illegal hill
  have hlt : va < 2 ^ 39 := hva.trans (by decide)
  have hv := not_shared_of_user hva
  have hd := envid2env_live h hc he
  have hT := apart_of_ne (d := e) k.pmap hlt (vpn2_ne_three_of_user hva)
  have hG : ∀ e' p, G e' p → p ∉ s.pageFreeList →
      regrant G k (.sysMemAlloc envid va perm) r { k with pmap := s } e' p :=
    fun e' p hg hp => regrant_old e' p hg hp
  by_cases h0 : r = 0
  · subst h0
    refine h.step (h.guarded.alloc hlt hd hv hT hG
      (fun h3 => absurd h3 (vpn2_ne_three_of_user hva)) (fun q hq hw => ?_) halloc)
      (.of_touched hlt hd (allocPageUser_spec h.guarded.consistent hlt hv hT halloc).2.1)
    exact regrant_new hc (by simp only [Act.gives, he]) hv hw hq
  · have hm : k.pmap.isMappedPage e va = false := by
      by_contra hm
      have hm' : k.pmap.isMappedPage e va = true := by simpa using hm
      exact h0 (allocPageUser_zero h.guarded.consistent hv hm' (hcare c hc e he hm') halloc)
    have hnone : k.pmap.ent (leafSlot e va) = none := by
      rw [isMappedPage_eq hv] at hm
      simpa [view] using hm
    exact h.step (h.guarded.allocFail hlt hd hv hT hG hnone halloc h0)
      (.of_touched hlt hd (allocPageUser_fail h.guarded.consistent hlt hv hT hnone halloc h0).2.1)

theorem Secure.sysMemMap (h : Secure M K1 K0 G k) {srcid srcva dstid dstva perm : Nat} {r : Int}
    (hcare : ∀ c, k.curenv = some c → Careful G k c (.sysMemMap srcid srcva dstid dstva perm))
    (ha : k.sysMemMap srcid srcva dstid dstva perm = .ok (r, k')) :
    Secure M K1 K0 (regrant G k (.sysMemMap srcid srcva dstid dstva perm) r k') k' := by
  have hsame : ∀ r, Secure M K1 K0 (regrant G k (.sysMemMap srcid srcva dstid dstva perm) r k) k :=
    fun r => h.step (h.guarded.regrant fun e p hg hp => regrant_old e p hg hp) (.refl _)
  rcases sysMemMap_ok ha with rfl | ⟨c, src, dst, s, hc, hsrc, hdst, hill₁, hill₂, hm', hmap, rfl⟩
  · exact hsame _
  have hva : srcva < ulim ∧ dstva < ulim :=
    ⟨lt_ulim_of_not_illegal hill₁, lt_ulim_of_not_illegal hill₂⟩
  have hlt : dstva < 2 ^ 39 := hva.2.trans (by decide)
  have hv := not_shared_of_user hva.2
  have hd := envid2env_live h hc hdst
  obtain ⟨p₀, hview⟩ := view_of_isMappedPage (not_shared_of_user hva.1) hm'
  have htgt : k.pmap.tgt (leafSlot src srcva) = some (k.pmap.getPa src srcva / 4096) :=
    tgt_eq_some.mpr ⟨p₀, hview⟩
  refine h.step (h.guarded.map hva.2 hd hva.1 htgt (hcare c hc src hsrc hm')
    (fun e' p hg hp => regrant_old e' p hg hp) (fun hr he hw => ?_) hmap)
    (.of_touched hlt hd (mapPageUser_spec h.guarded.consistent hlt hv
      (apart_of_ne k.pmap hlt (vpn2_ne_three_of_user hva.2)) hmap).1)
  subst hr
  exact regrant_new hc (by simp only [Act.gives, hdst]) hv hw he

theorem Secure.sysMemUnmap (h : Secure M K1 K0 G k) {envid va : Nat} {r : Int}
    (ha : k.sysMemUnmap envid va = .ok (r, k')) :
    Secure M K1 K0 (regrant G k (.sysMemUnmap envid va) r k') k' := by
  have hsame : ∀ r, Secure M K1 K0 (regrant G k (.sysMemUnmap envid va) r k) k := fun r =>
    h.step (h.guarded.regrant fun e p hg hp => regrant_old e p hg hp) (.refl _)
  rcases sysMemUnmap_ok ha with rfl | ⟨c, e, s, hc, he, hill, hun, rfl⟩
  · exact hsame _
  have hva := lt_ulim_of_not_illegal hill
  have hlt : va < 2 ^ 39 := hva.trans (by decide)
  have hd := envid2env_live h hc he
  obtain ⟨s₁, hun₁, hs₁, hst⟩ := unmapPage_ok (d := e) h.guarded.consistent (not_shared_of_user hva)
    (Addressable.not_kernel (.inl hva))
  obtain ⟨-, rfl⟩ := Prod.mk.inj (Except.ok.inj (hun₁.symm.trans hun))
  refine h.step (h.guarded.unmap hlt hd (fun e' p hg hp => regrant_old e' p hg hp) hs₁ hst)
    (.of_frame hst.frame fun d' hd' => ?_)
  cases hd'

theorem Secure.act (h : Secure M K1 K0 G k) {a : Act} {r : Int}
    (hcare : ∀ c, k.curenv = some c → Careful G k c a) (ha : k.act a = .ok (r, k')) :
    Secure M K1 K0 (regrant G k a r k') k' := by
  have hsched : ∀ {yield : Bool}, k.schedule yield = .ok k' →
      Secure M K1 K0 (regrant G k a r k') k' := by
    intro yield hrun
    have h' := h.schedule hrun
    exact h'.step (h'.guarded.regrant fun e p hg hp => regrant_old e p hg hp) (.refl _)
  cases a with
  | access cause va w tf =>
    obtain ⟨k₁, hacc, ha⟩ := Except.bind_ok_iff.mp ha
    obtain ⟨rfl, rfl⟩ := Prod.mk.inj (Except.ok.inj ha)
    exact h.access hcare hacc
  | sysMemAlloc envid va perm => exact h.sysMemAlloc hcare ha
  | sysMemMap srcid srcva dstid dstva perm => exact h.sysMemMap hcare ha
  | sysMemUnmap envid va => exact h.sysMemUnmap ha
  | sysYield =>
    obtain ⟨k₁, hs, ha⟩ := Except.bind_ok_iff.mp ha
    obtain ⟨-, rfl⟩ := Prod.mk.inj (Except.ok.inj ha)
    exact hsched hs
  | tick =>
    obtain ⟨k₁, hs, ha⟩ := Except.bind_ok_iff.mp ha
    obtain ⟨-, rfl⟩ := Prod.mk.inj (Except.ok.inj ha)
    exact hsched hs

end

/-! ## Runs -/

/-- The states that careful steps lead to, each with the grants made so far. -/
inductive Leads (k₀ : Kernel) (G₀ : Grants) : Kernel → Grants → Prop where
  | start : Leads k₀ G₀ k₀ G₀
  | step {k k' : Kernel} {G : Grants} {a : Act} {r : Int} (h : Leads k₀ G₀ k G)
      (hcare : ∀ c, k.curenv = some c → Careful G k c a) (ha : k.act a = .ok (r, k')) :
      Leads k₀ G₀ k' (regrant G k a r k')

theorem bookkeeping_read_only {M K1 K0 : Nat → Prop} {k₀ k : Kernel} {G₀ G : Grants}
    (h₀ : Secure M K1 K0 G₀ k₀) (h : Leads k₀ G₀ k G) : ReadOnly G k := by
  have hsec : Secure M K1 K0 G k := by
    induction h with
    | start => exact h₀
    | step _ hcare ha ih => exact ih.act hcare ha
  exact hsec.readOnly

/-- Env 0 runs, and no page was given out yet. -/
def runningEnv : Kernel :=
  oneEnv.setEnv 0 { zeroEnv with envStatus := .runnable }

theorem runningEnv_secure :
    Secure (· ∈ somePages) kernelPte1 kernelPte0 (fun _ _ => False) runningEnv := by
  have hr := oneEnv_ready
  have hstatus : ∀ e, (runningEnv.envs e).envStatus ≠ .free → e = 0 := by
    intro e he
    by_contra hne
    simp [runningEnv, setEnv, hne, oneEnv, envInit, zeroEnv] at he
  refine ⟨⟨hr.consistent, hr.kernel, ?_, hr.userApart, fun d j k p perm he => ?_,
    fun d i j k p perm he hu hw => ?_⟩, by decide, ?_, fun e he => ?_, fun c hc => ?_⟩
  · rintro t i (rfl | rfl)
    · revert i
      decide +kernel
    · revert i
      decide +kernel
  · rw [(Prod.mk.inj (oneEnvPmap_leaf he).2).2]
    decide
  · rw [(Prod.mk.inj (oneEnvPmap_leaf he).2).2] at hw
    exact absurd (by decide) hw
  · rintro i (rfl | rfl)
    · decide +kernel
    · decide +kernel
  · rw [hstatus e he]
    exact ⟨hr.live, hr.window⟩
  · obtain rfl := Option.some.inj hc
    exact ⟨by decide +kernel, hr.entries⟩

/-- The first store to a page of its own. -/
theorem bookkeeping_read_only_store : ∃ k' G', Leads runningEnv (fun _ _ => False) k' G' ∧
    k'.pmap.getPerm 0 0x400000 = pteR ||| pteW ||| pteU ||| pteV ∧ ReadOnly G' k' := by
  have hmap : oneEnvPmap.isMappedPage 0 0x400000 = false := by decide +kernel
  have htr : oneEnvPmap.translate 0 .store 0x400000 = none := by decide +kernel
  have hcall : (Call.allocPageUser (0 : EnvIdx) 0x400000 demandPerm).code oneEnvPmap = some 0 := by
    decide +kernel
  have hfault : oneEnvPmap.handleFault 0 .store 0x400000 (fun _ => 0) =
      .ok (false, (Call.allocPageUser 0 0x400000 demandPerm).after oneEnvPmap) := by
    rw [handleFault, if_neg (by decide), if_neg (by rw [hmap]; decide)]
    exact Except.bind_ok_iff.mpr ⟨_, Call.run_after hcall, rfl⟩
  have hacc : runningEnv.act (.access .store 0x400000 7 fun _ => 0) = .ok (0, { runningEnv with
      pmap := (Call.allocPageUser 0 0x400000 demandPerm).after oneEnvPmap }) := by
    have htr' : runningEnv.pmap.translate 0 .store 0x400000 = none := htr
    have hcur : runningEnv.curenv = some 0 := rfl
    simp only [act, access, hcur, htr']
    exact Except.bind_ok_iff.mpr ⟨_, Except.bind_ok_iff.mpr ⟨_,
      Except.bind_ok_iff.mpr ⟨_, hfault, rfl⟩, rfl⟩, rfl⟩
  have hcare : ∀ c, runningEnv.curenv = some c →
      Careful (fun _ _ => False) runningEnv c (.access .store 0x400000 7 fun _ => 0) := by
    intro c hc _ _ _
    obtain rfl := Option.some.inj hc
    constructor
    · intro _ hm
      exact absurd (hmap.symm.trans hm) (by decide)
    · intro h
      cases h
    · intro _
      decide
  refine ⟨_, _, .step .start hcare hacc, ?_,
    bookkeeping_read_only runningEnv_secure (.step .start hcare hacc)⟩
  show ((Call.allocPageUser 0 0x400000 demandPerm).after oneEnvPmap).getPerm 0 0x400000 = _
  decide +kernel

/-- A store to the first page of `envs`: the fault makes it writable. -/
theorem store_fault_opens_envs : ∃ k', runningEnv.act (.access .store 0x100000000 7 fun _ => 0) =
    .ok (0, k') ∧ ∀ G, ¬ ReadOnly G k' := by
  have hmap : oneEnvPmap.isMappedPage 0 0x100000000 = true := by decide +kernel
  have htr : oneEnvPmap.translate 0 .store 0x100000000 = none := by decide +kernel
  have hcow : oneEnvPmap.getPerm 0 0x100000000 &&& pteCow = 0 := by decide +kernel
  have hcall : (Call.mapPage (0 : EnvIdx) 0x100000000 (oneEnvPmap.getPa 0 0x100000000)
      (oneEnvPmap.getPerm 0 0x100000000 ||| pteW)).code oneEnvPmap = some 0 := by decide +kernel
  set s' := (Call.mapPage (0 : EnvIdx) 0x100000000 (oneEnvPmap.getPa 0 0x100000000)
      (oneEnvPmap.getPerm 0 0x100000000 ||| pteW)).after oneEnvPmap with hs'
  have hfault : oneEnvPmap.handleFault 0 .store 0x100000000 (fun _ => 0) = .ok (false, s') := by
    rw [handleFault, if_neg (by decide), if_pos hmap, if_neg (by decide), if_neg (not_not.mpr hcow),
      if_pos rfl]
    exact Except.bind_ok_iff.mpr ⟨_, Call.run_after hcall, rfl⟩
  have hacc : runningEnv.act (.access .store 0x100000000 7 fun _ => 0) =
      .ok (0, { runningEnv with pmap := s' }) := by
    have htr' : runningEnv.pmap.translate 0 .store 0x100000000 = none := htr
    have hcur : runningEnv.curenv = some 0 := rfl
    simp only [act, access, hcur, htr']
    exact Except.bind_ok_iff.mpr ⟨_, Except.bind_ok_iff.mpr ⟨_,
      Except.bind_ok_iff.mpr ⟨_, hfault, rfl⟩, rfl⟩, rfl⟩
  refine ⟨_, hacc, fun G h => ?_⟩
  have hl : s'.leafPte (s'.pgdir 0 >>> 12) 0x100000000 =
      some (mkPte (page2pa 0x80310) (pteR ||| pteG ||| pteU ||| pteV ||| pteW)) := by
    rw [hs']
    decide +kernel
  have hd : s'.pgdir 0 ≠ 0 := by
    rw [hs']
    decide +kernel
  have := h 0 0x100000000 _ hd hl (by decide) (.inl (by decide))
  revert this
  decide

end Kernel

end RiscvMos
