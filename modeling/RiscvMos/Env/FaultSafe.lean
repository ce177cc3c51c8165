import RiscvMos.Env.SharedDemand

/-!
When a page fault keeps every translation. The handler misses two cases: a load
fault on a mapped page without `PTE_COW`, which no branch takes, and a fault
behind the shared root entries, which are not the env's own.
-/

namespace RiscvMos

namespace Pmap

variable {D : Type} [DecidableEq D]

/-- No load fault that gets another page in the place of a mapped one, and no
new page behind a shared root entry. -/
def FaultSafe (s : Pmap D) (d : D) (cause : Fault) (va : Nat) : Prop :=
  if s.isMappedPage d va = true then
    ¬ (cause = .load ∧ s.getPerm d va &&& pteCow = 0 ∧ s.Replaces d va)
  else shared (vpn2 va) → s.pageFreeList.length < s.demandNeeded d va

section
variable [Fintype D] {M K1 K0 : Nat → Prop} {s s' : Pmap D} {d : D} {va : Nat}

omit [DecidableEq D] [Fintype D] in
theorem bind_false_ok {x : Except Halt (Reply D)} {cow : Bool} {s' : Pmap D}
    (h : (x >>= fun p => Except.ok (false, p.2)) = .ok (cow, s')) :
    cow = false ∧ ∃ r, x = .ok (r, s') := by
  obtain ⟨⟨r, s₁⟩, hx, h⟩ := Except.bind_ok_iff.mp h
  obtain ⟨rfl, rfl⟩ := Prod.mk.inj (Except.ok.inj h)
  exact ⟨rfl, r, hx⟩

omit [Fintype D] in
/-- The branches that fall through to demand paging. -/
theorem demand_kept_iff (cause : Fault) (tval : Nat) (hlo : 0x3000 ≤ tval)
    (hhi : tval < 0x200000000)
    (hfall : s.isMappedPage d tval = true → cause = .load ∧ s.getPerm d tval &&& pteCow = 0) :
    (∀ tf cow s', s.handleFault d cause tval tf = .ok (cow, s') → TranslationsKept s s' d tval) ↔
      ∀ r s', s.allocPageUser d tval demandPerm = .ok (r, s') → TranslationsKept s s' d tval := by
  have hrun : ∀ tf, s.handleFault d cause tval tf = handleFault.demand d tval s := by
    intro tf
    unfold handleFault
    rw [if_neg (by omega)]
    by_cases hm : s.isMappedPage d tval = true
    · obtain ⟨rfl, hcow⟩ := hfall hm
      rw [if_pos hm, if_neg (by decide), if_neg (not_not.mpr hcow), if_neg (by decide)]
    · rw [if_neg hm]
  constructor
  · intro h r s' ha
    refine h (fun _ => 0) false s' ?_
    rw [hrun]
    exact Except.bind_ok_iff.mpr ⟨(r, s'), ha, rfl⟩
  · intro h tf cow s' hf
    rw [hrun] at hf
    obtain ⟨-, r, ha⟩ := bind_false_ok hf
    exact h r s' ha

/-- The branches that return: an upgrade, or the user's handler. -/
theorem handleFault_kept (hr : FaultReady M K1 K0 s d) {cause : Fault} {tf : Trapframe} {cow : Bool}
    (hm : s.isMappedPage d va = true) (hret : cause = .load → s.getPerm d va &&& pteCow ≠ 0)
    (h : s.handleFault d cause va tf = .ok (cow, s')) : TranslationsKept s s' d va := by
  unfold handleFault at h
  split at h
  · cases h
  split at h
  · obtain ⟨-, r, hmap⟩ := bind_false_ok h
    exact translationsKept_upgrade hm (by decide) (by decide) hmap
  split at h
  · rename_i hcow
    obtain ⟨s₁, hent, h⟩ := Except.bind_ok_iff.mp h
    obtain ⟨-, rfl⟩ := Prod.mk.inj (Except.ok.inj h)
    exact enterCow_kept hr hm hcow hent
  split at h
  · obtain ⟨-, r, hmap⟩ := bind_false_ok h
    exact translationsKept_upgrade hm (by decide) (by decide) hmap
  · rename_i hfetch hcow hstore
    refine absurd (hret ?_) hcow
    cases cause with
    | fetch => exact absurd rfl hfetch
    | load => rfl
    | store => exact absurd rfl hstore

theorem handleFault_kept_iff (hr : FaultReady M K1 K0 s d) (cause : Fault) {tval : Nat}
    (hlo : 0x3000 ≤ tval) (hhi : tval < 0x200000000) :
    (∀ tf cow s', s.handleFault d cause tval tf = .ok (cow, s') → TranslationsKept s s' d tval) ↔
      s.FaultSafe d cause tval := by
  have hva : tval < 2 ^ 39 := by omega
  unfold FaultSafe
  by_cases hm : s.isMappedPage d tval = true
  · rw [if_pos hm]
    by_cases hload : cause = .load ∧ s.getPerm d tval &&& pteCow = 0
    · rw [demand_kept_iff cause tval hlo hhi fun _ => hload, load_kept_iff hr hva hm]
      constructor
      · rintro hno ⟨-, -, h⟩
        exact hno h
      · intro hno h
        exact hno ⟨hload.1, hload.2, h⟩
    · refine iff_of_true (fun tf cow s' h => ?_) fun h => hload ⟨h.1, h.2.1⟩
      exact handleFault_kept hr hm (fun hc hcow => hload ⟨hc, hcow⟩) h
  · rw [if_neg hm, demand_kept_iff cause tval hlo hhi fun h => absurd h hm]
    have hm' : s.isMappedPage d tval = false := by simpa using hm
    by_cases hv : shared (vpn2 tval)
    · rw [shared_kept_iff hr hva hv hm']
      exact ⟨fun h _ => h, fun h => h hv⟩
    · exact iff_of_true (fun r s' h => demand_kept hr hva hv hm' h) fun h => absurd h hv

end

end Pmap

namespace Kernel

open Pmap

theorem fault_keeps_translations_iff {k : Kernel} {cur : EnvIdx} {M K1 K0 : Nat → Prop}
    (hcur : k.curenv = some cur) (hr : FaultReady M K1 K0 k.pmap cur) (cause : Fault) {tval : Nat}
    (hlo : 0x3000 ≤ tval) (hhi : tval < 0x200000000) :
    (∀ tf r k', k.handleException cause tval tf = .ok (r, k') →
      TranslationsKept k.pmap k'.pmap cur tval) ↔ k.pmap.FaultSafe cur cause tval := by
  rw [← handleFault_kept_iff hr cause hlo hhi]
  constructor
  · intro h tf cow s' hf
    refine h tf (if cow = true then .entry (k.envs cur).envUserTlbModEntry else .retry)
      { k with pmap := s' } ?_
    simp only [handleException, hcur]
    exact Except.bind_ok_iff.mpr ⟨(cow, s'), hf, rfl⟩
  · intro h tf r k' hf
    obtain ⟨c, cow, s', hc, hrun, rfl⟩ := handleException_ok hf
    obtain rfl := Option.some.inj (hc.symm.trans hcur)
    exact h tf cow s' hrun

/-! An env on a small kernel half: some pages at `0x83000000` for the kernel,
and a few pages of `envs` for everyone to read. -/

def kernelTables (t : Nat) (i : Vpn) : Nat :=
  match t with
  | 0x80300 =>
    if i = 2 then mkPte (page2pa 0x80301) 0 else if i = 4 then mkPte (page2pa 0x80303) 0 else 0
  | 0x80301 => if i = 24 then mkPte (page2pa 0x80302) 0 else 0
  | 0x80302 => mkPte (page2pa (0x83000 + i)) (pteR ||| pteW ||| pteX)
  | 0x80303 => if i = 0 then mkPte (page2pa 0x80304) 0 else 0
  | 0x80304 => if i.val < 16 then mkPte (page2pa (0x80310 + i)) (pteR ||| pteG ||| pteU) else 0
  | _ => 0

def noEnvs : Pmap EnvIdx := { boot EnvIdx somePages with mem := kernelTables }

/-- The directory that `env_setup_vm` and `env_run` give env 0. -/
def oneEnvDir : Pmap EnvIdx := (Call.allocPgdir 0).after noEnvs

def oneEnvWindow : Pmap EnvIdx :=
  (Call.mapPage 0 rootWindow (oneEnvDir.pgdir 0) (pteR ||| pteU)).after oneEnvDir

def oneEnvPmap : Pmap EnvIdx :=
  (oneEnvWindow.setPte 0x83000 2 (kernelTables 0x80300 2)).setPte 0x83000 4
    (kernelTables 0x80300 4 ||| pteV)

def oneEnv : Kernel := { envInit oneEnvPmap 0x80300000 with curenv := some 0 }

theorem oneEnvDir_run : Call.run noEnvs (.allocPgdir 0) = .ok (0, oneEnvDir) :=
  Call.run_after (by decide +kernel)

theorem oneEnvWindow_run : Call.run oneEnvDir
    (.mapPage 0 rootWindow (oneEnvDir.pgdir 0) (pteR ||| pteU)) = .ok (0, oneEnvWindow) :=
  Call.run_after (by decide +kernel)

theorem oneEnvDir_consistent : Consistent (· ∈ somePages) oneEnvDir :=
  (allocPgdir_spec (noDirs_consistent (s := noEnvs) (fun _ => rfl) (by decide) (fun _ _ => rfl)
    (by decide)) rfl oneEnvDir_run).1

theorem oneEnvDir_ent {x : Slot EnvIdx} (hx : x ≠ .root 0) : oneEnvDir.ent x = none := by
  obtain ⟨-, -, pp, hent, -⟩ := allocPgdir_spec (noDirs_consistent (s := noEnvs) (fun _ => rfl)
    (by decide) (fun _ _ => rfl) (by decide)) rfl oneEnvDir_run
  rw [hent, Function.update_of_ne hx]
  exact noDirs_ent (fun _ => rfl) x

theorem oneEnvWindow_spec : Consistent (· ∈ somePages) oneEnvWindow ∧
    Frame (· ∈ somePages) (OnPath 0 rootWindow) oneEnvDir oneEnvWindow ∧
    oneEnvWindow.ent (leafSlot 0 rootWindow) = some (0x83000, pteR ||| pteU ||| pteV) := by
  obtain ⟨hf, hent, -, -, hcons⟩ :=
    mapPage_spec oneEnvDir_consistent (by decide) (by decide) oneEnvWindow_run
  have hpa : oneEnvDir.pgdir 0 / 4096 = 0x83000 := by decide +kernel
  have hroot : oneEnvDir.tgt (.root 0) = some 0x83000 := by decide +kernel
  rw [hpa] at hent hcons
  refine ⟨hcons ⟨_, hroot⟩ ?_, hf, hent rfl⟩
  have hle := refs_onPath_le hf 0x83000
  rw [← oneEnvDir_consistent.counted.count _ (by decide)] at hle
  have hone : oneEnvDir.ppRef 0x83000 = 1 := by decide +kernel
  omega

theorem oneEnvPmap_spec : Consistent (· ∈ somePages) oneEnvPmap ∧
    oneEnvPmap.ent = oneEnvWindow.ent := by
  obtain ⟨hs, -, -⟩ := oneEnvWindow_spec
  have hroot : oneEnvWindow.pgdir 0 >>> 12 = 0x83000 := by decide +kernel
  have hd : oneEnvWindow.pgdir 0 ≠ 0 := by decide +kernel
  have hs₁ := hs.setShared hd (.inl rfl) (kernelTables 0x80300 2)
  have he₁ := ent_setShared hs.distinct hd (.inl rfl) (kernelTables 0x80300 2)
  rw [hroot] at hs₁ he₁
  have hroot₁ :
      (oneEnvWindow.setPte 0x83000 2 (kernelTables 0x80300 2)).pgdir 0 >>> 12 = 0x83000 := hroot
  have hs₂ := hs₁.setShared (d := 0) hd (.inr rfl) (kernelTables 0x80300 4 ||| pteV)
  have he₂ := ent_setShared (d := 0) hs₁.distinct hd (.inr rfl) (kernelTables 0x80300 4 ||| pteV)
  rw [hroot₁] at hs₂ he₂
  exact ⟨hs₂, he₂.trans he₁⟩

/-- The only last-level entry is the window's for the root. -/
theorem oneEnvPmap_leaf {d : EnvIdx} {i j m : Vpn} {e : Nat × Nat}
    (h : oneEnvPmap.ent (.pte0 d i j m) = some e) :
    i = 3 ∧ e = (0x83000, pteR ||| pteU ||| pteV) := by
  obtain ⟨-, hf, hent⟩ := oneEnvWindow_spec
  rw [oneEnvPmap_spec.2] at h
  by_cases hp : OnPath 0 rootWindow (.pte0 d i j m)
  · have hslot : Slot.pte0 d i j m = leafSlot 0 rootWindow := by
      simpa [OnPath] using hp
    rw [hslot, hent] at h
    have hi : i = vpn2 rootWindow := by
      simp only [leafSlot, Slot.pte0.injEq] at hslot
      exact hslot.2.1
    exact ⟨hi.trans (by decide), (Option.some.inj h).symm⟩
  · rw [hf.ent_eq _ hp, oneEnvDir_ent (by simp)] at h
    cases h

def kernelPte1 (t : Nat) : Prop := t = 0x80301 ∨ t = 0x80303
def kernelPte0 (t : Nat) : Prop := t = 0x80302 ∨ t = 0x80304

instance (t : Nat) : Decidable (kernelPte1 t) := inferInstanceAs (Decidable (_ ∨ _))
instance (t : Nat) : Decidable (kernelPte0 t) := inferInstanceAs (Decidable (_ ∨ _))

theorem oneEnv_kernelHalf : KernelHalf (· ∈ somePages) kernelPte1 kernelPte0 oneEnvPmap := by
  have hdir : ∀ d, oneEnvPmap.pgdir d ≠ 0 → oneEnvPmap.pgdir d = oneEnvPmap.pgdir 0 := by
    decide +kernel
  refine ⟨fun d i hd hi hv => ?_, ?_, ?_, ?_, ?_, ?_⟩
  · rw [hdir d hd] at hv ⊢
    rcases hi with rfl | rfl
    · decide +kernel
    · decide +kernel
  · rintro t j (rfl | rfl)
    · revert j
      decide +kernel
    · revert j
      decide +kernel
  · rintro t i (rfl | rfl)
    · revert i
      decide +kernel
    · revert i
      decide +kernel
  · rintro t (rfl | rfl) <;> decide
  · rintro t (rfl | rfl) <;> decide
  · rintro t (rfl | rfl) <;> decide

theorem oneEnv_ready : FaultReady (· ∈ somePages) kernelPte1 kernelPte0 oneEnv.pmap 0 := by
  refine ⟨oneEnvPmap_spec.1, oneEnv_kernelHalf, by decide +kernel, ?_, by decide +kernel, ?_, ?_⟩
  · rintro i (rfl | rfl)
    · decide +kernel
    · decide +kernel
  · intro d va hva p hp
    obtain ⟨perm, he⟩ := tgt_eq_some.mp hp
    exact absurd (oneEnvPmap_leaf he).1 (vpn2_ne_three_of_user hva)
  · intro j m p perm he
    have := (oneEnvPmap_leaf he).2
    rw [(Prod.mk.inj this).2]
    decide

/-- A fetch from a page of the kernel half. -/
theorem fault_keeps_translations_iff_oneEnv : oneEnv.pmap.FaultSafe 0 .fetch 0x83000000 ∧
    ∀ tf r k', oneEnv.handleException .fetch 0x83000000 tf = .ok (r, k') →
      TranslationsKept oneEnv.pmap k'.pmap 0 0x83000000 := by
  have hsafe : oneEnv.pmap.FaultSafe 0 .fetch 0x83000000 := by
    rw [FaultSafe, if_pos (by decide +kernel)]
    rintro ⟨h, -⟩
    cases h
  exact ⟨hsafe,
    (fault_keeps_translations_iff rfl oneEnv_ready .fetch (by decide) (by decide)).mpr hsafe⟩

/-- A load from the page of the kernel half where the env's own root table is:
another page is put there, and user code may write it. -/
theorem load_fault_replaces : oneEnv.pmap.isMappedPage 0 0x83000000 = true ∧
    ∃ k', oneEnv.handleException .load 0x83000000 (fun _ => 0) = .ok (.retry, k') ∧
      k'.pmap.getPa 0 0x83000000 ≠ oneEnv.pmap.getPa 0 0x83000000 ∧
      oneEnv.pmap.getPerm 0 0x83000000 &&& pteU = 0 ∧
      k'.pmap.getPerm 0 0x83000000 = pteR ||| pteW ||| pteU ||| pteV := by
  have hmap : oneEnvPmap.isMappedPage 0 0x83000000 = true := by decide +kernel
  have hcow : oneEnvPmap.getPerm 0 0x83000000 &&& pteCow = 0 := by decide +kernel
  have hcall :
      (Call.allocPageUser (0 : EnvIdx) 0x83000000 demandPerm).code oneEnvPmap = some 0 := by
    decide +kernel
  refine ⟨hmap,
    { oneEnv with pmap := (Call.allocPageUser 0 0x83000000 demandPerm).after oneEnvPmap },
    ?_, ?_, by decide +kernel, ?_⟩
  · have hrun : oneEnvPmap.handleFault 0 .load 0x83000000 (fun _ => 0) =
        .ok (false, (Call.allocPageUser 0 0x83000000 demandPerm).after oneEnvPmap) := by
      rw [handleFault, if_neg (by decide), if_pos hmap, if_neg (by decide),
        if_neg (not_not.mpr hcow), if_neg (by decide)]
      exact Except.bind_ok_iff.mpr ⟨_, Call.run_after hcall, rfl⟩
    exact Except.bind_ok_iff.mpr ⟨_, hrun, rfl⟩
  · show ((Call.allocPageUser 0 0x83000000 demandPerm).after oneEnvPmap).getPa 0 0x83000000 ≠
      oneEnvPmap.getPa 0 0x83000000
    decide +kernel
  · show ((Call.allocPageUser 0 0x83000000 demandPerm).after oneEnvPmap).getPerm 0 0x83000000 = _
    decide +kernel

end Kernel

end RiscvMos
