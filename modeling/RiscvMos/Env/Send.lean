import RiscvMos.Env.Ipc
import RiscvMos.Pmap.Run
import RiscvMos.Pmap.Supply

/-!
`sys_ipc_try_send` and the page that goes with a message. The receiver is
updated and queued before the page is looked up and mapped, so a send can fail
after its message went out; and `env_ipc_perm` gets `PTE_V` whether or not a
page was mapped.
-/

namespace RiscvMos.Kernel

open Pmap

section
variable {k k' : Kernel} {c e : EnvIdx} {envid value srcva perm : Nat} {r : Int}

theorem sendTarget_eq_some (h : k.sendTarget c envid srcva = some e) :
    ¬ (srcva ≠ 0 ∧ isIllegalVa srcva) ∧ k.envid2env c envid 0 = .ok e ∧
      (k.envs e).envIpcRecving = true := by
  unfold sendTarget at h
  split at h
  · cases h
  rename_i hill
  split at h
  · cases h
  rename_i e' he
  split at h
  · rename_i hrecv
    obtain rfl := Option.some.inj h
    exact ⟨hill, he, hrecv⟩
  · cases h

/-- A send that gets past step 3. -/
theorem sysIpcTrySend_eq (value perm : Nat) (hcur : k.curenv = some c)
    (htgt : k.sendTarget c envid srcva = some e) :
    k.sysIpcTrySend envid value srcva perm =
      if srcva = 0 then .ok (0, k.ipcDeliver c e value perm)
      else if k.pmap.isMappedPage c srcva = false then .ok (-eInval, k.ipcDeliver c e value perm)
      else (k.ipcDeliver c e value perm).liftPmap
        (k.pmap.mapPageUser e (k.envs e).envIpcDstva (k.pmap.getPa c srcva) (uInt perm)) := by
  obtain ⟨hill, he, hrecv⟩ := sendTarget_eq_some htgt
  have hdst : ((k.ipcDeliver c e value perm).envs e).envIpcDstva = (k.envs e).envIpcDstva := by
    simp [ipcDeliver, schedInsertTail, setEnv]
  rw [sysIpcTrySend, if_neg hill]
  simp only [byCurenv, hcur, withEnv, he, hrecv, Bool.true_eq_false, if_false, hdst]
  rfl

/-- Address 0 and the addresses `sys_ipc_recv` accepts are user addresses. -/
theorem lt_ulim_of_legal {va : Nat} (h : ¬ (va ≠ 0 ∧ isIllegalVa va)) : va < ulim := by
  by_contra hge
  refine h ⟨?_, .inr (by simpa [utop] using hge)⟩
  rintro rfl
  exact hge (by decide)

theorem getPa_mappable {M : Nat → Prop} (hs : Consistent M k.pmap) (hva : srcva < ulim)
    (hm : k.pmap.isMappedPage c srcva = true) : mappablePa (k.pmap.getPa c srcva) := by
  obtain ⟨p, hview⟩ := view_of_isMappedPage (not_shared_of_user hva) hm
  have := hs.ram _ (hs.mem_of_tgt (tgt_eq_some.mpr ⟨p, hview⟩))
  left
  simp only [inRam, kernbase, memorySize] at *
  omega

/-! ## A send that fails -/

/-- If the send returns an error, nothing has changed. -/
def FailsClean (k : Kernel) (envid value srcva perm : Nat) : Prop :=
  ∀ r k', k.sysIpcTrySend envid value srcva perm = .ok (r, k') → r < 0 →
    k'.envs = k.envs ∧ k'.envSchedList = k.envSchedList ∧ k'.pmap = k.pmap

/-- A send that updates its receiver has no page to map, or has one and
there are pages for the tables it needs (or `map_page_user` panics). -/
def CanDeliver (k : Kernel) (envid srcva perm : Nat) : Prop :=
  ∀ c e, k.curenv = some c → k.sendTarget c envid srcva = some e → srcva = 0 ∨
    (k.pmap.isMappedPage c srcva = true ∧ (0x400 ≤ uInt perm ∨
      k.pmap.pagesNeeded e (k.envs e).envIpcDstva ≤ k.pmap.pageFreeList.length))

theorem ipcDeliver_envs_ne (hrecv : (k.envs e).envIpcRecving = true) :
    (k.ipcDeliver c e value perm).envs ≠ k.envs := by
  intro h
  have := congrArg Env.envIpcRecving (congrFun h e)
  rw [hrecv] at this
  simp [ipcDeliver, schedInsertTail, setEnv] at this

theorem failed_send_no_effect_iff {M : Nat → Prop} (hs : Consistent M k.pmap)
    (hdst : ∀ e, (k.envs e).envIpcRecving = true → (k.envs e).envIpcDstva < ulim)
    (envid value srcva perm : Nat) :
    k.FailsClean envid value srcva perm ↔ k.CanDeliver envid srcva perm := by
  constructor
  · intro h c e hcur htgt
    obtain ⟨hill, -, hrecv⟩ := sendTarget_eq_some htgt
    have heq := sysIpcTrySend_eq value perm hcur htgt
    by_contra hcon
    rw [not_or] at hcon
    rw [if_neg hcon.1] at heq
    by_cases hm : k.pmap.isMappedPage c srcva = false
    · rw [if_pos hm] at heq
      exact ipcDeliver_envs_ne hrecv (h _ _ heq (by decide)).1
    · rw [if_neg hm] at heq
      have hm : k.pmap.isMappedPage c srcva = true := by simpa using hm
      have hshort : ¬ (0x400 ≤ uInt perm) ∧
          ¬ k.pmap.pagesNeeded e (k.envs e).envIpcDstva ≤ k.pmap.pageFreeList.length :=
        not_or.mp fun hor => hcon.2 ⟨hm, hor⟩
      obtain ⟨r, s', hcall, hr, hneg⟩ := mapPageUser_code (d := e) hs (hdst e hrecv)
        (show uInt perm < 0x400 by omega) (getPa_mappable hs (lt_ulim_of_legal hill) hm)
      have hr : r = -eNoMem := hneg fun h0 => hshort.2 (hr.mp h0)
      rw [hcall, hr] at heq
      exact ipcDeliver_envs_ne hrecv (h _ _ heq (by decide)).1
  · intro h r k' hcall hneg
    rcases sysIpcTrySend_msg hcall with ⟨rfl, -, -⟩ | ⟨c, e, s, hcur, htgt, -⟩
    · exact ⟨rfl, rfl, rfl⟩
    exfalso
    obtain ⟨hill, -, hrecv⟩ := sendTarget_eq_some htgt
    rw [sysIpcTrySend_eq value perm hcur htgt] at hcall
    rcases h c e hcur htgt with h0 | ⟨hm, hor⟩
    · rw [if_pos h0] at hcall
      obtain ⟨rfl, -⟩ := Prod.mk.inj (Except.ok.inj hcall)
      omega
    have h0 : srcva ≠ 0 := by
      rintro rfl
      rw [if_pos rfl] at hcall
      obtain ⟨rfl, -⟩ := Prod.mk.inj (Except.ok.inj hcall)
      omega
    rw [if_neg h0, if_neg (by simp [hm])] at hcall
    obtain ⟨s', hmap, -⟩ := liftPmap_ok hcall
    by_cases hperm : 0x400 ≤ uInt perm
    · rw [mapPageUser, if_pos hperm] at hmap
      cases hmap
    · obtain ⟨r', s'', hcall', hr, -⟩ := mapPageUser_code (d := e) hs (hdst e hrecv)
        (show uInt perm < 0x400 by omega) (getPa_mappable hs (lt_ulim_of_legal hill) hm)
      obtain ⟨rfl, -⟩ := Prod.mk.inj (Except.ok.inj (hmap.symm.trans hcall'))
      have := hr.mpr (hor.resolve_left hperm)
      omega

end

/-- Env 0 runs, and env 1 waits for a message with a page at `0x500000`. -/
def waiting : Kernel :=
  demo (fun _ _ => true) [create, create, .tick, .sysIpcRecv 0x500000]

/-- Env 0 sends a page it does not have: the call returns `-E_INVAL`, and env 1
is woken all the same. -/
theorem failed_send_wakes : Reach demoPmap 0x82000000 (fun _ _ => True) waiting ∧
    waiting.sysIpcTrySend 4097 7 0x400000 0 = .ok (-eInval, waiting.ipcDeliver 0 1 7 0) ∧
    ¬ waiting.FailsClean 4097 7 0x400000 0 := by
  have hcall : waiting.sysIpcTrySend 4097 7 0x400000 0 =
      .ok (-eInval, waiting.ipcDeliver 0 1 7 0) := by
    rw [sysIpcTrySend_eq (c := 0) (e := 1) 7 0 (by decide +kernel) (by decide +kernel)]
    rw [if_neg (by decide), if_pos (by decide +kernel)]
  have hrecv : (waiting.envs 1).envIpcRecving = true := by decide +kernel
  exact ⟨reach_demo (fun _ _ _ => trivial) _, hcall, fun h =>
    ipcDeliver_envs_ne hrecv (h _ _ hcall (by decide)).1⟩

/-- Env 0 runs and has a page at `0x400000`; env 1 waits at `dstva`. -/
def twoEnvs (dstva : Nat) : Kernel :=
  ({ envInit onePage 0x82000000 with curenv := some 0 }.setEnv 0
    { zeroEnv with envId := 2048, envStatus := .runnable }).setEnv 1
      (blocked { zeroEnv with envId := 4097 } dstva)

theorem twoEnvs_dstva {dstva : Nat} (h : dstva < ulim) (e : EnvIdx)
    (_ : ((twoEnvs dstva).envs e).envIpcRecving = true) :
    ((twoEnvs dstva).envs e).envIpcDstva < ulim := by
  by_cases h1 : e = 1
  · subst h1; simpa [twoEnvs, setEnv, blocked] using h
  by_cases h0 : e = 0
  · subst h0; simp [twoEnvs, setEnv, zeroEnv, ulim]
  · simp [twoEnvs, setEnv, h0, h1, envInit, zeroEnv, ulim]

/-- The send of a mapped page is safe, that of an unmapped one is not. -/
theorem failed_send_no_effect_iff_twoEnvs : (twoEnvs 0x500000).FailsClean 4097 7 0x400000 pteR ∧
    ¬ (twoEnvs 0x500000).FailsClean 4097 7 0x401000 pteR := by
  have hiff := fun srcva => failed_send_no_effect_iff (k := twoEnvs 0x500000)
    onePage_consistent (twoEnvs_dstva (by decide)) 4097 7 srcva pteR
  have htgt : ∀ srcva, srcva ∈ [0x400000, 0x401000] →
      (twoEnvs 0x500000).sendTarget 0 4097 srcva = some 1 := by decide +kernel
  refine ⟨(hiff _).mpr fun c e hc he => ?_, fun h => ?_⟩
  · obtain rfl : 0 = c := Option.some.inj hc
    obtain rfl := Option.some.inj ((htgt _ (by simp)).symm.trans he)
    exact .inr ⟨by decide +kernel, .inr (by decide +kernel)⟩
  · have hm : (twoEnvs 0x500000).pmap.isMappedPage 0 0x401000 = false := by decide +kernel
    rcases (hiff _).mp h 0 1 rfl (htgt _ (by simp)) with h0 | ⟨h1, -⟩
    · cases h0
    · rw [hm] at h1; cases h1

/-! ## The page of a message -/

/-- Every user page of every directory is mapped as before. -/
def SameUser (s s' : Pmap EnvIdx) : Prop :=
  ∀ d va, va < ulim → s'.isMappedPage d va = s.isMappedPage d va ∧
    (s.pgdir d ≠ 0 → s'.getPa d va = s.getPa d va ∧ s'.getPerm d va = s.getPerm d va)

/-- Both sides ask for a page to go with the message. -/
def PageAsked (k : Kernel) (e : EnvIdx) (srcva : Nat) : Prop :=
  srcva ≠ 0 ∧ (k.envs e).envIpcDstva ≠ 0

/-- The page goes over exactly when both sides ask for it, and the receiver can
tell from `env_ipc_perm`. -/
structure PageTransfer (k k' : Kernel) (c e : EnvIdx) (srcva perm : Nat) : Prop where
  flag : valid (k'.envs e).envIpcPerm ↔ k.PageAsked e srcva
  asked : k.PageAsked e srcva →
    k'.pmap.getPa e (k.envs e).envIpcDstva / 4096 = k.pmap.getPa c srcva / 4096 ∧
    k'.pmap.getPerm e (k.envs e).envIpcDstva = uInt perm ||| pteV ∧
    SameElsewhere e (k.envs e).envIpcDstva k.pmap k'.pmap
  notAsked : ¬ k.PageAsked e srcva → SameUser k.pmap k'.pmap

section
variable {k k' : Kernel} {c e : EnvIdx} {envid value srcva perm : Nat}

/-- The receiver finds `PTE_V` in `env_ipc_perm` after every message. -/
theorem ipcDeliver_valid (k : Kernel) (c e : EnvIdx) (value perm : Nat) :
    valid ((k.ipcDeliver c e value perm).envs e).envIpcPerm := by
  have hbit : (uInt (pteV ||| perm)).testBit 0 = true := by
    simp [uInt, pteV]
  simpa [ipcDeliver, schedInsertTail, setEnv, valid_iff] using hbit

theorem page_transfer_iff {M : Nat → Prop} (hs : Consistent M k.pmap) (hcur : k.curenv = some c)
    (htgt : k.sendTarget c envid srcva = some e) (hdst : (k.envs e).envIpcDstva < ulim)
    (h : k.sysIpcTrySend envid value srcva perm = .ok (0, k')) :
    PageTransfer k k' c e srcva perm ↔ k.PageAsked e srcva := by
  have hvalid : valid (k'.envs e).envIpcPerm := by
    rcases sysIpcTrySend_msg h with ⟨-, -, hneg⟩ | ⟨c', e', s, hcur', htgt', rfl⟩
    · cases hneg
    · obtain rfl := Option.some.inj (hcur'.symm.trans hcur)
      obtain rfl := Option.some.inj (htgt'.symm.trans htgt)
      exact ipcDeliver_valid k _ _ value perm
  constructor
  · exact fun ht => ht.flag.mp hvalid
  · intro hask
    refine ⟨⟨fun _ => hask, fun _ => hvalid⟩, fun _ => ?_, fun hn => absurd hask hn⟩
    rw [sysIpcTrySend_eq value perm hcur htgt, if_neg hask.1] at h
    split at h
    · cases h
    obtain ⟨s', hmap, rfl⟩ := liftPmap_ok h
    have hlt : (k.envs e).envIpcDstva < 2 ^ 39 := hdst.trans (by decide)
    have hv := not_shared_of_user hdst
    obtain ⟨hf, hent, -⟩ := mapPageUser_spec hs hlt hv
      (apart_of_ne k.pmap hlt (vpn2_ne_three_of_user hdst)) hmap
    refine ⟨?_, getPerm_of_view hv (hent rfl), sameElsewhere_of_frame hf fun d va hva hne => ?_⟩
    · rw [getPa_of_view hv (hent rfl)]
      omega
    · refine not_touched_of_user hlt hva fun hslot => ?_
      obtain ⟨rfl, hp⟩ := leafSlot_inj (hva.trans (by decide)) hlt hslot
      exact hne.elim (fun h => h rfl) fun h => h hp

end

/-- A page from `0x400000` to `0x500000`. -/
theorem page_transfer_iff_twoEnvs : ∃ k', (twoEnvs 0x500000).sysIpcTrySend 4097 7 0x400000 pteR =
    .ok (0, k') ∧ PageTransfer (twoEnvs 0x500000) k' 0 1 0x400000 pteR := by
  have htgt : (twoEnvs 0x500000).sendTarget 0 4097 0x400000 = some 1 := by decide +kernel
  have hdst : ((twoEnvs 0x500000).envs 1).envIpcDstva < ulim := by decide +kernel
  have hmap : (Call.mapPageUser (1 : EnvIdx) 0x500000 (onePage.getPa 0 0x400000) pteR).code
      onePage = some 0 := by decide +kernel
  have hcall := sysIpcTrySend_eq (k := twoEnvs 0x500000) 7 pteR rfl htgt
  have hmapped : ¬ (twoEnvs 0x500000).pmap.isMappedPage 0 0x400000 = false := by decide +kernel
  rw [if_neg (by decide), if_neg hmapped] at hcall
  have hrun := hcall.trans (Except.bind_ok_iff.mpr ⟨_, Call.run_after hmap, rfl⟩)
  exact ⟨_, hrun, (page_transfer_iff onePage_consistent rfl htgt hdst hrun).mpr
    ⟨by decide, by decide +kernel⟩⟩

/-- A message without a page is flagged as one with a page; and a page sent to
an env that asked for none is mapped at address 0. -/
theorem page_transfer_fails :
    (∃ k', waiting.sysIpcTrySend 4097 7 0 0 = .ok (0, k') ∧
      ¬ PageTransfer waiting k' 0 1 0 0 ∧ valid (k'.envs 1).envIpcPerm) ∧
    ∃ k', (twoEnvs 0).sysIpcTrySend 4097 7 0x400000 pteR = .ok (0, k') ∧
      k'.pmap.getPa 1 0 = onePage.getPa 0 0x400000 ∧
      ¬ PageTransfer (twoEnvs 0) k' 0 1 0x400000 pteR := by
  refine ⟨?_, ?_⟩
  · have htgt : waiting.sendTarget 0 4097 0 = some 1 := by decide +kernel
    have hcall := sysIpcTrySend_eq 7 0 (by decide +kernel) htgt
    rw [if_pos rfl] at hcall
    have hvalid := ipcDeliver_valid waiting 0 1 7 0
    exact ⟨_, hcall, fun ht => (ht.flag.mp hvalid).1 rfl, hvalid⟩
  · have hmap : (Call.mapPageUser (1 : EnvIdx) 0 (onePage.getPa 0 0x400000) pteR).code
        onePage = some 0 := by decide +kernel
    have htgt : (twoEnvs 0).sendTarget 0 4097 0x400000 = some 1 := by decide +kernel
    have hcall := sysIpcTrySend_eq 7 pteR rfl htgt
    have hmapped : ¬ (twoEnvs 0).pmap.isMappedPage 0 0x400000 = false := by decide +kernel
    rw [if_neg (by decide), if_neg hmapped] at hcall
    have hrun := hcall.trans (Except.bind_ok_iff.mpr ⟨_, Call.run_after hmap, rfl⟩)
    have hdst : ((twoEnvs 0).envs 1).envIpcDstva = 0 := by decide +kernel
    refine ⟨_, hrun, ?_, fun ht => ?_⟩
    · show ((Call.mapPageUser (1 : EnvIdx) 0 (onePage.getPa 0 0x400000) pteR).after
        onePage).getPa 1 0 = onePage.getPa 0 0x400000
      decide +kernel
    · have hvalid := ipcDeliver_valid (twoEnvs 0) 0 1 7 pteR
      exact (ht.flag.mp hvalid).2 hdst

end RiscvMos.Kernel
