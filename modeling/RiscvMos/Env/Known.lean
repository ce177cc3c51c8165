import RiscvMos.Env.Ids
import RiscvMos.Env.Restored

/-!
What every event of the machine keeps of the env table: ids are given once,
`curenv` is not free, and no env has 1 for its parent. It holds as long as the
counter of `mkenvid` fits in an id.
-/

namespace RiscvMos

namespace Kernel

structure Known (k : Kernel) : Prop where
  ids : IdInv k.lastEnvid k
  cur : CurInv k
  parent : ∀ e, (k.envs e).envParentId ≠ 1

section
variable {k k' k'' : Kernel} {e c : EnvIdx} {v : Env} {r : Int} {envid : Nat}

theorem Between.refl (k : Kernel) : Between k k := ⟨fun _ => rfl, rfl, rfl, rfl, fun _ _ => rfl⟩

theorem Between.trans (h : Between k k') (h' : Between k' k'') : Between k k'' := by
  constructor
  · exact fun e => (h'.identity e).trans (h.identity e)
  · exact h'.asids.trans h.asids
  · exact h'.last.trans h.last
  · exact h'.list.trans h.list
  · intro e he
    rw [h'.free e (by rw [h.list]; exact he)]
    exact h.free e he

theorem between_pmap (k : Kernel) (s : Pmap EnvIdx) : Between k { k with pmap := s } :=
  ⟨fun _ => rfl, rfl, rfl, rfl, fun _ _ => rfl⟩

/-- `env_run` counts, and writes its root entries. -/
theorem envRun_between (h : k.envRun e = .ok k') : Between k k' := by
  unfold envRun at h
  split at h
  · cases h
  · obtain rfl := Except.ok.inj h
    constructor
    · intro x
      by_cases hx : x = e
      · subst hx
        simp [setRootEntry, setEnv, Env.identity]
      · simp [setRootEntry, setEnv, hx]
    · rfl
    · rfl
    · rfl
    · intro x _
      by_cases hx : x = e
      · subst hx
        simp [setRootEntry, setEnv]
      · simp [setRootEntry, setEnv, hx]

theorem schedRemove_between (h : k.schedRemove e = .ok k') : Between k k' := by
  unfold schedRemove at h
  split at h
  · cases h
  · obtain rfl := Except.ok.inj h
    exact ⟨fun _ => rfl, rfl, rfl, rfl, fun _ _ => rfl⟩

theorem schedRequeue_between (h : k.schedRequeue e = .ok k') : Between k k' := by
  obtain ⟨k₁, hk₁, h⟩ := Except.bind_ok_iff.mp h
  have hb := schedRemove_between hk₁
  obtain rfl := Except.ok.inj h
  apply hb.trans
  split
  · exact ⟨fun _ => rfl, rfl, rfl, rfl, fun _ _ => rfl⟩
  · exact .refl k₁

theorem schedFirst_between (h : k.schedFirst = .ok k') : Between k k' := by
  unfold schedFirst at h
  split at h
  · cases h
  · have hb := envRun_between h
    exact ⟨hb.identity, hb.asids, hb.last, hb.list, hb.free⟩

theorem schedule_between {yield : Bool} (h : k.schedule yield = .ok k') : Between k k' := by
  have hcount : ∀ n : Int, Between k { k with count := n } := fun _ =>
    ⟨fun _ => rfl, rfl, rfl, rfl, fun _ _ => rfl⟩
  unfold schedule at h
  dsimp only at h
  split at h
  · exact (hcount _).trans (schedFirst_between h)
  split at h
  · obtain ⟨k₁, hk₁, h⟩ := Except.bind_ok_iff.mp h
    exact ((hcount _).trans (schedRequeue_between hk₁)).trans (schedFirst_between h)
  · exact (hcount _).trans (envRun_between h)

theorem schedule_curInv {yield : Bool} (h : k.schedule yield = .ok k') : CurInv k' := by
  obtain ⟨k₁, e, -, -, -, -, hrun⟩ := schedule_envRun h
  obtain ⟨hs, hc, hr⟩ := envRun_spec hrun
  exact curInv_of_run hs hc hr

theorem Known.between (h : Known k) (hb : Between k k') (hc : CurInv k') : Known k' := by
  constructor
  · rw [hb.last]
    exact h.ids.between hb
  · exact hc
  · intro e
    have hp : (k'.envs e).envParentId = (k.envs e).envParentId :=
      congrArg (fun p => p.2.2) (hb.identity e)
    rw [hp]
    exact h.parent e

theorem Known.schedule (h : Known k) {yield : Bool} (hs : k.schedule yield = .ok k') : Known k' :=
  h.between (schedule_between hs) (schedule_curInv hs)

theorem Known.pmap (h : Known k) (s : Pmap EnvIdx) : Known { k with pmap := s } :=
  h.between (between_pmap k s) h.cur

/-- An env that is not free gets another status, or other messages. -/
theorem Known.setEnv (h : Known k) (hid : v.identity = (k.envs e).identity)
    (hfree : e ∉ k.envFreeList) (hv : v.envStatus ≠ .free) : Known (k.setEnv e v) :=
  h.between (between_setEnv hid hfree) (curInv_setEnv h.cur hv)

theorem Known.not_listed (h : Known k) (hc : k.curenv = some c) {checkperm : Nat}
    (he : k.envid2env c envid checkperm = .ok e) : e ∉ k.envFreeList :=
  not_mem_freeList h.ids.free (envid2env_not_free h.cur hc he)

theorem Known.cur_live (h : Known k) (hc : k.curenv = some c) : c ∉ k.envFreeList :=
  not_mem_freeList h.ids.free (h.cur c hc)

/-- An id is far from 1. -/
theorem Known.id_ne_one (h : Known k) (e : EnvIdx) : (k.envs e).envId ≠ 1 := by
  rcases h.ids.id e with h0 | ⟨i, hi, -, hid⟩
  · omega
  · omega

theorem Known.envAlloc (h : Known k) (hn : k.lastEnvid + 1 < 2 ^ 21) {parentId : Nat}
    (hp : parentId ≠ 1) {a : Except Int EnvIdx} (ha : k.envAlloc parentId = .ok (a, k')) :
    Known k' ∧ ∀ e, a = .ok e → e ∉ k'.envFreeList := by
  have hcalls : k.mkenvidCalls ≤ 1 := by
    unfold mkenvidCalls
    split <;> omega
  have hids := (h.ids.envAlloc (by omega) ha).1
  obtain ⟨-, hcur, hmsg, -⟩ := envAlloc_spec ha
  refine ⟨⟨?_, ?_, ?_⟩, ?_⟩
  · rw [← hids.last] at hids
    exact hids
  · intro c hc
    rw [hcur] at hc
    have hst : (k'.envs c).envStatus = (k.envs c).envStatus := congrArg Prod.fst (hmsg c)
    rw [hst]
    exact h.cur c hc
  · intro x
    rcases envAlloc_cases ha with ⟨-, -, rfl⟩ | ⟨e, rest, -, -, -, rfl⟩ |
      ⟨e, rest, asid, k₁, -, -, -, hvm, rfl⟩
    · exact h.parent x
    · by_cases hx : x = e
      · subst hx
        simpa [named, Kernel.setEnv] using h.parent x
      · rw [named_other hx]
        exact h.parent x
    · obtain ⟨s, rfl⟩ := envSetupVm_ok hvm
      show ((k.claimed e asid parentId).envs x).envParentId ≠ 1
      by_cases hx : x = e
      · rw [hx, claimed_self]
        exact hp
      · rw [claimed_other hx]
        exact h.parent x
  · rintro e rfl hm
    have hnd := h.ids.free.1
    rcases envAlloc_id ha with ⟨-, ⟨i, hi⟩, -⟩ |
      ⟨e', rest, -, hl, -, -, -, -, ⟨⟨i, hi⟩, -⟩ | ⟨he, hrest⟩⟩
    · cases hi
    · cases hi
    · obtain rfl := Except.ok.inj he
      rw [hl] at hnd
      rw [hrest] at hm
      exact (List.nodup_cons.mp hnd).1 hm

theorem Known.envDestroy (h : Known k) (he : e ∉ k.envFreeList) (hd : k.envDestroy e = .ok k') :
    Known k' := by
  obtain ⟨k₁, hf, hd⟩ := Except.bind_ok_iff.mp hd
  obtain ⟨hparent, hother, hcur⟩ : (∀ x, (k₁.envs x).envParentId ≠ 1) ∧
      (∀ x, x ≠ e → k₁.envs x = k.envs x) ∧ k₁.curenv = k.curenv := by
    obtain ⟨s, q, rfl⟩ := envFree_ok hf
    refine ⟨?_, fun x hx => by simp [hx], rfl⟩
    intro x
    by_cases hx : x = e
    · subst hx
      simpa using h.parent x
    · simpa [hx] using h.parent x
  have hids : IdInv k₁.lastEnvid k₁ := by
    have hinv := h.ids.envFree he hf
    rw [← hinv.last] at hinv
    exact hinv
  split at hd
  · have hnone : Known { k₁ with curenv := none } := by
      constructor
      · exact ⟨rfl, hids.free, hids.id, hids.live⟩
      · intro c hc
        cases hc
      · exact hparent
    exact hnone.schedule hd
  · rename_i hne
    obtain rfl := Except.ok.inj hd
    refine ⟨hids, ?_, hparent⟩
    intro x hx
    have hxe : x ≠ e := by
      rintro rfl
      exact hne hx
    rw [hother x hxe]
    exact h.cur x (hcur ▸ hx)

theorem Known.sysExofork (h : Known k) (hn : k.lastEnvid + 1 < 2 ^ 21)
    (hx : k.sysExofork = .ok (r, k')) :
    Known k' := by
  obtain ⟨c, -, hx⟩ := byCurenv_ok hx
  obtain ⟨⟨a, k₁⟩, ha, hx⟩ := Except.bind_ok_iff.mp hx
  obtain ⟨h₁, hnew⟩ := h.envAlloc hn (h.id_ne_one c) ha
  cases a with
  | error r =>
    obtain ⟨rfl, rfl⟩ := Prod.mk.inj (Except.ok.inj hx)
    exact h₁
  | ok e =>
    have hfinish : ∀ s : Pmap EnvIdx, Known (sysExofork.finish { k₁ with pmap := s } c e).2 := by
      intro s
      have hstatus : Known (k₁.setStatus e .notRunnable) := by
        apply h₁.setEnv
        · rfl
        · exact hnew e rfl
        · simp
      have hpri := hstatus.setEnv (e := e)
        (v := { (k₁.setStatus e .notRunnable).envs e with
          envPri := ((k₁.setStatus e .notRunnable).envs c).envPri })
        rfl (hnew e rfl) (by simp [setStatus, Kernel.setEnv])
      exact hpri.pmap _
    dsimp only at hx
    split at hx
    · split at hx
      · obtain ⟨rfl, rfl⟩ := Prod.mk.inj (Except.ok.inj hx)
        exact h₁
      · obtain ⟨⟨_, s⟩, -, hx⟩ := Except.bind_ok_iff.mp hx
        have hk := hfinish s
        rw [Except.ok.inj hx] at hk
        exact hk
    · have hk := hfinish k₁.pmap
      rw [Except.ok.inj hx] at hk
      exact hk

theorem schedUpdate_between {st : EnvStatus} (h : k.schedUpdate e st = .ok k') :
    Between k k' ∧ k'.envs = k.envs ∧ k'.curenv = k.curenv := by
  unfold schedUpdate at h
  split at h
  · have hb := schedRemove_between h
    unfold schedRemove at h
    split at h
    · cases h
    · obtain rfl := Except.ok.inj h
      exact ⟨hb, rfl, rfl⟩
  split at h
  · obtain rfl := Except.ok.inj h
    exact ⟨⟨fun _ => rfl, rfl, rfl, rfl, fun _ _ => rfl⟩, rfl, rfl⟩
  · obtain rfl := Except.ok.inj h
    exact ⟨.refl k, rfl, rfl⟩

theorem Known.sysSetEnvStatus (h : Known k) {status : Nat}
    (hx : k.sysSetEnvStatus envid status = .ok (r, k')) :
    Known k' := by
  rcases sysSetEnvStatus_ok hx with rfl | ⟨c, e, st, k₁, hc, he, hst, hk₁, rfl⟩
  · exact h
  obtain ⟨hb, henvs, hcur⟩ := schedUpdate_between hk₁
  have h₁ : Known k₁ := by
    apply h.between hb
    intro x hx
    rw [henvs]
    exact h.cur x (hcur ▸ hx)
  apply h₁.setEnv
  · rfl
  · rw [hb.list]
    exact h.not_listed hc he
  · exact settableStatus_ne_free hst

theorem Known.sysIpcRecv (h : Known k) {dstva : Nat} (hx : k.sysIpcRecv dstva = .ok (r, k')) :
    Known k' := by
  rcases sysIpcRecv_ok hx with ⟨-, rfl⟩ | ⟨-, c, k₁, hc, hk₁, hk₂⟩
  · exact h
  have hset : Known (k.setEnv c { k.envs c with
      envIpcRecving := true, envIpcDstva := dstva, envStatus := .notRunnable }) := by
    apply h.setEnv
    · rfl
    · exact h.cur_live hc
    · simp
  exact hset.between ((schedRemove_between hk₁).trans (schedule_between hk₂)) (schedule_curInv hk₂)

theorem Known.ipcDeliver (h : Known k) (he : e ∉ k.envFreeList) (value perm : Nat) :
    Known (k.ipcDeliver c e value perm) := by
  have hset : Known (k.setEnv e { k.envs e with
      envIpcValue := value, envIpcFrom := (k.envs c).envId, envIpcPerm := uInt (pteV ||| perm),
      envIpcRecving := false, envStatus := .runnable }) := by
    apply h.setEnv
    · rfl
    · exact he
    · simp
  exact hset.between ⟨fun _ => rfl, rfl, rfl, rfl, fun _ _ => rfl⟩ hset.cur

theorem Known.sysIpcTrySend (h : Known k) {value srcva perm : Nat}
    (hx : k.sysIpcTrySend envid value srcva perm = .ok (r, k')) : Known k' := by
  rcases sysIpcTrySend_ok hx with ⟨rfl, -⟩ | ⟨-, c, hc, ⟨rfl, -⟩ | ⟨e, he, ⟨rfl, -⟩ | ⟨-, s, rfl⟩⟩⟩
  · exact h
  · exact h
  · exact h
  · exact (h.ipcDeliver (h.not_listed hc he) value perm).pmap s

theorem Known.sysMemAlloc (h : Known k) {va perm : Nat}
    (hx : k.sysMemAlloc envid va perm = .ok (r, k')) :
    Known k' := by
  rcases sysMemAlloc_ok hx with rfl | ⟨-, -, s, -, -, -, -, rfl⟩
  · exact h
  · exact h.pmap s

theorem Known.sysMemMap (h : Known k) {srcid srcva dstid dstva perm : Nat}
    (hx : k.sysMemMap srcid srcva dstid dstva perm = .ok (r, k')) : Known k' := by
  rcases sysMemMap_ok hx with rfl | ⟨-, -, -, s, -, -, -, -, -, -, -, rfl⟩
  · exact h
  · exact h.pmap s

theorem Known.sysMemUnmap (h : Known k) {va : Nat} (hx : k.sysMemUnmap envid va = .ok (r, k')) :
    Known k' := by
  rcases sysMemUnmap_ok hx with rfl | ⟨-, -, s, -, -, -, -, rfl⟩
  · exact h
  · exact h.pmap s

theorem Known.sysEnvDestroy (h : Known k) (hx : k.sysEnvDestroy envid = .ok (r, k')) :
    Known k' := by
  obtain ⟨c, hc, hx⟩ := byCurenv_ok hx
  rcases withEnv_ok hx with ⟨rfl, -⟩ | ⟨e, he, hx⟩
  · exact h
  obtain ⟨k₁, hk₁, hx⟩ := Except.bind_ok_iff.mp hx
  obtain ⟨-, rfl⟩ := Prod.mk.inj (Except.ok.inj hx)
  exact h.envDestroy (h.not_listed hc he) hk₁

theorem Known.envCreate (h : Known k) (hn : k.lastEnvid + 1 < 2 ^ 21)
    {load : Pmap EnvIdx → EnvIdx → Except Halt (Pmap EnvIdx)} {priority : Nat}
    (hx : k.envCreate load priority = .ok k') : Known k' := by
  obtain ⟨⟨a, k₁⟩, ha, hx⟩ := Except.bind_ok_iff.mp hx
  obtain ⟨h₁, hnew⟩ := h.envAlloc hn (by decide) ha
  cases a with
  | error r => cases hx
  | ok e =>
    dsimp only at hx
    obtain ⟨s, -, hx⟩ := Except.bind_ok_iff.mp hx
    obtain rfl := Except.ok.inj hx
    have hset :
        Known (k₁.setEnv e { k₁.envs e with envPri := uInt priority, envStatus := .runnable }) := by
      apply h₁.setEnv
      · rfl
      · exact hnew e rfl
      · simp
    exact hset.between ⟨fun _ => rfl, rfl, rfl, rfl, fun _ _ => rfl⟩ hset.cur

/-! The calls that follow a user's address change memory only. -/

theorem Known.demandPage (h : Known k)
    {alloc : Pmap EnvIdx → EnvIdx → Nat → Nat → Except Halt (Reply EnvIdx)}
    {va : Nat} (hx : k.demandPage c alloc va = .ok k') : Known k' := by
  unfold Kernel.demandPage at hx
  split at hx
  · obtain rfl := Except.ok.inj hx
    exact h
  · obtain ⟨⟨_, s⟩, -, hx⟩ := Except.bind_ok_iff.mp hx
    obtain rfl := Except.ok.inj hx
    exact h.pmap s

theorem Known.printPages (h : Known k) {n va : Nat} (hx : (printPages c n k va).2 = .ok k') :
    Known k' := by
  induction n generalizing k va with
  | zero =>
    obtain rfl := Except.ok.inj hx
    exact h
  | succ n ih =>
    cases hk₁ : k.demandPage c Pmap.allocPageUser va with
    | error x =>
      simp only [Kernel.printPages, hk₁] at hx
      cases hx
    | ok k₁ =>
      simp only [Kernel.printPages, hk₁] at hx
      exact ih (h.demandPage hk₁) hx

theorem Known.printRest (h : Known k) {va num : Nat}
    (hx : (printRest c k va num).result = .ok (r, k')) :
    Known k' := by
  unfold Kernel.printRest at hx
  split at hx
  · obtain ⟨-, rfl⟩ := Prod.mk.inj (Except.ok.inj hx)
    exact h
  split at hx
  · cases hx
  · rename_i k₁ hk₁
    obtain ⟨-, rfl⟩ := Prod.mk.inj (Except.ok.inj hx)
    exact h.demandPage hk₁

theorem Known.sysPrintCons (h : Known k) {va num : Nat}
    (hx : (k.sysPrintCons c va num).result = .ok (r, k')) :
    Known k' := by
  unfold Kernel.sysPrintCons at hx
  split at hx
  · obtain ⟨-, rfl⟩ := Prod.mk.inj (Except.ok.inj hx)
    exact h
  split at hx
  · obtain ⟨-, rfl⟩ := Prod.mk.inj (Except.ok.inj hx)
    exact h
  dsimp only at hx
  unfold Kernel.printLong at hx
  split at hx
  · cases hx
  · rename_i k₁ hk₁
    exact (h.printPages hk₁).printRest hx

theorem Known.sectorPieces (h : Known k) {va : Nat} {ps : List (Nat × Nat × Nat)}
    (hx : k.sectorPieces c va = .ok (k', ps)) : Known k' := by
  obtain ⟨k₁, hk₁, hx⟩ := Except.bind_ok_iff.mp hx
  have h₁ := h.demandPage hk₁
  dsimp only at hx
  split at hx
  · obtain ⟨k₂, hk₂, hx⟩ := Except.bind_ok_iff.mp hx
    obtain ⟨rfl, -⟩ := Prod.mk.inj (Except.ok.inj hx)
    exact h₁.demandPage hk₂
  · obtain ⟨rfl, -⟩ := Prod.mk.inj (Except.ok.inj hx)
    exact h₁

theorem Known.sysReadSector (h : Known k) {disk : Nat → Option (Nat → Nat)} {va sector : Nat}
    (hx : (k.sysReadSector c disk va sector).result = .ok (r, k')) : Known k' := by
  unfold Kernel.sysReadSector at hx
  split at hx
  · cases hx
  rename_i k₁ ps hps
  dsimp only at hx
  split at hx
  · cases hx
  · obtain ⟨-, rfl⟩ := Prod.mk.inj (Except.ok.inj hx)
    exact (h.sectorPieces hps).pmap _

theorem Known.sysWriteSector (h : Known k) {ok : Bool} {va : Nat}
    (hx : (k.sysWriteSector c ok va).result = .ok (r, k')) : Known k' := by
  unfold Kernel.sysWriteSector at hx
  split at hx
  · cases hx
  rename_i k₁ ps hps
  dsimp only at hx
  split at hx
  · obtain ⟨-, rfl⟩ := Prod.mk.inj (Except.ok.inj hx)
    exact h.sectorPieces hps
  · cases hx

theorem Known.access (h : Known k) {cause : Fault} {va w : Nat} {tf : Trapframe}
    (hx : k.access cause va w tf = .ok k') : Known k' := by
  unfold Kernel.access at hx
  split at hx
  · cases hx
  split at hx
  · rw [← Except.ok.inj hx]
    split
    · exact h.pmap _
    · exact h
  · obtain ⟨⟨_, k₁⟩, hk₁, hx⟩ := Except.bind_ok_iff.mp hx
    rw [← Except.ok.inj hx]
    obtain ⟨-, -, s, -, -, rfl⟩ := handleException_ok hk₁
    exact h.pmap s

end

end Kernel

namespace Machine

open Kernel (Known)

section
variable {m m' : Machine} {o : Option Int}

theorem switch_kernel (m : Machine) (cur : Option EnvIdx) (k : Kernel) :
    (m.switch cur k).kernel = k := by
  unfold switch
  split <;> rfl

theorem plain_known {x : Except Halt (Int × Kernel)} (h : ∀ r k', x = .ok (r, k') → Known k')
    (hm : m.plain x = .ok (o, m')) : Known m'.kernel := by
  obtain ⟨r, k, hx, -, rfl⟩ := plain_ok hm
  exact h r k hx

theorem onUser_known {f : EnvIdx → Ran} (h : ∀ c r k', (f c).result = .ok (r, k') → Known k')
    (hm : m.onUser f = .ok (o, m')) : Known m'.kernel := by
  obtain ⟨c, hm⟩ := onUser_ok hm
  exact plain_known (h c) hm

theorem schedule_known (h : Known m.kernel) {yield : Bool} (hm : m.schedule yield = .ok m') :
    Known m'.kernel := by
  obtain ⟨k, hk, hm⟩ := Except.bind_ok_iff.mp hm
  rw [← Except.ok.inj hm, switch_kernel]
  exact h.schedule hk

theorem sysEnvDestroy_known (h : Known m.kernel) {envid : Nat}
    (hm : m.sysEnvDestroy envid = .ok (o, m')) :
    Known m'.kernel := by
  obtain ⟨r, k, hk, ⟨-, rfl⟩ | ⟨-, rfl⟩⟩ := sysEnvDestroy_ok hm
  · rw [switch_kernel]
    exact h.sysEnvDestroy hk
  · exact h.sysEnvDestroy hk

theorem sysExofork_known (h : Known m.kernel) (hn : m.kernel.lastEnvid + 1 < 2 ^ 21)
    (hm : m.sysExofork = .ok (o, m')) : Known m'.kernel := by
  obtain ⟨r, k, hk, -, rfl | ⟨e, rfl⟩⟩ := sysExofork_ok hm
  · exact h.sysExofork hn hk
  · exact h.sysExofork hn hk

theorem sysIpcRecv_known (h : Known m.kernel) {dstva : Nat}
    (hm : m.sysIpcRecv dstva = .ok (o, m')) :
    Known m'.kernel := by
  obtain ⟨r, k, hk, ⟨-, rfl⟩ | ⟨-, rfl⟩⟩ := sysIpcRecv_ok hm
  · exact h.sysIpcRecv hk
  · rw [switch_kernel]
    exact h.sysIpcRecv hk

theorem sysSetTrapframe_kernel {envid tf : Nat} (hm : m.sysSetTrapframe envid tf = .ok (o, m')) :
    m'.kernel = m.kernel := by
  rcases sysSetTrapframe_ok hm with rfl | ⟨c, e, pa, -, -, -, ⟨-, rfl⟩ | rfl⟩
  · rfl
  · rfl
  · rfl

theorem sysSetTlbModEntry_known {k k' : Kernel} (h : Known k) {envid func : Nat} {r : Int}
    (hx : sysSetTlbModEntry k envid func = .ok (r, k')) : Known k' := by
  obtain ⟨c, hc, hx⟩ := Kernel.byCurenv_ok hx
  rcases Kernel.withEnv_ok hx with ⟨rfl, -⟩ | ⟨e, he, hx⟩
  · exact h
  · obtain ⟨-, rfl⟩ := Prod.mk.inj (Except.ok.inj hx)
    apply h.setEnv
    · rfl
    · exact h.not_listed hc he
    · exact Kernel.envid2env_not_free h.cur hc he

/-- One row of `syscall_table` after the other. -/
theorem call_known (h : Known m.kernel) (hn : m.kernel.lastEnvid + 1 < 2 ^ 21) {dev : Devices}
    {sysno arg1 arg2 arg3 arg4 arg5 : Nat}
    (hm : m.call dev sysno arg1 arg2 arg3 arg4 arg5 = .ok (o, m')) :
    Known m'.kernel := by
  have hdone : ∀ r, (.ok (some r, m) : Except Halt Outcome) = .ok (o, m') → Known m'.kernel := by
    intro r hr
    obtain ⟨-, rfl⟩ := Prod.mk.inj (Except.ok.inj hr)
    exact h
  unfold call at hm
  dsimp only at hm
  split at hm
  · exact hdone _ hm
  · exact onUser_known (fun _ _ _ hx => h.sysPrintCons hx) hm
  · apply plain_known _ hm
    intro r k' hx
    obtain ⟨c, -, hx⟩ := Kernel.byCurenv_ok hx
    obtain ⟨-, rfl⟩ := Prod.mk.inj (Except.ok.inj hx)
    exact h
  · obtain ⟨m₁, hs, hm⟩ := Except.bind_ok_iff.mp hm
    obtain ⟨-, rfl⟩ := Prod.mk.inj (Except.ok.inj hm)
    exact schedule_known h hs
  · exact sysEnvDestroy_known h hm
  · exact plain_known (fun _ _ hx => sysSetTlbModEntry_known h hx) hm
  · exact plain_known (fun _ _ hx => h.sysMemAlloc hx) hm
  · exact plain_known (fun _ _ hx => h.sysMemMap hx) hm
  · exact plain_known (fun _ _ hx => h.sysMemUnmap hx) hm
  · exact sysExofork_known h hn hm
  · exact plain_known (fun _ _ hx => h.sysSetEnvStatus hx) hm
  · rw [sysSetTrapframe_kernel hm]
    exact h
  · exact onUser_known (fun _ _ _ hx => by cases hx) hm
  · exact plain_known (fun _ _ hx => h.sysIpcTrySend hx) hm
  · exact sysIpcRecv_known h hm
  · exact hdone _ hm
  · exact hdone _ hm
  · exact hdone _ hm
  · exact onUser_known (fun _ _ _ hx => h.sysReadSector hx) hm
  · exact onUser_known (fun _ _ _ hx => h.sysWriteSector hx) hm
  · split at hm
    · exact hdone _ hm
    · cases hm
  · cases hm

theorem exec_known (h : Known m.kernel) (hn : m.kernel.lastEnvid + 1 < 2 ^ 21) {ev : Event}
    (hm : m.exec ev = .ok m') : Known m'.kernel := by
  cases ev with
  | create load entry priority =>
    obtain ⟨⟨a, k₁⟩, -, hm⟩ := Except.bind_ok_iff.mp hm
    dsimp only at hm
    split at hm
    · cases hm
    · obtain ⟨k, hk, hm⟩ := Except.bind_ok_iff.mp hm
      rw [← Except.ok.inj hm]
      exact h.envCreate hn hk
  | start => exact schedule_known h hm
  | syscall dev tf =>
    unfold exec doSyscall at hm
    dsimp only at hm
    split at hm
    · rw [← Except.ok.inj hm]
      exact h
    · obtain ⟨⟨o, m₁⟩, hcall, hm⟩ := Except.bind_ok_iff.mp hm
      have hsame : Known { m with
          kstack := tf.set Trapframe.sepc (uLong (tf Trapframe.sepc + 4)) }.kernel := h
      have h₁ : Known m₁.kernel := call_known hsame hn hcall
      cases o with
      | none =>
        rw [← Except.ok.inj hm]
        exact h₁
      | some r =>
        rw [← Except.ok.inj hm]
        exact h₁
  | timer tf => exact schedule_known (m := { m with kstack := tf }) h hm
  | access cause va w tf =>
    unfold exec access at hm
    dsimp only at hm
    split at hm
    · cases hm
    split at hm
    · obtain ⟨k, hk, hm⟩ := Except.bind_ok_iff.mp hm
      rw [← Except.ok.inj hm]
      exact h.access hk
    · obtain ⟨⟨r, k⟩, hk, hm⟩ := Except.bind_ok_iff.mp hm
      rw [← Except.ok.inj hm]
      obtain ⟨-, -, s, -, -, rfl⟩ := Kernel.handleException_ok hk
      exact h.pmap s

/-- The kernel's own pages are not written by user code, and `mkenvid` has ids left. -/
def IdsLeft (F : Nat → Prop) (m : Machine) (ev : Event) : Prop :=
  (∀ p, F p → ¬ ev.Writes m p) ∧ m.kernel.lastEnvid + 1 < 2 ^ 21

theorem Run.known {F : Nat → Prop} {s : Pmap EnvIdx} {base : Nat} {evs : List Event}
    (h : Run F (IdsLeft F) s base evs m) : Known m.kernel := by
  induction h with
  | init kstack =>
    constructor
    · exact Kernel.envInit_idInv s base
    · intro c hc
      cases hc
    · intro e
      show (0 : Nat) ≠ 1
      decide
  | step run happens met step ih =>
    cases step with
    | clean ran _ => exact exec_known ih met.2 ran
    | smash p _ hit writes => exact absurd writes (met.1 p hit)

end

end Machine

end RiscvMos
