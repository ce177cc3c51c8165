import RiscvMos.Env.Sched

/-!
Runs of the env table from `env_init`. The scheduler list holds the runnable
envs in every state of a run in which each env that is taken off the list was
on it, and each receiver that is woken was not.
-/

namespace RiscvMos.Kernel

structure Inv (k : Kernel) : Prop where
  sched : SchedInv k
  free : FreeInv k
  cur : CurInv k

/-- The state before a step, as the step needs it. -/
def Op.Ok (k : Kernel) : Op → Prop
  | envCreate .. | sysExofork | sysSetEnvStatus .. => True
  | sysIpcRecv _ | sysYield | tick => ∀ c, k.curenv = some c → Leaves k c
  | sysIpcTrySend envid _ _ _ => ∀ c e, k.curenv = some c → k.envid2env c envid 0 = .ok e →
      (k.envs e).envIpcRecving = true → (k.envs e).envStatus ≠ .runnable
  | sysEnvDestroy envid => ∀ c e, k.curenv = some c → k.envid2env c envid 1 = .ok e → Leaves k e

section
variable {k k' : Kernel} {e : EnvIdx} {r : Int}

theorem byCurenv_ok {f : EnvIdx → Except Halt (Int × Kernel)} (h : k.byCurenv f = .ok (r, k')) :
    ∃ c, k.curenv = some c ∧ f c = .ok (r, k') := by
  unfold byCurenv at h
  split at h
  · cases h
  · rename_i c hc
    exact ⟨c, hc, h⟩

/-- A call by env id gives up and changes nothing, or has found its env. -/
theorem withEnv_ok {f : EnvIdx → Except Halt (Int × Kernel)} {cur : EnvIdx}
    {envid checkperm : Nat} (h : k.withEnv cur envid checkperm f = .ok (r, k')) :
    (k' = k ∧ k.envid2env cur envid checkperm = .error r) ∨
    ∃ e, k.envid2env cur envid checkperm = .ok e ∧ f e = .ok (r, k') := by
  unfold withEnv at h
  split at h
  · rename_i r' he
    obtain ⟨rfl, rfl⟩ := Prod.mk.inj (Except.ok.inj h)
    exact .inl ⟨rfl, he⟩
  · rename_i e he
    exact .inr ⟨e, he, h⟩

theorem liftPmap_ok {x : Except Halt (Reply EnvIdx)} (h : k.liftPmap x = .ok (r, k')) :
    ∃ s, x = .ok (r, s) ∧ k' = { k with pmap := s } := by
  obtain ⟨⟨r', s⟩, hx, h⟩ := Except.bind_ok_iff.mp h
  obtain ⟨rfl, rfl⟩ := Prod.mk.inj (Except.ok.inj h)
  exact ⟨s, hx, rfl⟩

/-! The system calls on memory change nothing, or make their call. -/

/-- A call that names one env and one address. -/
theorem memCall_ok {envid va : Nat} {f : EnvIdx → Except Halt (Reply EnvIdx)}
    (h : (if isIllegalVa va then .ok (-eInval, k)
      else k.byCurenv fun c => k.withEnv c envid (k.envs c).envId fun e =>
      k.liftPmap (f e)) = .ok (r, k')) :
    k' = k ∨ ∃ c e s, k.curenv = some c ∧ k.envid2env c envid (k.envs c).envId = .ok e ∧
      ¬ isIllegalVa va ∧ f e = .ok (r, s) ∧ k' = { k with pmap := s } := by
  split at h
  · exact .inl (Prod.mk.inj (Except.ok.inj h)).2.symm
  rename_i hill
  obtain ⟨c, hc, h⟩ := byCurenv_ok h
  rcases withEnv_ok h with ⟨rfl, -⟩ | ⟨e, he, h⟩
  · exact .inl rfl
  · obtain ⟨s, hs, rfl⟩ := liftPmap_ok h
    exact .inr ⟨c, e, s, hc, he, hill, hs, rfl⟩

theorem sysMemAlloc_ok {envid va perm : Nat} (h : k.sysMemAlloc envid va perm = .ok (r, k')) :
    k' = k ∨ ∃ c e s, k.curenv = some c ∧ k.envid2env c envid (k.envs c).envId = .ok e ∧
      ¬ isIllegalVa va ∧ k.pmap.allocPageUser e va (uInt perm) = .ok (r, s) ∧
      k' = { k with pmap := s } := memCall_ok h

theorem sysMemMap_ok {srcid srcva dstid dstva perm : Nat}
    (h : k.sysMemMap srcid srcva dstid dstva perm = .ok (r, k')) :
    k' = k ∨ ∃ c src dst s, k.curenv = some c ∧ k.envid2env c srcid (k.envs c).envId = .ok src ∧
      k.envid2env c dstid (k.envs c).envId = .ok dst ∧ ¬ isIllegalVa srcva ∧ ¬ isIllegalVa dstva ∧
      k.pmap.isMappedPage src srcva = true ∧
      k.pmap.mapPageUser dst dstva (k.pmap.getPa src srcva) (uInt perm) = .ok (r, s) ∧
      k' = { k with pmap := s } := by
  unfold sysMemMap at h
  split at h
  · exact .inl (Prod.mk.inj (Except.ok.inj h)).2.symm
  rename_i hill
  rw [not_or] at hill
  obtain ⟨c, hc, h⟩ := byCurenv_ok h
  rcases withEnv_ok h with ⟨rfl, -⟩ | ⟨src, hsrc, h⟩
  · exact .inl rfl
  rcases withEnv_ok h with ⟨rfl, -⟩ | ⟨dst, hdst, h⟩
  · exact .inl rfl
  split at h
  · exact .inl (Prod.mk.inj (Except.ok.inj h)).2.symm
  · rename_i hm
    obtain ⟨s, hs, rfl⟩ := liftPmap_ok h
    exact .inr ⟨c, src, dst, s, hc, hsrc, hdst, hill.1, hill.2, by simpa using hm, hs, rfl⟩

theorem sysMemUnmap_ok {envid va : Nat} (h : k.sysMemUnmap envid va = .ok (r, k')) :
    k' = k ∨ ∃ c e s, k.curenv = some c ∧ k.envid2env c envid (k.envs c).envId = .ok e ∧
      ¬ isIllegalVa va ∧ k.pmap.unmapPage e va = .ok (r, s) ∧ k' = { k with pmap := s } :=
      memCall_ok h

theorem settableStatus_ne_free {status : Nat} {st : EnvStatus}
    (h : settableStatus status = some st) : st ≠ .free := by
  unfold settableStatus at h
  split at h
  · obtain rfl := Option.some.inj h
    simp
  split at h
  · obtain rfl := Option.some.inj h
    simp
  · cases h

theorem sysSetEnvStatus_ok {envid status : Nat} (h : k.sysSetEnvStatus envid status = .ok (r, k')) :
    k' = k ∨ ∃ c e st k₁, k.curenv = some c ∧ k.envid2env c envid (k.envs c).envId = .ok e ∧
      settableStatus status = some st ∧ k.schedUpdate e st = .ok k₁ ∧ k' = k₁.setStatus e st := by
  unfold sysSetEnvStatus at h
  split at h
  · exact .inl (Prod.mk.inj (Except.ok.inj h)).2.symm
  rename_i st hst
  obtain ⟨c, hcur, h⟩ := byCurenv_ok h
  rcases withEnv_ok h with ⟨rfl, -⟩ | ⟨e, he, h⟩
  · exact .inl rfl
  obtain ⟨k₁, h₁, h⟩ := Except.bind_ok_iff.mp h
  exact .inr ⟨c, e, st, k₁, hcur, he, hst, h₁, (Prod.mk.inj (Except.ok.inj h)).2.symm⟩

theorem sysIpcRecv_ok {dstva : Nat} (h : k.sysIpcRecv dstva = .ok (r, k')) :
    ((dstva ≠ 0 ∧ isIllegalVa dstva) ∧ k' = k) ∨
    (¬ (dstva ≠ 0 ∧ isIllegalVa dstva) ∧ ∃ c k₁, k.curenv = some c ∧
      (k.setEnv c { k.envs c with
        envIpcRecving := true, envIpcDstva := dstva,
        envStatus := .notRunnable }).schedRemove c = .ok k₁ ∧
      k₁.schedule true = .ok k') := by
  unfold sysIpcRecv at h
  split at h
  · rename_i hill
    exact .inl ⟨hill, (Prod.mk.inj (Except.ok.inj h)).2.symm⟩
  rename_i hill
  obtain ⟨c, hcur, h⟩ := byCurenv_ok h
  dsimp only at h
  obtain ⟨k₁, h₁, h⟩ := Except.bind_ok_iff.mp h
  obtain ⟨k₂, h₂, h⟩ := Except.bind_ok_iff.mp h
  obtain ⟨-, rfl⟩ := Prod.mk.inj (Except.ok.inj h)
  exact .inr ⟨hill, c, k₁, hcur, h₁, h₂⟩

/-- A send is refused, for one of three reasons, or it wakes the receiver. -/
theorem sysIpcTrySend_ok {envid value srcva perm : Nat}
    (h : k.sysIpcTrySend envid value srcva perm = .ok (r, k')) :
    (k' = k ∧ (srcva ≠ 0 ∧ isIllegalVa srcva) ∧ r = -eInval) ∨
    (¬ (srcva ≠ 0 ∧ isIllegalVa srcva) ∧ ∃ c, k.curenv = some c ∧
      ((k' = k ∧ k.envid2env c envid 0 = .error r) ∨ ∃ e, k.envid2env c envid 0 = .ok e ∧
        ((k' = k ∧ (k.envs e).envIpcRecving = false ∧ r = -eIpcNotRecv) ∨
          ((k.envs e).envIpcRecving = true ∧
            ∃ s, k' = { k.ipcDeliver c e value perm with pmap := s })))) := by
  unfold sysIpcTrySend at h
  split at h
  · rename_i hill
    obtain ⟨rfl, rfl⟩ := Prod.mk.inj (Except.ok.inj h)
    exact .inl ⟨rfl, hill, rfl⟩
  rename_i hill
  obtain ⟨c, hcur, h⟩ := byCurenv_ok h
  refine .inr ⟨hill, c, hcur, ?_⟩
  rcases withEnv_ok h with ⟨rfl, he⟩ | ⟨e, he, h⟩
  · exact .inl ⟨rfl, he⟩
  refine .inr ⟨e, he, ?_⟩
  split at h
  · rename_i hrecv
    obtain ⟨rfl, rfl⟩ := Prod.mk.inj (Except.ok.inj h)
    exact .inl ⟨rfl, hrecv, rfl⟩
  rename_i hrecv
  refine .inr ⟨by simpa using hrecv, ?_⟩
  dsimp only at h
  split at h
  · exact ⟨_, (Prod.mk.inj (Except.ok.inj h)).2.symm⟩
  split at h
  · exact ⟨_, (Prod.mk.inj (Except.ok.inj h)).2.symm⟩
  · obtain ⟨s, -, hk'⟩ := liftPmap_ok h
    exact ⟨s, hk'⟩

theorem lt_ulim_of_not_illegal {va : Nat} (h : ¬ isIllegalVa va) : va < ulim := by
  simp only [isIllegalVa, not_or, utop] at h
  omega

/-- An env off the list becomes runnable and is put on it. -/
theorem schedInv_insert {q : Tailq EnvIdx} (hk : SchedInv k)
    (he : (k.envs e).envStatus ≠ .runnable)
    (hq : ∀ l, k.envSchedList.IsQueue l → e ∉ l → ∃ l', q.IsQueue l' ∧ ∀ x, x ∈ l' ↔ x = e ∨ x ∈ l)
    (hlist : k'.envSchedList = q)
    (hst : ∀ x, (k'.envs x).envStatus = if x = e then .runnable else (k.envs x).envStatus) :
    SchedInv k' := by
  obtain ⟨l, hl, hmem⟩ := hk
  obtain ⟨l', hl', hmem'⟩ := hq l hl fun h => he ((hmem e).mp h)
  refine ⟨l', by rw [hlist]; exact hl', fun x => ?_⟩
  rw [hmem' x, hst x, hmem x]
  by_cases hx : x = e
  · simp [hx]
  · simp [hx]

theorem insertTail_mem (q : Tailq EnvIdx) (e : EnvIdx) :
    ∀ l, q.IsQueue l → e ∉ l → ∃ l', (q.insertTail e).IsQueue l' ∧ ∀ x, x ∈ l' ↔ x = e ∨ x ∈ l :=
  fun l hl he => ⟨l ++ [e], hl.insertTail he, fun x => by simp [or_comm]⟩

theorem insertHead_mem (q : Tailq EnvIdx) (e : EnvIdx) :
    ∀ l, q.IsQueue l → e ∉ l → ∃ l', (q.insertHead e).IsQueue l' ∧ ∀ x, x ∈ l' ↔ x = e ∨ x ∈ l :=
  fun l hl he => ⟨e :: l, hl.insertHead he, fun x => by simp⟩

/-- An env off the list changes between the other two statuses. -/
theorem schedInv_setEnv (hk : SchedInv k) (he : (k.envs e).envStatus ≠ .runnable) {v : Env}
    (hv : v.envStatus ≠ .runnable) : SchedInv (k.setEnv e v) := by
  obtain ⟨l, hl, hmem⟩ := hk
  refine ⟨l, hl, fun x => ?_⟩
  rw [hmem x]
  by_cases hx : x = e
  · subst hx; simp [setEnv_envs, he, hv]
  · simp [setEnv_envs, hx]

theorem envCreate_inv {load : Pmap EnvIdx → EnvIdx → Except Halt (Pmap EnvIdx)} {priority : Nat}
    (hk : Inv k) (h : k.envCreate load priority = .ok k') : Inv k' := by
  obtain ⟨⟨a, k₁⟩, ha, h⟩ := Except.bind_ok_iff.mp h
  obtain ⟨hs, hf, hc, hnew⟩ := envAlloc_inv hk.sched hk.free hk.cur ha
  cases a with
  | error r => cases h
  | ok e =>
    obtain ⟨hst, hmem⟩ := hnew e rfl
    simp only at h
    obtain ⟨s, -, h⟩ := Except.bind_ok_iff.mp h
    obtain rfl := Except.ok.inj h
    refine ⟨schedInv_insert hs (e := e) (by rw [hst]; simp) (insertHead_mem _ e) rfl fun x => ?_,
      setStatus_freeInv hf hmem, curInv_setEnv hc (by simp)⟩
    by_cases hx : x = e
    · subst hx; simp [setRootEntry, setEnv]
    · simp [setRootEntry, setEnv, hx]

theorem sysExofork_inv (hk : Inv k) (h : k.sysExofork = .ok (r, k')) : Inv k' := by
  obtain ⟨c, -, h⟩ := byCurenv_ok h
  obtain ⟨⟨a, k₁⟩, ha, h⟩ := Except.bind_ok_iff.mp h
  obtain ⟨hs, hf, hc, hnew⟩ := envAlloc_inv hk.sched hk.free hk.cur ha
  cases a with
  | error r =>
    obtain ⟨rfl, rfl⟩ := Prod.mk.inj (Except.ok.inj h)
    exact ⟨hs, hf, hc⟩
  | ok e =>
    obtain ⟨hst, hmem⟩ := hnew e rfl
    -- the end of the call makes the child not runnable
    have hfinish : ∀ s : Pmap EnvIdx, Inv (sysExofork.finish { k₁ with pmap := s } c e).2 := by
      intro s
      have hs₁ : SchedInv (k₁.setStatus e .notRunnable) :=
        schedInv_setEnv hs (by rw [hst]; simp) (by simp)
      have hc₁ : CurInv (k₁.setStatus e .notRunnable) := curInv_setEnv hc (by simp)
      have hf₁ : FreeInv (k₁.setStatus e .notRunnable) := setStatus_freeInv hf hmem
      refine ⟨?_, setStatus_freeInv hf₁ hmem, curInv_setEnv hc₁ (by simp [setStatus, setEnv])⟩
      exact schedInv_setEnv hs₁ (by simp [setStatus, setEnv]) (by simp [setStatus, setEnv])
    simp only at h
    split at h
    · split at h
      · obtain ⟨rfl, rfl⟩ := Prod.mk.inj (Except.ok.inj h)
        exact ⟨hs, hf, hc⟩
      · obtain ⟨⟨_, s⟩, -, h⟩ := Except.bind_ok_iff.mp h
        have := hfinish s
        rw [Except.ok.inj h] at this
        exact this
    · have := hfinish k₁.pmap
      rw [Except.ok.inj h] at this
      exact this

theorem sysSetEnvStatus_inv {envid status : Nat} (hk : Inv k)
    (h : k.sysSetEnvStatus envid status = .ok (r, k')) : Inv k' := by
  rcases sysSetEnvStatus_ok h with rfl | ⟨c, e, st, k₁, hcur, he, hst, h₁, rfl⟩
  · exact hk
  have hnf := settableStatus_ne_free hst
  have hmem := not_mem_freeList hk.free (envid2env_not_free hk.cur hcur he)
  unfold schedUpdate at h₁
  split at h₁
  · -- off the list
    rename_i hcond
    obtain ⟨q, l, hrem, hq, -, hl⟩ := schedRemove_spec hk.sched (.inl hcond.1)
    simp only [schedRemove, hrem, Except.ok.injEq] at h₁
    subst h₁
    refine ⟨⟨l, hq, fun x => ?_⟩, setStatus_freeInv (k := k) hk.free hmem,
      curInv_setEnv (k := k) hk.cur hnf⟩
    rw [hl x]
    by_cases hx : x = e
    · subst hx; simp [setStatus, setEnv, hcond.2]
    · simp [setStatus, setEnv, hx]
  split at h₁
  · -- onto the list
    rename_i hcond
    obtain rfl := Except.ok.inj h₁
    refine ⟨schedInv_insert hk.sched hcond.1 (insertTail_mem _ e) rfl fun x => ?_,
      setStatus_freeInv (k := k) hk.free hmem, curInv_setEnv (k := k) hk.cur hnf⟩
    by_cases hx : x = e
    · subst hx; simp [setStatus, setEnv, hcond.2]
    · simp [setStatus, setEnv, schedInsertTail, hx]
  · rename_i h1 h2
    obtain rfl := Except.ok.inj h₁
    refine ⟨?_, setStatus_freeInv hk.free hmem, curInv_setEnv hk.cur hnf⟩
    by_cases hr : (k.envs e).envStatus = .runnable
    · have hstr : st = .runnable := by
        by_contra hne; exact h1 ⟨hr, hne⟩
      obtain ⟨l, hl, hm⟩ := hk.sched
      refine ⟨l, hl, fun x => ?_⟩
      rw [hm x]
      by_cases hx : x = e
      · subst hx; simp [setStatus, setEnv, hr, hstr]
      · simp [setStatus, setEnv, hx]
    · exact schedInv_setEnv hk.sched hr fun hst => h2 ⟨hr, hst⟩

theorem sysIpcRecv_inv {dstva : Nat} (hk : Inv k)
    (hok : ∀ c, k.curenv = some c → Leaves k c) (h : k.sysIpcRecv dstva = .ok (r, k')) :
    Inv k' := by
  rcases sysIpcRecv_ok h with ⟨-, rfl⟩ | ⟨-, c, k₁, hcur, h₁, h₂⟩
  · exact hk
  obtain ⟨q, l, hrem, hq, hd, hl⟩ := schedRemove_spec hk.sched (hok c hcur)
  have hmem := not_mem_freeList hk.free (hk.cur c hcur)
  simp only [schedRemove, setEnv, hrem, Except.ok.injEq] at h₁
  subst h₁
  have hs₁ : ∀ x, x ∈ l ↔ (Function.update k.envs c { k.envs c with
      envIpcRecving := true, envIpcDstva := dstva, envStatus := .notRunnable } x).envStatus =
      .runnable := by
    intro x
    rw [hl x]
    by_cases hx : x = c
    · subst hx; simp
    · simp [hx]
  -- the second removal, by `schedule`, finds the links the first one left
  have hcur' : ∀ c', k.curenv = some c' → q.Detached c' := by
    intro c' hc'
    obtain rfl := Option.some.inj (hcur.symm.trans hc')
    exact hd
  obtain ⟨hs', hf', hc'⟩ := schedule_inv ⟨l, hq, hs₁⟩
    (setStatus_freeInv (k := { k with envSchedList := q }) hk.free hmem)
    (fun c' hc' => .inr (hcur' c' hc')) h₂
  exact ⟨hs', hf', hc'⟩

theorem ipcDeliver_inv (hk : Inv k) (he : (k.envs e).envStatus ≠ .runnable)
    (hmem : e ∉ k.envFreeList) (cur : EnvIdx) (value perm : Nat) :
    Inv (k.ipcDeliver cur e value perm) := by
  refine ⟨schedInv_insert hk.sched he (insertTail_mem _ e) rfl fun x => ?_,
    setStatus_freeInv (k := k) hk.free hmem, curInv_setEnv (k := k) hk.cur (by simp)⟩
  by_cases hx : x = e
  · subst hx; simp [ipcDeliver, schedInsertTail, setEnv]
  · simp [ipcDeliver, schedInsertTail, setEnv, hx]

theorem sysIpcTrySend_inv {envid value srcva perm : Nat} (hk : Inv k)
    (hok : Op.Ok k (.sysIpcTrySend envid value srcva perm))
    (h : k.sysIpcTrySend envid value srcva perm = .ok (r, k')) : Inv k' := by
  rcases sysIpcTrySend_ok h with ⟨rfl, -⟩ |
    ⟨-, c, hcur, ⟨rfl, -⟩ | ⟨e, he, ⟨rfl, -⟩ | ⟨hrecv, s, rfl⟩⟩⟩
  · exact hk
  · exact hk
  · exact hk
  · have hk₁ := ipcDeliver_inv hk (hok c e hcur he hrecv)
      (not_mem_freeList hk.free (envid2env_not_free hk.cur hcur he)) c value perm
    exact ⟨hk₁.sched, hk₁.free, hk₁.cur⟩

theorem sysEnvDestroy_inv {envid : Nat} (hk : Inv k) (hok : Op.Ok k (.sysEnvDestroy envid))
    (h : k.sysEnvDestroy envid = .ok (r, k')) : Inv k' := by
  obtain ⟨c, hcur, h⟩ := byCurenv_ok h
  rcases withEnv_ok h with ⟨rfl, -⟩ | ⟨e, he, h⟩
  · exact hk
  have hmem := not_mem_freeList hk.free (envid2env_not_free hk.cur hcur he)
  obtain ⟨k₂, h₂, h⟩ := Except.bind_ok_iff.mp h
  obtain ⟨-, rfl⟩ := Prod.mk.inj (Except.ok.inj h)
  obtain ⟨k₁, h₁, h₂⟩ := Except.bind_ok_iff.mp h₂
  obtain ⟨⟨_, s⟩, -, h₁⟩ := Except.bind_ok_iff.mp h₁
  obtain ⟨q, l, hrem, hq, -, hl⟩ := schedRemove_spec hk.sched (hok c e hcur he)
  simp only [schedRemove, asidFree, setStatus, setEnv, hrem, Except.ok.injEq] at h₁
  subst h₁
  have hs₁ : ∀ x, x ∈ l ↔ (Function.update k.envs e { k.envs e with envStatus := .free }
      x).envStatus = .runnable := by
    intro x
    rw [hl x]
    by_cases hx : x = e
    · subst hx; simp
    · simp [hx]
  have hf₁ : ∀ x ∈ e :: k.envFreeList, (Function.update k.envs e
      { k.envs e with envStatus := .free } x).envStatus = .free := by
    intro x hx
    by_cases hxe : x = e
    · subst hxe; simp
    · simpa [hxe] using hk.free.2 x (by simpa [hxe] using hx)
  have hnd : (e :: k.envFreeList).Nodup := List.nodup_cons.mpr ⟨hmem, hk.free.1⟩
  split at h₂
  · obtain ⟨hs', hf', hc'⟩ := schedule_inv (k := _) ⟨l, hq, hs₁⟩ ⟨hnd, hf₁⟩ (by simp) h₂
    exact ⟨hs', hf', hc'⟩
  · rename_i hne
    obtain rfl := Except.ok.inj h₂
    refine ⟨⟨l, hq, hs₁⟩, ⟨hnd, hf₁⟩, fun c' hc' => ?_⟩
    have hce : c' ≠ e := by rintro rfl; exact hne hc'
    simpa [hce] using hk.cur c' hc'

theorem step_inv {op : Op} (hk : Inv k) (hok : op.Ok k) (h : k.exec op = .ok (r, k')) : Inv k' := by
  cases op with
  | envCreate load priority =>
    obtain ⟨k₁, h₁, h⟩ := Except.bind_ok_iff.mp h
    obtain ⟨-, rfl⟩ := Prod.mk.inj (Except.ok.inj h)
    exact envCreate_inv hk h₁
  | sysExofork => exact sysExofork_inv hk h
  | sysSetEnvStatus envid status => exact sysSetEnvStatus_inv hk h
  | sysIpcRecv dstva => exact sysIpcRecv_inv hk hok h
  | sysIpcTrySend envid value srcva perm => exact sysIpcTrySend_inv hk hok h
  | sysYield | tick =>
    obtain ⟨k₁, h₁, h⟩ := Except.bind_ok_iff.mp h
    obtain ⟨-, rfl⟩ := Prod.mk.inj (Except.ok.inj h)
    obtain ⟨hs', hf', hc'⟩ := schedule_inv hk.sched hk.free hok h₁
    exact ⟨hs', hf', hc'⟩
  | sysEnvDestroy envid => exact sysEnvDestroy_inv hk hok h

end

/-- The states reached from `env_init` by steps that meet `P`. -/
inductive Reach (s : Pmap EnvIdx) (base : Nat) (P : Kernel → Op → Prop) : Kernel → Prop where
  | init : Reach s base P (envInit s base)
  | step {k k' : Kernel} {op : Op} {r : Int} (hr : Reach s base P k) (hp : P k op)
      (h : k.exec op = .ok (r, k')) : Reach s base P k'

theorem envInit_inv (s : Pmap EnvIdx) (base : Nat) : Inv (envInit s base) := by
  have hnd : (envInit s base).envFreeList.Nodup := by
    simp only [envInit, List.nodup_finRange]
  refine ⟨⟨[], Tailq.init_isQueue, fun e => ?_⟩, ⟨hnd, fun _ _ => rfl⟩, ?_⟩
  · simp [envInit, zeroEnv]
  · intro c hc; cases hc

/-- The list holds the runnable envs along every run whose steps are `Ok`. -/
theorem reachable_sched_inv {s : Pmap EnvIdx} {base : Nat} {k : Kernel}
    (h : Reach s base (fun k op => op.Ok k) k) : SchedInv k := by
  have hinv : Inv k := by
    induction h with
    | init => exact envInit_inv s base
    | step _ hp h ih => exact step_inv ih hp h
  exact hinv.sched

/-! Evaluating a run. -/

/-- The state after some steps, each of which passes the check `p`. -/
def execAll (p : Kernel → Op → Bool) (k : Kernel) : List Op → Option Kernel
  | [] => some k
  | op :: ops =>
    match p k op, k.exec op with
    | true, .ok (_, k') => k'.execAll p ops
    | _, _ => none

theorem reach_execAll {s : Pmap EnvIdx} {base : Nat} {P : Kernel → Op → Prop}
    {p : Kernel → Op → Bool} (hp : ∀ k op, p k op = true → P k op) {k k' : Kernel}
    {ops : List Op} (hr : Reach s base P k) (h : k.execAll p ops = some k') :
    Reach s base P k' := by
  induction ops generalizing k with
  | nil => exact Option.some.inj h ▸ hr
  | cons op ops ih =>
    unfold execAll at h
    split at h
    · rename_i r k₁ hpk h₁
      exact ih (hr.step (hp k op hpk) h₁) h
    · cases h

/-- Memory with a free list. -/
def demoPmap : Pmap EnvIdx :=
  { mem := fun _ _ => 0, ppRef := fun _ => 0, pageFreeList := List.range' 0x83000 32,
    pgdir := fun _ => 0 }

/-- An env with an image that loads nothing. -/
def create : Op := .envCreate (fun s _ => .ok s) 1

/-- The state after some steps from `env_init`. -/
def demo (p : Kernel → Op → Bool) (ops : List Op) : Kernel :=
  ((envInit demoPmap 0x82000000).execAll p ops).getD (envInit demoPmap 0x82000000)

theorem reach_demo {P : Kernel → Op → Prop} {p : Kernel → Op → Bool}
    (hp : ∀ k op, p k op = true → P k op) (ops : List Op) :
    Reach demoPmap 0x82000000 P (demo p ops) := by
  unfold demo
  cases h : (envInit demoPmap 0x82000000).execAll p ops with
  | none => exact .init
  | some k => exact reach_execAll hp .init h

/-- Two envs; the running one stops, starts and stops itself, so that it was
last on the list, then makes a child runnable behind its old place, and yields. -/
def lostChild : Kernel :=
  demo (fun _ _ => true) [create, create, .tick, .sysSetEnvStatus 0 2, .sysSetEnvStatus 0 1,
    .sysSetEnvStatus 0 2, .sysExofork, .sysSetEnvStatus 6146 1, .sysYield]

/-- The removal in `schedule` follows stale links and drops the child. -/
theorem sched_inv_fails : Reach demoPmap 0x82000000 (fun _ _ => True) lostChild ∧
    (lostChild.envs 2).envStatus = .runnable ∧ lostChild.curenv = some 0 ∧
    ¬ SchedInv lostChild := by
  have hrun : (lostChild.envs 2).envStatus = .runnable := by decide +kernel
  refine ⟨reach_demo (fun _ _ _ => trivial) _, hrun, by decide +kernel, ?_⟩
  rintro ⟨l, hq, hl⟩
  have hseg : lostChild.envSchedList.Seg .first [0] :=
    ⟨by decide +kernel, by decide +kernel, by decide +kernel, by decide +kernel⟩
  have h2 := (hl 2).mpr hrun
  rw [hq.1.unique hseg] at h2
  revert h2
  decide

/-- Envs that are created and take turns while runnable. -/
def takesTurn (k : Kernel) : Op → Bool
  | .envCreate .. => true
  | .tick | .sysYield => k.curenv.all fun c => (k.envs c).envStatus = .runnable
  | _ => false

theorem ok_of_takesTurn (k : Kernel) (op : Op) (h : takesTurn k op = true) : op.Ok k := by
  have hrun : (k.curenv.all fun c => (k.envs c).envStatus = .runnable) = true →
      ∀ c, k.curenv = some c → Leaves k c := by
    intro h c hc
    rw [hc] at h
    exact .inl (by simpa using h)
  cases op with
  | envCreate => trivial
  | tick => exact hrun h
  | sysYield => exact hrun h
  | _ => cases h

theorem reachable_sched_inv_turns :
    (demo takesTurn [create, create, .tick, .sysYield]).curenv = some 0 ∧
    SchedInv (demo takesTurn [create, create, .tick, .sysYield]) :=
  ⟨by decide +kernel, reachable_sched_inv (reach_demo ok_of_takesTurn _)⟩

end RiscvMos.Kernel
