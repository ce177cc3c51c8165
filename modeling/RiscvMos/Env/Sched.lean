import RiscvMos.Env.Syscalls
import RiscvMos.Lib.Except

/-!
The invariant of `env_sched_list`: it is a well-formed queue of the runnable
envs. It survives a step that takes an env off the list only if that env is on
it, or if its old links still fit (`Leaves`), and one that wakes a receiver
only if the receiver is not on the list yet.
-/

namespace RiscvMos

/-- What the scheduler and the messages use of an env. -/
def Env.msg (v : Env) : EnvStatus × Bool × Nat × Nat :=
  (v.envStatus, v.envIpcRecving, v.envIpcValue, v.envIpcFrom)

namespace Kernel

/-- `env_sched_list` contains an env, exactly once, iff it is runnable. -/
def SchedInv (k : Kernel) : Prop :=
  ∃ l, k.envSchedList.IsQueue l ∧ ∀ e, e ∈ l ↔ (k.envs e).envStatus = .runnable

def FreeInv (k : Kernel) : Prop :=
  k.envFreeList.Nodup ∧ ∀ e ∈ k.envFreeList, (k.envs e).envStatus = .free

def CurInv (k : Kernel) : Prop := ∀ c, k.curenv = some c → (k.envs c).envStatus ≠ .free

/-- Taking `e` off the list leaves a list: `e` is on it, or the links it was
left with still agree with the list around its old place. -/
def Leaves (k : Kernel) (e : EnvIdx) : Prop :=
  (k.envs e).envStatus = .runnable ∨ k.envSchedList.Detached e

/-- `k'` has the list, the free list and the messages of `k`. -/
structure SameSched (k k' : Kernel) : Prop where
  list : k'.envSchedList = k.envSchedList
  free : k'.envFreeList = k.envFreeList
  msg : ∀ e, (k'.envs e).msg = (k.envs e).msg

section
variable {k k' k'' : Kernel} {e : EnvIdx}

theorem SameSched.status (h : SameSched k k') (e : EnvIdx) :
    (k'.envs e).envStatus = (k.envs e).envStatus := congrArg Prod.fst (h.msg e)

theorem SameSched.schedInv (h : SameSched k k') (hk : SchedInv k) : SchedInv k' := by
  obtain ⟨l, hq, hl⟩ := hk
  exact ⟨l, by rw [h.list]; exact hq, fun e => by rw [h.status e]; exact hl e⟩

theorem SameSched.freeInv (h : SameSched k k') (hk : FreeInv k) : FreeInv k' :=
  ⟨by rw [h.free]; exact hk.1, fun e he => by
    rw [h.status e]; exact hk.2 e (by rwa [h.free] at he)⟩

theorem setEnv_envs (k : Kernel) (e : EnvIdx) (v : Env) :
    (k.setEnv e v).envs = Function.update k.envs e v := rfl

theorem sameSched_setEnv {v : Env} (h : v.msg = (k.envs e).msg) : SameSched k (k.setEnv e v) := by
  refine ⟨rfl, rfl, fun x => ?_⟩
  by_cases hx : x = e
  · subst hx; simp [setEnv_envs, h]
  · simp [setEnv_envs, hx]

/-- Taking an env off the list. -/
theorem schedRemove_spec (hk : SchedInv k) (he : Leaves k e) :
    ∃ q l, k.envSchedList.remove e = some q ∧ q.IsQueue l ∧ q.Detached e ∧
      ∀ x, x ∈ l ↔ x ≠ e ∧ (k.envs x).envStatus = .runnable := by
  obtain ⟨l, hq, hl⟩ := hk
  by_cases hr : (k.envs e).envStatus = .runnable
  · obtain ⟨q, hrem, hq'⟩ := hq.remove ((hl e).mpr hr)
    refine ⟨q, l.erase e, hrem, hq', hq.detached ((hl e).mpr hr) hrem, ?_⟩
    intro x
    rw [hq.2.mem_erase_iff, hl x]
  · have hd := he.resolve_left hr
    refine ⟨k.envSchedList, l, hd.remove, hq, hd, fun x => ?_⟩
    rw [hl x]
    exact ⟨fun hx => ⟨by rintro rfl; exact hr hx, hx⟩, fun hx => hx.2⟩

theorem schedRequeue_spec (hk : SchedInv k) (he : Leaves k e) (h : k.schedRequeue e = .ok k') :
    SchedInv k' ∧ k'.envs = k.envs ∧ k'.envFreeList = k.envFreeList := by
  obtain ⟨q, l, hrem, hq, -, hl⟩ := schedRemove_spec hk he
  have hrem' : k.schedRemove e = .ok { k with envSchedList := q } := by simp [schedRemove, hrem]
  unfold schedRequeue at h
  rw [hrem'] at h
  obtain rfl := Except.ok.inj h
  by_cases hr : (k.envs e).envStatus = .runnable
  · simp only [hr, if_true, schedInsertTail, and_self, and_true]
    refine ⟨l ++ [e], hq.insertTail fun h => ((hl e).mp h).1 rfl, fun x => ?_⟩
    simp only [List.mem_append, List.mem_singleton, hl x]
    by_cases hx : x = e
    · simp [hx, hr]
    · simp [hx]
  · simp only [hr, if_false, and_self, and_true]
    refine ⟨l, hq, fun x => ?_⟩
    rw [hl x]
    exact ⟨fun h => h.2, fun h => ⟨fun hx => hr (hx ▸ h), h⟩⟩

theorem envRun_spec (h : k.envRun e = .ok k') :
    SameSched k k' ∧ k'.curenv = some e ∧ (k.envs e).envStatus = .runnable := by
  unfold envRun at h
  split at h
  · cases h
  rename_i hr
  obtain rfl := Except.ok.inj h
  refine ⟨⟨rfl, rfl, fun x => ?_⟩, rfl, by simpa using hr⟩
  by_cases hx : x = e
  · subst hx; simp [setRootEntry, setEnv, Env.msg]
  · simp [setRootEntry, setEnv, hx]

theorem schedFirst_spec (h : k.schedFirst = .ok k') :
    SameSched k k' ∧ ∃ e, k'.curenv = some e ∧ (k.envs e).envStatus = .runnable := by
  unfold schedFirst at h
  split at h
  · cases h
  · rename_i e _
    obtain ⟨hs, hc, hr⟩ := envRun_spec h
    exact ⟨⟨hs.list, hs.free, hs.msg⟩, e, hc, hr⟩

/-- `schedule` moves envs on its list, and then runs one. -/
theorem schedule_envRun {yield : Bool} (h : k.schedule yield = .ok k') :
    ∃ (k₁ : Kernel) (e : EnvIdx), k₁.pmap = k.pmap ∧ k₁.basePgdir = k.basePgdir ∧ k₁.envs = k.envs ∧
      k₁.curenv = k.curenv ∧ k₁.envRun e = .ok k' := by
  have hfirst : ∀ k₁ : Kernel, k₁.schedFirst = .ok k' → ∃ (k₂ : Kernel) (e : EnvIdx),
      k₂.pmap = k₁.pmap ∧ k₂.basePgdir = k₁.basePgdir ∧ k₂.envs = k₁.envs ∧
        k₂.curenv = k₁.curenv ∧ k₂.envRun e = .ok k' := by
    intro k₁ hf
    unfold schedFirst at hf
    split at hf
    · cases hf
    · rename_i e _
      exact ⟨{ k₁ with count := (k₁.envs e).envPri }, e, rfl, rfl, rfl, rfl, hf⟩
  unfold schedule at h
  simp only at h
  split at h
  · exact hfirst _ h
  split at h
  · obtain ⟨k₁, hq, h⟩ := Except.bind_ok_iff.mp h
    unfold schedRequeue schedRemove at hq
    obtain ⟨k₂, hrem, hq⟩ := Except.bind_ok_iff.mp hq
    split at hrem
    · cases hrem
    obtain rfl := Except.ok.inj hrem
    obtain rfl := Except.ok.inj hq
    have hrun := hfirst _ h
    dsimp only at hrun
    split at hrun
    · exact hrun
    · exact hrun
  · exact ⟨{ k with count := k.count - 1 }, _, rfl, rfl, rfl, rfl, h⟩

/-- Every way out of `schedule` runs a runnable env. -/
theorem curInv_of_run (hs : SameSched k k') {e : EnvIdx} (hc : k'.curenv = some e)
    (hr : (k.envs e).envStatus = .runnable) : CurInv k' := by
  intro c hc'
  obtain rfl := Option.some.inj (hc.symm.trans hc')
  rw [hs.status, hr]; simp

theorem schedule_inv {yield : Bool} (hk : SchedInv k) (hf : FreeInv k)
    (hcur : ∀ c, k.curenv = some c → Leaves k c) (h : k.schedule yield = .ok k') :
    SchedInv k' ∧ FreeInv k' ∧ CurInv k' := by
  unfold schedule at h
  simp only at h
  split at h
  · obtain ⟨hs, e, hc, hr⟩ := schedFirst_spec h
    exact ⟨hs.schedInv hk, hs.freeInv hf, curInv_of_run hs hc hr⟩
  rename_i e hce
  split at h
  · obtain ⟨k₁, h₁, h⟩ := Except.bind_ok_iff.mp h
    obtain ⟨hs, e', hc, hr⟩ := schedFirst_spec h
    have hk' : SchedInv { k with count := k.count - 1 } := hk
    obtain ⟨hk₁, henvs, hfree⟩ := schedRequeue_spec hk' (hcur e hce) h₁
    exact ⟨hs.schedInv hk₁, hs.freeInv ⟨by rw [hfree]; exact hf.1, fun x hx => by
      rw [henvs]; exact hf.2 x (by rwa [hfree] at hx)⟩, curInv_of_run hs hc hr⟩
  · obtain ⟨hs, hc, hr⟩ := envRun_spec h
    exact ⟨hs.schedInv hk, hs.freeInv hf, curInv_of_run hs hc hr⟩

/-- `env_alloc` takes the first free env off the free list, or nothing. -/
theorem envAlloc_spec {parentId : Nat} {r : Except Int EnvIdx}
    (h : k.envAlloc parentId = .ok (r, k')) :
    k'.envSchedList = k.envSchedList ∧ k'.curenv = k.curenv ∧
    (∀ x, (k'.envs x).msg = (k.envs x).msg) ∧
    match r with
    | .error _ => k'.envFreeList = k.envFreeList
    | .ok e => k.envFreeList = e :: k'.envFreeList := by
  unfold envAlloc at h
  split at h
  · obtain ⟨rfl, rfl⟩ := Prod.mk.inj (Except.ok.inj h)
    exact ⟨rfl, rfl, fun _ => rfl, rfl⟩
  rename_i e rest hl
  simp only at h
  split at h
  · obtain ⟨rfl, rfl⟩ := Prod.mk.inj (Except.ok.inj h)
    exact ⟨rfl, rfl, (sameSched_setEnv (by simp [Env.msg])).msg, rfl⟩
  · obtain ⟨k₁, h₁, h⟩ := Except.bind_ok_iff.mp h
    obtain ⟨rfl, rfl⟩ := Prod.mk.inj (Except.ok.inj h)
    unfold envSetupVm at h₁
    obtain ⟨⟨_, s₁⟩, -, h₁⟩ := Except.bind_ok_iff.mp h₁
    obtain ⟨⟨_, s₂⟩, -, h₁⟩ := Except.bind_ok_iff.mp h₁
    obtain rfl := Except.ok.inj h₁
    refine ⟨rfl, rfl, fun x => ?_, hl⟩
    by_cases hx : x = e
    · subst hx; simp [setRootEntry, setEnv, Env.msg]
    · simp [setRootEntry, setEnv, hx]

/-- The new env was free, so the list does not hold it. -/
theorem envAlloc_inv {parentId : Nat} {r : Except Int EnvIdx} (hk : SchedInv k) (hf : FreeInv k)
    (hc : CurInv k) (h : k.envAlloc parentId = .ok (r, k')) :
    SchedInv k' ∧ FreeInv k' ∧ CurInv k' ∧
    ∀ e, r = .ok e → (k'.envs e).envStatus = .free ∧ e ∉ k'.envFreeList := by
  obtain ⟨hlist, hcur, hmsg, hfree⟩ := envAlloc_spec h
  have hst : ∀ x, (k'.envs x).envStatus = (k.envs x).envStatus :=
    fun x => congrArg Prod.fst (hmsg x)
  have hsub : ∀ x ∈ k'.envFreeList, x ∈ k.envFreeList := by
    intro x hx
    cases r with
    | error r => rwa [hfree] at hx
    | ok e => rw [hfree]; exact List.mem_cons_of_mem e hx
  have hnd : k'.envFreeList.Nodup := by
    have := hf.1
    cases r with
    | error r => rwa [← hfree] at this
    | ok e => rw [hfree] at this; exact (List.nodup_cons.mp this).2
  refine ⟨?_, ⟨hnd, fun x hx => by rw [hst]; exact hf.2 x (hsub x hx)⟩, ?_, ?_⟩
  · obtain ⟨l, hq, hl⟩ := hk
    exact ⟨l, by rw [hlist]; exact hq, fun x => by rw [hst]; exact hl x⟩
  · intro c hc'
    rw [hst]; exact hc c (hcur ▸ hc')
  · rintro e rfl
    have hnd' := hf.1
    rw [hfree] at hnd'
    refine ⟨?_, (List.nodup_cons.mp hnd').1⟩
    rw [hst]
    exact hf.2 e (by rw [hfree]; simp)

/-- Setting the status of an env that is neither free nor on the list. -/
theorem setStatus_freeInv (hf : FreeInv k) (he : e ∉ k.envFreeList) {v : Env} :
    FreeInv (k.setEnv e v) := by
  refine ⟨hf.1, fun x hx => ?_⟩
  have hne : x ≠ e := by rintro rfl; exact he hx
  simpa [setEnv_envs, hne] using hf.2 x hx

theorem not_mem_freeList (hf : FreeInv k) (he : (k.envs e).envStatus ≠ .free) : e ∉ k.envFreeList :=
  fun h => he (hf.2 e h)

theorem curInv_setEnv (hc : CurInv k) {v : Env} (hv : v.envStatus ≠ .free) :
    CurInv (k.setEnv e v) := by
  intro c hc'
  by_cases hce : c = e
  · subst hce; simpa [setEnv_envs] using hv
  · simpa [setEnv_envs, hce] using hc c hc'

theorem envid2env_not_free {cur : EnvIdx} {envid checkperm : Nat} (hc : CurInv k)
    (hcur : k.curenv = some cur) (h : k.envid2env cur envid checkperm = .ok e) :
    (k.envs e).envStatus ≠ .free := by
  unfold envid2env at h
  simp only at h
  split at h
  · obtain rfl := Except.ok.inj h
    exact hc cur hcur
  split at h
  · cases h
  rename_i hok
  split at h
  · cases h
  obtain rfl := Except.ok.inj h
  exact fun hfree => hok (.inl hfree)

end

end Kernel

end RiscvMos
