import RiscvMos.Env.Reach

/-!
Messages. A monitor watches a run: it notes for each env that it waits in
`sys_ipc_recv`, the sends that wake it, and what it finds in its message fields
when it runs again. In every run each wake is followed by one return that finds
the message of that wake.
-/

namespace RiscvMos.Kernel

inductive IpcEvent where
  /-- A send updated the env; `ok` if it returned 0. -/
  | woke (ok : Bool) (value sender : Nat)
  /-- A `sys_ipc_recv` of the env returned. -/
  | returned (value sender : Nat)
  deriving DecidableEq, Repr

structure Monitor where
  waiting : EnvIdx → Bool
  /-- Stopped by `sys_set_env_status` and not started again. -/
  stopped : EnvIdx → Bool
  log : EnvIdx → List IpcEvent

namespace Monitor

def init : Monitor :=
  { waiting := fun _ => false, stopped := fun _ => false, log := fun _ => [] }

/-- `e` has blocked in `sys_ipc_recv`. -/
def enter (m : Monitor) (e : EnvIdx) : Monitor :=
  { m with waiting := Function.update m.waiting e true }

def wake (m : Monitor) (e : EnvIdx) (ok : Bool) (value sender : Nat) : Monitor :=
  { m with
    stopped := Function.update m.stopped e false
    log := Function.update m.log e (m.log e ++ [.woke ok value sender]) }

/-- `sys_set_env_status` has set the status of `e`. -/
def set (m : Monitor) (e : EnvIdx) (st : EnvStatus) : Monitor :=
  { m with stopped := Function.update m.stopped e (decide (st ≠ .runnable)) }

/-- If the env that runs now waited in `sys_ipc_recv`, its call returns. -/
def finish (m : Monitor) (k : Kernel) : Monitor :=
  match k.curenv with
  | none => m
  | some e =>
    if m.waiting e = true then
      { m with
        waiting := Function.update m.waiting e false
        log := Function.update m.log e
          (m.log e ++ [.returned (k.envs e).envIpcValue (k.envs e).envIpcFrom]) }
    else m

end Monitor

/-- The env that a send updates, if it gets that far. -/
def sendTarget (k : Kernel) (c : EnvIdx) (envid srcva : Nat) : Option EnvIdx :=
  if srcva ≠ 0 ∧ isIllegalVa srcva then none
  else match k.envid2env c envid 0 with
  | .error _ => none
  | .ok e => if (k.envs e).envIpcRecving = true then some e else none

/-- The env that a `sys_set_env_status` changes, and its new status. -/
def statusTarget (k : Kernel) (envid status : Nat) : Option (EnvIdx × EnvStatus) :=
  match settableStatus status, k.curenv with
  | some st, some c =>
    match k.envid2env c envid (k.envs c).envId with
    | .error _ => none
    | .ok e => some (e, st)
  | _, _ => none

/-- What the monitor notes about a step from `k` that returned `r`. -/
def Monitor.note (m : Monitor) (k : Kernel) (r : Int) : Op → Monitor
  | .sysIpcRecv dstva =>
    match k.curenv with
    | some c => if dstva ≠ 0 ∧ isIllegalVa dstva then m else m.enter c
    | none => m
  | .sysIpcTrySend envid value srcva _ =>
    match k.curenv with
    | none => m
    | some c =>
      match k.sendTarget c envid srcva with
      | none => m
      | some e => m.wake e (r = 0) value (k.envs c).envId
  | .sysSetEnvStatus envid status =>
    match k.statusTarget envid status with
    | none => m
    | some (e, st) => m.set e st
  | _ => m

/-- `sys_set_env_status` is not used on an env that waits for a message, and
an env is destroyed by itself only. -/
def Op.IpcLegal (k : Kernel) : Op → Prop
  | sysSetEnvStatus envid _ => ∀ c e, k.curenv = some c →
      k.envid2env c envid (k.envs c).envId = .ok e → (k.envs e).envIpcRecving = false
  | sysEnvDestroy envid => ∀ c e, k.curenv = some c → k.envid2env c envid 1 = .ok e → e = c
  | _ => True

/-- Watched runs whose steps meet `P`. -/
inductive IpcRun (s : Pmap EnvIdx) (base : Nat) (P : Kernel → Op → Prop) :
    List Op → Kernel → Monitor → Prop where
  | init : IpcRun s base P [] (envInit s base) .init
  | step {k k' : Kernel} {m : Monitor} {op : Op} {ops : List Op} {r : Int}
      (hr : IpcRun s base P ops k m) (hl : op.IpcLegal k) (hp : P k op)
      (h : k.exec op = .ok (r, k')) : IpcRun s base P (ops ++ [op]) k' ((m.note k r op).finish k')

theorem IpcRun.imp {s : Pmap EnvIdx} {base : Nat} {P Q : Kernel → Op → Prop} {ops : List Op}
    {k : Kernel} {m : Monitor} (hPQ : ∀ k op, P k op → Q k op) (h : IpcRun s base P ops k m) :
    IpcRun s base Q ops k m := by
  induction h with
  | init => exact .init
  | step _ hl hp h ih => exact ih.step hl (hPQ _ _ hp) h

/-- The steps determine the state. -/
theorem IpcRun.unique {s : Pmap EnvIdx} {base : Nat} {P Q : Kernel → Op → Prop} {ops : List Op}
    {k k' : Kernel} {m m' : Monitor} (h : IpcRun s base P ops k m)
    (h' : IpcRun s base Q ops k' m') : k' = k ∧ m' = m := by
  induction h generalizing k' m' with
  | init =>
    generalize hops : ([] : List Op) = l at h'
    cases h' with
    | init => exact ⟨rfl, rfl⟩
    | step => simp at hops
  | @step k k₁ m op ops r _ _ _ h ih =>
    generalize hops : ops ++ [op] = l at h'
    cases h' with
    | init => simp at hops
    | step hr' _ _ h' =>
      obtain ⟨rfl, hop⟩ := List.append_inj' hops rfl
      obtain rfl := List.singleton_inj.mp hop
      obtain ⟨rfl, rfl⟩ := ih hr'
      obtain ⟨rfl, rfl⟩ := Prod.mk.inj (Except.ok.inj (h'.symm.trans h))
      exact ⟨rfl, rfl⟩

/-- Wakes, each with the return that finds its message. -/
def answered (l : List (Bool × Nat × Nat)) : List IpcEvent :=
  l.flatMap fun w => [.woke w.1 w.2.1 w.2.2, .returned w.2.1 w.2.2]

/-- The events of an env up to now: answered wakes, and at most one more that
is not answered yet. The last message is in the env's fields. -/
def LogInv (v : Env) (waiting : Bool) (log : List IpcEvent) : Prop :=
  (∃ l, log = answered l ∧ (waiting = true → v.envIpcRecving = true) ∧
    ∀ l' b x y, l = l' ++ [(b, x, y)] → v.envIpcValue = x ∧ v.envIpcFrom = y) ∨
  (∃ l b, log = answered l ++ [.woke b v.envIpcValue v.envIpcFrom] ∧ waiting = true ∧
    v.envIpcRecving = false)

/-- The messages and statuses of `k'` are those of `k`. -/
def SameMsg (k k' : Kernel) : Prop := ∀ x, (k'.envs x).msg = (k.envs x).msg

structure IpcInv (k : Kernel) (m : Monitor) : Prop where
  recving : ∀ e, (k.envs e).envIpcRecving = true →
    m.waiting e = true ∧ (k.envs e).envStatus = .notRunnable
  free : ∀ e, (k.envs e).envStatus = .free → m.waiting e = false
  log : ∀ e, LogInv (k.envs e) (m.waiting e) (m.log e)

/-- The running env is in user mode, not in `sys_ipc_recv`. -/
def InUser (k : Kernel) (m : Monitor) : Prop := ∀ c, k.curenv = some c → m.waiting c = false

section
variable {k k' : Kernel} {m : Monitor} {e : EnvIdx} {r : Int}

theorem LogInv.congr {v v' : Env} {w : Bool} {log : List IpcEvent} (h : LogInv v w log)
    (hmsg : v'.envIpcRecving = v.envIpcRecving ∧ v'.envIpcValue = v.envIpcValue ∧
      v'.envIpcFrom = v.envIpcFrom) : LogInv v' w log := by
  unfold LogInv
  rw [hmsg.1, hmsg.2.1, hmsg.2.2]
  exact h

theorem msg_fields {v v' : Env} (h : v'.msg = v.msg) : v'.envStatus = v.envStatus ∧
    v'.envIpcRecving = v.envIpcRecving ∧ v'.envIpcValue = v.envIpcValue ∧
    v'.envIpcFrom = v.envIpcFrom := by
  simpa [Env.msg] using h

theorem IpcInv.congr (h : IpcInv k m) (hmsg : SameMsg k k') : IpcInv k' m := by
  have hf := fun e => msg_fields (hmsg e)
  refine ⟨fun e he => ?_, fun e he => ?_, fun e => (h.log e).congr (hf e).2⟩
  · rw [(hf e).1]
    exact h.recving e (by rw [← (hf e).2.1]; exact he)
  · exact h.free e (by rw [← (hf e).1]; exact he)

/-- Changing the status of an env that does not wait. -/
theorem IpcInv.setEnv (h : IpcInv k m) {v : Env}
    (hmsg : v.envIpcRecving = (k.envs e).envIpcRecving ∧ v.envIpcValue = (k.envs e).envIpcValue ∧
      v.envIpcFrom = (k.envs e).envIpcFrom)
    (hrecv : (k.envs e).envIpcRecving = false)
    (hfree : v.envStatus = .free → m.waiting e = false) : IpcInv (k.setEnv e v) m := by
  refine ⟨fun x hx => ?_, fun x hx => ?_, fun x => ?_⟩ <;> by_cases hxe : x = e
  · subst hxe
    simp [setEnv_envs, hmsg.1, hrecv] at hx
  · simp only [setEnv_envs, Function.update_of_ne hxe] at hx ⊢
    exact h.recving x hx
  · subst hxe
    exact hfree (by simpa [setEnv_envs] using hx)
  · simp only [setEnv_envs, Function.update_of_ne hxe] at hx
    exact h.free x hx
  · subst hxe
    simp only [setEnv_envs, Function.update_self]
    exact (h.log x).congr hmsg
  · simp only [setEnv_envs, Function.update_of_ne hxe]
    exact h.log x

/-- A waiting env that runs again finds the message that woke it. -/
theorem finish_inv (h : IpcInv k m)
    (hcur : ∀ c, k.curenv = some c → m.waiting c = true → (k.envs c).envStatus = .runnable) :
    IpcInv k (m.finish k) ∧ InUser k (m.finish k) := by
  unfold Monitor.finish InUser
  cases hc : k.curenv with
  | none => exact ⟨h, by simp⟩
  | some c =>
    simp only
    by_cases hw : m.waiting c = true
    · have hrecv : (k.envs c).envIpcRecving = false := by
        by_contra hne
        have := (h.recving c (by simpa using hne)).2
        rw [hcur c hc hw] at this
        cases this
      rw [if_pos hw]
      refine ⟨⟨fun x hx => ?_, fun x hx => ?_, fun x => ?_⟩, ?_⟩
      · have hxc : x ≠ c := by rintro rfl; rw [hrecv] at hx; cases hx
        simpa [hxc] using h.recving x hx
      · by_cases hxc : x = c
        · simp [hxc]
        · simpa [hxc] using h.free x hx
      · by_cases hxc : x = c
        · subst hxc
          simp only [Function.update_self]
          rcases h.log x with ⟨l, -, hrec, -⟩ | ⟨l, b, hlog, -, -⟩
          · rw [hrec hw] at hrecv; cases hrecv
          · refine .inl ⟨l ++ [(b, (k.envs x).envIpcValue, (k.envs x).envIpcFrom)], ?_, by simp, ?_⟩
            · simp [hlog, answered]
            · intro l' b' v f hl
              have := List.append_inj_right' hl rfl
              simp at this
              exact this.2
        · simp only [Function.update_of_ne hxc]
          exact h.log x
      · intro c' hc'
        obtain rfl := Option.some.inj hc'
        simp
    · rw [if_neg hw]
      refine ⟨h, fun c' hc' => ?_⟩
      obtain rfl := Option.some.inj hc'
      simpa using hw

theorem schedRemove_ok {e : EnvIdx} (h : k.schedRemove e = .ok k') :
    ∃ q, k' = { k with envSchedList := q } := by
  unfold schedRemove at h
  split at h
  · cases h
  · exact ⟨_, (Except.ok.inj h).symm⟩

/-- `schedule` changes no message and runs a runnable env. -/
theorem schedule_msg {yield : Bool} (h : k.schedule yield = .ok k') :
    SameMsg k k' ∧ k'.envFreeList = k.envFreeList ∧
    ∃ e, k'.curenv = some e ∧ (k'.envs e).envStatus = .runnable := by
  unfold schedule at h
  simp only at h
  split at h
  · obtain ⟨hs, e, hc, hr⟩ := schedFirst_spec h
    exact ⟨hs.msg, hs.free, e, hc, by rw [hs.status]; exact hr⟩
  rename_i e hce
  split at h
  · obtain ⟨k₁, h₁, h⟩ := Except.bind_ok_iff.mp h
    obtain ⟨hs, e', hc, hr⟩ := schedFirst_spec h
    obtain ⟨k₂, h₂, h₁⟩ := Except.bind_ok_iff.mp h₁
    obtain ⟨q, rfl⟩ := schedRemove_ok h₂
    have hk₁ : k₁.envs = k.envs ∧ k₁.envFreeList = k.envFreeList := by
      obtain rfl := Except.ok.inj h₁
      split <;> exact ⟨rfl, rfl⟩
    exact ⟨fun x => by rw [hs.msg, hk₁.1], hs.free.trans hk₁.2, e', hc, by rw [hs.status]; exact hr⟩
  · obtain ⟨hs, hc, hr⟩ := envRun_spec h
    exact ⟨hs.msg, hs.free, e, hc, by rw [hs.status]; exact hr⟩

/-- A step that keeps the running env in user mode notes no return. -/
theorem finish_ipc (hi : IpcInv k' m) (hu : InUser k' m) :
    IpcInv k' (m.finish k') ∧ InUser k' (m.finish k') :=
  finish_inv hi fun c hc hw => by rw [hu c hc] at hw; cases hw

end

/-! ## What each step does to the messages -/

section
variable {k k' : Kernel} {r : Int}

/-- The env that blocks in `sys_ipc_recv`. -/
def blocked (v : Env) (dstva : Nat) : Env :=
  { v with envIpcRecving := true, envIpcDstva := dstva, envStatus := .notRunnable }

theorem sysIpcRecv_msg {dstva : Nat} (h : k.sysIpcRecv dstva = .ok (r, k')) :
    ((dstva ≠ 0 ∧ isIllegalVa dstva) ∧ k' = k) ∨
    (¬ (dstva ≠ 0 ∧ isIllegalVa dstva) ∧ ∃ c q, k.curenv = some c ∧
      schedule { k.setEnv c (blocked (k.envs c) dstva) with envSchedList := q } true = .ok k') := by
  rcases sysIpcRecv_ok h with refused | ⟨hill, c, k₁, hcur, h₁, h₂⟩
  · exact .inl refused
  obtain ⟨q, rfl⟩ := schedRemove_ok h₁
  exact .inr ⟨hill, c, q, hcur, h₂⟩

theorem sysIpcTrySend_msg {envid value srcva perm : Nat}
    (h : k.sysIpcTrySend envid value srcva perm = .ok (r, k')) :
    (k' = k ∧ (∀ c, k.curenv = some c → k.sendTarget c envid srcva = none) ∧ r < 0) ∨
    ∃ c e s, k.curenv = some c ∧ k.sendTarget c envid srcva = some e ∧
      k' = { k.ipcDeliver c e value perm with pmap := s } := by
  rcases sysIpcTrySend_ok h with ⟨rfl, hill, rfl⟩ | ⟨hill, c, hcur, answer⟩
  · exact .inl ⟨rfl, fun c _ => by rw [sendTarget, if_pos hill], by decide⟩
  have hc : ∀ c', k.curenv = some c' → c' = c := fun c' hc' =>
    Option.some.inj (hc'.symm.trans hcur)
  rcases answer with ⟨rfl, he⟩ | ⟨e, he, ⟨rfl, hrecv, rfl⟩ | ⟨hrecv, s, rfl⟩⟩
  · refine .inl ⟨rfl, fun c' hc' => ?_, ?_⟩
    · rw [hc c' hc', sendTarget, if_neg hill, he]
    · unfold envid2env at he
      simp only at he
      split at he
      · cases he
      split at he
      · rw [← Except.error.inj he]; decide
      split at he
      · rw [← Except.error.inj he]; decide
      · cases he
  · refine .inl ⟨rfl, fun c' hc' => ?_, by decide⟩
    rw [hc c' hc', sendTarget, if_neg hill, he]
    simp [hrecv]
  · have htarget : k.sendTarget c envid srcva = some e := by
      rw [sendTarget, if_neg hill, he]
      simpa using hrecv
    exact .inr ⟨c, e, s, hcur, htarget, rfl⟩

theorem SameMsg.status (h : SameMsg k k') (e : EnvIdx) :
    (k'.envs e).envStatus = (k.envs e).envStatus := (msg_fields (h e)).1

/-- The env table apart from the list: no part of it depends on the list. -/
structure TableInv (k : Kernel) : Prop where
  free : FreeInv k
  cur : CurInv k

theorem TableInv.schedule {yield : Bool} (hf : FreeInv k) (h : k.schedule yield = .ok k') :
    TableInv k' := by
  obtain ⟨hmsg, hfree, e, hc, hr⟩ := schedule_msg h
  refine ⟨⟨by rw [hfree]; exact hf.1, fun x hx => ?_⟩, fun c hc' => ?_⟩
  · rw [hmsg.status, hf.2 x (by rwa [hfree] at hx)]
  · obtain rfl := Option.some.inj (hc.symm.trans hc')
    rw [hr]; simp

/-- Giving an env that is not on the free list a status that is not free. -/
theorem TableInv.setStatus {e : EnvIdx} {st : EnvStatus} (ht : TableInv k) (hst : st ≠ .free)
    (hmsg : SameMsg (k.setStatus e st) k') (hcur : k'.curenv = k.curenv)
    (hsub : k'.envFreeList.Sublist k.envFreeList) (he : e ∉ k'.envFreeList) : TableInv k' := by
  refine ⟨⟨ht.free.1.sublist hsub, fun x hx => ?_⟩, fun c hc => ?_⟩
  · have hxe : x ≠ e := by rintro rfl; exact he hx
    rw [hmsg.status]
    simpa [Kernel.setStatus, setEnv, hxe] using ht.free.2 x (hsub.subset hx)
  · rw [hmsg.status]
    by_cases hce : c = e
    · subst hce; simpa [Kernel.setStatus, setEnv] using hst
    · simpa [Kernel.setStatus, setEnv, hce] using ht.cur c (hcur ▸ hc)

/-! ## Every step keeps the messages in order -/

structure IpcState (k : Kernel) (m : Monitor) : Prop where
  table : TableInv k
  ipc : IpcInv k m
  user : InUser k m

variable {m : Monitor}

theorem IpcState.finish (ht : TableInv k') (h : IpcInv k' m ∧ InUser k' m) :
    IpcState k' (m.finish k') := by
  obtain ⟨hi, hu⟩ := finish_ipc h.1 h.2
  exact ⟨ht, hi, hu⟩

/-- An env that does not wait for a message gets another status. -/
theorem IpcState.setStatus {e : EnvIdx} {st : EnvStatus} (h : IpcState k m) (hst : st ≠ .free)
    (hrecv : (k.envs e).envIpcRecving = false) (hmsg : SameMsg (k.setStatus e st) k')
    (hcur : k'.curenv = k.curenv) (hsub : k'.envFreeList.Sublist k.envFreeList)
    (he : e ∉ k'.envFreeList) : IpcState k' (m.finish k') := by
  refine .finish (h.table.setStatus hst hmsg hcur hsub he) ⟨?_, fun c hc => h.user c (hcur ▸ hc)⟩
  exact (h.ipc.setEnv (v := { k.envs e with envStatus := st }) ⟨rfl, rfl, rfl⟩ hrecv
    fun hf => absurd hf hst).congr hmsg

/-- The status that `sys_set_env_status` noted is no part of the messages. -/
theorem IpcState.set {e : EnvIdx} {st : EnvStatus} (h : IpcState k m) : IpcState k (m.set e st) :=
  ⟨h.table, ⟨h.ipc.recving, h.ipc.free, h.ipc.log⟩, h.user⟩

end

end RiscvMos.Kernel
