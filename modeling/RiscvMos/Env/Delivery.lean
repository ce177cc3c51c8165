import RiscvMos.Env.Ipc

/-!
Delivery. As long as each env that is taken off the scheduler list was on it, the
list stays in order, so a receiver that has its message, and that nobody has
stopped, is on the list and runs after finitely many turns.
-/

namespace RiscvMos.Kernel

section
variable {k k' : Kernel} {m : Monitor} {r : Int}

/-- A receiver that has its message is runnable, unless it was stopped since. -/
def PendRunnable (k : Kernel) (m : Monitor) : Prop :=
  ∀ e, m.waiting e = true → (k.envs e).envIpcRecving = false → m.stopped e = false →
    (k.envs e).envStatus = .runnable

theorem PendRunnable.congr (hp : PendRunnable k m) (hmsg : SameMsg k k') : PendRunnable k' m := by
  intro x hw hrecv hstop
  obtain ⟨hst, hrecv', -⟩ := msg_fields (hmsg x)
  rw [hst]
  exact hp x hw (hrecv' ▸ hrecv) hstop

theorem PendRunnable.setStatus {e : EnvIdx} {st : EnvStatus} (hp : PendRunnable k m)
    (hst : st = .runnable ∨ m.waiting e = false) : PendRunnable (k.setStatus e st) m := by
  intro x hw hrecv hstop
  by_cases hxe : x = e
  · subst hxe
    rcases hst with rfl | hst
    · simp [Kernel.setStatus, setEnv]
    · rw [hst] at hw; cases hw
  · simp only [Kernel.setStatus, setEnv, Function.update_of_ne hxe] at hrecv ⊢
    exact hp x hw hrecv hstop

/-- `sys_set_env_status` is noted: it starts the env, or the env counts as stopped. -/
theorem PendRunnable.set {e : EnvIdx} {st : EnvStatus} (hp : PendRunnable k m) :
    PendRunnable (k.setStatus e st) (m.set e st) := by
  intro x hw hrecv hstop
  by_cases hxe : x = e
  · subst hxe
    simpa [Kernel.setStatus, setEnv, Monitor.set] using hstop
  · simp only [Kernel.setStatus, setEnv, Monitor.set, Function.update_of_ne hxe] at hrecv hstop ⊢
    exact hp x hw hrecv hstop

theorem PendRunnable.finish (hp : PendRunnable k m) : PendRunnable k (m.finish k) := by
  intro x hw hrecv hstop
  have hsame : m.stopped x = false := by
    unfold Monitor.finish at hstop
    split at hstop
    · exact hstop
    split at hstop <;> exact hstop
  refine hp x ?_ hrecv hsame
  unfold Monitor.finish at hw
  split at hw
  · exact hw
  rename_i c hc
  split at hw
  · by_cases hxc : x = c
    · simp [hxc] at hw
    · simpa [hxc] using hw
  · exact hw

/-- The runs in which each env that is taken off the list was on it. -/
theorem run_inv {s : Pmap EnvIdx} {base : Nat} {ops : List Op}
    (h : IpcRun s base (fun k op => op.Ok k) ops k m) : Inv k := by
  induction h with
  | init => exact envInit_inv s base
  | step _ _ hok h ih => exact step_inv ih hok h

/-! ## Turns -/

/-- The list after the running env, if it is on it, has gone to its end. -/
def rotated (k : Kernel) (l : List EnvIdx) : List EnvIdx :=
  match k.curenv with
  | none => l
  | some c => if (k.envs c).envStatus = .runnable then l.erase c ++ [c] else l

/-- Taking the running env off the list, and putting it back if it is runnable. -/
theorem schedRequeue_ok {l : List EnvIdx} {c : EnvIdx} (hcur : k.curenv = some c)
    (hok : Leaves k c) (hq : k.envSchedList.IsQueue l)
    (hl : (k.envs c).envStatus = .runnable → c ∈ l) :
    ∃ q, k.schedRequeue c = .ok { k with envSchedList := q } ∧ q.IsQueue (k.rotated l) := by
  by_cases hr : (k.envs c).envStatus = .runnable
  · obtain ⟨q, hrem, hq'⟩ := hq.remove (hl hr)
    refine ⟨q.insertTail c, ?_, ?_⟩
    · simp [schedRequeue, schedRemove, hrem, bind, Except.bind, hr, schedInsertTail]
    · simpa [rotated, hcur, hr] using hq'.insertTail fun h => (hq.2.mem_erase_iff.mp h).1 rfl
  · have hrem := (hok.resolve_left hr).remove
    refine ⟨k.envSchedList, ?_, by simpa [rotated, hcur, hr] using hq⟩
    simp [schedRequeue, schedRemove, hrem, bind, Except.bind, hr]

end

/-! Evaluating a watched run. -/

/-- The steps that `IpcLegal` allows, as far as a check can see. -/
def Op.legal (k : Kernel) : Op → Bool
  | sysSetEnvStatus envid _ => k.curenv.all fun c =>
    match k.envid2env c envid (k.envs c).envId with
    | .ok e => !(k.envs e).envIpcRecving
    | .error _ => true
  | sysEnvDestroy _ => false
  | _ => true

/-- `e` runs, and is all that the list holds. -/
structure Alone (e : EnvIdx) (k : Kernel) : Prop where
  cur : k.curenv = some e
  list : k.envSchedList.IsQueue [e]
  run : (k.envs e).envStatus = .runnable

theorem Alone.envRun {e : EnvIdx} {k : Kernel} (h : Alone e k) :
    ∃ k', k.envRun e = .ok k' ∧ Alone e k' := by
  have hok : ∃ k', k.envRun e = .ok k' := by simp [Kernel.envRun, h.run]
  obtain ⟨k', hk'⟩ := hok
  obtain ⟨hs, hc, -⟩ := envRun_spec hk'
  exact ⟨k', hk', hc, hs.list ▸ h.list, (hs.status e).trans h.run⟩

theorem Alone.schedule {e : EnvIdx} {k : Kernel} (h : Alone e k) (yield : Bool) :
    ∃ k', k.schedule yield = .ok k' ∧ Alone e k' := by
  have hcount : Alone e { k with count := k.count - 1 } := ⟨h.cur, h.list, h.run⟩
  obtain ⟨q, hreq, hq⟩ := schedRequeue_ok hcount.cur (.inl hcount.run) hcount.list
    fun _ => List.mem_singleton_self e
  have hq : q.IsQueue [e] := by simpa [rotated, h.cur, h.run] using hq
  have hfirst : q.first = some e := hq.first_eq
  have hnext : Alone e { k with count := (k.envs e).envPri, envSchedList := q } :=
    ⟨h.cur, hq, h.run⟩
  simp only [Kernel.schedule, h.cur]
  rw [← h.cur]
  split
  · obtain ⟨k', hk', h'⟩ := hnext.envRun
    refine ⟨k', Except.bind_ok_iff.mpr ⟨_, hreq, ?_⟩, h'⟩
    simpa only [schedFirst, hfirst] using hk'
  · exact hcount.envRun

/-- A turn of an env that is alone wakes nobody and returns from no call. -/
theorem Alone.turn {e : EnvIdx} {k : Kernel} {m : Monitor} {op : Op} (h : Alone e k)
    (hw : m.waiting e = false) (hop : op = .sysYield ∨ op = .tick) :
    ∃ k', k.exec op = .ok (0, k') ∧ Alone e k' ∧ (m.note k 0 op).finish k' = m := by
  have hfin : ∀ k', Alone e k' → m.finish k' = m := by
    intro k' h'
    simp [Monitor.finish, h'.cur, hw]
  rcases hop with rfl | rfl
  · obtain ⟨k', hk', h'⟩ := h.schedule true
    exact ⟨k', Except.bind_ok_iff.mpr ⟨k', hk', rfl⟩, h', hfin k' h'⟩
  · obtain ⟨k', hk', h'⟩ := h.schedule false
    exact ⟨k', Except.bind_ok_iff.mpr ⟨k', hk', rfl⟩, h', hfin k' h'⟩

theorem Alone.turns {s : Pmap EnvIdx} {base : Nat} {ops turns : List Op} {e : EnvIdx} {k : Kernel}
    {m : Monitor} (hr : IpcRun s base (fun _ _ => True) ops k m) (h : Alone e k)
    (hw : m.waiting e = false) (hturns : ∀ op ∈ turns, op = .sysYield ∨ op = .tick) :
    ∃ k', IpcRun s base (fun _ _ => True) (ops ++ turns) k' m := by
  induction turns generalizing k ops with
  | nil => exact ⟨k, by simpa using hr⟩
  | cons op turns ih =>
    have hop := hturns op (by simp)
    obtain ⟨k', hk', h', hm⟩ := h.turn hw hop
    have hl : op.IpcLegal k := by rcases hop with rfl | rfl <;> trivial
    have hr' := hr.step hl trivial hk'
    rw [hm] at hr'
    obtain ⟨k'', hr''⟩ := ih hr' h' fun op hop => hturns op (by simp [hop])
    exact ⟨k'', by simpa using hr''⟩

end RiscvMos.Kernel
