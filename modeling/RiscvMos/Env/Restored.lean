import RiscvMos.Env.Trap
import RiscvMos.Pmap.Run

/-!
The frames that go back to user mode. `env_run` fixes the trap vector of the
frame it restores and leaves its mode; the way back from a call fixes neither.
Both are right as long as `sys_set_trapframe` is given frames that are, and as
long as user code and `sys_read_sector` do not write the pages where the kernel
keeps its frames.
-/

namespace RiscvMos

/-- `SSTATUS_SPP` is clear. -/
def Trapframe.UserMode (tf : Trapframe) : Prop := tf sstatus &&& sstatusSpp = 0

/-- Restored to user mode, with the kernel's own trap vector. -/
def Trapframe.ToUser (tf : Trapframe) : Prop := tf.UserMode ∧ tf stvec = excGenEntry

instance (tf : Trapframe) : Decidable tf.UserMode := inferInstanceAs (Decidable (_ = _))

instance (tf : Trapframe) : Decidable tf.ToUser := inferInstanceAs (Decidable (_ ∧ _))

namespace Machine

inductive Event where
  /-- `env_create`, before the first env runs. -/
  | create (load : Pmap EnvIdx → EnvIdx → Except Halt (Pmap EnvIdx)) (entry priority : Nat)
  /-- The first timer interrupt, with no `curenv`. -/
  | start
  | syscall (dev : Devices) (tf : Trapframe)
  | timer (tf : Trapframe)
  /-- A fetch, load or store of user code. -/
  | access (cause : Fault) (va w : Nat) (tf : Trapframe)

def exec (m : Machine) : Event → Except Halt Machine
  | .create load entry priority => m.create load entry priority
  | .start => m.schedule false
  | .syscall dev tf => { m with kstack := tf }.doSyscall dev
  | .timer tf => { m with kstack := tf }.schedule false
  | .access cause va w tf => m.access cause va w tf

/-- A trap saves `tf`. In user mode it finds `SSTATUS_SPP` clear, and the trap
vector as it was restored; code that runs in supervisor mode can change both. -/
def Saves (m : Machine) (tf : Trapframe) : Prop :=
  ∃ r, m.restored = some r ∧ (r.UserMode → tf.UserMode ∧ tf Trapframe.stvec = r Trapframe.stvec)

/-- What can happen next. -/
def Event.Happens (m : Machine) : Event → Prop
  | .create .. => m.restored = none
  | .start => m.restored = none ∧ m.kernel.curenv = none
  | .syscall _ tf | .timer tf | .access _ _ _ tf => m.Saves tf

/-- The pages written at an address that user code chose. -/
def Event.Writes (m : Machine) : Event → Nat → Prop
  | .syscall dev tf, p => ∃ c, m.kernel.curenv = some c ∧ sysno tf = 18 ∧
    ∃ t ∈ (m.kernel.sysReadSector c dev.disk (tf 11) (tf 12)).touched, t.pa / 4096 = p
  | .access cause va _ tf, p => ∃ c, m.kernel.curenv = some c ∧
    match m.kernel.pmap.translate c cause va with
    | some q => cause = .store ∧ p = q
    | none =>
      ∃ s, m.kernel.pmap.handleFault c cause va tf = .ok (true, s) ∧ p = s.getPa c uxframe >>> 12
  | _, _ => False

/-- One event. The pages of `F` are those of the kernel stack and of `envs`; one
that is written by user code may leave any frames there. -/
inductive Step (F : Nat → Prop) (m : Machine) (ev : Event) (m' : Machine) : Prop where
  | clean (ran : m.exec ev = .ok m') (apart : ∀ p, F p → ¬ ev.Writes m p)
  | smash {m₁ : Machine} (p : Nat) (ran : m.exec ev = .ok m₁) (hit : F p) (writes : ev.Writes m p)

/-- The state after boot: `envs` is zeroed, and the stack is not. -/
def init (s : Pmap EnvIdx) (base : Nat) (kstack : Trapframe) : Machine :=
  { kernel := .envInit s base, kstack := kstack, envTf := fun _ _ => 0, restored := none }

/-- The runs whose events all meet `ok`. -/
inductive Run (F : Nat → Prop) (ok : Machine → Event → Prop) (s : Pmap EnvIdx) (base : Nat) :
    List Event → Machine → Prop where
  | init (kstack : Trapframe) : Run F ok s base [] (.init s base kstack)
  | step {m m' : Machine} {ev : Event} {evs : List Event} (run : Run F ok s base evs m)
      (happens : ev.Happens m) (met : ok m ev) (step : Step F m ev m') :
        Run F ok s base (evs ++ [ev]) m'

/-- The frame passed to `sys_set_trapframe` returns to user mode; one for the
caller itself, which `env_run` does not fix, has the trap vector as well. -/
def SetsUser (m : Machine) (envid tf : Nat) : Prop :=
  ∀ c e pa, m.kernel.curenv = some c → m.kernel.setTrapframe c envid tf = .ok (e, pa) →
    (Kernel.trapframeAt m.kernel.pmap pa).UserMode ∧
      (e = c → (Kernel.trapframeAt m.kernel.pmap pa).ToUser)

/-- Frames from the user are fit to restore, and the kernel's are not written. -/
def Honest (F : Nat → Prop) (m : Machine) (ev : Event) : Prop :=
  (∀ p, F p → ¬ ev.Writes m p) ∧
  match ev with
  | .syscall _ tf => sysno tf = 11 → m.SetsUser (tf 11) (tf 12)
  | _ => True

/-- Every frame that is kept for an env returns to user mode. -/
structure FramesUser (m : Machine) : Prop where
  saved : ∀ e, (m.envTf e).UserMode
  restored : ∀ r, m.restored = some r → r.ToUser

end Machine

namespace Trapframe

section
variable {tf : Trapframe}

theorem UserMode.set {i : Fin 40} (w : Nat) (h : tf.UserMode) (hi : sstatus ≠ i) :
    (tf.set i w).UserMode := by
  unfold UserMode
  rw [set_other tf w hi]
  exact h

theorem ToUser.set {i : Fin 40} (w : Nat) (h : tf.ToUser) (hs : sstatus ≠ i) (hv : stvec ≠ i) :
    (tf.set i w).ToUser := by
  constructor
  · exact h.1.set w hs
  · rw [set_other tf w hv]
    exact h.2

/-- `SSTATUS_SPIE` is another bit. -/
theorem UserMode.enter (h : tf.UserMode) : tf.enter.ToUser := by
  unfold Trapframe.enter
  constructor
  · unfold UserMode at h ⊢
    rw [set_same, set_other _ _ (by decide), set_other _ _ (by decide), Nat.and_or_distrib_right, h]
    decide
  · rw [set_other _ _ (by decide), set_other _ _ (by decide), set_same]

theorem create_userMode (tf : Trapframe) (entry : Nat) : (tf.create entry).UserMode := by
  unfold Trapframe.create UserMode
  rw [set_other _ _ (by decide), set_other _ _ (by decide), set_same]
  decide

end

end Trapframe

namespace Machine

open Pmap

section
variable {F : Nat → Prop} {m m' : Machine} {e : EnvIdx} {tf : Trapframe} {o : Option Int}

/-- Only the frames matter. -/
theorem FramesUser.congr (h : FramesUser m) (htf : m'.envTf = m.envTf)
    (hr : m'.restored = m.restored) :
    FramesUser m' := by
  constructor
  · rw [htf]
    exact h.saved
  · rw [hr]
    exact h.restored

theorem FramesUser.setTf (h : FramesUser m) (htf : tf.UserMode) : FramesUser (m.setTf e tf) := by
  constructor
  · intro x
    by_cases hx : x = e
    · subst hx
      simpa [Machine.setTf] using htf
    · simpa [Machine.setTf, hx] using h.saved x
  · exact h.restored

theorem FramesUser.ret (h : FramesUser m) (hk : m.kstack.ToUser) : FramesUser m.ret := by
  constructor
  · exact h.saved
  · intro r hr
    rw [← Option.some.inj hr]
    exact hk

theorem FramesUser.save (h : FramesUser m) {cur : Option EnvIdx}
    (hk : cur ≠ none → m.kstack.UserMode) :
    FramesUser (m.save cur) := by
  unfold Machine.save
  cases cur with
  | none => exact h
  | some c => exact h.setTf (hk (by simp))

theorem FramesUser.enter (h : FramesUser m) : FramesUser (m.enter e) := by
  have hset : FramesUser (m.setTf e (m.envTf e).enter) := h.setTf (h.saved e).enter.1
  constructor
  · exact hset.saved
  · intro r hr
    rw [← Option.some.inj hr]
    exact (h.saved e).enter

/-- `env_run` restores a frame for user mode, if it saves one. -/
theorem FramesUser.switch (h : FramesUser m) {cur : Option EnvIdx} {k : Kernel}
    (hk : cur ≠ none → m.kstack.UserMode) : FramesUser (m.switch cur k) := by
  unfold Machine.switch
  cases k.curenv with
  | none => exact h.congr rfl rfl
  | some e => exact ((h.save hk).enter (e := e)).congr rfl rfl

theorem FramesUser.schedule {yield : Bool} (h : FramesUser m)
    (hk : m.kernel.curenv ≠ none → m.kstack.UserMode) (hm : m.schedule yield = .ok m') :
    FramesUser m' := by
  obtain ⟨k, -, hm⟩ := Except.bind_ok_iff.mp hm
  rw [← Except.ok.inj hm]
  exact h.switch hk

/-! What a call that returns has done to the kernel and the frames. -/

theorem plain_ok {x : Except Halt (Int × Kernel)} (hm : m.plain x = .ok (o, m')) :
    ∃ r k, x = .ok (r, k) ∧ o = some r ∧ m' = { m with kernel := k } := by
  obtain ⟨⟨r, k⟩, hx, hm⟩ := Except.bind_ok_iff.mp hm
  obtain ⟨rfl, rfl⟩ := Prod.mk.inj (Except.ok.inj hm)
  exact ⟨r, k, hx, rfl, rfl⟩

theorem onUser_ok {f : EnvIdx → Ran} (hm : m.onUser f = .ok (o, m')) :
    ∃ c, m.plain (f c).result = .ok (o, m') := by
  unfold onUser at hm
  split at hm
  · cases hm
  · exact ⟨_, hm⟩

theorem sysEnvDestroy_ok {envid : Nat} (hm : m.sysEnvDestroy envid = .ok (o, m')) :
    ∃ r k, m.kernel.sysEnvDestroy envid = .ok (r, k) ∧
      (o = none ∧ m' = m.switch none k ∨ o = some r ∧ m' = { m with kernel := k }) := by
  unfold sysEnvDestroy at hm
  split at hm
  · cases hm
  obtain ⟨⟨r, k⟩, hk, hm⟩ := Except.bind_ok_iff.mp hm
  refine ⟨r, k, hk, ?_⟩
  dsimp only at hm
  split at hm
  · obtain ⟨rfl, rfl⟩ := Prod.mk.inj (Except.ok.inj hm)
    exact .inl ⟨rfl, rfl⟩
  · obtain ⟨rfl, rfl⟩ := Prod.mk.inj (Except.ok.inj hm)
    exact .inr ⟨rfl, rfl⟩

theorem sysExofork_ok (hm : m.sysExofork = .ok (o, m')) :
    ∃ r k, m.kernel.sysExofork = .ok (r, k) ∧ o = some r ∧
      (m' = { m with kernel := k } ∨
        ∃ e, m' = { m.setTf e (m.kstack.set 10 0) with kernel := k }) := by
  unfold sysExofork at hm
  split at hm
  · cases hm
  obtain ⟨⟨r, k⟩, hk, hm⟩ := Except.bind_ok_iff.mp hm
  obtain ⟨⟨a, k₁⟩, -, hm⟩ := Except.bind_ok_iff.mp hm
  refine ⟨r, k, hk, ?_⟩
  dsimp only at hm
  split at hm
  · obtain ⟨rfl, rfl⟩ := Prod.mk.inj (Except.ok.inj hm)
    exact ⟨rfl, .inl rfl⟩
  · obtain ⟨rfl, rfl⟩ := Prod.mk.inj (Except.ok.inj hm)
    exact ⟨rfl, .inr ⟨_, rfl⟩⟩

theorem sysIpcRecv_ok {dstva : Nat} (hm : m.sysIpcRecv dstva = .ok (o, m')) :
    ∃ r k, m.kernel.sysIpcRecv dstva = .ok (r, k) ∧
      (o = some r ∧ m' = { m with kernel := k } ∨
        o = none ∧ m' = ({ m with kstack := m.kstack.set 10 0 } : Machine).switch
        m.kernel.curenv k) := by
  obtain ⟨⟨r, k⟩, hk, hm⟩ := Except.bind_ok_iff.mp hm
  refine ⟨r, k, hk, ?_⟩
  dsimp only at hm
  split at hm
  · obtain ⟨rfl, rfl⟩ := Prod.mk.inj (Except.ok.inj hm)
    exact .inl ⟨rfl, rfl⟩
  · obtain ⟨rfl, rfl⟩ := Prod.mk.inj (Except.ok.inj hm)
    exact .inr ⟨rfl, rfl⟩

/-- It refuses, or sets the frame of the caller, or that of another env. -/
theorem sysSetTrapframe_ok {envid tf : Nat} (hm : m.sysSetTrapframe envid tf = .ok (o, m')) :
    m' = m ∨ ∃ c e pa, m.kernel.curenv = some c ∧ m.kernel.setTrapframe c envid tf = .ok (e, pa) ∧
      (inRam (pa >>> 12) ∧ inRam ((pa + 319) >>> 12)) ∧
      (e = c ∧ m' = { m with kstack := Kernel.trapframeAt m.kernel.pmap pa } ∨
        m' = m.setTf e (Kernel.trapframeAt m.kernel.pmap pa)) := by
  unfold sysSetTrapframe at hm
  split at hm
  · cases hm
  rename_i c hc
  split at hm
  · obtain ⟨-, rfl⟩ := Prod.mk.inj (Except.ok.inj hm)
    exact .inl rfl
  rename_i e pa hpa
  split at hm
  · rename_i ram
    refine .inr ⟨c, e, pa, hc, hpa, ram, ?_⟩
    dsimp only at hm
    split at hm
    · rename_i own
      obtain ⟨-, rfl⟩ := Prod.mk.inj (Except.ok.inj hm)
      exact .inl ⟨own, rfl⟩
    · obtain ⟨-, rfl⟩ := Prod.mk.inj (Except.ok.inj hm)
      exact .inr rfl
  · cases hm

/-- The frames after a call: those of the envs, and the one to return with. -/
def Kept (o : Option Int) (m : Machine) : Prop := FramesUser m ∧ (o ≠ none → m.kstack.ToUser)

theorem plain_kept (h : FramesUser m) (hk : m.kstack.ToUser) {x : Except Halt (Int × Kernel)}
    (hm : m.plain x = .ok (o, m')) : Kept o m' := by
  obtain ⟨r, k, -, rfl, rfl⟩ := plain_ok hm
  exact ⟨h.congr rfl rfl, fun _ => hk⟩

theorem onUser_kept (h : FramesUser m) (hk : m.kstack.ToUser) {f : EnvIdx → Ran}
    (hm : m.onUser f = .ok (o, m')) : Kept o m' := by
  obtain ⟨c, hm⟩ := onUser_ok hm
  exact plain_kept h hk hm

theorem sysEnvDestroy_kept (h : FramesUser m) (hk : m.kstack.ToUser) {envid : Nat}
    (hm : m.sysEnvDestroy envid = .ok (o, m')) : Kept o m' := by
  obtain ⟨r, k, -, ⟨rfl, rfl⟩ | ⟨rfl, rfl⟩⟩ := sysEnvDestroy_ok hm
  · exact ⟨h.switch fun hn => absurd rfl hn, fun hn => absurd rfl hn⟩
  · exact ⟨h.congr rfl rfl, fun _ => hk⟩

/-- The child starts with the frame of its parent. -/
theorem sysExofork_kept (h : FramesUser m) (hk : m.kstack.ToUser)
    (hm : m.sysExofork = .ok (o, m')) :
    Kept o m' := by
  obtain ⟨r, k, -, rfl, rfl | ⟨e, rfl⟩⟩ := sysExofork_ok hm
  · exact ⟨h.congr rfl rfl, fun _ => hk⟩
  · exact ⟨(h.setTf (hk.1.set 0 (by decide))).congr rfl rfl, fun _ => hk⟩

theorem sysIpcRecv_kept (h : FramesUser m) (hk : m.kstack.ToUser) {dstva : Nat}
    (hm : m.sysIpcRecv dstva = .ok (o, m')) : Kept o m' := by
  obtain ⟨r, k, -, ⟨rfl, rfl⟩ | ⟨rfl, rfl⟩⟩ := sysIpcRecv_ok hm
  · exact ⟨h.congr rfl rfl, fun _ => hk⟩
  · have hzero : FramesUser { m with kstack := m.kstack.set 10 0 } := h.congr rfl rfl
    exact ⟨hzero.switch fun _ => hk.1.set 0 (by decide), fun hn => absurd rfl hn⟩

theorem sysSetTrapframe_kept (h : FramesUser m) (hk : m.kstack.ToUser) {envid tf : Nat}
    (hset : m.SetsUser envid tf) (hm : m.sysSetTrapframe envid tf = .ok (o, m')) : Kept o m' := by
  rcases sysSetTrapframe_ok hm with rfl | ⟨c, e, pa, hc, hpa, -, ⟨hec, rfl⟩ | rfl⟩
  · exact ⟨h, fun _ => hk⟩
  · exact ⟨h.congr rfl rfl, fun _ => (hset c e pa hc hpa).2 hec⟩
  · exact ⟨h.setTf (hset c e pa hc hpa).1, fun _ => hk⟩

/-- One row of `syscall_table` after the other. -/
theorem call_kept (h : FramesUser m) (hk : m.kstack.ToUser) {dev : Devices}
    {sysno arg1 arg2 arg3 arg4 arg5 : Nat} (hset : sysno = 11 → m.SetsUser arg1 arg2)
    (hm : m.call dev sysno arg1 arg2 arg3 arg4 arg5 = .ok (o, m')) : Kept o m' := by
  have hdone : ∀ r, (.ok (some r, m) : Except Halt Outcome) = .ok (o, m') → Kept o m' := by
    intro r hr
    obtain ⟨-, rfl⟩ := Prod.mk.inj (Except.ok.inj hr)
    exact ⟨h, fun _ => hk⟩
  unfold call at hm
  dsimp only at hm
  split at hm
  · exact hdone _ hm
  · exact onUser_kept h hk hm
  · exact plain_kept h hk hm
  · obtain ⟨m₁, hs, hm⟩ := Except.bind_ok_iff.mp hm
    obtain ⟨rfl, rfl⟩ := Prod.mk.inj (Except.ok.inj hm)
    exact ⟨h.schedule (fun _ => hk.1) hs, fun hn => absurd rfl hn⟩
  · exact sysEnvDestroy_kept h hk hm
  · exact plain_kept h hk hm
  · exact plain_kept h hk hm
  · exact plain_kept h hk hm
  · exact plain_kept h hk hm
  · exact sysExofork_kept h hk hm
  · exact plain_kept h hk hm
  · exact sysSetTrapframe_kept h hk (hset rfl) hm
  · exact onUser_kept h hk hm
  · exact plain_kept h hk hm
  · exact sysIpcRecv_kept h hk hm
  · exact hdone _ hm
  · exact hdone _ hm
  · exact hdone _ hm
  · exact onUser_kept h hk hm
  · exact onUser_kept h hk hm
  · split at hm
    · exact hdone _ hm
    · cases hm
  · cases hm

theorem FramesUser.doSyscall (h : FramesUser m) (hk : m.kstack.ToUser) {dev : Devices}
    (hset : sysno m.kstack = 11 → m.SetsUser (m.kstack 11) (m.kstack 12))
    (hm : m.doSyscall dev = .ok m') : FramesUser m' := by
  unfold Machine.doSyscall at hm
  dsimp only at hm
  split at hm
  · rw [← Except.ok.inj hm]
    apply FramesUser.ret
    · exact h.congr rfl rfl
    · exact hk.set _ (by decide) (by decide)
  · rename_i hno
    obtain ⟨⟨o, m₁⟩, hcall, hm⟩ := Except.bind_ok_iff.mp hm
    have hset' : (sysno m.kstack).toNat = 11 → m.SetsUser (m.kstack 11) (m.kstack 12) := by
      intro h11
      apply hset
      omega
    have hnext : (m.kstack.set Trapframe.sepc (uLong (m.kstack Trapframe.sepc + 4))).ToUser :=
      hk.set _ (by decide) (by decide)
    have hsaved :
        FramesUser
        { m with kstack := m.kstack.set Trapframe.sepc (uLong (m.kstack Trapframe.sepc + 4)) } :=
      h.congr rfl rfl
    have hkept : Kept o m₁ := call_kept hsaved hnext hset' hcall
    obtain ⟨hframes, hret⟩ := hkept
    cases o with
    | none =>
      rw [← Except.ok.inj hm]
      exact hframes
    | some r =>
      rw [← Except.ok.inj hm]
      apply FramesUser.ret
      · exact hframes.congr rfl rfl
      · exact (hret (by simp)).set _ (by decide) (by decide)

theorem resume_toUser (h : tf.ToUser) (r : Resume) : (resume tf r).ToUser := by
  cases r with
  | retry => exact h
  | entry pc =>
    apply Trapframe.ToUser.set
    · apply Trapframe.ToUser.set
      · exact h.set pc (by decide) (by decide)
      · decide
      · decide
    · decide
    · decide

theorem FramesUser.access (h : FramesUser m) (htf : tf.ToUser) {cause : Fault} {va w : Nat}
    (hm : m.access cause va w tf = .ok m') : FramesUser m' := by
  unfold Machine.access at hm
  split at hm
  · cases hm
  split at hm
  · obtain ⟨k, -, hm⟩ := Except.bind_ok_iff.mp hm
    rw [← Except.ok.inj hm]
    exact h.congr rfl rfl
  · obtain ⟨⟨r, k⟩, -, hm⟩ := Except.bind_ok_iff.mp hm
    rw [← Except.ok.inj hm]
    apply FramesUser.ret
    · exact h.congr rfl rfl
    · exact resume_toUser htf r

theorem FramesUser.create (h : FramesUser m)
    {load : Pmap EnvIdx → EnvIdx → Except Halt (Pmap EnvIdx)}
    {entry priority : Nat} (hm : m.create load entry priority = .ok m') : FramesUser m' := by
  obtain ⟨⟨a, k₁⟩, -, hm⟩ := Except.bind_ok_iff.mp hm
  dsimp only at hm
  split at hm
  · cases hm
  · obtain ⟨k, -, hm⟩ := Except.bind_ok_iff.mp hm
    rw [← Except.ok.inj hm]
    exact (h.setTf (Trapframe.create_userMode _ entry)).congr rfl rfl

theorem FramesUser.saves (h : FramesUser m) (hs : m.Saves tf) : tf.ToUser := by
  obtain ⟨r, hr, hsave⟩ := hs
  obtain ⟨hmode, hvec⟩ := h.restored r hr
  obtain ⟨hmode', hvec'⟩ := hsave hmode
  exact ⟨hmode', hvec'.trans hvec⟩

theorem FramesUser.exec (h : FramesUser m) {ev : Event} (happens : ev.Happens m)
    (hev : Honest F m ev) (hm : m.exec ev = .ok m') : FramesUser m' := by
  cases ev with
  | create load entry priority => exact h.create hm
  | start => exact h.schedule (fun hn => absurd happens.2 hn) hm
  | syscall dev tf =>
    have htf := h.saves happens
    have hframes : FramesUser { m with kstack := tf } := h.congr rfl rfl
    exact hframes.doSyscall htf hev.2 hm
  | timer tf =>
    have htf := h.saves happens
    have hframes : FramesUser { m with kstack := tf } := h.congr rfl rfl
    exact hframes.schedule (fun _ => htf.1) hm
  | access cause va w tf => exact h.access (h.saves happens) hm

theorem init_framesUser (s : Pmap EnvIdx) (base : Nat) (kstack : Trapframe) :
    FramesUser (.init s base kstack) := by
  constructor
  · intro e
    show (0 : Nat) &&& sstatusSpp = 0
    decide
  · intro r hr
    cases hr

theorem Run.framesUser {s : Pmap EnvIdx} {base : Nat} {evs : List Event}
    (h : Run F (Honest F) s base evs m) :
    FramesUser m := by
  induction h with
  | init kstack => exact init_framesUser s base kstack
  | step run happens met step ih =>
    cases step with
    | clean ran _ => exact ih.exec happens met ran
    | smash p _ hit writes => exact absurd writes (met.1 p hit)

/-- In a run whose `sys_set_trapframe` calls pass frames for user mode, and which
leaves the kernel's frames alone, the kernel returns to user mode with its own
trap vector. -/
theorem returns_to_user_mode {s : Pmap EnvIdx} {base : Nat} {evs : List Event}
    (h : Run F (Honest F) s base evs m) : ∀ r, m.restored = some r → r.ToUser :=
  h.framesUser.restored

end

/-- The machine after an event that does not halt it. -/
def after (m : Machine) (ev : Event) : Machine :=
  match m.exec ev with
  | .ok m' => m'
  | .error _ => m

theorem exec_after {m : Machine} {ev : Event} (h : (m.exec ev).isOk = true) :
    m.exec ev = .ok (m.after ev) := by
  unfold after
  cases hm : m.exec ev with
  | ok m' => rfl
  | error e =>
    rw [hm] at h
    cases h

/-- An image of one page, which holds a frame with these two registers. -/
def frameImage (status vec : Nat) (s : Pmap EnvIdx) (e : EnvIdx) : Except Halt (Pmap EnvIdx) := do
  let (_, s) ← s.allocPageUser e 0x400000 demandPerm
  let p := s.getPa e 0x400000 >>> 12
  .ok ((s.setPte p 38 status).setPte p 35 vec)

def booted : Machine := .init (boot EnvIdx somePages) 0x80300000 fun _ => 0

/-- One env, with such an image, that runs. -/
def frameEnv (status vec : Nat) : Machine :=
  (booted.after (.create (frameImage status vec) 0x400000 1)).after .start

/-- The frame of `ecall` with `sys_set_trapframe(0, 0x400000)`. -/
def setOwnFrame : Trapframe := fun i =>
  if i = 10 then 11 else if i = 12 then 0x400000 else if i = 35 then 0x81000000 else 0

def noDevices : Devices :=
  { cgetc := 0, disk := fun _ => none, written := false, flushed := false, a0 := 0 }

/-- The pages of the kernel stack and of `envs`. -/
def kernelPages (p : Nat) : Prop := p = 0x80fff ∨ (0x80300 ≤ p ∧ p < 0x80380)

/-- The env has started: the first two events of a run. -/
theorem frameEnv_run {ok : Machine → Event → Prop} {status vec : Nat}
    (hload : (booted.exec (.create (frameImage status vec) 0x400000 1)).isOk = true)
    (hstart : ((booted.after (.create (frameImage status vec) 0x400000 1)).exec .start).isOk = true)
    (hnone : (booted.after (.create (frameImage status vec) 0x400000 1)).restored.isNone = true ∧
      (booted.after (.create (frameImage status vec) 0x400000 1)).kernel.curenv.isNone = true)
    (hok : ∀ m load entry priority, ok m (.create load entry priority)) (hok' : ∀ m, ok m .start) :
    Run kernelPages ok (boot EnvIdx somePages) 0x80300000
      [.create (frameImage status vec) 0x400000 1, .start] (frameEnv status vec) := by
  have hinit : Run kernelPages ok (boot EnvIdx somePages) 0x80300000 [] booted := .init _
  have hfresh : (Event.create (frameImage status vec) 0x400000 1).Happens booted := rfl
  have hcreate := hinit.step hfresh (hok _ _ _ _) (.clean (exec_after hload) fun _ _ hw => hw)
  have hnone' : Event.start.Happens (booted.after (.create (frameImage status vec) 0x400000 1)) :=
    ⟨Option.isNone_iff_eq_none.mp hnone.1, Option.isNone_iff_eq_none.mp hnone.2⟩
  exact hcreate.step hnone' (hok' _) (.clean (exec_after hstart) fun _ _ hw => hw)

theorem setOwnFrame_apart (m : Machine) (p : Nat) :
    ¬ (Event.syscall noDevices setOwnFrame).Writes m p := by
  rintro ⟨c, -, hno, -⟩
  exact absurd hno (by decide)

theorem setOwnFrame_happens {m : Machine} (h : m.restored.any (fun r => decide r.ToUser) = true) :
    (Event.syscall noDevices setOwnFrame).Happens m := by
  obtain ⟨r, hr, -, hvec⟩ := Option.exists_of_any h
  exact ⟨r, hr, fun _ => ⟨by decide, hvec.symm⟩⟩

/-- The env sets its own frame to one that is fit to restore. -/
theorem returns_to_user_mode_own :
    ∃ m r, Run kernelPages (Honest kernelPages) (boot EnvIdx somePages)
    0x80300000 [.create (frameImage 0 0x81000000) 0x400000 1, .start,
      .syscall noDevices setOwnFrame] m ∧
    m.restored = some r ∧ r.ToUser := by
  have hrun : Run kernelPages (Honest kernelPages) (boot EnvIdx somePages) 0x80300000
      [.create (frameImage 0 0x81000000) 0x400000 1, .start] (frameEnv 0 0x81000000) := by
    apply frameEnv_run
    · decide +kernel
    · decide +kernel
    · decide +kernel
    · intro m load entry priority
      exact ⟨fun _ _ hw => hw, trivial⟩
    · intro m
      exact ⟨fun _ _ hw => hw, trivial⟩
  have hcur : (frameEnv 0 0x81000000).kernel.curenv = some 0 := by decide +kernel
  have hset : (frameEnv 0 0x81000000).kernel.setTrapframe 0 0 0x400000 = .ok (0, 0x83006000) := by
    decide +kernel
  have hframe : (Kernel.trapframeAt (frameEnv 0 0x81000000).kernel.pmap 0x83006000).ToUser := by
    decide +kernel
  have hsets : (frameEnv 0 0x81000000).SetsUser 0 0x400000 := by
    intro c e pa hc hpa
    obtain rfl := Option.some.inj (hcur.symm.trans hc)
    obtain ⟨rfl, rfl⟩ := Prod.mk.inj (Except.ok.inj (hset.symm.trans hpa))
    exact ⟨hframe.1, fun _ => hframe⟩
  have hrun' := hrun.step (setOwnFrame_happens (by decide +kernel))
    ⟨fun p _ => setOwnFrame_apart _ p, fun _ => hsets⟩
    (.clean (exec_after (by decide +kernel)) fun p _ => setOwnFrame_apart _ p)
  have hsome :
      ((frameEnv 0 0x81000000).after (.syscall noDevices setOwnFrame)).restored.isSome = true := by
    decide +kernel
  obtain ⟨r, hr⟩ := Option.isSome_iff_exists.mp hsome
  exact ⟨_, r, hrun', hr, returns_to_user_mode hrun' r hr⟩

/-- The env sets its own frame: to supervisor mode, and to another vector. -/
theorem set_trapframe_escalates : ∃ m r, Run kernelPages (fun _ _ => True) (boot EnvIdx somePages)
    0x80300000 [.create (frameImage 0x100 0) 0x400000 1, .start, .syscall noDevices setOwnFrame] m ∧
    m.restored = some r ∧ ¬ r.UserMode ∧ r Trapframe.stvec ≠ excGenEntry := by
  have hrun : Run kernelPages (fun _ _ => True) (boot EnvIdx somePages) 0x80300000
      [.create (frameImage 0x100 0) 0x400000 1, .start] (frameEnv 0x100 0) := by
    apply frameEnv_run
    · decide +kernel
    · decide +kernel
    · decide +kernel
    · intros
      trivial
    · intros
      trivial
  have hrun' := hrun.step (setOwnFrame_happens (by decide +kernel))
    trivial
    (.clean (exec_after (by decide +kernel)) fun p _ => setOwnFrame_apart _ p)
  have hany : ((frameEnv 0x100 0).after (.syscall noDevices setOwnFrame)).restored.any (fun r =>
      decide (¬ r.UserMode ∧ r Trapframe.stvec ≠ excGenEntry)) = true := by
    decide +kernel
  obtain ⟨r, hr, hbad⟩ := Option.exists_of_any hany
  exact ⟨_, r, hrun', hr, hbad⟩

end Machine

end RiscvMos
