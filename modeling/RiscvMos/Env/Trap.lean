import RiscvMos.Env.UserMem
import RiscvMos.Env.User

/-!
Trap frames: where the kernel keeps them, which of them it changes, and which
one `ret_from_exception` restores. A trap saves the user's registers below
`KSTACKTOP`; a call that returns restores that frame, and `env_run` stores it in
the env it leaves and restores the frame of the env it enters.
-/

namespace RiscvMos

/-- Placed by the linker script. -/
def excGenEntry : Nat := 0x81000000

def sieUtie : Nat := 0x10
def sieStie : Nat := 0x20
def sstatusUie : Nat := 0x1
def sstatusSpie : Nat := 0x20
def sstatusSpp : Nat := 0x100

def eNoSys : Int := 5

/-- An `int` stored in a `u_long`. -/
def intToULong (r : Int) : Nat := (r % 2 ^ 64).toNat

instance frameNeZero : NeZero 40 := ⟨by decide⟩

namespace Trapframe

def sie : Fin 40 := 32
def sepc : Fin 40 := 34
def stvec : Fin 40 := 35
def sstatus : Fin 40 := 38
def sscratch : Fin 40 := 39

def set (tf : Trapframe) (i : Fin 40) (w : Nat) : Trapframe := Function.update tf i w

@[simp] theorem set_same (tf : Trapframe) (i : Fin 40) (w : Nat) : tf.set i w i = w := by simp [set]

@[simp] theorem set_other (tf : Trapframe) {i j : Fin 40} (w : Nat) (h : j ≠ i) :
    tf.set i w j = tf j := by
  simp [set, h]

/-- What `env_run` fixes in the frame it restores. -/
def enter (tf : Trapframe) : Trapframe :=
  let tf := tf.set stvec excGenEntry
  let tf := tf.set sie (tf sie ||| sieStie)
  tf.set sstatus (tf sstatus ||| sstatusSpie)

/-- What `env_alloc` and `load_icode` set in the frame of a new env. -/
def create (tf : Trapframe) (entry : Nat) : Trapframe :=
  let tf := tf.set sie sieUtie
  let tf := tf.set sstatus sstatusUie
  let tf := tf.set sscratch (ustacktop - 4 - 8)
  tf.set sepc entry

end Trapframe

/-- What the devices answer to a call. -/
structure Devices where
  /-- `scancharc`, once it is not 255. -/
  cgetc : Int
  /-- A sector, if the status is 0. -/
  disk : Nat → Option (Nat → Nat)
  written : Bool
  flushed : Bool
  /-- What a function without a result leaves in its register. -/
  a0 : Int

structure Machine where
  kernel : Kernel
  /-- `*((struct Trapframe *)KSTACKTOP - 1)`. -/
  kstack : Trapframe
  envTf : EnvIdx → Trapframe
  /-- The frame that `ret_from_exception` restored last. -/
  restored : Option Trapframe

/-- How a call ends, if the kernel does not halt: it returns a value to
`do_syscall`, or it leaves through `env_run`. -/
abbrev Outcome := Option Int × Machine

namespace Machine

def setTf (m : Machine) (e : EnvIdx) (tf : Trapframe) : Machine :=
  { m with envTf := Function.update m.envTf e tf }

/-- `j ret_from_exception` on the frame below `KSTACKTOP`. -/
def ret (m : Machine) : Machine := { m with restored := some m.kstack }

/-- The first step of `env_run`; `cur` is `curenv`. -/
def save (m : Machine) (cur : Option EnvIdx) : Machine :=
  match cur with
  | none => m
  | some c => m.setTf c m.kstack

/-- The end of `env_run` for the env `e`. -/
def enter (m : Machine) (e : EnvIdx) : Machine :=
  { m.setTf e (m.envTf e).enter with restored := some (m.envTf e).enter }

/-- `schedule`, called with `curenv = cur`, has come to `env_run` and left `k`. -/
def switch (m : Machine) (cur : Option EnvIdx) (k : Kernel) : Machine :=
  match k.curenv with
  | none => { m with kernel := k }
  | some e => { (m.save cur).enter e with kernel := k }

/-- A call that touches no frame. -/
def plain (m : Machine) (x : Except Halt (Int × Kernel)) : Except Halt Outcome := do
  let (r, k) ← x
  .ok (some r, { m with kernel := k })

/-- `schedule`. -/
def schedule (m : Machine) (yield : Bool) : Except Halt Machine := do
  let k ← m.kernel.schedule yield
  .ok (m.switch m.kernel.curenv k)

def sysEnvDestroy (m : Machine) (envid : Nat) : Except Halt Outcome := do
  match m.kernel.curenv with
  | none => .error .null
  | some cur =>
    let (r, k) ← m.kernel.sysEnvDestroy envid
    -- `env_destroy` clears `curenv` before it schedules
    if m.kernel.envid2env cur envid 1 = .ok cur then .ok (none, m.switch none k)
    else .ok (some r, { m with kernel := k })

def sysExofork (m : Machine) : Except Halt Outcome := do
  match m.kernel.curenv with
  | none => .error .null
  | some cur =>
    let (r, k) ← m.kernel.sysExofork
    match ← m.kernel.envAlloc (m.kernel.envs cur).envId with
    | (.error _, _) => .ok (some r, { m with kernel := k })
    | (.ok e, _) => .ok (some r, { m.setTf e (m.kstack.set 10 0) with kernel := k })

def sysIpcRecv (m : Machine) (dstva : Nat) : Except Halt Outcome := do
  let (r, k) ← m.kernel.sysIpcRecv dstva
  if dstva ≠ 0 ∧ isIllegalVa dstva then .ok (some r, { m with kernel := k })
  else .ok (none, { m with kstack := m.kstack.set 10 0 }.switch m.kernel.curenv k)

/-- A frame outside of RAM makes the kernel fault. -/
def sysSetTrapframe (m : Machine) (envid tf : Nat) : Except Halt Outcome :=
  match m.kernel.curenv with
  | none => .error .null
  | some cur =>
    match m.kernel.setTrapframe cur envid tf with
    | .error r => .ok (some r, m)
    | .ok (e, pa) =>
      if inRam (pa >>> 12) ∧ inRam ((pa + 319) >>> 12) then
        let f := Kernel.trapframeAt m.kernel.pmap pa
        if e = cur then .ok (some (uIntToInt (uInt (f 10))), { m with kstack := f })
        else .ok (some 0, m.setTf e f)
      else .error .wild

def sysSetTlbModEntry (k : Kernel) (envid func : Nat) : Except Halt (Int × Kernel) :=
  k.byCurenv fun cur =>
  k.withEnv cur envid (k.envs cur).envId fun e =>
    .ok (0, k.setEnv e { k.envs e with envUserTlbModEntry := func })

/-- A call of `Env/UserMem.lean`. -/
def onUser (m : Machine) (f : EnvIdx → Ran) : Except Halt Outcome :=
  match m.kernel.curenv with
  | none => .error .null
  | some cur => m.plain (f cur).result

/-- `syscall_table`, at a number below `MAX_SYSNO`. -/
def call (m : Machine) (dev : Devices) (sysno arg1 arg2 arg3 arg4 arg5 : Nat) :
    Except Halt Outcome :=
  let k := m.kernel
  match sysno with
  | 0 => .ok (some dev.a0, m)
  | 1 => m.onUser fun c => k.sysPrintCons c arg1 arg2
  | 2 => m.plain (k.byCurenv fun cur => .ok (uIntToInt (uInt (k.envs cur).envId), k))
  | 3 => do .ok (none, ← m.schedule true)
  | 4 => m.sysEnvDestroy arg1
  | 5 => m.plain (sysSetTlbModEntry k arg1 arg2)
  | 6 => m.plain (k.sysMemAlloc arg1 arg2 arg3)
  | 7 => m.plain (k.sysMemMap arg1 arg2 arg3 arg4 arg5)
  | 8 => m.plain (k.sysMemUnmap arg1 arg2)
  | 9 => m.sysExofork
  | 10 => m.plain (k.sysSetEnvStatus arg1 arg2)
  | 11 => m.sysSetTrapframe arg1 arg2
  | 12 => m.onUser fun c => k.sysPanic c arg1
  | 13 => m.plain (k.sysIpcTrySend arg1 arg2 arg3 arg4)
  | 14 => m.sysIpcRecv arg1
  | 15 => .ok (some dev.cgetc, m)
  | 16 | 17 => .ok (some 0, m)
  | 18 => m.onUser fun c => k.sysReadSector c dev.disk arg1 arg2
  | 19 => m.onUser fun c => k.sysWriteSector c dev.written arg1
  | 20 => if dev.flushed then .ok (some 0, m) else .error (.panic "Flush sector failed!")
  | _ => .error .wild

def maxSysno : Int := 21

/-- `int sysno = tf->regs[10]`. -/
def sysno (tf : Trapframe) : Int := uIntToInt (uInt (tf 10))

/-- `do_syscall` on the frame below `KSTACKTOP`, and the way back. -/
def doSyscall (m : Machine) (dev : Devices) : Except Halt Machine :=
  let tf := m.kstack
  if sysno tf < 0 ∨ maxSysno ≤ sysno tf then
    .ok { m with kstack := tf.set 10 (intToULong (-eNoSys)) }.ret
  else do
    let m := { m with kstack := tf.set Trapframe.sepc (uLong (tf Trapframe.sepc + 4)) }
    match ← m.call dev (sysno tf).toNat (tf 11) (tf 12) (tf 13) (tf 14) (tf 15) with
    | (some r, m) => .ok { m with kstack := m.kstack.set 10 (intToULong r) }.ret
    | (none, m) => .ok m

/-- The frame after a page fault. -/
def resume (tf : Trapframe) : Resume → Trapframe
  | .retry => tf
  | .entry pc => ((tf.set Trapframe.sepc pc).set Trapframe.sscratch uxframe).set 10 (uxframe + 8)

/-- An access of user code; `tf` is what the trap of a fault saves. -/
def access (m : Machine) (cause : Fault) (va w : Nat) (tf : Trapframe) : Except Halt Machine :=
  match m.kernel.curenv with
  | none => .error .null
  | some cur =>
    match m.kernel.pmap.translate cur cause va with
    | some _ => do
      let k ← m.kernel.access cause va w tf
      .ok { m with kernel := k }
    | none => do
      let (r, k) ← m.kernel.handleException cause va tf
      .ok { m with kernel := k, kstack := resume tf r }.ret

/-- Before the first env runs: `env_create`. -/
def create (m : Machine) (load : Pmap EnvIdx → EnvIdx → Except Halt (Pmap EnvIdx))
    (entry priority : Nat) :
    Except Halt Machine := do
  match ← m.kernel.envAlloc 0 with
  | (.error _, _) => .error .null
  | (.ok e, _) =>
    let k ← m.kernel.envCreate load priority
    .ok { m.setTf e ((m.envTf e).create entry) with kernel := k }

end Machine

end RiscvMos
