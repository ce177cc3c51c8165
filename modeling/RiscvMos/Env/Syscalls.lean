import RiscvMos.Env.Model

/-!
`kern/syscall_all.c`: the system calls on envs, messages and memory, made by
`curenv`. With no `curenv` there is no caller, and a call would follow NULL.
-/

namespace RiscvMos

/-- `is_illegal_va`. -/
def isIllegalVa (va : Nat) : Prop := va < utemp ∨ utop ≤ va

instance (va : Nat) : Decidable (isIllegalVa va) := inferInstanceAs (Decidable (_ ∨ _))

namespace Kernel

/-- A call by `curenv`. -/
def byCurenv (k : Kernel) (f : EnvIdx → Except Halt (Int × Kernel)) : Except Halt (Int × Kernel) :=
  match k.curenv with
  | none => .error .null
  | some cur => f cur

/-- `try(envid2env(…, &e, …))` before the rest of a call. -/
def withEnv (k : Kernel) (cur : EnvIdx) (envid checkperm : Nat)
    (f : EnvIdx → Except Halt (Int × Kernel)) : Except Halt (Int × Kernel) :=
  match k.envid2env cur envid checkperm with
  | .error r => .ok (r, k)
  | .ok e => f e

/-- The result of a call on memory. -/
def liftPmap (k : Kernel) (x : Except Halt (Reply EnvIdx)) : Except Halt (Int × Kernel) := do
  let (r, s) ← x
  .ok (r, { k with pmap := s })

def sysYield (k : Kernel) : Except Halt (Int × Kernel) := do
  let k ← k.schedule true
  .ok (0, k)

/-- The timer interrupt of `handle_interrupt`. -/
def tick (k : Kernel) : Except Halt (Int × Kernel) := do
  let k ← k.schedule false
  .ok (0, k)

def sysEnvDestroy (k : Kernel) (envid : Nat) : Except Halt (Int × Kernel) :=
  k.byCurenv fun cur =>
  k.withEnv cur envid 1 fun e => do
    let k ← k.envDestroy e
    .ok (0, k)

def sysExofork (k : Kernel) : Except Halt (Int × Kernel) :=
  k.byCurenv fun cur => do
  match ← k.envAlloc (k.envs cur).envId with
  | (.error r, k) => .ok (r, k)
  | (.ok e, k) =>
    if k.pmap.pgdir e = 0 then
      match k.pmap.pageAlloc with
      | none => .ok (-eNoMem, k)
      | some (pp, s) => do
        let s := s.setPgdir e (page2pa pp)
        let (_, s) ← s.mapPage e rootWindow (s.pgdir e) (pteR ||| pteU)
        .ok (finish { k with pmap := s } cur e)
    else .ok (finish k cur e)
where
  /-- The end of the call, once the child has a directory. -/
  finish (k : Kernel) (cur e : EnvIdx) : Int × Kernel :=
    let k := k.setRootEntry e 2 (k.baseEntry 2)
    let k := k.setRootEntry e 4 (k.baseEntry 4 ||| pteV)
    let k := k.setStatus e .notRunnable
    let k := k.setEnv e { k.envs e with envPri := (k.envs cur).envPri }
    (uIntToInt (k.envs e).envId, k)

/-- `ENV_RUNNABLE` or `ENV_NOT_RUNNABLE`. -/
def settableStatus (status : Nat) : Option EnvStatus :=
  if status = 1 then some .runnable else if status = 2 then some .notRunnable else none

/-- Step 3 of `sys_set_env_status`: update the list if the status changes. -/
def schedUpdate (k : Kernel) (e : EnvIdx) (st : EnvStatus) : Except Halt Kernel :=
  if (k.envs e).envStatus = .runnable ∧ st ≠ .runnable then k.schedRemove e
  else if (k.envs e).envStatus ≠ .runnable ∧ st = .runnable then .ok (k.schedInsertTail e)
  else .ok k

def sysSetEnvStatus (k : Kernel) (envid status : Nat) : Except Halt (Int × Kernel) :=
  match settableStatus status with
  | none => .ok (-eInval, k)
  | some st =>
    k.byCurenv fun cur =>
    k.withEnv cur envid (k.envs cur).envId fun e => do
      let k ← k.schedUpdate e st
      .ok (0, k.setStatus e st)

/-- `sys_ipc_recv`. A legal call does not return here: it returns 0 when the
env runs again. -/
def sysIpcRecv (k : Kernel) (dstva : Nat) : Except Halt (Int × Kernel) :=
  if dstva ≠ 0 ∧ isIllegalVa dstva then .ok (-eInval, k)
  else k.byCurenv fun cur => do
    let k := k.setEnv cur { k.envs cur with
      envIpcRecving := true, envIpcDstva := dstva, envStatus := .notRunnable }
    let k ← k.schedRemove cur
    let k ← k.schedule true
    .ok (0, k)

/-- Steps 4 and 5 of `sys_ipc_try_send`. -/
def ipcDeliver (k : Kernel) (cur e : EnvIdx) (value perm : Nat) : Kernel :=
  let k := k.setEnv e { k.envs e with
    envIpcValue := value, envIpcFrom := (k.envs cur).envId, envIpcPerm := uInt (pteV ||| perm),
    envIpcRecving := false, envStatus := .runnable }
  k.schedInsertTail e

def sysIpcTrySend (k : Kernel) (envid value srcva perm : Nat) : Except Halt (Int × Kernel) :=
  if srcva ≠ 0 ∧ isIllegalVa srcva then .ok (-eInval, k)
  else k.byCurenv fun cur =>
    k.withEnv cur envid 0 fun e =>
      if (k.envs e).envIpcRecving = false then .ok (-eIpcNotRecv, k)
      else
        let k := k.ipcDeliver cur e value perm
        if srcva = 0 then .ok (0, k)
        else if k.pmap.isMappedPage cur srcva = false then .ok (-eInval, k)
        else k.liftPmap (k.pmap.mapPageUser e (k.envs e).envIpcDstva (k.pmap.getPa cur srcva)
          (uInt perm))

def sysMemAlloc (k : Kernel) (envid va perm : Nat) : Except Halt (Int × Kernel) :=
  if isIllegalVa va then .ok (-eInval, k)
  else k.byCurenv fun cur =>
    k.withEnv cur envid (k.envs cur).envId fun e =>
      k.liftPmap (k.pmap.allocPageUser e va (uInt perm))

def sysMemMap (k : Kernel) (srcid srcva dstid dstva perm : Nat) : Except Halt (Int × Kernel) :=
  if isIllegalVa srcva ∨ isIllegalVa dstva then .ok (-eInval, k)
  else k.byCurenv fun cur =>
    k.withEnv cur srcid (k.envs cur).envId fun src =>
    k.withEnv cur dstid (k.envs cur).envId fun dst =>
      if k.pmap.isMappedPage src srcva = false then .ok (-eInval, k)
      else k.liftPmap (k.pmap.mapPageUser dst dstva (k.pmap.getPa src srcva) (uInt perm))

def sysMemUnmap (k : Kernel) (envid va : Nat) : Except Halt (Int × Kernel) :=
  if isIllegalVa va then .ok (-eInval, k)
  else k.byCurenv fun cur =>
    k.withEnv cur envid (k.envs cur).envId fun e =>
      k.liftPmap (k.pmap.unmapPage e va)

/-- What happens to the env table: the boot code, the timer, and the system
calls that create, stop, wake and destroy envs. -/
inductive Op where
  | envCreate (load : Pmap EnvIdx → EnvIdx → Except Halt (Pmap EnvIdx)) (priority : Nat)
  | sysExofork
  | sysSetEnvStatus (envid status : Nat)
  | sysIpcRecv (dstva : Nat)
  | sysIpcTrySend (envid value srcva perm : Nat)
  | sysYield
  | tick
  | sysEnvDestroy (envid : Nat)

def exec (k : Kernel) : Op → Except Halt (Int × Kernel)
  | .envCreate load priority => do
    let k ← k.envCreate load priority
    .ok (0, k)
  | .sysExofork => k.sysExofork
  | .sysSetEnvStatus envid status => k.sysSetEnvStatus envid status
  | .sysIpcRecv dstva => k.sysIpcRecv dstva
  | .sysIpcTrySend envid value srcva perm => k.sysIpcTrySend envid value srcva perm
  | .sysYield => k.sysYield
  | .tick => k.tick
  | .sysEnvDestroy envid => k.sysEnvDestroy envid

/-- A zeroed `struct Env`. -/
def zeroEnv : Env :=
  { envId := 0, envAsid := 0, envParentId := 0, envStatus := .free, envPri := 0,
    envIpcValue := 0, envIpcFrom := 0, envIpcRecving := false, envIpcDstva := 0, envIpcPerm := 0,
    envUserTlbModEntry := 0, envRuns := 0 }

/-- The state `env_init` leaves, over some memory. ASID 0 is the kernel's. -/
def envInit (s : Pmap EnvIdx) (basePgdir : Nat) : Kernel :=
  { envs := fun _ => zeroEnv, envSchedList := .init, envFreeList := List.finRange 1024,
    curenv := none, count := 0, asidBitmap := fun i => i == 0, lastEnvid := 0, pmap := s,
    basePgdir := basePgdir }

end Kernel

end RiscvMos
