import RiscvMos.Lib.Tailq
import RiscvMos.Pmap.Model

/-!
`kern/env.c` and `kern/sched.c`: the env table, the scheduler list and the
switch between envs. Registers are left out (a call's result is the code it
returns), and so is the hardware state that `env_run` loads. `cur_pgdir` is
the directory of `curenv`, which `env_run` copies into it.
-/

namespace RiscvMos

def eBadEnv : Int := 2
def eInval : Int := 3
def eNoFreeEnv : Int := 6
def eIpcNotRecv : Int := 7

inductive EnvStatus where
  | free
  | runnable
  | notRunnable
  deriving DecidableEq, Repr

structure Env where
  envId : Nat
  envAsid : Nat
  envParentId : Nat
  envStatus : EnvStatus
  envPri : Nat
  envIpcValue : Nat
  envIpcFrom : Nat
  envIpcRecving : Bool
  envIpcDstva : Nat
  envIpcPerm : Nat
  envUserTlbModEntry : Nat
  envRuns : Nat
  deriving DecidableEq, Repr

structure Kernel where
  envs : EnvIdx → Env
  envSchedList : Tailq EnvIdx
  envFreeList : List EnvIdx
  curenv : Option EnvIdx
  /-- `count` of `schedule`. -/
  count : Int
  asidBitmap : Nat → Bool
  /-- `i` of `mkenvid`. -/
  lastEnvid : Nat
  pmap : Pmap EnvIdx
  basePgdir : Nat

/-- A value of type `u_int`. -/
def uInt (n : Nat) : Nat := n % 2 ^ 32

/-- A `u_int` returned as an `int`. -/
def uIntToInt (n : Nat) : Int := if n < 2 ^ 31 then n else n - 2 ^ 32

namespace Kernel

def setEnv (k : Kernel) (e : EnvIdx) (v : Env) : Kernel :=
  { k with envs := Function.update k.envs e v }

def setStatus (k : Kernel) (e : EnvIdx) (st : EnvStatus) : Kernel :=
  k.setEnv e { k.envs e with envStatus := st }

/-- `TAILQ_REMOVE(&env_sched_list, e, env_sched_link)`. -/
def schedRemove (k : Kernel) (e : EnvIdx) : Except Halt Kernel :=
  match k.envSchedList.remove e with
  | none => .error .null
  | some q => .ok { k with envSchedList := q }

/-- `TAILQ_INSERT_TAIL(&env_sched_list, e, env_sched_link)`. -/
def schedInsertTail (k : Kernel) (e : EnvIdx) : Kernel :=
  { k with envSchedList := k.envSchedList.insertTail e }

/-- `((u_long *)e->env_pgdir)[i] = pte`. -/
def setRootEntry (k : Kernel) (e : EnvIdx) (i : Vpn) (pte : Nat) : Kernel :=
  { k with pmap := k.pmap.setPte (k.pmap.pgdir e >>> 12) i pte }

/-- `((u_long *)base_pgdir)[i]`. -/
def baseEntry (k : Kernel) (i : Vpn) : Nat := k.pmap.mem (k.basePgdir >>> 12) i

/-- `asid_alloc`: the first clear bit of the bitmap. -/
def asidAlloc (k : Kernel) : Option Nat := (List.range 64).find? fun i => !k.asidBitmap i

def asidFree (k : Kernel) (i : Nat) : Kernel :=
  { k with asidBitmap := Function.update k.asidBitmap i false }

/-- `mkenvid`, with its counter already advanced. -/
def mkenvid (i : Nat) (e : EnvIdx) : Nat := uInt (i <<< 11) ||| e.val

/-- `envid2env`; `cur` is `curenv`. -/
def envid2env (k : Kernel) (cur : EnvIdx) (envid checkperm : Nat) : Except Int EnvIdx :=
  let envid := uInt envid
  if envid = 0 then .ok cur
  else
    let e : EnvIdx := ⟨envid % 1024, Nat.mod_lt _ (by decide)⟩
    if (k.envs e).envStatus = .free ∨ (k.envs e).envId ≠ envid then .error (-eBadEnv)
    else if checkperm ≠ 0 ∧ ¬ (e = cur ∨ (k.envs e).envParentId = checkperm) then .error (-eBadEnv)
    else .ok e

/-- `PAGE_TABLE + (PAGE_TABLE >> PN_SHIFT) + (PAGE_TABLE >> (2 * PN_SHIFT))`,
where the root table is mapped. -/
def rootWindow : Nat := pageTable + (pageTable >>> 9) + (pageTable >>> 18)

/-- `env_setup_vm`; the result codes of both calls are ignored. -/
def envSetupVm (k : Kernel) (e : EnvIdx) : Except Halt Kernel := do
  let (_, s) ← k.pmap.allocPgdir e
  let (_, s) ← s.mapPage e rootWindow (s.pgdir e) (pteR ||| pteU)
  let k := { k with pmap := s }
  .ok (k.setRootEntry e 4 (k.baseEntry 4 ||| pteV))

/-- `env_alloc`: the new env, or a code. -/
def envAlloc (k : Kernel) (parentId : Nat) : Except Halt (Except Int EnvIdx × Kernel) :=
  match k.envFreeList with
  | [] => .ok (.error (-eNoFreeEnv), k)
  | e :: rest =>
    let i := uInt (k.lastEnvid + 1)
    let k := { k with pmap := k.pmap.setPgdir e 0, lastEnvid := i }
    let k := k.setEnv e { k.envs e with
      envUserTlbModEntry := 0, envRuns := 0, envId := mkenvid i e }
    match k.asidAlloc with
    | none => .ok (.error (-eNoFreeEnv), k)
    | some asid => do
      let k := { k with asidBitmap := Function.update k.asidBitmap asid true }
      let k := k.setEnv e { k.envs e with envAsid := asid, envParentId := parentId }
      let k ← k.envSetupVm e
      .ok (.ok e, { k with envFreeList := rest })

/-- `env_run`, up to the return to user mode. -/
def envRun (k : Kernel) (e : EnvIdx) : Except Halt Kernel :=
  if (k.envs e).envStatus ≠ .runnable then .error (.panic "assertion failed")
  else
    let k := { k with curenv := some e }
    let k := k.setEnv e { k.envs e with envRuns := uInt ((k.envs e).envRuns + 1) }
    let k := k.setRootEntry e 2 (k.baseEntry 2)
    .ok (k.setRootEntry e 4 (k.baseEntry 4 ||| pteV))

/-- Pick the head of `env_sched_list` and give it its slices. -/
def schedFirst (k : Kernel) : Except Halt Kernel :=
  match k.envSchedList.first with
  | none => .error (.panic "schedule: no runnable envs")
  | some e => { k with count := (k.envs e).envPri }.envRun e

/-- Take `e` out of the list, and put it back at the tail if it is runnable. -/
def schedRequeue (k : Kernel) (e : EnvIdx) : Except Halt Kernel := do
  let k ← k.schedRemove e
  .ok (if (k.envs e).envStatus = .runnable then k.schedInsertTail e else k)

/-- `schedule`. Its two branches that leave `curenv` do the same. -/
def schedule (k : Kernel) (yield : Bool) : Except Halt Kernel :=
  let k := { k with count := k.count - 1 }
  match k.curenv with
  | none => k.schedFirst
  | some e =>
    if yield = true ∨ k.count = 0 ∨ (k.envs e).envStatus ≠ .runnable then do
      let k ← k.schedRequeue e
      k.schedFirst
    else k.envRun e

/-- `env_create`; `load` is what `load_icode` does to memory. An `env_alloc`
that fails leaves its pointer uninitialised. -/
def envCreate (k : Kernel) (load : Pmap EnvIdx → EnvIdx → Except Halt (Pmap EnvIdx))
    (priority : Nat) :
    Except Halt Kernel := do
  match ← k.envAlloc 0 with
  | (.error _, _) => .error .null
  | (.ok e, k) =>
    let k := k.setEnv e { k.envs e with envPri := uInt priority, envStatus := .runnable }
    let s ← load k.pmap e
    let k := { k with pmap := s }
    let k := k.setRootEntry e 2 (k.baseEntry 2)
    .ok { k with envSchedList := k.envSchedList.insertHead e }

def envFree (k : Kernel) (e : EnvIdx) : Except Halt Kernel := do
  let (_, s) ← k.pmap.destroyPgdir e
  let k := { k with pmap := s }.asidFree (k.envs e).envAsid
  let k := k.setStatus e .free
  let k := { k with envFreeList := e :: k.envFreeList }
  k.schedRemove e

def envDestroy (k : Kernel) (e : EnvIdx) : Except Halt Kernel := do
  let k ← k.envFree e
  if k.curenv = some e then schedule { k with curenv := none } true else .ok k

end Kernel

end RiscvMos
