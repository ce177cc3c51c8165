import RiscvMos.Env.Readonly
import RiscvMos.Env.SelfView
import RiscvMos.Env.Trap

/-!
`fork`, `duppage` and `cow_entry` of `user/lib/fork.c` over the kernel's memory,
for any number of envs that the scheduler runs in any order. An env is where its
program is in `fork`, and where `cow_entry` is if it runs on its exception stack.
Each system call is a step of its own, as is each word that `cow_entry` copies.
-/

namespace RiscvMos

/-- `PTE_PERM`. -/
def ptePerm : Nat := 0x3ff

/-- `~n` of a `u_int`. -/
def uIntNot (n : Nat) : Nat := 2 ^ 32 - 1 - n

/-- An `int` that becomes a `u_int`. -/
def intToUInt (r : Int) : Nat := (r % 2 ^ 32).toNat

/-- `envs + ENVX(envid)`. -/
def envx (envid : Nat) : EnvIdx := ⟨envid % 1024, Nat.mod_lt _ (by decide)⟩

/-- Where the program of an env is. -/
inductive Prog where
  /-- Made by `sys_exofork`, and not run yet. -/
  | born
  | running
  /-- In `fork`, before `syscall_set_tlb_mod_entry(0, cow_entry)`. -/
  | setting
  /-- Before `syscall_exofork`. -/
  | forking
  /-- In the loop of `fork`, before page `vpn`. -/
  | walking (child vpn : Nat)
  /-- In `duppage`. -/
  | called (child vpn : Nat)
  | looked (child vpn perm : Nat)
  /-- Between the two calls for a page that becomes copy-on-write. -/
  | lent (child vpn perm : Nat)
  /-- After the loop, before `syscall_set_env_status(child, ENV_RUNNABLE)`. -/
  | finishing (child : Nat)
  deriving DecidableEq, Repr

/-- Where `cow_entry` is. -/
inductive Handler where
  | entered (va : Nat)
  | looked (va perm : Nat)
  /-- In `memcpy`, after `n` words. -/
  | copying (va perm n : Nat)
  | mapped (va : Nat)
  /-- In `user_panic`. -/
  | panicked
  deriving DecidableEq, Repr

structure Forks where
  kernel : Kernel
  prog : EnvIdx → Prog
  handler : EnvIdx → Option Handler

inductive ForkAct where
  /-- An access of user code. -/
  | access (cause : Fault) (va w : Nat) (tf : Trapframe)
  /-- A call of `fork`, up to its first system call. -/
  | fork
  /-- The next step of `cow_entry` or `fork`. -/
  | next
  | sysYield
  | tick

namespace Forks

def setProg (s : Forks) (e : EnvIdx) (prog : Prog) : Forks :=
  { s with prog := Function.update s.prog e prog }

def setHandler (s : Forks) (e : EnvIdx) (h : Option Handler) : Forks :=
  { s with handler := Function.update s.handler e h }

/-- A system call of `curenv`. -/
def call (s : Forks) (f : Kernel → Except Halt (Int × Kernel)) : Option (Int × Forks) := do
  let (r, k) ← (f s.kernel).toOption
  some (r, { s with kernel := k })

/-! ## `cow_entry` -/

/-- `(perm & ~PTE_COW) | PTE_R | PTE_W | PTE_U`. -/
def ownPerm (perm : Nat) : Nat := perm &&& uIntNot pteCow ||| (pteR ||| pteW ||| pteU)

/-- A word of 64 bits with half `n % 2` from another one. -/
def copyHalf (dst src n : Nat) : Nat :=
  if n % 2 = 0 then dst / 2 ^ 32 * 2 ^ 32 + src % 2 ^ 32
  else src / 2 ^ 32 * 2 ^ 32 + dst % 2 ^ 32

/-- Word `n` of `memcpy((void *)UCOW, (void *)ROUNDDOWN(va, PAGE_SIZE), PAGE_SIZE)`. -/
def copyWord (s : Pmap EnvIdx) (c : EnvIdx) (va n : Nat) : Option (Pmap EnvIdx) := do
  let from_ := va / 4096 * 4096 + 4 * n
  let to_ := ucow + 4 * n
  let p ← s.translate c .load from_
  let q ← s.translate c .store to_
  some (s.storeWord q to_
    (copyHalf (s.mem q (Pmap.wordIdx to_)) (s.mem p (Pmap.wordIdx from_)) n))

/-- A step of `cow_entry`; the last one goes back by `syscall_set_trapframe`. -/
def cowEntry (s : Forks) (c : EnvIdx) : Handler → Option Forks
  | .entered va => do
    let pte ← s.kernel.pmap.pt0 c (va >>> 12)
    let perm := pte &&& ptePerm
    some (s.setHandler c (some (if perm &&& pteCow = 0 then .panicked
      else .looked va (ownPerm perm))))
  | .looked va perm => do
    let (r, s) ← s.call fun k => k.sysMemAlloc 0 ucow perm
    some (s.setHandler c (some (if r < 0 then .panicked else .copying va perm 0)))
  | .copying va perm n =>
    if n < 1024 then do
      let m ← copyWord s.kernel.pmap c va n
      some ({ s with kernel := { s.kernel with pmap := m } }.setHandler c
        (some (.copying va perm (n + 1))))
    else do
      let (r, s) ← s.call fun k => k.sysMemMap 0 ucow 0 va perm
      some (s.setHandler c (some (if r < 0 then .panicked else .mapped va)))
  | .mapped _ => do
    let (_, s) ← s.call fun k => k.sysMemUnmap 0 ucow
    some (s.setHandler c none)
  | .panicked => none

/-! ## `fork` -/

/-- `(perm | PTE_COW) & ~PTE_W`. -/
def lentPerm (perm : Nat) : Nat := (perm ||| pteCow) &&& uIntNot pteW

/-- User code may write the page, and it is not to share: it becomes copy-on-write. -/
def Writes (perm : Nat) : Prop := perm &&& pteU ≠ 0 ∧ perm &&& pteW ≠ 0 ∧ perm &&& pteLibrary = 0

instance (perm : Nat) : Decidable (Writes perm) := inferInstanceAs (Decidable (_ ∧ _))

/-- The env that `sys_exofork` took from the free list. -/
def taken (k k' : Kernel) : Option EnvIdx :=
  if k'.envFreeList.length < k.envFreeList.length then k.envFreeList.head? else none

/-- The env that `sys_exofork` made, from `s` to `s'`, has not run yet. -/
def bear (s s' : Forks) : Forks :=
  match taken s.kernel s'.kernel with
  | some e => (s'.setProg e .born).setHandler e none
  | none => s'

/-- `fork` up to its first system call: where `cow_entry` is the handler already, that is
`syscall_exofork`. -/
def fork (cow : Nat) (s : Forks) (c : EnvIdx) : Forks :=
  s.setProg c (if (s.kernel.envs c).envUserTlbModEntry = cow then .forking else .setting)

/-- A step of `fork` after that. An env that is made goes on where `syscall_exofork`
returns 0. The codes of the calls after that one are ignored. -/
def forkStep (cow : Nat) (s : Forks) (c : EnvIdx) : Prog → Option Forks
  | .setting => do
    let (r, s) ← s.call fun k => Machine.sysSetTlbModEntry k 0 cow
    some (s.setProg c (if r = 0 then .forking else .running))
  | .forking => do
    let (r, s') ← s.call Kernel.sysExofork
    let child := intToUInt r
    some ((s.bear s').setProg c (if child = 0 then .running else .walking child 0))
  | .walking child vpn =>
    if vpn < ustacktop / 4096 then do
      let mapped ← s.kernel.pmap.isMapped c (vpn <<< 12)
      some (s.setProg c (if mapped then .called child vpn else .walking child (vpn + 1)))
    else do
      let (_, s) ← s.call fun k => Machine.sysSetTlbModEntry k child cow
      some (s.setProg c (.finishing child))
  | .called child vpn => do
    let pte ← s.kernel.pmap.pt0 c vpn
    some (s.setProg c (.looked child vpn (pte &&& ptePerm)))
  | .looked child vpn perm =>
    if Writes perm then do
      let (_, s) ← s.call fun k => k.sysMemMap 0 (vpn <<< 12) child (vpn <<< 12) (lentPerm perm)
      some (s.setProg c (.lent child vpn perm))
    else do
      let (_, s) ← s.call fun k => k.sysMemMap 0 (vpn <<< 12) child (vpn <<< 12) perm
      some (s.setProg c (.walking child (vpn + 1)))
  | .lent child vpn perm => do
    let (_, s) ← s.call fun k => k.sysMemMap 0 (vpn <<< 12) 0 (vpn <<< 12) (lentPerm perm)
    some (s.setProg c (.walking child (vpn + 1)))
  | .finishing child => do
    let (r, s) ← s.call fun k => k.sysSetEnvStatus child 1
    let s := if r = 0 then s.setProg (envx child) .running else s
    some (s.setProg c .running)
  | .born | .running => none

/-! ## Steps -/

/-- An access of user code, of `cow_entry` or of `fork`. A fault on a page that is
copy-on-write goes on in the handler of the env, which must be `cow_entry`. -/
def access (cow : Nat) (s : Forks) (c : EnvIdx) (cause : Fault) (va w : Nat) (tf : Trapframe) :
    Option Forks :=
  match s.kernel.pmap.translate c cause va with
  | some p => some (if cause = .store then
      { s with kernel := { s.kernel with pmap := s.kernel.pmap.storeWord p va w } } else s)
  | none => do
    let (resume, k) ← (s.kernel.handleException cause va tf).toOption
    let s := { s with kernel := k }
    match resume with
    | .retry => some s
    | .entry pc => if pc = cow then some (s.setHandler c (some (.entered va))) else none

/-- A step of the running env, or a turn of the scheduler; `cow` is the address of
`cow_entry`. -/
def exec (cow : Nat) (s : Forks) (a : ForkAct) : Option Forks := do
  let c ← s.kernel.curenv
  match a with
  | .access cause va w tf => s.access cow c cause va w tf
  | .fork =>
    match s.prog c, s.handler c with
    | .running, none => some (s.fork cow c)
    | _, _ => none
  | .next =>
    match s.handler c with
    | some h => s.cowEntry c h
    | none => s.forkStep cow c (s.prog c)
  | .sysYield => do
    let (_, s) ← s.call Kernel.sysYield
    some s
  | .tick => do
    let (_, s) ← s.call Kernel.tick
    some s

end Forks

end RiscvMos
