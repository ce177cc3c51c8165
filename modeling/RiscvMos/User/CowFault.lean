import RiscvMos.User.Fork

/-!
A copy-on-write fault from the trap to the instruction after it: `handle_exception`,
`cow_entry` with its four system calls, and the way back by `syscall_set_trapframe`. What
the compiled code of `cow_entry` stores on its stack, and what is in the registers at an
`ecall`, are parameters.
-/

namespace RiscvMos

/-- A store to word `i` of the exception stack, below the trap frame; `regs` is what a
trap of it saves. -/
structure Push where
  i : Fin 471
  w : Nat
  regs : Trapframe

/-- The compiled code of `cow_entry` and of what it calls: the stores to the stack from
the prologue on, before a system call and before a word of `memcpy`, and the registers at
each `ecall`. -/
structure CowCode where
  prologue : Push
  looked : List Push
  word : Nat → List Push
  copied : List Push
  mapped : List Push
  unmapped : List Push
  regs : Fin 4 → Trapframe

namespace Trapframe

def stval : Fin 40 := 37

/-- The arguments of `msyscall`. -/
def args (tf : Trapframe) (no arg1 arg2 arg3 arg4 arg5 : Nat) : Trapframe :=
  (((((tf.set 10 no).set 11 arg1).set 12 arg2).set 13 arg3).set 14 arg4).set 15 arg5

end Trapframe

/-- The address of word `i` of the exception stack. -/
def uxword (i : Nat) : Nat := uxstacktop - 4096 + 8 * i

namespace Machine

/-- A store of the handler, made again after a fault. One that faults each time, or that
enters the handler again, is not followed. -/
def push (m : Machine) (c : EnvIdx) (x : Push) : Option Machine := do
  let store (m : Machine) := (m.access .store (uxword x.i) x.w x.regs).toOption
  match m.kernel.pmap.translate c .store (uxword x.i) with
  | some _ => store m
  | none => do
    let m ← store m
    let _ ← m.kernel.pmap.translate c .store (uxword x.i)
    store m

def pushes (m : Machine) (c : EnvIdx) (xs : List Push) : Option Machine :=
  xs.foldlM (fun m x => m.push c x) m

/-- A word that the handler loads from the exception stack. -/
def loadWord (m : Machine) (c : EnvIdx) (va : Nat) : Option Nat := do
  let p ← m.kernel.pmap.translate c .load va
  some (m.kernel.pmap.mem p (Pmap.wordIdx va))

/-- `msyscall`. -/
def ecall (m : Machine) (dev : Devices) (regs : Trapframe) (no arg1 arg2 arg3 arg4 arg5 : Nat) :
    Option Machine :=
  ({ m with kstack := regs.args no arg1 arg2 arg3 arg4 arg5 }.doSyscall dev).toOption

/-- What a wrapper of `msyscall` returns. -/
def result (m : Machine) : Int := uIntToInt (uInt (m.kstack 10))

/-- The first `n` words of `memcpy((void *)UCOW, (void *)ROUNDDOWN(va, PAGE_SIZE), PAGE_SIZE)`. -/
def copyWords (m : Machine) (c : EnvIdx) (code : CowCode) (va : Nat) : Nat → Option Machine
  | 0 => some m
  | n + 1 => do
    let m ← m.copyWords c code va n
    let m ← m.pushes c (code.word n)
    let s ← Forks.copyWord m.kernel.pmap c va n
    some { m with kernel := { m.kernel with pmap := s } }

/-- `cow_entry`; `user_panic` does not come back. -/
def cowEntry (m : Machine) (dev : Devices) (c : EnvIdx) (code : CowCode) : Option Machine := do
  let tf := m.kstack 10
  let m ← m.push c code.prologue
  let va ← m.loadWord c (tf + 8 * Trapframe.stval)
  let pte ← m.kernel.pmap.pt0 c (va >>> 12)
  let perm := pte &&& ptePerm
  if perm &&& pteCow = 0 then none
  else do
    let perm := Forks.ownPerm perm
    let m ← m.pushes c code.looked
    let m ← m.ecall dev (code.regs 0) 6 0 ucow perm 0 0
    if m.result < 0 then none
    else do
      let m ← m.copyWords c code va 1024
      let m ← m.pushes c code.copied
      let m ← m.ecall dev (code.regs 1) 7 0 ucow 0 va perm
      if m.result < 0 then none
      else do
        let m ← m.pushes c code.mapped
        let m ← m.ecall dev (code.regs 2) 8 0 ucow 0 0 0
        let m ← m.pushes c code.unmapped
        m.ecall dev (code.regs 3) 11 0 tf 0 0 0

/-- A store faults with the context `tf`, in an env whose handler is `cow_entry`, at `cow`. -/
def cowFault (m : Machine) (dev : Devices) (cow : Nat) (code : CowCode) (tf : Trapframe) :
    Option Machine := do
  let c ← m.kernel.curenv
  let (r, k) ← (m.kernel.handleException .store (tf Trapframe.stval) tf).toOption
  match r with
  | .retry => none
  | .entry pc =>
    if pc = cow then
      ({ m with kernel := k, kstack := resume tf (.entry pc) }.ret).cowEntry dev c code
    else none

end Machine

end RiscvMos
