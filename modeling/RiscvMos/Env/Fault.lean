import RiscvMos.Env.Syscalls
import RiscvMos.Lib.Except

/-!
`handle_exception` of `kern/exception.c` for page faults: permission upgrades,
the way into the user's copy-on-write handler, and demand paging. The trap
frame is a parameter; of the registers only the address to go on from is kept.
-/

namespace RiscvMos

/-- The page faults: `scause` 12, 13 and 15. -/
inductive Fault where
  | fetch
  | load
  | store
  deriving DecidableEq, Repr

/-- `struct Trapframe`: 32 registers and 8 control registers. -/
abbrev Trapframe := Fin 40 → Nat

/-- How a fault handler goes back to user mode. -/
inductive Resume where
  /-- At the faulting instruction. -/
  | retry
  /-- At `env_user_tlb_mod_entry`. -/
  | entry (pc : Nat)
  deriving DecidableEq, Repr

def kstacktop : Nat := 0x81000000

/-- `(struct Trapframe *)KSTACKTOP - 1`. -/
def kstackFrame : Nat := kstacktop - 320

/-- `UXSTACKTOP - sizeof(struct Trapframe) - sizeof(u_long)`. -/
def uxframe : Nat := uxstacktop - 320 - 8

/-- The permission of a demand-zero page. -/
def demandPerm : Nat := pteR ||| pteW ||| pteU

namespace Pmap

variable {D : Type} [DecidableEq D]

/-- The last 41 words of the exception stack: the address of the trap frame and
a copy of it. -/
def frameWords (tf : Trapframe) (old : Vpn → Nat) (i : Vpn) : Nat :=
  if i.val < 471 then old i
  else if i.val = 471 then kstackFrame
  else tf ⟨i.val - 472, by have := i.isLt; omega⟩

/-- The two stores to the exception stack. If it could not be allocated the
address is -1. -/
def storeFrame (s : Pmap D) (d : D) (tf : Trapframe) : Except Halt (Pmap D) :=
  let p := s.getPa d uxframe >>> 12
  if inRam p then .ok { s with mem := Function.update s.mem p (frameWords tf (s.mem p)) }
  else .error .wild

/-- Allocate the exception stack if it is not there, and push the trap frame. -/
def enterCow (s : Pmap D) (d : D) (tf : Trapframe) : Except Halt (Pmap D) :=
  if s.isMappedPage d uxframe = false then do
    let (_, s) ← s.allocPageUser d uxframe demandPerm
    s.storeFrame d tf
  else s.storeFrame d tf

/-- The page-fault branch of `handle_exception` on `cur_pgdir`; the bool says
whether it goes on in the user's handler. The codes of the calls are ignored. -/
def handleFault (s : Pmap D) (d : D) (cause : Fault) (tval : Nat) (tf : Trapframe) :
    Except Halt (Bool × Pmap D) :=
  if tval < 0x3000 ∨ 0x200000000 ≤ tval then .error (.panic "virtual memory out of range")
  else if s.isMappedPage d tval = true then
    if cause = .fetch then do
      let (_, s) ← s.mapPage d tval (s.getPa d tval) (s.getPerm d tval ||| pteX)
      .ok (false, s)
    else if s.getPerm d tval &&& pteCow ≠ 0 then do
      let s ← s.enterCow d tf
      .ok (true, s)
    else if cause = .store then do
      let (_, s) ← s.mapPage d tval (s.getPa d tval) (s.getPerm d tval ||| pteW)
      .ok (false, s)
    else demand s
  else demand s
where
  demand (s : Pmap D) : Except Halt (Bool × Pmap D) := do
    let (_, s) ← s.allocPageUser d tval demandPerm
    .ok (false, s)

end Pmap

namespace Kernel

/-- `handle_exception` for a page fault of `curenv`. -/
def handleException (k : Kernel) (cause : Fault) (tval : Nat) (tf : Trapframe) :
    Except Halt (Resume × Kernel) :=
  match k.curenv with
  | none => .error .null
  | some cur => do
    let (cow, s) ← k.pmap.handleFault cur cause tval tf
    .ok (if cow = true then .entry (k.envs cur).envUserTlbModEntry
      else .retry, { k with pmap := s })

theorem handleException_ok {k k' : Kernel} {cause : Fault} {tval : Nat}
    {tf : Trapframe} {r : Resume} (h : k.handleException cause tval tf = .ok (r, k')) :
    ∃ cur cow s, k.curenv = some cur ∧ k.pmap.handleFault cur cause tval tf = .ok (cow, s) ∧
      k' = { k with pmap := s } := by
  unfold handleException at h
  split at h
  · cases h
  · rename_i cur hcur
    obtain ⟨⟨cow, s⟩, hf, h⟩ := Except.bind_ok_iff.mp h
    obtain ⟨-, rfl⟩ := Prod.mk.inj (Except.ok.inj h)
    exact ⟨cur, cow, s, hcur, hf, rfl⟩

end Kernel

end RiscvMos
