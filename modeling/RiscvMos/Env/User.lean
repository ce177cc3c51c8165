import RiscvMos.Env.Fault
import RiscvMos.Pmap.Shared

/-!
What user code does to memory: the accesses the hardware lets it make, the
faults of those it does not, and the system calls on memory. The walk is that
of Sv39, with pages at the last level only; the accessed and dirty bits are
left out.
-/

namespace RiscvMos

/-- Bits 63 to 39 of an Sv39 address repeat bit 38. -/
def canonical (va : Nat) : Prop := va < 2 ^ 38 ∨ (2 ^ 64 - 2 ^ 38 ≤ va ∧ va < 2 ^ 64)

instance (va : Nat) : Decidable (canonical va) := inferInstanceAs (Decidable (_ ∨ _))

/-- The entry `pte` lets user code make the access. A page that is writable but
not readable is reserved, and faults. -/
def permits (pte : Nat) (cause : Fault) : Prop :=
  pte &&& pteU ≠ 0 ∧ match cause with
    | .fetch => pte &&& pteX ≠ 0
    | .load => pte &&& pteR ≠ 0
    | .store => pte &&& pteR ≠ 0 ∧ pte &&& pteW ≠ 0

instance (pte : Nat) : (cause : Fault) → Decidable (permits pte cause)
  | .fetch => inferInstanceAs (Decidable (_ ∧ _))
  | .load => inferInstanceAs (Decidable (_ ∧ _))
  | .store => inferInstanceAs (Decidable (_ ∧ _ ∧ _))

namespace Pmap

variable {D : Type}

/-- The page an access to `va` in `d` goes to, if it does not fault. -/
def translate (s : Pmap D) (d : D) (cause : Fault) (va : Nat) : Option Nat :=
  if canonical va then
    match s.leafPte (s.pgdir d >>> 12) va with
    | some pte => if permits pte cause then some (ptePage pte) else none
    | none => none
  else none

/-- The index of the doubleword at `va` in its page. -/
def wordIdx (va : Nat) : Vpn := ⟨(va >>> 3) &&& 0x1FF, and_mask_lt _⟩

/-- A store to the doubleword at `va`, which leaves `w` there. -/
def storeWord (s : Pmap D) (p va w : Nat) : Pmap D := s.setPte p (wordIdx va) w

end Pmap

namespace Kernel

/-- An access by `curenv`; `w` is what a store leaves in memory, `tf` what the
trap of a fault saves. After a fault the instruction is tried again. -/
def access (k : Kernel) (cause : Fault) (va w : Nat) (tf : Trapframe) : Except Halt Kernel :=
  match k.curenv with
  | none => .error .null
  | some cur =>
    match k.pmap.translate cur cause va with
    | some p => .ok (if cause = .store then { k with pmap := k.pmap.storeWord p va w } else k)
    | none => do
      let (_, k) ← k.handleException cause va tf
      .ok k

/-- A step of user code, or a turn of the scheduler. -/
inductive Act where
  | access (cause : Fault) (va w : Nat) (tf : Trapframe)
  | sysMemAlloc (envid va perm : Nat)
  | sysMemMap (srcid srcva dstid dstva perm : Nat)
  | sysMemUnmap (envid va : Nat)
  | sysYield
  | tick

def act (k : Kernel) : Act → Except Halt (Int × Kernel)
  | .access cause va w tf => do
    let k ← k.access cause va w tf
    .ok (0, k)
  | .sysMemAlloc envid va perm => k.sysMemAlloc envid va perm
  | .sysMemMap srcid srcva dstid dstva perm => k.sysMemMap srcid srcva dstid dstva perm
  | .sysMemUnmap envid va => k.sysMemUnmap envid va
  | .sysYield => k.sysYield
  | .tick => k.tick

end Kernel

end RiscvMos
