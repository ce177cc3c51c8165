import RiscvMos.User.CowProgress
import RiscvMos.User.ForkRuns
import RiscvMos.Env.Restored

/-!
A store that faults on a copy-on-write page goes unseen, unless `a0` is no `int`, the page is
at `UCOW`, or the handler has its stack on it.
-/

namespace RiscvMos.Machine

open Pmap Forks

/-- Env 0 after its `fork`; its page at `0x400000` is shared with the child. -/
def forkedMachine : Machine where
  kernel := (loneFinishing.after .next).kernel
  kstack := fun _ => 0
  envTf := fun _ _ => 0
  restored := none

/-- Each register has a value of its own; the store is to `0x400008`. -/
def storeFrame (a0 : Nat) : Trapframe := fun i =>
  if i = 10 then a0 else if i = Trapframe.stval then 0x400008 else 0x1000 + i

/-- A handler that saves two registers and counts the words. -/
def plainCode : CowCode where
  prologue := ⟨460, 0x1002, storeFrame 0⟩
  looked := [⟨459, 0x400008, storeFrame 0⟩]
  word n := [⟨450, n, storeFrame 0⟩]
  copied := [⟨459, 0, storeFrame 0⟩]
  mapped := []
  unmapped := []
  regs _ := storeFrame 0

theorem forkedMachine_kernel : forkedMachine.kernel = (loneFinishing.after .next).kernel := by
  simp only [forkedMachine]

theorem forkedMachine_page : forkedMachine.kernel.pmap.translate 0 .store 0x400008 = none ∧
    forkedMachine.kernel.pmap.isMappedPage 0 0x400008 = true ∧
    forkedMachine.kernel.pmap.getPerm 0 0x400008 &&& pteCow ≠ 0 ∧
    permits (forkedMachine.kernel.pmap.getPerm 0 0x400008) .load ∧
    forkedMachine.kernel.pmap.isMappedPage 0 uxframe = false ∧
    18 ≤ forkedMachine.kernel.pmap.pageFreeList.length ∧
    (forkedMachine.kernel.envs 0).envUserTlbModEntry = entryAddr := by
  rw [forkedMachine_kernel]
  decide +kernel

theorem storeFrame_stval (a0 : Nat) : storeFrame a0 Trapframe.stval = 0x400008 := rfl

theorem forkedMachine_faults (a0 : Nat) (small : a0 < 2 ^ 64) :
    Faults (· ∈ somePages) Kernel.kernelPte1 Kernel.kernelPte0 0 (storeFrame a0) forkedMachine := by
  obtain ⟨refused, mapped, cow, -⟩ := forkedMachine_page
  have words (i : Fin 40) : storeFrame a0 i < 2 ^ 64 := by
    have := i.isLt
    unfold storeFrame
    split
    · exact small
    · split <;> omega
  refine ⟨⟨?_, ?_⟩, words, refused, mapped, cow⟩
  · rw [forkedMachine_kernel]
    exact lone_stores.1.inv.secure
  · rw [forkedMachine_kernel]
    exact lone_stores.1.current

theorem forkedMachine_roomy (a0 : Nat) :
    Roomy 0 entryAddr (storeFrame a0) forkedMachine.kernel := by
  obtain ⟨-, -, -, read, none_, many, entry⟩ := forkedMachine_page
  refine ⟨entry, ?_, ?_, ?_, read, fun mapped => ?_, many⟩
  · rw [forkedMachine_kernel]
    exact lone_stores.1.mirrored
  · rw [storeFrame_stval]
    decide
  · rw [storeFrame_stval]
    decide
  · cases none_.symm.trans mapped

theorem forkedMachine_unseen {a0 : Nat} (register : a0 < 2 ^ 31 ∨ 2 ^ 64 - 2 ^ 31 ≤ a0) :
    Unseen 0 plainCode (storeFrame a0) forkedMachine.kernel.pmap := by
  obtain ⟨-, -, -, -, none_, -⟩ := forkedMachine_page
  refine ⟨register, ?_, fun mapped => ?_⟩
  · rw [storeFrame_stval]
    decide
  · cases none_.symm.trans mapped

/-- For every context and every memory: each run of the handler that comes to its end is
transparent exactly if the context and the place of the page let it be, and with room there
is one. -/
theorem cow_fault_transparent_iff {M K1 K0 : Nat → Prop} {c : EnvIdx} {m : Machine}
    {tf : Trapframe} (h : Faults M K1 K0 c tf m) (dev : Devices) (cow : Nat) (code : CowCode) :
    (∀ m', m.cowFault dev cow code tf = some m' →
      (Transparent c tf m m' ↔ Unseen c code tf m.kernel.pmap)) ∧
      (Roomy c cow tf m.kernel → ∃ m', m.cowFault dev cow code tf = some m') :=
  ⟨fun _ out => h.transparent out, fun room => h.comesBack dev room⟩

theorem cow_fault_transparent_iff_int : ∃ m',
    forkedMachine.cowFault noDevices entryAddr plainCode (storeFrame (2 ^ 64 - 10)) = some m' ∧
      Transparent 0 (storeFrame (2 ^ 64 - 10)) forkedMachine m' := by
  obtain ⟨exact_, comes⟩ := cow_fault_transparent_iff
    (forkedMachine_faults (2 ^ 64 - 10) (by decide)) noDevices entryAddr plainCode
  obtain ⟨m', out⟩ := comes (forkedMachine_roomy (2 ^ 64 - 10))
  exact ⟨m', out, (exact_ m' out).mpr (forkedMachine_unseen (.inr (by decide)))⟩

/-- `a0` comes back as the `int` that `sys_set_trapframe` returns: 0 for 2³². -/
theorem cow_fault_loses_register :
    Faults (· ∈ somePages) Kernel.kernelPte1 Kernel.kernelPte0 0 (storeFrame (2 ^ 32))
      forkedMachine ∧
    Roomy 0 entryAddr (storeFrame (2 ^ 32)) forkedMachine.kernel ∧
    ∃ m', forkedMachine.cowFault noDevices entryAddr plainCode (storeFrame (2 ^ 32)) = some m' ∧
      (m'.restored.map fun f => f 10) = some 0 ∧
      ¬ Transparent 0 (storeFrame (2 ^ 32)) forkedMachine m' := by
  have faults := forkedMachine_faults (2 ^ 32) (by decide)
  have room := forkedMachine_roomy (2 ^ 32)
  obtain ⟨m', out⟩ := faults.comesBack noDevices room
  obtain ⟨p, m₁, -, -, served⟩ := faults.served out
  refine ⟨faults, room, m', out, ?_, fun same => ?_⟩
  · rw [served.restored]
    rfl
  · have register := ((faults.transparent out).mp same).register
    have wide : ¬ (storeFrame (2 ^ 32) 10 < 2 ^ 31 ∨ 2 ^ 64 - 2 ^ 31 ≤ storeFrame (2 ^ 32) 10) := by
      decide
    exact wide register

end RiscvMos.Machine
