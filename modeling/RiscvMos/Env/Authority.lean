import RiscvMos.Env.Known

/-!
Who may name whom: the seven system calls that act on an env by its id look the
id up with `envid2env`, and each passes its own `checkperm`. Six pass the id of
`curenv`, which lets a parent name its children; `sys_env_destroy` passes 1.
-/

namespace RiscvMos

inductive EnvCall where
  | envDestroy (envid : Nat)
  | setTlbModEntry (envid func : Nat)
  | memAlloc (envid va perm : Nat)
  | memMap (srcid srcva dstid dstva perm : Nat)
  | memUnmap (envid va : Nat)
  | setEnvStatus (envid status : Nat)
  | setTrapframe (envid tf : Nat)

namespace EnvCall

/-- The row of `syscall_table`. -/
def run (m : Machine) : EnvCall → Except Halt Outcome
  | envDestroy envid => m.sysEnvDestroy envid
  | setTlbModEntry envid func => m.plain (Machine.sysSetTlbModEntry m.kernel envid func)
  | memAlloc envid va perm => m.plain (m.kernel.sysMemAlloc envid va perm)
  | memMap srcid srcva dstid dstva perm => m.plain (m.kernel.sysMemMap srcid srcva dstid dstva perm)
  | memUnmap envid va => m.plain (m.kernel.sysMemUnmap envid va)
  | setEnvStatus envid status => m.plain (m.kernel.sysSetEnvStatus envid status)
  | setTrapframe envid tf => m.sysSetTrapframe envid tf

/-- The ids it looks up. -/
def envids : EnvCall → List Nat
  | memMap srcid _ dstid _ _ => [srcid, dstid]
  | envDestroy envid | setTlbModEntry envid _ | memAlloc envid _ _ | memUnmap envid _
  | setEnvStatus envid _ | setTrapframe envid _ => [envid]

/-- What it passes to `envid2env`. -/
def checkperm (k : Kernel) (cur : EnvIdx) : EnvCall → Nat
  | envDestroy _ => 1
  | _ => (k.envs cur).envId

/-- Its other arguments are refused before it looks up an id. -/
def Refused : EnvCall → Prop
  | memAlloc _ va _ | memUnmap _ va => isIllegalVa va
  | memMap _ srcva _ dstva _ => isIllegalVa srcva ∨ isIllegalVa dstva
  | setEnvStatus _ status => Kernel.settableStatus status = none
  | setTrapframe _ tf => isIllegalVaRange tf 320
  | envDestroy _ | setTlbModEntry _ _ => False

/-- The rows are those of the table. -/
theorem run_call (m : Machine) (dev : Devices) (c : EnvCall) :
    ∃ sysno arg1 arg2 arg3 arg4 arg5, c.run m = m.call dev sysno arg1 arg2 arg3 arg4 arg5 := by
  cases c with
  | envDestroy envid => exact ⟨4, envid, 0, 0, 0, 0, rfl⟩
  | setTlbModEntry envid func => exact ⟨5, envid, func, 0, 0, 0, rfl⟩
  | memAlloc envid va perm => exact ⟨6, envid, va, perm, 0, 0, rfl⟩
  | memMap srcid srcva dstid dstva perm => exact ⟨7, srcid, srcva, dstid, dstva, perm, rfl⟩
  | memUnmap envid va => exact ⟨8, envid, va, 0, 0, 0, rfl⟩
  | setEnvStatus envid status => exact ⟨10, envid, status, 0, 0, 0, rfl⟩
  | setTrapframe envid tf => exact ⟨11, envid, tf, 0, 0, 0, rfl⟩

end EnvCall

namespace Kernel

/-- The id names an env that is not free and whose parent is `cur`. -/
def NamesChild (k : Kernel) (cur : EnvIdx) (envid : Nat) (e : EnvIdx) : Prop :=
  (k.envs e).envStatus ≠ .free ∧ (k.envs e).envId = uInt envid ∧
    (k.envs e).envParentId = (k.envs cur).envId

/-- `cur` may act on the env: it is itself, or its immediate child. -/
def Authorized (k : Kernel) (cur : EnvIdx) (envid : Nat) : Prop :=
  uInt envid = 0 ∨ uInt envid = (k.envs cur).envId ∨ ∃ e, k.NamesChild cur envid e

section
variable {k : Kernel} {cur e : EnvIdx} {envid checkperm : Nat}

/-- `envid2env` with the check of permission. -/
theorem Known.envid2env_iff (h : Known k) (hc : k.curenv = some cur) (hp : checkperm ≠ 0) :
    (∃ e, k.envid2env cur envid checkperm = .ok e) ↔
    uInt envid = 0 ∨ uInt envid = (k.envs cur).envId ∨
      ∃ e, (k.envs e).envStatus ≠ .free ∧ (k.envs e).envId = uInt envid ∧
      (k.envs e).envParentId = checkperm := by
  by_cases h0 : uInt envid = 0
  · unfold envid2env
    dsimp only
    rw [if_pos h0]
    exact iff_of_true ⟨cur, rfl⟩ (.inl h0)
  have hindex : ∀ x, (k.envs x).envId = uInt envid →
      (⟨uInt envid % 1024, Nat.mod_lt _ (by decide)⟩ : EnvIdx) = x := by
    intro x hx
    apply Fin.ext
    rw [← hx]
    exact h.ids.index (by rw [hx]; exact h0)
  unfold envid2env
  dsimp only
  rw [if_neg h0]
  constructor
  · rintro ⟨e, he⟩
    right
    split at he
    · cases he
    rename_i hok
    rw [not_or, not_not] at hok
    split at he
    · cases he
    rename_i hperm
    obtain hown := not_not.mp fun hn => hperm ⟨hp, hn⟩
    cases hown with
    | inl heq =>
      left
      rw [← hok.2, heq]
    | inr hpar => exact .inr ⟨_, hok.1, hok.2, hpar⟩
  · intro hname
    rcases hname with hz | hself | ⟨e, hst, hid, hpar⟩
    · exact absurd hz h0
    · have hidx := hindex cur hself.symm
      refine ⟨cur, ?_⟩
      rw [hidx, if_neg, if_neg]
      · simp
      · rw [not_or, not_not]
        exact ⟨h.cur cur hc, hself.symm⟩
    · have hidx := hindex e hid
      refine ⟨e, ?_⟩
      rw [hidx, if_neg, if_neg]
      · simp [hpar]
      · rw [not_or, not_not]
        exact ⟨hst, hid⟩

end

end Kernel

namespace Machine

open Kernel (Known)
open Pmap (boot somePages)

/-- The lookups of the call succeed for those `cur` may name, and one that fails
is the end of the call: it changes nothing. -/
def Uniform (m : Machine) (cur : EnvIdx) (c : EnvCall) : Prop :=
  (∀ envid ∈ c.envids,
    (∃ e, m.kernel.envid2env cur envid (c.checkperm m.kernel cur) = .ok e) ↔
    m.kernel.Authorized cur envid) ∧
  ((∃ envid ∈ c.envids, ¬ m.kernel.Authorized cur envid) →
    (c.Refused → c.run m = .ok (some (-eInval), m)) ∧
    (¬ c.Refused → c.run m = .ok (some (-eBadEnv), m)))

section
variable {m : Machine} {cur : EnvIdx} {c : EnvCall}

theorem byCurenv_eq {k : Kernel} {f : EnvIdx → Except Halt (Int × Kernel)}
    (hc : k.curenv = some cur) :
    k.byCurenv f = f cur := by
  unfold Kernel.byCurenv
  rw [hc]

end

/-- The frame of `ecall` with `sys_exofork()`. -/
def forkFrame : Trapframe := fun i => if i = 10 then 9 else if i = 35 then 0x81000000 else 0

/-- An env with a child. -/
def forked : Machine := (frameEnv 0 0x81000000).after (.syscall noDevices forkFrame)

end Machine

end RiscvMos
