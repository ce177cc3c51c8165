import RiscvMos.Env.FaultSafe

/-!
The system calls that follow an address the user passed: `sys_print_cons`,
`sys_set_trapframe`, `sys_read_sector`, `sys_write_sector` and `sys_panic` of
`kern/syscall_all.c`. Each translates the address with `get_pa` and then uses
the physical address. A call is modelled with the bytes it touches; what it
prints, and what becomes of the sector it writes, is left out.
-/

namespace RiscvMos

/-- A value of type `u_long`. -/
def uLong (n : Nat) : Nat := n % 2 ^ 64

/-- A difference of type `u_long`. -/
def uLongSub (a b : Nat) : Nat := uLong (a + (2 ^ 64 - b))

/-- A byte that a call reads or writes, and memory at that time. -/
structure Touch where
  pmap : Pmap EnvIdx
  pa : Nat

/-- The bytes from `pa` on. -/
def touches (s : Pmap EnvIdx) (pa n : Nat) : List Touch :=
  (List.range n).map fun i => ⟨s, uLong (pa + i)⟩

/-- The bytes a call touches, and how it ends. -/
structure Ran where
  touched : List Touch
  result : Except Halt (Int × Kernel)

/-- A byte of physical memory. -/
def Pmap.byteAt {D : Type} (s : Pmap D) (pa : Nat) : Nat :=
  (s.mem (pa / 4096) ⟨pa % 4096 / 8, by omega⟩ >>> (8 * (pa % 8))) % 256

/-- A word with byte `j` replaced. -/
def setByte (w j b : Nat) : Nat := w - (w >>> (8 * j)) % 256 * 256 ^ j + b * 256 ^ j

def Pmap.storeByte {D : Type} (s : Pmap D) (pa b : Nat) : Pmap D :=
  let i : Vpn := ⟨pa % 4096 / 8, by omega⟩
  s.setPte (pa / 4096) i (setByte (s.mem (pa / 4096) i) (pa % 8) b)

/-- `memcpy` of `n` bytes of `data` from `off` on. -/
def Pmap.copyTo {D : Type} (s : Pmap D) (pa : Nat) (data : Nat → Nat) (off n : Nat) : Pmap D :=
  (List.range n).foldl (fun s i => s.storeByte (uLong (pa + i)) (data (off + i))) s

/-- `is_illegal_va_range`. -/
def isIllegalVaRange (va len : Nat) : Prop :=
  len ≠ 0 ∧ (uLong (va + len) < va ∨ va < utemp ∨ utop < uLong (va + len))

instance (va len : Nat) : Decidable (isIllegalVaRange va len) := inferInstanceAs (Decidable (_ ∧ _))

/-- `TRUP`. -/
def trup (p : Nat) : Nat := if ulim < uInt p then ulim else p

namespace Kernel

/-- `if (!is_mapped_page(&cur_pgdir, va)) alloc…(va, PTE_R | PTE_W | PTE_U)`; the
code is ignored. -/
def demandPage (k : Kernel) (c : EnvIdx)
    (alloc : Pmap EnvIdx → EnvIdx → Nat → Nat → Except Halt (Reply EnvIdx)) (va : Nat) :
    Except Halt Kernel :=
  if k.pmap.isMappedPage c va = true then .ok k
  else do
    let (_, s) ← alloc k.pmap c va demandPerm
    .ok { k with pmap := s }

/-- The `while (num >= PAGE_SIZE)` loop of `sys_print_cons`. -/
def printPages (c : EnvIdx) : Nat → Kernel → Nat → List Touch × Except Halt Kernel
  | 0, k, _ => ([], .ok k)
  | n + 1, k, s =>
    match k.demandPage c Pmap.allocPageUser s with
    | .error e => ([], .error e)
    | .ok k =>
      let rest := printPages c n k (uLong (s + 4096))
      (touches k.pmap (k.pmap.getPa c s) 4096 ++ rest.1, rest.2)

/-- The last `num` bytes that `sys_print_cons` prints. -/
def printRest (c : EnvIdx) (k : Kernel) (s num : Nat) : Ran :=
  if num = 0 then ⟨[], .ok (0, k)⟩
  else match k.demandPage c Pmap.allocPageUser s with
    | .error e => ⟨[], .error e⟩
    | .ok k => ⟨touches k.pmap (k.pmap.getPa c s) num, .ok (0, k)⟩

/-- The `num` bytes at `s` that `sys_print_cons` prints page by page. -/
def printLong (c : EnvIdx) (k : Kernel) (s num : Nat) : Ran :=
  match (printPages c (num / 4096) k s).2 with
  | .error e => ⟨(printPages c (num / 4096) k s).1, .error e⟩
  | .ok k' =>
    let last := printRest c k' (uLong (s + num / 4096 * 4096)) (num % 4096)
    ⟨(printPages c (num / 4096) k s).1 ++ last.touched, last.result⟩

def sysPrintCons (k : Kernel) (c : EnvIdx) (s num : Nat) : Ran :=
  if uLong (k.pmap.getPa c s + num) < k.pmap.getPa c s then ⟨[], .ok (-eInval, k)⟩
  else if s / 4096 = uLong (s + num) / 4096 then ⟨touches k.pmap (k.pmap.getPa c s) num, .ok (0, k)⟩
  else
    -- `remain` is `s % PAGE_SIZE`
    let rest := printLong c k (uLong (s + s % 4096)) (uLongSub num (s % 4096))
    ⟨touches k.pmap (k.pmap.getPa c s) (s % 4096) ++ rest.touched, rest.result⟩

/-- `struct Trapframe` at a physical address. -/
def trapframeAt (s : Pmap EnvIdx) (pa : Nat) : Trapframe := fun i =>
  (List.range 8).foldl (fun w j => w + s.byteAt (uLong (pa + (8 * i + j))) * 256 ^ j) 0

/-- `sys_set_trapframe` up to the assignment: a code, or whose frame is set and
to what. -/
def setTrapframe (k : Kernel) (c : EnvIdx) (envid tf : Nat) : Except Int (EnvIdx × Nat) :=
  if isIllegalVaRange tf 320 then .error (-eInval)
  else
    let pa := k.pmap.getPa c tf
    match k.envid2env c envid (k.envs c).envId with
    | .error r => .error r
    | .ok e => .ok (e, pa)

/-- The assigned frame is no part of this state. -/
def sysSetTrapframe (k : Kernel) (c : EnvIdx) (envid tf : Nat) : Ran :=
  match k.setTrapframe c envid tf with
  | .error r => ⟨[], .ok (r, k)⟩
  | .ok (e, pa) =>
    ⟨touches k.pmap pa 320,
      .ok (if e = c then uIntToInt (uInt (trapframeAt k.pmap pa 10)) else 0, k)⟩

/-- The one or two pieces in which a sector is copied: physical address, offset
in the sector and length. -/
def sectorPieces (k : Kernel) (c : EnvIdx) (va : Nat) :
    Except Halt (Kernel × List (Nat × Nat × Nat)) := do
  let k ← k.demandPage c Pmap.allocPage va
  let pa := k.pmap.getPa c va
  if va / 4096 ≠ uLong (va + 511) / 4096 then
    let offset := va / 4096 * 4096 + 4096 - va
    let k ← k.demandPage c Pmap.allocPage (uLong (va + 512))
    let paEnd := k.pmap.getPa c (uLong (va + 512))
    .ok (k, [(pa, 0, offset), (uLongSub paEnd (512 - offset), offset, 512 - offset)])
  else .ok (k, [(pa, 0, 512)])

/-- `sys_read_sector`; `disk` is what the device returns, if its status is 0. -/
def sysReadSector (k : Kernel) (c : EnvIdx) (disk : Nat → Option (Nat → Nat))
    (va sector : Nat) : Ran :=
  match k.sectorPieces c va with
  | .error e => ⟨[], .error e⟩
  | .ok (k, ps) =>
    let touched := ps.flatMap fun p => touches k.pmap p.1 p.2.2
    match disk sector with
    | none => ⟨touched, .error (.panic "Write sector failed!")⟩
    | some data =>
      ⟨touched, .ok (0, { k with
        pmap := ps.foldl (fun s p => s.copyTo p.1 data p.2.1 p.2.2) k.pmap })⟩

/-- `sys_write_sector`; `ok` is whether the device's status is 0. -/
def sysWriteSector (k : Kernel) (c : EnvIdx) (ok : Bool) (va : Nat) : Ran :=
  match k.sectorPieces c va with
  | .error e => ⟨[], .error e⟩
  | .ok (k, ps) =>
    ⟨ps.flatMap fun p => touches k.pmap p.1 p.2.2,
      if ok then .ok (0, k) else .error (.panic "Write sector failed!")⟩

/-- The bytes of a string up to its end, at most `n`. -/
def stringTouches (s : Pmap EnvIdx) : Nat → Nat → List Touch
  | 0, _ => []
  | n + 1, pa => ⟨s, pa⟩ :: if s.byteAt pa = 0 then [] else stringTouches s n (uLong (pa + 1))

def sysPanic (k : Kernel) (c : EnvIdx) (msg : Nat) : Ran :=
  ⟨stringTouches k.pmap (2 ^ 64) (trup (k.pmap.getPa c msg)), .error (.panic "%s")⟩

end Kernel

end RiscvMos
