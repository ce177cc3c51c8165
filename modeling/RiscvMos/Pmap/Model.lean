import RiscvMos.Mmu
import Mathlib.Logic.Function.Basic

/-!
`kern/pmap.c`, Sv39 build: the page allocator and the three-level page tables.

Physical memory is a word array per page, so tables and data share it. A page
directory variable (`u_long *pgdir`: an env's `env_pgdir`, `base_pgdir`) is an
element of `D`, and holds the address of its root page, or 0. TLB flushes have
no effect on this state and are left out.
-/

namespace RiscvMos

/-- `E_NO_MEM`. -/
def eNoMem : Int := 4

/-- Ways a kernel call does not return. -/
inductive Halt where
  | panic (msg : String)
  /-- An address outside RAM is used as one inside it: `pa2page`, or a store. -/
  | wild
  /-- A NULL or uninitialised pointer is followed. -/
  | null
  deriving DecidableEq, Repr

structure Pmap (D : Type) where
  /-- The 512 words of each physical page. -/
  mem : Nat → Vpn → Nat
  /-- `pp_ref`, a `u_short`. -/
  ppRef : Nat → Nat
  pageFreeList : List Nat
  pgdir : D → Nat

/-- What a call returns: its code and the state it leaves. -/
abbrev Reply (D : Type) := Int × Pmap D

def page2pa (pp : Nat) : Nat := pp <<< 12

/-- The address of entry `i` of the table in page `t`. -/
def pteAddr (t : Nat) (i : Vpn) : Nat := page2pa t + 8 * i

/-- The pages `map_page` accepts: RAM, or the virtio window. -/
def mappablePa (pa : Nat) : Prop :=
  (kernbase ≤ pa ∧ pa < kernbase + memorySize) ∨ (0x10001000 ≤ pa ∧ pa < 0x10009000)

instance (pa : Nat) : Decidable (mappablePa pa) := inferInstanceAs (Decidable (_ ∨ _))

namespace Pmap

variable {D : Type} [DecidableEq D]

def setPte (s : Pmap D) (t : Nat) (i : Vpn) (pte : Nat) : Pmap D :=
  { s with mem := Function.update s.mem t (Function.update (s.mem t) i pte) }

def setPgdir (s : Pmap D) (d : D) (pa : Nat) : Pmap D :=
  { s with pgdir := Function.update s.pgdir d pa }

/-- `pp->pp_ref++`. -/
def incRef (s : Pmap D) (pp : Nat) : Pmap D :=
  { s with ppRef := Function.update s.ppRef pp ((s.ppRef pp + 1) % 65536) }

/-- `LIST_FIRST` and `LIST_REMOVE` of the free list, and the `memset`. -/
def pageAlloc (s : Pmap D) : Option (Nat × Pmap D) :=
  match s.pageFreeList with
  | [] => none
  | pp :: rest =>
    some (pp, { s with pageFreeList := rest, mem := Function.update s.mem pp fun _ => 0 })

def pageFree (s : Pmap D) (pp : Nat) : Pmap D :=
  { s with pageFreeList := pp :: s.pageFreeList }

/-- `if (--pa2page(pa)->pp_ref == 0) page_free(pa2page(pa))`. -/
def clearRef (s : Pmap D) (pp : Nat) : Except Halt (Pmap D) :=
  if inRam pp then
    let r := (s.ppRef pp + 65535) % 65536
    let s1 : Pmap D := { s with ppRef := Function.update s.ppRef pp r }
    .ok (if r = 0 then s1.pageFree pp else s1)
  else .error .wild

/-- Where the descent from a root page ends. -/
inductive Walk where
  | noPte1 (t2 : Nat)
  | noPte0 (t1 : Nat)
  | pte0 (t0 : Nat)
  deriving DecidableEq, Repr

/-- The nested `if (*pte2 & PTE_V) … if (*pte1 & PTE_V) …` of every function
below, from the root page `t2`. -/
def walk (s : Pmap D) (t2 va : Nat) : Walk :=
  let pte2 := s.mem t2 (vpn2 va)
  if valid pte2 then
    let t1 := ptePage pte2
    let pte1 := s.mem t1 (vpn1 va)
    if valid pte1 then .pte0 (ptePage pte1) else .noPte0 t1
  else .noPte1 t2

/-- `(u_long)-1`. -/
def noAddr : Nat := 2 ^ 64 - 1

def getPa (s : Pmap D) (d : D) (va : Nat) : Nat :=
  match s.walk (s.pgdir d >>> 12) va with
  | .pte0 t0 =>
    let pte0 := s.mem t0 (vpn0 va)
    if valid pte0 then pte2pa pte0 ||| (va &&& pteOffset) else noAddr
  | _ => noAddr

def getPerm (s : Pmap D) (d : D) (va : Nat) : Nat :=
  match s.walk (s.pgdir d >>> 12) va with
  | .pte0 t0 =>
    let pte0 := s.mem t0 (vpn0 va)
    if valid pte0 then pte2perm pte0 else noAddr
  | _ => noAddr

def isMappedPage (s : Pmap D) (d : D) (va : Nat) : Bool :=
  if s.pgdir d = 0 then false
  else match s.walk (s.pgdir d >>> 12) va with
  | .pte0 t0 => decide (valid (s.mem t0 (vpn0 va)))
  | _ => false

/-- `try(page_alloc(&pp)); *pte = PA2PTE(page2pa(pp)) | perm | PTE_V;
pp->pp_ref++` for entry `i` of table `t`; a table entry has no other bits. -/
def allocEntry (s : Pmap D) (t : Nat) (i : Vpn) (perm : Nat) : Option (Nat × Pmap D) :=
  match s.pageAlloc with
  | none => none
  | some (pp, s) => some (pp, (s.setPte t i (mkPte (page2pa pp) perm)).incRef pp)

/-! The labels that `alloc_page`, `map_page`, `alloc_page_user` and
`map_page_user` fall through. `self` is what each label does about the
self-map of the table it made; `map` is the code at the last label. -/

section labels
variable (self : Pmap D → Nat → Nat → Except Halt (Pmap D))
    (map : Pmap D → Nat → Except Halt (Reply D))

def createPte0 (s : Pmap D) (t1 va : Nat) : Except Halt (Reply D) :=
  match s.allocEntry t1 (vpn1 va) 0 with
  | none => .ok (-eNoMem, s)
  | some (t0, s) => do
    let s ← self s (pageTable + (va >>> 9)) (pteAddr t0 (vpn0 va))
    map s t0

def createPte1 (s : Pmap D) (t2 va : Nat) : Except Halt (Reply D) :=
  match s.allocEntry t2 (vpn2 va) 0 with
  | none => .ok (-eNoMem, s)
  | some (t1, s) => do
    let s ← self s (pageTable + (pageTable >>> 9) + (va >>> 18)) (pteAddr t1 (vpn1 va))
    createPte0 self map s t1 va

def createPte2 (s : Pmap D) (d : D) (va : Nat) : Except Halt (Reply D) :=
  match s.pageAlloc with
  | none => .ok (-eNoMem, s)
  | some (pp, s) => do
    let s := (s.setPgdir d (page2pa pp)).incRef pp
    let s ← self s (pageTable + (pageTable >>> 9) + (pageTable >>> 18) + (va >>> 27))
      (pteAddr pp (vpn2 va))
    createPte1 self map s pp va

/-- The descent of the four functions: `found` is the branch that reaches an
existing level-0 table, the others jump to a label. -/
def descend (found : Pmap D → Nat → Except Halt (Reply D)) (s : Pmap D) (d : D) (va : Nat) :
    Except Halt (Reply D) :=
  if s.pgdir d = 0 then createPte2 self map s d va
  else match s.walk (s.pgdir d >>> 12) va with
  | .noPte1 t2 => createPte1 self map s t2 va
  | .noPte0 t1 => createPte0 self map s t1 va
  | .pte0 t0 => found s t0

end labels

/-- `map:` of `alloc_page` and `alloc_page_user`. -/
def allocLeaf (va perm : Nat) (s : Pmap D) (t0 : Nat) : Except Halt (Reply D) :=
  match s.allocEntry t0 (vpn0 va) perm with
  | none => .ok (-eNoMem, s)
  | some (_, s) => .ok (0, s)

/-- The level-0 table is there: drop the old page, if any, and go to `map`. -/
def replaceLeaf (va perm : Nat) (s : Pmap D) (t0 : Nat) : Except Halt (Reply D) :=
  let pte0 := s.mem t0 (vpn0 va)
  if valid pte0 then do
    let s ← s.clearRef (ptePage pte0)
    allocLeaf va perm s t0
  else allocLeaf va perm s t0

/-- `map:` of `map_page` and `map_page_user`. Only RAM has control blocks. -/
def mapLeaf (va pa perm : Nat) (s : Pmap D) (t0 : Nat) : Pmap D :=
  let s := s.setPte t0 (vpn0 va) (mkPte pa perm)
  if kernbase ≤ pa ∧ pa < kernbase + memorySize then s.incRef (pa >>> 12) else s

/-- The level-0 table is there: the same page only changes its permission. -/
def remapLeaf (va pa perm : Nat) (s : Pmap D) (t0 : Nat) : Except Halt (Reply D) :=
  let pte0 := s.mem t0 (vpn0 va)
  if valid pte0 then
    if pte2pa pte0 = pte2pa (pa2pte pa) then .ok (0, s.setPte t0 (vpn0 va) (mkPte pa perm))
    else do
      let s ← s.clearRef (ptePage pte0)
      .ok (0, mapLeaf va pa perm s t0)
  else .ok (0, mapLeaf va pa perm s t0)

def noSelf (s : Pmap D) (_ _ : Nat) : Except Halt (Pmap D) := .ok s

def allocPage (s : Pmap D) (d : D) (va perm : Nat) : Except Halt (Reply D) :=
  if 0x400 ≤ perm then .error (.panic "invalid perm")
  else descend noSelf (allocLeaf va perm) (replaceLeaf va perm) s d va

def mapPage (s : Pmap D) (d : D) (va pa perm : Nat) : Except Halt (Reply D) :=
  if 0x400 ≤ perm then .error (.panic "invalid perm")
  else if ¬ mappablePa pa then .error (.panic "invalid phisical memory")
  else descend noSelf (fun s t0 => .ok (0, mapLeaf va pa perm s t0)) (remapLeaf va pa perm) s d va

/-- The self-map call of the `_user` variants; its result code is ignored. -/
def selfMap (d : D) (s : Pmap D) (va pa : Nat) : Except Halt (Pmap D) := do
  let r ← s.mapPage d va pa (pteR ||| pteU)
  .ok r.2

def allocPageUser (s : Pmap D) (d : D) (va perm : Nat) : Except Halt (Reply D) :=
  if 0x400 ≤ perm then .error (.panic "invalid perm")
  else descend (selfMap d) (allocLeaf va perm) (replaceLeaf va perm) s d va

def mapPageUser (s : Pmap D) (d : D) (va pa perm : Nat) : Except Halt (Reply D) :=
  if 0x400 ≤ perm then .error (.panic "invalid perm")
  else if ¬ mappablePa pa then .error (.panic "invalid phisical memory")
  else descend (selfMap d) (fun s t0 => .ok (0, mapLeaf va pa perm s t0)) (remapLeaf va pa perm)
    s d va

def unmapPage (s : Pmap D) (d : D) (va : Nat) : Except Halt (Reply D) :=
  if kernbase ≤ va ∧ va < kernbase + memorySize then .error (.panic "nyan")
  else if s.pgdir d = 0 then .ok (0, s)
  else match s.walk (s.pgdir d >>> 12) va with
  | .pte0 t0 =>
    let pte0 := s.mem t0 (vpn0 va)
    if valid pte0 then do
      let s ← s.clearRef (ptePage pte0)
      .ok (0, s.setPte t0 (vpn0 va) 0)
    else .ok (0, s)
  | _ => .ok (0, s)

def allocPgdir (s : Pmap D) (d : D) : Except Halt (Reply D) :=
  match s.pageAlloc with
  | none => .ok (-eNoMem, s)
  | some (pp, s) => .ok (0, (s.incRef pp).setPgdir d (page2pa pp))

/-! `destroy_pgdir`, one definition for the body of each of its loops. Every
body reads its table pointer again from the entry above. -/

def destroyPte0 (t1 : Nat) (j : Vpn) (s : Pmap D) (k : Vpn) : Except Halt (Pmap D) :=
  let t0 := ptePage (s.mem t1 j)
  if valid (s.mem t0 k) then do
    let s ← s.clearRef (ptePage (s.mem t0 k))
    .ok (s.setPte t0 k 0)
  else .ok s

def destroyPte1 (t2 : Nat) (i : Vpn) (s : Pmap D) (j : Vpn) : Except Halt (Pmap D) :=
  let t1 := ptePage (s.mem t2 i)
  if valid (s.mem t1 j) then do
    let s ← (List.finRange 512).foldlM (destroyPte0 t1 j) s
    let s ← s.clearRef (ptePage (s.mem t1 j))
    .ok (s.setPte t1 j 0)
  else .ok s

def destroyPte2 (t2 : Nat) (s : Pmap D) (i : Vpn) : Except Halt (Pmap D) :=
  if shared i then .ok s
  else if valid (s.mem t2 i) then do
    let s ← (List.finRange 512).foldlM (destroyPte1 t2 i) s
    let s ← s.clearRef (ptePage (s.mem t2 i))
    .ok (s.setPte t2 i 0)
  else .ok s

def destroyPgdir (s : Pmap D) (d : D) : Except Halt (Reply D) :=
  if s.pgdir d = 0 then .ok (0, s)
  else do
    let t2 := s.pgdir d >>> 12
    let s ← (List.finRange 512).foldlM (destroyPte2 t2) s
    let s ← s.clearRef t2
    .ok (0, s.setPgdir d 0)

end Pmap

end RiscvMos
