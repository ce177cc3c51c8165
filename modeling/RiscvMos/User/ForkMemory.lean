import RiscvMos.User.Fork
import RiscvMos.Env.Places

/-!
The invariant of `fork` and `cow_entry`. Where user code may write to a page, no
other place has it, but for two moments: while `cow_entry` has its copy at `UCOW`
too, and while `duppage` has lent a page to the child and still writes it.
-/

namespace RiscvMos

/-- The env that `fork` is making. -/
def Prog.child : Prog → Option Nat
  | .walking child _ | .called child _ | .looked child _ _ | .lent child _ _
  | .finishing child => some child
  | .born | .running | .setting | .forking => none

/-- The page whose permission `duppage` has looked up. -/
def Prog.page : Prog → Option (Nat × Nat)
  | .looked _ vpn perm | .lent _ vpn perm => some (vpn, perm)
  | _ => none

/-- `fork` still comes to page `v`. -/
def Prog.Ahead : Prog → Nat → Prop
  | .walking _ vpn, v | .called _ vpn, v | .looked _ vpn _, v => vpn ≤ v
  | .lent _ vpn _, v => vpn < v
  | .born, _ | .running, _ | .setting, _ | .forking, _ | .finishing _, _ => False

/-- The place that shows a page which the parent still writes. -/
def Prog.lends : Prog → Option (Pmap.Place EnvIdx)
  | .lent child vpn _ => some (envx child, vpn)
  | _ => none

/-- The address that `cow_entry` is about. -/
def Handler.fault : Handler → Option Nat
  | .entered va | .looked va _ | .copying va _ _ => some va
  | .mapped _ | .panicked => none

namespace Forks

open Pmap CopyOnWrite

def ucowPage : Nat := ucow / 4096

/-- The pages that `fork` walks. -/
def walkedPages : Nat := ustacktop / 4096

def Library (perm : Nat) : Prop := perm &&& pteLibrary ≠ 0

instance (perm : Nat) : Decidable (Library perm) := inferInstanceAs (Decidable (_ ≠ _))

def place (s : Forks) (x : Place EnvIdx) : Option (Nat × Nat) := s.kernel.pmap.place x

/-- A parent still writes the page that `x` has. -/
def Lent (s : Forks) (x : Place EnvIdx) : Prop := ∃ c, (s.prog c).lends = some x

instance (s : Forks) (x : Place EnvIdx) : Decidable (s.Lent x) :=
  inferInstanceAs (Decidable (∃ _ : EnvIdx, _))

/-- The physical page that shows what `x` has for itself. -/
def cell (s : Forks) (x : Place EnvIdx) : Option Nat :=
  if x.2 < walkedPages ∧ x.2 ≠ ucowPage ∧ ¬ s.Lent x then
    match s.place x with
    | some (p, perm) => if Library perm then none else some p
    | none => none
  else none

/-- What every env has for itself below `USTACKTOP`. A page that is not mapped yet is
zero, as it will be when it is. -/
def memories (s : Forks) : Place EnvIdx → Vpn → Nat :=
  contents s.cell s.kernel.pmap.mem fun _ => 0

/-! ## The invariant -/

/-- Two places that have one page for a moment. -/
def Alias (s : Forks) (x y : Place EnvIdx) : Prop :=
  (∃ va, s.handler x.1 = some (.mapped va) ∧ y.1 = x.1 ∧
    (x.2 = va / 4096 ∧ y.2 = ucowPage ∨ x.2 = ucowPage ∧ y.2 = va / 4096)) ∨
  (s.prog x.1).lends = some y ∧ y.2 = x.2

/-- The bits that matter to `duppage`. -/
structure SameBits (a b : Nat) : Prop where
  user : a &&& pteU = b &&& pteU
  write : a &&& pteW = b &&& pteW
  library : a &&& pteLibrary = b &&& pteLibrary
  cow : a &&& pteCow = b &&& pteCow

/-- `va` of `c` is copy-on-write. -/
structure CowAt (m : Pmap EnvIdx) (c : EnvIdx) (va p : Nat) : Prop where
  user : va < ulim
  apart : va / 4096 ≠ ucowPage
  page : ∃ perm, m.place (placeOf c va) = some (p, perm) ∧ perm &&& pteCow ≠ 0

/-- The permission of a copy. -/
structure OwnPerm (perm : Nat) : Prop where
  small : perm < 0x400
  writes : Writes perm
  cow : perm &&& pteCow = 0

/-- The first `n` words of page `p` are in page `q`. -/
def Copied (m : Pmap EnvIdx) (p q n : Nat) : Prop :=
  ∀ i : Vpn, (2 * i.val < n → m.mem q i % 2 ^ 32 = m.mem p i % 2 ^ 32) ∧
    (2 * i.val + 1 < n → m.mem q i / 2 ^ 32 = m.mem p i / 2 ^ 32)

/-- What `cow_entry` has done. -/
def Handled (m : Pmap EnvIdx) (c : EnvIdx) : Option Handler → Prop
  | none => m.place (c, ucowPage) = none
  | some (.entered va) => m.place (c, ucowPage) = none ∧ ∃ p, CowAt m c va p
  | some (.looked va perm) => m.place (c, ucowPage) = none ∧ OwnPerm perm ∧ ∃ p, CowAt m c va p
  | some (.copying va perm n) => OwnPerm perm ∧ n ≤ 1024 ∧ ∃ p q, CowAt m c va p ∧
    m.place (c, ucowPage) = some (q, perm ||| pteV) ∧ Copied m p q n
  | some (.mapped va) => va < ulim ∧ va / 4096 < walkedPages ∧ va / 4096 ≠ ucowPage
  | some .panicked => True

/-- What holds of an env in `fork` as far as its program has come. -/
structure Walked (m : Pmap EnvIdx) (c : EnvIdx) (prog : Prog) : Prop where
  ahead : ∀ child v, prog.child = some child → prog.Ahead v → m.place (envx child, v) = none
  called : ∀ child vpn, prog = .called child vpn →
    vpn < walkedPages ∧ vpn ≠ ucowPage ∧ ∃ p a, m.place (c, vpn) = some (p, a)
  page : ∀ vpn perm, prog.page = some (vpn, perm) → vpn < walkedPages ∧ vpn ≠ ucowPage ∧
    perm < 0x400 ∧ ∃ p a, m.place (c, vpn) = some (p, a) ∧ SameBits perm a
  lent : ∀ child vpn perm, prog = .lent child vpn perm → Writes perm ∧
    ¬ isIllegalVa (vpn <<< 12) ∧ ∃ p a b, m.place (c, vpn) = some (p, a) ∧
      m.place (envx child, vpn) = some (p, b) ∧ b &&& pteW = 0

/-- `cow_entry` is not about the page that `duppage` is about. -/
structure Local (m : Pmap EnvIdx) (c : EnvIdx) (prog : Prog) (handler : Option Handler) : Prop
    extends Walked m c prog where
  handled : Handled m c handler
  apart : ∀ h va perm, handler = some h → h.fault = some va → prog.page ≠ some (va / 4096, perm)

structure Inv (M K1 K0 : Nat → Prop) (s : Forks) : Prop where
  secure : Kernel.Secure M K1 K0 (fun _ _ => True) s.kernel
  exclusive : Exclusive s.place Writes s.Alias
  library : Uniform s.place Library
  cow : ∀ x p perm, s.place x = some (p, perm) → perm &&& pteCow ≠ 0 →
    ¬ Library perm ∧ x.2 < walkedPages
  stack : ∀ x p perm, s.place x = some (p, perm) → walkedPages ≤ x.2 → Writes perm
  locals : ∀ c, Local s.kernel.pmap c (s.prog c) (s.handler c)
  children : ∀ c c' a b, (s.prog c).child = some a → (s.prog c').child = some b →
    envx a = envx b → c = c'
  childBorn : ∀ c a, (s.prog c).child = some a →
    uInt a ≠ 0 ∧ s.prog (envx a) = .born ∧ envx a ∉ s.kernel.envFreeList
  born : ∀ e, s.prog e = .born →
    (s.kernel.envs e).envStatus ≠ .runnable ∧ s.handler e = none
  current : ∀ c, s.kernel.curenv = some c → (s.kernel.envs c).envStatus = .runnable
  free : s.kernel.envFreeList.Nodup
  freed : ∀ e ∈ s.kernel.envFreeList, s.kernel.pmap.pgdir e = 0

/-! ## Runs -/

/-- The accesses that programs and `cow_entry` make: below `UTOP`, at `UCOW` only where
`cow_entry` copies to, of pages that are not there or that let them. A program may store
to a copy-on-write page unless `duppage` is about it; `cow_entry` stores to its stack. -/
structure Proper (s : Forks) (c : EnvIdx) (cause : Fault) (va : Nat) : Prop where
  store : cause = .store → va < ulim ∧ (s.handler c = none ∨ walkedPages ≤ va / 4096)
  fault : s.kernel.pmap.translate c cause va = none → va < ulim ∧ va / 4096 ≠ ucowPage ∧
    (s.kernel.pmap.isMappedPage c va = true → cause = .fetch ∨ cause = .store ∧
      s.kernel.pmap.getPerm c va &&& pteCow ≠ 0 ∧ s.handler c = none ∧
      ∀ perm, (s.prog c).page ≠ some (va / 4096, perm))

/-- The next call of `fork` is served: `sys_exofork` finds an env and the pages for it, and
the call of `duppage` for the child does not fail. -/
def Serves (k : Kernel) : Prog → Prop
  | .forking => k.envFreeList ≠ [] ∧ k.asidAlloc ≠ none ∧ 3 ≤ k.pmap.pageFreeList.length
  | .looked child vpn perm => ∃ k', k.sysMemMap 0 (vpn <<< 12) child (vpn <<< 12)
    (if Writes perm then lentPerm perm else perm) = .ok (0, k')
  | _ => True

/-- What is assumed of the steps of a run: the calls of `fork` are served, no page is
mapped 65535 times, and the window shows an env its own tables. -/
def Allowed (s : Forks) (c : EnvIdx) : ForkAct → Prop
  | .access cause va _ _ => s.Proper c cause va
  | .next => SelfMapAgrees s.kernel.pmap c ∧
    (∀ x p perm, s.place x = some (p, perm) → s.kernel.pmap.ppRef p < 65535) ∧
    (s.handler c = none → Serves s.kernel (s.prog c))
  | .fork | .sysYield | .tick => True

/-- A page that an env has for itself. -/
def Private (s : Forks) (c : EnvIdx) (va : Nat) : Prop :=
  va / 4096 < walkedPages ∧ va / 4096 ≠ ucowPage ∧
    s.kernel.pmap.getPerm c va &&& pteLibrary = 0

instance (s : Forks) (c : EnvIdx) (va : Nat) : Decidable (s.Private c va) :=
  inferInstanceAs (Decidable (_ ∧ _))

/-- What a step means to envs that have a memory each: a store that the hardware makes is
one to the env's own memory, and `duppage` copies a page of the parent. -/
def meaning (s : Forks) (c : EnvIdx) (m : Place EnvIdx → Vpn → Nat) :
    ForkAct → Place EnvIdx → Vpn → Nat
  | .access .store va w _ =>
    if s.kernel.pmap.translate c .store va ≠ none ∧ s.Private c va then
      Function.update m (placeOf c va) (Function.update (m (placeOf c va)) (wordIdx va) w)
    else m
  | .next =>
    match s.handler c, s.prog c with
    | none, .looked child vpn perm => if Writes perm ∨ Library perm then m
      else Function.update m (envx child, vpn) (m (c, vpn))
    | none, .lent child vpn _ => Function.update m (envx child, vpn) (m (c, vpn))
    | _, _ => m
  | _ => m

/-- The states that allowed steps lead to, and the memories that the envs should have
there. -/
inductive Run (cow : Nat) (s₀ : Forks) : Forks → (Place EnvIdx → Vpn → Nat) → Prop where
  | start : Run cow s₀ s₀ s₀.memories
  | step {s s' : Forks} {m : Place EnvIdx → Vpn → Nat} {c : EnvIdx} {a : ForkAct}
      (h : Run cow s₀ s m) (current : s.kernel.curenv = some c) (allowed : s.Allowed c a)
      (out : s.exec cow a = some s') : Run cow s₀ s' (s.meaning c m a)

end Forks

end RiscvMos
