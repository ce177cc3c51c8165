import Mathlib.Data.Fintype.Prod
import Mathlib.Data.List.FinRange

/-!
Descriptors shared between envs: `close`, `dup` and `close_all` of
`user/lib/fd.c`, the page walks of `fork` and `spawn`, `exit`, and
`_pipe_is_closed` of `user/lib/pipe.c`. A function is the list of system calls
it still has to make; an env can be interrupted between any two of them. Of a
descriptor's data area only the first page is kept, which is all of it for a pipe.
-/

namespace RiscvMos

/-- The two pages of a descriptor: its `struct Fd`, and its data. -/
inductive Side where
  | fd
  | data
  deriving DecidableEq, Repr

instance : Fintype Side := ⟨{.fd, .data}, by intro x; cases x <;> decide⟩

/-- Below `MAXFD`. -/
abbrev FdIdx := Fin 32

/-- `INDEX2FD` and `INDEX2DATA`. -/
def Side.addr : Side → FdIdx → Nat
  | .fd, i => 0x60000000 - 0x200000 + i * 4096
  | .data, i => 0x60000000 + i * 0x200000

/-- The physical pages that an env has at its descriptors. -/
abbrev FdTable := Side → FdIdx → Option Nat

namespace FdTable

def set (t : FdTable) (sd : Side) (i : FdIdx) (v : Option Nat) : FdTable :=
  Function.update t sd (Function.update (t sd) i v)

def empty : FdTable := fun _ _ => none

end FdTable

/-- A system call of an env on its own descriptors. -/
inductive OwnCall where
  /-- `syscall_mem_unmap(0, …)`. -/
  | unmap (sd : Side) (i : FdIdx)
  /-- `syscall_mem_map(0, …, 0, …)` of `dup`. -/
  | map (sd : Side) (old new : FdIdx)
  /-- `syscall_env_destroy(0)`. -/
  | destroy
  deriving DecidableEq

/-- What an env still has to do. -/
inductive Work (E : Type) where
  | own (rest : List OwnCall)
  /-- The walk of `fork` or `spawn` over the address space. -/
  | share (child : E) (spawn : Bool) (rest : List (Side × FdIdx))
  /-- `err2` of `spawn`. -/
  | kill (child : E)
  deriving DecidableEq

inductive Proc (E : Type) where
  | free
  /-- Not runnable yet. -/
  | child (parent : E)
  | running (work : Work E)
  deriving DecidableEq

structure Procs (E : Type) where
  table : E → FdTable
  proc : E → Proc E

/-- The addresses of descriptors in the order in which `fork` and `spawn` come
to them. -/
def shareWalk : List (Side × FdIdx) :=
  (List.finRange 32).map (Side.fd, ·) ++ (List.finRange 32).map (Side.data, ·)

example : (shareWalk.map fun x => x.1.addr x.2).Pairwise (· < ·) := by decide

/-- The pages of a pipe. -/
structure PipePages where
  rd : Nat
  wr : Nat
  buf : Nat
  rd_ne_wr : rd ≠ wr
  rd_ne_buf : rd ≠ buf
  wr_ne_buf : wr ≠ buf

/-- The page of one of the ends. -/
def PipePages.End (p : PipePages) (v : Option Nat) : Prop := v = some p.rd ∨ v = some p.wr

instance (p : PipePages) (v : Option Nat) : Decidable (p.End v) :=
  inferInstanceAs (Decidable (_ ∨ _))

/-- The calls of `close(i)`: those of `pipe_close`, and then `fd_close`. What
another device unmaps is left open; a free descriptor is not found. -/
def Closes (p : PipePages) (t : FdTable) (i : FdIdx) (sides : List Side) : Prop :=
  (t .fd i = none → sides = []) ∧ (p.End (t .fd i) → sides = [.fd, .data, .fd])

instance (p : PipePages) (t : FdTable) (i : FdIdx) (sides : List Side) :
    Decidable (Closes p t i sides) :=
  inferInstanceAs (Decidable ((_ → _) ∧ (_ → _)))

def closeCalls (i : FdIdx) (sides : List Side) : List OwnCall := sides.map (.unmap · i)

/-- `err` of `dup`. -/
def dupCleanup (new : FdIdx) : List OwnCall := [.unmap .fd new, .unmap .data new]

/-- Other descriptors and their data come and go: `open`, `opencons`, other pipes. -/
def Others (p : PipePages) (t t' : FdTable) : Prop :=
  ∀ i, (p.End (t .fd i) → t' .fd i = t .fd i ∧ t' .data i = t .data i) ∧
    (¬ p.End (t .fd i) → ¬ p.End (t' .fd i) ∧ t' .fd i ≠ some p.buf ∧ ¬ p.End (t' .data i) ∧
      (t' .data i = some p.buf → t .data i = some p.buf))

instance (p : PipePages) (t t' : FdTable) : Decidable (Others p t t') :=
  inferInstanceAs (Decidable (∀ _ : FdIdx, _))

/-- What an env does next: it calls a function, or makes the next system call of
the function it is in; `ok` is false if the call finds no memory. -/
inductive FdAct (E : Type) where
  | close (e : E) (i : FdIdx) (sides : List Side)
  | dup (e : E) (old new : FdIdx) (sides : List Side)
  | exit (e : E) (sides : FdIdx → List Side)
  | fork (e child : E) (spawn : Bool)
  | others (e : E) (t : FdTable)
  | syscall (e : E) (ok : Bool)

namespace Procs

variable {E : Type} [DecidableEq E]

def setTable (s : Procs E) (e : E) (t : FdTable) : Procs E :=
  { s with table := Function.update s.table e t }

def setProc (s : Procs E) (e : E) (x : Proc E) : Procs E :=
  { s with proc := Function.update s.proc e x }

def setWork (s : Procs E) (e : E) (w : Work E) : Procs E := s.setProc e (.running w)

/-- `env_destroy`. -/
def destroy (s : Procs E) (e : E) : Procs E := (s.setTable e .empty).setProc e .free

/-- The next call on the env's own descriptors. -/
def ownCall (s : Procs E) (e : E) (ok : Bool) (rest : List OwnCall) : OwnCall → Procs E
  | .unmap sd i => (s.setTable e ((s.table e).set sd i none)).setWork e (.own rest)
  | .map sd old new =>
    match s.table e sd old with
    | none =>
      -- a data page that is not mapped is not copied; a `struct Fd` has to be there
      match sd with
      | .data => s.setWork e (.own rest)
      | .fd => s.setWork e (.own (dupCleanup new))
    | some q =>
      if ok then (s.setTable e ((s.table e).set sd new (some q))).setWork e (.own rest)
      else (s.setTable e ((s.table e).set sd new none)).setWork e (.own (dupCleanup new))
  | .destroy => s.destroy e

/-- The walk is at a page: it is mapped in the child. `fork` does not look at the
code, `spawn` does. -/
def shareCall (s : Procs E) (e child : E) (spawn ok : Bool) (rest : List (Side × FdIdx))
    (x : Side × FdIdx) : Procs E :=
  match s.table e x.1 x.2 with
  | none => s.setWork e (.share child spawn rest)
  | some q =>
    if ok then (s.setTable child ((s.table child).set x.1 x.2 (some q))).setWork e
      (.share child spawn rest)
    else if spawn then (s.setTable child ((s.table child).set x.1 x.2 none)).setWork e (.kill child)
    else (s.setTable child ((s.table child).set x.1 x.2 none)).setWork e (.share child spawn rest)

def syscall (s : Procs E) (e : E) (ok : Bool) : Work E → Option (Procs E)
  | .own [] => none
  | .own (c :: rest) => some (s.ownCall e ok rest c)
  | .share child spawn (x :: rest) => some (s.shareCall e child spawn ok rest x)
  -- `syscall_set_env_status(child, ENV_RUNNABLE)`
  | .share child _ [] => some ((s.setWork child (.own [])).setWork e (.own []))
  | .kill child => some ((s.destroy child).setWork e (.own []))

/-- The env is in none of these functions. -/
def idle (s : Procs E) (e : E) : Bool :=
  match s.proc e with
  | .running (.own []) => true
  | _ => false

def isFree (s : Procs E) (e : E) : Bool :=
  match s.proc e with
  | .free => true
  | _ => false

def exec (p : PipePages) (s : Procs E) : FdAct E → Option (Procs E)
  | .close e i sides =>
    if s.idle e = true ∧ Closes p (s.table e) i sides then
      some (s.setWork e (.own (closeCalls i sides)))
    else none
  | .dup e old new sides =>
    if s.idle e = true ∧ s.table e .fd old ≠ none ∧ Closes p (s.table e) new sides then
      some (s.setWork e (.own (closeCalls new sides ++ [.map .data old new, .map .fd old new])))
    else none
  | .exit e sides =>
    if s.idle e = true ∧ ∀ i, Closes p (s.table e) i (sides i) then
      some (s.setWork e
        (.own ((List.finRange 32).flatMap (fun i => closeCalls i (sides i)) ++ [.destroy])))
    else none
  | .fork e child spawn =>
    if s.idle e = true ∧ s.isFree child = true then
      some ((s.setProc child (.child e)).setWork e (.share child spawn shareWalk))
    else none
  | .others e t =>
    if s.idle e = true ∧ Others p (s.table e) t then some (s.setTable e t) else none
  | .syscall e ok =>
    match s.proc e with
    | .running w => s.syscall e ok w
    | _ => none

/-- `pp_ref`, the number of places where a page is mapped. -/
def refs [Fintype E] (s : Procs E) (q : Nat) : Nat :=
  (Finset.univ.filter fun x : E × Side × FdIdx => s.table x.1 x.2.1 x.2.2 = some q).card

/-- `pageref` on a page of the env. -/
def pageref [Fintype E] (s : Procs E) (e : E) (sd : Side) (i : FdIdx) : Nat :=
  match s.table e sd i with
  | none => 0
  | some q => s.refs q

/-- `_pipe_is_closed`; its loop makes the two reads one. -/
def pipeIsClosed [Fintype E] (s : Procs E) (e : E) (i : FdIdx) : Bool :=
  s.pageref e .fd i == s.pageref e .data i

/-- An env has a descriptor for the end. -/
def Open (s : Procs E) (q : Nat) : Prop := ∃ e i, s.table e .fd i = some q

/-- `pipe` has just returned in `e`, with the descriptors `i` and `j`. -/
structure Fresh (p : PipePages) (s : Procs E) (e : E) (i j : FdIdx) : Prop where
  ne : i ≠ j
  idle : ∀ x, s.proc x = .free ∨ s.proc x = .running (.own [])
  free : ∀ x, s.proc x = .free → s.table x = .empty
  runs : s.idle e = true
  rd : ∀ x sd k, s.table x sd k = some p.rd ↔ x = e ∧ sd = .fd ∧ k = i
  wr : ∀ x sd k, s.table x sd k = some p.wr ↔ x = e ∧ sd = .fd ∧ k = j
  buf : ∀ x sd k, s.table x sd k = some p.buf ↔ x = e ∧ sd = .data ∧ (k = i ∨ k = j)

/-- The runs whose steps all meet `ok`. -/
inductive Run (p : PipePages) (ok : Procs E → FdAct E → Prop) (s₀ : Procs E) : Procs E → Prop where
  | start : Run p ok s₀ s₀
  | step {s s' : Procs E} {a : FdAct E} (run : Run p ok s₀ s) (met : ok s a)
    (step : s.exec p a = some s') :
      Run p ok s₀ s'

end Procs

end RiscvMos
