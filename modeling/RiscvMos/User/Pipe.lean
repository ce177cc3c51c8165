import RiscvMos.Env.Model
import RiscvMos.Lib.Ring

/-!
`pipe_read` and `pipe_write` of `user/lib/pipe.c`, for one reader and one
writer that share a `struct Pipe`. A step is one C statement, or the test of a
loop or an `if`: the kernel may switch envs between any two.
-/

namespace RiscvMos.User

/-- `BY2PIPE`. -/
def by2pipe : Nat := 32

structure Pipe where
  pRpos : Nat
  pWpos : Nat
  pBuf : Nat → UInt8

/-- The test of the `while` loop in `pipe_read`. -/
def Pipe.isEmpty (p : Pipe) : Prop := p.pWpos = p.pRpos

/-- The test of the `while` loop in `pipe_write`. -/
def Pipe.isFull (p : Pipe) : Prop :=
  uInt (p.pWpos + 1) = p.pRpos ∨ (p.pWpos = by2pipe - 1 ∧ p.pRpos = 0)

instance (p : Pipe) : Decidable p.isEmpty := inferInstanceAs (Decidable (_ = _))
instance (p : Pipe) : Decidable p.isFull := inferInstanceAs (Decidable (_ ∨ _))

/-- The statements of the two functions, which have the same loops. -/
inductive Pc where
  /-- Not in the function. -/
  | out
  /-- `i < n`. -/
  | forTest
  /-- The test for an empty, or a full, pipe. -/
  | whileTest
  /-- `if (_pipe_is_closed(fd, p))`. -/
  | ifClosed
  /-- `syscall_yield()`. -/
  | yield
  /-- `*rbuf++ = p->p_buf[p->p_rpos++]`, or `p->p_buf[p->p_wpos++] = *wbuf++`. -/
  | move
  /-- `if (p->p_rpos == BY2PIPE)`. -/
  | ifEnd
  /-- `p->p_rpos = 0`. -/
  | reset
  /-- `i++`. -/
  | next
  deriving DecidableEq, Repr

structure Reader where
  pc : Pc
  i : Nat
  n : Nat

/-- `ptr` is how far `wbuf` has moved from `vbuf`. -/
structure Writer where
  pc : Pc
  i : Nat
  n : Nat
  vbuf : Nat → UInt8
  ptr : Nat

/-- `stored` are the bytes the reader has stored in its buffers, `passed` those
passed to `pipe_write`, over all calls so far. -/
structure PipeState where
  pipe : Pipe
  reader : Reader
  writer : Writer
  readOpen : Bool
  writeOpen : Bool
  stored : List UInt8
  passed : List UInt8

inductive PipeAct where
  | pipeRead (n : Nat)
  | pipeWrite (vbuf : Nat → UInt8) (n : Nat)
  | closeRead
  | closeWrite
  /-- A statement of `pipe_read`; `closed` is what `_pipe_is_closed` answers. -/
  | read (closed : Bool)
  | write (closed : Bool)

namespace PipeState

/-- The next statement of `pipe_read`. -/
def readStep (s : PipeState) (closed : Bool) : PipeState :=
  match s.reader.pc with
  | .out => s
  | .forTest => { s with reader.pc := if s.reader.i < s.reader.n then .whileTest else .out }
  | .whileTest => { s with reader.pc := if s.pipe.isEmpty then .ifClosed else .move }
  | .ifClosed => { s with reader.pc := if closed then .out else .yield }
  | .yield => { s with reader.pc := .whileTest }
  | .move =>
    { s with
      stored := s.stored ++ [s.pipe.pBuf s.pipe.pRpos]
      pipe.pRpos := uInt (s.pipe.pRpos + 1)
      reader.pc := .ifEnd }
  | .ifEnd => { s with reader.pc := if s.pipe.pRpos = by2pipe then .reset else .next }
  | .reset => { s with pipe.pRpos := 0, reader.pc := .next }
  | .next => { s with reader.i := s.reader.i + 1, reader.pc := .forTest }

/-- The next statement of `pipe_write`. -/
def writeStep (s : PipeState) (closed : Bool) : PipeState :=
  match s.writer.pc with
  | .out => s
  | .forTest => { s with writer.pc := if s.writer.i < s.writer.n then .whileTest else .out }
  | .whileTest => { s with writer.pc := if s.pipe.isFull then .ifClosed else .move }
  | .ifClosed => { s with writer.pc := if closed then .out else .yield }
  | .yield => { s with writer.pc := .whileTest }
  | .move =>
    { s with
      pipe.pBuf := Function.update s.pipe.pBuf s.pipe.pWpos (s.writer.vbuf s.writer.ptr)
      pipe.pWpos := uInt (s.pipe.pWpos + 1)
      writer.ptr := s.writer.ptr + 1
      writer.pc := .ifEnd }
  | .ifEnd => { s with writer.pc := if s.pipe.pWpos = by2pipe then .reset else .next }
  | .reset => { s with pipe.pWpos := 0, writer.pc := .next }
  | .next => { s with writer.i := s.writer.i + 1, writer.pc := .forTest }

/-- A call starts, or an end is closed, when its env is in no call.
`_pipe_is_closed` answers 1 only when the other end is closed. -/
def step (s : PipeState) : PipeAct → Option PipeState
  | .pipeRead n =>
    if s.reader.pc = .out ∧ s.readOpen then some { s with reader := ⟨.forTest, 0, n⟩ } else none
  | .pipeWrite vbuf n =>
    if s.writer.pc = .out ∧ s.writeOpen then
      some { s with
        writer := ⟨.forTest, 0, n, vbuf, 0⟩
        passed := s.passed ++ (List.range n).map vbuf }
    else none
  | .closeRead => if s.reader.pc = .out then some { s with readOpen := false } else none
  | .closeWrite => if s.writer.pc = .out then some { s with writeOpen := false } else none
  | .read closed => if closed = true → s.writeOpen = false then some (s.readStep closed) else none
  | .write closed => if closed = true → s.readOpen = false then some (s.writeStep closed) else none

/-- What `pipe` leaves: a zeroed page, and two ends. -/
def created : PipeState where
  pipe := ⟨0, 0, fun _ => 0⟩
  reader := ⟨.out, 0, 0⟩
  writer := ⟨.out, 0, 0, fun _ => 0, 0⟩
  readOpen := true
  writeOpen := true
  stored := []
  passed := []

end PipeState

/-- The states that steps which meet `P` lead to. -/
inductive PipeRun (P : PipeState → PipeAct → Prop) : PipeState → Prop where
  | start : PipeRun P .created
  | step {s s' : PipeState} {a : PipeAct} (h : PipeRun P s) (hP : P s a) (hs : s.step a = some s') :
      PipeRun P s'

/-- The reader's empty test does not fall between the writer's `p_wpos++` to
the end of the buffer and its reset, with nothing left to read. -/
def TestsSettled (s : PipeState) : PipeAct → Prop
  | .read _ => ¬ (s.reader.pc = .whileTest ∧ s.pipe.pWpos = by2pipe ∧ s.pipe.pRpos = 0)
  | _ => True

end RiscvMos.User
