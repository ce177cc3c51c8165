import RiscvMos.User.Windows

namespace RiscvMos
namespace Client

variable {s : Client} {i : FdIdx} {q buf n : Nat} {a : SizeAnswers} {fault : Nat → Nat}

/-- `read` copies and returns `min(n, f_size - offset)` bytes, from the offset on. -/
structure ReadsInside (s : Client) (i : FdIdx) (q buf n : Nat) (fault : Nat → Nat) : Prop where
  code : (s.read i buf n fault).1 = (min n ((s.ff q).size - (s.ff q).offset) : Nat)
  mem : (s.read i buf n fault).2.mem =
    (memcpy fault buf (fd2data i + (s.ff q).offset) (min n ((s.ff q).size - (s.ff q).offset)) s).mem
  pt : (s.read i buf n fault).2.pt =
    (memcpy fault buf (fd2data i + (s.ff q).offset) (min n ((s.ff q).size - (s.ff q).offset)) s).pt

/-- Nothing is copied yet: at most the size was set. -/
def Sized (s : Client) (i : FdIdx) (a : SizeAnswers) (t : Client) : Prop :=
  t = s ∨ ∃ size, t = (s.ftruncate i size a).2

/-- `write` copies `n` bytes to the offset, which end in the file, and the size
is then the larger one. -/
structure Stores (s : Client) (i : FdIdx) (q buf n : Nat) (a : SizeAnswers)
    (fault : Nat → Nat) : Prop where
  bound : (s.ff q).offset + n ≤ maxfilesize
  code : (s.write i buf n a fault).1 = n
  copied : ∃ t, Sized s i a t ∧
    (s.write i buf n a fault).2.mem = (memcpy fault (fd2data i + (s.ff q).offset) buf n t).mem ∧
    (s.write i buf n a fault).2.pt = (memcpy fault (fd2data i + (s.ff q).offset) buf n t).pt
  size : ((s.write i buf n a fault).2.ff q).size = max (s.ff q).size ((s.ff q).offset + n)

def WritesInside (s : Client) (i : FdIdx) (q buf n : Nat) (a : SizeAnswers)
    (fault : Nat → Nat) : Prop :=
  ((s.write i buf n a fault).1 < 0 ∧ Sized s i a (s.write i buf n a fault).2) ∨
    Stores s i q buf n a fault

/-- Neither sum of `u_int`s that the two bounds checks form wraps where the check
would pass: `file_read` goes on to the sum when the offset is in the file,
`file_write` when the wrapped sum is at most `MAXFILESIZE`. -/
structure NoWrap (ff : Filefd) (offset n : Nat) : Prop where
  read : ff.omode ≠ 1 → offset ≤ ff.size → offset + n < 2 ^ 32
  write : ff.omode % 4 ≠ 0 → offset + n < 2 ^ 32 ∨ 2 ^ 32 + maxfilesize < offset + n

@[simp] theorem touch_ff (s : Client) (fault : Nat → Nat) (va : Nat) :
    (s.touch fault va).ff = s.ff := by
  unfold touch; split <;> rfl

@[simp] theorem storeByte_ff (s : Client) (va b : Nat) : (s.storeByte va b).ff = s.ff := by
  unfold storeByte; split <;> rfl

@[simp] theorem unmapFrom_ff (base n k : Nat) (s : Client) : (unmapFrom base n k s).ff = s.ff :=
  (unmapFrom_fd base n k s).2.1

structure Inside (s : Client) (i : FdIdx) (q buf n : Nat) (a : SizeAnswers)
    (fault : Nat → Nat) : Prop where
  read : (s.ff q).omode ≠ 1 → ReadsInside s i q buf n fault
  write : WritesInside s i q buf n a fault

/-- The server refuses nothing. -/
def granted : SizeAnswers :=
  ⟨⟨0, 0, fun _ _ => 0⟩, fun _ => ⟨0, 0, fun _ _ => 0⟩, ⟨0, 0, fun _ _ => 0⟩⟩

end Client
end RiscvMos
