import RiscvMos.Fs.Serve
import RiscvMos.User.Descriptors

/-!
`user/lib/file.c`, and the functions of `user/lib/fd.c` that call it, on the
memory of an env: a file is read and written where its pages are mapped, from
`fd2data` on. The answers of the file server are inputs.
-/

namespace RiscvMos

/-- `MAXFILESIZE`. -/
def maxfilesize : Nat := 1024 * 4096

/-- `LARGE_PAGE_SIZE`. -/
def largePageSize : Nat := 0x200000

def fd2data (i : FdIdx) : Nat := Side.addr .data i

/-- `f_file.f_size`. -/
def Filefd.size (ff : Filefd) : Nat := ff.file 32

def Filefd.setSize (ff : Filefd) (n : Nat) : Filefd :=
  { ff with file := Function.update ff.file 32 n }

theorem Filefd.setSize_size (ff : Filefd) (n : Nat) : (ff.setSize n).size = n := by
  simp [Filefd.setSize, Filefd.size]

/-- An env whose descriptors are all of files. -/
structure Client where
  /-- The page that is mapped at a page number. -/
  pt : Nat → Option Nat
  mem : Nat → Nat → Nat
  /-- The page at `INDEX2FD`. -/
  fd : FdIdx → Option Nat
  ff : Nat → Filefd
  /-- The file that was opened with the page of a `struct Filefd`. -/
  file : Nat → Nat

/-- An answer of the server, which can change blocks before it answers. -/
structure Answer where
  code : Int
  page : Nat
  mem : Nat → Nat → Nat

/-- The answers that `ftruncate` gets. -/
structure SizeAnswers where
  setSize : Answer
  maps : Nat → Answer
  undo : Answer

/-- The number of pages of a file: those of the loops with steps of `BY2PG`. -/
def numPages (size : Nat) : Nat := (size + 4095) / 4096

namespace Client

def setPage (s : Client) (v : Nat) (o : Option Nat) : Client :=
  { s with pt := Function.update s.pt v o }

def setFd (s : Client) (i : FdIdx) (o : Option Nat) : Client :=
  { s with fd := Function.update s.fd i o }

def setFf (s : Client) (q : Nat) (ff : Filefd) : Client :=
  { s with ff := Function.update s.ff q ff }

def answered (s : Client) (a : Answer) : Client := { s with mem := a.mem }

/-- The first access to a page that is not there: the kernel maps a page of zeros. -/
def touch (s : Client) (fault : Nat → Nat) (va : Nat) : Client :=
  match s.pt (va / 4096) with
  | some _ => s
  | none =>
    { s with
      pt := Function.update s.pt (va / 4096) (some (fault (va / 4096)))
      mem := Function.update s.mem (fault (va / 4096)) fun _ => 0 }

def byteAt (s : Client) (va : Nat) : Nat :=
  match s.pt (va / 4096) with
  | some p => s.mem p (va % 4096)
  | none => 0

def storeByte (s : Client) (va b : Nat) : Client :=
  match s.pt (va / 4096) with
  | some p => { s with mem := Function.update s.mem p (Function.update (s.mem p) (va % 4096) b) }
  | none => s

def copyByte (fault : Nat → Nat) (dst src : Nat) (s : Client) : Client :=
  let s := s.touch fault src
  (s.touch fault dst).storeByte dst (s.byteAt src)

def memcpy (fault : Nat → Nat) (dst src : Nat) : Nat → Client → Client
  | 0, s => s
  | n + 1, s => copyByte fault (dst + n) (src + n) (memcpy fault dst src n s)

/-- The loop that maps pages of a file, with `fsipc_map`. -/
def mapFrom (base : Nat) (maps : Nat → Answer) : Nat → Nat → Client → Int × Client
  | 0, _, s => (0, s)
  | n + 1, k, s =>
    if (maps k).code < 0 then ((maps k).code, s.answered (maps k))
    else mapFrom base maps n (k + 1) ((s.answered (maps k)).setPage (base + k) (some (maps k).page))

/-- The loop that unmaps pages. -/
def unmapFrom (base : Nat) : Nat → Nat → Client → Client
  | 0, _, s => s
  | n + 1, k, s => unmapFrom base n (k + 1) (s.setPage (base + k) none)

/-- `fd_alloc`, which does not come to the last descriptor. -/
def fdAlloc (s : Client) : Option FdIdx :=
  (List.finRange 32).find? fun i => i.val < 31 && (s.fd i).isNone

/-- `open`. The answer to `fsipc_open` comes with the page of a `struct Filefd`. -/
def openPath (s : Client) (reply : Answer) (ff : Filefd) (file : Nat)
    (maps : Nat → Answer) : Int × Client :=
  match s.fdAlloc with
  | none => (-eMaxOpen, s)
  | some i =>
    if reply.code < 0 then (reply.code, s.answered reply)
    else
      let s := ((s.answered reply).setFd i (some reply.page)).setFf reply.page ff
      let s := { s with file := Function.update s.file reply.page file }
      match mapFrom (fd2data i / 4096) maps (numPages ff.size) 0 s with
      | (r, s) => if r < 0 then (r, s) else (i, s)

/-- `close`, with `file_close`. -/
def close (s : Client) (i : FdIdx) (reply : Answer) : Int × Client :=
  match s.fd i with
  | none => (-eInval, s)
  | some q =>
    if reply.code < 0 then (reply.code, (s.answered reply).setFd i none)
    else (0,
      (unmapFrom (fd2data i / 4096) (numPages (s.ff q).size) 0 (s.answered reply)).setFd i none)

def ftruncate (s : Client) (i : FdIdx) (size : Nat) (a : SizeAnswers) : Int × Client :=
  if maxfilesize < size then (-eNoDisk, s)
  else
    match s.fd i with
    | none => (-eInval, s)
    | some q =>
      let old := numPages (s.ff q).size
      let new := numPages size
      let s := (s.setFf q ((s.ff q).setSize size)).answered a.setSize
      if a.setSize.code < 0 then (a.setSize.code, s)
      else
        match mapFrom (fd2data i / 4096) a.maps (new - old) old s with
        | (r, s) =>
          if r < 0 then (r, s.answered a.undo)
          else (0, unmapFrom (fd2data i / 4096) (old - new) new s)

/-- `file_write`. -/
def fileWrite (s : Client) (i : FdIdx) (q buf n : Nat) (a : SizeAnswers)
    (fault : Nat → Nat) : Int × Client :=
  let offset := (s.ff q).offset
  let tot := uInt (offset + n)
  if maxfilesize < tot then (-eNoDisk, s)
  else if (s.ff q).size < tot then
    match s.ftruncate i tot a with
    | (r, s) => if r < 0 then (r, s) else (uIntToInt n, memcpy fault (fd2data i + offset) buf n s)
  else (uIntToInt n, memcpy fault (fd2data i + offset) buf n s)

/-- `file_read`. -/
def fileRead (s : Client) (i : FdIdx) (q buf n : Nat) (fault : Nat → Nat) : Int × Client :=
  let offset := (s.ff q).offset
  let size := (s.ff q).size
  if size < offset then (0, s)
  else
    let n := if size < uInt (offset + n) then size - offset else n
    (uIntToInt n, memcpy fault buf (fd2data i + offset) n s)

/-- `fd->fd_offset += r`, if `r > 0`. -/
def advance (q : Nat) (x : Int × Client) : Int × Client :=
  if 0 < x.1 then
    (x.1, x.2.setFf q { x.2.ff q with offset := uInt ((x.2.ff q).offset + x.1.toNat) })
  else x

def write (s : Client) (i : FdIdx) (buf n : Nat) (a : SizeAnswers)
    (fault : Nat → Nat) : Int × Client :=
  match s.fd i with
  | none => (-eInval, s)
  | some q =>
    -- `(fd->fd_omode & O_ACCMODE) == O_RDONLY`
    if (s.ff q).omode % 4 = 0 then (-eInval, s) else advance q (s.fileWrite i q buf n a fault)

def read (s : Client) (i : FdIdx) (buf n : Nat) (fault : Nat → Nat) : Int × Client :=
  match s.fd i with
  | none => (-eInval, s)
  | some q =>
    -- `fd->fd_omode == O_WRONLY`
    if (s.ff q).omode = 1 then (-eInval, s) else advance q (s.fileRead i q buf n fault)

def seek (s : Client) (i : FdIdx) (offset : Nat) : Int × Client :=
  match s.fd i with
  | none => (-eInval, s)
  | some q => (0, s.setFf q { s.ff q with offset := offset })

/-- The loop of `dup`; `ok` is false where `syscall_mem_map` finds no memory. -/
def dupFrom (ova nva : Nat) (ok : Nat → Bool) : Nat → Nat → Client → Bool × Client
  | 0, _, s => (true, s)
  | n + 1, k, s =>
    match s.pt (ova + k) with
    | none => dupFrom ova nva ok n (k + 1) s
    | some p =>
      if ok k then dupFrom ova nva ok n (k + 1) (s.setPage (nva + k) (some p)) else (false, s)

/-- `err` of `dup`. -/
def dupErr (s : Client) (new : FdIdx) : Client :=
  unmapFrom (fd2data new / 4096) (largePageSize / 4096) 0 (s.setFd new none)

def dup (s : Client) (old new : FdIdx) (reply : Answer) (ok : Nat → Bool)
    (okFd : Bool) : Int × Client :=
  match s.fd old with
  | none => (-eInval, s)
  | some _ =>
    match dupFrom (fd2data old / 4096) (fd2data new / 4096) ok (largePageSize / 4096) 0
      (s.close new reply).2 with
    | (false, s) => (-eNoMem, s.dupErr new)
    | (true, s) =>
      match s.fd old with
      | none => (-eInval, s.dupErr new)
      | some q => if okFd then (new, s.setFd new (some q)) else (-eNoMem, s.dupErr new)

end Client

/-- A call of one of the functions, with the answers and the pages that it gets. -/
inductive FileAct where
  | openPath (reply : Answer) (ff : Filefd) (file : Nat) (maps : Nat → Answer)
  | close (i : FdIdx) (reply : Answer)
  | ftruncate (i : FdIdx) (size : Nat) (a : SizeAnswers)
  | write (i : FdIdx) (buf n : Nat) (a : SizeAnswers) (fault : Nat → Nat)
  | read (i : FdIdx) (buf n : Nat) (fault : Nat → Nat)
  | seek (i : FdIdx) (offset : Nat)
  | dup (old new : FdIdx) (reply : Answer) (ok : Nat → Bool) (okFd : Bool)

namespace Client

def exec (s : Client) : FileAct → Int × Client
  | .openPath reply ff file maps => s.openPath reply ff file maps
  | .close i reply => s.close i reply
  | .ftruncate i size a => s.ftruncate i size a
  | .write i buf n a fault => s.write i buf n a fault
  | .read i buf n fault => s.read i buf n fault
  | .seek i offset => s.seek i offset
  | .dup old new reply ok okFd => s.dup old new reply ok okFd

/-- What can be read through a descriptor. -/
def contents (s : Client) (i : FdIdx) : Option (Nat → Option Nat) :=
  (s.fd i).map fun q o => if o < (s.ff q).size then some (s.byteAt (fd2data i + o)) else none

end Client

end RiscvMos
