import RiscvMos.Fs.Debug

/-!
`fs/serv.c`: the table of open files, and the requests that the file server
answers. A page of `struct Filefd` is mapped at `FILEVA` for each entry of the
table that was ever used.
-/

namespace RiscvMos

def maxopen : Nat := 1024

/-- An entry of `opentab`; `o_ff` is given by its place. -/
structure Open where
  file : Option Nat
  fileid : Nat
  mode : Nat

/-- `struct Filefd`, with the words of its `struct File`. -/
structure Filefd where
  devId : Nat
  offset : Nat
  omode : Nat
  fileid : Nat
  file : Nat → Nat

def Filefd.zero : Filefd := ⟨0, 0, 0, 0, fun _ => 0⟩

/-- `devfile.dev_id`. -/
def devfileId : Nat := 102

/-- The page of a message: an `o_ff`, or a block of the cache. -/
inductive SentPage where
  | filefd (i : Nat)
  | block (b : Nat)
  deriving DecidableEq, Repr

/-- A call of `ipc_send`. -/
structure Send where
  whom : Nat
  val : Int
  page : Option SentPage
  deriving DecidableEq, Repr

structure Server where
  fs : Fs
  opentab : Nat → Open
  /-- The page at `o_ff`, if there is one. -/
  ff : Nat → Option Filefd
  /-- The number of places where that page is mapped. -/
  refs : Nat → Nat
  sent : List Send

namespace Server

/-- `serve_init`. -/
def serveInit (fs : Fs) : Server :=
  { fs := fs, opentab := fun i => ⟨none, i, if i = 0 then 1 else 0⟩, ff := fun _ => none,
    refs := fun _ => 0
    sent := [] }

/-- `pageref` of an `o_ff`: `pp_ref` is a `u_short`. -/
def pageref (s : Server) (i : Nat) : Nat :=
  match s.ff i with
  | none => 0
  | some _ => s.refs i % 2 ^ 16

/-- `syscall_mem_alloc` at an `o_ff`. -/
def allocPage (s : Server) (i : Nat) : Server :=
  { s with ff := Function.update s.ff i (some .zero), refs := Function.update s.refs i 1 }

/-- What `open_alloc` does to the entry it takes. -/
def take (s : Server) (i : Nat) : Server :=
  { s with
    opentab := Function.update s.opentab i
      { s.opentab i with fileid := uInt ((s.opentab i).fileid + maxopen) }
    ff := Function.update s.ff i (some .zero) }

/-- What `serve_open` stores once the file is open. -/
def fillOut (s : Server) (i f : Nat) (file : Nat → Nat) (omode : Nat) : Server :=
  { s with
    opentab := Function.update s.opentab i { s.opentab i with file := some f, mode := omode }
    ff := Function.update s.ff i (some ⟨devfileId, 0, omode, (s.opentab i).fileid, file⟩) }

def openLookup (s : Server) (fileid : Nat) : Except Int Nat :=
  if s.pageref (fileid % maxopen) = 1 ∨
      (s.opentab (fileid % maxopen)).fileid ≠ fileid then .error (-eInval)
  else .ok (fileid % maxopen)

end Server

/-- The server until it stops; what it sent before that is kept. -/
abbrev ServeM := ExceptT Stop (StateM Server)

namespace ServeM

def onFs {α : Type} (m : FsM α) : ServeM α := fun s =>
  match m s.fs with
  | .ok (a, fs) => (.ok a, { s with fs := fs })
  | .error x => (.error x, s)

theorem onFs_ok {α : Type} {m : FsM α} {s s' : Server} {a : α} (h : onFs m s = (.ok a, s')) :
    ∃ fs, m s.fs = .ok (a, fs) ∧ s' = { s with fs := fs } := by
  unfold onFs at h
  cases hm : m s.fs with
  | error x =>
    rw [hm] at h
    cases h
  | ok x =>
    rw [hm] at h
    cases h
    exact ⟨_, rfl, rfl⟩

def stop {α : Type} (x : Stop) : ServeM α := fun s => (.error x, s)

/-- A part of the state is read. -/
def read {α : Type} (f : Server → α) : ServeM α := fun s => (.ok (f s), s)

def update (f : Server → Server) : ServeM Unit := fun s => (.ok (), f s)

def ipcSend (whom : Nat) (val : Int) (page : Option SentPage) : ServeM Unit :=
  update fun s => { s with sent := s.sent ++ [⟨whom, val, page⟩] }

/-- `case 1` of `open_alloc`, which `case 0` runs into. -/
def openTake (i : Nat) : ServeM (Int × Option Nat) := do
  update (·.take i)
  pure (uIntToInt (← read (·.opentab i)).fileid, some i)

/-- The loop of `open_alloc`: what it returns, and `*o`. -/
def openAllocFrom : Nat → Nat → ServeM (Int × Option Nat)
  | 0, _ => pure (-eMaxOpen, none)
  | n + 1, i => do
    match ← read (·.pageref i) with
    | 0 =>
      if ← onFs FsM.memAlloc then do
        update (·.allocPage i)
        openTake i
      else pure (-eNoMem, none)
    | 1 => openTake i
    | _ => openAllocFrom n (i + 1)

def openAlloc : ServeM (Int × Option Nat) := openAllocFrom maxopen 0

/-! The request, by the words of its page. -/

def reqByte (rq : Nat → Nat) (i : Nat) : Nat := (rq (i / 4) >>> (8 * (i % 4))) % 256

/-- `req_path`. A string that the page does not end is not one. -/
def reqPath (rq : Nat → Nat) : ServeM (List Nat) :=
  let bytes := (List.range 4096).map (reqByte rq)
  if 0 ∈ bytes then pure (bytes.takeWhile (· != 0)) else stop .undefined

def reqOmode (rq : Nat → Nat) : Nat := rq 256
def reqFileid (rq : Nat → Nat) : Nat := rq 0
def reqOffset (rq : Nat → Nat) : Nat := rq 1
def reqSize (rq : Nat → Nat) : Nat := rq 1

/-- `*f`. -/
def readFile (f : Nat) : FsM (Nat → Nat) := do
  let _ ← FsM.load f
  let s ← get
  pure fun i => s.word (f + i)

/-- `serve_open` from `file_open` on. -/
def openFile (envid : Nat) (rq : Nat → Nat) (o : Option Nat) : ServeM Unit := do
  let path ← reqPath rq
  match ← onFs (FsM.fileOpen path) with
  | .error r => ipcSend envid r none
  | .ok f =>
    match o with
    -- `o` was not set
    | none => stop .undefined
    | some i => do
      let file ← onFs (readFile f)
      update (·.fillOut i f file (reqOmode rq))
      ipcSend envid 0 (some (.filefd i))

def serveOpen (envid : Nat) (rq : Nat → Nat) : ServeM Unit := do
  let (r, o) ← openAlloc
  if r < 0 then do
    ipcSend envid r none
    -- there is no `return` here
    openFile envid rq o
  else openFile envid rq o

/-- `o_file` of an entry that a function follows. -/
def follow (o : Option Nat) : ServeM Nat :=
  match o with
  | none => stop .undefined
  | some f => pure f

/-- The file of the entry that a request names; `open_lookup` comes first in
these functions, with a reply if it fails. -/
def withFile (envid : Nat) (rq : Nat → Nat) (k : Nat → ServeM Unit) : ServeM Unit := do
  match ← read (·.openLookup (reqFileid rq)) with
  | .error r => ipcSend envid r none
  | .ok i => do
    let o ← read (·.opentab i)
    let f ← follow o.file
    k f

def serveMap (envid : Nat) (rq : Nat → Nat) : ServeM Unit :=
  withFile envid rq fun f => do
    match ← onFs (FsM.fileGetBlock f (reqOffset rq / Fs.by2blk)) with
    | .error r => ipcSend envid r none
    | .ok b => ipcSend envid 0 (some (.block b))

/-- The reply with the code that a function returned. -/
def reply (envid : Nat) (r : Int) : ServeM Unit :=
  if r < 0 then ipcSend envid r none else ipcSend envid 0 none

def serveSetSize (envid : Nat) (rq : Nat → Nat) : ServeM Unit :=
  withFile envid rq fun f => do
    let r ← onFs (FsM.fileSetSize f (reqSize rq))
    reply envid r

def serveClose (envid : Nat) (rq : Nat → Nat) : ServeM Unit :=
  withFile envid rq fun f => do
    onFs (FsM.fileClose f)
    ipcSend envid 0 none

def serveDirty (envid : Nat) (rq : Nat → Nat) : ServeM Unit :=
  withFile envid rq fun f => do
    let r ← onFs (FsM.fileDirty f (reqOffset rq))
    reply envid r

def serveRemove (envid : Nat) (rq : Nat → Nat) : ServeM Unit := do
  let path ← reqPath rq
  let r ← onFs (FsM.fileRemove path)
  ipcSend envid r none

def serveSync (envid : Nat) : ServeM Unit := do
  onFs FsM.fsSync
  ipcSend envid 0 none

/-- A directory or a regular file. -/
def debugAny (f type : Nat) : FsM Unit :=
  if type = Fs.ftypeDir then FsM.debugDir f
  else if type = 0 then FsM.debugFile f
  else pure ()

def serveDebug (envid : Nat) (rq : Nat → Nat) : ServeM Unit := do
  let path ← reqPath rq
  let file ← onFs (FsM.getFileAbsolute path)
  -- NULL is not looked for
  let f ← follow file
  onFs (do debugAny f (← FsM.load (Fs.fType f)))
  ipcSend envid 0 none

/-- The `switch` of `serve`. -/
def serveReq (stack req whom : Nat) (rq : Nat → Nat) : ServeM Unit :=
  match req with
  | 1 => serveOpen whom rq
  | 2 => serveMap whom rq
  | 3 => serveSetSize whom rq
  | 4 => serveClose whom rq
  | 5 => serveDirty whom rq
  | 6 => serveRemove whom rq
  | 7 => serveSync whom
  | 39 => serveDebug whom rq
  | 3939 => onFs (FsM.treeRoot stack)
  -- "Invalid request code %d from %08x\n"
  | _ => pure ()

/-- One iteration of `serve`, after `ipc_recv`. Without an argument page the
requester is left hanging. -/
def serve (stack req whom perm : Nat) (rq : Nat → Nat) : ServeM Unit :=
  if perm.testBit 0 then serveReq stack req whom rq else pure ()

end ServeM

end RiscvMos
