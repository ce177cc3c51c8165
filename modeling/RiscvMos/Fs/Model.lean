import RiscvMos.Env.Model

/-!
`fs/fs.c`: the block cache of the file server, the bitmap, and files and
directories over it. The cache is the memory at `DISKMAP`, by 32-bit words: word
`i` of block `b` is word `1024 * b + i`, and a `struct File *` is the number of
its first word. `super` and `bitmap` are set, as after `fs_init`.
-/

namespace RiscvMos

def eNoDisk : Int := 8
def eMaxOpen : Int := 9
def eNotFound : Int := 10
def eBadPath : Int := 11
def eFileExists : Int := 12

/-- How the server stops. -/
inductive Stop where
  /-- `user_panic`: the server exits. -/
  | panic (msg : String)
  /-- The kernel stops. -/
  | halt
  /-- The language says nothing about what comes next. -/
  | undefined
  deriving DecidableEq, Repr

structure Fs where
  word : Nat → Nat
  /-- The block has a page. -/
  mapped : Nat → Bool
  /-- `PTE_D` in the server's own entry for the page. -/
  pteD : Nat → Bool
  disk : Nat → Nat
  /-- Whether the `n`th allocation finds a page. -/
  memory : Nat → Bool
  asked : Nat

abbrev FsM := StateT Fs (Except Stop)

namespace Fs

/-- A page of zeros. -/
def zero (s : Fs) (b : Nat) : Fs :=
  { s with
    word := fun w => if w / 1024 = b then 0 else s.word w
    mapped := Function.update s.mapped b true
    pteD := Function.update s.pteD b false }

/-- An access to a page that is not there gets a page of zeros. -/
def touch (s : Fs) (b : Nat) : Fs := if s.mapped b = true then s else s.zero b

/-- A store of the server itself: the hardware sets `PTE_D`. -/
def store (s : Fs) (w v : Nat) : Fs :=
  let s := s.touch (w / 1024)
  { s with
    word := Function.update s.word w (uInt v)
    pteD := Function.update s.pteD (w / 1024) true }

/-- `diskaddr`: the page of a block, with the arithmetic of `u_int`. -/
def page (b : Nat) : Nat := b % 2 ^ 20

def blockWord (b i : Nat) : Nat := 1024 * page b + i

/-- `ide_read` of a block into its page. The kernel makes the stores. -/
def fill (s : Fs) (b : Nat) : Fs :=
  { s with
    word := fun w => if w / 1024 = page b then s.disk (1024 * b + w % 1024) else s.word w
    mapped := Function.update s.mapped (page b) true
    pteD := Function.update s.pteD (page b) false }

/-- `ide_write` of a block from its page. -/
def flush (s : Fs) (b : Nat) : Fs :=
  { s with disk := fun w => if w / 1024 = b then s.word (blockWord b (w % 1024)) else s.disk w }

/-- A byte of the cache. -/
def byte (s : Fs) (i : Nat) : Nat := (s.word (i / 4) >>> (8 * (i % 4))) % 256

/-- `strcmp(f->f_name, name) == 0`. -/
def nameIs (s : Fs) (f : Nat) (name : List Nat) : Bool :=
  (List.range name.length).all (fun i => s.byte (4 * f + i) == name.getD i 0) &&
    s.byte (4 * f + name.length) == 0

/-! The fields of `struct File`, and `super`. -/

def fSize (f : Nat) : Nat := f + 32
def fType (f : Nat) : Nat := f + 33
def fDirect (f i : Nat) : Nat := f + 34 + i
def fIndirect (f : Nat) : Nat := f + 44
def fDirLow (f : Nat) : Nat := f + 45
def fDirHigh (f : Nat) : Nat := f + 46

def sNblocks : Nat := 1024 + 1
def sRoot : Nat := 1024 + 2

def ndirect : Nat := 10
def nindirect : Nat := 1024
def by2blk : Nat := 4096
def file2blk : Nat := 16
def ftypeDir : Nat := 1
def maxnamelen : Nat := 128

/-- `DISKMAP`. -/
def diskmap : Nat := 0x10000000

end Fs

namespace FsM

open Fs

def stop {α : Type} (x : Stop) : FsM α := fun _ => .error x

def load (w : Nat) : FsM Nat := fun s => .ok ((s.touch (w / 1024)).word w, s.touch (w / 1024))

def store (w v : Nat) : FsM Unit := fun s => .ok ((), s.store w v)

/-- `syscall_mem_alloc`: does it return 0? -/
def memAlloc : FsM Bool := fun s => .ok (s.memory s.asked, { s with asked := s.asked + 1 })

def blockIsMapped (b : Nat) : FsM Bool := fun s => .ok (s.mapped (page b), s)

/-- `va_is_dirty` looks at `PTE_D`. -/
def vaIsDirty (b : Nat) : FsM Bool := fun s => .ok (s.pteD (page b), s)

def blockIsDirty (b : Nat) : FsM Bool := do
  if ← blockIsMapped b then vaIsDirty b else pure false

/-- `dirty_block`. The bit it passes, `PTE_DIRTY`, is `PTE_R`: the page is mapped
where it is with the permissions of a clean page. -/
def dirtyBlock (b : Nat) : FsM Int := do
  if ← blockIsMapped b then
    if ← vaIsDirty b then pure 0
    else fun s => .ok (0, { s with pteD := Function.update s.pteD (page b) false })
  else pure (-eNotFound)

def writeBlock (b : Nat) : FsM Unit := do
  if ← blockIsMapped b then fun s => .ok ((), s.flush b)
  else stop (.panic "write unmapped block %08x")

def blockIsFree (b : Nat) : FsM Bool := do
  if (← load sNblocks) ≤ b then pure false
  else do
    let w ← load (blockWord 2 (b / 32))
    pure (w.testBit (b % 32))

/-- The page of a block that is not there. If `syscall_mem_alloc` fails the
kernel tries again in `sys_read_sector`, and does without a page then. -/
def loadBlock (b : Nat) : FsM Unit := do
  if ← memAlloc then fun s => .ok ((), s.fill b)
  else if ← memAlloc then fun s => .ok ((), s.fill b)
  else stop .halt

def readBlock (b : Nat) : FsM Unit := do
  if (← load sNblocks) ≤ b then stop (.panic "reading non-existent block %08x\n")
  else if ← blockIsFree b then stop (.panic "reading free block %08x\n")
  else if ← blockIsMapped b then pure ()
  else loadBlock b

def mapBlock (b : Nat) : FsM Int := do
  if ← blockIsMapped b then pure 0
  else if ← memAlloc then fun s => .ok (0, s.zero (page b))
  else pure (-eNoMem)

def freeBlock (b : Nat) : FsM Unit := do
  if b = 0 ∨ (← load sNblocks) ≤ b then pure ()
  else do
    let w ← load (blockWord 2 (b / 32))
    store (blockWord 2 (b / 32)) (w ||| 1 <<< (b % 32))

/-- The loop of `alloc_block_num`. -/
def allocFrom : Nat → Nat → FsM (Except Int Nat)
  | 0, _ => pure (.error (-eNoDisk))
  | n + 1, b => do
    if b < (← load sNblocks) then do
      let w ← load (blockWord 2 (b / 32))
      if w.testBit (b % 32) then do
        store (blockWord 2 (b / 32)) (w &&& (2 ^ 32 - 1 - 1 <<< (b % 32)))
        writeBlock (b / (8 * by2blk) + 2)
        pure (.ok b)
      else allocFrom n (b + 1)
    else pure (.error (-eNoDisk))

def allocBlockNum : FsM (Except Int Nat) := do
  allocFrom (← load sNblocks) 3

def allocBlock : FsM (Except Int Nat) := do
  match ← allocBlockNum with
  | .error r => pure (.error r)
  | .ok b =>
    let r ← mapBlock b
    if r < 0 then do
      freeBlock b
      pure (.error r)
    else pure (.ok b)

/-- The entry of the indirect block. -/
def indirectEntry (f filebno : Nat) : FsM (Except Int Nat) := do
  let b ← load (fIndirect f)
  readBlock b
  pure (.ok (blockWord b filebno))

/-- `file_block_walk`: where the number of the block is. -/
def fileBlockWalk (f filebno : Nat) (alloc : Bool) : FsM (Except Int Nat) := do
  if filebno < ndirect then pure (.ok (fDirect f filebno))
  else if filebno < nindirect then
    if (← load (fIndirect f)) = 0 then
      if alloc then
        match ← allocBlock with
        | .error r => pure (.error r)
        | .ok b => do
          store (fIndirect f) b
          indirectEntry f filebno
      else pure (.error (-eNotFound))
    else indirectEntry f filebno
  else pure (.error (-eInval))

def fileMapBlock (f filebno : Nat) (alloc : Bool) : FsM (Except Int Nat) := do
  match ← fileBlockWalk f filebno alloc with
  | .error r => pure (.error r)
  | .ok ptr =>
    if (← load ptr) = 0 then
      if alloc then
        match ← allocBlock with
        | .error r => pure (.error r)
        | .ok b => do
          store ptr b
          pure (.ok (← load ptr))
      else pure (.error (-eNotFound))
    else pure (.ok (← load ptr))

def fileClearBlock (f filebno : Nat) : FsM Int := do
  match ← fileBlockWalk f filebno false with
  | .error r => pure r
  | .ok ptr => do
    let b ← load ptr
    if b ≠ 0 then do
      freeBlock b
      store ptr 0
      pure 0
    else pure 0

/-- `file_get_block`: the number of the block, which is in the cache then. -/
def fileGetBlock (f filebno : Nat) : FsM (Except Int Nat) := do
  match ← fileMapBlock f filebno true with
  | .error r => pure (.error r)
  | .ok b => do
    readBlock b
    pure (.ok b)

def fileDirty (f offset : Nat) : FsM Int := do
  match ← fileMapBlock f (offset / by2blk) false with
  | .error r => pure r
  | .ok b => dirtyBlock b

/-- `f->f_dir = dir`. -/
def setDir (f dir : Nat) : FsM Unit := do
  store (fDirLow f) (diskmap + 4 * dir)
  store (fDirHigh f) ((diskmap + 4 * dir) / 2 ^ 32)

/-- `f->f_dir`, which is NULL or points into the cache. -/
def getDir (f : Nat) : FsM (Option Nat) := do
  let low ← load (fDirLow f)
  let high ← load (fDirHigh f)
  if low = 0 ∧ high = 0 then pure none
  else if high = 0 ∧ diskmap ≤ low ∧ low % 4 = 0 then pure (some ((low - diskmap) / 4))
  else stop .undefined

/-- The slot of a directory block that has the name. -/
def findName (s : Fs) (b : Nat) (name : List Nat) : Option Nat :=
  ((List.range file2blk).map fun j => blockWord b (64 * j)).find? fun f => s.nameIs f name

/-- The loop of `dir_lookup`, from block `i` on. -/
def lookupFrom (dir : Nat) (name : List Nat) : Nat → Nat → FsM (Except Int Nat)
  | 0, _ => pure (.error (-eNotFound))
  | n + 1, i => do
    match ← fileGetBlock dir i with
    | .error r => pure (.error r)
    | .ok b =>
      match findName (← get) b name with
      | some f => do
        setDir f dir
        pure (.ok f)
      | none => lookupFrom dir name n (i + 1)

def dirLookup (dir : Nat) (name : List Nat) : FsM (Except Int Nat) := do
  let size ← load (fSize dir)
  lookupFrom dir name (size / by2blk) 0

/-- A slot of a directory block whose name is empty. -/
def findFree (s : Fs) (b : Nat) : Option Nat :=
  ((List.range file2blk).map fun j => blockWord b (64 * j)).find? fun f => s.byte (4 * f) == 0

/-- The loop of `dir_alloc_file`; after the last block a new one is added. -/
def allocFileFrom (dir : Nat) : Nat → Nat → FsM (Except Int Nat)
  | 0, i => do
    store (fSize dir) ((← load (fSize dir)) + by2blk)
    match ← fileGetBlock dir i with
    | .error r => pure (.error r)
    | .ok b => pure (.ok (blockWord b 0))
  | n + 1, i => do
    match ← fileGetBlock dir i with
    | .error r => pure (.error r)
    | .ok b =>
      match findFree (← get) b with
      | some f => pure (.ok f)
      | none => allocFileFrom dir n (i + 1)

def dirAllocFile (dir : Nat) : FsM (Except Int Nat) := do
  let size ← load (fSize dir)
  allocFileFrom dir (size / by2blk) 0

/-- `'/'`. -/
def slash : Nat := 47

def skipSlash (path : List Nat) : List Nat := path.dropWhile (· == slash)

/-- What `walk_path` returns and stores. -/
structure Walk where
  code : Int
  dir : Option Nat
  file : Option Nat
  lastelem : Option (List Nat)

/-- The loop of `walk_path`, which ends with the path. -/
def walkFrom : Nat → List Nat → Option Nat → Nat → FsM Walk
  | 0, _, dir, file => pure ⟨0, dir, some file, none⟩
  | n + 1, path, dir, file => do
    if path = [] then pure ⟨0, dir, some file, none⟩
    else
      let name := path.takeWhile (· != slash)
      let rest := skipSlash (path.dropWhile (· != slash))
      if maxnamelen ≤ name.length then pure ⟨-eBadPath, none, none, none⟩
      else if (← load (fType file)) ≠ ftypeDir then pure ⟨-eNotFound, none, none, none⟩
      else match ← dirLookup file name with
        | .ok f => walkFrom n rest (some file) f
        | .error r =>
          if r = -eNotFound ∧ rest = [] then pure ⟨r, some file, none, some name⟩
          else pure ⟨r, none, none, none⟩

def walkPath (path : List Nat) : FsM Walk :=
  walkFrom path.length (skipSlash path) none sRoot

def fileOpen (path : List Nat) : FsM (Except Int Nat) := do
  let w ← walkPath path
  match w.file with
  | some f => if w.code < 0 then pure (.error w.code) else pure (.ok f)
  | none => pure (.error w.code)

/-- The loop of `file_truncate`. -/
def clearFrom (f : Nat) : Nat → Nat → FsM Unit
  | 0, _ => pure ()
  | n + 1, bno => do
    let _ ← fileClearBlock f bno
    clearFrom f n (bno + 1)

def fileTruncate (f newsize : Nat) : FsM Unit := do
  let old := (← load (fSize f)) / by2blk + 1
  let new := if newsize = 0 then 0 else newsize / by2blk + 1
  clearFrom f (old - new) new
  if new ≤ ndirect then do
    let b ← load (fIndirect f)
    if b ≠ 0 then do
      freeBlock b
      store (fIndirect f) 0
  store (fSize f) newsize

/-- The loop of `file_flush`. -/
def flushFrom (f : Nat) : Nat → Nat → FsM Unit
  | 0, _ => pure ()
  | n + 1, bno => do
    match ← fileMapBlock f bno false with
    | .error _ => flushFrom f n (bno + 1)
    | .ok b => do
      if ← blockIsDirty b then writeBlock b
      flushFrom f n (bno + 1)

def fileFlush (f : Nat) : FsM Unit := do
  let size ← load (fSize f)
  flushFrom f (size / by2blk + 1) 0

/-- `if (f->f_dir) file_flush(f->f_dir)`. -/
def flushDir (f : Nat) : FsM Unit := do
  match ← getDir f with
  | none => pure ()
  | some dir => fileFlush dir

def fileSetSize (f newsize : Nat) : FsM Int := do
  if newsize < (← load (fSize f)) then fileTruncate f newsize
  store (fSize f) newsize
  flushDir f
  pure 0

/-- The loop of `fs_sync`. -/
def syncFrom : Nat → Nat → FsM Unit
  | 0, _ => pure ()
  | n + 1, i => do
    if ← blockIsDirty i then writeBlock i
    syncFrom n (i + 1)

def fsSync : FsM Unit := do
  syncFrom (← load sNblocks) 0

def fileClose (f : Nat) : FsM Unit := do
  fileFlush f
  flushDir f

def fileRemove (path : List Nat) : FsM Int := do
  match ← fileOpen path with
  | .error r => pure r
  | .ok f => do
    fileTruncate f 0
    -- `f->f_name[0] = '\0'`
    store f ((← load f) / 256 * 256)
    fileFlush f
    flushDir f
    pure 0

end FsM

end RiscvMos
