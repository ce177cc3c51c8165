import RiscvMos.Fs.Init
import RiscvMos.Fs.Blocks

/-!
`tools/fsformat.c`: the image of a disk with files and directories of the host.
-/

namespace RiscvMos

open Fs

namespace Format

inductive BlockType where
  | free
  | boot
  | bmap
  | super
  | data
  | file
  | index
  deriving DecidableEq, Repr

/-- What a directory of the host holds, in the order of `readdir`. -/
inductive Entries where
  | nil
  | file (name content : List Nat) (rest : Entries)
  | dir (name : List Nat) (entries rest : Entries)
  deriving Repr

/-- `disk`, with `super` where `finish_fs` puts it. A `File *` is the number of its first word. -/
structure Image where
  word : Nat → Nat
  type : Nat → BlockType
  nextbno : Nat

/-- `none`: an assertion fails, the tool exits, or it stores behind the end of an array. -/
abbrev FormatM := StateT Image Option

def numBlock : Nat := 1024
def nbitblock : Nat := (numBlock + bit2blk - 1) / bit2blk

def stop {α : Type} : FormatM α := fun _ => none

def load (w : Nat) : FormatM Nat := fun d => some (d.word w, d)

def store (w v : Nat) : FormatM Unit := fun d =>
  some ((), { d with word := Function.update d.word w (uInt v) })

/-- Bytes of the disk, one after the other. -/
def putBytes : Nat → List Nat → FormatM Unit
  | _, [] => pure ()
  | i, b :: bs => do
    store (i / 4) (FsM.setByte (← load (i / 4)) (i % 4) b)
    putBytes (i + 1) bs

/-- The bits of the blocks of the disk are set, those behind its end are not. -/
def initWord (w : Nat) : Nat :=
  if 2 ≤ w / 1024 ∧ w / 1024 < 2 + nbitblock then
    if w / 1024 = 2 + (nbitblock - 1) ∧ numBlock % bit2blk / 8 ≤ 4 * (w % 1024) then 0
    else 2 ^ 32 - 1
  else if w = 1024 then fsMagic
  else if w = sNblocks then numBlock
  else if w = fType sRoot then ftypeDir
  else if w = sRoot then FsM.slash
  else 0

def initDisk : Image where
  word := initWord
  type b :=
    if b = 0 then .boot else if b = 1 then .super else if b < 2 + nbitblock then .bmap else .free
  nextbno := 2 + nbitblock

def nextBlock (type : BlockType) : FormatM Nat := fun d =>
  if d.nextbno < numBlock then
    some (d.nextbno, { d with type := Function.update d.type d.nextbno type
                              nextbno := d.nextbno + 1 })
  else none

def saveBlockLink (f nblk bno : Nat) : FormatM Unit := do
  -- the assertion
  if nindirect ≤ nblk then stop
  else if nblk < ndirect then store (fDirect f nblk) bno
  else do
    if (← load (fIndirect f)) = 0 then store (fIndirect f) (← nextBlock .index)
    store (blockWord (← load (fIndirect f)) nblk) bno

def makeLinkBlock (dirf nblk : Nat) : FormatM Nat := do
  let bno ← nextBlock .file
  saveBlockLink dirf nblk bno
  store (fSize dirf) ((← load (fSize dirf)) + by2blk)
  pure bno

/-- The number of block `i` of a directory. -/
def linkAt (dirf i : Nat) : FormatM Nat := do
  if i < ndirect then load (fDirect dirf i)
  else load (blockWord (← load (fIndirect dirf)) i)

/-- A `File` of the block whose name is empty. -/
def unusedIn (c : Nat → Nat) (bno : Nat) : Option Nat :=
  (filesIn bno).find? fun f => cellByte c (4 * f) == 0

/-- The loop of `create_file`, from block `i` on. -/
def createFileFrom (dirf : Nat) : Nat → Nat → FormatM Nat
  | 0, i => do
    let bno ← makeLinkBlock dirf i
    pure (blockWord bno 0)
  | n + 1, i => do
    let bno ← linkAt dirf i
    match unusedIn (← get).word bno with
    | some f => pure f
    | none => createFileFrom dirf n (i + 1)

def createFile (dirf : Nat) : FormatM Nat := do
  let size ← load (fSize dirf)
  createFileFrom dirf (size / by2blk) 0

/-- `read(fd, disk[nextbno].data, n)`. -/
def readBlock (bytes : List Nat) : FormatM Unit := do
  let bno := (← get).nextbno
  if bno < numBlock then putBytes (by2blk * bno) bytes else stop

/-- The loop of `write_file`: `content` is what is left to read. -/
def writeBlocks (f : Nat) : Nat → Nat → List Nat → FormatM Unit
  | 0, _, _ => pure ()
  | n + 1, iblk, content => do
    if content = [] then pure ()
    else do
      readBlock (content.take by2blk)
      saveBlockLink f iblk (← nextBlock .data)
      writeBlocks f n (iblk + 1) (content.drop by2blk)

def writeFile (dirf : Nat) (name content : List Nat) : FormatM Unit := do
  let target ← createFile dirf
  if maxnamelen ≤ name.length then stop
  else do
    -- `strcpy`
    putBytes (4 * target) (name ++ [0])
    store (fSize target) content.length
    store (fType target) 0
    writeBlocks target (content.length / by2blk + 1) 0 content

/-- `write_directory` before it reads the directory. -/
def makeDirectory (dirf : Nat) (name : List Nat) : FormatM Nat := do
  let pdir ← createFile dirf
  -- `strncpy` pads with zeros
  putBytes (4 * pdir) (name.take 127 ++ List.replicate (127 - name.length) 0)
  if cellByte (← get).word (4 * pdir + 127) ≠ 0 then stop
  else do
    store (fType pdir) ftypeDir
    pure pdir

/-- `write_file` or `write_directory`, one after the other. -/
def write : Nat → Entries → FormatM Unit
  | _, .nil => pure ()
  | dirf, .file name content rest => do
    writeFile dirf name content
    write dirf rest
  | dirf, .dir name entries rest => do
    let pdir ← makeDirectory dirf name
    write pdir entries
    write dirf rest

/-- The bit of a block is cleared. -/
def useBit (c : Nat → Nat) (i : Nat) : Nat → Nat :=
  let w := blockWord (2 + i / bit2blk) (i % bit2blk / 32)
  Function.update c w (c w &&& (2 ^ 32 - 1 - 1 <<< (i % 32)))

def flushBitmap (d : Image) : Image := { d with word := (List.range d.nextbno).foldl useBit d.word }

/-- The image that `main` writes. -/
def format (entries : Entries) : Option Image := do
  let (_, d) ← write sRoot entries initDisk
  some (flushBitmap d)

end Format

end RiscvMos
