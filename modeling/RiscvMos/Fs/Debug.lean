import RiscvMos.Fs.Model

/-!
The functions of `fs/fs.c` that print files and directories, which look files up
on their own. What they print is left out.
-/

namespace RiscvMos

/-- What a loop over the blocks of a file does next. -/
inductive Found where
  | quit (r : Int)
  | skip
  | block (b : Nat)

namespace FsM

open Fs

/-- A block number that is 0 is that of a new block, which is not stored. -/
def numbered (alloc : Bool) (b : Nat) : FsM Found := do
  if b = 0 then
    if alloc then
      match ← allocBlock with
      | .error r => pure (.quit r)
      | .ok b => pure (.block b)
    else pure .skip
  else pure (.block b)

def indirectNumber (f i : Nat) (alloc : Bool) : FsM Found := do
  let b ← load (fIndirect f)
  readBlock b
  numbered alloc (← load (blockWord b i))

/-- The head of these loops; where nothing is allocated a missing block is left out. -/
def findBlock (f i : Nat) (alloc : Bool) : FsM Found := do
  if i < ndirect then numbered alloc (← load (fDirect f i))
  else if i < nindirect then
    if (← load (fIndirect f)) = 0 then
      if alloc then
        match ← allocBlock with
        | .error r => pure (.quit r)
        | .ok b => do
          store (fIndirect f) b
          indirectNumber f i alloc
      else pure .skip
    else indirectNumber f i alloc
  else pure (.quit (-eInval))

/-- The loop of `dir_lookup1`. -/
def lookup1From (dir : Nat) (name : List Nat) : Nat → Nat → FsM (Except Int Nat)
  | 0, _ => pure (.error (-eNotFound))
  | n + 1, i => do
    match ← findBlock dir i true with
    | .quit r => pure (.error r)
    | .skip => lookup1From dir name n (i + 1)
    | .block b => do
      readBlock b
      match findName (← get) b name with
      | some f => do
        setDir f dir
        pure (.ok f)
      | none => lookup1From dir name n (i + 1)

def dirLookup1 (dir : Nat) (name : List Nat) : FsM (Except Int Nat) := do
  let size ← load (fSize dir)
  lookup1From dir name (size / by2blk) 0

/-- The loop of `get_file_relative`, which ends with the path. -/
def relativeFrom : Nat → Nat → List Nat → FsM (Option Nat)
  | 0, file, _ => pure (some file)
  | n + 1, file, path => do
    if path = [] then pure (some file)
    else
      let path := if path.head? = some slash then path.tail else path
      let name := path.takeWhile (· != slash)
      if maxnamelen < name.length then pure none
      -- `name[len] = '\0'` is behind the buffer
      else if name.length = maxnamelen then stop .undefined
      else if (← load (fType file)) ≠ ftypeDir then pure none
      else match ← dirLookup1 file name with
        | .error _ => pure none
        | .ok f => relativeFrom n f (path.dropWhile (· != slash))

def getFileRelative (relative : Nat) (path : List Nat) : FsM (Option Nat) :=
  relativeFrom path.length relative path

def getFileAbsolute (path : List Nat) : FsM (Option Nat) := getFileRelative sRoot path

def loadByte (i : Nat) : FsM Nat := do
  pure (((← load (i / 4)) >>> (8 * (i % 4))) % 256)

/-- The length of a string, if it is less than `n`. -/
def strlen : Nat → Nat → FsM (Option Nat)
  | 0, _ => pure none
  | n + 1, i => do
    if (← loadByte i) = 0 then pure (some 0)
    else do
      let rest ← strlen n (i + 1)
      pure (rest.map (· + 1))

def maxpathlen : Nat := 1024

/-- The loop of `get_path`, with what is left of the buffer. -/
def getPathFrom : Nat → Nat → Nat → FsM Unit
  | 0, _, _ => stop .undefined
  | n + 1, f, left => do
    match ← strlen left (4 * f) with
    | none => stop .undefined
    | some len =>
      -- the name and `'/'`
      if left ≤ len + 1 then stop .undefined
      else match ← getDir f with
        | none => pure ()
        | some dir => do
          if (← loadByte (4 * dir)) = slash ∧ (← loadByte (4 * dir + 1)) = 0 then pure ()
          else getPathFrom n dir (left - (len + 1))

def getPath (f : Nat) : FsM Unit := getPathFrom maxpathlen f maxpathlen

/-- The first loop of `debug_file`: is it left with `return`? -/
def listFrom (f : Nat) : Nat → Nat → FsM Bool
  | 0, _ => pure false
  | n + 1, i => do
    match ← findBlock f i false with
    | .quit _ => pure true
    | _ => listFrom f n (i + 1)

/-- The second one. -/
def printFrom (f : Nat) : Nat → Nat → FsM Unit
  | 0, _ => pure ()
  | n + 1, i => do
    match ← findBlock f i true with
    | .block b => do
      readBlock b
      let size ← load (fSize f)
      if by2blk * i ≤ size ∧ size < by2blk * i + by2blk then pure () else printFrom f n (i + 1)
    | _ => pure ()

def debugFile (f : Nat) : FsM Unit := do
  if (← loadByte (4 * f)) = 0 then pure ()
  else do
    getPath f
    let size ← load (fSize f)
    if ← listFrom f (size / by2blk + 1) 0 then pure () else printFrom f (size / by2blk + 1) 0

/-- The loop of `debug_dir`. -/
def dirFrom (dir : Nat) : Nat → Nat → FsM Unit
  | 0, _ => pure ()
  | n + 1, i => do
    match ← findBlock dir i false with
    | .quit _ => pure ()
    | .skip => dirFrom dir n (i + 1)
    | .block b => do
      readBlock b
      dirFrom dir n (i + 1)

def debugDir (dir : Nat) : FsM Unit := do
  if (← loadByte (4 * dir)) = 0 then pure ()
  else do
    let size ← load (fSize dir)
    dirFrom dir (size / by2blk) 0

/-- The loop of `to_tree_dir`; `tree` is the call for a directory in it. -/
def treeFrom (tree : Nat → FsM Unit) (dir : Nat) : Nat → Nat → FsM Unit
  | 0, _ => pure ()
  | n + 1, i => do
    match ← findBlock dir i true with
    | .block b => do
      readBlock b
      ((List.range file2blk).map fun j => blockWord b (64 * j)).forM fun f => do
        if (← loadByte (4 * f)) = 0 ∨ (← load (fType f)) = 0 then pure () else tree f
      treeFrom tree dir n (i + 1)
    | _ => pure ()

/-- `to_tree_dir`, as far as the stack lasts. -/
def toTreeDir : Nat → Nat → FsM Unit
  | 0, _ => stop .undefined
  | stack + 1, dir => do
    let size ← load (fSize dir)
    treeFrom (toTreeDir stack) dir (size / by2blk) 0

def treeRoot (stack : Nat) : FsM Unit := toTreeDir stack sRoot

end FsM

end RiscvMos
