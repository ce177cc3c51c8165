import RiscvMos.Lib.Except
import RiscvMos.Fs.Cells

/-!
The functions on blocks that `fs/fs.c` has twice: the second versions walk the
pointers of a file on their own. As computations they are compared with the first
ones, so that result, cache, bitmap and disk are the same from every state.
-/

namespace RiscvMos.FsM

open Fs

/-! ## The second versions -/

/-- The end of `get_block_file`. -/
def foundBlock (b : Nat) : FsM (Except Int Nat) :=
  if b = 0 then pure (.error (-eNotFound)) else pure (.ok b)

def getBlockFile (f filebno : Nat) : FsM (Except Int Nat) := do
  if filebno < ndirect then foundBlock (← load (fDirect f filebno))
  else if filebno < nindirect then
    if (← load (fIndirect f)) = 0 then pure (.error (-eNotFound))
    else do
      let b ← load (fIndirect f)
      readBlock b
      foundBlock (← load (blockWord b filebno))
  else pure (.error (-eInval))

/-- The end of `free_block_file`. -/
def freeEntry (ptr : Nat) : FsM Int := do
  let b ← load ptr
  if b ≠ 0 then do
    freeBlock b
    store ptr 0
    pure 0
  else pure 0

def freeBlockFile (f filebno : Nat) : FsM Int := do
  if filebno < ndirect then freeEntry (fDirect f filebno)
  else if filebno < nindirect then
    if (← load (fIndirect f)) = 0 then pure (-eNotFound)
    else do
      let b ← load (fIndirect f)
      readBlock b
      freeEntry (blockWord b filebno)
  else pure (-eInval)

/-- The loop of `size_file`. -/
def freeFrom (f : Nat) : Nat → Nat → FsM Unit
  | 0, _ => pure ()
  | n + 1, bno => do
    let _ ← freeBlockFile f bno
    freeFrom f n (bno + 1)

def sizeFile (f newsize : Nat) : FsM Int := do
  if newsize < (← load (fSize f)) then do
    let old := (← load (fSize f)) / by2blk + 1
    let new := if newsize = 0 then 0 else newsize / by2blk + 1
    freeFrom f (old - new) new
    if new ≤ ndirect then do
      let b ← load (fIndirect f)
      if b ≠ 0 then do
        freeBlock b
        store (fIndirect f) 0
  store (fSize f) newsize
  flushDir f
  pure 0

/-- The same text as `file_flush`. -/
def flushFile (f : Nat) : FsM Unit := do
  let size ← load (fSize f)
  flushFrom f (size / by2blk + 1) 0

/-- The number of a block, which is 0 where `file_flush1` goes on to the next. -/
def flush1Number (f bno : Nat) : FsM Nat := do
  if bno < ndirect then load (fDirect f bno)
  else if bno < nindirect then
    if (← load (fIndirect f)) = 0 then pure 0
    else do
      let b ← load (fIndirect f)
      readBlock b
      load (blockWord b bno)
  else pure 0

/-- The loop of `file_flush1`. -/
def flush1From (f : Nat) : Nat → Nat → FsM Unit
  | 0, _ => pure ()
  | n + 1, bno => do
    let diskno ← flush1Number f bno
    if diskno = 0 then flush1From f n (bno + 1)
    else do
      if ← blockIsDirty diskno then writeBlock diskno
      flush1From f n (bno + 1)

def fileFlush1 (f : Nat) : FsM Unit := do
  let size ← load (fSize f)
  flush1From f (size / by2blk + 1) 0

/-- What `alloc_block1` does with the free block it found. -/
def mapFound (bno : Nat) : FsM (Except Int Nat) := do
  if ← blockIsMapped bno then pure (.ok bno)
  else if ← memAlloc then fun s => .ok (.ok bno, s.zero (page bno))
  else do
    let w ← load (blockWord 2 (bno / 32))
    store (blockWord 2 (bno / 32)) (w ||| 1 <<< (bno % 32))
    pure (.error (-eNoMem))

/-- The loop of `alloc_block1`. -/
def alloc1From : Nat → Nat → FsM (Except Int Nat)
  | 0, _ => pure (.error (-eNoDisk))
  | n + 1, bno => do
    if bno < (← load sNblocks) then do
      let w ← load (blockWord 2 (bno / 32))
      if w.testBit (bno % 32) then do
        store (blockWord 2 (bno / 32)) (w &&& (2 ^ 32 - 1 - 1 <<< (bno % 32)))
        writeBlock (bno / (8 * by2blk) + 2)
        mapFound bno
      else alloc1From n (bno + 1)
    else pure (.error (-eNoDisk))

def allocBlock1 : FsM (Except Int Nat) := do
  alloc1From (← load sNblocks) 3

/-- `alloc_block_file`, with what `*pdiskbno` holds before: the code, and what it holds
after. The walk is that of `file_block_walk`. -/
def allocEntry (ptr init : Nat) : FsM (Int × Nat) := do
  if (← load ptr) = 0 then
    match ← allocBlock with
    | .error r => pure (r, init)
    | .ok b => do
      store ptr b
      -- `if (*pdiskbno)`
      if init ≠ 0 then pure (0, ← load ptr) else pure (0, init)
  else if init ≠ 0 then pure (0, ← load ptr)
  else pure (0, init)

def allocBlockFile (f filebno init : Nat) : FsM (Int × Nat) := do
  if filebno < ndirect then allocEntry (fDirect f filebno) init
  else if filebno < nindirect then
    if (← load (fIndirect f)) = 0 then
      match ← allocBlock with
      | .error r => pure (r, init)
      | .ok b => do
        store (fIndirect f) b
        let b ← load (fIndirect f)
        readBlock b
        allocEntry (blockWord b filebno) init
    else do
      let b ← load (fIndirect f)
      readBlock b
      allocEntry (blockWord b filebno) init
  else pure (-eInval, init)

/-! ## Loads -/

section Loads
variable {α β : Type} {s s' : Fs} {w : Nat}

theorem load_eq (w : Nat) (s : Fs) :
    load w s = .ok ((s.touch (w / 1024)).word w, s.touch (w / 1024)) := rfl

theorem store_eq (w v : Nat) (s : Fs) : store w v s = .ok ((), s.store w v) := rfl

theorem store_word (s : Fs) (w v : Nat) : (s.store w v).word w = uInt v :=
  Function.update_self w _ _

theorem touch_self (s : Fs) (b : Nat) : (s.touch b).mapped b = true := by
  unfold touch
  split_ifs with mapped
  · exact mapped
  · exact Function.update_self b true s.mapped

theorem store_cached (s : Fs) (w v : Nat) : (s.store w v).mapped (w / 1024) = true := touch_self s _

/-- Behind a load its word is in the cache. -/
theorem load_bind_congr {g g' : Nat → FsM α}
    (h : ∀ s, s.mapped (w / 1024) = true → g (s.word w) s = g' (s.word w) s) :
    (load w >>= g) = (load w >>= g') := by
  funext s
  exact h (s.touch (w / 1024)) (touch_self s _)

theorem load_again (h : s.mapped (w / 1024) = true) (k : Nat → FsM α) :
    (load w >>= k) s = k (s.word w) s := by
  show k ((s.touch (w / 1024)).word w) (s.touch (w / 1024)) = _
  have same : s.touch (w / 1024) = s := if_pos h
  rw [same]

theorem bind_congr_at {x : FsM α} {g g' : α → FsM β}
    (h : ∀ a s', x s = .ok (a, s') → g a s' = g' a s') :
    (x >>= g) s = (x >>= g') s := by
  show (x s >>= fun p => g p.1 p.2) = (x s >>= fun p => g' p.1 p.2)
  cases out : x s with
  | error e => rfl
  | ok p => exact h p.1 p.2 out

theorem bind_congr_right {x : FsM α} {g g' : α → FsM β} (h : ∀ a, g a = g' a) :
    (x >>= g) = (x >>= g') :=
  congrArg (x >>= ·) (funext h)

end Loads

section Same
variable (f filebno : Nat)

/-- The end of `file_map_block` without allocation. -/
theorem foundBlock_eq (ptr : Nat) :
    (do if (← load ptr) = 0 then pure (.error (-eNotFound)) else pure (.ok (← load ptr))) =
      (load ptr >>= foundBlock : FsM (Except Int Nat)) := by
  apply load_bind_congr
  intro s mapped
  unfold foundBlock
  split_ifs with zero
  · rfl
  · exact load_again mapped _

theorem getBlockFile_eq : getBlockFile f filebno = fileMapBlock f filebno false := by
  unfold getBlockFile fileMapBlock fileBlockWalk indirectEntry
  simp only [Bool.false_eq_true, if_false]
  by_cases direct : filebno < ndirect
  · rw [if_pos direct, if_pos direct, pure_bind]
    exact (foundBlock_eq _).symm
  · rw [if_neg direct, if_neg direct]
    by_cases below : filebno < nindirect
    · rw [if_pos below, if_pos below, bind_assoc]
      apply bind_congr_right
      intro b
      by_cases zero : b = 0
      · rw [if_pos zero, if_pos zero]
        rfl
      · rw [if_neg zero, if_neg zero]
        simp only [bind_assoc, pure_bind]
        apply bind_congr_right
        intro b
        apply bind_congr_right
        intro _
        exact (foundBlock_eq _).symm
    · rw [if_neg below, if_neg below]
      rfl

theorem freeBlockFile_eq : freeBlockFile f filebno = fileClearBlock f filebno := by
  unfold freeBlockFile fileClearBlock fileBlockWalk indirectEntry
  simp only [Bool.false_eq_true, if_false]
  by_cases direct : filebno < ndirect
  · rw [if_pos direct, if_pos direct, pure_bind]
    rfl
  · rw [if_neg direct, if_neg direct]
    by_cases below : filebno < nindirect
    · rw [if_pos below, if_pos below, bind_assoc]
      apply bind_congr_right
      intro b
      by_cases zero : b = 0
      · rw [if_pos zero, if_pos zero]
        rfl
      · rw [if_neg zero, if_neg zero]
        simp only [bind_assoc, pure_bind]
        rfl
    · rw [if_neg below, if_neg below]
      rfl

theorem freeFrom_eq (n bno : Nat) : freeFrom f n bno = clearFrom f n bno := by
  induction n generalizing bno with
  | zero => rfl
  | succ n ih =>
    unfold freeFrom clearFrom
    rw [freeBlockFile_eq, ih]

/-- A store that is made twice. -/
theorem store_again {α : Type} (w v : Nat) (k : Unit → FsM α) :
    (store w v >>= fun _ => store w v >>= k) = (store w v >>= k) := by
  funext s
  have again : (s.store w v).store w v = s.store w v := by
    have here : (s.store w v).touch (w / 1024) = s.store w v := if_pos (store_cached s w v)
    rw [Fs.store, here]
    simp only [Fs.store, Function.update_idem]
  exact congrArg (k ()) again

theorem sizeFile_eq (newsize : Nat) : sizeFile f newsize = fileSetSize f newsize := by
  unfold sizeFile fileSetSize fileTruncate
  apply bind_congr_right
  intro size
  by_cases smaller : newsize < size
  · simp only [smaller, if_true, bind_assoc]
    apply bind_congr_right
    intro size
    rw [freeFrom_eq]
    apply bind_congr_right
    intro _
    by_cases few : (if newsize = 0 then 0 else newsize / by2blk + 1) ≤ ndirect
    · simp only [few, if_true, bind_assoc]
      apply bind_congr_right
      intro b
      by_cases used : b ≠ 0
      · simp only [used, if_true, not_false_eq_true, bind_assoc, ne_eq]
        apply bind_congr_right
        intro _
        apply bind_congr_right
        intro _
        exact (store_again _ _ _).symm
      · simp only [used, if_false]
        exact (store_again _ _ _).symm
    · simp only [few, if_false]
      exact (store_again _ _ _).symm
  · simp only [smaller, if_false]

theorem foundBlock_number (b : Nat) (quit : FsM Unit) (k : Nat → FsM Unit) :
    (foundBlock b >>= fun
      | .error _ => quit
      | .ok b => k b) = if b = 0 then quit else k b := by
  unfold foundBlock
  by_cases zero : b = 0
  · rw [if_pos zero, if_pos zero]
    rfl
  · rw [if_neg zero, if_neg zero]
    rfl

/-- `file_flush1` goes on where `file_map_block` has no block. -/
theorem flush1Number_eq (quit : FsM Unit) (k : Nat → FsM Unit) :
    (flush1Number f filebno >>= fun diskno => if diskno = 0 then quit else k diskno) =
      (fileMapBlock f filebno false >>= fun
        | .error _ => quit
        | .ok b => k b) := by
  rw [← getBlockFile_eq]
  unfold flush1Number getBlockFile
  by_cases direct : filebno < ndirect
  · rw [if_pos direct, if_pos direct, bind_assoc]
    apply bind_congr_right
    intro b
    exact (foundBlock_number b quit k).symm
  · rw [if_neg direct, if_neg direct]
    by_cases below : filebno < nindirect
    · rw [if_pos below, if_pos below, bind_assoc, bind_assoc]
      apply bind_congr_right
      intro b
      by_cases zero : b = 0
      · rw [if_pos zero, if_pos zero]
        rfl
      · rw [if_neg zero, if_neg zero]
        simp only [bind_assoc]
        apply bind_congr_right
        intro b
        apply bind_congr_right
        intro _
        apply bind_congr_right
        intro b
        exact (foundBlock_number b quit k).symm
    · rw [if_neg below, if_neg below]
      rfl

theorem flush1From_eq (n bno : Nat) : flush1From f n bno = flushFrom f n bno := by
  induction n generalizing bno with
  | zero => rfl
  | succ n ih =>
    unfold flush1From flushFrom
    rw [ih]
    exact flush1Number_eq f bno _ _

theorem fileFlush1_eq : fileFlush1 f = fileFlush f := by
  unfold fileFlush1 fileFlush
  apply bind_congr_right
  intro size
  exact flush1From_eq f _ 0

/-- `super` is in the cache, and the block is one of the disk. -/
structure OnDisk (b : Nat) (s : Fs) : Prop where
  super : s.mapped 1 = true
  below : b < s.word sNblocks

theorem OnDisk.touch {b x : Nat} {s : Fs} (h : OnDisk b s) (hx : x ≠ 1) : OnDisk b (s.touch x) := by
  unfold Fs.touch
  split_ifs with mapped
  · exact h
  · have other : ¬ sNblocks / 1024 = x := fun same => hx same.symm
    constructor
    · simp only [zero, Function.update_of_ne hx.symm]
      exact h.super
    · simp only [zero, other, if_false]
      exact h.below

theorem OnDisk.store {b w v : Nat} {s : Fs} (h : OnDisk b s) (hw : w / 1024 ≠ 1) :
    OnDisk b (s.store w v) := by
  have touched := h.touch hw
  have other : sNblocks ≠ w := by
    rintro rfl
    exact hw rfl
  constructor
  · exact touched.super
  · simp only [Fs.store, Function.update_of_ne other]
    exact touched.below

theorem bitmap_not_super (i : Nat) : blockWord 2 i / 1024 ≠ 1 := by
  unfold blockWord page
  omega

/-- What `alloc_block` does with the number it gets. -/
def mapNumber (b : Nat) : FsM (Except Int Nat) := do
  let r ← mapBlock b
  if r < 0 then do
    freeBlock b
    pure (.error r)
  else pure (.ok b)

theorem mapFound_eq {b : Nat} (hb : b ≠ 0) {s : Fs} (h : OnDisk b s) :
    mapFound b s = mapNumber b s := by
  unfold mapFound mapNumber mapBlock
  cases mapped : s.mapped (page b) with
  | true =>
    have asks : blockIsMapped b s = .ok (true, s) := by rw [blockIsMapped, mapped]
    rw [bind_ok asks, if_pos rfl, bind_assoc, bind_ok asks, if_pos rfl, pure_bind]
    rfl
  | false =>
    have asks : blockIsMapped b s = .ok (false, s) := by rw [blockIsMapped, mapped]
    rw [bind_ok asks, if_neg Bool.false_ne_true, bind_assoc, bind_ok asks,
      if_neg Bool.false_ne_true, bind_assoc]
    cases found : s.memory s.asked with
    | true =>
      have gets : memAlloc s = .ok (true, { s with asked := s.asked + 1 }) := by
        rw [memAlloc, found]
      rw [bind_ok gets, bind_ok gets]
      rfl
    | false =>
      have gets : memAlloc s = .ok (false, { s with asked := s.asked + 1 }) := by
        rw [memAlloc, found]
      have count : load sNblocks { s with asked := s.asked + 1 } =
          .ok (s.word sNblocks, { s with asked := s.asked + 1 }) := by
        have here : ({ s with asked := s.asked + 1 } : Fs).touch 1 =
            { s with asked := s.asked + 1 } := if_pos h.super
        show Except.ok _ = _
        rw [show sNblocks / 1024 = 1 from rfl, here]
      have inside : ¬ (b = 0 ∨ s.word sNblocks ≤ b) := by
        intro out
        cases out with
        | inl zero => exact hb zero
        | inr above => exact Nat.not_le_of_lt h.below above
      rw [bind_ok gets, bind_ok gets]
      simp only [Bool.false_eq_true, if_false, pure_bind]
      rw [if_pos (by decide)]
      unfold freeBlock
      rw [bind_assoc, bind_ok count, if_neg inside, bind_assoc]

theorem writeBlock_onDisk {b x : Nat} {s s' : Fs} (h : OnDisk b s)
    (hw : writeBlock x s = .ok ((), s')) :
    OnDisk b s' := by
  obtain ⟨mapped, s₁, asks, write⟩ := StateT.bind_ok_iff.mp hw
  injection asks with asks
  injection asks with first second
  rw [← second] at write
  split_ifs at write
  · injection write with write
    injection write with _ write
    rw [← write]
    exact ⟨h.super, h.below⟩
  · cases write

/-- The loop finds the same block, and the end of `alloc_block` goes on with it. -/
theorem alloc1From_eq (n : Nat) {b : Nat} (hb : b ≠ 0) :
    alloc1From n b =
      (allocFrom n b >>= fun
        | .error r => pure (.error r)
        | .ok b => mapNumber b) := by
  induction n generalizing b with
  | zero => rfl
  | succ n ih =>
    unfold alloc1From allocFrom
    rw [bind_assoc]
    apply load_bind_congr
    intro s super
    by_cases below : b < s.word sNblocks
    · rw [if_pos below, if_pos below]
      have disk : OnDisk b s := ⟨super, below⟩
      rw [bind_assoc, bind_ok (load_eq _ s), bind_ok (load_eq _ s)]
      have disk₁ := disk.touch (bitmap_not_super (b / 32))
      generalize s.touch (blockWord 2 (b / 32) / 1024) = s₁ at disk₁ ⊢
      by_cases free : (s₁.word (blockWord 2 (b / 32))).testBit (b % 32) = true
      · rw [if_pos free, if_pos free]
        simp only [bind_assoc]
        have disk₂ :=
          disk₁.store (v := s₁.word (blockWord 2 (b / 32)) &&& (2 ^ 32 - 1 - 1 <<< (b % 32)))
          (bitmap_not_super (b / 32))
        apply bind_congr_at
        intro _ s₂ stores
        have same : s₁.store (blockWord 2 (b / 32)) _ = s₂ :=
          congrArg Prod.snd (Except.ok.inj stores)
        rw [same] at disk₂
        apply bind_congr_at
        intro _ s₃ writes
        rw [pure_bind]
        exact mapFound_eq hb (writeBlock_onDisk disk₂ writes)
      · rw [if_neg free, if_neg free, ih (Nat.succ_ne_zero b)]
    · rw [if_neg below, if_neg below]
      rfl

theorem allocBlock1_eq : allocBlock1 = allocBlock := by
  unfold allocBlock1 allocBlock allocBlockNum
  rw [bind_assoc]
  apply bind_congr_right
  intro n
  exact alloc1From_eq n (by decide)

end Same

/-- The second versions do what the first ones do, from every state. -/
theorem rewritten_blocks (f filebno newsize : Nat) :
    getBlockFile f filebno = fileMapBlock f filebno false ∧
    freeBlockFile f filebno = fileClearBlock f filebno ∧
      sizeFile f newsize = fileSetSize f newsize ∧ flushFile f = fileFlush f ∧
      fileFlush1 f = fileFlush f ∧
        allocBlock1 = allocBlock :=
  ⟨getBlockFile_eq f filebno, freeBlockFile_eq f filebno, sizeFile_eq f newsize, rfl,
    fileFlush1_eq f, allocBlock1_eq⟩

/-! ## `alloc_block_file` -/

section Alloc
variable {f filebno init ptr : Nat} {s : Fs}

/-- The end of `file_map_block` with allocation. -/
def mapEntry (ptr : Nat) : FsM (Except Int Nat) := do
  if (← load ptr) = 0 then
    match ← allocBlock with
    | .error r => pure (.error r)
    | .ok b => do
      store ptr b
      pure (.ok (← load ptr))
  else pure (.ok (← load ptr))

/-- The code and `*pdiskbno`, where the number is stored over a value that is not 0. -/
def output (init : Nat) : Except Int Nat → Int × Nat
  | .error r => (r, init)
  | .ok b => (0, if init = 0 then 0 else b)

theorem store_load {α : Type} (w v : Nat) (x : FsM α) :
    (store w v >>= fun _ => load w >>= fun _ => x) = (store w v >>= fun _ => x) := by
  funext s
  exact load_again (store_cached s w v) fun _ => x

theorem allocEntry_eq (ptr init : Nat) :
    allocEntry ptr init = (do pure (output init (← mapEntry ptr))) := by
  unfold allocEntry mapEntry
  rw [bind_assoc]
  apply load_bind_congr
  intro s mapped
  have unset (zero : init = 0) (b : Nat) : output init (.ok b) = (0, init) := by
    simp only [output, zero, if_true]
  have set (nonzero : init ≠ 0) (b : Nat) : output init (.ok b) = (0, b) := by
    simp only [output, nonzero, if_false]
  by_cases missing : s.word ptr = 0
  · rw [if_pos missing, if_pos missing, bind_assoc]
    apply congrFun
    apply bind_congr_right
    intro r
    cases r with
    | error r => rfl
    | ok b =>
      by_cases zero : init = 0
      · simp only [zero, ne_eq, not_true_eq_false, if_false, bind_assoc, pure_bind, output, if_true]
        exact (store_load ptr b _).symm
      · simp only [zero, ne_eq, not_false_eq_true, if_true, bind_assoc, pure_bind, output, if_false]
  · rw [if_neg missing, if_neg missing, bind_assoc, load_again mapped]
    by_cases zero : init = 0
    · rw [if_neg (not_not.mpr zero), pure_bind, unset zero]
    · rw [if_pos zero, load_again mapped, pure_bind, set zero]

theorem fileMapBlock_direct (direct : filebno < ndirect) :
    fileMapBlock f filebno true = mapEntry (fDirect f filebno) := by
  unfold fileMapBlock fileBlockWalk
  rw [if_pos direct, pure_bind]
  rfl

/-- The indirect block, which is read then. -/
def indirectMap (f filebno : Nat) : FsM (Except Int Nat) := do
  let b ← load (fIndirect f)
  readBlock b
  mapEntry (blockWord b filebno)

theorem fileMapBlock_indirect (low : ¬ filebno < ndirect) (below : filebno < nindirect) :
    fileMapBlock f filebno true = (do
      if (← load (fIndirect f)) = 0 then
        match ← allocBlock with
        | .error r => pure (.error r)
        | .ok b => do
          store (fIndirect f) b
          indirectMap f filebno
      else indirectMap f filebno) := by
  unfold fileMapBlock fileBlockWalk indirectEntry
  rw [if_neg low, if_pos below, bind_assoc]
  apply bind_congr_right
  intro b
  by_cases zero : b = 0
  · simp only [zero, if_true, bind_assoc]
    apply bind_congr_right
    intro r
    cases r with
    | error r => rfl
    | ok b =>
      simp only [bind_assoc, pure_bind]
      rfl
  · simp only [zero, if_false, bind_assoc, pure_bind]
    rfl

/-- `alloc_block_file` is `file_map_block`, but for what it stores. -/
theorem allocBlockFile_eq (f filebno init : Nat) :
    allocBlockFile f filebno init = (do pure (output init (← fileMapBlock f filebno true))) := by
  unfold allocBlockFile
  by_cases direct : filebno < ndirect
  · rw [if_pos direct, fileMapBlock_direct direct, allocEntry_eq]
  · rw [if_neg direct]
    by_cases below : filebno < nindirect
    · rw [if_pos below, fileMapBlock_indirect direct below, bind_assoc]
      apply bind_congr_right
      intro b
      by_cases zero : b = 0
      · rw [if_pos zero, if_pos zero, bind_assoc]
        apply bind_congr_right
        intro r
        cases r with
        | error r => rfl
        | ok b =>
          simp only [bind_assoc, indirectMap, allocEntry_eq]
      · rw [if_neg zero, if_neg zero]
        simp only [bind_assoc, indirectMap, allocEntry_eq]
    · rw [if_neg below]
      unfold fileMapBlock fileBlockWalk
      rw [if_neg direct, if_neg below]
      rfl

/-- The two calls, from one state: the same code, the same state, and on 0 the same number. -/
def Agrees (f filebno init : Nat) (s : Fs) : Prop :=
  match allocBlockFile f filebno init s, fileMapBlock f filebno true s with
  | .ok ((r, _), s₁), .ok (.error e, s₂) => r = e ∧ s₁ = s₂
  | .ok ((r, d), s₁), .ok (.ok b, s₂) => r = 0 ∧ d = b ∧ s₁ = s₂
  | .error x, .error y => x = y
  | _, _ => False

/-- A pointer has a block, or `alloc_block` gets one for it whose number a `u_int` holds. -/
def CanMap (ptr : Nat) (s : Fs) : Prop :=
  let s := s.touch (ptr / 1024)
  s.word ptr ≠ 0 ∨ s.word ptr = 0 ∧ ∃ b s', allocBlock s = .ok (.ok b, s') ∧ uInt b ≠ 0

/-- The indirect block of a file is `b`, or `alloc_block` gets it. -/
def HasIndirect (f : Nat) (s : Fs) (b : Nat) (s₁ : Fs) : Prop :=
  let s := s.touch (fIndirect f / 1024)
  s.word (fIndirect f) ≠ 0 ∧ b = s.word (fIndirect f) ∧ s₁ = s ∨
    s.word (fIndirect f) = 0 ∧ ∃ n s', allocBlock s = .ok (.ok n, s') ∧ b = uInt n ∧
    s₁ = s'.store (fIndirect f) n

/-- There is a block at `filebno`, or one can be had. -/
def Available (f filebno : Nat) (s : Fs) : Prop :=
  filebno < ndirect ∧ CanMap (fDirect f filebno) s ∨
    ndirect ≤ filebno ∧ filebno < nindirect ∧
      ∃ b s₁ s₂, HasIndirect f s b s₁ ∧ readBlock b s₁ = .ok ((), s₂) ∧
      CanMap (blockWord b filebno) s₂

/-- A call gets a block that is not 0. -/
def Gets (x : FsM (Except Int Nat)) (s : Fs) : Prop := ∃ b s', x s = .ok (.ok b, s') ∧ b ≠ 0

theorem mapEntry_gets (ptr : Nat) (s : Fs) : Gets (mapEntry ptr) s ↔ CanMap ptr s := by
  unfold Gets CanMap mapEntry
  have mapped : (s.touch (ptr / 1024)).mapped (ptr / 1024) = true := touch_self s _
  rw [bind_ok (load_eq ptr s)]
  generalize s.touch (ptr / 1024) = s at mapped ⊢
  by_cases missing : s.word ptr = 0
  · simp only [missing, if_true, ne_eq, not_true_eq_false, true_and, false_or]
    constructor
    · rintro ⟨b, s', run, nonzero⟩
      obtain ⟨r, s₁, alloc, rest⟩ := StateT.bind_ok_iff.mp run
      cases r with
      | error r => cases rest
      | ok n =>
        refine ⟨n, s₁, alloc, ?_⟩
        simp only at rest
        rw [bind_ok (store_eq ptr n s₁), load_again (store_cached s₁ ptr n), store_word] at rest
        injection rest with rest
        injection rest with number
        injection number with number
        rw [number]
        exact nonzero
    · rintro ⟨n, s₁, alloc, nonzero⟩
      refine ⟨uInt n, s₁.store ptr n, ?_, nonzero⟩
      rw [bind_ok alloc]
      simp only
      rw [bind_ok (store_eq ptr n s₁), load_again (store_cached s₁ ptr n), store_word]
      rfl
  · simp only [missing, if_false, ne_eq, not_false_eq_true, false_and, or_false, iff_true]
    refine ⟨s.word ptr, s, ?_, missing⟩
    rw [load_again mapped]
    rfl

theorem indirectMap_gets (f filebno : Nat) {s : Fs}
    (mapped : s.mapped (fIndirect f / 1024) = true) :
    Gets (indirectMap f filebno) s ↔
      ∃ s₂, readBlock (s.word (fIndirect f)) s = .ok ((), s₂) ∧
      CanMap (blockWord (s.word (fIndirect f)) filebno) s₂ := by
  unfold indirectMap
  constructor
  · rintro ⟨b, s', run, nonzero⟩
    rw [load_again mapped] at run
    obtain ⟨_, s₂, read, rest⟩ := StateT.bind_ok_iff.mp run
    exact ⟨s₂, read, (mapEntry_gets _ s₂).mp ⟨b, s', rest, nonzero⟩⟩
  · rintro ⟨s₂, read, can⟩
    obtain ⟨b, s', rest, nonzero⟩ := (mapEntry_gets _ s₂).mpr can
    refine ⟨b, s', ?_, nonzero⟩
    rw [load_again mapped, bind_ok read]
    exact rest

theorem fileMapBlock_gets (f filebno : Nat) (s : Fs) :
    Gets (fileMapBlock f filebno true) s ↔ Available f filebno s := by
  unfold Available
  by_cases direct : filebno < ndirect
  · have low : ¬ ndirect ≤ filebno := Nat.not_le_of_lt direct
    rw [fileMapBlock_direct direct, mapEntry_gets]
    simp only [direct, low, true_and, false_and, or_false]
  · have high : ndirect ≤ filebno := Nat.le_of_not_lt direct
    by_cases below : filebno < nindirect
    · simp only [direct, high, below, true_and, false_and, false_or]
      have mapped : (s.touch (fIndirect f / 1024)).mapped (fIndirect f / 1024) =
          true := touch_self s _
      unfold Gets HasIndirect
      rw [fileMapBlock_indirect direct below, bind_ok (load_eq (fIndirect f) s)]
      generalize s.touch (fIndirect f / 1024) = s at mapped ⊢
      by_cases zero : s.word (fIndirect f) = 0
      · simp only [zero, if_true, ne_eq, not_true_eq_false, false_and, false_or, true_and]
        have gets (n : Nat) (s' : Fs) := indirectMap_gets f filebno (s := s'.store (fIndirect f) n)
          (store_cached s' _ n)
        simp only [store_word] at gets
        unfold Gets at gets
        constructor
        · rintro ⟨b, s', run, nonzero⟩
          obtain ⟨r, s₁, alloc, rest⟩ := StateT.bind_ok_iff.mp run
          cases r with
          | error r => cases rest
          | ok n =>
            simp only at rest
            rw [bind_ok (store_eq (fIndirect f) n s₁)] at rest
            obtain ⟨s₂, read, can⟩ := (gets n s₁).mp ⟨b, s', rest, nonzero⟩
            exact ⟨_, _, s₂, ⟨n, s₁, alloc, rfl, rfl⟩, read, can⟩
        · rintro ⟨b, s₁, s₂, ⟨n, s', alloc, rfl, rfl⟩, read, can⟩
          obtain ⟨b, s₃, rest, nonzero⟩ := (gets n s').mpr ⟨s₂, read, can⟩
          refine ⟨b, s₃, ?_, nonzero⟩
          rw [bind_ok alloc]
          simp only
          rw [bind_ok (store_eq (fIndirect f) n s')]
          exact rest
      · simp only [zero, if_false, ne_eq, not_false_eq_true, true_and, false_and, or_false]
        have gets := indirectMap_gets f filebno mapped
        unfold Gets at gets
        rw [gets]
        constructor
        · rintro ⟨s₂, read, can⟩
          exact ⟨_, s, s₂, ⟨rfl, rfl⟩, read, can⟩
        · rintro ⟨b, s₁, s₂, ⟨rfl, rfl⟩, read, can⟩
          exact ⟨s₂, read, can⟩
    · simp only [direct, below, false_and, and_false, or_false, iff_false]
      rintro ⟨b, s', run, -⟩
      unfold fileMapBlock fileBlockWalk at run
      rw [if_neg direct, if_neg below, pure_bind] at run
      cases run

/-- `alloc_block_file` gives the same code and leaves the same state in every case, and the same
number unless what `*pdiskbno` holds is 0 and there is a block. -/
theorem allocBlockFile_agrees_iff (f filebno init : Nat) (s : Fs) :
    Agrees f filebno init s ↔ init ≠ 0 ∨ ¬ Available f filebno s := by
  rw [← fileMapBlock_gets]
  unfold Agrees Gets
  cases run : fileMapBlock f filebno true s with
  | error x =>
    have same : allocBlockFile f filebno init s = .error x := by
      rw [allocBlockFile_eq]
      show (fileMapBlock f filebno true s >>= fun p => _) = _
      rw [run]
      rfl
    rw [same]
    simp only [reduceCtorEq, false_and, exists_false, not_false_eq_true, or_true]
  | ok p =>
    obtain ⟨r, s'⟩ := p
    have same : allocBlockFile f filebno init s = .ok (output init r, s') := by
      rw [allocBlockFile_eq, bind_ok run]
      rfl
    rw [same]
    cases r with
    | error r =>
      simp only [output, and_self, true_iff]
      apply Or.inr
      rintro ⟨b, s₂, other, -⟩
      cases other
    | ok b =>
      simp only [output, true_and, and_true]
      by_cases zero : init = 0
      · rw [if_pos zero]
        constructor
        · intro number
          apply Or.inr
          rintro ⟨b', s₂, found, nonzero⟩
          injection found with found
          injection found with found
          injection found with found
          exact nonzero (found ▸ number.symm)
        · intro cond
          by_contra other
          exact (cond.resolve_left (not_not.mpr zero)) ⟨b, s', rfl, fun none => other none.symm⟩
      · rw [if_neg zero]
        exact ⟨fun _ => Or.inl zero, fun _ => rfl⟩

/-- A disk of eight blocks, whose root directory has block 5. -/
def rootBlock : Fs where
  word := fun w => if w = sNblocks then 8 else if w = fSize sRoot then 4096
    else if w = fDirect sRoot 0 then 5 else 0
  mapped := fun _ => true
  pteD := fun _ => false
  disk := fun _ => 0
  memory := fun _ => true
  asked := 0

/-- The number 5 is not stored over a 0. -/
theorem allocBlockFile_keeps_zero :
    allocBlockFile sRoot 0 0 rootBlock = .ok ((0, 0), rootBlock) ∧
      fileMapBlock sRoot 0 true rootBlock = .ok (.ok 5, rootBlock) ∧
      ¬ Agrees sRoot 0 0 rootBlock := by
  have second : allocBlockFile sRoot 0 0 rootBlock = .ok ((0, 0), rootBlock) := rfl
  have first : fileMapBlock sRoot 0 true rootBlock = .ok (.ok 5, rootBlock) := rfl
  refine ⟨second, first, ?_⟩
  unfold Agrees
  rw [second, first]
  intro same
  cases same.2.1

end Alloc

end RiscvMos.FsM
