import RiscvMos.Fs.Create

/-!
`fs_init` of `fs/fs.c`: the super block and the bitmap are read, and the super
block is overwritten and restored to try out the disk.
-/

namespace RiscvMos

namespace Fs

/-- `memcpy` of a page to another. -/
def copyPage (s : Fs) (dst src : Nat) : Fs :=
  let s := (s.touch src).touch dst
  { s with
    word := fun w => if w / 1024 = dst then s.word (1024 * src + w % 1024) else s.word w
    pteD := Function.update s.pteD dst true }

def unmap (s : Fs) (b : Nat) : Fs := { s with mapped := Function.update s.mapped b false }

def fsMagic : Nat := 0x68286097

/-- `DISKMAX / BY2BLK`. -/
def diskBlocks : Nat := 2 ^ 18

/-- `"OOPS!\n"`. -/
def oops : List Nat := [79, 79, 80, 83, 33, 10]

end Fs

namespace FsM

open Fs

def userAssert (x : Bool) : FsM Unit :=
  if x = true then pure () else stop (.panic "assertion failed: %s")

/-- `block_is_free`, with `super` and `bitmap` set or not: `bitmap` never is without `super`. -/
def blockIsFreeIn (super_ : Bool) (b : Nat) : FsM Bool :=
  if super_ = true then blockIsFree b else pure false

/-- `super && blockno >= super->s_nblocks` -/
def beyondDisk (super_ : Bool) (b : Nat) : FsM Bool :=
  if super_ = true then do pure (decide ((← load sNblocks) ≤ b)) else pure false

/-- `bitmap && block_is_free(blockno)` -/
def freeOnDisk (super_ bitmap : Bool) (b : Nat) : FsM Bool :=
  if bitmap = true then blockIsFreeIn super_ b else pure false

/-- `read_block`, with `super` and `bitmap` set or not. -/
def readBlockIn (super_ bitmap : Bool) (b : Nat) : FsM Unit := do
  if ← beyondDisk super_ b then stop (.panic "reading non-existent block %08x\n")
  else if ← freeOnDisk super_ bitmap b then stop (.panic "reading free block %08x\n")
  else if ← blockIsMapped b then pure ()
  else loadBlock b

def readSuper : FsM Unit := do
  readBlockIn false false 1
  if (← load 1024) ≠ fsMagic then stop (.panic "bad file system magic number %x %x")
  else if diskBlocks < (← load sNblocks) then stop (.panic "file system is too large")
  else pure ()

def memcpyPage (dst src : Nat) : FsM Unit := fun s => .ok ((), s.copyPage dst src)

def memUnmap (b : Nat) : FsM Unit := fun s => .ok ((), s.unmap (page b))

def checkWriteBlock : FsM Unit := do
  -- `super` is 0 here
  readBlockIn false false 0
  memcpyPage 0 1
  strcpy (4 * 1024) oops
  writeBlock 1
  userAssert (← blockIsMapped 1)
  memUnmap 1
  userAssert !(← blockIsMapped 1)
  readBlockIn false false 1
  userAssert (((← get).touch 1).nameIs 1024 oops)
  memcpyPage 1 0
  writeBlock 1

/-- The first loop of `read_bitmap`. -/
def readBitmapFrom : Nat → Nat → FsM Unit
  | 0, _ => pure ()
  | n + 1, i => do
    readBlockIn true false (i + 2)
    readBitmapFrom n (i + 1)

/-- The second loop. -/
def inUseFrom : Nat → Nat → FsM Unit
  | 0, _ => pure ()
  | n + 1, i => do
    userAssert !(← blockIsFreeIn true (i + 2))
    inUseFrom n (i + 1)

def readBitmap : FsM Unit := do
  let nbitmap := (← load sNblocks) / bit2blk + 1
  readBitmapFrom nbitmap 0
  userAssert !(← blockIsFreeIn true 0)
  userAssert !(← blockIsFreeIn true 1)
  inUseFrom nbitmap 0

def fsInit : FsM Unit := do
  readSuper
  checkWriteBlock
  readBitmap

/-- The words, the disk and the blocks in the cache, while there are pages. -/
structure Stage (s : Fs) (c e : Nat → Nat) (m : Nat → Bool) : Prop where
  cell : s.cell = c
  disk : s.disk = e
  mapped : s.mapped = m
  supplied : s.Supplied

namespace Stage
variable {s : Fs} {c e : Nat → Nat} {m : Nat → Bool} {b dst src w n i : Nat} (h : Stage s c e m)

include h in
theorem load (hm : m (w / 1024) = true) : FsM.load w s = .ok (c w, s) := by
  rw [load_mapped (by rw [h.mapped]; exact hm), h.cell]

include h in
theorem isMapped (small : b < 2 ^ 20) : blockIsMapped b s = .ok (m b, s) := by
  unfold blockIsMapped
  rw [page, Nat.mod_eq_of_lt small, h.mapped]

include h in
theorem fill (small : b < 2 ^ 20) (hm : m b = false) (n : Nat) :
    Stage ({ s with asked := s.asked + n }.fill b) c e (Function.update m b true) := by
  have mapped : s.mapped b = false := by rw [h.mapped, hm]
  have page : page b = b := Nat.mod_eq_of_lt small
  refine ⟨?_, h.disk, ?_, fun k hk => h.supplied k ((Nat.le_add_right _ n).trans hk)⟩
  · rw [← h.cell]
    exact (@fill_keeps { s with asked := s.asked + n } b mapped small).cell
  · show Function.update s.mapped (Fs.page b) true = _
    rw [page, h.mapped]

include h in
theorem loadBlock (small : b < 2 ^ 20) (hm : m b = false) :
    ∃ s', FsM.loadBlock b s = .ok ((), s') ∧ Stage s' c e (Function.update m b true) := by
  unfold FsM.loadBlock memAlloc
  cases first : s.memory s.asked with
  | true => exact ⟨_, by rw [bind_ok rfl, first]; rfl, h.fill small hm 1⟩
  | false =>
    have second : s.memory (s.asked + 1) = true :=
      (h.supplied s.asked (Nat.le_refl _)).resolve_left (by simp [first])
    refine ⟨_, ?_, h.fill small hm 2⟩
    rw [bind_ok rfl, first, if_neg Bool.false_ne_true, bind_ok rfl, second]
    rfl

include h in
theorem memcpy (hd : m dst = true) (hs : m src = true) :
    ∃ s', memcpyPage dst src s = .ok ((), s') ∧
      Stage s' (fun w => if w / 1024 = dst then c (1024 * src + w % 1024) else c w) e m := by
  have mapped : s.mapped dst = true ∧ s.mapped src = true := by
    rw [h.mapped]
    exact ⟨hd, hs⟩
  refine ⟨_, rfl, ?_⟩
  unfold copyPage
  rw [touch_mapped mapped.2, touch_mapped mapped.1]
  refine ⟨funext fun w => ?_, h.disk, h.mapped, h.supplied⟩
  have block : (1024 * src + w % 1024) / 1024 = src := by omega
  rw [← h.cell]
  by_cases here : w / 1024 = dst
  · simp [Fs.cell, here, mapped, block]
  · simp [Fs.cell, here]

include h in
theorem writeBlock (small : b < 2 ^ 20) (hm : m b = true) :
    ∃ s', FsM.writeBlock b s = .ok ((), s') ∧
      Stage s' c (fun w => if w / 1024 = b then c w else e w) m := by
  have mapped : s.mapped b = true := by rw [h.mapped, hm]
  unfold FsM.writeBlock
  rw [bind_ok (h.isMapped small), hm]
  refine ⟨_, rfl, ?_, funext fun w => ?_, h.mapped, h.supplied⟩
  · rw [(flush_keeps mapped).cell, h.cell]
  · show (if w / 1024 = b then s.word (blockWord b (w % 1024)) else s.disk w) = _
    by_cases here : w / 1024 = b
    · have back : blockWord b (w % 1024) = w := by
        rw [blockWord, page, Nat.mod_eq_of_lt small]
        omega
      rw [if_pos here, if_pos here, back, ← h.cell, Fs.cell, here, if_pos mapped]
    · rw [if_neg here, if_neg here, h.disk]

include h in
theorem memUnmap (small : b < 2 ^ 20) (same : ∀ w, w / 1024 = b → e w = c w) :
    ∃ s', FsM.memUnmap b s = .ok ((), s') ∧ Stage s' c e (Function.update m b false) := by
  refine ⟨_, rfl, funext fun w => ?_, h.disk, ?_, h.supplied⟩
  · rw [page, Nat.mod_eq_of_lt small]
    by_cases here : w / 1024 = b
    · simp [Fs.cell, unmap, here, h.disk, same w here]
    · simp [Fs.cell, unmap, here, ← h.cell]
  · show Function.update s.mapped (page b) false = _
    rw [page, Nat.mod_eq_of_lt small, h.mapped]

include h in
theorem store (hm : m (w / 1024) = true) (v : Nat) :
    ∃ s', FsM.store w v s = .ok ((), s') ∧ Stage s' (Function.update c w (uInt v)) e m := by
  have mapped : s.mapped (w / 1024) = true := by rw [h.mapped, hm]
  have same : (s.store w v).disk = s.disk ∧ (s.store w v).mapped = s.mapped ∧
      (s.store w v).memory = s.memory ∧ (s.store w v).asked = s.asked := by
    unfold Fs.store
    rw [touch_mapped mapped]
    exact ⟨rfl, rfl, rfl, rfl⟩
  obtain ⟨disk, pages, memory, asked⟩ := same
  refine ⟨_, rfl, by rw [store_cell mapped, h.cell], disk.trans h.disk, pages.trans h.mapped, ?_⟩
  unfold Supplied
  rw [memory, asked]
  exact h.supplied

include h in
theorem strcpy {name : List Nat} (hm : ∀ j ≤ name.length, m ((i + j) / 4 / 1024) = true) :
    ∃ s' c', FsM.strcpy i name s = .ok ((), s') ∧ Stage s' c' e m := by
  have first := hm 0 (Nat.zero_le _)
  rw [Nat.add_zero] at first
  induction name generalizing s c i with
  | nil =>
    unfold FsM.strcpy storeByte
    rw [bind_ok (h.load first)]
    obtain ⟨s', stored, h'⟩ := h.store first (setByte (c (i / 4)) (i % 4) 0)
    exact ⟨s', _, stored, h'⟩
  | cons b name ih =>
    obtain ⟨s₁, stored, h₁⟩ := h.store first (setByte (c (i / 4)) (i % 4) b)
    have rest : ∀ j ≤ name.length, m ((i + 1 + j) / 4 / 1024) = true := by
      intro j hj
      rw [Nat.add_assoc, Nat.add_comm 1 j]
      exact hm (j + 1) (Nat.succ_le_succ hj)
    obtain ⟨s', c', copied, h'⟩ := ih h₁ rest (rest 0 (Nat.zero_le _))
    refine ⟨s', c', ?_, h'⟩
    unfold FsM.strcpy storeByte
    rw [bind_assoc, bind_ok (h.load first), bind_ok stored]
    exact copied

include h in
/-- Before the bitmap is read a block in the disk is read without more ado. -/
theorem readBlockIn {x : Bool} (small : b < 2 ^ 20) (hm : m b = false)
    (inside : x = true → m 1 = true ∧ b < c sNblocks) :
    ∃ s', FsM.readBlockIn x false b s = .ok ((), s') ∧
      Stage s' c e (Function.update m b true) := by
  have inside' : beyondDisk x b s = .ok (false, s) := by
    unfold beyondDisk
    cases x with
    | false => rfl
    | true =>
      obtain ⟨cached, below⟩ := inside rfl
      rw [if_pos rfl, bind_ok (h.load cached), decide_eq_false (Nat.not_le.mpr below)]
      rfl
  have used : freeOnDisk x false b s = .ok (false, s) := rfl
  unfold FsM.readBlockIn
  rw [bind_ok inside', if_neg Bool.false_ne_true, bind_ok used, if_neg Bool.false_ne_true,
    bind_ok (h.isMapped small), hm]
  exact h.loadBlock small hm

end Stage

/-! ## What `fs_init` accepts -/

/-- A disk with a good super block, whose bitmap is on the disk and has its own blocks in use. -/
structure Valid (c : Nat → Nat) : Prop where
  magic : c 1024 = fsMagic
  size : c sNblocks ≤ diskBlocks
  bitmap : nbitmap c + 2 ≤ c sNblocks
  used : ∀ b < nbitmap c + 2, isFree c b = false

section
variable {s : Fs} {c e : Nat → Nat} {m : Nat → Bool} {n i : Nat}

theorem readSuper_stage (h : Stage s c c m) (fresh : m 1 = false) :
    if c 1024 = fsMagic ∧ c sNblocks ≤ diskBlocks then
      ∃ s', readSuper s = .ok ((), s') ∧ Stage s' c c (Function.update m 1 true)
    else ∃ msg, readSuper s = .error (.panic msg) := by
  obtain ⟨s₁, read, h₁⟩ :=
    h.readBlockIn (x := false) (b := 1) (by decide) fresh (fun no => by cases no)
  have cached : Function.update m 1 true 1 = true := Function.update_self 1 true m
  have first : load 1024 s₁ = .ok (c 1024, s₁) := h₁.load cached
  have second : load sNblocks s₁ = .ok (c sNblocks, s₁) := h₁.load cached
  unfold readSuper
  rw [bind_ok read, bind_ok first]
  by_cases magic : c 1024 = fsMagic
  · rw [if_neg (not_not.mpr magic), bind_ok second]
    by_cases size : c sNblocks ≤ diskBlocks
    · rw [if_pos ⟨magic, size⟩, if_neg (Nat.not_lt.mpr size)]
      exact ⟨s₁, rfl, h₁⟩
    · rw [if_neg fun both => size both.2, if_pos (Nat.lt_of_not_le size)]
      exact ⟨_, rfl⟩
  · rw [if_neg fun both => magic both.1, if_pos magic]
    exact ⟨_, rfl⟩

/-- The words with a copy of the super block in block 0. -/
def backedUp (c : Nat → Nat) (w : Nat) : Nat := if w / 1024 = 0 then c (1024 + w) else c w

theorem userAssert_true {x : Bool} (h : x = true) (s : Fs) : userAssert x s = .ok ((), s) := by
  unfold userAssert
  rw [if_pos h]
  rfl

/-- The super block is smashed, read back and restored. -/
theorem checkWriteBlock_stage (h : Stage s c c m) (super_ : m 1 = true) (fresh : m 0 = false) :
    ∃ s', checkWriteBlock s = .ok ((), s') ∧
      Stage s' (backedUp c) c (Function.update m 0 true) := by
  have m0 : Function.update m 0 true 0 = true := Function.update_self 0 true m
  have m1 : Function.update m 0 true 1 = true := by
    rw [Function.update_of_ne (by decide), super_]
  obtain ⟨s₁, read, h₁⟩ :=
    h.readBlockIn (x := false) (b := 0) (by decide) fresh (fun no => by cases no)
  obtain ⟨s₂, saved, h₂⟩ := h₁.memcpy m0 m1
  -- the first words of block 1 are overwritten
  have here : ∀ j ≤ oops.length, Function.update m 0 true ((4 * 1024 + j) / 4 / 1024) = true := by
    intro j hj
    have short : j ≤ 6 := hj
    have block : (4 * 1024 + j) / 4 / 1024 = 1 := by omega
    rw [block, m1]
  obtain ⟨s₃, c₃, smashed, h₃⟩ := h₂.strcpy here
  have cached₂ : s₂.mapped (1024 / 1024) = true := by
    rw [h₂.mapped]
    exact m1
  obtain ⟨t, smashed', -, bytes, frame⟩ :=
    strcpy_cell cached₂ (by decide) (k := 0) (show 0 + oops.length < maxnamelen by decide)
  rw [Nat.add_zero] at smashed' bytes
  rw [smashed] at smashed'
  cases smashed'
  rw [h₃.cell] at bytes frame
  rw [h₂.cell] at frame
  obtain ⟨s₄, flushed, h₄⟩ := h₃.writeBlock (b := 1) (by decide) m1
  obtain ⟨s₅, gone, h₅⟩ := h₄.memUnmap (b := 1) (by decide) fun w hw => if_pos hw
  have m1' : Function.update (Function.update m 0 true) 1 false 1 = false := by
    rw [Function.update_self]
  obtain ⟨s₆, reread, h₆⟩ :=
    h₅.readBlockIn (x := false) (b := 1) (by decide) m1' (fun no => by cases no)
  have again : Function.update (Function.update (Function.update m 0 true) 1 false) 1 true =
      Function.update m 0 true := by
    rw [Function.update_idem, Function.update_eq_self_iff, m1]
  rw [again] at h₆
  obtain ⟨s₇, restored, h₇⟩ := h₆.memcpy m1 m0
  obtain ⟨s₈, flushed', h₈⟩ := h₇.writeBlock (b := 1) (by decide) m1
  have m0' : blockIsMapped 1 s₄ = .ok (true, s₄) := by
    rw [h₄.isMapped (b := 1) (by decide), m1]
  have m1'' : blockIsMapped 1 s₅ = .ok (false, s₅) := by
    rw [h₅.isMapped (b := 1) (by decide), m1']
  have smashed' : (s₆.touch 1).nameIs 1024 oops = true := by
    have cached : s₆.mapped 1 = true := by rw [h₆.mapped, m1]
    have names : s₆.nameIs 1024 oops = hasName c₃ 1024 oops := by
      apply @hasName_congr c₃ s₆.word 1024 oops _ (by decide)
      intro k hk
      have block : (1024 + k) / 1024 = 1 := by omega
      rw [← h₆.cell, cell, block, if_pos cached]
    have byte (i : Nat) (hi : i ≤ oops.length) :
        cellByte c₃ (4 * 1024 + i) = (oops ++ [0]).getD i 0 % 256 := by
      rw [bytes, if_pos (by omega), Nat.add_sub_cancel_left]
    have same : ∀ i < oops.length, (oops ++ [0]).getD i 0 % 256 = oops.getD i 0 := by decide
    rw [touch_mapped cached, names, hasName, byte _ (Nat.le_refl _), Bool.and_eq_true]
    refine ⟨List.all_eq_true.mpr fun i hi => ?_, by decide⟩
    have inside := List.mem_range.mp hi
    rw [byte i inside.le, same i inside]
    exact beq_self_eq_true _
  have cell_ : (fun w => if w / 1024 = 1 then c₃ (1024 * 0 + w % 1024) else c₃ w) = backedUp c := by
    funext w
    unfold backedUp
    by_cases super_ : w / 1024 = 1
    · have back : 1024 * 1 + (1024 * 0 + w % 1024) % 1024 = w := by omega
      rw [if_pos super_, frame _ (by omega), if_neg (by omega)]
      simp only
      rw [if_pos (by omega), back]
    · rw [if_neg super_, frame w (by omega)]
      by_cases first : w / 1024 = 0
      · have same : 1024 * 1 + w % 1024 = 1024 + w := by omega
        simp only [first, if_true, same]
      · simp only [first, if_false]
  have disk_ : (fun w => if w / 1024 = 1 then
      (if w / 1024 = 1 then c₃ (1024 * 0 + w % 1024) else c₃ w)
      else if w / 1024 = 1 then c₃ w else c w) = c := by
    funext w
    by_cases super_ : w / 1024 = 1
    · have restored := congrFun cell_ w
      rw [if_pos super_, restored, backedUp, if_neg (by omega)]
    · rw [if_neg super_, if_neg super_]
  rw [disk_, cell_] at h₈
  refine ⟨s₈, ?_, h₈⟩
  unfold checkWriteBlock
  rw [bind_ok read, bind_ok saved, bind_ok smashed, bind_ok flushed, bind_ok m0',
    bind_ok (userAssert_true rfl s₄), bind_ok gone, bind_ok m1'',
    bind_ok (userAssert_true (x := !false) rfl s₅), bind_ok reread,
    bind_ok (show (get : FsM Fs) s₆ = .ok (s₆, s₆) from rfl),
    bind_ok (userAssert_true smashed' s₆), bind_ok restored]
  exact flushed'

theorem readBitmapFrom_stage (h : Stage s c e m) (super_ : m 1 = true)
    (size : c sNblocks ≤ diskBlocks) (fresh : ∀ b, i + 2 ≤ b → m b = false)
    (inside : i + n + 2 ≤ c sNblocks) :
    ∃ s' m', readBitmapFrom n i s = .ok ((), s') ∧ Stage s' c e m' ∧
      ∀ b, m' b = true ↔ m b = true ∨ i + 2 ≤ b ∧ b < i + n + 2 := by
  induction n generalizing s m i with
  | zero =>
    refine ⟨s, m, rfl, h, fun b => ⟨.inl, Or.rec id fun none_ => ?_⟩⟩
    omega
  | succ n ih =>
    have small : i + 2 < 2 ^ 20 := by
      unfold diskBlocks at size
      omega
    obtain ⟨s₁, read, h₁⟩ :=
      h.readBlockIn (x := true) small (fresh _ (Nat.le_refl _)) fun _ => ⟨super_, by omega⟩
    have super₁ : Function.update m (i + 2) true 1 = true := by
      rw [Function.update_of_ne (by omega), super_]
    obtain ⟨s', m', rest, h', pages⟩ := ih h₁ super₁ (i := i + 1)
      (fun b hb => by rw [Function.update_of_ne (by omega), fresh b (by omega)]) (by omega)
    refine ⟨s', m', ?_, h', fun b => ?_⟩
    · unfold readBitmapFrom
      rw [bind_ok read]
      exact rest
    · rw [pages]
      by_cases here : b = i + 2
      · subst here
        rw [Function.update_self]
        exact ⟨fun _ => .inr ⟨Nat.le_refl _, by omega⟩, fun _ => .inl rfl⟩
      · rw [Function.update_of_ne here]
        constructor
        · exact Or.imp id fun later => ⟨by omega, by omega⟩
        · exact Or.imp id fun later => ⟨by omega, by omega⟩

/-- A bitmap that does not fit on the disk. -/
theorem readBitmapFrom_panics (h : Stage s c e m) (super_ : m 1 = true)
    (size : c sNblocks ≤ diskBlocks) (fresh : ∀ b, i + 2 ≤ b → m b = false) (some_ : 0 < n)
    (outside : c sNblocks < i + n + 2) : ∃ msg, readBitmapFrom n i s = .error (.panic msg) := by
  induction n generalizing s m i with
  | zero => exact absurd some_ (Nat.lt_irrefl 0)
  | succ n ih =>
    by_cases here : i + 2 < c sNblocks
    · have small : i + 2 < 2 ^ 20 := by
        unfold diskBlocks at size
        omega
      obtain ⟨s₁, read, h₁⟩ :=
        h.readBlockIn (x := true) small (fresh _ (Nat.le_refl _)) fun _ => ⟨super_, here⟩
      have super₁ : Function.update m (i + 2) true 1 = true := by
        rw [Function.update_of_ne (by omega), super_]
      obtain ⟨msg, fails⟩ := ih h₁ super₁ (i := i + 1)
        (fun b hb => by rw [Function.update_of_ne (by omega), fresh b (by omega)]) (by omega)
        (by omega)
      refine ⟨msg, ?_⟩
      unfold readBitmapFrom
      rw [bind_ok read]
      exact fails
    · have beyond : beyondDisk true (i + 2) s = .ok (true, s) := by
        have loads : load sNblocks s = .ok (c sNblocks, s) := h.load super_
        unfold beyondDisk
        rw [if_pos rfl, bind_ok loads, decide_eq_true (Nat.le_of_not_lt here)]
        rfl
      refine ⟨"reading non-existent block %08x\n", ?_⟩
      unfold readBitmapFrom readBlockIn
      rw [bind_assoc, bind_ok beyond, if_pos rfl]
      rfl

theorem blockIsFreeIn_eq {b : Nat} (h : Stage s c e m) (super_ : m 1 = true)
    (bitmap : ∀ b, BitmapBlock c b → m b = true) (inside : b < c sNblocks) :
    blockIsFreeIn true b s = .ok (isFree c b, s) := by
  have loads : load sNblocks s = .ok (c sNblocks, s) := h.load super_
  unfold blockIsFreeIn blockIsFree
  rw [if_pos rfl, bind_ok loads, if_neg (Nat.not_le.mpr inside),
    bind_ok (h.load (bitmap _ (bitmapBlock_word inside)))]
  rfl

theorem userAssert_used {b : Nat} (h : Stage s c e m) (super_ : m 1 = true)
    (bitmap : ∀ b, BitmapBlock c b → m b = true) (inside : b < c sNblocks) (k : FsM Unit) :
    (do userAssert !(← blockIsFreeIn true b); k) s =
      if isFree c b = true then .error (.panic "assertion failed: %s") else k s := by
  rw [bind_ok (blockIsFreeIn_eq h super_ bitmap inside)]
  cases free : isFree c b with
  | true => rfl
  | false => rfl

theorem inUseFrom_eq (h : Stage s c e m) (super_ : m 1 = true)
    (bitmap : ∀ b, BitmapBlock c b → m b = true) (inside : i + n + 2 ≤ c sNblocks) :
    (∀ b, i + 2 ≤ b → b < i + n + 2 → isFree c b = false) ∧ inUseFrom n i s = .ok ((), s) ∨
      (∃ b, i + 2 ≤ b ∧ b < i + n + 2 ∧ isFree c b = true) ∧
        ∃ msg, inUseFrom n i s = .error (.panic msg) := by
  induction n generalizing i with
  | zero =>
    left
    refine ⟨fun b low high => ?_, rfl⟩
    omega
  | succ n ih =>
    unfold inUseFrom
    rw [userAssert_used h super_ bitmap (by omega)]
    cases free : isFree c (i + 2) with
    | true =>
      rw [if_pos rfl]
      exact .inr ⟨⟨i + 2, Nat.le_refl _, by omega, free⟩, _, rfl⟩
    | false =>
      rw [if_neg Bool.false_ne_true]
      rcases ih (i := i + 1) (by omega) with ⟨used, runs⟩ | ⟨⟨b, low, high, free'⟩, fails⟩
      · refine .inl ⟨fun b low high => ?_, runs⟩
        by_cases here : b = i + 2
        · rw [here, free]
        · exact used b (by omega) (by omega)
      · exact .inr ⟨⟨b, by omega, by omega, free'⟩, fails⟩

theorem backedUp_free (c : Nat → Nat) (b : Nat) : isFree (backedUp c) b = isFree c b := by
  have block : blockWord 2 (b / 32) / 1024 ≠ 0 := by
    unfold blockWord page
    omega
  rw [isFree, backedUp, if_neg block, isFree]

/-- `read_bitmap` behind the loop that reads the bitmap. -/
theorem readBitmap_checks (h : Stage s c e m) (super_ : m 1 = true)
    (bitmap : ∀ b, BitmapBlock c b → m b = true) (inside : nbitmap c + 2 ≤ c sNblocks) :
    (∀ b < nbitmap c + 2, isFree c b = false) ∧
        (do userAssert !(← blockIsFreeIn true 0)
            userAssert !(← blockIsFreeIn true 1)
            inUseFrom (nbitmap c) 0) s = .ok ((), s) ∨
      (∃ b < nbitmap c + 2, isFree c b = true) ∧ ∃ msg,
        (do userAssert !(← blockIsFreeIn true 0)
            userAssert !(← blockIsFreeIn true 1)
            inUseFrom (nbitmap c) 0) s = .error (.panic msg) := by
  rw [userAssert_used h super_ bitmap (by omega)]
  cases free0 : isFree c 0 with
  | true => exact .inr ⟨⟨0, by omega, free0⟩, _, if_pos rfl⟩
  | false =>
    rw [if_neg Bool.false_ne_true, userAssert_used h super_ bitmap (by omega)]
    cases free1 : isFree c 1 with
    | true => exact .inr ⟨⟨1, by omega, free1⟩, _, if_pos rfl⟩
    | false =>
      rw [if_neg Bool.false_ne_true]
      have rest := inUseFrom_eq (n := nbitmap c) (i := 0) h super_ bitmap (by omega)
      rcases rest with ⟨used, runs⟩ | ⟨⟨b, low, high, free⟩, fails⟩
      · refine .inl ⟨fun b hb => ?_, runs⟩
        by_cases first : b = 0
        · rw [first, free0]
        · by_cases second : b = 1
          · rw [second, free1]
          · exact used b (by omega) (by omega)
      · exact .inr ⟨⟨b, by omega, free⟩, fails⟩

/-- On a good disk `fs_init` ends, on any other one the server exits. -/
theorem fsInit_valid (s : Fs) (fresh : ∀ b, s.mapped b = false) (supplied : s.Supplied) :
    (Valid s.disk ∧ ∃ s', fsInit s = .ok ((), s') ∧ Inited s' ∧ s'.Supplied ∧ s'.disk = s.disk ∧
        s'.cell = backedUp s.disk ∧ ∀ b, s'.mapped b = true ↔ b < nbitmap s.disk + 2) ∨
      (¬ Valid s.disk ∧ ∃ msg, fsInit s = .error (.panic msg)) := by
  have h : Stage s s.disk s.disk s.mapped :=
    ⟨funext fun w => by simp [cell, fresh], rfl, rfl, supplied⟩
  have first := readSuper_stage h (fresh 1)
  unfold fsInit
  split at first
  · rename_i good
    obtain ⟨s₁, super_, h₁⟩ := first
    have m1 : Function.update s.mapped 1 true 1 = true := Function.update_self 1 true s.mapped
    obtain ⟨s₂, checked, h₂⟩ :=
      checkWriteBlock_stage h₁ m1 (by rw [Function.update_of_ne (by decide), fresh])
    rw [bind_ok super_, bind_ok checked]
    have m1' : Function.update (Function.update s.mapped 1 true) 0 true 1 = true := by
      rw [Function.update_of_ne (by decide), m1]
    have size : backedUp s.disk sNblocks ≤ diskBlocks := good.2
    have bits : backedUp s.disk sNblocks / bit2blk + 1 = nbitmap s.disk := rfl
    have loads : load sNblocks s₂ = .ok (backedUp s.disk sNblocks, s₂) := h₂.load m1'
    have fresh' (b : Nat) (hb : 0 + 2 ≤ b) :
        Function.update (Function.update s.mapped 1 true) 0 true b = false := by
      rw [Function.update_of_ne (by omega), Function.update_of_ne (by omega), fresh]
    unfold readBitmap
    rw [bind_ok loads, bits]
    by_cases inside : nbitmap s.disk + 2 ≤ s.disk sNblocks
    · obtain ⟨s₃, m₃, read, h₃, pages⟩ := readBitmapFrom_stage (n := nbitmap s.disk) (i := 0) h₂ m1'
        size fresh' (by rw [Nat.zero_add]; exact inside)
      have pages (b : Nat) : m₃ b = true ↔ b < nbitmap s.disk + 2 := by
        rw [pages]
        by_cases first : b = 0
        · rw [first, Function.update_self]
          exact ⟨fun _ => by omega, fun _ => .inl rfl⟩
        · rw [Function.update_of_ne first]
          by_cases second : b = 1
          · rw [second, Function.update_self]
            exact ⟨fun _ => by omega, fun _ => .inl rfl⟩
          · rw [Function.update_of_ne second, fresh, Bool.false_eq_true, false_or]
            omega
      have bitmap (b : Nat) (hb : BitmapBlock (backedUp s.disk) b) : m₃ b = true := by
        have below : b < 2 + nbitmap s.disk := hb.2
        rw [pages]
        omega
      rw [bind_ok read]
      have checks := readBitmap_checks h₃ ((pages 1).mpr (by omega)) bitmap inside
      simp only [backedUp_free] at checks
      rcases checks with ⟨used, runs⟩ | ⟨⟨b, below, free⟩, fails⟩
      · refine .inl ⟨⟨good.1, good.2, inside, used⟩, s₃, runs, ⟨?_, ?_, ?_⟩, h₃.supplied, h₃.disk,
          h₃.cell, fun b => ?_⟩
        · rw [h₃.cell]
          exact size
        · rw [h₃.mapped, pages]
          omega
        · rw [h₃.cell, h₃.mapped]
          exact bitmap
        · rw [h₃.mapped, pages]
      · refine .inr ⟨fun valid => ?_, fails⟩
        have used := valid.used b below
        rw [free] at used
        cases used
    · obtain ⟨msg, fails⟩ := readBitmapFrom_panics (n := nbitmap s.disk) (i := 0) h₂ m1' size fresh'
        (Nat.succ_pos _) (show s.disk sNblocks < _ by omega)
      refine .inr ⟨fun valid => inside valid.bitmap, msg, ?_⟩
      rw [bind_error fails]
  · rename_i bad
    obtain ⟨msg, fails⟩ := first
    refine .inr ⟨fun valid => bad ⟨valid.magic, valid.size⟩, msg, ?_⟩
    rw [bind_error fails]

end

/-- The server before `fs_init`, with pages to spare. -/
def booted (e : Nat → Nat) : Fs where
  word := fun _ => 0
  mapped := fun _ => false
  pteD := fun _ => false
  disk := e
  memory := fun _ => true
  asked := 0

/-- `fs_init` ends exactly on the disks that are good. It leaves the disk as it was and the super
block and the bitmap in the cache, with a copy of the super block in block 0. On any other disk
the server exits. -/
theorem fsInit_iff (s : Fs) (fresh : ∀ b, s.mapped b = false) (supplied : s.Supplied) :
    ((∃ s', fsInit s = .ok ((), s')) ↔ Valid s.disk) ∧
      (∀ s', fsInit s = .ok ((), s') → Inited s' ∧ s'.disk = s.disk ∧ s'.cell = backedUp s.disk ∧
        ∀ b, s'.mapped b = true ↔ b < nbitmap s.disk + 2) ∧
      ∀ e, fsInit s = .error e → ∃ msg, e = .panic msg := by
  rcases fsInit_valid s fresh supplied with
    ⟨valid, s', runs, inited, -, disk, cell, mapped⟩ | ⟨bad, msg, fails⟩
  · rw [runs]
    refine ⟨⟨fun _ => valid, fun _ => ⟨s', rfl⟩⟩, fun t same => ?_, (fun e same => by cases same)⟩
    cases same
    exact ⟨inited, disk, cell, mapped⟩
  · rw [fails]
    refine ⟨⟨?_, fun valid => absurd valid bad⟩, (fun t same => by cases same), fun e same => ?_⟩
    · rintro ⟨t, same⟩
      cases same
    · cases same
      exact ⟨msg, rfl⟩

/-- A disk of eight blocks, all in use. -/
def smallDisk (w : Nat) : Nat := if w = 1024 then fsMagic else if w = sNblocks then 8 else 0

theorem fsInit_smallDisk :
    ∃ s', fsInit (booted smallDisk) = .ok ((), s') ∧ Inited s' ∧ s'.disk = smallDisk := by
  have valid : Valid smallDisk := by
    refine ⟨rfl, by decide, by decide, fun b hb => ?_⟩
    have few : b < 3 := hb
    have all : ∀ b < 3, isFree smallDisk b = false := by decide
    exact all b few
  have init := fsInit_iff (booted smallDisk) (fun _ => rfl) (fun _ _ => .inl rfl)
  obtain ⟨s', runs⟩ := init.1.mpr valid
  obtain ⟨inited, disk, -⟩ := init.2.1 s' runs
  exact ⟨s', runs, inited, disk⟩

end FsM

end RiscvMos
