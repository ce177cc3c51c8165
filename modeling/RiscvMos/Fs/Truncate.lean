import RiscvMos.Fs.WriteBack

/-!
`file_truncate` and `file_set_size` of `fs/fs.c`: which pointers, bits and blocks
a smaller size leaves as they are.
-/

namespace RiscvMos

namespace Fs

/-- A file that the server can work on. -/
structure Intact (s : Fs) (f : Nat) : Prop extends Inited s where
  layout : Layout s.cell f
  cached : s.mapped (f / 1024) = true
  readable : s.cell (fIndirect f) ≠ 0 → s.Readable (s.cell (fIndirect f))

theorem Intact.clears {s s' : Fs} {f : Nat} {I : Nat → Prop} (h : Intact s f) (grows : Grows s s')
    (clears : Clears f I s.cell s'.cell) : Intact s' f := by
  refine ⟨h.toInited.grows grows (clears.rest _ h.layout.beside_nblocks), clears.layout h.layout,
    grows.mapped _ h.cached, ?_⟩
  rw [clears.rest _ h.layout.beside_indirect]
  exact fun nonzero => grows.readable (h.readable nonzero)

theorem Intact.keeps {s s' : Fs} {f : Nat} (h : Intact s f) (keeps : Keeps s s') : Intact s' f := by
  apply h.clears keeps.toGrows
  rw [keeps.cell]
  exact Clears.none s.cell f

end Fs

namespace FsM

open Fs

variable {s : Fs} {f i : Nat}

theorem fileBlockWalk_none (h : Intact s f) (hi : ¬ HasSlot s.cell f i) :
    ∃ r, fileBlockWalk f i false s = .ok (.error r, s) := by
  have block : s.mapped (fIndirect f / 1024) = true := by
    rw [fIndirect_block h.layout.place.2]
    exact h.cached
  unfold fileBlockWalk
  rw [if_neg fun direct => hi (.inl direct)]
  by_cases below : i < nindirect
  · have zero : s.cell (fIndirect f) = 0 := by
      by_contra nonzero
      exact hi (.inr ⟨below, nonzero⟩)
    rw [if_pos below, bind_ok (load_mapped block), if_pos zero]
    exact ⟨_, rfl⟩
  · rw [if_neg below]
    exact ⟨_, rfl⟩

theorem fileBlockWalk_slot (h : Intact s f) (hi : HasSlot s.cell f i) :
    ∃ s', fileBlockWalk f i false s = .ok (.ok (slot s.cell f i), s') ∧ Keeps s s' ∧
      s'.mapped (slot s.cell f i / 1024) = true := by
  have place := h.layout.place.2
  have block : s.mapped (fIndirect f / 1024) = true := by
    rw [fIndirect_block place]
    exact h.cached
  unfold fileBlockWalk
  cases h.layout.slot_cases h.nblocks hi with
  | inl direct =>
    have own : slot s.cell f i / 1024 = f / 1024 := by omega
    have pos : i < ndirect := direct.1
    rw [if_pos pos, own]
    refine ⟨s, ?_, Keeps.refl s, h.cached⟩
    rw [direct.2]
    rfl
  | inr indirect =>
    obtain ⟨low, below, nonzero, eq⟩ := indirect
    have own : slot s.cell f i / 1024 = s.cell (fIndirect f) := by omega
    obtain ⟨s', read, keeps, mapped⟩ := readBlock_keeps h.toInited (h.layout.indirect nonzero).1
      (h.layout.used nonzero) (h.readable nonzero)
    have neg : ¬ i < ndirect := Nat.not_lt.mpr low
    have pos : i < nindirect := below
    refine ⟨s', ?_, keeps, by rw [own]; exact mapped⟩
    rw [if_neg neg, if_pos pos, bind_ok (load_mapped block), if_neg nonzero]
    unfold indirectEntry
    rw [bind_ok (load_mapped block), bind_ok read, slot, if_neg neg]
    rfl

theorem fileClearBlock_clears (h : Intact s f) (i : Nat) :
    ∃ r s', fileClearBlock f i s = .ok (r, s') ∧ Grows s s' ∧ Clears f (· = i) s.cell s'.cell := by
  unfold fileClearBlock
  by_cases hi : HasSlot s.cell f i
  · obtain ⟨s₁, walk, keeps, mapped⟩ := fileBlockWalk_slot h hi
    have h₁ := h.keeps keeps
    have value : s.cell (slot s.cell f i) = pointer s.cell f i := (if_pos hi).symm
    rw [bind_ok walk]
    simp only
    rw [bind_ok (load_mapped mapped), keeps.cell, value]
    by_cases zero : pointer s.cell f i = 0
    · rw [if_neg (by simpa using zero)]
      refine ⟨0, s₁, rfl, keeps.toGrows, ?_⟩
      rw [keeps.cell]
      exact Clears.of_zero zero
    · obtain ⟨valid, -⟩ := h.layout.owned _ ⟨zero, .inr ⟨i, rfl⟩⟩
      rw [if_pos zero]
      obtain ⟨s₂, frees, grows₂, cell₂⟩ :=
        freeBlock_freed h₁.toInited (by rw [keeps.cell]; exact valid) zero
      obtain ⟨s₃, stores, grows₃, cell₃⟩ := store_mapped (grows₂.mapped _ mapped) 0
      refine ⟨0, s₃, ?_, (keeps.toGrows.trans grows₂).trans grows₃, ?_⟩
      · rw [bind_ok frees, bind_ok stores]
        rfl
      · apply h.layout.clears h.nblocks hi zero
        rw [cell₃, cell₂, keeps.cell]
        rfl
  · obtain ⟨r, walk⟩ := fileBlockWalk_none h hi
    rw [bind_ok walk]
    exact ⟨r, s, rfl, Grows.refl s, Clears.of_zero (if_neg hi)⟩

/-- The loop of `file_truncate`. -/
theorem clearFrom_clears (h : Intact s f) (n i : Nat) :
    ∃ s', clearFrom f n i s = .ok ((), s') ∧ Grows s s' ∧
    Clears f (fun j => i ≤ j ∧ j < i + n) s.cell s'.cell := by
  induction n generalizing s i with
  | zero =>
    refine ⟨s, rfl, Grows.refl s, ?_⟩
    have none : (fun j => i ≤ j ∧ j < i + 0) = fun _ => False := by
      funext j
      exact eq_false (by omega)
    rw [none]
    exact Clears.none s.cell f
  | succ n ih =>
    obtain ⟨r, s₁, clear, grows₁, clears₁⟩ := fileClearBlock_clears h i
    obtain ⟨s₂, rest, grows₂, clears₂⟩ := ih (h.clears grows₁ clears₁) (i + 1)
    refine ⟨s₂, ?_, grows₁.trans grows₂, ?_⟩
    · unfold clearFrom
      rw [bind_ok clear]
      exact rest
    · have both : (fun j => i ≤ j ∧ j < i + (n + 1)) = fun j => j = i ∨
          i + 1 ≤ j ∧ j < i + 1 + n := by
        funext j
        apply propext
        omega
      rw [both]
      exact clears₁.trans h.layout clears₂

theorem fileMapBlock_keeps (h : Intact s f) (i : Nat) :
    ∃ r s', fileMapBlock f i false s = .ok (r, s') ∧ Keeps s s' ∧
    ∀ b, r = .ok b → b = pointer s.cell f i ∧ b ≠ 0 := by
  unfold fileMapBlock
  by_cases hi : HasSlot s.cell f i
  · obtain ⟨s₁, walk, keeps, mapped⟩ := fileBlockWalk_slot h hi
    have value : s.cell (slot s.cell f i) = pointer s.cell f i := (if_pos hi).symm
    rw [bind_ok walk]
    simp only
    rw [bind_ok (load_mapped mapped), keeps.cell, value]
    by_cases zero : pointer s.cell f i = 0
    · rw [if_pos zero]
      exact ⟨_, s₁, rfl, keeps, nofun⟩
    · rw [if_neg zero, bind_ok (load_mapped mapped), keeps.cell, value]
      refine ⟨_, s₁, rfl, keeps, fun b hb => ?_⟩
      cases hb
      exact ⟨rfl, zero⟩
  · obtain ⟨r, walk⟩ := fileBlockWalk_none h hi
    rw [bind_ok walk]
    exact ⟨_, s, rfl, Keeps.refl s, nofun⟩

theorem flushFrom_keeps (h : Intact s f) (n i : Nat) :
    ∃ s', flushFrom f n i s = .ok ((), s') ∧ Keeps s s' := by
  induction n generalizing s i with
  | zero => exact ⟨s, rfl, Keeps.refl s⟩
  | succ n ih =>
    obtain ⟨r, s₁, map, keeps₁, named⟩ := fileMapBlock_keeps h i
    unfold flushFrom
    rw [bind_ok map]
    cases r with
    | error r =>
      obtain ⟨s₂, rest, keeps₂⟩ := ih (h.keeps keeps₁) (i + 1)
      exact ⟨s₂, rest, keeps₁.trans keeps₂⟩
    | ok b =>
      obtain ⟨eq, nonzero⟩ := named b rfl
      have valid := (h.layout.owned b ⟨nonzero, .inr ⟨i, eq.symm⟩⟩).1
      have small := h.nblocks
      obtain ⟨s₂, writes, flush⟩ := @flushBlock_writes s₁ b (by omega) (flushFrom f n (i + 1))
      obtain ⟨s₃, rest, keeps₃⟩ := ih ((h.keeps keeps₁).keeps writes.toKeeps) (i + 1)
      exact ⟨s₃, flush.trans rest, (keeps₁.trans writes.toKeeps).trans keeps₃⟩

theorem fileFlush_keeps (h : Intact s f) : ∃ s', fileFlush f s = .ok ((), s') ∧ Keeps s s' := by
  unfold fileFlush
  rw [bind_ok (load_mapped (by rw [fSize_block h.layout.place.2]; exact h.cached))]
  exact flushFrom_keeps h _ _

end FsM

namespace Fs

/-- How many blocks `file_truncate` leaves for a size. -/
def newNblocks (newsize : Nat) : Nat := if newsize = 0 then 0 else newsize / by2blk + 1

end Fs

namespace FsM

open Fs

theorem fileTruncate_shrinks {newsize : Nat} (h : Intact s f) (u32 : newsize < 2 ^ 32)
    (within : ∀ i, pointer s.cell f i ≠ 0 → i < s.cell (fSize f) / by2blk + 1) :
    ∃ s', fileTruncate f newsize s = .ok ((), s') ∧ Grows s s' ∧
      Shrinks f (newNblocks newsize) s.cell s'.cell ∧ s'.cell (fSize f) = newsize := by
  have place := h.layout.place.2
  have sized : s.mapped (fSize f / 1024) = true := by
    rw [fSize_block place]
    exact h.cached
  obtain ⟨s₁, loop, grows₁, clears⟩ := clearFrom_clears h
    (s.cell (fSize f) / by2blk + 1 - newNblocks newsize) (newNblocks newsize)
  have block : s₁.mapped (fIndirect f / 1024) = true := by
    rw [fIndirect_block place]
    exact grows₁.mapped _ h.cached
  have indirect := clears.rest _ h.layout.beside_indirect
  -- the last store
  have finish : ∀ s₂, Grows s s₂ → Shrinks f (newNblocks newsize) s.cell s₂.cell →
      ∃ s', store (fSize f) newsize s₂ = .ok ((), s') ∧ Grows s s' ∧
        Shrinks f (newNblocks newsize) s.cell s'.cell ∧ s'.cell (fSize f) = newsize := by
    intro s₂ grows₂ shrinks
    obtain ⟨s₃, stores, grows₃, cell₃⟩ := store_mapped (grows₂.mapped _ sized) newsize
    refine ⟨s₃, stores, grows₂.trans grows₃, shrinks.size h.layout h.nblocks cell₃, ?_⟩
    rw [cell₃, Function.update_self, uInt, Nat.mod_eq_of_lt u32]
  unfold fileTruncate
  rw [bind_ok (load_mapped sized)]
  change ∃ s', (clearFrom f (s.cell (fSize f) / by2blk + 1 - newNblocks newsize)
    (newNblocks newsize) >>= fun _ => _) s =
    .ok ((), s') ∧ _
  rw [bind_ok loop]
  change ∃ s', (if newNblocks newsize ≤ ndirect then _ else _ : FsM Unit) s₁ = .ok ((), s') ∧ _
  by_cases low : newNblocks newsize ≤ ndirect
  · rw [if_pos low, bind_ok (load_mapped block), indirect]
    by_cases zero : s.cell (fIndirect f) = 0
    · rw [if_neg (by simpa using zero)]
      exact finish s₁ grows₁ (clears.shrinks h.layout within (.inr zero))
    · rw [if_pos zero]
      have h₁ := h.clears grows₁ clears
      have valid := (h₁.layout.indirect (by rw [indirect]; exact zero)).1
      rw [indirect] at valid
      obtain ⟨s₂, frees, grows₂, cell₂⟩ := freeBlock_freed h₁.toInited valid zero
      obtain ⟨s₃, stores, grows₃, cell₃⟩ := store_mapped (grows₂.mapped _ block) 0
      rw [bind_ok frees, bind_ok stores]
      apply finish s₃ ((grows₁.trans grows₂).trans grows₃)
      apply clears.shrinks_indirect h.layout within low zero
      rw [cell₃, cell₂]
      rfl
  · rw [if_neg low]
    exact finish s₁ grows₁ (clears.shrinks h.layout within (.inl (by omega)))

end FsM

namespace Fs

/-- `d` is the directory that the file is in. -/
structure Parent (s : Fs) (f d : Nat) : Prop where
  intact : Intact s d
  child : ∃ i, pointer s.cell d i = f / 1024
  apart : ∀ b, Owned s.cell d b → ¬ Owned s.cell f b
  outside : ¬ Owned s.cell f (d / 1024)

/-- `f_dir` is NULL or the directory that the file is in. -/
def HasDir (s : Fs) (f : Nat) : Prop :=
  s.cell (fDirHigh f) = 0 ∧
    (s.cell (fDirLow f) = 0 ∨ ∃ d, s.cell (fDirLow f) = diskmap + 4 * d ∧ Parent s f d)

section
variable {s s' : Fs} {f d k w : Nat}

theorem Parent.block (h : Parent s f d) (file : Intact s f) : d / 1024 ≠ f / 1024 := by
  obtain ⟨i, child⟩ := h.child
  exact ((h.intact.layout.owned (f / 1024) ⟨file.layout.place.1, .inr ⟨i, child⟩⟩).2.2.2).symm

/-- A smaller file changes no word of a block that it does not own and is not in. -/
theorem Shrinks.other_block (h : Shrinks f k s.cell s'.cell) (file : Intact s f) {b : Nat}
    (bitmap : ¬ BitmapBlock s.cell b) (nonzero : b ≠ 0) (owned : ¬ Owned s.cell f b)
    (own : b ≠ f / 1024) (hw : w / 1024 = b) : s'.cell w = s.cell w := by
  have place := file.layout.place.2
  apply h.rest
  · refine ⟨by rw [hw]; exact bitmap, fun _ same => owned ⟨nonzero, .inl (hw.symm.trans same)⟩, ?_⟩
    unfold fDirect fIndirect
    omega
  · unfold fIndirect
    omega
  · unfold fSize
    omega

theorem Shrinks.nblocks (h : Shrinks f k s.cell s'.cell) (file : Intact s f) :
    s'.cell sNblocks = s.cell sNblocks := by
  have other : sNblocks ≠ fIndirect f ∧ sNblocks ≠ fSize f := by
    have place := file.layout.place
    by_cases super : f / 1024 = 1
    · rw [file.layout.super super]
      decide
    · unfold sNblocks fIndirect fSize
      omega
  exact h.rest _ file.layout.beside_nblocks other.1 other.2

/-- The directory is not touched. -/
theorem Parent.shrinks (h : Parent s f d) (file : Intact s f) (grows : Grows s s')
    (shrinks : Shrinks f k s.cell s'.cell) : Intact s' d := by
  have layout := h.intact.layout
  have nblocks := shrinks.nblocks file
  have bits : nbitmap s'.cell = nbitmap s.cell := by
    unfold nbitmap
    rw [nblocks]
  have bitmap : ∀ b, BitmapBlock s'.cell b ↔ BitmapBlock s.cell b := by
    intro b
    unfold BitmapBlock
    rw [bits]
  have own : ∀ w, w / 1024 = d / 1024 → s'.cell w = s.cell w := fun w =>
    shrinks.other_block file layout.bitmap layout.place.1 h.outside (h.block file)
  have indirect : s'.cell (fIndirect d) = s.cell (fIndirect d) :=
    own _ (fIndirect_block layout.place.2)
  have pointers : ∀ i, pointer s'.cell d i = pointer s.cell d i := by
    intro i
    apply pointer_congr indirect
    intro hs
    cases layout.slot_block h.intact.nblocks hs with
    | inl direct => exact own _ direct
    | inr block =>
      obtain ⟨nonzero, block⟩ := block
      obtain ⟨-, -, free, -⟩ := layout.indirect nonzero
      apply shrinks.other_block file free nonzero (h.apart _ ⟨nonzero, .inl rfl⟩) _ block
      obtain ⟨j, child⟩ := h.child
      rw [← child]
      exact (layout.alone nonzero j).symm
  refine ⟨h.intact.toInited.grows grows nblocks, ⟨layout.place, layout.super, ?_, ?_, ?_, ?_⟩,
    grows.mapped _ h.intact.cached, ?_⟩
  · rw [bitmap]
    exact layout.bitmap
  · intro b hb
    simp only [Owned, indirect, pointers] at hb
    rw [nblocks, bitmap]
    exact layout.owned b hb
  · simp only [indirect, pointers]
    exact layout.alone
  · rw [indirect]
    intro nonzero
    have owned : ¬ Owned s.cell f (s.cell (fIndirect d)) := h.apart _ ⟨nonzero, .inl rfl⟩
    apply Bool.eq_false_iff.mpr
    rw [Ne, shrinks.free _ (lt_bits (layout.indirect nonzero).1)]
    rintro (free | ⟨-, ⟨i, -, named⟩ | ⟨-, named⟩⟩)
    · rw [layout.used nonzero] at free
      exact Bool.false_ne_true free
    · exact owned ⟨nonzero, .inr ⟨i, named⟩⟩
    · exact owned ⟨nonzero, .inl named.symm⟩
  · rw [indirect]
    exact fun nonzero => grows.readable (h.intact.readable nonzero)

/-- What a smaller size does: the pointers from the new number of blocks on are
cleared, their blocks and an indirect block that no pointer is left in are free,
and nothing else of the file or of the bitmap changes. -/
structure Truncated (f newsize : Nat) (c c' : Nat → Nat) : Prop where
  kept : ∀ i < newNblocks newsize, pointer c' f i = pointer c f i
  contents : ∀ i < newNblocks newsize, pointer c f i ≠ 0 →
    ∀ j < 1024, c' (blockWord (pointer c f i) j) = c (blockWord (pointer c f i) j)
  zero : ∀ i, newNblocks newsize ≤ i → pointer c' f i = 0
  free : ∀ b < nbitmap c * bit2blk, isFree c' b = true ↔ isFree c b = true ∨ b ≠ 0 ∧
    ((∃ i, newNblocks newsize ≤ i ∧ pointer c f i = b) ∨
      newNblocks newsize ≤ ndirect ∧ c (fIndirect f) = b)
  indirect : c (fIndirect f) ≠ 0 →
    (isFree c' (c (fIndirect f)) = true ↔ newNblocks newsize ≤ ndirect)
  size : c' (fSize f) = newsize

theorem Shrinks.truncated {newsize : Nat} (h : Shrinks f (newNblocks newsize) s.cell s'.cell)
    (file : Intact s f)
    (size : s'.cell (fSize f) = newsize) : Truncated f newsize s.cell s'.cell := by
  refine ⟨h.kept, ?_, h.zero, h.free, ?_, size⟩
  · intro i _ nonzero j hj
    obtain ⟨valid, -, bitmap, own⟩ := file.layout.owned _ ⟨nonzero, .inr ⟨i, rfl⟩⟩
    have small := file.nblocks
    have block : blockWord (pointer s.cell f i) j / 1024 = pointer s.cell f i :=
      blockWord_block (by omega) hj
    have place := file.layout.place.2
    apply h.rest
    · refine ⟨by rw [block]; exact bitmap, fun indirect => ?_, ?_⟩
      · rw [block]
        exact file.layout.alone indirect i
      · unfold fDirect fIndirect
        omega
    · unfold fIndirect
      omega
    · unfold fSize
      omega
  · intro nonzero
    rw [h.free _ (lt_bits (file.layout.indirect nonzero).1), file.layout.used nonzero]
    constructor
    · rintro (free | ⟨-, ⟨i, -, named⟩ | ⟨low, -⟩⟩)
      · exact absurd free Bool.false_ne_true
      · exact absurd named (file.layout.alone nonzero i)
      · exact low
    · exact fun low => .inr ⟨nonzero, .inr ⟨low, rfl⟩⟩

end

end Fs

namespace FsM

open Fs

theorem flushDir_keeps (high : s.cell (fDirHigh f) = 0) (cached : s.mapped (f / 1024) = true)
    (place : f % 1024 ≤ 960)
    (dir : s.cell (fDirLow f) = 0 ∨ ∃ d, s.cell (fDirLow f) = diskmap + 4 * d ∧ Intact s d) :
    ∃ s', flushDir f s = .ok ((), s') ∧ Keeps s s' := by
  have low : s.mapped (fDirLow f / 1024) = true := by
    have block : fDirLow f / 1024 = f / 1024 := by
      unfold fDirLow
      omega
    rw [block]
    exact cached
  have top : s.mapped (fDirHigh f / 1024) = true := by
    have block : fDirHigh f / 1024 = f / 1024 := by
      unfold fDirHigh
      omega
    rw [block]
    exact cached
  cases dir with
  | inl null =>
    have get : getDir f s = .ok (none, s) := by
      unfold getDir
      rw [bind_ok (load_mapped low), bind_ok (load_mapped top), if_pos ⟨null, high⟩]
      rfl
    unfold flushDir
    rw [bind_ok get]
    exact ⟨s, rfl, Keeps.refl s⟩
  | inr dir =>
    obtain ⟨d, eq, intact⟩ := dir
    have get : getDir f s = .ok (some d, s) := by
      unfold getDir
      rw [bind_ok (load_mapped low), bind_ok (load_mapped top), high, eq]
      have word : (diskmap + 4 * d - diskmap) / 4 = d := by omega
      have valid : 0 = 0 ∧ diskmap ≤ diskmap + 4 * d ∧ (diskmap + 4 * d) % 4 = 0 := by
        unfold diskmap
        omega
      rw [if_neg (by unfold diskmap; omega), if_pos valid, word]
      rfl
    unfold flushDir
    rw [bind_ok get]
    exact fileFlush_keeps intact

/-- Truncation is exact. -/
theorem fileSetSize_exact {newsize : Nat} (h : Intact s f) (dir : HasDir s f)
    (u32 : newsize < 2 ^ 32)
    (within : ∀ i, pointer s.cell f i ≠ 0 → i < s.cell (fSize f) / by2blk + 1)
    (smaller : newsize < s.cell (fSize f)) :
    ∃ s', fileSetSize f newsize s = .ok (0, s') ∧ Truncated f newsize s.cell s'.cell := by
  have place := h.layout.place.2
  have sized : s.mapped (fSize f / 1024) = true := by
    rw [fSize_block place]
    exact h.cached
  obtain ⟨s₁, truncate, grows₁, shrinks₁, -⟩ := fileTruncate_shrinks h u32 within
  obtain ⟨s₂, stores, grows₂, cell₂⟩ := store_mapped (grows₁.mapped _ sized) newsize
  have shrinks₂ := shrinks₁.size h.layout h.nblocks cell₂
  have grows := grows₁.trans grows₂
  have size : s₂.cell (fSize f) = newsize := by
    rw [cell₂, Function.update_self, uInt, Nat.mod_eq_of_lt u32]
  have same : ∀ w, w = fDirLow f ∨ w = fDirHigh f → s₂.cell w = s.cell w := by
    intro w hw
    unfold fDirLow fDirHigh at hw
    apply shrinks₂.rest
    · apply h.layout.beside_own
      · omega
      · unfold fIndirect
        omega
    · unfold fIndirect
      omega
    · unfold fSize
      omega
  obtain ⟨s₃, flush, keeps⟩ : ∃ s', flushDir f s₂ = .ok ((), s') ∧ Keeps s₂ s' := by
    apply flushDir_keeps
    · rw [same _ (.inr rfl)]
      exact dir.1
    · exact grows.mapped _ h.cached
    · exact place
    · rw [same _ (.inl rfl)]
      apply dir.2.imp id
      rintro ⟨d, eq, parent⟩
      exact ⟨d, eq, parent.shrinks h grows shrinks₂⟩
  refine ⟨s₃, ?_, ?_⟩
  · unfold fileSetSize
    rw [bind_ok (load_mapped sized), if_pos smaller, bind_ok truncate]
    change (store (fSize f) newsize >>= fun _ => _) s₁ = _
    rw [bind_ok stores, bind_ok flush]
    rfl
  · rw [keeps.cell]
    exact shrinks₂.truncated h size

/-- The root is a file of eleven blocks, the last one by way of the indirect block 14. -/
def elevenBlocks : Fs where
  word w :=
    if w = sNblocks then 20
    else if w = fSize sRoot then 10 * by2blk + 1
    else if fDirect sRoot 0 ≤ w ∧ w ≤ fIndirect sRoot then w - 1056
    else if w = 1024 * 14 + 10 then 15
    else 0
  mapped _ := true
  pteD _ := false
  disk _ := 0
  memory _ := true
  asked := 0

theorem elevenBlocks_pointer (i : Nat) :
    pointer elevenBlocks.cell sRoot i = if i < 10 then 4 + i else if i = 10 then 15 else 0 := by
  have indirect : elevenBlocks.cell (fIndirect sRoot) = 14 := rfl
  have has : HasSlot elevenBlocks.cell sRoot i ↔ i < 1024 := by
    simp only [HasSlot, indirect, ndirect, nindirect]
    omega
  have place : slot elevenBlocks.cell sRoot i = if i < 10 then 1060 + i else 14336 + i := by
    rw [slot, indirect]
    rfl
  rw [pointer, if_congr has rfl rfl, place]
  simp only [cell, elevenBlocks, fDirect, fIndirect, fSize, sRoot, sNblocks, by2blk, if_true]
  split_ifs <;> omega

theorem elevenBlocks_intact : Intact elevenBlocks sRoot := by
  have indirect : elevenBlocks.cell (fIndirect sRoot) = 14 := rfl
  have nblocks : elevenBlocks.cell sNblocks = 20 := rfl
  have bitmap : ∀ b, BitmapBlock elevenBlocks.cell b ↔ b = 2 := by
    intro b
    simp only [BitmapBlock, nbitmap, nblocks, bit2blk, by2blk]
    omega
  refine ⟨⟨by rw [nblocks]; decide, rfl, fun _ _ => rfl⟩,
    ⟨by decide, fun _ => rfl, ?_, ?_, ?_, ?_⟩, rfl,
    fun _ => .inl rfl⟩
  · rw [bitmap]
    decide
  · rintro b ⟨nonzero, own⟩
    rw [bitmap, nblocks, show sRoot / 1024 = 1 from rfl]
    cases own with
    | inl own =>
      rw [indirect] at own
      omega
    | inr own =>
      obtain ⟨i, own⟩ := own
      rw [elevenBlocks_pointer] at own
      split_ifs at own <;> omega
  · intro _ i
    rw [elevenBlocks_pointer, indirect]
    split_ifs <;> omega
  · intro _
    rfl

theorem fileSetSize_exact_eleven : ∃ s', fileSetSize sRoot 4096 elevenBlocks = .ok (0, s') ∧
    Truncated sRoot 4096 elevenBlocks.cell s'.cell := by
  apply fileSetSize_exact elevenBlocks_intact ⟨rfl, .inl rfl⟩ (by decide)
  · intro i nonzero
    rw [elevenBlocks_pointer] at nonzero
    have size : elevenBlocks.cell (fSize sRoot) = 40961 := rfl
    rw [size, by2blk]
    split_ifs at nonzero <;> omega
  · decide

end FsM

end RiscvMos
