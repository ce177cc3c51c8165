import RiscvMos.Fs.Serve
import RiscvMos.Fs.Layout
import RiscvMos.Lib.Runs

/-!
What comes to the disk: the blocks that `file_flush`, `file_close` and `fs_sync` of
`fs/fs.c` write, and the bytes that a client stores in a page of the cache.
-/

namespace RiscvMos

namespace Fs

/-- What `block_is_dirty` returns. -/
def dirty (s : Fs) (b : Nat) : Bool := s.mapped b && s.pteD b

/-- The block on disk holds what its page holds. -/
def Saved (s : Fs) (b : Nat) : Prop := ∀ w, w / 1024 = b → s.disk w = s.word w

/-- All words are what they were, and those of the dirty blocks in `W` are on disk. -/
structure WritesBack (W : Nat → Prop) (s s' : Fs) : Prop extends Keeps s s' where
  dirty : s'.dirty = s.dirty
  saved : ∀ w, W (w / 1024) → s.dirty (w / 1024) = true → s'.disk w = s.cell w
  left : ∀ w, ¬ (W (w / 1024) ∧ s.dirty (w / 1024) = true) → s'.disk w = s.disk w

section
variable {s s' s'' : Fs} {W W' : Nat → Prop} {b : Nat}

theorem WritesBack.nothing (s : Fs) : WritesBack (fun _ => False) s s :=
  ⟨Keeps.refl s, rfl, nofun, fun _ _ => rfl⟩

theorem WritesBack.trans (h : WritesBack W s s') (h' : WritesBack W' s' s'') :
    WritesBack (fun b => W b ∨ W' b) s s'' := by
  refine ⟨h.toKeeps.trans h'.toKeeps, h'.dirty.trans h.dirty, fun w some_ dirty => ?_,
    fun w none_ => ?_⟩
  · have dirty' : s'.dirty (w / 1024) = true := by
      rw [h.dirty]
      exact dirty
    by_cases again : W' (w / 1024)
    · rw [h'.saved w again dirty', h.cell]
    · rw [h'.left w fun both => again both.1]
      exact h.saved w (some_.resolve_right again) dirty
  · rw [h'.left w ?_, h.left w fun both => none_ ⟨.inl both.1, both.2⟩]
    rw [h.dirty]
    exact fun both => none_ ⟨.inr both.1, both.2⟩

theorem WritesBack.congr (h : WritesBack W s s') (same : ∀ b, W b ↔ W' b) : WritesBack W' s s' :=
  ⟨h.toKeeps, h.dirty, fun w some_ => h.saved w ((same _).mpr some_),
    fun w none_ => h.left w fun both => none_ ⟨(same _).mp both.1, both.2⟩⟩

theorem WritesBack.pteD (h : WritesBack W s s') (mapped : s.mapped b = true) :
    s'.pteD b = s.pteD b := by
  have same := congrFun h.dirty b
  rwa [Fs.dirty, Fs.dirty, mapped, h.toGrows.mapped b mapped, Bool.true_and,
    Bool.true_and] at same

/-- A block in the cache is on disk if it was there before, or was dirty and is written. -/
theorem WritesBack.saved_iff (h : WritesBack W s s') (mapped : s.mapped b = true) :
    s'.Saved b ↔ s.Saved b ∨ W b ∧ s.dirty b = true := by
  have word : ∀ w, w / 1024 = b → s'.word w = s.word w := by
    intro w hw
    have cell := congrFun h.cell w
    rwa [Fs.cell, Fs.cell, hw, if_pos mapped, if_pos (h.toGrows.mapped b mapped)] at cell
  by_cases writes : W b ∧ s.dirty b = true
  · refine ⟨fun _ => .inr writes, fun _ w hw => ?_⟩
    subst hw
    rw [h.saved w writes.1 writes.2, word w rfl, Fs.cell, if_pos mapped]
  · have disk : ∀ w, w / 1024 = b → s'.disk w = s.disk w := by
      rintro w rfl
      exact h.left w writes
    refine ⟨fun saved => .inl fun w hw => ?_, fun saved w hw => ?_⟩
    · rw [← disk w hw, saved w hw, word w hw]
    · rw [disk w hw, word w hw]
      exact (saved.resolve_right writes) w hw

theorem fill_writes (h : s.mapped b = false) (hb : b < 2 ^ 20) :
    WritesBack (fun _ => False) s (s.fill b) := by
  have page : page b = b := Nat.mod_eq_of_lt hb
  refine ⟨fill_keeps h hb, funext fun x => ?_, nofun, fun _ _ => rfl⟩
  unfold Fs.dirty
  by_cases hx : x = b
  · simp [fill, page, hx, h]
  · simp [fill, page, Function.update_of_ne hx]

theorem flush_writes (h : s.mapped b = true) (pteD : s.pteD b = true) (hb : b < 2 ^ 20) :
    WritesBack (· = b) s (s.flush b) := by
  have page : page b = b := Nat.mod_eq_of_lt hb
  refine ⟨flush_keeps h, rfl, fun w hw _ => ?_, fun w none_ => if_neg fun hw => none_ ⟨hw, ?_⟩⟩
  · have split : 1024 * b + w % 1024 = w := by omega
    simp [flush, blockWord, cell, page, hw, h, split]
  · simp [Fs.dirty, hw, h, pteD]

/-- A block that is not dirty is not written. -/
theorem WritesBack.clean (s : Fs) (h : s.dirty b = false) : WritesBack (· = b) s s := by
  refine ⟨Keeps.refl s, rfl, fun w hw dirty => ?_, fun _ _ => rfl⟩
  rw [hw, h] at dirty
  cases dirty

end

/-! ## The files that are flushed -/

/-- The block is among those that `file_flush` visits. -/
def Flushed (c : Nat → Nat) (f b : Nat) : Prop :=
  b ≠ 0 ∧ ∃ i ≤ c (fSize f) / by2blk, pointer c f i = b

/-- `f->f_dir` points at `d`. -/
def DirOf (c : Nat → Nat) (f d : Nat) : Prop :=
  c (fDirHigh f) = 0 ∧ c (fDirLow f) = diskmap + 4 * d

/-- The block is among those that `file_close` visits. -/
def Closed (c : Nat → Nat) (f b : Nat) : Prop :=
  Flushed c f b ∨ ∃ d, DirOf c f d ∧ Flushed c d b

/-- A file in the cache, whose blocks are blocks of the disk. -/
structure Present (s : Fs) (f : Nat) : Prop where
  cached : s.mapped (f / 1024) = true
  place : f % 1024 ≤ 960
  valid : ∀ i, pointer s.cell f i ≠ 0 → pointer s.cell f i < s.cell sNblocks

theorem Present.keeps {s s' : Fs} {f : Nat} (h : Present s f) (keeps : Keeps s s') :
    Present s' f := by
  refine ⟨keeps.mapped _ h.cached, h.place, ?_⟩
  rw [keeps.cell]
  exact h.valid

theorem Present.field {s : Fs} {f k : Nat} (h : Present s f) (hk : k < 47) :
    s.mapped ((f + k) / 1024) = true := by
  have block : (f + k) / 1024 = f / 1024 := by
    have := h.place
    omega
  rw [block]
  exact h.cached

theorem Inited.keeps {s s' : Fs} (h : Inited s) (keeps : Keeps s s') : Inited s' :=
  h.grows keeps.toGrows (by rw [keeps.cell])

end Fs

namespace FsM

open Fs

/-- A computation that may stop anywhere. -/
def ending : Progress Fs Stop where
  rel _ _ := True
  stops _ _ := True
  refl _ := trivial
  trans _ _ := trivial
  back _ _ := trivial

/-- If the computation ends, it ends with `Q`. -/
abbrev Gives {α : Type} (m : FsM α) (s : Fs) (Q : α → Fs → Prop) : Prop := Runs ending m s Q

section
variable {α : Type} {s s' : Fs} {f i b n w : Nat} {Q : α → Fs → Prop}

theorem Gives.step {β : Type} {m : FsM β} {k : β → FsM α} {a : β} (h : m s = .ok (a, s'))
    (rest : Gives (k a) s' Q) : Gives (m >>= k) s Q := Runs.bind_ok h trivial rest

theorem Gives.stopped (e : Stop) : Gives (stop e) s Q := Runs.of_error rfl trivial

theorem blockIsMapped_eq (hb : b < 2 ^ 20) : blockIsMapped b s = .ok (s.mapped b, s) := by
  unfold blockIsMapped
  rw [show page b = b from Nat.mod_eq_of_lt hb]

theorem blockIsDirty_eq (hb : b < 2 ^ 20) : blockIsDirty b s = .ok (s.dirty b, s) := by
  unfold blockIsDirty dirty
  rw [bind_ok (blockIsMapped_eq hb)]
  cases s.mapped b with
  | false => rfl
  | true =>
    rw [if_pos rfl, vaIsDirty, show page b = b from Nat.mod_eq_of_lt hb]
    rfl

theorem loadBlock_gives (h : s.mapped b = false) (hb : b < 2 ^ 20) :
    Gives (loadBlock b) s fun _ s' => WritesBack (fun _ => False) s s' ∧ s'.mapped b = true := by
  have page : Fs.page b = b := Nat.mod_eq_of_lt hb
  have filled (n : Nat) : WritesBack (fun _ => False) s ({ s with asked := s.asked + n }.fill b) ∧
      ({ s with asked := s.asked + n }.fill b).mapped b = true := by
    have asks : WritesBack (fun _ => False) s { s with asked := s.asked + n } :=
      ⟨⟨⟨fun _ h => h, rfl, Nat.le_add_right _ _⟩, rfl⟩, rfl, nofun, fun _ _ => rfl⟩
    have fills := @fill_writes { s with asked := s.asked + n } b h hb
    exact ⟨(asks.trans fills).congr fun _ => or_self_iff, by simp [fill, page]⟩
  unfold loadBlock
  refine Gives.step rfl ?_
  cases s.memory s.asked with
  | true => exact Runs.of_ok rfl trivial (filled 1)
  | false =>
    rw [if_neg Bool.false_ne_true]
    refine Gives.step rfl ?_
    cases s.memory (s.asked + 1) with
    | true => exact Runs.of_ok rfl trivial (filled 2)
    | false => exact Gives.stopped _

theorem readBlock_gives (h : Inited s) :
    Gives (readBlock b) s fun _ s' => b < s.cell sNblocks ∧ WritesBack (fun _ => False) s s' ∧
      s'.mapped b = true := by
  unfold readBlock
  refine Gives.step (load_mapped h.super) ?_
  by_cases outside : s.cell sNblocks ≤ b
  · rw [if_pos outside]
    exact Gives.stopped _
  · have inside : b < s.cell sNblocks := Nat.lt_of_not_le outside
    have small : b < 2 ^ 20 := by
      have := h.nblocks
      omega
    rw [if_neg outside]
    refine Gives.step (blockIsFree_eq h inside) ?_
    cases isFree s.cell b with
    | true => exact Gives.stopped _
    | false =>
      rw [if_neg Bool.false_ne_true]
      refine Gives.step (blockIsMapped_eq small) ?_
      cases mapped : s.mapped b with
      | true => exact Runs.pure ⟨inside, WritesBack.nothing s, mapped⟩
      | false =>
        rw [if_neg Bool.false_ne_true]
        exact (loadBlock_gives mapped small).mono fun _ _ _ ends => ⟨inside, ends⟩

/-- The walk finds the place of a block's number, if the file has one for it. -/
theorem fileBlockWalk_gives (h : Inited s) (file : Present s f) :
    Gives (fileBlockWalk f i false) s fun r s' => WritesBack (fun _ => False) s s' ∧
      (¬ HasSlot s.cell f i ∧ (∃ e, r = .error e) ∨
        HasSlot s.cell f i ∧ r = .ok (slot s.cell f i) ∧
          s'.mapped (slot s.cell f i / 1024) = true) := by
  have block : s.mapped (fIndirect f / 1024) = true := file.field (by decide)
  unfold fileBlockWalk
  by_cases direct : i < ndirect
  · have eq : slot s.cell f i = fDirect f i := if_pos direct
    have here : s.mapped (fDirect f i / 1024) = true := by
      have place : fDirect f i = f + (34 + i) := by
        unfold fDirect
        omega
      rw [place]
      apply file.field
      unfold ndirect at direct
      omega
    rw [if_pos direct]
    refine Runs.pure ⟨WritesBack.nothing s, .inr ⟨.inl direct, ?_, ?_⟩⟩
    · rw [eq]
    · rw [eq]
      exact here
  · rw [if_neg direct]
    by_cases below : i < nindirect
    · rw [if_pos below]
      refine Gives.step (load_mapped block) ?_
      by_cases zero : s.cell (fIndirect f) = 0
      · rw [if_pos zero]
        refine Runs.pure ⟨WritesBack.nothing s, .inl ⟨?_, _, rfl⟩⟩
        rintro (low | high)
        · exact direct low
        · exact high.2 zero
      · rw [if_neg zero]
        unfold indirectEntry
        refine Gives.step (load_mapped block) ?_
        refine Runs.bind (readBlock_gives h) fun _ s' _ ends => ?_
        obtain ⟨valid, writes, mapped⟩ := ends
        have eq : slot s.cell f i = blockWord (s.cell (fIndirect f)) i := if_neg direct
        have place : slot s.cell f i / 1024 = s.cell (fIndirect f) := by
          have := h.nblocks
          rw [eq]
          exact blockWord_block (by omega) below
        refine Runs.pure ⟨writes, .inr ⟨.inr ⟨below, zero⟩, by rw [eq], ?_⟩⟩
        rw [place]
        exact mapped
    · rw [if_neg below]
      refine Runs.pure ⟨WritesBack.nothing s, .inl ⟨?_, _, rfl⟩⟩
      rintro (low | high)
      · exact direct low
      · exact below high.1

theorem fileMapBlock_gives (h : Inited s) (file : Present s f) :
    Gives (fileMapBlock f i false) s fun r s' => WritesBack (fun _ => False) s s' ∧
      ∀ b, r = .ok b ↔ b ≠ 0 ∧ pointer s.cell f i = b := by
  unfold fileMapBlock
  refine Runs.bind (fileBlockWalk_gives h file) fun r s' _ ends => ?_
  obtain ⟨writes, none_ | some_⟩ := ends
  · obtain ⟨no, e, rfl⟩ := none_
    refine Runs.pure ⟨writes, fun b => ⟨(fun same => by cases same), fun some_ => ?_⟩⟩
    rw [pointer, if_neg no] at some_
    exact absurd some_.2.symm some_.1
  · obtain ⟨has, rfl, mapped⟩ := some_
    have value : s'.cell (slot s.cell f i) = pointer s.cell f i := by
      rw [writes.cell, pointer, if_pos has]
    refine Gives.step (load_mapped mapped) ?_
    rw [value]
    by_cases zero : pointer s.cell f i = 0
    · rw [if_pos zero]
      refine Runs.pure ⟨writes, fun b => ⟨(fun same => by cases same), fun some_ => ?_⟩⟩
      exact absurd (some_.2.symm.trans zero) some_.1
    · rw [if_neg zero]
      refine Gives.step (load_mapped mapped) ?_
      rw [value]
      refine Runs.pure ⟨writes, fun b => ⟨fun same => ?_, fun some_ => by rw [some_.2]⟩⟩
      cases same
      exact ⟨zero, rfl⟩

/-- A block is written before the rest `k` of a loop, if it is dirty. -/
theorem flushBlock_writes (hb : b < 2 ^ 20) (k : FsM Unit) :
    ∃ s', WritesBack (· = b) s s' ∧ (do
      if ← blockIsDirty b then writeBlock b
      k) s = k s' := by
  rw [bind_ok (blockIsDirty_eq hb)]
  cases dirty : s.dirty b with
  | false => exact ⟨s, WritesBack.clean s dirty, rfl⟩
  | true =>
    have both := Bool.and_eq_true_iff.mp dirty
    have write : writeBlock b s = .ok ((), s.flush b) := by
      unfold writeBlock
      rw [bind_ok (blockIsMapped_eq hb), both.1]
      rfl
    exact ⟨s.flush b, flush_writes both.1 both.2 hb, bind_ok write⟩

theorem flushFrom_gives (h : Inited s) (file : Present s f) (n i : Nat) :
    Gives (flushFrom f n i) s fun _ s' =>
      WritesBack (fun b => b ≠ 0 ∧ ∃ j, i ≤ j ∧ j < i + n ∧ pointer s.cell f j = b) s s' := by
  induction n generalizing s i with
  | zero =>
    refine Runs.pure ((WritesBack.nothing s).congr fun b => ⟨False.elim, ?_⟩)
    rintro ⟨-, j, low, high, -⟩
    omega
  | succ n ih =>
    unfold flushFrom
    refine Runs.bind (fileMapBlock_gives h file) fun r s₁ _ ends => ?_
    obtain ⟨writes, named⟩ := ends
    have rest := fun s₂ (writes₂ : Keeps s s₂) =>
      ih (h.keeps writes₂) (file.keeps writes₂) (i + 1)
    cases r with
    | error e =>
      refine (rest s₁ writes.toKeeps).mono fun _ s₂ _ writes₂ => (writes.trans writes₂).congr ?_
      intro b
      rw [false_or, writes.cell]
      constructor
      · rintro ⟨nonzero, j, low, high, eq⟩
        exact ⟨nonzero, j, by omega, by omega, eq⟩
      · rintro ⟨nonzero, j, low, high, eq⟩
        have other : j ≠ i := by
          rintro rfl
          cases (named b).mpr ⟨nonzero, eq⟩
        exact ⟨nonzero, j, by omega, by omega, eq⟩
    | ok b =>
      obtain ⟨nonzero, eq⟩ := (named b).mp rfl
      have small : b < 2 ^ 20 := by
        have valid := file.valid i
        have := h.nblocks
        rw [eq] at valid
        have := valid nonzero
        omega
      obtain ⟨s₂, writes₂, flush⟩ := @flushBlock_writes s₁ b small (flushFrom f n (i + 1))
      have both := writes.trans writes₂
      refine Runs.goes_on flush trivial ?_
      refine (rest s₂ both.toKeeps).mono fun _ s₃ _ writes₃ => ?_
      refine (both.trans writes₃).congr fun x => ?_
      rw [false_or, both.cell]
      constructor
      · rintro (rfl | ⟨nonzero, j, low, high, eq⟩)
        · exact ⟨nonzero, i, by omega, by omega, eq⟩
        · exact ⟨nonzero, j, by omega, by omega, eq⟩
      · rintro ⟨some_, j, low, high, at_⟩
        by_cases first : j = i
        · subst first
          exact .inl (at_.symm.trans eq)
        · exact .inr ⟨some_, j, by omega, by omega, at_⟩

theorem fileFlush_gives (h : Inited s) (file : Present s f) :
    Gives (fileFlush f) s fun _ s' => WritesBack (Flushed s.cell f) s s' := by
  unfold fileFlush
  refine Gives.step (load_mapped (file.field (by decide))) ?_
  refine (flushFrom_gives h file _ 0).mono fun _ s' _ writes => writes.congr fun b => ?_
  refine and_congr_right fun _ => exists_congr fun i => ?_
  constructor
  · rintro ⟨-, high, eq⟩
    exact ⟨by omega, eq⟩
  · rintro ⟨low, eq⟩
    exact ⟨by omega, by omega, eq⟩

theorem getDir_gives (file : Present s f) :
    Gives (getDir f) s fun r s' => s' = s ∧ ∀ d, r = some d ↔ DirOf s.cell f d := by
  have low : s.mapped (fDirLow f / 1024) = true := file.field (by decide)
  have high : s.mapped (fDirHigh f / 1024) = true := file.field (by decide)
  unfold getDir
  refine Gives.step (load_mapped low) (Gives.step (load_mapped high) ?_)
  by_cases null : s.cell (fDirLow f) = 0 ∧ s.cell (fDirHigh f) = 0
  · rw [if_pos null]
    refine Runs.pure ⟨rfl, fun d => ⟨(fun same => by cases same), fun dir => ?_⟩⟩
    have := dir.2
    rw [null.1, diskmap] at this
    omega
  · rw [if_neg null]
    by_cases inside : s.cell (fDirHigh f) = 0 ∧ diskmap ≤ s.cell (fDirLow f) ∧
        s.cell (fDirLow f) % 4 = 0
    · rw [if_pos inside]
      refine Runs.pure ⟨rfl, fun d => ⟨fun same => ?_, fun dir => ?_⟩⟩
      · cases same
        refine ⟨inside.1, ?_⟩
        have := inside.2
        unfold diskmap at this ⊢
        omega
      · rw [dir.2, Nat.add_sub_cancel_left, Nat.mul_div_cancel_left d (by decide)]
    · rw [if_neg inside]
      exact Gives.stopped _

theorem fileClose_gives (h : Inited s) (file : Present s f)
    (dirs : ∀ d, DirOf s.cell f d → Present s d) :
    Gives (fileClose f) s fun _ s' => WritesBack (Closed s.cell f) s s' := by
  unfold fileClose flushDir
  refine Runs.bind (fileFlush_gives h file) fun _ s₁ _ writes => ?_
  refine Runs.bind (getDir_gives (file.keeps writes.toKeeps)) fun r s₂ _ ends => ?_
  obtain ⟨rfl, dir⟩ := ends
  rw [writes.cell] at dir
  cases r with
  | none =>
    refine Runs.pure (writes.congr fun b => ⟨.inl, fun some_ => some_.resolve_right ?_⟩)
    rintro ⟨d, at_, -⟩
    cases (dir d).mpr at_
  | some d =>
    have at_ := (dir d).mp rfl
    refine (fileFlush_gives (h.keeps writes.toKeeps) ((dirs d at_).keeps writes.toKeeps)).mono
      fun _ s₃ _ last => (writes.trans last).congr fun b => or_congr_right ?_
    rw [writes.cell]
    constructor
    · exact fun flushed => ⟨d, at_, flushed⟩
    · rintro ⟨d', other, flushed⟩
      cases (dir d').mpr other
      exact flushed

theorem syncFrom_gives (n i : Nat) (hn : i + n ≤ 2 ^ 18) :
    Gives (syncFrom n i) s fun _ s' => WritesBack (fun b => i ≤ b ∧ b < i + n) s s' := by
  induction n generalizing s i with
  | zero =>
    refine Runs.pure ((WritesBack.nothing s).congr fun b => ⟨False.elim, fun both => ?_⟩)
    omega
  | succ n ih =>
    unfold syncFrom
    obtain ⟨s₁, writes, flush⟩ := @flushBlock_writes s i (by omega) (syncFrom n (i + 1))
    refine Runs.goes_on flush trivial ?_
    refine (ih (i + 1) (by omega)).mono fun _ s₂ _ last => (writes.trans last).congr fun b => ?_
    omega

theorem fsSync_gives (h : Inited s) :
    Gives fsSync s fun _ s' => WritesBack (· < s.cell sNblocks) s s' := by
  unfold fsSync
  refine Gives.step (load_mapped h.super) ?_
  have bound : 0 + s.cell sNblocks ≤ 2 ^ 18 := by
    rw [Nat.zero_add]
    exact h.nblocks
  refine (syncFrom_gives _ 0 bound).mono fun _ s' _ writes => writes.congr fun b => ?_
  omega

/-- `dirty_block` changes nothing: the bit that it passes is not `PTE_D`. -/
theorem dirtyBlock_same {r : Int} (out : dirtyBlock b s = .ok (r, s')) : s' = s := by
  unfold dirtyBlock blockIsMapped vaIsDirty at out
  rw [bind_ok rfl] at out
  cases mapped : s.mapped (page b) with
  | false =>
    rw [mapped] at out
    cases out
    rfl
  | true =>
    rw [mapped, if_pos rfl, bind_ok rfl] at out
    cases clean : s.pteD (page b) with
    | true =>
      rw [clean] at out
      cases out
      rfl
    | false =>
      rw [clean] at out
      cases out
      rw [← clean, Function.update_eq_self]

/-- A block is dirty after `dirty_block` if and only if it was before. -/
theorem dirtyBlock_dirty (out : dirtyBlock b s = .ok (0, s')) :
    blockIsDirty b s' = .ok (true, s') ↔ s.pteD (page b) = true := by
  have mapped : s.mapped (page b) = true := by
    by_contra none_
    unfold dirtyBlock blockIsMapped at out
    rw [bind_ok rfl, if_neg none_] at out
    cases out
  rw [dirtyBlock_same out]
  unfold blockIsDirty blockIsMapped vaIsDirty
  rw [bind_ok rfl, if_pos mapped]
  simp

theorem fileDirty_gives (h : Inited s) (file : Present s f) (offset : Nat) :
    Gives (fileDirty f offset) s fun _ s' => WritesBack (fun _ => False) s s' := by
  unfold fileDirty
  refine Runs.bind (fileMapBlock_gives h file) fun r s₁ _ ends => ?_
  cases r with
  | error e => exact Runs.pure ends.1
  | ok b =>
    unfold Runs
    split
    · rename_i out
      rw [dirtyBlock_same out]
      exact ⟨trivial, ends.1⟩
    · trivial

end

end FsM

end RiscvMos
