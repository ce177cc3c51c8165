import RiscvMos.Fs.Model

/-!
The words of the file system, whether they are in the cache or only on disk, and
what the functions of `fs/fs.c` do to them while the blocks they store to are in
the cache.
-/

namespace RiscvMos

namespace Fs

/-- A word of a block: the one in the cache if the block has a page. -/
def cell (s : Fs) (w : Nat) : Nat := if s.mapped (w / 1024) = true then s.word w else s.disk w

/-- No block loses its page. -/
structure Grows (s s' : Fs) : Prop where
  mapped : ∀ b, s.mapped b = true → s'.mapped b = true
  memory : s'.memory = s.memory
  asked : s.asked ≤ s'.asked

/-- All words are what they were. -/
structure Keeps (s s' : Fs) : Prop extends Grows s s' where
  cell : s'.cell = s.cell

/-- `read_block` does not run out of memory on the block. -/
def Readable (s : Fs) (b : Nat) : Prop :=
  s.mapped b = true ∨ ∀ n, s.asked ≤ n → s.memory n = true ∨ s.memory (n + 1) = true

variable {s s' s'' : Fs} {w v b : Nat}

theorem blockWord_block {i : Nat} (hb : b < 2 ^ 20) (hi : i < 1024) : blockWord b i / 1024 = b := by
  unfold blockWord page
  omega

theorem Grows.refl (s : Fs) : Grows s s := ⟨fun _ h => h, rfl, Nat.le_refl _⟩

theorem Grows.trans (h : Grows s s') (h' : Grows s' s'') : Grows s s'' :=
  ⟨fun b hb => h'.mapped b (h.mapped b hb), h'.memory.trans h.memory, h.asked.trans h'.asked⟩

theorem Keeps.refl (s : Fs) : Keeps s s := ⟨Grows.refl s, rfl⟩

theorem Keeps.trans (h : Keeps s s') (h' : Keeps s' s'') : Keeps s s'' :=
  ⟨h.toGrows.trans h'.toGrows, h'.cell.trans h.cell⟩

theorem Grows.readable (h : Grows s s') (hb : s.Readable b) : s'.Readable b := by
  cases hb with
  | inl mapped => exact .inl (h.mapped b mapped)
  | inr memory =>
    right
    intro n hn
    rw [h.memory]
    exact memory n (h.asked.trans hn)

/-- No block loses its page, and unless pages may be `short` none gets one. -/
structure Serves (short : Prop) (s s' : Fs) : Prop extends Grows s s' where
  still : ¬ short → s'.mapped = s.mapped

theorem Serves.refl {short : Prop} (s : Fs) : Serves short s s := ⟨Grows.refl s, fun _ => rfl⟩

theorem Serves.trans {short : Prop} (h : Serves short s s') (h' : Serves short s' s'') :
    Serves short s s'' :=
  ⟨h.toGrows.trans h'.toGrows, fun no => (h'.still no).trans (h.still no)⟩

theorem touch_mapped (h : s.mapped b = true) : s.touch b = s := if_pos h

theorem store_grows (h : s.mapped (w / 1024) = true) (v : Nat) : Grows s (s.store w v) := by
  unfold store
  rw [touch_mapped h]
  exact ⟨fun _ hb => hb, rfl, Nat.le_refl _⟩

theorem store_cell (h : s.mapped (w / 1024) = true) (v : Nat) :
    (s.store w v).cell = Function.update s.cell w (uInt v) := by
  unfold store
  rw [touch_mapped h]
  funext x
  by_cases hx : x = w
  · subst hx
    simp [cell, h]
  · simp [cell, Function.update_of_ne hx]

/-- A block that gets its page shows the words it has on disk. -/
theorem fill_keeps (h : s.mapped b = false) (hb : b < 2 ^ 20) : Keeps s (s.fill b) := by
  have page : page b = b := Nat.mod_eq_of_lt hb
  refine ⟨⟨fun x hx => ?_, rfl, Nat.le_refl _⟩, funext fun w => ?_⟩
  · by_cases hxb : x = b
    · simp [fill, page, hxb]
    · simp [fill, page, Function.update_of_ne hxb, hx]
  · by_cases hw : w / 1024 = b
    · have split : 1024 * b + w % 1024 = w := by omega
      simp [cell, fill, page, hw, h, split]
    · simp [cell, fill, page, hw]

theorem flush_keeps (h : s.mapped b = true) : Keeps s (s.flush b) := by
  refine ⟨⟨fun x hx => hx, rfl, Nat.le_refl _⟩, funext fun w => ?_⟩
  by_cases hw : w / 1024 = b
  · simp [cell, flush, hw, h]
  · simp [cell, flush, hw]

/-! ## The bitmap -/

def bit2blk : Nat := by2blk * 8

/-- The number of blocks that `read_bitmap` reads. -/
def nbitmap (c : Nat → Nat) : Nat := c sNblocks / bit2blk + 1

def BitmapBlock (c : Nat → Nat) (b : Nat) : Prop := 2 ≤ b ∧ b < 2 + nbitmap c

/-- The bit that says that a block is free. -/
def isFree (c : Nat → Nat) (b : Nat) : Bool := (c (blockWord 2 (b / 32))).testBit (b % 32)

/-- The words with that bit set. -/
def freed (c : Nat → Nat) (b : Nat) : Nat → Nat :=
  Function.update c (blockWord 2 (b / 32)) (uInt (c (blockWord 2 (b / 32)) ||| 1 <<< (b % 32)))

theorem isFree_freed (c : Nat → Nat) (b x : Nat) :
    isFree (freed c b) x = true ↔ isFree c x = true ∨ x = b := by
  unfold isFree freed
  by_cases same : x / 32 = b / 32
  · have bit : x = b ↔ b % 32 = x % 32 := by omega
    have small : x % 32 < 32 := Nat.mod_lt _ (by decide)
    rw [same, Function.update_self, uInt, Nat.testBit_mod_two_pow, Nat.testBit_or,
      Nat.one_shiftLeft, Nat.testBit_two_pow, bit]
    simp [small]
  · have word : blockWord 2 (x / 32) ≠ blockWord 2 (b / 32) := by
      unfold blockWord
      omega
    have other : x ≠ b := fun h => same (by rw [h])
    rw [Function.update_of_ne word]
    simp [other]

/-- The state after `fs_init`. -/
structure Inited (s : Fs) : Prop where
  nblocks : s.cell sNblocks ≤ 2 ^ 18
  super : s.mapped 1 = true
  bitmap : ∀ b, BitmapBlock s.cell b → s.mapped b = true

theorem bitmapBlock_word {c : Nat → Nat} (h : b < c sNblocks) :
    BitmapBlock c (blockWord 2 (b / 32) / 1024) := by
  simp only [BitmapBlock, nbitmap, bit2blk, by2blk, blockWord, page]
  omega

theorem Inited.word (h : Inited s) (hb : b < s.cell sNblocks) :
    s.mapped (blockWord 2 (b / 32) / 1024) = true :=
  h.bitmap _ (bitmapBlock_word hb)

theorem Inited.grows (h : Inited s) (grows : Grows s s')
    (same : s'.cell sNblocks = s.cell sNblocks) : Inited s' := by
  refine ⟨by rw [same]; exact h.nblocks, grows.mapped 1 h.super,
    fun b hb => grows.mapped b (h.bitmap b ?_)⟩
  simpa only [BitmapBlock, nbitmap, same] using hb

end Fs

namespace FsM

open Fs

variable {α β : Type} {s s' : Fs} {w b : Nat}

theorem bind_ok {x : FsM α} {f : α → FsM β} {a : α} (h : x s = .ok (a, s')) :
    (x >>= f) s = f a s' := by
  change (x s >>= fun p => f p.1 p.2) = f a s'
  rw [h]
  rfl

theorem bind_error {x : FsM α} {f : α → FsM β} {e : Stop} (h : x s = .error e) :
    (x >>= f) s = .error e := by
  change (x s >>= fun p => f p.1 p.2) = .error e
  rw [h]
  rfl

theorem load_mapped (h : s.mapped (w / 1024) = true) : load w s = .ok (s.cell w, s) := by
  unfold load cell
  rw [touch_mapped h, if_pos h]

theorem store_mapped (h : s.mapped (w / 1024) = true) (v : Nat) :
    ∃ s', store w v s = .ok ((), s') ∧ Grows s s' ∧ s'.cell = Function.update s.cell w (uInt v) :=
  ⟨_, rfl, store_grows h v, store_cell h v⟩

/-- A store needs no page. -/
theorem store_serves {short : Prop} (h : s.mapped (w / 1024) = true) (v : Nat) :
    ∃ s', store w v s = .ok ((), s') ∧ Serves short s s' ∧
    s'.cell = Function.update s.cell w (uInt v) := by
  refine ⟨_, rfl, ⟨store_grows h v, fun _ => ?_⟩, store_cell h v⟩
  unfold Fs.store
  rw [touch_mapped h]

theorem loadBlock_keeps (h : s.mapped b = false) (hb : b < 2 ^ 20) (readable : s.Readable b) :
    ∃ s', loadBlock b s = .ok ((), s') ∧ Keeps s s' ∧ s'.mapped b = true := by
  have memory := readable.resolve_left (by simp [h]) s.asked (Nat.le_refl _)
  have page : (Fs.page b) = b := Nat.mod_eq_of_lt hb
  have asks : ∀ n, Keeps s ({ s with asked := s.asked + n }.fill b) := fun n =>
    @Keeps.trans s { s with asked := s.asked + n } _
      ⟨⟨fun _ h => h, rfl, Nat.le_add_right _ _⟩, rfl⟩ (fill_keeps h hb)
  unfold loadBlock memAlloc
  cases first : s.memory s.asked with
  | true => exact ⟨_, by rw [bind_ok rfl, first]; rfl, asks 1, by simp [fill, page]⟩
  | false =>
    have second : s.memory (s.asked + 1) = true := memory.resolve_left (by simp [first])
    refine ⟨_, ?_, asks 2, by simp [fill, page]⟩
    rw [bind_ok rfl, first]
    simp only [Bool.false_eq_true, if_false]
    rw [bind_ok rfl, second]
    rfl

theorem blockIsFree_eq (h : Inited s) (hb : b < s.cell sNblocks) :
    blockIsFree b s = .ok (isFree s.cell b, s) := by
  unfold blockIsFree
  rw [bind_ok (load_mapped h.super), if_neg (by omega), bind_ok (load_mapped (h.word hb))]
  rfl

theorem readBlock_keeps (h : Inited s) (hb : b < s.cell sNblocks) (used : isFree s.cell b = false)
    (readable : s.Readable b) :
    ∃ s', readBlock b s = .ok ((), s') ∧ Keeps s s' ∧ s'.mapped b = true := by
  have small : b < 2 ^ 20 := by
    have := h.nblocks
    omega
  have page : Fs.page b = b := Nat.mod_eq_of_lt small
  have asks : blockIsMapped b s = .ok (s.mapped b, s) := by
    unfold blockIsMapped
    rw [page]
  unfold readBlock
  rw [bind_ok (load_mapped h.super), if_neg (by omega), bind_ok (blockIsFree_eq h hb), used]
  simp only [Bool.false_eq_true, if_false]
  rw [bind_ok asks]
  cases mapped : s.mapped b with
  | true => exact ⟨s, rfl, Keeps.refl s, mapped⟩
  | false =>
    simp only [Bool.false_eq_true, if_false]
    exact loadBlock_keeps mapped small readable

theorem freeBlock_freed (h : Inited s) (hb : b < s.cell sNblocks) (nonzero : b ≠ 0) :
    ∃ s', freeBlock b s = .ok ((), s') ∧ Grows s s' ∧ s'.cell = freed s.cell b := by
  unfold freeBlock
  rw [bind_ok (load_mapped h.super), if_neg (by omega), bind_ok (load_mapped (h.word hb))]
  exact store_mapped (h.word hb) _

end FsM

end RiscvMos
