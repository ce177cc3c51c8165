import RiscvMos.Fs.Cells

/-!
The block pointers of a file in the words of the file system, and what is left of
them, of the bitmap and of the rest when some of them are cleared.
-/

namespace RiscvMos

namespace Fs

/-- Where `file_block_walk` finds the number of a block. -/
def slot (c : Nat → Nat) (f i : Nat) : Nat :=
  if i < ndirect then fDirect f i else blockWord (c (fIndirect f)) i

def HasSlot (c : Nat → Nat) (f i : Nat) : Prop := i < ndirect ∨ i < nindirect ∧ c (fIndirect f) ≠ 0

instance (c : Nat → Nat) (f i : Nat) : Decidable (HasSlot c f i) :=
  inferInstanceAs (Decidable (_ ∨ _))

/-- The block pointer with an index; 0 is no block. -/
def pointer (c : Nat → Nat) (f i : Nat) : Nat := if HasSlot c f i then c (slot c f i) else 0

/-- `b` is the indirect block of the file or a block with an index. -/
def Owned (c : Nat → Nat) (f b : Nat) : Prop :=
  b ≠ 0 ∧ (b = c (fIndirect f) ∨ ∃ i, pointer c f i = b)

/-- The blocks of a file are blocks of the disk, and none is in use for another thing. -/
structure Layout (c : Nat → Nat) (f : Nat) : Prop where
  place : f / 1024 ≠ 0 ∧ f % 1024 ≤ 960
  super : f / 1024 = 1 → f = sRoot
  bitmap : ¬ BitmapBlock c (f / 1024)
  owned : ∀ b, Owned c f b → b < c sNblocks ∧ b ≠ 1 ∧ ¬ BitmapBlock c b ∧ b ≠ f / 1024
  alone : c (fIndirect f) ≠ 0 → ∀ i, pointer c f i ≠ c (fIndirect f)
  used : c (fIndirect f) ≠ 0 → isFree c (c (fIndirect f)) = false

/-- The words that hold no pointer of the file and are not in the bitmap. -/
structure Beside (c : Nat → Nat) (f w : Nat) : Prop where
  bitmap : ¬ BitmapBlock c (w / 1024)
  indirect : c (fIndirect f) ≠ 0 → w / 1024 ≠ c (fIndirect f)
  direct : w < fDirect f 0 ∨ fIndirect f ≤ w

/-- The pointers of `I` are cleared and their blocks returned to the bitmap. -/
structure Clears (f : Nat) (I : Nat → Prop) (c c' : Nat → Nat) : Prop where
  zero : ∀ i, I i → pointer c' f i = 0
  kept : ∀ i, ¬ I i → pointer c' f i = pointer c f i
  free : ∀ b < nbitmap c * bit2blk, isFree c' b = true ↔
    isFree c b = true ∨ b ≠ 0 ∧ ∃ i, I i ∧ pointer c f i = b
  rest : ∀ w, Beside c f w → c' w = c w

section
variable {c c' c'' : Nat → Nat} {f i j b w : Nat} {I J : Nat → Prop}

theorem Layout.indirect (h : Layout c f) (hi : c (fIndirect f) ≠ 0) :
    c (fIndirect f) < c sNblocks ∧ c (fIndirect f) ≠ 1 ∧ ¬ BitmapBlock c (c (fIndirect f)) ∧
      c (fIndirect f) ≠ f / 1024 :=
  h.owned _ ⟨hi, .inl rfl⟩

theorem fIndirect_block (h : f % 1024 ≤ 960) : fIndirect f / 1024 = f / 1024 := by
  unfold fIndirect
  omega

theorem slot_direct (h : i < ndirect) : slot c f i = f + 34 + i := if_pos h

theorem slot_indirect (h : ¬ i < ndirect) (small : c (fIndirect f) < 2 ^ 20) :
    slot c f i = 1024 * c (fIndirect f) + i := by
  rw [slot, if_neg h, blockWord, page, Nat.mod_eq_of_lt small]

theorem Layout.small (h : Layout c f) (nblocks : c sNblocks ≤ 2 ^ 18) :
    c (fIndirect f) < 2 ^ 20 := by
  by_cases hi : c (fIndirect f) = 0
  · omega
  · have := (h.indirect hi).1
    omega

/-- A pointer is in the block of the `struct File` or in the indirect block. -/
theorem Layout.slot_cases (h : Layout c f) (nblocks : c sNblocks ≤ 2 ^ 18) (hi : HasSlot c f i) :
    i < 10 ∧ slot c f i = f + 34 + i ∨
      10 ≤ i ∧ i < 1024 ∧ c (fIndirect f) ≠ 0 ∧ slot c f i = 1024 * c (fIndirect f) + i := by
  by_cases direct : i < ndirect
  · exact .inl ⟨direct, slot_direct direct⟩
  · obtain ⟨below, nonzero⟩ := hi.resolve_left direct
    exact .inr ⟨Nat.le_of_not_lt direct, below, nonzero, slot_indirect direct (h.small nblocks)⟩

theorem Layout.slot_block (h : Layout c f) (nblocks : c sNblocks ≤ 2 ^ 18) (hi : HasSlot c f i) :
    slot c f i / 1024 = f / 1024 ∨ c (fIndirect f) ≠ 0 ∧ slot c f i / 1024 = c (fIndirect f) := by
  have place := h.place.2
  cases h.slot_cases nblocks hi with
  | inl direct => left; omega
  | inr indirect => right; omega

theorem Layout.slot_bitmap (h : Layout c f) (nblocks : c sNblocks ≤ 2 ^ 18) (hi : HasSlot c f i) :
    ¬ BitmapBlock c (slot c f i / 1024) := by
  cases h.slot_block nblocks hi with
  | inl own =>
    rw [own]
    exact h.bitmap
  | inr indirect =>
    rw [indirect.2]
    exact (h.indirect indirect.1).2.2.1

theorem Layout.slot_inj (h : Layout c f) (nblocks : c sNblocks ≤ 2 ^ 18) (hi : HasSlot c f i)
    (hj : HasSlot c f j) (same : slot c f i = slot c f j) : i = j := by
  have place := h.place.2
  cases h.slot_cases nblocks hi with
  | inl left =>
    cases h.slot_cases nblocks hj with
    | inl right => omega
    | inr right =>
      have apart := (h.indirect right.2.2.1).2.2.2
      omega
  | inr left =>
    cases h.slot_cases nblocks hj with
    | inl right =>
      have apart := (h.indirect left.2.2.1).2.2.2
      omega
    | inr right => omega

/-- What is beside the file has none of its pointers. -/
theorem Layout.slot_beside (h : Layout c f) (nblocks : c sNblocks ≤ 2 ^ 18) (hi : HasSlot c f i)
    (beside : Beside c f w) : w ≠ slot c f i := by
  cases h.slot_cases nblocks hi with
  | inl direct =>
    have apart := beside.direct
    simp only [fDirect, fIndirect] at apart
    omega
  | inr indirect =>
    have apart := beside.indirect indirect.2.2.1
    omega

/-- A word of the block of the `struct File` that is not a direct pointer. -/
theorem Layout.beside_own (h : Layout c f) (own : w / 1024 = f / 1024)
    (direct : w < fDirect f 0 ∨ fIndirect f ≤ w) : Beside c f w := by
  refine ⟨by rw [own]; exact h.bitmap, fun nonzero => ?_, direct⟩
  rw [own]
  exact (h.indirect nonzero).2.2.2.symm

theorem Layout.beside_indirect (h : Layout c f) : Beside c f (fIndirect f) :=
  h.beside_own (fIndirect_block h.place.2) (.inr (Nat.le_refl _))

theorem fSize_block (h : f % 1024 ≤ 960) : fSize f / 1024 = f / 1024 := by
  unfold fSize
  omega

theorem Layout.beside_size (h : Layout c f) : Beside c f (fSize f) := by
  apply h.beside_own (fSize_block h.place.2)
  unfold fSize fDirect
  omega

theorem Layout.beside_nblocks (h : Layout c f) : Beside c f sNblocks := by
  refine ⟨fun bitmap => absurd bitmap.1 (by decide), fun nonzero same => ?_, ?_⟩
  · exact (h.indirect nonzero).2.1 same.symm
  · by_cases super : f / 1024 = 1
    · rw [h.super super]
      exact .inl (by decide)
    · have outside := h.place
      unfold sNblocks fDirect fIndirect
      omega

theorem freed_other (h : b < c sNblocks) (hw : ¬ BitmapBlock c (w / 1024)) : freed c b w = c w := by
  apply Function.update_of_ne
  intro same
  rw [same] at hw
  exact hw (bitmapBlock_word h)

theorem bitmap_word (h : b < nbitmap c * bit2blk) :
    BitmapBlock c (blockWord 2 (b / 32) / 1024) := by
  unfold BitmapBlock blockWord page
  simp only [bit2blk, by2blk] at h
  omega

theorem hasSlot_congr (indirect : c' (fIndirect f) = c (fIndirect f)) :
    HasSlot c' f i ↔ HasSlot c f i := by
  unfold HasSlot
  rw [indirect]

theorem slot_congr (indirect : c' (fIndirect f) = c (fIndirect f)) (i : Nat) :
    slot c' f i = slot c f i := by
  unfold slot
  rw [indirect]

theorem pointer_congr (indirect : c' (fIndirect f) = c (fIndirect f))
    (same : HasSlot c f i → c' (slot c f i) = c (slot c f i)) : pointer c' f i = pointer c f i := by
  unfold pointer
  rw [slot_congr indirect]
  by_cases hs : HasSlot c f i
  · rw [if_pos hs, if_pos ((hasSlot_congr indirect).mpr hs)]
    exact same hs
  · rw [if_neg hs, if_neg fun has => hs ((hasSlot_congr indirect).mp has)]

/-- One pointer that is not 0. -/
theorem Layout.clears (h : Layout c f) (nblocks : c sNblocks ≤ 2 ^ 18) (hi : HasSlot c f i)
    (nonzero : pointer c f i ≠ 0)
    (hc' : c' = Function.update (freed c (pointer c f i)) (slot c f i) 0) :
    Clears f (· = i) c c' := by
  have valid : pointer c f i < c sNblocks := (h.owned _ ⟨nonzero, .inr ⟨i, rfl⟩⟩).1
  have same : ∀ w, ¬ BitmapBlock c (w / 1024) → w ≠ slot c f i → c' w = c w := by
    intro w bitmap other
    rw [hc', Function.update_of_ne other, freed_other valid bitmap]
  have indirect := same _ h.beside_indirect.bitmap (h.slot_beside nblocks hi h.beside_indirect)
  constructor
  · intro j hj
    rw [hj, pointer, if_pos ((hasSlot_congr indirect).mpr hi), slot_congr indirect, hc',
      Function.update_self]
  · intro j hj
    apply pointer_congr indirect
    intro hs
    exact same _ (h.slot_bitmap nblocks hs) fun eq => hj (h.slot_inj nblocks hs hi eq)
  · intro b hb
    have word : blockWord 2 (b / 32) ≠ slot c f i := by
      intro eq
      apply h.slot_bitmap nblocks hi
      rw [← eq]
      exact bitmap_word hb
    have bits : isFree c' b = isFree (freed c (pointer c f i)) b := by
      unfold isFree
      rw [hc', Function.update_of_ne word]
    rw [bits, isFree_freed]
    constructor
    · rintro (free | named)
      · exact .inl free
      · exact .inr ⟨by rw [named]; exact nonzero, i, rfl, named.symm⟩
    · rintro (free | ⟨-, j, hj, named⟩)
      · exact .inl free
      · exact .inr (by rw [← named, hj])
  · intro w beside
    exact same w beside.bitmap (h.slot_beside nblocks hi beside)

/-- A pointer that is 0 stays so. -/
theorem Clears.of_zero (h : pointer c f i = 0) : Clears f (· = i) c c := by
  constructor
  · intro j hj
    rw [hj, h]
  · exact fun _ _ => rfl
  · intro b hb
    constructor
    · exact .inl
    · rintro (free | ⟨nonzero, j, hj, named⟩)
      · exact free
      · rw [hj, h] at named
        exact absurd named.symm nonzero
  · exact fun _ _ => rfl

theorem Clears.none (c : Nat → Nat) (f : Nat) : Clears f (fun _ => False) c c :=
  ⟨fun _ no => no.elim, fun _ _ => rfl,
    fun _ _ => ⟨.inl, Or.rec id fun ⟨_, _, no, _⟩ => no.elim⟩, fun _ _ => rfl⟩

theorem Clears.pointer_or (h : Clears f I c c') (i : Nat) :
    pointer c' f i = 0 ∨ pointer c' f i = pointer c f i := by
  by_cases hi : I i
  · exact .inl (h.zero i hi)
  · exact .inr (h.kept i hi)

theorem Clears.nbitmap (h : Clears f I c c') (layout : Layout c f) : nbitmap c' = nbitmap c := by
  unfold Fs.nbitmap
  rw [h.rest _ layout.beside_nblocks]

theorem Clears.beside (h : Clears f I c c') (layout : Layout c f) (hw : Beside c f w) :
    Beside c' f w := by
  refine ⟨fun bitmap => hw.bitmap ?_, ?_, hw.direct⟩
  · simpa only [BitmapBlock, h.nbitmap layout] using bitmap
  · rw [h.rest _ layout.beside_indirect]
    exact hw.indirect

theorem Clears.trans (h : Clears f I c c') (layout : Layout c f) (h' : Clears f J c' c'') :
    Clears f (fun i => I i ∨ J i) c c'' := by
  constructor
  · rintro i (hi | hj)
    · cases h'.pointer_or i with
      | inl zero => exact zero
      | inr same => exact same.trans (h.zero i hi)
    · exact h'.zero i hj
  · intro i hi
    exact (h'.kept i fun hj => hi (.inr hj)).trans (h.kept i fun hi' => hi (.inl hi'))
  · intro b hb
    rw [h'.free b (by rw [h.nbitmap layout]; exact hb), h.free b hb]
    constructor
    · rintro ((free | ⟨nonzero, i, hi, named⟩) | ⟨nonzero, j, hj, named⟩)
      · exact .inl free
      · exact .inr ⟨nonzero, i, .inl hi, named⟩
      · refine .inr ⟨nonzero, j, .inr hj, ?_⟩
        cases h.pointer_or j with
        | inl zero => exact absurd (named.symm.trans zero) nonzero
        | inr same => exact same.symm.trans named
    · rintro (free | ⟨nonzero, i, hi | hj, named⟩)
      · exact .inl (.inl free)
      · exact .inl (.inr ⟨nonzero, i, hi, named⟩)
      · by_cases hi : I i
        · exact .inl (.inr ⟨nonzero, i, hi, named⟩)
        · exact .inr ⟨nonzero, i, hj, (h.kept i hi).trans named⟩
  · intro w hw
    exact (h'.rest w (h.beside layout hw)).trans (h.rest w hw)

theorem Clears.owned (h : Clears f I c c') (layout : Layout c f) (hb : Owned c' f b) :
    Owned c f b := by
  obtain ⟨nonzero, indirect | ⟨i, named⟩⟩ := hb
  · rw [h.rest _ layout.beside_indirect] at indirect
    exact ⟨nonzero, .inl indirect⟩
  · refine ⟨nonzero, .inr ⟨i, ?_⟩⟩
    cases h.pointer_or i with
    | inl zero => exact absurd (named.symm.trans zero) nonzero
    | inr same => exact same.symm.trans named

/-- A block of the disk has a bit in the bitmap. -/
theorem lt_bits (h : b < c sNblocks) : b < Fs.nbitmap c * bit2blk := by
  simp only [Fs.nbitmap, bit2blk, by2blk]
  omega

theorem Clears.layout (h : Clears f I c c') (layout : Layout c f) : Layout c' f := by
  have indirect := h.rest _ layout.beside_indirect
  have bitmap : ∀ b, BitmapBlock c' b → BitmapBlock c b := by
    intro b hb
    simpa only [BitmapBlock, h.nbitmap layout] using hb
  refine ⟨layout.place, layout.super, fun hb => layout.bitmap (bitmap _ hb), ?_, ?_, ?_⟩
  · intro b hb
    rw [h.rest _ layout.beside_nblocks]
    obtain ⟨valid, super, free, own⟩ := layout.owned b (h.owned layout hb)
    exact ⟨valid, super, fun hb => free (bitmap b hb), own⟩
  · rw [indirect]
    intro nonzero i
    cases h.pointer_or i with
    | inl zero =>
      rw [zero]
      exact nonzero.symm
    | inr same =>
      rw [same]
      exact layout.alone nonzero i
  · rw [indirect]
    intro nonzero
    apply Bool.eq_false_iff.mpr
    rw [Ne, h.free _ (lt_bits (layout.indirect nonzero).1)]
    rintro (free | ⟨-, i, -, named⟩)
    · rw [layout.used nonzero] at free
      exact Bool.false_ne_true free
    · exact layout.alone nonzero i named

/-- As `Clears`, for all pointers from index `k` on, with the indirect block if
no index below `k` needs it. `f_size` is left open. -/
structure Shrinks (f k : Nat) (c c' : Nat → Nat) : Prop where
  kept : ∀ i < k, pointer c' f i = pointer c f i
  zero : ∀ i, k ≤ i → pointer c' f i = 0
  free : ∀ b < Fs.nbitmap c * bit2blk, isFree c' b = true ↔
    isFree c b = true ∨
    b ≠ 0 ∧ ((∃ i, k ≤ i ∧ pointer c f i = b) ∨ k ≤ ndirect ∧ c (fIndirect f) = b)
  indirect : c' (fIndirect f) = if k ≤ ndirect then 0 else c (fIndirect f)
  rest : ∀ w, Beside c f w → w ≠ fIndirect f → w ≠ fSize f → c' w = c w

variable {k n v : Nat}

/-- After the loop no index from `k` on has a block. -/
theorem Clears.all_zero (h : Clears f (fun i => k ≤ i ∧ i < k + (n - k)) c c')
    (within : ∀ i, pointer c f i ≠ 0 → i < n) (hi : k ≤ i) : pointer c' f i = 0 := by
  by_cases loop : i < k + (n - k)
  · exact h.zero i ⟨hi, loop⟩
  · rw [h.kept i fun inside => loop inside.2]
    by_contra nonzero
    have := within i nonzero
    omega

theorem Clears.free_from (h : Clears f (fun i => k ≤ i ∧ i < k + (n - k)) c c')
    (within : ∀ i, pointer c f i ≠ 0 → i < n) (hb : b < Fs.nbitmap c * bit2blk) :
    isFree c' b = true ↔ isFree c b = true ∨ b ≠ 0 ∧ ∃ i, k ≤ i ∧ pointer c f i = b := by
  rw [h.free b hb]
  constructor
  · rintro (free | ⟨nonzero, i, hi, named⟩)
    · exact .inl free
    · exact .inr ⟨nonzero, i, hi.1, named⟩
  · rintro (free | ⟨nonzero, i, hi, named⟩)
    · exact .inl free
    · refine .inr ⟨nonzero, i, ⟨hi, ?_⟩, named⟩
      have := within i (by rw [named]; exact nonzero)
      omega

/-- The indirect block is still needed. -/
theorem Clears.shrinks (h : Clears f (fun i => k ≤ i ∧ i < k + (n - k)) c c') (layout : Layout c f)
    (within : ∀ i, pointer c f i ≠ 0 → i < n) (needed : ndirect < k ∨ c (fIndirect f) = 0) :
    Shrinks f k c c' := by
  constructor
  · exact fun i hi => h.kept i fun inside => by omega
  · exact fun i hi => h.all_zero within hi
  · intro b hb
    rw [h.free_from within hb]
    apply or_congr Iff.rfl
    constructor
    · exact fun named => ⟨named.1, .inl named.2⟩
    · rintro ⟨nonzero, named | ⟨below, named⟩⟩
      · exact ⟨nonzero, named⟩
      · rw [needed.resolve_left (by omega)] at named
        exact absurd named.symm nonzero
  · rw [h.rest _ layout.beside_indirect]
    cases needed with
    | inl above => rw [if_neg (by omega)]
    | inr zero => rw [zero, ite_self]
  · exact fun w hw _ _ => h.rest w hw

/-- The indirect block is returned as well. -/
theorem Clears.shrinks_indirect (h : Clears f (fun i => k ≤ i ∧ i < k + (n - k)) c c')
    (layout : Layout c f)
    (within : ∀ i, pointer c f i ≠ 0 → i < n) (low : k ≤ ndirect) (nonzero : c (fIndirect f) ≠ 0)
    (hc'' : c'' = Function.update (freed c' (c (fIndirect f))) (fIndirect f) 0) :
    Shrinks f k c c'' := by
  have valid := (layout.indirect nonzero).1
  have bits := h.nbitmap layout
  have block := fIndirect_block layout.place.2
  have same : ∀ w, ¬ BitmapBlock c (w / 1024) → w ≠ fIndirect f → c'' w = c' w := by
    intro w bitmap other
    rw [hc'', Function.update_of_ne other]
    apply freed_other
    · rw [h.rest _ layout.beside_nblocks]
      exact valid
    · simpa only [BitmapBlock, bits] using bitmap
  have indirect : c'' (fIndirect f) = 0 := by
    rw [hc'', Function.update_self]
  have direct : ∀ i, pointer c'' f i = if i < ndirect then pointer c' f i else 0 := by
    intro i
    by_cases hi : i < ndirect
    · have place := layout.place.2
      have small : i < 10 := hi
      have own : (f + 34 + i) / 1024 = f / 1024 := by omega
      rw [if_pos hi, pointer, pointer, if_pos (.inl hi), if_pos (.inl hi),
        slot_direct hi, slot_direct hi]
      apply same
      · rw [own]
        exact layout.bitmap
      · unfold fIndirect
        omega
    · rw [if_neg hi, pointer, if_neg]
      rintro (low | ⟨-, other⟩)
      · exact hi low
      · exact other indirect
  constructor
  · intro i hi
    rw [direct, if_pos (by omega)]
    exact h.kept i fun inside => by omega
  · intro i hi
    rw [direct, h.all_zero within hi, ite_self]
  · intro b hb
    have word : blockWord 2 (b / 32) ≠ fIndirect f := by
      intro eq
      apply layout.bitmap
      rw [← block, ← eq]
      exact bitmap_word hb
    have bit : isFree c'' b = isFree (freed c' (c (fIndirect f))) b := by
      unfold isFree
      rw [hc'', Function.update_of_ne word]
    rw [bit, isFree_freed, h.free_from within hb]
    constructor
    · rintro ((free | ⟨hb, named⟩) | own)
      · exact .inl free
      · exact .inr ⟨hb, .inl named⟩
      · exact .inr ⟨by rw [own]; exact nonzero, .inr ⟨low, own.symm⟩⟩
    · rintro (free | ⟨hb, named | ⟨-, own⟩⟩)
      · exact .inl (.inl free)
      · exact .inl (.inr ⟨hb, named⟩)
      · exact .inr own.symm
  · rw [indirect, if_pos low]
  · intro w hw other _
    rw [same w hw.bitmap other]
    exact h.rest w hw

/-- `f_size` is none of these words. -/
theorem Shrinks.size (h : Shrinks f k c c') (layout : Layout c f) (nblocks : c sNblocks ≤ 2 ^ 18)
    (hc'' : c'' = Function.update c' (fSize f) v) : Shrinks f k c c'' := by
  have place := layout.place.2
  have same : ∀ w, w ≠ fSize f → c'' w = c' w := by
    intro w hw
    rw [hc'', Function.update_of_ne hw]
  have indirect : c'' (fIndirect f) = c' (fIndirect f) := same _ (by unfold fIndirect fSize; omega)
  have pointers : ∀ i, pointer c'' f i = pointer c' f i := by
    intro i
    apply pointer_congr indirect
    intro hs
    apply same
    by_cases low : i < ndirect
    · rw [slot_direct low]
      unfold fSize
      omega
    · have nonzero := (hs.resolve_left low).2
      have kept : c' (fIndirect f) = c (fIndirect f) := by
        have eq := h.indirect
        by_cases hk : k ≤ ndirect
        · rw [if_pos hk] at eq
          exact absurd eq nonzero
        · rwa [if_neg hk] at eq
      rw [slot_congr kept]
      exact (layout.slot_beside nblocks ((hasSlot_congr kept).mp hs) layout.beside_size).symm
  constructor
  · exact fun i hi => (pointers i).trans (h.kept i hi)
  · exact fun i hi => (pointers i).trans (h.zero i hi)
  · intro b hb
    have word : blockWord 2 (b / 32) ≠ fSize f := by
      intro eq
      apply layout.beside_size.bitmap
      rw [← eq]
      exact bitmap_word hb
    have bit : isFree c'' b = isFree c' b := by
      unfold isFree
      rw [same _ word]
    rw [bit]
    exact h.free b hb
  · rw [indirect]
    exact h.indirect
  · exact fun w hw other size => (same w size).trans (h.rest w hw other size)

end

end Fs

end RiscvMos
