import RiscvMos.Fs.Cells
import Mathlib.Data.Nat.Bitwise
import Mathlib.Algebra.Order.Ring.Nat

/-!
`alloc_block` of `fs/fs.c` on the words of the file system: the block that it takes
from the bitmap, and what the page of the block holds then.
-/

namespace RiscvMos

namespace Fs

/-- The words with the bit of a block cleared. -/
def taken (c : Nat → Nat) (b : Nat) : Nat → Nat :=
  Function.update c (blockWord 2 (b / 32))
    (uInt (c (blockWord 2 (b / 32)) &&& (2 ^ 32 - 1 - 1 <<< (b % 32))))

/-- The words with a block of zeros. -/
def cleared (c : Nat → Nat) (b : Nat) : Nat → Nat := fun w => if w / 1024 = b then 0 else c w

/-- The words of a block that `alloc_block` has just got: it takes what is left in the cache. -/
def obtained (s : Fs) (b : Nat) : Nat → Nat :=
  if s.mapped b = true then taken s.cell b else cleared (taken s.cell b) b

/-- The number of a free block is stored in a word, and the block is not free any more. -/
structure Assigns (c c' : Nat → Nat) (w b : Nat) : Prop where
  low : 3 ≤ b
  valid : b < c sNblocks
  was : isFree c b = true
  here : c' w = b
  free : ∀ x < c sNblocks, isFree c' x = true ↔ isFree c x = true ∧ x ≠ b
  rest : ∀ x, ¬ BitmapBlock c (x / 1024) → x / 1024 ≠ b → x ≠ w → c' x = c x

/-- The bitmap block with the bit of a block is on disk as it is in the cache. -/
def OnDisk (s : Fs) (b : Nat) : Prop :=
  ∀ x, x / bit2blk = b / bit2blk → isFree s.disk x = isFree s.cell x

variable {s : Fs} {b w : Nat}

theorem isFree_word (b : Nat) : blockWord 2 (b / 32) / 1024 = b / bit2blk + 2 := by
  simp only [blockWord, page, bit2blk, by2blk]
  omega

theorem flush_onDisk (h : s.mapped (b / bit2blk + 2) = true) (small : b < 2 ^ 20) :
    OnDisk (s.flush (b / bit2blk + 2)) b := by
  intro x same
  have block : blockWord 2 (x / 32) / 1024 = b / bit2blk + 2 := by rw [isFree_word, same]
  have back : blockWord (b / bit2blk + 2) (blockWord 2 (x / 32) % 1024) = blockWord 2 (x / 32) := by
    have whole := Nat.div_add_mod (blockWord 2 (x / 32)) 1024
    rw [block] at whole
    have short : b / bit2blk + 2 < 2 ^ 20 := by
      simp only [bit2blk, by2blk]
      omega
    rw [blockWord, page, Nat.mod_eq_of_lt short, whole]
  have word : (s.flush (b / bit2blk + 2)).disk (blockWord 2 (x / 32)) =
      s.cell (blockWord 2 (x / 32)) := by
    unfold flush cell
    simp only [block, if_true, h, back]
  rw [isFree, isFree, word, (flush_keeps h).cell]

theorem taken_other {c : Nat → Nat} (h : b < c sNblocks) (hw : ¬ BitmapBlock c (w / 1024)) :
    taken c b w = c w := by
  unfold taken
  apply Function.update_of_ne
  intro same
  rw [same] at hw
  exact hw (bitmapBlock_word h)

theorem isFree_taken (c : Nat → Nat) (b x : Nat) :
    isFree (taken c b) x = true ↔ isFree c x = true ∧ x ≠ b := by
  unfold isFree taken
  by_cases same : x / 32 = b / 32
  · have bit : x = b ↔ b % 32 = x % 32 := by omega
    have small : x % 32 < 32 := Nat.mod_lt _ (by decide)
    have shifted : 1 <<< (b % 32) < 2 ^ 32 := by
      rw [Nat.one_shiftLeft]
      exact Nat.pow_lt_pow_right (by decide) (Nat.mod_lt _ (by decide))
    have mask : (2 ^ 32 - 1 - 1 <<< (b % 32)).testBit (x % 32) =
        !(1 <<< (b % 32)).testBit (x % 32) := by
      rw [Nat.sub_sub, Nat.add_comm, Nat.testBit_two_pow_sub_succ shifted]
      simp [small]
    rw [same, Function.update_self, uInt, Nat.testBit_mod_two_pow, Nat.testBit_and, mask,
      Nat.one_shiftLeft, Nat.testBit_two_pow, Ne, bit]
    simp [small]
  · have word : blockWord 2 (x / 32) ≠ blockWord 2 (b / 32) := by
      unfold blockWord
      omega
    have other : x ≠ b := fun h => same (by rw [h])
    rw [Function.update_of_ne word]
    simp [other]

theorem zero_cell : (s.zero b).cell = cleared s.cell b := by
  funext w
  unfold cell cleared zero
  by_cases here : w / 1024 = b
  · simp [here]
  · simp [here]

/-- The words beside the bitmap and the block are what they were. -/
theorem obtained_other (hb : b < s.cell sNblocks) (hw : ¬ BitmapBlock s.cell (w / 1024))
    (other : w / 1024 ≠ b) :
    obtained s b w = s.cell w := by
  unfold obtained
  by_cases cached : s.mapped b = true
  · rw [if_pos cached]
    exact taken_other hb hw
  · rw [if_neg cached, cleared, if_neg other]
    exact taken_other hb hw

/-- The block is not free any more, and no other bit has changed. -/
theorem isFree_obtained (h : Inited s) {x : Nat} (hx : x < s.cell sNblocks) :
    isFree (obtained s b) x = true ↔ isFree s.cell x = true ∧ x ≠ b := by
  unfold obtained
  by_cases cached : s.mapped b = true
  · rw [if_pos cached]
    exact isFree_taken s.cell b x
  · have other : blockWord 2 (x / 32) / 1024 ≠ b := by
      intro same
      have word := h.word hx
      rw [same] at word
      exact cached word
    rw [if_neg cached, ← isFree_taken, isFree, cleared, if_neg other]
    exact Iff.rfl

theorem obtained_assigns (h : Inited s) (low : 3 ≤ b) (valid : b < s.cell sNblocks)
    (was : isFree s.cell b = true)
    (hw : ¬ BitmapBlock s.cell (w / 1024)) :
    Assigns s.cell (Function.update (obtained s b) w (uInt b)) w b := by
  refine ⟨low, valid, was, ?_, fun x hx => ?_, fun x bitmap block other => ?_⟩
  · have disk := h.nblocks
    rw [Function.update_self]
    exact Nat.mod_eq_of_lt (by omega)
  · have other : blockWord 2 (x / 32) ≠ w := by
      intro same
      rw [← same] at hw
      exact hw (bitmapBlock_word hx)
    rw [← isFree_obtained h hx, isFree, Function.update_of_ne other]
    exact Iff.rfl
  · rw [Function.update_of_ne other]
    exact obtained_other valid bitmap block

theorem Assigns.nblocks {c c' : Nat → Nat} (h : Assigns c c' w b) (hw : w ≠ sNblocks) :
    c' sNblocks = c sNblocks := by
  have low := h.low
  apply h.rest sNblocks (fun bitmap => absurd bitmap.1 (by decide)) _ hw.symm
  unfold sNblocks
  omega

theorem zero_grows (s : Fs) (b : Nat) : Grows s (s.zero b) := by
  refine ⟨fun x hx => ?_, rfl, Nat.le_refl _⟩
  by_cases here : x = b
  · rw [here]
    exact Function.update_self b true s.mapped
  · exact (Function.update_of_ne here true s.mapped).trans hx

end Fs

namespace FsM

open Fs

variable {s : Fs} {b n : Nat}

/-- The loop finds no free block, or it takes one. -/
theorem allocFrom_cases (h : Inited s) (n b : Nat) :
    (allocFrom n b s = .ok (.error (-eNoDisk), s) ∧
      ∀ x, b ≤ x → x < b + n → x < s.cell sNblocks → isFree s.cell x = false) ∨
      ∃ x s', b ≤ x ∧ x < s.cell sNblocks ∧ isFree s.cell x = true ∧
      allocFrom n b s = .ok (.ok x, s') ∧ Grows s s' ∧
        s'.cell = taken s.cell x ∧ s'.mapped = s.mapped ∧ s'.asked = s.asked ∧
        (∀ y, b ≤ y → y < x → isFree s.cell y = false) ∧ OnDisk s' x := by
  induction n generalizing b with
  | zero => exact .inl ⟨rfl, fun x low high => by omega⟩
  | succ n ih =>
    unfold allocFrom
    rw [bind_ok (load_mapped h.super)]
    by_cases more : b < s.cell sNblocks
    · rw [if_pos more, bind_ok (load_mapped (h.word more))]
      by_cases free : (s.cell (blockWord 2 (b / 32))).testBit (b % 32) = true
      · rw [if_pos free]
        right
        have cached := h.word more
        obtain ⟨s₁, stored, grows, cell⟩ := store_mapped cached
          (s.cell (blockWord 2 (b / 32)) &&& (2 ^ 32 - 1 - 1 <<< (b % 32)))
        have mapped₁ : s₁.mapped = s.mapped ∧ s₁.asked = s.asked := by
          cases stored
          unfold Fs.store
          rw [touch_mapped cached]
          exact ⟨rfl, rfl⟩
        have bitmap : BitmapBlock s.cell (b / (8 * by2blk) + 2) := by
          simp only [BitmapBlock, nbitmap, bit2blk, by2blk]
          omega
        have small : page (b / (8 * by2blk) + 2) = b / (8 * by2blk) + 2 := by
          have disk := h.nblocks
          unfold page by2blk
          omega
        have written : s₁.mapped (b / (8 * by2blk) + 2) = true := by
          rw [mapped₁.1]
          exact h.bitmap _ bitmap
        have asks : blockIsMapped (b / (8 * by2blk) + 2) s₁ = .ok (true, s₁) := by
          unfold blockIsMapped
          rw [small, written]
        have flushed := flush_keeps written
        have onDisk : OnDisk (s₁.flush (b / (8 * by2blk) + 2)) b := by
          have disk := h.nblocks
          exact flush_onDisk written (by omega)
        refine ⟨b, s₁.flush (b / (8 * by2blk) + 2), Nat.le_refl b, more, free, ?_,
          grows.trans flushed.toGrows,
          flushed.cell.trans cell, mapped₁.1, mapped₁.2, fun y low high => by omega, onDisk⟩
        rw [bind_ok stored]
        unfold writeBlock
        rw [bind_assoc, bind_ok asks]
        rfl
      · rw [if_neg free]
        cases ih (b + 1) with
        | inl none_ =>
          refine .inl ⟨none_.1, fun x low high more => ?_⟩
          by_cases here : x = b
          · rw [here]
            exact eq_false_of_ne_true free
          · exact none_.2 x (by omega) (by omega) more
        | inr found =>
          obtain ⟨x, s', low, valid, is, run, grows, cell, mapped, asked, least, onDisk⟩ := found
          refine .inr ⟨x, s', Nat.le_of_succ_le low, valid, is, run, grows, cell, mapped,
            asked, ?_, onDisk⟩
          intro y low high
          by_cases here : y = b
          · rw [here]
            exact eq_false_of_ne_true free
          · exact least y (by omega) high
    · rw [if_neg more]
      exact .inl ⟨rfl, fun x low _ bound => by omega⟩

/-- `alloc_block` finds the disk full, or there is no page for the block, or it gets a block. -/
theorem allocBlock_cases (h : Inited s) :
    (allocBlock s = .ok (.error (-eNoDisk), s) ∧
      ∀ b, 3 ≤ b → b < s.cell sNblocks → isFree s.cell b = false) ∨
      (∃ b s', allocBlock s = .ok (.error (-eNoMem), s') ∧ Grows s s' ∧ isFree s.cell b = true ∧
        s.mapped b = false ∧
        s.memory s.asked = false ∧ s'.cell = freed (taken s.cell b) b) ∨
      ∃ b s', 3 ≤ b ∧ b < s.cell sNblocks ∧ isFree s.cell b = true ∧
      allocBlock s = .ok (.ok b, s') ∧ Grows s s' ∧
        (s.mapped b = true ∨ s.memory s.asked = true) ∧ s'.cell = obtained s b ∧
        s'.mapped b = true ∧
        (∀ y, 3 ≤ y → y < b → isFree s.cell y = false) ∧ OnDisk s' b := by
  have nblocks : load sNblocks s = .ok (s.cell sNblocks, s) := load_mapped h.super
  unfold allocBlock allocBlockNum
  rw [bind_assoc, bind_ok nblocks]
  cases allocFrom_cases h (s.cell sNblocks) 3 with
  | inl none_ =>
    rw [bind_ok none_.1]
    exact .inl ⟨rfl, fun b low more => none_.2 b low (by omega) more⟩
  | inr found =>
    obtain ⟨b, s₁, low, bound, free, taken_, grows, cell, mapped, asked, least, onDisk⟩ := found
    right
    have small : page b = b := by
      have disk := h.nblocks
      exact Nat.mod_eq_of_lt (by omega)
    have asks : blockIsMapped b s₁ = .ok (s₁.mapped b, s₁) := by
      unfold blockIsMapped
      rw [small]
    rw [bind_ok taken_]
    simp only
    unfold mapBlock
    rw [bind_assoc, bind_ok asks, mapped]
    cases cached : s.mapped b with
    | true =>
      right
      refine ⟨b, s₁, low, bound, free, rfl, grows, .inl cached,
        ?_, by rw [mapped]; exact cached, least, onDisk⟩
      unfold obtained
      rw [if_pos cached]
      exact cell
    | false =>
      have memory : memAlloc s₁ = .ok (s.memory s.asked, { s₁ with asked := s₁.asked + 1 }) := by
        unfold memAlloc
        rw [asked, grows.memory]
      rw [if_neg Bool.false_ne_true, bind_assoc, bind_ok memory]
      cases page_ : s.memory s.asked with
      | true =>
        right
        have uncached : { s₁ with asked := s₁.asked + 1 }.mapped b = false := by
          show s₁.mapped b = false
          rw [mapped]
          exact cached
        have more : Grows s₁ { s₁ with asked := s₁.asked + 1 } :=
          ⟨fun _ hb => hb, rfl, Nat.le_succ _⟩
        refine ⟨b, { s₁ with asked := s₁.asked + 1 }.zero b, low, bound, free, ?_,
          (grows.trans more).trans (zero_grows _ b), .inr rfl, ?_,
          Function.update_self b true s₁.mapped, least, ?_⟩
        · have zeros : { s₁ with asked := s₁.asked + 1 }.zero (page b) =
              { s₁ with asked := s₁.asked + 1 }.zero b := by
            rw [small]
          rw [if_pos rfl, ← zeros]
          rfl
        · rw [zero_cell]
          unfold obtained
          rw [if_neg (by rw [cached]; exact Bool.false_ne_true), ← cell]
          rfl
        · intro x same
          have other : blockWord 2 (x / 32) / 1024 ≠ b := by
            intro here
            rw [isFree_word, same, ← isFree_word] at here
            have word := h.word bound
            rw [here, cached] at word
            cases word
          have kept : isFree ({ s₁ with asked := s₁.asked + 1 }.zero b).cell x =
              isFree s₁.cell x := by
            rw [zero_cell, isFree, cleared, if_neg other]
            rfl
          rw [kept]
          exact onDisk x same
      | false =>
        left
        have more : Grows s₁ { s₁ with asked := s₁.asked + 1 } :=
          ⟨fun _ hb => hb, rfl, Nat.le_succ _⟩
        have nblocks_ : { s₁ with asked := s₁.asked + 1 }.cell sNblocks = s.cell sNblocks := by
          show s₁.cell sNblocks = _
          rw [cell]
          apply taken_other bound
          simp only [BitmapBlock, sNblocks]
          omega
        have h₁ : Inited { s₁ with asked := s₁.asked + 1 } := h.grows (grows.trans more) nblocks_
        obtain ⟨s₂, freed_, grows₂, cell₂⟩ :=
          freeBlock_freed h₁ (by rw [nblocks_]; exact bound) (by omega)
        refine ⟨b, s₂, ?_, (grows.trans more).trans grows₂, free, cached, rfl, ?_⟩
        · rw [if_neg Bool.false_ne_true, pure_bind, if_pos (by decide), bind_ok freed_]
          rfl
        · rw [cell₂, ← cell]
          rfl

/-- Where there are pages and a free block, it gets a block. -/
theorem allocBlock_got (h : Inited s) (memory : ∀ n, s.memory n = true)
    (free : ∃ b, 3 ≤ b ∧ b < s.cell sNblocks ∧ isFree s.cell b = true) :
    ∃ b s', allocBlock s = .ok (.ok b, s') ∧ Grows s s' ∧ 3 ≤ b ∧ b < s.cell sNblocks ∧
    isFree s.cell b = true ∧
      s'.cell = obtained s b ∧ s'.mapped b = true := by
  cases allocBlock_cases h with
  | inl full =>
    obtain ⟨b, low, valid, free⟩ := free
    rw [full.2 b low valid] at free
    cases free
  | inr rest =>
    cases rest with
    | inl none_ =>
      obtain ⟨b, s', -, -, -, -, page, -⟩ := none_
      rw [memory] at page
      cases page
    | inr got =>
      obtain ⟨b, s', low, valid, free, run, grows, -, cell, cached, -⟩ := got
      exact ⟨b, s', run, grows, low, valid, free, cell, cached⟩

/-- It returns a block or an error. -/
theorem allocBlock_total (h : Inited s) : ∃ r s', allocBlock s = .ok (r, s') := by
  rcases allocBlock_cases h with full | ⟨b, s', none_, -⟩ | ⟨b, s', -, -, -, run, -⟩
  · exact ⟨_, s, full.1⟩
  · exact ⟨_, s', none_⟩
  · exact ⟨_, s', run⟩

/-- A block that it returns was free, and is in the cache. -/
theorem allocBlock_result (h : Inited s) {s' : Fs} (out : allocBlock s = .ok (.ok b, s')) :
    3 ≤ b ∧ b < s.cell sNblocks ∧ isFree s.cell b = true ∧ Grows s s' ∧
      s'.cell = obtained s b ∧ s'.mapped b = true := by
  rcases allocBlock_cases h with full | ⟨x, t, none_, -⟩ |
    ⟨x, t, low, valid, free, run, grows, -, cell, cached, -⟩
  · rw [full.1] at out
    cases out
  · rw [none_] at out
    cases out
  · rw [run] at out
    cases out
    exact ⟨low, valid, free, grows, cell, cached⟩

end FsM

end RiscvMos
