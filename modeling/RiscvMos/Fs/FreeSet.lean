import RiscvMos.Lib.FirstFree
import RiscvMos.Fs.Blocks
import RiscvMos.Fs.Layout

/-!
The block allocator of `fs/fs.c` over any sequence of calls: a set of free blocks, from
which the first behind the reserved ones is taken.
-/

namespace RiscvMos

namespace Fs

/-- The blocks of the disk whose bit is set. -/
def freeSet (s : Fs) : Set Nat := {b | b < s.cell sNblocks ∧ isFree s.cell b = true}

/-- A block that `free_block` does not ignore. -/
def Known (n b : Nat) : Prop := 0 < b ∧ b < n

/-- A call of `alloc_block` or `free_block`. -/
inductive Performs (s : Fs) : FirstFree.Op Nat → FirstFree.Reply Nat → Fs → Prop
  | got {b : Nat} {s' : Fs} (run : FsM.allocBlock s = .ok (.ok b, s')) :
    Performs s .take (.got b) s'
  | full {s' : Fs} (run : FsM.allocBlock s = .ok (.error (-eNoDisk), s')) :
    Performs s .take .full s'
  | done {b : Nat} {s' : Fs} (run : FsM.freeBlock b s = .ok ((), s')) :
    Performs s (.free b) .done s'

/-- What a call does on a disk of `n` blocks. -/
structure Serviced (n : Nat) (s : Fs) (op : FirstFree.Op Nat) (r : FirstFree.Reply Nat)
    (s' : Fs) : Prop where
  performs : Performs s op r s'
  step : FirstFree.Step (3 ≤ ·) (Known n) (freeSet s) op r (freeSet s')
  cached : ∀ b, r = .got b → s'.mapped b = true
  onDisk : ∀ b, r = .got b → OnDisk s' b
  ignored : ∀ b, op = .free b → ¬Known n b → s' = s
  full : r = .full → s' = s
  /-- `block_is_free` tells the set. -/
  tells : ∀ b, ∃ f, FsM.blockIsFree b s' = .ok (f, s') ∧ (f = true ↔ b ∈ freeSet s')

inductive Calls (n : Nat) : Fs → List (FirstFree.Op Nat) → List (FirstFree.Reply Nat) → Fs → Prop
  | nil {s : Fs} : Calls n s [] [] s
  | cons {s s₁ s' : Fs} {op : FirstFree.Op Nat} {r : FirstFree.Reply Nat}
    {ops : List (FirstFree.Op Nat)} {rs : List (FirstFree.Reply Nat)}
    (call : Serviced n s op r s₁) (calls : Calls n s₁ ops rs s') :
      Calls n s (op :: ops) (r :: rs) s'

variable {s s' : Fs} {b n : Nat} {op : FirstFree.Op Nat} {ops : List (FirstFree.Op Nat)}
    {rs : List (FirstFree.Reply Nat)}

theorem Calls.run (h : Calls n s ops rs s') :
    FirstFree.Run (3 ≤ ·) (Known n) (freeSet s) ops rs (freeSet s') := by
  induction h with
  | nil => exact .nil
  | cons call _ ih => exact .cons call.step ih

theorem blockIsFree_freeSet (h : Inited s) (b : Nat) :
    ∃ f, FsM.blockIsFree b s = .ok (f, s) ∧ (f = true ↔ b ∈ freeSet s) := by
  by_cases valid : b < s.cell sNblocks
  · exact ⟨_, FsM.blockIsFree_eq h valid, (and_iff_right valid).symm⟩
  · refine ⟨false, ?_, iff_of_false Bool.false_ne_true fun member => valid member.1⟩
    unfold FsM.blockIsFree
    rw [FsM.bind_ok (FsM.load_mapped h.super), if_pos (Nat.not_lt.mp valid)]
    rfl

theorem sNblocks_plain (c : Nat → Nat) : ¬BitmapBlock c (sNblocks / 1024) :=
  fun bitmap => absurd bitmap.1 (by decide)

/-- What stays between the calls. -/
structure Allocator (n : Nat) (s : Fs) : Prop extends Inited s where
  memory : ∀ k, s.memory k = true
  count : s.cell sNblocks = n

theorem Allocator.grows (h : Allocator n s) (grows : Grows s s')
    (same : s'.cell sNblocks = s.cell sNblocks) :
    Allocator n s' := by
  refine ⟨h.toInited.grows grows same, ?_, same.trans h.count⟩
  rw [grows.memory]
  exact h.memory

theorem allocBlock_serviced (h : Allocator n s) :
    ∃ r s', Serviced n s .take r s' ∧ Allocator n s' := by
  cases FsM.allocBlock_cases h.toInited with
  | inl full =>
    have none_ : ∀ b ∈ freeSet s, ¬3 ≤ b := by
      intro b member low
      have free := member.2
      rw [full.2 b low member.1] at free
      exact Bool.false_ne_true free
    refine ⟨.full, s,
      ⟨.full full.1, .full none_, ?_, ?_, ?_, fun _ => rfl, blockIsFree_freeSet h.toInited⟩, h⟩
    · intro b got
      cases got
    · intro b got
      cases got
    · intro b free
      cases free
  | inr rest =>
    cases rest with
    | inl none_ =>
      obtain ⟨b, s', -, -, -, -, page, -⟩ := none_
      rw [h.memory] at page
      cases page
    | inr got =>
      obtain ⟨b, s', low, valid, free, run, grows, -, cell, cached, least, onDisk⟩ := got
      have same : s'.cell sNblocks = s.cell sNblocks := by
        rw [cell]
        apply obtained_other valid (sNblocks_plain _)
        unfold sNblocks
        omega
      have h' := h.grows grows same
      have set : freeSet s' = freeSet s \ {b} := by
        ext x
        unfold freeSet
        rw [Set.mem_sdiff, Set.mem_singleton_iff, Set.mem_ofPred_eq, Set.mem_ofPred_eq,
          same, and_assoc]
        apply and_congr_right
        intro hx
        rw [cell]
        exact isFree_obtained h.toInited hx
      refine ⟨.got b, s', ⟨.got run, ?_, ?_, ?_, ?_, ?_, blockIsFree_freeSet h'.toInited⟩, h'⟩
      · rw [set]
        refine .got ⟨valid, free⟩ low fun y member usable => ?_
        by_contra less
        have free := member.2
        rw [least y usable (Nat.lt_of_not_le less)] at free
        exact Bool.false_ne_true free
      · rintro b' ⟨⟩
        exact cached
      · rintro b' ⟨⟩
        exact onDisk
      · intro b' free
        cases free
      · intro full
        cases full

theorem freeBlock_serviced (h : Allocator n s) (b : Nat) :
    ∃ s', Serviced n s (.free b) .done s' ∧ Allocator n s' := by
  by_cases known : Known n b
  · have valid : b < s.cell sNblocks := by
      rw [h.count]
      exact known.2
    obtain ⟨s', run, grows, cell⟩ := FsM.freeBlock_freed h.toInited valid (Nat.ne_of_gt known.1)
    have same : s'.cell sNblocks = s.cell sNblocks := by
      rw [cell]
      exact freed_other valid (sNblocks_plain _)
    have h' := h.grows grows same
    have set : freeSet s' = insert b (freeSet s) := by
      ext x
      unfold freeSet
      rw [Set.mem_insert_iff, Set.mem_ofPred_eq, Set.mem_ofPred_eq, same, cell, isFree_freed]
      constructor
      · rintro ⟨bound, free | same⟩
        · exact .inr ⟨bound, free⟩
        · exact .inl same
      · rintro (rfl | ⟨bound, free⟩)
        · exact ⟨valid, .inr rfl⟩
        · exact ⟨bound, .inl free⟩
    refine ⟨s', ⟨.done run, ?_, ?_, ?_, ?_, ?_, blockIsFree_freeSet h'.toInited⟩, h'⟩
    · rw [set]
      exact .freed known
    · intro b got
      cases got
    · intro b got
      cases got
    · rintro b' ⟨⟩ unknown
      exact absurd known unknown
    · intro full
      cases full
  · have stop : b = 0 ∨ s.cell sNblocks ≤ b := by
      have bound := h.count
      unfold Known at known
      omega
    have run : FsM.freeBlock b s = .ok ((), s) := by
      unfold FsM.freeBlock
      rw [FsM.bind_ok (FsM.load_mapped h.super), if_pos stop]
      rfl
    refine ⟨s, ⟨.done run, .ignored known, ?_, ?_, fun _ _ _ => rfl, fun _ => rfl,
      blockIsFree_freeSet h.toInited⟩, h⟩
    · intro b got
      cases got
    · intro b got
      cases got

theorem calls_exist (h : Allocator n s) (ops : List (FirstFree.Op Nat)) :
    ∃ rs s', Calls n s ops rs s' := by
  induction ops generalizing s with
  | nil => exact ⟨[], s, .nil⟩
  | cons op ops ih =>
    cases op with
    | take =>
      obtain ⟨r, s₁, call, h₁⟩ := allocBlock_serviced h
      obtain ⟨rs, s', calls⟩ := ih h₁
      exact ⟨r :: rs, s', .cons call calls⟩
    | free b =>
      obtain ⟨s₁, call, h₁⟩ := freeBlock_serviced h b
      obtain ⟨rs, s', calls⟩ := ih h₁
      exact ⟨.done :: rs, s', .cons call calls⟩

/-- While there are pages the calls of `alloc_block` and `free_block` are those of a set of
free blocks, and a block is got twice only when it was given back. -/
theorem allocator_set (h : Inited s) (memory : ∀ k, s.memory k = true)
    (ops : List (FirstFree.Op Nat)) :
    ∃ (rs : List (FirstFree.Reply Nat)) (s' : Fs), Calls (s.cell sNblocks) s ops rs s' ∧
      ∀ i j b : Nat, i < j → rs[i]? = some (.got b) → rs[j]? = some (.got b) →
      ∃ k, i < k ∧ k < j ∧ ops[k]? = some (.free b) := by
  obtain ⟨rs, s', calls⟩ := calls_exist ⟨h, memory, rfl⟩ ops
  exact ⟨rs, s', calls, fun i j b less first second => calls.run.again less first second⟩

/-- A disk of eight blocks, of which the last five are free. -/
def eightBlocks : Fs where
  word := fun w => if w = sNblocks then 8 else if w = 2048 then 0xF8 else 0
  mapped := fun b => decide (b < 3)
  pteD := fun _ => false
  disk := fun _ => 0
  memory := fun _ => true
  asked := 0

theorem eightBlocks_inited : Inited eightBlocks := by
  refine ⟨by decide, rfl, fun b bitmap => ?_⟩
  have high : b < 2 + nbitmap eightBlocks.cell := bitmap.2
  have count : nbitmap eightBlocks.cell = 1 := rfl
  rw [count] at high
  exact decide_eq_true high

/-- The block that is given back is got again. -/
theorem allocator_set_eight :
    ∃ (rs : List (FirstFree.Reply Nat)) (s' : Fs),
      Calls 8 eightBlocks [.take, .take, .free 3, .take] rs s' ∧
      ∀ i j b : Nat, i < j → rs[i]? = some (.got b) → rs[j]? = some (.got b) →
        ∃ k, i < k ∧ k < j ∧ [FirstFree.Op.take, .take, .free 3, .take][k]? = some (.free b) :=
  allocator_set eightBlocks_inited (fun _ => rfl) [.take, .take, .free 3, .take]

end Fs

end RiscvMos
