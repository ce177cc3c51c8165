import RiscvMos.Fs.Grow

/-!
Blocks that are allocated while all blocks are in the cache: which words change then, and
that a block can be had there if it can be had in any state with these words.
-/

namespace RiscvMos

namespace Fs

/-- All blocks are in the cache, and there are pages. -/
structure Whole (s : Fs) : Prop extends Inited s where
  all : ∀ b, s.mapped b = true
  supplied : s.Supplied

/-- What allocations leave: nothing has changed but words that were 0, and the bitmap behind
the bit of block 0. -/
structure Granted (s s' : Fs) : Prop extends Whole s' where
  blocks : s'.cell sNblocks = s.cell sNblocks
  boot : isFree s'.cell 0 = isFree s.cell 0
  rest : ∀ w, ¬ BitmapBlock s.cell (w / 1024) → s.cell w ≠ 0 → s'.cell w = s.cell w

section
variable {s s' s'' : Fs}

theorem Whole.grows (h : Whole s) (grows : Grows s s') (same : s'.cell sNblocks = s.cell sNblocks) :
    Whole s' :=
  ⟨h.toInited.grows grows same, fun b => grows.mapped b (h.all b), grows.supplied h.supplied⟩

theorem Granted.refl (h : Whole s) : Granted s s := ⟨h, rfl, rfl, fun _ _ _ => rfl⟩

theorem Granted.trans (h : Granted s s') (h' : Granted s' s'') : Granted s s'' := by
  refine ⟨h'.toWhole, h'.blocks.trans h.blocks, h'.boot.trans h.boot, fun w hw nonzero => ?_⟩
  have first := h.rest w hw nonzero
  have second := h'.rest w (by simpa only [BitmapBlock, nbitmap, h.blocks] using hw)
    (by rwa [first])
  exact second.trans first

/-- With all blocks in the cache the kernel does not stop. -/
def granting : Progress Fs Stop where
  rel s s' := Whole s → Granted s s'
  stops x s := Whole s → x ≠ .halt
  refl _ := Granted.refl
  trans h h' whole := (h whole).trans (h' (h whole).toWhole)
  back h stops whole := stops (h whole).toWhole

end

end Fs

namespace FsM

open Fs

section
variable {s t : Fs} {w b f i : Nat}

/-! ## What changes -/

theorem allocBlock_granted (h : Whole s) :
    Runs granting allocBlock s fun _ s' => ∀ w, s.cell w = 0 → s'.cell w = 0 := by
  rcases allocBlock_cases h.toInited with full | ⟨b, s', -, -, -, unmapped, -⟩ |
    ⟨b, s', low, valid, -, run, grows, -, cell, -⟩
  · exact Runs.of_ok full.1 (fun _ => .refl h) fun _ zero => zero
  · rw [h.all b] at unmapped
    cases unmapped
  · have takes : s'.cell = taken s.cell b := by rw [cell, obtained, if_pos (h.all b)]
    have other (w : Nat) (hw : ¬ BitmapBlock s.cell (w / 1024)) : s'.cell w = s.cell w := by
      rw [takes]
      exact taken_other valid hw
    have blocks := other sNblocks fun bitmap => absurd bitmap.1 (by decide)
    have boot : isFree s'.cell 0 = isFree s.cell 0 := by
      have apart : 0 ≠ b := by omega
      rw [takes, Bool.eq_iff_iff, isFree_taken]
      exact and_iff_left apart
    refine Runs.of_ok run (fun _ => ⟨h.grows grows blocks, blocks, boot, fun w hw _ => other w hw⟩)
      fun w zero => ?_
    rw [takes, taken]
    by_cases bit : w = blockWord 2 (b / 32)
    · simp [← bit, zero, uInt]
    · rw [Function.update_of_ne bit, zero]

/-- A store to a word that was 0. -/
theorem store_granted (h : Whole s) (low : 2 ≤ w % 1024) (zero : s.cell w = 0) (v : Nat) :
    Runs granting (store w v) s fun _ s' => s'.cell w = uInt v := by
  obtain ⟨s', stored, grows, cell⟩ := store_mapped (h.all (w / 1024)) v
  have blocks : s'.cell sNblocks = s.cell sNblocks := by
    have other : sNblocks ≠ w := by
      rintro rfl
      exact absurd low (by decide)
    rw [cell, Function.update_of_ne other]
  have boot : isFree s'.cell 0 = isFree s.cell 0 := by
    have other : blockWord 2 (0 / 32) ≠ w := by
      rintro rfl
      exact absurd low (by decide)
    rw [isFree, cell, Function.update_of_ne other, isFree]
  refine Runs.of_ok stored (fun _ => ⟨h.grows grows blocks, blocks, boot, fun x _ nonzero => ?_⟩) ?_
  · have other : x ≠ w := by
      rintro rfl
      exact nonzero zero
    rw [cell, Function.update_of_ne other]
  · rw [cell, Function.update_self]

theorem readBlock_granted (h : Whole s) (b : Nat) :
    Runs granting (readBlock b) s fun _ s' => s' = s := by
  unfold readBlock
  apply Runs.bind_ok (load_mapped h.super) (Granted.refl)
  by_cases above : s.cell sNblocks ≤ b
  · rw [if_pos above]
    exact Runs.of_error rfl fun _ => nofun
  · have small : page b = b := by
      have disk := h.nblocks
      exact Nat.mod_eq_of_lt (by omega)
    rw [if_neg above]
    apply Runs.bind_ok (blockIsFree_eq h.toInited (Nat.lt_of_not_le above)) Granted.refl
    cases isFree s.cell b with
    | true => exact Runs.of_error rfl fun _ => nofun
    | false =>
      have asks : blockIsMapped b s = .ok (true, s) := by
        unfold blockIsMapped
        rw [small, h.all]
      rw [if_neg Bool.false_ne_true]
      apply Runs.bind_ok asks Granted.refl
      exact Runs.pure rfl

theorem mapEntry_granted (h : Whole s) (low : 2 ≤ w % 1024) :
    Runs granting (mapEntry w) s fun _ _ => True := by
  unfold mapEntry
  apply Runs.bind_ok (load_mapped (h.all _)) Granted.refl
  by_cases zero : s.cell w = 0
  · rw [if_pos zero]
    apply Runs.bind (allocBlock_granted h)
    intro r s₁ granted zeros
    have h₁ := (granted h).toWhole
    cases r with
    | error r => exact Runs.pure trivial
    | ok b =>
      apply Runs.bind (store_granted h₁ low (zeros w zero) b)
      intro _ s₂ granted₂ _
      apply Runs.bind_ok (load_mapped ((granted₂ h₁).all _)) Granted.refl
      exact Runs.pure trivial
  · rw [if_neg zero]
    apply Runs.bind_ok (load_mapped (h.all _)) Granted.refl
    exact Runs.pure trivial

theorem indirectMap_granted (h : Whole s) (low : ndirect ≤ i) (below : i < nindirect) :
    Runs granting (indirectMap f i) s fun _ _ => True := by
  unfold indirectMap
  apply Runs.bind_ok (load_mapped (h.all _)) Granted.refl
  apply Runs.bind (readBlock_granted h _)
  rintro _ s₁ - rfl
  apply mapEntry_granted h
  have entry : blockWord (s₁.cell (fIndirect f)) i % 1024 = i := by
    rw [blockWord, Nat.mul_add_mod]
    exact Nat.mod_eq_of_lt below
  rw [entry]
  exact (by decide : 2 ≤ ndirect).trans low

theorem fileMapBlock_granted (h : Whole s) (place : f % 1024 ≤ 960) (i : Nat) :
    Runs granting (fileMapBlock f i true) s fun _ _ => True := by
  by_cases direct : i < ndirect
  · have low : 2 ≤ fDirect f i % 1024 := by
      unfold fDirect
      unfold ndirect at direct
      omega
    rw [fileMapBlock_direct direct]
    exact mapEntry_granted h low
  · have high : ndirect ≤ i := Nat.le_of_not_lt direct
    by_cases below : i < nindirect
    · rw [fileMapBlock_indirect direct below]
      apply Runs.bind_ok (load_mapped (h.all _)) Granted.refl
      by_cases zero : s.cell (fIndirect f) = 0
      · have low : 2 ≤ fIndirect f % 1024 := by
          unfold fIndirect
          omega
        rw [if_pos zero]
        apply Runs.bind (allocBlock_granted h)
        intro r s₁ granted zeros
        cases r with
        | error r => exact Runs.pure trivial
        | ok b =>
          have h₁ := (granted h).toWhole
          apply Runs.bind (store_granted h₁ low (zeros _ zero) b)
          intro _ s₂ granted₂ _
          exact indirectMap_granted (granted₂ h₁).toWhole high below
      · rw [if_neg zero]
        exact indirectMap_granted h high below
    · unfold fileMapBlock fileBlockWalk
      rw [if_neg direct, if_neg below]
      exact Runs.pure trivial

/-! ## What can be had -/

theorem allocBlock_least (h : Inited s) {s' : Fs} (out : allocBlock s = .ok (.ok b, s')) :
    ∀ x, 3 ≤ x → x < b → isFree s.cell x = false := by
  rcases allocBlock_cases h with full | ⟨y, t, fails, -⟩ |
    ⟨y, t, -, -, -, run, -, -, -, -, least, -⟩
  · rw [full.1] at out
    cases out
  · rw [fails] at out
    cases out
  · rw [run] at out
    cases out
    exact least

theorem allocBlock_whole (h : Whole s) (free : ∃ b, Takes s.cell b) :
    ∃ b s', allocBlock s = .ok (.ok b, s') := by
  rcases allocBlock_cases h.toInited with full | ⟨y, t, -, -, -, unmapped, -⟩ |
    ⟨y, t, -, -, -, run, -⟩
  · obtain ⟨b, low, valid, free⟩ := free
    rw [full.2 b low valid] at free
    cases free
  · rw [h.all y] at unmapped
    cases unmapped
  · exact ⟨y, t, run⟩

/-- The block that is taken is the first that is free, whatever is in the cache. -/
theorem allocBlock_same (h : Inited s) (whole : Whole t) (cell : t.cell = s.cell) {s' : Fs}
    (out : allocBlock s = .ok (.ok b, s')) : ∃ t', allocBlock t = .ok (.ok b, t') := by
  obtain ⟨low, valid, free, -⟩ := allocBlock_result h out
  obtain ⟨x, t', run⟩ := allocBlock_whole whole ⟨b, by rw [cell]; exact ⟨low, valid, free⟩⟩
  obtain ⟨low', valid', free', -⟩ := allocBlock_result whole.toInited run
  have least := allocBlock_least h out
  have least' := allocBlock_least whole.toInited run
  rw [cell] at free' least'
  have same : x = b := by
    apply Nat.le_antisymm
    · by_contra more
      rw [least' b low (Nat.lt_of_not_le more)] at free
      cases free
    · by_contra more
      rw [least x low' (Nat.lt_of_not_le more)] at free'
      cases free'
  exact ⟨t', same ▸ run⟩

theorem mapEntry_needs (h : Inited s) (cached : s.mapped (w / 1024) = true)
    (gets : Gets (mapEntry w) s) : s.cell w ≠ 0 ∨ ∃ b, Takes s.cell b := by
  by_cases zero : s.cell w = 0
  · obtain ⟨b, s', out, -⟩ := gets
    rw [mapEntry, bind_ok (load_mapped cached), if_pos zero] at out
    obtain ⟨r, s₁, run, out⟩ := StateT.bind_ok_iff.mp out
    cases r with
    | error r => cases out
    | ok x =>
      have got := allocBlock_result h run
      exact .inr ⟨x, got.1, got.2.1, got.2.2.1⟩
  · exact .inl zero

theorem mapEntry_whole (h : Whole s) (can : s.cell w ≠ 0 ∨ ∃ b, Takes s.cell b) :
    Gets (mapEntry w) s := by
  unfold Gets mapEntry
  rw [bind_ok (load_mapped (h.all _))]
  by_cases zero : s.cell w = 0
  · obtain ⟨b, s₁, run⟩ := allocBlock_whole h (can.resolve_left (not_not.mpr zero))
    obtain ⟨low, valid, -, grows, -⟩ := allocBlock_result h.toInited run
    obtain ⟨s₂, stored, grows₂, cell⟩ := store_mapped (grows.mapped _ (h.all (w / 1024))) b
    have small : uInt b = b := by
      have disk := h.nblocks
      exact Nat.mod_eq_of_lt (by omega)
    refine ⟨b, s₂, ?_, by omega⟩
    rw [if_pos zero, bind_ok run]
    simp only
    rw [bind_ok stored, bind_ok (load_mapped (grows₂.mapped _ (grows.mapped _ (h.all _)))), cell,
      Function.update_self, small]
    rfl
  · rw [if_neg zero, bind_ok (load_mapped (h.all _))]
    exact ⟨_, s, rfl, zero⟩

/-- What the new indirect block can hold, it can hold with all blocks in the cache. -/
theorem obtained_can (h : Slotted s f) (whole : Whole t) (cell : t.cell = s.cell)
    (bitmap : ¬ BitmapBlock s.cell (f / 1024)) (got : Takes s.cell b) (hi : i < nindirect)
    (can : Function.update (obtained s b) (fIndirect f) (uInt b) (blockWord b i) ≠ 0 ∨
      ∃ x, Takes (Function.update (obtained s b) (fIndirect f) (uInt b)) x) :
    Function.update (obtained t b) (fIndirect f) (uInt b) (blockWord b i) ≠ 0 ∨
      ∃ x, Takes (Function.update (obtained t b) (fIndirect f) (uInt b)) x := by
  have place : ¬ BitmapBlock s.cell (fIndirect f / 1024) := by
    rw [fIndirect_block h.place]
    exact bitmap
  have gets := obtained_assigns h.toInited got.1 got.2.1 got.2.2 place
  rw [← cell] at got place
  have gets' := obtained_assigns whole.toInited got.1 got.2.1 got.2.2 place
  have other : fIndirect f ≠ sNblocks := by
    have place := h.place
    unfold fIndirect sNblocks
    omega
  refine can.imp (fun nonzero => ?_) fun ⟨x, low, valid, free⟩ => ⟨x, low, ?_, ?_⟩
  · by_cases here : blockWord b i = fIndirect f
    · rwa [here, Function.update_self] at nonzero ⊢
    · rw [Function.update_of_ne here] at nonzero ⊢
      -- a page that is new holds zeros
      have cached : s.mapped b = true := by
        by_contra unmapped
        have entry : blockWord b i / 1024 = b := by
          have disk := whole.nblocks
          exact blockWord_block (by have := got.2.1; omega) hi
        rw [obtained, if_neg unmapped, cleared, if_pos entry] at nonzero
        exact nonzero rfl
      rw [obtained, if_pos cached] at nonzero
      rwa [obtained, if_pos (whole.all b), cell]
  · rw [gets.nblocks other] at valid
    rw [gets'.nblocks other, cell]
    exact valid
  · rw [gets.nblocks other] at valid
    have both := (gets.free x valid).mp free
    rw [← cell] at valid both
    exact (gets'.free x valid).mpr both

/-- A block that can be had in a state can be had with all blocks in the cache. -/
theorem fileMapBlock_whole (h : Slotted s f) (whole : Whole t) (cell : t.cell = s.cell)
    (bitmap : ¬ BitmapBlock s.cell (f / 1024)) (gets : Gets (fileMapBlock f i true) s) :
    Gets (fileMapBlock f i true) t := by
  have indirectMap_whole {t : Fs} (whole : Whole t)
      (used : t.cell (fIndirect f) < t.cell sNblocks ∧ isFree t.cell (t.cell (fIndirect f)) = false)
      (can : t.cell (blockWord (t.cell (fIndirect f)) i) ≠ 0 ∨ ∃ b, Takes t.cell b) :
      Gets (indirectMap f i) t := by
    obtain ⟨b, t', run, nonzero⟩ := mapEntry_whole whole can
    refine ⟨b, t', ?_, nonzero⟩
    rw [indirectMap, bind_ok (load_mapped (whole.all _)),
      bind_ok (readBlock_cached whole.toInited used.1 used.2 (whole.all _))]
    exact run
  by_cases direct : i < ndirect
  · rw [fileMapBlock_direct direct] at gets ⊢
    have can := mapEntry_needs h.toInited (h.direct direct) gets
    rw [← cell] at can
    exact mapEntry_whole whole can
  · obtain ⟨b, s', out, nonzero⟩ := gets
    by_cases below : i < nindirect
    · have cached : s.mapped (fIndirect f / 1024) = true := h.field (by decide)
      rw [fileMapBlock_indirect direct below, bind_ok (load_mapped cached)] at out
      unfold Gets
      rw [fileMapBlock_indirect direct below, bind_ok (load_mapped (whole.all _)), cell]
      by_cases none_ : s.cell (fIndirect f) = 0
      · rw [if_pos none_] at out ⊢
        obtain ⟨r, s₁, run, out⟩ := StateT.bind_ok_iff.mp out
        cases r with
        | error r => cases out
        | ok x =>
          obtain ⟨low, valid, free, grows₁, cell₁, there⟩ := allocBlock_result h.toInited run
          obtain ⟨s₂, stored, grows₂, gets₂, blocks, cell₂⟩ :=
            indirect_got h bitmap grows₁ low valid free cell₁
          simp only at out
          rw [bind_ok stored,
            indirect_read h (grows₁.trans grows₂) gets₂ blocks (grows₂.mapped x there)] at out
          have entry : blockWord x i / 1024 = x := by
            have disk := h.nblocks
            exact blockWord_block (by omega) below
          have can := mapEntry_needs (h.toInited.grows (grows₁.trans grows₂) blocks)
            (by rw [entry]; exact grows₂.mapped x there) ⟨b, s', out, nonzero⟩
          rw [cell₂] at can
          have can' := obtained_can h whole cell bitmap ⟨low, valid, free⟩ below can
          obtain ⟨t₁, run'⟩ := allocBlock_same h.toInited whole cell run
          have slotted : Slotted t f := ⟨whole.toInited, h.place, whole.all _⟩
          rw [← cell] at bitmap
          obtain ⟨-, valid', free', grows₁', cell₁', -⟩ := allocBlock_result whole.toInited run'
          obtain ⟨t₂, stored', grows₂', gets₂', blocks', cell₂'⟩ :=
            indirect_got slotted bitmap grows₁' low valid' free' cell₁'
          have whole₂ := whole.grows (grows₁'.trans grows₂') blocks'
          rw [bind_ok run']
          simp only
          rw [bind_ok stored']
          apply indirectMap_whole whole₂
          · rw [gets₂'.here, blocks']
            refine ⟨valid', eq_false_of_ne_true fun still => ?_⟩
            exact ((gets₂'.free x valid').mp still).2 rfl
          · rw [gets₂'.here, cell₂']
            exact can'
      · rw [if_neg none_, indirectMap, bind_ok (load_mapped cached)] at out
        obtain ⟨_, s₁, read, out⟩ := StateT.bind_ok_iff.mp out
        have used := readBlock_used h.toInited read
        obtain ⟨-, keeps, mapped⟩ :=
          (readBlock_ends h.toInited used.1 used.2 (Has.any s _)).result read
        have can := mapEntry_needs (h.toInited.grows keeps.toGrows (by rw [keeps.cell]))
          (by rw [entry_block h.toInited used.1 below]; exact mapped) ⟨b, s', out, nonzero⟩
        rw [keeps.cell, ← cell] at can
        rw [← cell] at used none_
        rw [← cell, if_neg none_]
        exact indirectMap_whole whole used can
    · unfold fileMapBlock fileBlockWalk at out
      rw [if_neg direct, if_neg below] at out
      cases out

end

end FsM

end RiscvMos
