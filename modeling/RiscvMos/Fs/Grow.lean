import RiscvMos.Fs.Create
import RiscvMos.Fs.Blocks

/-!
`dir_alloc_file` on a directory whose blocks are in the cache, as they are behind the
look-up that did not find the name: the slot that it finds, or the block that it adds.
-/

namespace RiscvMos

namespace Fs

/-- The blocks of the directory are in the cache. -/
def Loaded (s : Fs) (d : Nat) : Prop :=
  ∀ i < nblock s.cell d, s.mapped (pointer s.cell d i) = true ∧
    (ndirect ≤ i → s.mapped (s.cell (fIndirect d)) = true)

/-- The first slot of a directory that is not in use. -/
def vacant (c : Nat → Nat) (d : Nat) : Option Nat :=
  (files c d).find? fun f => cellByte c (4 * f) == 0

/-- `dir->f_size += BY2BLK`. -/
def grown (c : Nat → Nat) (d : Nat) : Nat → Nat :=
  Function.update c (fSize d) (uInt (c (fSize d) + by2blk))

/-- Block `i` is behind the indirect block, and `read_block` panics on that. -/
def BadIndirect (c : Nat → Nat) (f i : Nat) : Prop :=
  ndirect ≤ i ∧ i < nindirect ∧ c (fIndirect f) ≠ 0 ∧
    ¬ (c (fIndirect f) < c sNblocks ∧ isFree c (c (fIndirect f)) = false)

/-- The directory takes a file without a new block: a slot is not in use, or there is a pointer
behind its last block; or the server stops. -/
def Roomy (c : Nat → Nat) (d : Nat) : Prop :=
  HasFree c d ∨ pointer (grown c d) d (nblock c d) ≠ 0 ∨ BadIndirect (grown c d) d (nblock c d)

/-- A block that `alloc_block` can take. -/
def Takes (c : Nat → Nat) (b : Nat) : Prop := 3 ≤ b ∧ b < c sNblocks ∧ isFree c b = true

/-- There are as many free blocks as block `i` of the file needs. -/
def Enough (c : Nat → Nat) (f i : Nat) : Prop :=
  i < nindirect ∧
    ∃ a, Takes c a ∧ (ndirect ≤ i → c (fIndirect f) = 0 → ∃ b, b ≠ a ∧ Takes c b)

section
variable {B : Nat → Prop} {c : Nat → Nat} {d f i : Nat} {name : List Nat}

theorem vacant_none : vacant c d = none ↔ ¬ HasFree c d := by
  unfold vacant HasFree
  rw [List.find?_eq_none]
  constructor
  · rintro used ⟨f, hf, free⟩
    exact used f hf (beq_iff_eq.mpr free)
  · intro none_ f hf free
    exact none_ ⟨f, hf, beq_iff_eq.mp free⟩

theorem missing_block (missing : childOf c d name = none) (hi : i < nblock c d) :
    ((filesIn (pointer c d i)).find? fun f => hasName c f name) = none := by
  unfold childOf at missing
  rw [List.find?_eq_none] at missing ⊢
  exact fun f hf => missing f (mem_files.mpr ⟨i, hi, hf⟩)

variable (tree : TreeIn B c) (disk : c sNblocks ≤ 2 ^ 18)

include tree disk in
/-- A directory is in the block of the super block or in a block of files. -/
theorem TreeIn.dir_block (hd : DirIn B c d) : d / 1024 = 1 ∨ DirBlockIn B c (d / 1024) := by
  cases hd.1 with
  | root => exact .inl rfl
  | file dir type listed used => exact .inr (tree.file_place disk ⟨dir, type⟩ listed).1

include tree disk in
theorem TreeIn.dir_bitmap (hd : DirIn B c d) : ¬ BitmapBlock c (d / 1024) := by
  cases tree.dir_block disk hd with
  | inl super =>
    rw [super]
    exact fun bitmap => absurd bitmap.1 (by decide)
  | inr block => exact (tree.apart _ block).2.1

include tree disk in
/-- Of the words of the super block and the bitmap none is changed. -/
theorem grown_nblocks (hd : DirIn B c d) : grown c d sNblocks = c sNblocks := by
  have place := (tree.field_fixed disk hd.1 (k := 0) (by decide)).2
  apply Function.update_of_ne
  cases tree.dir_block disk hd with
  | inl super =>
    unfold sNblocks fSize
    omega
  | inr block =>
    intro same
    have super : d / 1024 = 1 := by
      unfold sNblocks fSize at same
      omega
    rw [super] at block
    exact (tree.apart 1 block).1 rfl

include tree disk in
theorem grown_free (hd : DirIn B c d) {b : Nat} (hb : b < c sNblocks) :
    isFree (grown c d) b = isFree c b := by
  have place := (tree.field_fixed disk hd.1 (k := 0) (by decide)).2
  have other : blockWord 2 (b / 32) ≠ fSize d := by
    intro same
    have bitmap := bitmapBlock_word hb
    have block : fSize d / 1024 = d / 1024 := fSize_block place
    rw [same, block] at bitmap
    exact tree.dir_bitmap disk hd bitmap
  unfold isFree grown
  rw [Function.update_of_ne other]

end

end Fs

namespace FsM

open Fs

section
variable {B X : Nat → Prop} {P : Nat → Nat → Prop} {c : Nat → Nat} {d f g i n : Nat}
    {name : List Nat} {names : List (List Nat)}

/-- A look-up that finds nothing reads all blocks. -/
theorem Scans.all (h : Scans X c d name n i)
    (none_ : ∀ j, i ≤ j → j < i + n →
      ((filesIn (pointer c d j)).find? fun f => hasName c f name) = none) :
    ∀ j, i ≤ j → j < i + n → X (pointer c d j) ∧ (ndirect ≤ j → X (c (fIndirect d))) := by
  induction n generalizing i with
  | zero =>
    intro j low high
    omega
  | succ n ih =>
    intro j low high
    by_cases here : j = i
    · rw [here]
      exact ⟨h.2.1, h.1⟩
    · have rest := h.2.2 (none_ i (Nat.le_refl i) (by omega))
      exact ih rest (fun k low high => none_ k (by omega) (by omega)) j (by omega) (by omega)

/-- A walk that lacks the last name has met its directory, and looked at the blocks of it. -/
theorem Visits.last (h : Visits X P c names f) (short : Short names)
    (last : names.getLast? = some name)
    (dir : resolve c names.dropLast f = some d) (isDir : IsDir c d) :
    (d = f ∨ ∃ d', P d' d) ∧ Scans X c d name (nblock c d) 0 := by
  induction names generalizing f with
  | nil => cases last
  | cons first names ih =>
    have fits := short first List.mem_cons_self
    cases names with
    | nil =>
      have same : first = name := Option.some.inj last
      have here : f = d := Option.some.inj dir
      rw [here, same] at h
      rw [same] at fits
      exact ⟨.inl here.symm, (h fits isDir).1⟩
    | cons second names =>
      rw [List.dropLast_cons_cons, resolve] at dir
      by_cases fileDir : IsDir c f
      · rw [if_pos fileDir] at dir
        obtain ⟨g, found, rest⟩ := Option.bind_eq_some_iff.mp dir
        obtain ⟨met, next⟩ := (h fits fileDir).2 g found
        obtain ⟨place, scans⟩ :=
          ih next (fun n hn => short n (List.mem_cons_of_mem first hn)) last rest
        refine ⟨.inr ?_, scans⟩
        cases place with
        | inl here =>
          rw [here]
          exact ⟨f, met⟩
        | inr met => exact met
      · rw [if_neg fileDir] at dir
        cases dir

theorem Visits.dropLast (h : Visits X P c names f) : Visits X P c names.dropLast f := by
  induction names generalizing f with
  | nil => trivial
  | cons first names ih =>
    cases names with
    | nil => trivial
    | cons second names =>
      intro fits isDir
      refine ⟨(h fits isDir).1, fun g found => ?_⟩
      have next := (h fits isDir).2 g found
      exact ⟨next.1, ih next.2⟩

/-- Where names lead through blocks of `B` is a file of the tree. -/
theorem resolve_node (proper : ∀ n ∈ names, Proper n) (short : Short names)
    (there : Needs B c names f) (hf : NodeIn B c f) (h : resolve c names f = some g) :
    NodeIn B c g := by
  induction names generalizing f with
  | nil =>
    rw [← Option.some.inj h]
    exact hf
  | cons first names ih =>
    unfold resolve at h
    by_cases isDir : IsDir c f
    · rw [if_pos isDir] at h
      obtain ⟨g', found, rest⟩ := Option.bind_eq_some_iff.mp h
      have here := there (short first List.mem_cons_self) isDir
      exact ih (fun n hn => proper n (List.mem_cons_of_mem first hn))
        (fun n hn => short n (List.mem_cons_of_mem first hn)) (here.2 g' found).2
        (childOf_nodeIn ⟨hf, isDir⟩ (here.1.child found) (proper first List.mem_cons_self) found)
        rest
    · rw [if_neg isDir] at h
      cases h

/-- What holds of all blocks with files and of the indirect blocks holds of those that a
walk reads. -/
theorem Needs.of_tree
    (blocks : ∀ b, DirBlockIn B c b → X b)
    (indirect : ∀ d i, DirIn B c d → i < nblock c d → ndirect ≤ i → B (pointer c d i) →
      X (c (fIndirect d)))
    (proper : ∀ n ∈ names, Proper n) (there : Needs B c names f) (hf : NodeIn B c f) :
    Needs X c names f := by
  have scans (d : Nat) (hd : DirIn B c d) (name : List Nat) (n i : Nat) (hn : i + n = nblock c d)
      (reads : Scans B c d name n i) : Scans X c d name n i := by
    induction n generalizing i with
    | zero => trivial
    | succ n ih =>
      have hi : i < nblock c d := by omega
      refine ⟨fun high => indirect d i hd hi high reads.2.1, ?_,
        fun none_ => ih (i + 1) (by omega) (reads.2.2 none_)⟩
      exact blocks _ ⟨d, i, hd, hi, rfl, reads.2.1⟩
  induction names generalizing f with
  | nil => trivial
  | cons name names ih =>
    intro fits isDir
    have here := there fits isDir
    refine ⟨scans f ⟨hf, isDir⟩ name _ 0 (Nat.zero_add _) here.1, fun g found => ⟨trivial, ?_⟩⟩
    exact ih (fun n hn => proper n (List.mem_cons_of_mem name hn)) (here.2 g found).2
      (childOf_nodeIn ⟨hf, isDir⟩ (here.1.child found) (proper name List.mem_cons_self) found)

end

end FsM

namespace Fs

section
variable {B : Nat → Prop} {c : Nat → Nat} {d i : Nat} {name : List Nat} {names : List (List Nat)}
    (h : LastMissing c names d name) (proper : ∀ n ∈ names, Proper n)
    (there : FsM.Needs B c names sRoot)

include h proper there in
theorem LastMissing.node : DirIn B c d := by
  refine ⟨FsM.resolve_node ?_ ?_ there.dropLast .root h.dir, h.isDir⟩
  · exact fun n hn => proper n (List.dropLast_subset names hn)
  · exact fun n hn => h.short n (List.dropLast_subset names hn)

include h there in
/-- The look-up that does not find the name reads all blocks of the directory. -/
theorem LastMissing.reads (hi : i < nblock c d) :
    B (pointer c d i) ∧ (ndirect ≤ i → B (c (fIndirect d))) := by
  obtain ⟨-, scans⟩ := there.last h.short h.last h.dir h.isDir
  apply scans.all (fun j _ high => missing_block h.missing (by omega)) i (Nat.zero_le i)
  omega

end

end Fs

namespace FsM

open Fs

section
variable {B : Nat → Prop} {s s' : Fs} {d f i : Nat}

/-- A directory of the tree in the cache with its blocks, which are all of `B`. -/
structure Ready (B : Nat → Prop) (s : Fs) (d : Nat) : Prop extends SearchableIn B s d where
  counts : ∀ i < nblock s.cell d, B (pointer s.cell d i)
  loaded : Loaded s d

theorem readBlock_cached (h : Inited s) {b : Nat} (hb : b < s.cell sNblocks)
    (used : isFree s.cell b = false)
    (cached : s.mapped b = true) : readBlock b s = .ok ((), s) := by
  have small : page b = b := by
    have disk := h.nblocks
    exact Nat.mod_eq_of_lt (by omega)
  have asks : blockIsMapped b s = .ok (true, s) := by
    unfold blockIsMapped
    rw [small, cached]
  unfold readBlock
  rw [bind_ok (load_mapped h.super), if_neg (by omega), bind_ok (blockIsFree_eq h hb), used,
    if_neg Bool.false_ne_true, bind_ok asks]
  rfl

/-- The entry of an indirect block that is in the cache. -/
theorem indirectEntry_cached (h : Inited s) (place : s.mapped (fIndirect d / 1024) = true)
    (hb : s.cell (fIndirect d) < s.cell sNblocks)
    (used : isFree s.cell (s.cell (fIndirect d)) = false)
    (cached : s.mapped (s.cell (fIndirect d)) = true) :
    indirectEntry d i s = .ok (.ok (blockWord (s.cell (fIndirect d)) i), s) := by
  unfold indirectEntry
  rw [bind_ok (load_mapped place), bind_ok (readBlock_cached h hb used cached)]
  rfl

theorem fileMapBlock_cached (alloc : Bool) (h : Ready B s d) (hi : i < nblock s.cell d) :
    fileMapBlock d i alloc s = .ok (.ok (pointer s.cell d i), s) := by
  obtain ⟨value, nonzero, indirect⟩ := h.slot hi (h.counts i hi)
  have below := pointer_below (value ▸ nonzero)
  rw [value]
  unfold fileMapBlock fileBlockWalk
  by_cases direct : i < ndirect
  · have load_ := load_mapped (h.direct direct)
    rw [slot, if_pos direct] at nonzero ⊢
    rw [if_pos direct, pure_bind]
    simp only
    rw [bind_ok load_, if_neg nonzero, bind_ok load_]
    rfl
  · have high : ndirect ≤ i := Nat.le_of_not_lt direct
    have cached : s.mapped (fIndirect d / 1024) = true := h.field (by decide)
    have used := h.tree.indirect d h.dir (by omega) (indirect high)
    have mapped := (h.loaded i hi).2 high
    have entry := indirectEntry_cached (i := i) h.toInited cached used.1 used.2 mapped
    have block : blockWord (s.cell (fIndirect d)) i / 1024 = s.cell (fIndirect d) := by
      have disk := h.nblocks
      exact blockWord_block (by omega) below
    have load_ :=
      load_mapped (s := s) (w := blockWord (s.cell (fIndirect d)) i) (by rw [block]; exact mapped)
    rw [slot, if_neg direct] at nonzero ⊢
    rw [if_neg direct, if_pos below, bind_assoc, bind_ok (load_mapped cached),
      if_neg (indirect high), bind_ok entry]
    simp only
    rw [bind_ok load_, if_neg nonzero, bind_ok load_]
    rfl

theorem fileGetBlock_cached (h : Ready B s d) (hi : i < nblock s.cell d) :
    fileGetBlock d i s = .ok (.ok (pointer s.cell d i), s) := by
  have whole := h.tree.whole d h.dir i hi (h.counts i hi)
  unfold fileGetBlock
  rw [bind_ok (fileMapBlock_cached true h hi)]
  simp only
  rw [bind_ok (readBlock_cached h.toInited whole.2.1 whole.2.2 (h.loaded i hi).1)]
  rfl

theorem allocFileFrom_cached (h : Ready B s d) (n i : Nat) (hn : i + n = nblock s.cell d) :
    allocFileFrom d n i s =
      match ((List.range' i n).flatMap fun i => filesIn (pointer s.cell d i)).find? fun f =>
      cellByte s.cell (4 * f) == 0 with
      | some f => .ok (.ok f, s)
      | none => allocFileFrom d 0 (nblock s.cell d) s := by
  induction n generalizing i with
  | zero =>
    rw [← hn]
    rfl
  | succ n ih =>
    have hi : i < nblock s.cell d := by omega
    have here : (get : FsM Fs) s = .ok (s, s) := rfl
    have small := h.tree.pointer_small h.nblocks h.dir hi (h.counts i hi)
    show (fileGetBlock d i >>= _) s = _
    rw [find_files, bind_ok (fileGetBlock_cached h hi)]
    simp only
    rw [bind_ok here, findFree_eq rfl (h.loaded i hi).1 small]
    cases (filesIn (pointer s.cell d i)).find? fun f => cellByte s.cell (4 * f) == 0 with
    | some f => rfl
    | none =>
      rw [Option.none_or]
      exact ih (i + 1) (by omega)

/-- The slot that is found, or the step that adds a block. -/
theorem dirAllocFile_cached (h : Ready B s d) :
    dirAllocFile d s =
      match vacant s.cell d with
      | some f => .ok (.ok f, s)
      | none => allocFileFrom d 0 (nblock s.cell d) s := by
  have cached : s.mapped (fSize d / 1024) = true := h.field (by decide)
  unfold dirAllocFile vacant files
  rw [bind_ok (load_mapped cached), List.range_eq_range']
  exact allocFileFrom_cached h _ 0 (Nat.zero_add _)

/-! ## The block that is added -/

/-- The step behind the last block: `f_size` first, and then the rest. -/
theorem SearchableIn.grows (h : SearchableIn B s d) :
    ∃ t, Inited t ∧ Grows s t ∧ t.mapped = s.mapped ∧ t.cell = grown s.cell d ∧
      ∀ rest : FsM (Except Int Nat), (do
        store (fSize d) ((← load (fSize d)) + by2blk)
        rest) s = rest t := by
  have cached : s.mapped (fSize d / 1024) = true := h.field (by decide)
  have mapped : (s.store (fSize d) (s.cell (fSize d) + by2blk)).mapped = s.mapped := by
    unfold Fs.store
    rw [touch_mapped cached]
  have cell := store_cell cached (s.cell (fSize d) + by2blk)
  refine ⟨s.store (fSize d) (s.cell (fSize d) + by2blk), ?_, store_grows cached _, mapped, cell,
    fun rest => ?_⟩
  · apply h.toInited.grows (store_grows cached _)
    rw [cell]
    exact grown_nblocks h.tree h.nblocks h.dir
  · rw [bind_ok (load_mapped cached)]
    rfl

/-- The file's block is in the cache. -/
structure Slotted (s : Fs) (f : Nat) : Prop extends Inited s where
  place : f % 1024 ≤ 960
  cached : s.mapped (f / 1024) = true

theorem Slotted.field (h : Slotted s f) {k : Nat} (hk : k < 47) :
    s.mapped ((f + k) / 1024) = true := by
  have place := h.place
  have block : (f + k) / 1024 = f / 1024 := by omega
  rw [block]
  exact h.cached

theorem Slotted.direct (h : Slotted s f) (direct : i < ndirect) :
    s.mapped (fDirect f i / 1024) = true := by
  have below : i < 10 := direct
  rw [fDirect, Nat.add_assoc]
  exact h.field (by omega)

/-- A block that `read_block` goes on with is one of the disk in use. -/
theorem readBlock_used {b : Nat} (h : Inited s) (out : readBlock b s = .ok ((), s')) :
    b < s.cell sNblocks ∧ isFree s.cell b = false := by
  unfold readBlock at out
  rw [bind_ok (load_mapped h.super)] at out
  by_cases above : s.cell sNblocks ≤ b
  · rw [if_pos above] at out
    cases out
  · rw [if_neg above, bind_ok (blockIsFree_eq h (Nat.lt_of_not_le above))] at out
    refine ⟨Nat.lt_of_not_le above, eq_false_of_ne_true fun free => ?_⟩
    rw [free, if_pos rfl] at out
    cases out

/-- The word with the pointer to a block behind the indirect block. -/
theorem entry_block (h : Inited s) (valid : s.cell (fIndirect f) < s.cell sNblocks)
    (hi : i < nindirect) :
    blockWord (s.cell (fIndirect f)) i / 1024 = s.cell (fIndirect f) := by
  have disk := h.nblocks
  exact blockWord_block (by omega) hi

/-- A directory with a larger `f_size`. -/
theorem SearchableIn.slotted {t : Fs} (h : SearchableIn B s d) (inited : Inited t)
    (mapped : t.mapped = s.mapped) : Slotted t d :=
  ⟨inited, (h.tree.field_fixed h.nblocks h.dir.1 (k := 0) (by decide)).2, by
    rw [mapped]
    exact h.cached⟩

/-- A pointer that is not 0 is found. -/
theorem fileMapBlock_there (h : Slotted s f) (nonzero : pointer s.cell f i ≠ 0)
    (good : ¬ BadIndirect s.cell f i) :
    Ends True (fileMapBlock f i true) s fun r s' => r = .ok (pointer s.cell f i) ∧ Keeps s s' := by
  have has : HasSlot s.cell f i := by
    by_contra none_
    exact nonzero (if_neg none_)
  rw [pointer, if_pos has] at nonzero ⊢
  by_cases direct : i < ndirect
  · have cached := h.direct direct
    rw [slot, if_pos direct] at nonzero ⊢
    rw [fileMapBlock_direct direct, mapEntry]
    apply Ends.load cached
    rw [if_neg nonzero]
    apply Ends.load cached
    exact Runs.pure ⟨rfl, Keeps.refl s⟩
  · obtain ⟨below, indirect⟩ := has.resolve_left direct
    have used : s.cell (fIndirect f) < s.cell sNblocks ∧
        isFree s.cell (s.cell (fIndirect f)) = false := by
      by_contra bad
      exact good ⟨Nat.le_of_not_lt direct, below, indirect, bad⟩
    have cached : s.mapped (fIndirect f / 1024) = true := h.field (by decide)
    rw [slot, if_neg direct] at nonzero ⊢
    rw [fileMapBlock_indirect direct below]
    apply Ends.load cached
    rw [if_neg indirect]
    apply Ends.load cached
    apply Runs.bind (readBlock_ends h.toInited used.1 used.2 (Has.any s _))
    intro _ s₁ _ read
    have mapped : s₁.mapped (blockWord (s.cell (fIndirect f)) i / 1024) = true := by
      rw [entry_block h.toInited used.1 below]
      exact read.2
    apply Ends.load mapped
    rw [read.1.cell, if_neg nonzero]
    apply Ends.load mapped
    rw [read.1.cell]
    exact Runs.pure ⟨rfl, read.1⟩

/-- `read_block` panics on the indirect block. -/
theorem fileMapBlock_bad (h : Slotted s f) (bad : BadIndirect s.cell f i) (r : Except Int Nat)
    (s' : Fs) : fileMapBlock f i true s ≠ .ok (r, s') := by
  intro out
  obtain ⟨low, below, indirect, unused⟩ := bad
  have cached : s.mapped (fIndirect f / 1024) = true := h.field (by decide)
  rw [fileMapBlock_indirect (Nat.not_lt_of_le low) below, bind_ok (load_mapped cached),
    if_neg indirect, indirectMap, bind_ok (load_mapped cached)] at out
  obtain ⟨_, s₁, read, -⟩ := StateT.bind_ok_iff.mp out
  exact unused (readBlock_used h.toInited read)

/-- The pointer is there, or the server stops. -/
theorem fileMapBlock_room (h : Slotted s f)
    (room : pointer s.cell f i ≠ 0 ∨ BadIndirect s.cell f i) (r : Int) (s' : Fs) :
    fileMapBlock f i true s ≠ .ok (.error r, s') := by
  intro out
  by_cases bad : BadIndirect s.cell f i
  · exact fileMapBlock_bad h bad _ s' out
  · have found := ((fileMapBlock_there h (room.resolve_right bad) bad).result out).2.1
    cases found

/-- Where the pointer is 0 and there is no block to be had, none is. -/
theorem fileMapBlock_fails (h : Slotted s f) (zero : pointer s.cell f i = 0)
    (good : ¬ BadIndirect s.cell f i)
    (mapped : ∀ b < s.cell sNblocks, isFree s.cell b = false → s.mapped b = true)
    (none_ : ∃ r s', allocBlock s = .ok (.error r, s')) :
    ∃ r s', fileMapBlock f i true s = .ok (.error r, s') := by
  obtain ⟨r, s', fails⟩ := none_
  by_cases direct : i < ndirect
  · have empty : s.cell (fDirect f i) = 0 := by
      rwa [pointer, if_pos (.inl direct), slot, if_pos direct] at zero
    refine ⟨r, s', ?_⟩
    rw [fileMapBlock_direct direct, mapEntry, bind_ok (load_mapped (h.direct direct)),
      if_pos empty, bind_ok fails]
    rfl
  · by_cases below : i < nindirect
    · have cached : s.mapped (fIndirect f / 1024) = true := h.field (by decide)
      refine ⟨r, s', ?_⟩
      rw [fileMapBlock_indirect direct below, bind_ok (load_mapped cached)]
      by_cases none_ : s.cell (fIndirect f) = 0
      · rw [if_pos none_, bind_ok fails]
        rfl
      · have used : s.cell (fIndirect f) < s.cell sNblocks ∧
            isFree s.cell (s.cell (fIndirect f)) = false := by
          by_contra bad
          exact good ⟨Nat.le_of_not_lt direct, below, none_, bad⟩
        have there := mapped _ used.1 used.2
        have entry : s.mapped (blockWord (s.cell (fIndirect f)) i / 1024) = true := by
          rwa [entry_block h.toInited used.1 below]
        have empty : s.cell (blockWord (s.cell (fIndirect f)) i) = 0 := by
          rwa [pointer, if_pos (.inr ⟨below, none_⟩), slot, if_neg direct] at zero
        rw [if_neg none_, indirectMap, bind_ok (load_mapped cached),
          bind_ok (readBlock_cached h.toInited used.1 used.2 there), mapEntry,
          bind_ok (load_mapped entry), if_pos empty, bind_ok fails]
        rfl
    · unfold fileMapBlock fileBlockWalk
      rw [if_neg direct, if_neg below]
      exact ⟨_, s, rfl⟩

/-- On a disk without blocks nothing is allocated. -/
theorem fileMapBlock_blank (h : Slotted s f) (blank : s.cell sNblocks = 0) {b : Nat}
    (out : fileMapBlock f i true s = .ok (.ok b, s')) : Keeps s s' := by
  have good : ¬ BadIndirect s.cell f i := fun bad => fileMapBlock_bad h bad _ s' out
  by_cases zero : pointer s.cell f i = 0
  · obtain ⟨r, t, run⟩ := allocBlock_total h.toInited
    cases r with
    | error r =>
      have used (b : Nat) (hb : b < s.cell sNblocks) : isFree s.cell b = false →
          s.mapped b = true := by
        rw [blank] at hb
        exact absurd hb (Nat.not_lt_zero b)
      obtain ⟨r', t', fails⟩ := fileMapBlock_fails h zero good used ⟨r, t, run⟩
      rw [out] at fails
      cases fails
    | ok x =>
      have valid := (allocBlock_result h.toInited run).2.1
      rw [blank] at valid
      exact absurd valid (Nat.not_lt_zero x)
  · exact ((fileMapBlock_there h zero good).result out).2.2

/-- No free block is in the cache, and there is no page for one. -/
theorem allocBlock_starved (h : Inited s)
    (free : ∀ b < s.cell sNblocks, isFree s.cell b = true → s.mapped b = false)
    (memory : ∀ n, s.memory n = false) : ∃ r s', allocBlock s = .ok (.error r, s') := by
  cases allocBlock_cases h with
  | inl full => exact ⟨_, s, full.1⟩
  | inr rest =>
    cases rest with
    | inl none_ =>
      obtain ⟨b, s', fails, -⟩ := none_
      exact ⟨_, s', fails⟩
    | inr got =>
      obtain ⟨b, s', -, valid, isFree_, -, -, room, -⟩ := got
      cases room with
      | inl cached =>
        rw [free b valid isFree_] at cached
        cases cached
      | inr page =>
        rw [memory] at page
        cases page

/-- A pointer that is 0 gets a block where there is one and a page for it. -/
theorem mapEntry_ample {w : Nat} (h : Inited s) (cached : s.mapped (w / 1024) = true)
    (memory : ∀ n, s.memory n = true) (free : ∃ b, Takes s.cell b) (r : Int) (s' : Fs) :
    mapEntry w s ≠ .ok (.error r, s') := by
  unfold mapEntry
  intro out
  rw [bind_ok (load_mapped cached)] at out
  by_cases zero : s.cell w = 0
  · obtain ⟨b, s₁, run, -⟩ := allocBlock_got h memory free
    rw [if_pos zero, bind_ok run] at out
    obtain ⟨_, s₂, -, out⟩ := StateT.bind_ok_iff.mp out
    obtain ⟨_, s₃, -, out⟩ := StateT.bind_ok_iff.mp out
    cases out
  · rw [if_neg zero] at out
    obtain ⟨_, s₁, -, out⟩ := StateT.bind_ok_iff.mp out
    cases out

/-- The state behind `store` of a block that `alloc_block` got for the indirect block. -/
theorem indirect_got (h : Slotted s f) (bitmap : ¬ BitmapBlock s.cell (f / 1024)) {b : Nat}
    {s₁ : Fs} (grows : Grows s s₁) (low : 3 ≤ b) (valid : b < s.cell sNblocks)
    (free : isFree s.cell b = true) (cell : s₁.cell = obtained s b) :
    ∃ s₂, store (fIndirect f) b s₁ = .ok ((), s₂) ∧ Grows s₁ s₂ ∧
      Assigns s.cell s₂.cell (fIndirect f) b ∧ s₂.cell sNblocks = s.cell sNblocks ∧
      s₂.cell = Function.update (obtained s b) (fIndirect f) (uInt b) := by
  have cached : s.mapped (fIndirect f / 1024) = true := h.field (by decide)
  obtain ⟨s₂, stored, grows₂, cell₂⟩ := store_mapped (grows.mapped _ cached) b
  rw [cell] at cell₂
  have gets : Assigns s.cell s₂.cell (fIndirect f) b := by
    rw [cell₂]
    apply obtained_assigns h.toInited low valid free
    rw [fIndirect_block h.place]
    exact bitmap
  have other : fIndirect f ≠ sNblocks := by
    have place := h.place
    unfold fIndirect sNblocks
    omega
  exact ⟨s₂, stored, grows₂, gets, gets.nblocks other, cell₂⟩

/-- The new indirect block is read, and its entries are in the cache. -/
theorem indirect_read (h : Slotted s f) {s₂ : Fs} {b : Nat} (grows : Grows s s₂)
    (gets : Assigns s.cell s₂.cell (fIndirect f) b)
    (nblocks : s₂.cell sNblocks = s.cell sNblocks) (mapped : s₂.mapped b = true) (i : Nat) :
    indirectMap f i s₂ = mapEntry (blockWord b i) s₂ := by
  have used : isFree s₂.cell b = false := by
    apply eq_false_of_ne_true
    rw [gets.free b gets.valid]
    exact fun both => both.2 rfl
  have cached : s₂.mapped (fIndirect f / 1024) = true := grows.mapped _ (h.field (by decide))
  unfold indirectMap
  rw [bind_ok (load_mapped cached), gets.here, bind_ok (readBlock_cached
    (h.toInited.grows grows nblocks) (by rw [nblocks]; exact gets.valid) used mapped)]

theorem fileMapBlock_ample (h : Slotted s f) (bitmap : ¬ BitmapBlock s.cell (f / 1024))
    (memory : ∀ n, s.memory n = true) (enough : Enough s.cell f i)
    (r : Int) (s' : Fs) : fileMapBlock f i true s ≠ .ok (.error r, s') := by
  obtain ⟨hi, a, first, second⟩ := enough
  intro out
  by_cases direct : i < ndirect
  · rw [fileMapBlock_direct direct] at out
    exact mapEntry_ample h.toInited (h.direct direct) memory ⟨a, first⟩ r s' out
  · have cached : s.mapped (fIndirect f / 1024) = true := h.field (by decide)
    rw [fileMapBlock_indirect direct hi, bind_ok (load_mapped cached)] at out
    by_cases none_ : s.cell (fIndirect f) = 0
    · -- the indirect block takes one of the two free blocks
      obtain ⟨b, s₁, run, grows₁, low, valid, free, cell₁, mapped⟩ :=
        allocBlock_got h.toInited memory ⟨a, first⟩
      obtain ⟨s₂, stored, grows₂, gets, nblocks, -⟩ :=
        indirect_got h bitmap grows₁ low valid free cell₁
      have grows := grows₁.trans grows₂
      have there := grows₂.mapped b mapped
      have entry : blockWord b i / 1024 = b := by
        have disk := h.nblocks
        exact blockWord_block (by omega) hi
      rw [if_pos none_, bind_ok run] at out
      simp only at out
      rw [bind_ok stored, indirect_read h grows gets nblocks there] at out
      refine mapEntry_ample (h.toInited.grows grows nblocks) (by rw [entry]; exact there) ?_ ?_
        r s' out
      · intro n
        rw [grows.memory]
        exact memory n
      · obtain ⟨x, apart, other⟩ := second (Nat.le_of_not_lt direct) none_
        have left : ∃ x, x ≠ b ∧ Takes s.cell x := by
          by_cases same : a = b
          · exact ⟨x, fun taken => apart (taken.trans same.symm), other⟩
          · exact ⟨a, same, first⟩
        obtain ⟨x, apart, low', valid', free'⟩ := left
        refine ⟨x, low', ?_, (gets.free x valid').mpr ⟨free', apart⟩⟩
        rw [nblocks]
        exact valid'
    · rw [if_neg none_, indirectMap, bind_ok (load_mapped cached)] at out
      obtain ⟨_, s₁, read, out⟩ := StateT.bind_ok_iff.mp out
      have used := readBlock_used h.toInited read
      obtain ⟨-, keeps, mapped⟩ :=
        (readBlock_ends h.toInited used.1 used.2 (Has.any s _)).result read
      refine mapEntry_ample (h.toInited.grows keeps.toGrows (by rw [keeps.cell])) ?_ ?_ ?_ r s' out
      · rw [entry_block h.toInited used.1 hi]
        exact mapped
      · intro n
        rw [keeps.memory]
        exact memory n
      · rw [keeps.cell]
        exact ⟨a, first⟩

/-- The blocks in use are in the cache, and no others. -/
def Bare (s : Fs) : Prop := ∀ b < s.cell sNblocks, s.mapped b = !isFree s.cell b

theorem Bare.mapped (h : Bare s) {b : Nat} (hb : b < s.cell sNblocks) :
    s.mapped b = true ↔ isFree s.cell b = false := by
  rw [h b hb, Bool.not_eq_true']

/-- The only free block goes to the indirect block, and there is none for the entry. -/
theorem fileMapBlock_second (h : Slotted s f) (bitmap : ¬ BitmapBlock s.cell (f / 1024))
    (bare : Bare s) (low : ndirect ≤ i) (hi : i < nindirect) (none_ : s.cell (fIndirect f) = 0)
    {b : Nat} {s₁ : Fs} (run : allocBlock s = .ok (.ok b, s₁))
    (only : ∀ x, x ≠ b → ¬ Takes s.cell x) :
    ∃ r s', fileMapBlock f i true s = .ok (.error r, s') := by
  have cached : s.mapped (fIndirect f / 1024) = true := h.field (by decide)
  obtain ⟨three, valid, free, grows₁, cell₁, there⟩ := allocBlock_result h.toInited run
  have apart : f / 1024 ≠ b := by
    intro same
    have held := h.cached
    rw [same, bare.mapped valid, free] at held
    cases held
  obtain ⟨s₂, stored, grows₂, gets, nblocks, cell₂⟩ :=
    indirect_got h bitmap grows₁ three valid free cell₁
  have grows := grows₁.trans grows₂
  have held := grows₂.mapped b there
  have h₂ := h.toInited.grows grows nblocks
  have entry : blockWord b i / 1024 = b := by
    have disk := h.nblocks
    exact blockWord_block (by omega) hi
  -- the page of the new indirect block is one of zeros
  have empty : s₂.cell (blockWord b i) = 0 := by
    have unmapped : ¬ s.mapped b = true := by
      rw [bare.mapped valid, free]
      exact Bool.true_eq_false.mp
    have other : blockWord b i ≠ fIndirect f := by
      intro same
      rw [same, fIndirect_block h.place] at entry
      exact apart entry
    rw [cell₂, Function.update_of_ne other, obtained, if_neg unmapped, cleared, if_pos entry]
  have full : ∃ r s', allocBlock s₂ = .ok (.error r, s') := by
    have none_left (x : Nat) (hx : Takes s₂.cell x) : False := by
      obtain ⟨low', valid', free'⟩ := hx
      rw [nblocks] at valid'
      have both := (gets.free x valid').mp free'
      exact only x both.2 ⟨low', valid', both.1⟩
    cases allocates : allocBlock s₂ with
    | error e =>
      obtain ⟨y, t, out⟩ := allocBlock_total h₂
      rw [allocates] at out
      cases out
    | ok p =>
      obtain ⟨r, t⟩ := p
      cases r with
      | error r => exact ⟨r, t, rfl⟩
      | ok x =>
        obtain ⟨low', valid', free', -⟩ := allocBlock_result h₂ allocates
        exact (none_left x ⟨low', valid', free'⟩).elim
  obtain ⟨r, s', fails⟩ := full
  refine ⟨r, s', ?_⟩
  rw [fileMapBlock_indirect (Nat.not_lt_of_le low) hi, bind_ok (load_mapped cached),
    if_pos none_, bind_ok run]
  simp only
  rw [bind_ok stored, indirect_read h grows gets nblocks held, mapEntry,
    bind_ok (load_mapped (by rw [entry]; exact held)), if_pos empty, bind_ok fails]
  rfl

/-- Where the pointer is 0, a block is needed, and without a page or the free blocks there is
none. -/
theorem fileMapBlock_short (h : Slotted s f) (bitmap : ¬ BitmapBlock s.cell (f / 1024))
    (bare : Bare s) (zero : pointer s.cell f i = 0) (good : ¬ BadIndirect s.cell f i)
    (short : (∀ n, s.memory n = false) ∨ ¬ Enough s.cell f i) :
    ∃ r s', fileMapBlock f i true s = .ok (.error r, s') := by
  obtain ⟨r, s₁, run⟩ := allocBlock_total h.toInited
  cases r with
  | error r =>
    exact fileMapBlock_fails h zero good (fun b hb => (bare.mapped hb).mpr) ⟨r, s₁, run⟩
  | ok b =>
    have got := allocBlock_result h.toInited run
    have few : ¬ Enough s.cell f i := by
      refine short.resolve_left fun none_ => ?_
      have unmapped (x : Nat) (hx : x < s.cell sNblocks) (free : isFree s.cell x = true) :
          s.mapped x = false := by
        rw [bare x hx, free]
        rfl
      obtain ⟨r, s', fails⟩ := allocBlock_starved h.toInited unmapped none_
      rw [run] at fails
      cases fails
    by_cases below : i < nindirect
    · have second : ¬ (ndirect ≤ i → s.cell (fIndirect f) = 0 → ∃ x, x ≠ b ∧ Takes s.cell x) :=
        fun more => few ⟨below, b, ⟨got.1, got.2.1, got.2.2.1⟩, more⟩
      push Not at second
      obtain ⟨low, none_, only⟩ := second
      exact fileMapBlock_second h bitmap bare low below none_ run only
    · unfold fileMapBlock fileBlockWalk
      rw [if_neg fun direct => below (direct.trans (by decide)), if_neg below]
      exact ⟨_, s, rfl⟩

/-- `dir_alloc_file` fails where a block has to be added and cannot be. -/
theorem dirAllocFile_fails (h : Ready B s d) {r : Int}
    (out : dirAllocFile d s = .ok (.error r, s')) :
    ¬ HasFree s.cell d ∧ ∃ t r t', Slotted t d ∧ t.mapped = s.mapped ∧ t.memory = s.memory ∧
    t.cell = grown s.cell d ∧
      fileMapBlock d (nblock s.cell d) true t = .ok (.error r, t') := by
  rw [dirAllocFile_cached h] at out
  cases free : vacant s.cell d with
  | some f =>
    rw [free] at out
    cases out
  | none =>
    obtain ⟨t, inited, grows, mapped, cell, step⟩ := h.grows
    rw [free] at out
    simp only at out
    rw [allocFileFrom, step, fileGetBlock, bind_assoc] at out
    obtain ⟨b, t', map, out⟩ := StateT.bind_ok_iff.mp out
    refine ⟨vacant_none.mp free, t, ?_⟩
    cases b with
    | error r => exact ⟨r, t', h.slotted inited mapped, mapped, grows.memory, cell, map⟩
    | ok b =>
      simp only [bind_assoc, pure_bind] at out
      obtain ⟨_, t₂, -, out⟩ := StateT.bind_ok_iff.mp out
      cases out

/-- A directory with room does not need a new block, or the server stops. -/
theorem dirAllocFile_room (h : Ready B s d) (room : Roomy s.cell d) (r : Int) (s' : Fs) :
    dirAllocFile d s ≠ .ok (.error r, s') := by
  intro out
  obtain ⟨full, t, r', t', slotted, -, -, cell, map⟩ := dirAllocFile_fails h out
  have next := room.resolve_left full
  rw [← cell] at next
  exact fileMapBlock_room slotted next r' t' map

section
variable {t : Fs} (h : Ready B s d) (cell : t.cell = grown s.cell d)

include h cell in
/-- With `f_size` grown the super block and the bitmap are as before. -/
theorem Ready.grown_kept :
    t.cell sNblocks = s.cell sNblocks ∧
      (∀ b < s.cell sNblocks, isFree t.cell b = isFree s.cell b) ∧
      ¬ BitmapBlock t.cell (d / 1024) := by
  have nblocks : t.cell sNblocks = s.cell sNblocks := by
    rw [cell]
    exact grown_nblocks h.tree h.nblocks h.dir
  refine ⟨nblocks, fun b hb => ?_, ?_⟩
  · rw [cell]
    exact grown_free h.tree h.nblocks h.dir hb
  · unfold BitmapBlock nbitmap
    rw [nblocks]
    exact h.tree.dir_bitmap h.nblocks h.dir

include h cell in
theorem Ready.grown_enough : Enough t.cell d i ↔ Enough s.cell d i := by
  obtain ⟨nblocks, free, -⟩ := h.grown_kept cell
  have other : fIndirect d ≠ fSize d := by
    unfold fIndirect fSize
    omega
  have indirect : t.cell (fIndirect d) = s.cell (fIndirect d) := by
    rw [cell]
    exact Function.update_of_ne other _ _
  have takes (b : Nat) : Takes t.cell b ↔ Takes s.cell b := by
    unfold Takes
    rw [nblocks]
    exact and_congr_right fun _ => and_congr_right fun hb => by rw [free b hb]
  unfold Enough
  rw [indirect]
  simp only [takes]

end

theorem dirAllocFile_ample (h : Ready B s d) (memory : ∀ n, s.memory n = true)
    (enough : Enough s.cell d (nblock s.cell d)) (r : Int) (s' : Fs) :
    dirAllocFile d s ≠ .ok (.error r, s') := by
  intro out
  obtain ⟨-, t, r', t', slotted, -, memory', cell, map⟩ := dirAllocFile_fails h out
  refine fileMapBlock_ample slotted (h.grown_kept cell).2.2 ?_ ((h.grown_enough cell).mpr enough)
    r' t' map
  rw [memory']
  exact memory

/-- Without room it fails where there is no page, or no free block. -/
theorem dirAllocFile_short (h : Ready B s d) (full : ¬ Roomy s.cell d) (bare : Bare s)
    (short : (∀ n, s.memory n = false) ∨ ¬ Enough s.cell d (nblock s.cell d)) :
    ∃ r s', dirAllocFile d s = .ok (.error r, s') := by
  simp only [Roomy, not_or, not_not] at full
  obtain ⟨slots, next, good⟩ := full
  rw [dirAllocFile_cached h, vacant_none.mpr slots]
  obtain ⟨t, inited, grows, mapped, cell, step⟩ := h.grows
  obtain ⟨nblocks, free, bitmap⟩ := h.grown_kept cell
  have bare' : Bare t := by
    intro b hb
    rw [nblocks] at hb
    rw [mapped, free b hb]
    exact bare b hb
  rw [← grows.memory, ← h.grown_enough cell] at short
  rw [← cell] at next good
  obtain ⟨r, s', fails⟩ :=
    fileMapBlock_short (h.slotted inited mapped) bitmap bare' next good short
  refine ⟨r, s', ?_⟩
  simp only
  rw [allocFileFrom, step, fileGetBlock, bind_assoc, bind_ok fails]
  rfl

end

end FsM

end RiscvMos
