import RiscvMos.Fs.Layout
import Mathlib.Data.List.Find

/-!
The directory tree in the words of the file system: the files in a directory, the
file that a list of names leads to, and the trees whose directories have all their
blocks, or all of some kind. A look-up stores into `f_dir` of the files it finds,
which is no part of the tree.
-/

namespace RiscvMos

namespace Fs

/-- A byte of the file system. -/
def cellByte (c : Nat → Nat) (i : Nat) : Nat := (c (i / 4) >>> (8 * (i % 4))) % 256

/-- `strcmp(f->f_name, name) == 0`. -/
def hasName (c : Nat → Nat) (f : Nat) (name : List Nat) : Bool :=
  (List.range name.length).all (fun i => cellByte c (4 * f + i) == name.getD i 0) &&
    cellByte c (4 * f + name.length) == 0

/-- The number of blocks of a directory. -/
def nblock (c : Nat → Nat) (d : Nat) : Nat := c (fSize d) / by2blk

/-- The files in a block. -/
def filesIn (b : Nat) : List Nat := (List.range file2blk).map fun j => blockWord b (64 * j)

/-- The files in a directory, in the order in which `dir_lookup` looks at them. -/
def files (c : Nat → Nat) (d : Nat) : List Nat :=
  (List.range (nblock c d)).flatMap fun i => filesIn (pointer c d i)

/-- The first file in a directory that has the name. -/
def childOf (c : Nat → Nat) (d : Nat) (name : List Nat) : Option Nat :=
  (files c d).find? fun f => hasName c f name

def IsDir (c : Nat → Nat) (f : Nat) : Prop := c (fType f) = ftypeDir

instance (c : Nat → Nat) (f : Nat) : Decidable (IsDir c f) := inferInstanceAs (Decidable (_ = _))

/-- The file that the names lead to. -/
def resolve (c : Nat → Nat) : List (List Nat) → Nat → Option Nat
  | [], f => some f
  | name :: names, d => if IsDir c d then (childOf c d name).bind (resolve c names) else none

/-- The file is in a block of the directory that is one of `B`. -/
def Listed (B : Nat → Prop) (c : Nat → Nat) (d f : Nat) : Prop :=
  ∃ i < nblock c d, B (pointer c d i) ∧ f ∈ filesIn (pointer c d i)

/-- The root, and the files in use in the directories below it, as far as the blocks are of `B`. -/
inductive NodeIn (B : Nat → Prop) (c : Nat → Nat) : Nat → Prop
  | root : NodeIn B c sRoot
  | file {d f : Nat} (dir : NodeIn B c d) (type : IsDir c d) (listed : Listed B c d f)
    (used : cellByte c (4 * f) ≠ 0) :
      NodeIn B c f

/-- A directory of the tree. -/
def DirIn (B : Nat → Prop) (c : Nat → Nat) (d : Nat) : Prop := NodeIn B c d ∧ IsDir c d

/-- A block with the files of a directory. -/
def DirBlockIn (B : Nat → Prop) (c : Nat → Nat) (b : Nat) : Prop :=
  ∃ d i, DirIn B c d ∧ i < nblock c d ∧ pointer c d i = b ∧ B b

/-- Every block of a directory that is one of `B` is a block of the disk in use, and holds
nothing but files. -/
structure TreeIn (B : Nat → Prop) (c : Nat → Nat) : Prop where
  whole : ∀ d, DirIn B c d → ∀ i < nblock c d, B (pointer c d i) →
    pointer c d i ≠ 0 ∧ pointer c d i < c sNblocks ∧ isFree c (pointer c d i) = false
  indirect : ∀ d, DirIn B c d → ndirect < nblock c d → c (fIndirect d) ≠ 0 →
    c (fIndirect d) < c sNblocks ∧ isFree c (c (fIndirect d)) = false
  apart : ∀ b, DirBlockIn B c b →
    b ≠ 1 ∧ ¬ BitmapBlock c b ∧ ∀ d, DirIn B c d → ndirect < nblock c d → b ≠ c (fIndirect d)

/-- The words that no look-up stores to: all but `f_dir` of the files in directories. -/
def FixedIn (B : Nat → Prop) (c : Nat → Nat) (w : Nat) : Prop :=
  DirBlockIn B c (w / 1024) → w % 64 ≠ 45 ∧ w % 64 ≠ 46

/-- What look-ups make of the words. -/
def RelinksIn (B : Nat → Prop) (c c' : Nat → Nat) : Prop := ∀ w, FixedIn B c w → c' w = c w

/-! Where all blocks are to be there. -/

def Every (_ : Nat) : Prop := True

abbrev Node : (Nat → Nat) → Nat → Prop := NodeIn Every
abbrev Dir : (Nat → Nat) → Nat → Prop := DirIn Every

/-- A directory tree without holes. -/
abbrev Tree : (Nat → Nat) → Prop := TreeIn Every

abbrev Fixed : (Nat → Nat) → Nat → Prop := FixedIn Every
abbrev Relinks : (Nat → Nat) → (Nat → Nat) → Prop := RelinksIn Every

section
variable {B : Nat → Prop} {c c' c'' : Nat → Nat} {d f w b i : Nat}

theorem Every.intro (b : Nat) : Every b := trivial

theorem RelinksIn.refl (c : Nat → Nat) : RelinksIn B c c := fun _ _ => rfl

theorem mem_filesIn (small : b < 2 ^ 20) :
    f ∈ filesIn b ↔ ∃ j < file2blk, f = 1024 * b + 64 * j := by
  have page : page b = b := Nat.mod_eq_of_lt small
  unfold filesIn blockWord
  rw [List.mem_map, page]
  constructor
  · rintro ⟨j, hj, rfl⟩
    exact ⟨j, List.mem_range.mp hj, rfl⟩
  · rintro ⟨j, hj, rfl⟩
    exact ⟨j, List.mem_range.mpr hj, rfl⟩

theorem mem_files : f ∈ files c d ↔ ∃ i < nblock c d, f ∈ filesIn (pointer c d i) := by
  unfold files
  rw [List.mem_flatMap]
  constructor
  · rintro ⟨i, hi, hf⟩
    exact ⟨i, List.mem_range.mp hi, hf⟩
  · rintro ⟨i, hi, hf⟩
    exact ⟨i, List.mem_range.mpr hi, hf⟩

theorem Listed.mem (h : Listed B c d f) : f ∈ files c d := by
  obtain ⟨i, hi, -, hf⟩ := h
  exact mem_files.mpr ⟨i, hi, hf⟩

theorem Listed.of_mem (all : ∀ b, B b) (h : f ∈ files c d) : Listed B c d f := by
  obtain ⟨i, hi, hf⟩ := mem_files.mp h
  exact ⟨i, hi, all _, hf⟩

/-- The files in a directory are aligned in their blocks. -/
theorem aligned_of_mem (h : f ∈ files c d) : f % 64 = 0 ∧ f % 1024 ≤ 960 := by
  obtain ⟨i, -, hf⟩ := mem_files.mp h
  obtain ⟨j, hj, rfl⟩ := List.mem_map.mp hf
  have few : j < 16 := List.mem_range.mp hj
  unfold blockWord
  omega

/-- The pointers behind the last one are 0. -/
theorem pointer_below (h : pointer c d i ≠ 0) : i < nindirect := by
  have has : HasSlot c d i := by
    by_contra none_
    exact h (if_neg none_)
  cases has with
  | inl direct => exact direct.trans (by decide)
  | inr indirect => exact indirect.1

theorem NodeIn.weaken {A : Nat → Prop} (weaker : ∀ b, A b → B b) (h : NodeIn A c f) :
    NodeIn B c f := by
  induction h with
  | root => exact .root
  | file dir type listed used ih =>
    obtain ⟨i, hi, hb, hf⟩ := listed
    exact .file ih type ⟨i, hi, weaker _ hb, hf⟩ used

/-- The fewer blocks, the less is asked of a tree. -/
theorem TreeIn.weaken {A : Nat → Prop} (weaker : ∀ b, A b → B b) (tree : TreeIn B c) :
    TreeIn A c := by
  have dir (d : Nat) (hd : DirIn A c d) : DirIn B c d := ⟨hd.1.weaken weaker, hd.2⟩
  refine ⟨fun d hd i hi hb => tree.whole d (dir d hd) i hi (weaker _ hb),
    fun d hd => tree.indirect d (dir d hd), ?_⟩
  rintro b ⟨d, i, hd, hi, same, hb⟩
  obtain ⟨super, bitmap, indirect⟩ := tree.apart b ⟨d, i, dir d hd, hi, same, weaker b hb⟩
  exact ⟨super, bitmap, fun d' hd' => indirect d' (dir d' hd')⟩

variable (tree : TreeIn B c) (disk : c sNblocks ≤ 2 ^ 18)

/-- Without holes a directory has as many blocks as there are pointers. -/
theorem TreeIn.few (tree : Tree c) (hd : Dir c d) : nblock c d ≤ nindirect := by
  by_contra more
  have below : nindirect < nblock c d := Nat.lt_of_not_le more
  have there := (tree.whole d hd nindirect below trivial).1
  exact absurd (pointer_below there) (Nat.lt_irrefl nindirect)

include tree disk in
theorem TreeIn.pointer_small (hd : DirIn B c d) (hi : i < nblock c d) (hb : B (pointer c d i)) :
    pointer c d i < 2 ^ 20 := by
  have bound := (tree.whole d hd i hi hb).2.1
  omega

include tree disk in
/-- A file in a directory is one of sixteen in its block. -/
theorem TreeIn.file_place (hd : DirIn B c d) (hf : Listed B c d f) :
    DirBlockIn B c (f / 1024) ∧ f % 64 = 0 ∧ f % 1024 ≤ 960 ∧ f / 1024 < c sNblocks := by
  obtain ⟨i, hi, hb, hin⟩ := hf
  obtain ⟨j, hj, rfl⟩ := (mem_filesIn (tree.pointer_small disk hd hi hb)).mp hin
  have few : j < 16 := hj
  have bound := (tree.whole d hd i hi hb).2.1
  have block : (1024 * pointer c d i + 64 * j) / 1024 = pointer c d i := by omega
  refine ⟨?_, by omega, by omega, by omega⟩
  rw [block]
  exact ⟨d, i, hd, hi, rfl, hb⟩

include tree disk in
/-- The fields of a file of the tree are not touched. -/
theorem TreeIn.field_fixed (hf : NodeIn B c f) {k : Nat} (hk : k < 45) :
    FixedIn B c (f + k) ∧ f % 1024 ≤ 960 := by
  cases hf with
  | root =>
    have block : (sRoot + k) / 1024 = 1 := by
      unfold sRoot
      omega
    constructor
    · intro dirBlock
      rw [block] at dirBlock
      exact absurd rfl (tree.apart 1 dirBlock).1
    · decide
  | file dir type listed used =>
    obtain ⟨-, aligned, place, -⟩ := tree.file_place disk ⟨dir, type⟩ listed
    refine ⟨fun _ => ?_, place⟩
    omega

/-- Nor are those of any file in a directory. -/
theorem slot_fixed (hf : f ∈ files c d) {k : Nat} (hk : k < 45) : FixedIn B c (f + k) := by
  have aligned := (aligned_of_mem hf).1
  intro _
  omega

include tree in
theorem TreeIn.nblocks_fixed : FixedIn B c sNblocks := by
  intro dirBlock
  exact absurd rfl (tree.apart 1 dirBlock).1

include tree in
theorem TreeIn.bitmap_fixed (hb : b < c sNblocks) : FixedIn B c (blockWord 2 (b / 32)) := by
  intro dirBlock
  exact absurd (bitmapBlock_word hb) (tree.apart _ dirBlock).2.1

include tree disk in
theorem TreeIn.pointers_fixed (hd : DirIn B c d) (many : ndirect < nblock c d)
    (nonzero : c (fIndirect d) ≠ 0) (i : Nat) (hi : i < nindirect) :
    FixedIn B c (blockWord (c (fIndirect d)) i) := by
  have bound := (tree.indirect d hd many nonzero).1
  have block : blockWord (c (fIndirect d)) i / 1024 = c (fIndirect d) :=
    blockWord_block (by omega) hi
  intro dirBlock
  rw [block] at dirBlock
  exact absurd rfl ((tree.apart _ dirBlock).2.2 d hd many)

end

/-! ## Look-ups leave the tree -/

section
variable {B : Nat → Prop} {c c' c'' : Nat → Nat} {d f b i : Nat} {name : List Nat}

theorem word_of_byte {i : Nat} : (4 * f + i) / 4 = f + i / 4 ∧ (4 * f + i) % 4 = i % 4 := by
  omega

theorem hasName_congr (same : ∀ k < 32, c' (f + k) = c (f + k)) (short : name.length < maxnamelen) :
    hasName c' f name = hasName c f name := by
  have byte (i : Nat) (hi : i < maxnamelen) : cellByte c' (4 * f + i) = cellByte c (4 * f + i) := by
    have below : i < 128 := hi
    unfold cellByte
    rw [word_of_byte.1, same (i / 4) (by omega)]
  unfold hasName
  rw [byte name.length short]
  congr 1
  apply Bool.eq_iff_iff.mpr
  simp only [List.all_eq_true, List.mem_range]
  constructor
  · intro h i hi
    rw [← byte i (Nat.lt_trans hi short)]
    exact h i hi
  · intro h i hi
    rw [byte i (Nat.lt_trans hi short)]
    exact h i hi

/-- A file that is found under a name that is not empty is in use. -/
theorem used_of_hasName (h : hasName c f name = true) (some_ : name ≠ [])
    (nul : ∀ b ∈ name, b ≠ 0) :
    cellByte c (4 * f) ≠ 0 := by
  cases name with
  | nil => exact absurd rfl some_
  | cons b name =>
    simp only [hasName, Bool.and_eq_true, List.all_eq_true, List.mem_range, beq_iff_eq] at h
    have first := h.1 0 (Nat.succ_pos _)
    rw [Nat.add_zero] at first
    rw [first]
    exact nul b List.mem_cons_self

/-- A name that a path can have. -/
def Proper (name : List Nat) : Prop := name ≠ [] ∧ ∀ b ∈ name, b ≠ 0

theorem childOf_none (none_ : nblock c d = 0) (name : List Nat) : childOf c d name = none := by
  unfold childOf files
  rw [none_]
  rfl

theorem childOf_named (h : childOf c d name = some f) : hasName c f name = true := by
  unfold childOf at h
  have found := List.find?_some h
  exact found

theorem childOf_listed (h : childOf c d name = some f) : f ∈ files c d :=
  List.mem_of_find?_eq_some h

theorem childOf_nodeIn (hd : DirIn B c d) (listed : Listed B c d f) (proper : Proper name)
    (h : childOf c d name = some f) : NodeIn B c f :=
  .file hd.1 hd.2 listed (used_of_hasName (childOf_named h) proper.1 proper.2)

theorem childOf_node (hd : Dir c d) (proper : Proper name) (h : childOf c d name = some f) :
    Node c f :=
  childOf_nodeIn hd (.of_mem Every.intro (childOf_listed h)) proper h

namespace RelinksIn
variable (h : RelinksIn B c c') (tree : TreeIn B c) (disk : c sNblocks ≤ 2 ^ 18)

include h tree in
theorem nblocks : c' sNblocks = c sNblocks := h _ tree.nblocks_fixed

include h tree in
theorem free (hb : b < c sNblocks) : isFree c' b = isFree c b := by
  unfold isFree
  rw [h _ (tree.bitmap_fixed hb)]

include h tree disk in
theorem field (hf : NodeIn B c f) {k : Nat} (hk : k < 45) : c' (f + k) = c (f + k) :=
  h _ (tree.field_fixed disk hf hk).1

include h tree disk in
theorem isDir (hf : NodeIn B c f) : IsDir c' f ↔ IsDir c f := by
  unfold IsDir fType
  rw [h.field tree disk hf (by decide)]

include h tree disk in
theorem nblock_eq (hf : NodeIn B c f) : nblock c' f = nblock c f := by
  unfold nblock fSize
  rw [h.field tree disk hf (by decide)]

include h tree disk in
theorem pointer_eq (hd : DirIn B c d) (hi : i < nblock c d) : pointer c' d i = pointer c d i := by
  have indirect : c' (fIndirect d) = c (fIndirect d) := h.field tree disk hd.1 (by decide)
  apply pointer_congr indirect
  intro has
  by_cases direct : i < ndirect
  · rw [slot_direct direct, Nat.add_assoc]
    apply h.field tree disk hd.1
    unfold ndirect at direct
    omega
  · obtain ⟨below, nonzero⟩ := has.resolve_left direct
    rw [slot, if_neg direct]
    exact h _ (tree.pointers_fixed disk hd (by omega) nonzero i below)

include h tree disk in
theorem files_eq (hd : DirIn B c d) : files c' d = files c d := by
  unfold files
  rw [h.nblock_eq tree disk hd.1]
  apply List.flatMap_congr
  intro i hi
  rw [h.pointer_eq tree disk hd (List.mem_range.mp hi)]

include h in
theorem hasName_eq (hf : f ∈ files c d) (short : name.length < maxnamelen) :
    hasName c' f name = hasName c f name := by
  apply hasName_congr _ short
  exact fun k hk => h _ (slot_fixed hf (by omega))

include h in
theorem used (hf : f ∈ files c d) : cellByte c' (4 * f) = cellByte c (4 * f) := by
  have word : 4 * f / 4 = f := Nat.mul_div_cancel_left f (by decide)
  have same : c' f = c f := h _ (slot_fixed hf (k := 0) (by decide))
  unfold cellByte
  rw [word, same]

include h in
theorem slot_eq (hf : f ∈ files c d) : (IsDir c' f ↔ IsDir c f) ∧ nblock c' f = nblock c f := by
  unfold IsDir fType nblock fSize
  rw [h _ (slot_fixed hf (by decide)), h _ (slot_fixed hf (by decide))]
  exact ⟨Iff.rfl, rfl⟩

include h tree disk in
theorem listed_iff (hd : DirIn B c d) : Listed B c' d f ↔ Listed B c d f := by
  unfold Listed
  rw [h.nblock_eq tree disk hd.1]
  apply exists_congr
  intro i
  apply and_congr_right
  intro hi
  rw [h.pointer_eq tree disk hd hi]

include h tree disk in
theorem childOf_eq (hd : DirIn B c d) (short : name.length < maxnamelen) :
    childOf c' d name = childOf c d name := by
  unfold childOf
  rw [h.files_eq tree disk hd]
  apply List.find?_congr
  intro f hf
  exact h.hasName_eq hf short

include h tree disk in
theorem node_iff : NodeIn B c' f ↔ NodeIn B c f := by
  constructor
  · intro node
    induction node with
    | root => exact .root
    | file dir type listed used ih =>
      have hd : DirIn B c _ := ⟨ih, (h.isDir tree disk ih).mp type⟩
      have listed := (h.listed_iff tree disk hd).mp listed
      rw [h.used listed.mem] at used
      exact .file ih hd.2 listed used
  · intro node
    induction node with
    | root => exact .root
    | file dir type listed used ih =>
      have hd : DirIn B c _ := ⟨dir, type⟩
      rw [← h.used listed.mem] at used
      exact .file ih ((h.isDir tree disk dir).mpr type) ((h.listed_iff tree disk hd).mpr listed)
        used

include h tree disk in
theorem dir_iff : DirIn B c' d ↔ DirIn B c d := by
  unfold DirIn
  rw [h.node_iff tree disk]
  exact and_congr_right fun node => h.isDir tree disk node

include h tree disk in
theorem dirBlock_iff : DirBlockIn B c' b ↔ DirBlockIn B c b := by
  constructor
  · rintro ⟨d, i, hd, hi, same, hb⟩
    have hd := (h.dir_iff tree disk).mp hd
    rw [h.nblock_eq tree disk hd.1] at hi
    rw [h.pointer_eq tree disk hd hi] at same
    exact ⟨d, i, hd, hi, same, hb⟩
  · rintro ⟨d, i, hd, hi, same, hb⟩
    rw [← h.pointer_eq tree disk hd hi] at same
    rw [← h.nblock_eq tree disk hd.1] at hi
    exact ⟨d, i, (h.dir_iff tree disk).mpr hd, hi, same, hb⟩

include h tree disk in
theorem trans (h' : RelinksIn B c' c'') : RelinksIn B c c'' := by
  intro w fixed
  have fixed' : FixedIn B c' w := fun block => fixed ((h.dirBlock_iff tree disk).mp block)
  exact (h' w fixed').trans (h w fixed)

include h tree disk in
theorem tree_kept : TreeIn B c' := by
  have nblocks := h.nblocks tree
  constructor
  · intro d hd i hi hb
    have hd := (h.dir_iff tree disk).mp hd
    rw [h.nblock_eq tree disk hd.1] at hi
    rw [h.pointer_eq tree disk hd hi] at hb ⊢
    have whole := tree.whole d hd i hi hb
    rw [nblocks, h.free tree whole.2.1]
    exact whole
  · intro d hd many nonzero
    have hd := (h.dir_iff tree disk).mp hd
    have indirect : c' (fIndirect d) = c (fIndirect d) := h.field tree disk hd.1 (by decide)
    rw [h.nblock_eq tree disk hd.1] at many
    rw [indirect] at nonzero ⊢
    have used := tree.indirect d hd many nonzero
    rw [nblocks, h.free tree used.1]
    exact used
  · intro b block
    have block := (h.dirBlock_iff tree disk).mp block
    obtain ⟨super, bitmap, pointers⟩ := tree.apart b block
    refine ⟨super, ?_, ?_⟩
    · unfold BitmapBlock nbitmap
      rw [nblocks]
      exact bitmap
    · intro d hd many
      have hd := (h.dir_iff tree disk).mp hd
      have indirect : c' (fIndirect d) = c (fIndirect d) := h.field tree disk hd.1 (by decide)
      rw [h.nblock_eq tree disk hd.1] at many
      rw [indirect]
      exact pointers d hd many

end RelinksIn

end

end Fs

end RiscvMos
