import RiscvMos.Fs.Formatted
import RiscvMos.Fs.Grow

/-!
The file server on a disk that `tools/fsformat.c` wrote: under each path it finds
what the host has there, and reads its contents.
-/

namespace RiscvMos

open Fs

namespace Format

/-- A file or a directory of the host. -/
inductive Host where
  | file (content : List Nat)
  | dir (entries : Entries)

/-- The first entry with a name. The name of a directory is cut off. -/
def Entries.child (name : List Nat) : Entries → Option Host
  | .nil => none
  | .file n content rest => if name = n then some (.file content) else rest.child name
  | .dir n entries rest => if name = n.take 127 then some (.dir entries) else rest.child name

/-- What the names lead to on the host. -/
def Host.find : List (List Nat) → Host → Option Host
  | [], x => some x
  | name :: names, .dir entries => (entries.child name).bind (find names)
  | _ :: _, .file _ => none

/-- What a `struct File` is, with its blocks below `hi`. -/
def Is (d : Image) (hi g : Nat) : Host → Prop
  | .file content => ∃ name lo, FileIn d g name content lo hi
  | .dir entries => IsDir d.word g ∧ entries.Hosted ∧
    ∃ lo, Listing d g (dirBlocks entries.count) entries.count lo hi ∧
      Holds d g 0 lo hi entries

section
variable {d : Image} {entries : Entries} {t : BlockType} {f g m k lo hi : Nat} {name n : List Nat}

theorem Named.hasName_iff {c : Nat → Nat} (h : Named c g n) (host : HostName n)
    (nul : ∀ b ∈ name, b ≠ 0) : hasName c g name = true ↔ name = n := by
  have byte {i : Nat} (hi : i < n.length) : cellByte c (4 * g + i) = n[i] := by
    rw [h.2 i hi.le, List.getD_eq_getElem _ _ hi]
  have last : cellByte c (4 * g + n.length) = 0 := by
    rw [h.2 _ (Nat.le_refl _), List.getD_eq_default _ _ (Nat.le_refl _)]
  unfold hasName
  rw [Bool.and_eq_true, List.all_eq_true, beq_iff_eq]
  constructor
  · rintro ⟨all, zero⟩
    have same (i : Nat) (hi : i < name.length) : cellByte c (4 * g + i) = name[i] := by
      have eq := all i (List.mem_range.mpr hi)
      rwa [beq_iff_eq, List.getD_eq_getElem _ _ hi] at eq
    rcases Nat.lt_trichotomy name.length n.length with less | equal | more
    · rw [byte less] at zero
      exact absurd zero (host.2 _ (List.getElem_mem less)).1
    · apply List.ext_getElem equal
      intro i hi hi'
      rw [← same i hi, byte hi']
    · rw [same _ more] at last
      exact absurd last (nul _ (List.getElem_mem more))
  · rintro rfl
    refine ⟨fun i hi => ?_, last⟩
    have inside := List.mem_range.mp hi
    rw [beq_iff_eq, byte inside, List.getD_eq_getElem _ _ inside]

/-- Of the `count` files from file `k` on, the first one with the name is the one given. -/
def Finds (d : Image) (hi f k count : Nat) (name : List Nat) : Option Host → Prop
  | some x => ∃ j, k ≤ j ∧ j < k + count ∧ hasName d.word (entryAt d.word f j) name = true ∧
      (∀ i, k ≤ i → i < j → hasName d.word (entryAt d.word f i) name = false) ∧
      Is d hi (entryAt d.word f j) x
  | none => ∀ j, k ≤ j → j < k + count → hasName d.word (entryAt d.word f j) name = false

theorem Finds.cons {count : Nat} {x : Host} {r : Option Host}
    (named : hasName d.word (entryAt d.word f k) name = true ↔ name = n)
    (is : Is d hi (entryAt d.word f k) x) (rest : Finds d hi f (k + 1) count name r) :
    Finds d hi f k (count + 1) name (if name = n then some x else r) := by
  by_cases here : name = n
  · rw [if_pos here]
    refine ⟨k, Nat.le_refl k, by omega, named.mpr here, fun i low high => ?_, is⟩
    omega
  · rw [if_neg here]
    have first : hasName d.word (entryAt d.word f k) name = false :=
      Bool.eq_false_iff.mpr fun same => here (named.mp same)
    cases r with
    | none =>
      intro j low high
      by_cases new : j = k
      · rw [new, first]
      · exact rest j (by omega) (by omega)
    | some y =>
      obtain ⟨j, low, high, found, least, is⟩ := rest
      refine ⟨j, by omega, by omega, found, fun i low' high' => ?_, is⟩
      by_cases new : i = k
      · rw [new, first]
      · exact least i (by omega) high'

/-- The first file of a directory with a name is the first entry with it. -/
theorem Holds.child (holds : Holds d f k lo hi entries) (hosted : entries.Hosted)
    (nul : ∀ b ∈ name, b ≠ 0) : Finds d hi f k entries.count name (entries.child name) := by
  induction entries generalizing k with
  | nil => exact fun j low high => absurd high (Nat.not_lt.mpr low)
  | file n content rest ih =>
    obtain ⟨⟨lo', _, file⟩, later⟩ := holds
    obtain ⟨host, -, hosted⟩ := hosted
    exact Finds.cons (file.named.hasName_iff host nul) ⟨n, lo', file⟩ (ih later hosted)
  | dir n entries rest ih ih' =>
    obtain ⟨⟨named, isDir, lo', _, listing, inner⟩, later⟩ := holds
    obtain ⟨host, inside, hosted⟩ := hosted
    exact Finds.cons (named.hasName_iff host.take nul) ⟨isDir, inside, lo', listing, inner⟩
      (ih' later hosted)

theorem Holds.all (holds : Holds d f k lo hi entries) (hosted : entries.Hosted) {j : Nat}
    (low : k ≤ j) (high : j < k + entries.count) : ∃ x, Is d hi (entryAt d.word f j) x := by
  induction entries generalizing k with
  | nil => exact absurd high (Nat.not_lt.mpr low)
  | file n content rest ih =>
    obtain ⟨⟨lo', _, file⟩, later⟩ := holds
    by_cases here : j = k
    · subst here
      exact ⟨.file content, n, lo', file⟩
    · rw [Entries.count] at high
      exact ih later hosted.2.2 (by omega) (by omega)
  | dir n entries rest ih ih' =>
    obtain ⟨⟨named, isDir, lo', _, listing, inner⟩, later⟩ := holds
    by_cases here : j = k
    · subst here
      exact ⟨.dir entries, isDir, hosted.2.1, lo', listing, inner⟩
    · rw [Entries.count] at high
      exact ih' later hosted.2.2 (by omega) (by omega)

theorem Listing.files (h : Listing d f m k lo hi) :
    files d.word f = (List.range (file2blk * m)).map (entryAt d.word f) := by
  have blocks : nblock d.word f = m := by
    unfold nblock
    rw [h.size, Nat.mul_div_cancel_left _ (by decide)]
  unfold Fs.files
  rw [blocks]
  clear blocks h
  induction m with
  | zero => rfl
  | succ m ih =>
    rw [List.range_succ, List.flatMap_append, ih, Nat.mul_succ, List.range_add, List.map_append,
      List.flatMap_singleton]
    congr 1
    unfold filesIn
    rw [List.map_map]
    apply List.map_congr_left
    intro j hj
    have small : j < 16 := List.mem_range.mp hj
    have block : (file2blk * m + j) / file2blk = m := by
      simp only [file2blk]
      omega
    have index : (file2blk * m + j) % file2blk = j := by
      simp only [file2blk]
      omega
    show _ = entryAt d.word f (file2blk * m + j)
    rw [entryAt, block, index]

/-- A directory lists its entries, and nothing else under a name that is not empty. -/
theorem Is.childOf (h : Is d hi f (.dir entries)) (proper : Proper name) :
    match entries.child name with
    | some x => ∃ g, childOf d.word f name = some g ∧ Is d hi g x
    | none => childOf d.word f name = none := by
  obtain ⟨isDir, hosted, lo, listing, holds⟩ := h
  have finds := holds.child hosted proper.2
  have room := listing.room
  unfold Fs.childOf
  rw [listing.files, List.find?_map]
  cases found : entries.child name with
  | some x =>
    rw [found] at finds
    obtain ⟨j, -, high, named, least, is⟩ := finds
    refine ⟨entryAt d.word f j, ?_, is⟩
    have first : (List.range (file2blk * dirBlocks entries.count)).find?
        ((fun g => hasName d.word g name) ∘ entryAt d.word f) = some j := by
      rw [List.find?_range_eq_some]
      refine ⟨named, List.mem_range.mpr (by omega), fun i hi => ?_⟩
      show (!hasName d.word (entryAt d.word f i) name) = true
      rw [least i (Nat.zero_le i) hi]
      rfl
    rw [first]
    rfl
  | none =>
    rw [found] at finds
    have none_ : (List.range (file2blk * dirBlocks entries.count)).find?
        ((fun g => hasName d.word g name) ∘ entryAt d.word f) = none := by
      rw [List.find?_eq_none]
      intro j hj named
      have inside := List.mem_range.mp hj
      by_cases used : j < entries.count
      · have other := finds j (Nat.zero_le j) (by omega)
        exact absurd named (by rw [Function.comp_apply, other]; exact Bool.false_ne_true)
      · have zero := listing.empty j (Nat.le_of_not_lt used) inside 0 (by decide)
        rw [Nat.add_zero] at zero
        have first := used_of_hasName named proper.1 proper.2
        rw [cellByte, Nat.mul_div_cancel_left _ (by decide), zero, Nat.zero_shiftRight] at first
        exact first rfl
    rw [none_]
    rfl

theorem Is.isDir (h : Is d hi f (.dir entries)) : IsDir d.word f := h.1

theorem Is.notDir {content : List Nat} (h : Is d hi f (.file content)) : ¬ IsDir d.word f := by
  obtain ⟨name, lo, file⟩ := h
  unfold IsDir
  rw [file.type]
  decide

/-- The names lead to what they lead to on the host. -/
theorem Is.resolve {names : List (List Nat)} {x : Host} (h : Is d hi f x)
    (proper : ∀ n ∈ names, Proper n) :
    match x.find names with
    | some y => ∃ g, resolve d.word names f = some g ∧ Is d hi g y
    | none => resolve d.word names f = none := by
  induction names generalizing f x with
  | nil =>
    unfold Host.find
    exact ⟨f, rfl, h⟩
  | cons name names ih =>
    have first := proper name List.mem_cons_self
    cases x with
    | file content =>
      unfold Host.find Fs.resolve
      exact if_neg h.notDir
    | dir entries =>
      have child := h.childOf first
      unfold Host.find Fs.resolve
      rw [if_pos h.isDir]
      cases found : entries.child name with
      | none =>
        rw [found] at child
        rw [child]
        rfl
      | some y =>
        rw [found] at child
        obtain ⟨g, listed, is⟩ := child
        rw [listed]
        exact ih is fun n hn => proper n (List.mem_cons_of_mem name hn)

end

/-! ## The tree of the image -/

section
variable {d d' : Image} {entries : Entries} {f m hi b i : Nat}

/-- A formatted image is one whatever is in block 0. -/
theorem Formatted.congr (h : Formatted d entries hi) (type : d'.type = d.type)
    (word : ∀ w, w / 1024 ≠ 0 → d'.word w = d.word w) : Formatted d' entries hi := by
  have agree : Agree d d' sRoot 3 hi := by
    refine ⟨fun x hx => word _ ?_, fun w low _ => word w (by omega), fun b _ _ => by rw [type]⟩
    unfold sRoot
    omega
  have high := h.listing.linked.high
  refine ⟨h.listing.agree agree (Nat.le_refl _) high,
    h.holds.agree h.listing agree (Nat.zero_add _).le (Nat.le_refl 3) (Nat.le_refl _) high, ?_, ?_,
    ?_, h.low, fun b hb => ?_⟩
  · unfold IsDir
    rw [word _ (by decide), h.isDir]
  · rw [word _ (by decide), h.magic]
  · rw [word _ (by decide), h.nblocks]
  · rw [← h.free b hb]
    unfold isFree
    rw [word _ (by unfold blockWord page; omega)]

theorem Formatted.is (h : Formatted d entries hi) (hosted : entries.Hosted) :
    Is d hi sRoot (.dir entries) := ⟨h.isDir, hosted, 3, h.listing, h.holds⟩

/-- Every file of the tree is one of the host. -/
theorem Formatted.node (h : Formatted d entries hi) (hosted : entries.Hosted)
    (node : Node d.word f) : ∃ x, Is d hi f x := by
  induction node with
  | root => exact ⟨_, h.is hosted⟩
  | @file p f dir isDir listed used ih =>
    obtain ⟨x, is⟩ := ih
    cases x with
    | file content => exact absurd isDir is.notDir
    | dir entries' =>
      obtain ⟨-, hosted', lo, listing, holds⟩ := is
      have mem := listed.mem
      rw [listing.files] at mem
      obtain ⟨j, hj, rfl⟩ := List.mem_map.mp mem
      have inside := List.mem_range.mp hj
      by_cases below : j < entries'.count
      · exact holds.all hosted' (Nat.zero_le j) (by omega)
      · have zero := listing.empty j (Nat.le_of_not_lt below) inside 0 (by decide)
        rw [Nat.add_zero] at zero
        rw [cellByte, Nat.mul_div_cancel_left _ (by decide), zero, Nat.zero_shiftRight] at used
        exact absurd rfl used

theorem Formatted.dir (h : Formatted d entries hi) (hosted : entries.Hosted)
    (dir : Dir d.word f) : ∃ m' k lo, Listing d f m' k lo hi := by
  obtain ⟨x, is⟩ := h.node hosted dir.1
  cases x with
  | file content => exact absurd dir.2 is.notDir
  | dir entries' =>
    obtain ⟨-, -, lo, listing, -⟩ := is
    exact ⟨_, _, lo, listing⟩

theorem Listing.nblock {k lo : Nat} (h : Listing d f m k lo hi) : nblock d.word f = m := by
  unfold Fs.nblock
  rw [h.size, Nat.mul_div_cancel_left _ (by decide)]

/-- A block of the disk that is in use, and not in the bitmap. -/
theorem Formatted.block (h : Formatted d entries hi) (low : 3 ≤ b) (taken : b < hi) :
    b < d.word sNblocks ∧ isFree d.word b = false ∧ b ≠ 1 ∧ ¬ BitmapBlock d.word b := by
  have high : hi ≤ numBlock := h.listing.linked.high
  rw [h.nblocks]
  refine ⟨taken.trans_le high, ?_, by omega, ?_⟩
  · have free := h.free b (taken.trans_le high)
    exact Bool.eq_false_iff.mpr fun is => absurd (free.mp is) (Nat.not_le.mpr taken)
  · unfold BitmapBlock nbitmap
    rw [h.nblocks]
    simp only [numBlock, bit2blk, by2blk]
    omega

theorem Formatted.tree (h : Formatted d entries hi) (hosted : entries.Hosted) :
    Tree d.word := by
  refine ⟨fun f dir i hi' _ => ?_, fun f dir many _ => ?_, ?_⟩
  · obtain ⟨m', k, lo, listing⟩ := h.dir hosted dir
    rw [listing.nblock] at hi'
    obtain ⟨low, taken, -⟩ := listing.linked.inside i hi'
    have low' := listing.linked.low.trans low
    have block := h.block low' taken
    exact ⟨by omega, block.1, block.2.1⟩
  · obtain ⟨m', k, lo, listing⟩ := h.dir hosted dir
    rw [listing.nblock] at many
    obtain ⟨low, taken, -⟩ := listing.linked.index many
    have block := h.block (listing.linked.low.trans low) taken
    exact ⟨block.1, block.2.1⟩
  · rintro b ⟨f, i, dir, hi', rfl, -⟩
    obtain ⟨m', k, lo, listing⟩ := h.dir hosted dir
    rw [listing.nblock] at hi'
    obtain ⟨low, taken, type⟩ := listing.linked.inside i hi'
    obtain ⟨-, -, super_, bitmap⟩ := h.block (listing.linked.low.trans low) taken
    refine ⟨super_, bitmap, fun f' dir' many same => ?_⟩
    obtain ⟨m'', k', lo', listing'⟩ := h.dir hosted dir'
    rw [listing'.nblock] at many
    have index := (listing'.linked.index many).2.2
    rw [same, index] at type
    cases type

/-- The blocks of directories hold files only. -/
theorem Formatted.fixed (h : Formatted d entries hi) (hosted : entries.Hosted) {w : Nat}
    (type : d.type (w / 1024) ≠ .file) : Fixed d.word w := by
  rintro ⟨f, i, dir, hi', same, -⟩
  obtain ⟨m', k, lo, listing⟩ := h.dir hosted dir
  rw [listing.nblock] at hi'
  have file := (listing.linked.inside i hi').2.2
  rw [same] at file
  exact absurd file type

end

end Format

namespace FsM

theorem opened_file {w : Walk} {g : Nat} (h : opened w = .ok g) : w.file = some g := by
  unfold opened at h
  cases file : w.file with
  | none =>
    rw [file] at h
    cases h
  | some f =>
    rw [file] at h
    simp only at h
    split at h
    · cases h
    · cases h
      rfl

/-- A block that the file has is read. -/
theorem fileGetBlock_there {s : Fs} {f i : Nat} (h : Slotted s f)
    (good : ¬ BadIndirect s.cell f i)
    (valid : pointer s.cell f i < s.cell sNblocks) (nonzero : pointer s.cell f i ≠ 0)
    (used : isFree s.cell (pointer s.cell f i) = false) :
    Ends True (fileGetBlock f i) s fun r s' => r = .ok (pointer s.cell f i) ∧ Keeps s s' ∧
      s'.mapped (pointer s.cell f i) = true := by
  unfold fileGetBlock
  apply Runs.bind (fileMapBlock_there h nonzero good)
  rintro r s₁ _ ⟨rfl, keeps⟩
  have inited : Inited s₁ := h.toInited.grows keeps.toGrows (by rw [keeps.cell])
  have read := readBlock_ends (b := pointer s.cell f i) inited (by rw [keeps.cell]; exact valid)
    (by rw [keeps.cell]; exact used) (Has.any s₁ _)
  show Runs _ (readBlock (pointer s.cell f i) >>= _) s₁ _
  apply Runs.bind read
  rintro _ s' _ ⟨keeps', mapped⟩
  exact Runs.pure ⟨rfl, keeps.trans keeps', mapped⟩

end FsM

namespace Format

section
variable {d : Image} {entries : Entries} {s : Fs} {m hi g : Nat} {path : List Nat}

/-- What the server reads of a file: a directory, or the contents of a file block by block. -/
def Reads (s : Fs) (g : Nat) : Host → Prop
  | .file content => s.cell (fType g) = 0 ∧ s.cell (fSize g) = content.length ∧
      ∀ i, by2blk * i < content.length → ∃ b s', FsM.fileGetBlock g i s = .ok (.ok b, s') ∧
        s'.mapped b = true ∧
          ∀ j < by2blk, cellByte s'.cell (by2blk * b + j) = content.getD (by2blk * i + j) 0
  | .dir entries => IsDir s.cell g ∧ s.cell (fSize g) = by2blk * dirBlocks entries.count

theorem Is.reads {x : Host} {s' : Fs} (h : Formatted d entries hi) (hosted : entries.Hosted)
    (is : Is d hi g x) (node : Node d.word g) (relinks : Relinks d.word s'.cell)
    (reached : FsM.Reached s' g) (supplied : s'.Supplied) : Reads s' g x := by
  have tree := h.tree hosted
  have disk : d.word sNblocks ≤ 2 ^ 18 := by
    rw [h.nblocks]
    decide
  have field {k : Nat} (hk : k < 45) : s'.cell (g + k) = d.word (g + k) :=
    relinks.field tree disk node hk
  cases x with
  | dir entries' =>
    obtain ⟨isDir, -, lo, listing, -⟩ := is
    exact ⟨(relinks.isDir tree disk node).mpr isDir, (field (by decide)).trans listing.size⟩
  | file content =>
    obtain ⟨name, lo, file⟩ := is
    refine ⟨by rw [← file.type]; exact field (by decide),
      by rw [← file.size]; exact field (by decide), fun i inside => ?_⟩
    have hi' : i < blocksOf content.length := by
      simp only [blocksOf, by2blk] at inside ⊢
      omega
    -- the block pointers are not touched by look-ups
    have links (w : Nat) (hw : Links d g w) : s'.cell w = d.word w := by
      rcases hw with ⟨first, last⟩ | ⟨nonzero, block⟩
      · unfold fDirect at first
        unfold fIndirect at last
        have eq := field (k := w - g) (by omega)
        rwa [Nat.add_sub_cancel' (by omega)] at eq
      · have many := file.linked.many nonzero
        apply relinks w (h.fixed hosted _)
        rw [block, (file.linked.index many).2.2]
        exact BlockType.noConfusion
    have same : pointer s'.cell g i = pointer d.word g i := by
      have links' : ∀ w, Links d g w → ({ d with word := s'.cell } : Image).word w = d.word w :=
        links
      exact file.linked.congr_pointer links' hi'
    have disk' : s'.cell sNblocks = d.word sNblocks := relinks.nblocks tree
    obtain ⟨low, taken, type⟩ := file.linked.inside i hi'
    have block := h.block (file.linked.low.trans low) taken
    have slotted : FsM.Slotted s' g := ⟨reached.toInited, file.linked.place, reached.cached⟩
    have good : ¬ BadIndirect s'.cell g i := by
      rintro ⟨-, -, nonzero, unused⟩
      have index : s'.cell (fIndirect g) = d.word (fIndirect g) := field (by decide)
      rw [index] at nonzero unused
      have many := file.linked.many nonzero
      obtain ⟨low', taken', -⟩ := file.linked.index many
      have index := h.block (file.linked.low.trans low') taken'
      rw [disk', relinks.free tree index.1] at unused
      exact unused ⟨index.1, index.2.1⟩
    have nonzero : pointer d.word g i ≠ 0 := by
      have three := file.linked.low
      omega
    have runs := FsM.fileGetBlock_there slotted good
    rw [same, disk', relinks.free tree block.1] at runs
    obtain ⟨r, s₂, got, -, rfl, keeps, mapped⟩ :=
      (runs block.1 nonzero block.2.1).total fun e stops => stops.2.2 supplied
    refine ⟨_, s₂, got, mapped, fun j hj => ?_⟩
    have shows := file.shows i hi' j hj
    have at_ : (by2blk * pointer d.word g i + j) / 4 / 1024 = pointer d.word g i := by
      simp only [by2blk] at hj ⊢
      omega
    have fixed := h.fixed hosted (w := (by2blk * pointer d.word g i + j) / 4)
      (by rw [at_, type]; exact BlockType.noConfusion)
    rw [keeps.cell, cellByte, relinks _ fixed]
    rw [cellByte] at shows
    rw [shows, List.getD_eq_getElem?_getD, List.getElem?_drop, List.getD_eq_getElem?_getD]

/-- What a path leads to on the host. -/
def Host.located (path : List Nat) (x : Host) : Option Host :=
  if (components path).all (·.length < maxnamelen) = true then x.find (components path) else none

theorem short_iff : (components path).all (·.length < maxnamelen) = true ↔
    Short (components path) := by
  simp [Short]

/-- `file_open` on the image. -/
theorem fileOpen_reads (h : Formatted d entries hi) (hosted : entries.Hosted) (inited : Inited s)
    (cell : s.cell = d.word) (supplied : s.Supplied) (nul : ∀ b ∈ path, b ≠ 0) :
    ∃ r s', FsM.fileOpen path s = .ok (r, s') ∧
      match (Host.dir entries).located path with
      | some x => ∃ g, r = .ok g ∧ Reads s' g x
      | none => ∃ e, r = .error e ∧ e < 0 := by
  have tree := h.tree hosted
  have root : FsM.Reached s sRoot := FsM.reached_root inited (by rw [cell]; exact tree)
  have reads : FsM.Needs Every s.cell (components path) sRoot :=
    FsM.Needs.of_all Every.intro _ _ _
  have runs := FsM.fileOpen_ends root nul reads (FsM.Needs.of_all (FsM.Has.any s) _ _ _)
  obtain ⟨r, s', opens, serves, same, walk⟩ := runs.total fun e stops => stops.2.2 supplied
  refine ⟨r, s', opens, ?_⟩
  have found (g : Nat) : r = .ok g ↔
      Short (components path) ∧ resolve d.word (components path) sRoot = some g := by
    rw [same, FsM.opened_walked, cell]
  have resolves := (h.is hosted).resolve (FsM.components_proper path nul)
  unfold Host.located
  by_cases short : Short (components path)
  · rw [if_pos (short_iff.mpr short)]
    cases there : (Host.dir entries).find (components path) with
    | some x =>
      rw [there] at resolves
      obtain ⟨g, leads, is⟩ := resolves
      have ok := (found g).mpr ⟨short, leads⟩
      have file : (walked s.cell (components path) none sRoot).file = some g :=
        FsM.opened_file (same.symm.trans ok)
      have relinks : Relinks d.word s'.cell := by
        have links := walk.links root (FsM.components_proper path nul) reads
        have kept := links.relinks root.tree inited.nblocks
        rwa [cell] at kept
      have reached := walk.reached g file
      have disk : d.word sNblocks ≤ 2 ^ 18 := by
        rw [← cell]
        exact inited.nblocks
      have node : Node d.word g := (relinks.node_iff tree disk).mp reached.node
      exact ⟨g, ok, is.reads h hosted node relinks reached (serves.toGrows.supplied supplied)⟩
    | none =>
      rw [there] at resolves
      cases r with
      | error e => exact ⟨e, rfl, FsM.opened_negative same.symm⟩
      | ok g =>
        have leads := ((found g).mp rfl).2
        rw [resolves] at leads
        cases leads
  · rw [if_neg fun all => short (short_iff.mp all)]
    cases r with
    | error e => exact ⟨e, rfl, FsM.opened_negative same.symm⟩
    | ok g => exact absurd ((found g).mp rfl).1 short

theorem Formatted.valid (h : Formatted d entries hi) : FsM.Valid d.word := by
  have few : nbitmap d.word = 1 := by
    unfold nbitmap
    rw [h.nblocks]
    decide
  refine ⟨h.magic, ?_, ?_, fun b hb => ?_⟩
  · rw [h.nblocks]
    decide
  · rw [few, h.nblocks]
    decide
  · rw [few] at hb
    have low := h.low
    have small : b < numBlock := by
      unfold numBlock
      omega
    exact Bool.eq_false_iff.mpr fun free => absurd ((h.free b small).mp free) (by omega)

/-- A server starts on the image, and has it in its cache and on its disk. -/
theorem fsInit_formatted {image : Image} (hosted : entries.Hosted)
    (made : format entries = some image) (fresh : ∀ b, s.mapped b = false)
    (disk : s.disk = image.word) (supplied : s.Supplied) :
    ∃ s', FsM.fsInit s = .ok ((), s') ∧ Inited s' ∧ s'.Supplied ∧
      Formatted { image with word := s'.cell } entries image.nextbno := by
  obtain ⟨formatted, -⟩ := format_formatted hosted made
  have valid := formatted.valid
  rw [← disk] at valid
  rcases FsM.fsInit_valid s fresh supplied with ⟨-, s', boots, inited, supplied', -, cell, -⟩ | bad
  · refine ⟨s', boots, inited, supplied', formatted.congr rfl fun w hw => ?_⟩
    show s'.cell w = _
    rw [cell, disk]
    exact if_neg hw
  · exact absurd valid bad.1

/-- The round trip: a server that starts on the disk with the image finds under each path what
the host has there. It reads the contents of a file block by block, and opens nothing else. -/
theorem format_reads {image : Image} (hosted : entries.Hosted) (made : format entries = some image)
    (fresh : ∀ b, s.mapped b = false) (disk : s.disk = image.word) (supplied : s.Supplied)
    (nul : ∀ b ∈ path, b ≠ 0) :
    ∃ s₁ r s', FsM.fsInit s = .ok ((), s₁) ∧ FsM.fileOpen path s₁ = .ok (r, s') ∧
      match (Host.dir entries).located path with
      | some x => ∃ g, r = .ok g ∧ Reads s' g x
      | none => ∃ e, r = .error e ∧ e < 0 := by
  obtain ⟨s₁, boots, inited, supplied₁, formatted⟩ :=
    fsInit_formatted hosted made fresh disk supplied
  obtain ⟨r, s', opens, result⟩ := fileOpen_reads formatted hosted inited rfl supplied₁ nul
  exact ⟨s₁, r, s', boots, opens, result⟩

end

/-- A directory `d` with a file `a` of three bytes. -/
def threeBytes : Entries := .dir [100] (.file [97] [1, 2, 3] .nil) .nil

theorem threeBytes_hosted : threeBytes.Hosted :=
  ⟨⟨by decide, by decide⟩, ⟨⟨by decide, by decide⟩, by decide, trivial⟩, trivial⟩

theorem threeBytes_made : ∃ image, format threeBytes = some image :=
  Option.isSome_iff_exists.mp (by decide +kernel)

theorem format_reads_threeBytes : ∃ image s₁ g s', format threeBytes = some image ∧
    FsM.fsInit (FsM.booted image.word) = .ok ((), s₁) ∧
    FsM.fileOpen [47, 100, 47, 97] s₁ = .ok (.ok g, s') ∧ Reads s' g (.file [1, 2, 3]) := by
  obtain ⟨image, made⟩ := threeBytes_made
  obtain ⟨s₁, r, s', boots, opens, g, rfl, reads⟩ :=
    @format_reads threeBytes (FsM.booted image.word) [47, 100, 47, 97] image threeBytes_hosted made
      (fun _ => rfl) rfl (fun _ _ => .inl rfl) (by decide)
  exact ⟨image, s₁, g, s', made, boots, opens, reads⟩

end Format

end RiscvMos
