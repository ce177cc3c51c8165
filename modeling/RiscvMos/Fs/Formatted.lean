import RiscvMos.Fs.Image

/-!
The disk that `tools/fsformat.c` writes: what stands in its blocks, entry by entry.
-/

namespace RiscvMos

open Fs

namespace Format

section
variable {P Q : Nat → Prop} {d d' d'' : Image} {t : BlockType} {f g m lo hi b w v i : Nat}
    {bs : List Nat}

/-! ## The files of a directory -/

/-- File `k` of a directory. -/
def entryAt (c : Nat → Nat) (f k : Nat) : Nat :=
  blockWord (pointer c f (k / file2blk)) (64 * (k % file2blk))

/-- The number of blocks of a directory with `k` files. -/
def dirBlocks (k : Nat) : Nat := (k + (file2blk - 1)) / file2blk

/-- A file more needs a block more where the last one is full. -/
theorem dirBlocks_succ (k : Nat) : max (dirBlocks k) (k / file2blk + 1) = dirBlocks (k + 1) := by
  simp only [dirBlocks, file2blk]
  omega

/-- A directory of `m` blocks: its first `k` files are in use, and the others are all zeros. -/
structure Listing (d : Image) (f m k lo hi : Nat) : Prop where
  linked : Linked d .file f m lo hi
  size : d.word (fSize f) = by2blk * m
  room : k ≤ file2blk * m
  used : ∀ j < k, cellByte d.word (4 * entryAt d.word f j) ≠ 0
  empty : ∀ j, k ≤ j → j < file2blk * m → ∀ x < 64, d.word (entryAt d.word f j + x) = 0

theorem Linked.entry (h : Linked d t f m lo hi) (hi_ : i < file2blk * m) :
    entryAt d.word f i = 1024 * pointer d.word f (i / file2blk) + 64 * (i % 16) ∧
      lo ≤ pointer d.word f (i / file2blk) ∧ pointer d.word f (i / file2blk) < hi ∧
      d.type (pointer d.word f (i / file2blk)) = t := by
  have inside := h.inside (i / file2blk) (Nat.div_lt_of_lt_mul hi_)
  have small : pointer d.word f (i / file2blk) < 1024 := inside.2.1.trans_le h.high
  refine ⟨?_, inside⟩
  rw [entryAt, blockWord, page, Nat.mod_eq_of_lt (by omega)]
  rfl

/-- The files of a directory do not overlap. -/
theorem Linked.entry_apart (h : Linked d t f m lo hi) {j : Nat} (hi_ : i < file2blk * m)
    (hj : j < file2blk * m) (first : entryAt d.word f i ≤ w) (last : w < entryAt d.word f i + 64)
    (first' : entryAt d.word f j ≤ w) (last' : w < entryAt d.word f j + 64) : i = j := by
  have place := (h.entry hi_).1
  have place' := (h.entry hj).1
  have same : pointer d.word f (i / file2blk) = pointer d.word f (j / file2blk) := by omega
  have block := h.apart _ (Nat.div_lt_of_lt_mul hi_) _ (Nat.div_lt_of_lt_mul hj) same
  simp only [file2blk] at block
  rw [place, same] at first last
  rw [place'] at first' last'
  omega

/-- Where a `struct File` stands. -/
def Struct (d : Image) (f : Nat) : Prop := f = sRoot ∨ f % 64 = 0 ∧ d.type (f / 1024) = .file

theorem Struct.plain {x : Nat} (h : Struct d f) (sane : Sane d) (inside : x < 64)
    (other : x < 34 ∨ 44 < x) : ¬ PointerWord d (f + x) := by
  rcases h with rfl | ⟨aligned, type⟩
  · have block : (sRoot + x) / 1024 = 1 := by
      unfold sRoot
      omega
    obtain ⟨index, file⟩ := sane.system 1 (by decide)
    rintro (is | ⟨is, -⟩ | ⟨low, high⟩)
    · rw [block] at is
      exact index is
    · rw [block] at is
      exact file is
    · unfold fDirect at low
      unfold fIndirect at high
      omega
  · have block : (f + x) / 1024 = f / 1024 := by omega
    rintro (is | ⟨-, low, high⟩ | ⟨low, high⟩)
    · rw [block, type] at is
      cases is
    · omega
    · unfold fDirect sRoot at low
      unfold fIndirect sRoot at high
      have first : f / 1024 = 1 := by omega
      rw [first] at type
      exact (sane.system 1 (by decide)).2 type

theorem Struct.extends (h : Struct d f) (ext : Extends P d d') (old : f / 1024 < d.nextbno) :
    Struct d' f := by
  refine h.imp id fun ⟨aligned, type⟩ => ⟨aligned, ?_⟩
  rw [ext.type _ old, type]

/-- The words that change when a directory gets blocks. -/
def Header (d : Image) (f w : Nat) : Prop := w = fSize f ∨ Links d f w

theorem linkAt_eq (h : Linked d t f m lo hi) (hi_ : i < m) :
    linkAt f i d = some (pointer d.word f i, d) := by
  unfold linkAt
  by_cases direct : i < ndirect
  · rw [if_pos direct, pointer_direct direct]
    rfl
  · have far : ndirect ≤ i := Nat.le_of_not_lt direct
    have many : ndirect < m := far.trans_lt hi_
    have small : d.word (fIndirect f) < 1024 := (h.index many).2.1.trans_le h.high
    rw [if_neg direct, pointer_indirect far (hi_.trans_le h.few) (h.index_pos many) small]
    show some (d.word (blockWord (d.word (fIndirect f)) i), d) = _
    rw [blockWord, page, Nat.mod_eq_of_lt (by omega)]

theorem unusedIn_eq (c : Nat → Nat) (f i : Nat) :
    unusedIn c (pointer c f i) = ((List.range file2blk).find? fun j =>
      cellByte c (4 * entryAt c f (file2blk * i + j)) == 0).map
        fun j => entryAt c f (file2blk * i + j) := by
  have place (j : Nat) (hj : j ∈ List.range file2blk) :
      blockWord (pointer c f i) (64 * j) = entryAt c f (file2blk * i + j) := by
    have small : j < 16 := List.mem_range.mp hj
    have block : (file2blk * i + j) / file2blk = i := by
      simp only [file2blk]
      omega
    have index : (file2blk * i + j) % file2blk = j := by
      simp only [file2blk]
      omega
    rw [entryAt, block, index]
  unfold unusedIn filesIn
  rw [List.map_congr_left place, List.find?_map]
  rfl

/-- The first file that is not in use. -/
theorem Listing.unusedIn {k : Nat} (h : Listing d f m k lo hi) (hi_ : i < m)
    (before : file2blk * i ≤ k) :
    unusedIn d.word (pointer d.word f i) =
      if file2blk * (i + 1) ≤ k then none else some (entryAt d.word f k) := by
  rw [unusedIn_eq]
  split
  · rename_i full
    have none_ : (List.range file2blk).find? (fun j =>
        cellByte d.word (4 * entryAt d.word f (file2blk * i + j)) == 0) = none := by
      rw [List.find?_eq_none]
      intro j hj
      have below : file2blk * i + j < k := by
        have small := List.mem_range.mp hj
        rw [Nat.mul_succ] at full
        omega
      have used := h.used _ below
      simpa using used
    rw [none_]
    rfl
  · rename_i open_
    have least : (List.range file2blk).find? (fun j =>
        cellByte d.word (4 * entryAt d.word f (file2blk * i + j)) == 0) =
          some (k - file2blk * i) := by
      have inside : k < file2blk * m := by
        simp only [file2blk] at open_ ⊢
        omega
      rw [List.find?_range_eq_some]
      refine ⟨?_, List.mem_range.mpr ?_, fun j hj => ?_⟩
      · have zero := h.empty k (Nat.le_refl k) inside 0 (by decide)
        rw [Nat.add_zero] at zero
        rw [Nat.add_sub_cancel' before, cellByte, Nat.mul_div_cancel_left _ (by decide), zero,
          Nat.zero_shiftRight]
        rfl
      · rw [Nat.mul_succ] at open_
        omega
      · have used := h.used (file2blk * i + j) (by omega)
        simpa using used
    rw [least, Option.map_some, Nat.add_sub_cancel' before]

/-- A directory that may have got more blocks. -/
structure Grown (d d' : Image) (f m m' : Nat) : Prop where
  le : m ≤ m'
  same : ∀ i < m, pointer d'.word f i = pointer d.word f i
  fresh : ∀ i, m ≤ i → i < m' → d.nextbno ≤ pointer d'.word f i
  index : d'.word (fIndirect f) = d.word (fIndirect f) ∨ d.nextbno ≤ d'.word (fIndirect f)

theorem Grown.refl (d : Image) (f m : Nat) : Grown d d f m m :=
  ⟨Nat.le_refl m, fun _ _ => rfl, fun _ low high => absurd high (Nat.not_lt.mpr low), .inl rfl⟩

theorem Grown.trans {m' m'' : Nat} (h : Grown d d' f m m') (h' : Grown d' d'' f m' m'')
    (next : d.nextbno ≤ d'.nextbno) : Grown d d'' f m m'' := by
  refine ⟨h.le.trans h'.le, fun i hi => ?_, fun i low high => ?_, ?_⟩
  · rw [h'.same i (hi.trans_le h.le), h.same i hi]
  · by_cases old : i < m'
    · rw [h'.same i old]
      exact h.fresh i low old
    · exact next.trans (h'.fresh i (Nat.le_of_not_lt old) high)
  · cases h'.index with
    | inl same =>
      rw [same]
      exact h.index
    | inr new => exact .inr (next.trans new)

theorem Grown.entryAt {m' j : Nat} (h : Grown d d' f m m') (hj : j < file2blk * m) :
    entryAt d'.word f j = entryAt d.word f j := by
  unfold Format.entryAt
  rw [h.same _ (Nat.div_lt_of_lt_mul hj)]

theorem Linked.size_apart (h : Linked d t f m lo hi) : ¬ Links d f (fSize f) := by
  have place := h.place
  have below := h.below
  rintro (⟨first, -⟩ | ⟨nonzero, block⟩)
  · unfold fSize fDirect at first
    omega
  · have many := h.many nonzero
    have low := (h.index many).1
    unfold fSize at block
    omega

theorem makeLinkBlock_listing (h : Listing d f m (file2blk * m) lo d.nextbno)
    (struct : Struct d f) (low : lo ≤ d.nextbno) (sane : Sane d)
    (run : makeLinkBlock f m d = some (b, d')) :
    Listing d' f (m + 1) (file2blk * m) lo d'.nextbno ∧
      entryAt d'.word f (file2blk * m) = blockWord b 0 ∧ Grown d d' f m (m + 1) ∧
      Extends (Header d f) d d' := by
  unfold makeLinkBlock at run
  obtain ⟨b', d₁, taken, run⟩ := bind_some_iff.mp run
  obtain ⟨⟨⟩, d₂, linked, run⟩ := bind_some_iff.mp run
  obtain ⟨size, d₃, loaded, run⟩ := bind_some_iff.mp run
  obtain ⟨⟨⟩, d₄, stored, last⟩ := bind_some_iff.mp run
  clear run
  cases loaded
  cases last
  obtain ⟨named, room, ext, next, word₁, type₁, loosen⟩ := nextBlock_some taken
  subst named
  have place := h.linked.place
  have below := h.linked.below
  have h₁ : Linked d₁ .file f m lo d.nextbno :=
    h.linked.congr (fun w _ => by rw [word₁]) fun b _ taken => ext.type b taken
  obtain ⟨h₂, pushed⟩ :=
    saveBlockLink_links h₁ low next (ext.sane sane) type₁ (loosen sane).1 linked
  obtain ⟨word', type', next'⟩ := store_some stored
  have keep (w : Nat) (hw : w ≠ fSize f) : d'.word w = d₂.word w := by
    rw [word', Function.update_of_ne hw]
  have links (w : Nat) (hw : Links d₂ f w) : d'.word w = d₂.word w := by
    apply keep
    rintro rfl
    exact h₂.size_apart hw
  have h' : Linked d' .file f (m + 1) lo d'.nextbno := by
    rw [next']
    exact h₂.congr links fun b _ _ => by rw [type']
  have same (i : Nat) (hi : i < m) : pointer d'.word f i = pointer d.word f i := by
    rw [h₂.congr_pointer links (hi.trans (Nat.lt_succ_self m)), pushed.same i hi, word₁]
  have new : pointer d'.word f m = d.nextbno := by
    rw [h₂.congr_pointer links (Nat.lt_succ_self m), pushed.last]
  have index : d'.word (fIndirect f) = d.word (fIndirect f) ∨
      d.nextbno ≤ d'.word (fIndirect f) := by
    have other : fIndirect f ≠ fSize f := by
      unfold fIndirect fSize
      omega
    rw [keep _ other, ← word₁]
    exact pushed.index.imp id Nat.le_of_lt
  -- the blocks with files do not change
  have kept (w : Nat) (low : lo ≤ w / 1024) (high : w / 1024 ≤ d.nextbno)
      (type : d₁.type (w / 1024) = .file) : d'.word w = d.word w := by
    have other : w ≠ fSize f := by
      unfold fSize
      omega
    rw [keep w other, pushed.rest.word w (by omega), word₁]
    apply h₁.no_link low
    rw [type]
    exact BlockType.noConfusion
  have grown : Grown d d' f m (m + 1) := by
    refine ⟨Nat.le_succ m, same, fun i low high => ?_, index⟩
    have last : i = m := Nat.le_antisymm (Nat.le_of_lt_succ high) low
    rw [last, new]
  refine ⟨⟨h', ?_, ?_, fun j hj => ?_, fun j low high x hx => ?_⟩, ?_, grown, ?_⟩
  · have few : m + 1 ≤ 1024 := h'.few
    have apart : ¬ Links d₁ f (fSize f) := h₁.size_apart
    have old : d₂.word (fSize f) = by2blk * m := by
      rw [pushed.rest.word _ (by unfold fSize; omega) apart, word₁, h.size]
    rw [word', Function.update_self, old, uInt, Nat.mod_eq_of_lt, Nat.mul_succ]
    simp only [by2blk]
    omega
  · exact Nat.mul_le_mul_left _ (Nat.le_succ m)
  · obtain ⟨place, low, high, type⟩ := h₁.entry hj
    rw [word₁] at place low high type
    have word : 4 * entryAt d.word f j / 4 = entryAt d.word f j :=
      Nat.mul_div_cancel_left _ (by decide)
    have block : entryAt d.word f j / 1024 = pointer d.word f (j / file2blk) := by omega
    have used := h.used j hj
    rw [grown.entryAt hj]
    unfold cellByte at used ⊢
    rw [word] at used ⊢
    rw [← block] at low high type
    rw [kept _ low high.le type]
    exact used
  · have place := (h'.entry high).1
    have block : j / file2blk = m := by
      simp only [file2blk] at low high ⊢
      omega
    rw [block, new] at place
    have at_ : (entryAt d'.word f j + x) / 1024 = d.nextbno := by omega
    rw [kept _ (by omega) at_.le (by rw [at_]; exact type₁)]
    exact sane.zero _ at_.ge
  · have block : file2blk * m / file2blk = m := Nat.mul_div_cancel_left m (by decide)
    have first : file2blk * m % file2blk = 0 := Nat.mul_mod_right _ _
    rw [Format.entryAt, block, first, new]
  · have inside : fSize f / 1024 < d₂.nextbno := by
      have grew := pushed.rest.next
      unfold fSize
      omega
    have struct₂ := (struct.extends ext (by omega)).extends pushed.rest (by omega)
    have near : Extends (Header d f) d d₁ := ext.mono fun _ _ no => no.elim
    apply (near.trans pushed.rest fun w _ links => .inr ?_).trans
      (store_ends inside (fun sane₂ => .inl (struct₂.plain sane₂ (by decide) (by decide))) stored)
    · exact fun w _ same => .inl same
    · unfold Links at links ⊢
      rwa [word₁] at links

theorem createFileFrom_listing {n k : Nat} (h : Listing d f m k lo d.nextbno)
    (struct : Struct d f) (low : lo ≤ d.nextbno) (sane : Sane d) (turns : i + n = m)
    (before : file2blk * i ≤ k)
    (run : createFileFrom f n i d = some (g, d')) :
    Listing d' f (max m (k / file2blk + 1)) k lo d'.nextbno ∧ g = entryAt d'.word f k ∧
      Grown d d' f m (max m (k / file2blk + 1)) ∧ Extends (Header d f) d d' := by
  induction n generalizing i with
  | zero =>
    rw [Nat.add_zero] at turns
    subst turns
    have full : k = file2blk * i := Nat.le_antisymm h.room before
    subst full
    unfold createFileFrom at run
    obtain ⟨b, d₁, linked, last⟩ := bind_some_iff.mp run
    cases last
    obtain ⟨listing, first, grown, ext⟩ := makeLinkBlock_listing h struct low sane linked
    have more : max i (file2blk * i / file2blk + 1) = i + 1 := by
      rw [Nat.mul_div_cancel_left _ (by decide)]
      exact max_eq_right (Nat.le_succ i)
    rw [more]
    exact ⟨listing, first.symm, grown, ext⟩
  | succ n ih =>
    have inside : i < m := by omega
    unfold createFileFrom at run
    rw [bind_some_iff] at run
    obtain ⟨b, d₁, linked, run⟩ := run
    rw [linkAt_eq h.linked inside] at linked
    cases linked
    obtain ⟨e, e', got, run⟩ := bind_some_iff.mp run
    cases got
    rw [h.unusedIn inside before] at run
    by_cases full : file2blk * (i + 1) ≤ k
    · rw [if_pos full] at run
      exact ih (by omega) full run
    · rw [if_neg full] at run
      cases run
      have same : max m (k / file2blk + 1) = m := by
        simp only [file2blk] at full ⊢
        omega
      rw [same]
      exact ⟨h, rfl, Grown.refl _ f m, Extends.refl _ _⟩

theorem createFile_listing {k : Nat} (h : Listing d f (dirBlocks k) k lo d.nextbno)
    (struct : Struct d f) (low : lo ≤ d.nextbno) (sane : Sane d)
    (run : createFile f d = some (g, d')) :
    Listing d' f (dirBlocks (k + 1)) k lo d'.nextbno ∧ g = entryAt d'.word f k ∧
      Grown d d' f (dirBlocks k) (dirBlocks (k + 1)) ∧ Extends (Header d f) d d' := by
  unfold createFile at run
  obtain ⟨size, d₁, loaded, run⟩ := bind_some_iff.mp run
  cases loaded
  rw [h.size, Nat.mul_div_cancel_left _ (by decide)] at run
  rw [← dirBlocks_succ]
  exact createFileFrom_listing h struct low sane (Nat.zero_add _) (Nat.zero_le k) run

/-! ## What is written into a `struct File` -/

def InSlot (g w : Nat) : Prop := g ≤ w ∧ w < g + 64

/-- A `struct File` of zeros. -/
structure Blank (d : Image) (g : Nat) : Prop where
  struct : Struct d g
  place : g % 1024 ≤ 960
  below : g / 1024 < d.nextbno
  zero : ∀ x < 64, d.word (g + x) = 0

/-- The name of a file, with its `NUL`. -/
def Named (c : Nat → Nat) (f : Nat) (name : List Nat) : Prop :=
  name.length < maxnamelen ∧ ∀ i ≤ name.length, cellByte c (4 * f + i) = name.getD i 0

theorem Listing.blank {k : Nat} (h : Listing d f m k lo hi) (inside : k < file2blk * m)
    (taken : hi ≤ d.nextbno) : Blank d (entryAt d.word f k) := by
  obtain ⟨place, low, high, type⟩ := h.linked.entry inside
  have block : entryAt d.word f k / 1024 = pointer d.word f (k / file2blk) := by omega
  refine ⟨.inr ⟨by omega, ?_⟩, by omega, by omega, h.empty k (Nat.le_refl k) inside⟩
  rw [block, type]

/-- The file is in use, and the directory is what it was otherwise. -/
theorem Listing.fill {k : Nat} (h : Listing d f m k lo hi) (inside : k < file2blk * m)
    (taken : hi ≤ d.nextbno) (ext : Extends (InSlot (entryAt d.word f k)) d d')
    (used : cellByte d'.word (4 * entryAt d.word f k) ≠ 0) :
    Listing d' f m (k + 1) lo hi ∧ Grown d d' f m m := by
  obtain ⟨at_, low, high, type⟩ := h.linked.entry inside
  have place := h.linked.place
  have below := h.linked.below
  have links (w : Nat) (hw : Links d f w) : d'.word w = d.word w := by
    apply ext.word w
    · exact h.linked.links_below (by omega) taken hw
    · rintro ⟨first, last⟩
      have block : w / 1024 = pointer d.word f (k / file2blk) := by omega
      apply h.linked.no_link (w := w) _ _ hw
      · rw [block]
        exact low
      · rw [block, type]
        exact BlockType.noConfusion
  have linked := h.linked.congr links fun b _ high => ext.type b (high.trans_le taken)
  have grown : Grown d d' f m m := by
    refine ⟨Nat.le_refl m, fun i hi => h.linked.congr_pointer links hi,
      fun _ low high => absurd high (Nat.not_lt.mpr low), .inl (links _ (.inl ⟨?_, Nat.le_refl _⟩))⟩
    unfold fDirect fIndirect
    omega
  have entry (j : Nat) (hj : j < file2blk * m) : entryAt d'.word f j = entryAt d.word f j :=
    grown.entryAt hj
  -- the other files
  have other (j : Nat) (hj : j < file2blk * m) (away : j ≠ k) (x : Nat) (hx : x < 64) :
      d'.word (entryAt d.word f j + x) = d.word (entryAt d.word f j + x) := by
    obtain ⟨at', low', high', -⟩ := h.linked.entry hj
    apply ext.word
    · omega
    · rintro ⟨first, last⟩
      exact away (h.linked.entry_apart hj inside (Nat.le_add_right _ x) (by omega) first last)
  refine ⟨⟨linked, ?_, inside, fun j hj => ?_, fun j low high x hx => ?_⟩, grown⟩
  · rw [ext.word, h.size]
    · unfold fSize
      omega
    · unfold fSize
      rintro ⟨first, last⟩
      omega
  · have inside' : j < file2blk * m := by omega
    rw [entry j inside']
    rcases Nat.lt_succ_iff_lt_or_eq.mp hj with old | rfl
    · have byte := h.used j old
      have kept := other j inside' (Nat.ne_of_lt old) 0 (by decide)
      have word : 4 * entryAt d.word f j / 4 = entryAt d.word f j :=
        Nat.mul_div_cancel_left _ (by decide)
      unfold cellByte at byte ⊢
      rw [Nat.add_zero] at kept
      rw [word] at byte ⊢
      rwa [kept]
    · exact used
  · rw [entry j high, other j high (by omega) x hx]
    exact h.empty j (by omega) high x hx

/-- The bytes of a name are put into a blank `struct File`. -/
theorem Blank.putBytes {bytes : List Nat} (h : Blank d g) (fits : bytes.length ≤ maxnamelen)
    (run : putBytes (4 * g) bytes d = some ((), d')) :
    (∀ i < maxnamelen, cellByte d'.word (4 * g + i) = bytes.getD i 0 % 256) ∧
      (∀ x, 32 ≤ x → x < 64 → d'.word (g + x) = 0) ∧ d'.nextbno = d.nextbno ∧
      Extends (InSlot g) d d' := by
  have place := h.place
  have below := h.below
  obtain ⟨c, run', byte, word⟩ := putBytes_eq (4 * g) bytes d
  rw [run'] at run
  cases run
  have fits : bytes.length ≤ 128 := fits
  refine ⟨fun i hi => ?_, fun x low high => ?_, rfl, ?_⟩
  · have hi : i < 128 := hi
    show cellByte c _ = _
    rw [byte]
    by_cases inside : i < bytes.length
    · rw [if_pos ⟨Nat.le_add_right _ i, Nat.add_lt_add_left inside _⟩, Nat.add_sub_cancel_left]
    · have zero := h.zero (i / 4) (by omega)
      have at_ : (4 * g + i) / 4 = g + i / 4 := by omega
      rw [if_neg (by omega), cellByte, at_, zero, Nat.zero_shiftRight,
        List.getD_eq_default _ _ (Nat.le_of_not_lt inside)]
  · show c _ = 0
    rw [word _ fun j low' high' => by omega]
    exact h.zero x high
  · refine (putBytes_extends (fun j low high => ?_) (fun sane j low high => ?_) run').mono ?_
    · omega
    · have at_ : j / 4 = g + (j / 4 - g) := by omega
      rw [at_]
      exact h.struct.plain sane (by omega) (by omega)
    · rintro w - ⟨j, low, high, rfl⟩
      exact ⟨by omega, by omega⟩

/-- A file with its contents, in blocks from `lo` on and below `hi`. -/
structure FileIn (d : Image) (g : Nat) (name content : List Nat) (lo hi : Nat) : Prop where
  named : Named d.word g name
  size : d.word (fSize g) = content.length
  type : d.word (fType g) = 0
  linked : Linked d .data g (blocksOf content.length) lo hi
  shows : ∀ i < blocksOf content.length,
    Shows d (pointer d.word g i) (content.drop (by2blk * i))

/-- A name of a file of the host. -/
def HostName (name : List Nat) : Prop := name ≠ [] ∧ ∀ b ∈ name, b ≠ 0 ∧ b < 256

theorem Named.congr {name : List Nat} {c c' : Nat → Nat} (h : Named c g name)
    (same : ∀ x < 32, c' (g + x) = c (g + x)) : Named c' g name := by
  refine ⟨h.1, fun i hi => ?_⟩
  have short : i < 128 := Nat.lt_of_le_of_lt hi h.1
  have at_ : (4 * g + i) / 4 = g + i / 4 := by omega
  rw [← h.2 i hi, cellByte, cellByte, at_, same _ (by omega)]

theorem Named.used {name : List Nat} {c : Nat → Nat} (h : Named c g name) (host : HostName name) :
    cellByte c (4 * g) ≠ 0 := by
  cases name with
  | nil => exact absurd rfl host.1
  | cons b name =>
    have first := h.2 0 (Nat.zero_le _)
    rw [Nat.add_zero, List.getD_cons_zero] at first
    rw [first]
    exact (host.2 b List.mem_cons_self).1

theorem HostName.take {name : List Nat} (host : HostName name) : HostName (name.take 127) := by
  refine ⟨fun none_ => ?_, fun b hb => host.2 b (List.mem_of_mem_take hb)⟩
  rw [List.take_eq_nil_iff] at none_
  exact none_.elim (fun no => absurd no (by decide)) host.1

theorem putName {name pad : List Nat} (host : HostName name) (short : name.length < maxnamelen)
    (zeros : ∀ b ∈ pad, b = 0)
    (byte : ∀ i < maxnamelen, cellByte d.word (4 * g + i) = (name ++ pad).getD i 0 % 256) :
    Named d.word g name := by
  refine ⟨short, fun i hi => ?_⟩
  rw [byte i (Nat.lt_of_le_of_lt hi short)]
  by_cases inside : i < name.length
  · rw [List.getD_append _ _ _ _ inside, List.getD_eq_getElem _ _ inside]
    exact Nat.mod_eq_of_lt (host.2 _ (List.getElem_mem inside)).2
  · have behind : (name ++ pad).getD i 0 = 0 := by
      rw [List.getD_append_right _ _ _ _ (Nat.le_of_not_lt inside), List.getD_eq_getElem?_getD]
      cases found : pad[i - name.length]? with
      | none => rfl
      | some b => exact zeros b (List.mem_of_getElem? found)
    rw [behind, List.getD_eq_default _ _ (Nat.le_of_not_lt inside)]

/-- A blank `struct File` gets its name, size and type. -/
theorem Blank.header {name : List Nat} {n : Nat} {d₁ d₂ : Image} (blank : Blank d g)
    (host : HostName name) (short : name.length < maxnamelen)
    (put : Format.putBytes (4 * g) (name ++ [0]) d = some ((), d₁))
    (sized : store (fSize g) n d₁ = some ((), d₂)) (typed : store (fType g) 0 d₂ = some ((), d')) :
    Extends (InSlot g) d d' ∧ Named d'.word g name ∧ d'.word (fSize g) = uInt n ∧
      d'.word (fType g) = 0 ∧ d'.word (fIndirect g) = 0 := by
  have place := blank.place
  have below := blank.below
  have fits : (name ++ [0]).length ≤ maxnamelen := by
    rw [List.length_append]
    exact short
  obtain ⟨byte, zero, next₁, ext₁⟩ := blank.putBytes fits put
  have named := putName host short (by simp) byte
  obtain ⟨word₂, type₂, next₂⟩ := store_some sized
  obtain ⟨word₃, type₃, next₃⟩ := store_some typed
  have own {x : Nat} (hx : x < 64) : InSlot g (g + x) :=
    ⟨Nat.le_add_right g x, Nat.add_lt_add_left hx g⟩
  have ext₂ : Extends (InSlot g) d d₂ := by
    have plain (sane : Sane d₁) : Harmless d₁ (fSize g) n :=
      .inl ((blank.struct.extends ext₁ below).plain sane (by decide) (by decide))
    apply ext₁.trans (store_ends (by unfold fSize; omega) plain sized)
    rintro w - rfl
    exact own (by decide)
  have ext₃ : Extends (InSlot g) d d' := by
    have plain (sane : Sane d₂) : Harmless d₂ (fType g) 0 :=
      .inl ((blank.struct.extends ext₂ below).plain sane (by decide) (by decide))
    apply ext₂.trans (store_ends (by unfold fType; omega) plain typed)
    rintro w - rfl
    exact own (by decide)
  have keep (x : Nat) (size : x ≠ 32) (type : x ≠ 33) : d'.word (g + x) = d₁.word (g + x) := by
    rw [word₃, Function.update_of_ne (by unfold fType; omega), word₂,
      Function.update_of_ne (by unfold fSize; omega)]
  refine ⟨ext₃, named.congr fun x hx => keep x (by omega) (by omega), ?_, ?_, ?_⟩
  · rw [word₃, Function.update_of_ne (by unfold fSize fType; omega), word₂, Function.update_self]
  · rw [word₃, Function.update_self]
    rfl
  · unfold fIndirect
    rw [keep 44 (by decide) (by decide), zero 44 (by decide) (by decide)]

theorem writeFile_fileIn {name content : List Nat} (host : HostName name)
    (small : ∀ b ∈ content, b < 256) (run : writeFile f name content d = some ((), d')) :
    ∃ g d₁, createFile f d = some (g, d₁) ∧ (Blank d₁ g → Sane d₁ →
      FileIn d' g name content d₁.nextbno d'.nextbno ∧ Extends (InSlot g) d₁ d') := by
  unfold writeFile at run
  obtain ⟨g, d₁, created, run⟩ := bind_some_iff.mp run
  refine ⟨g, d₁, created, fun blank sane₁ => ?_⟩
  have place := blank.place
  have below := blank.below
  split at run
  · cases run
  · rename_i short
    obtain ⟨⟨⟩, d₂, put, run⟩ := bind_some_iff.mp run
    obtain ⟨⟨⟩, d₃, sized, run⟩ := bind_some_iff.mp run
    obtain ⟨⟨⟩, d₄, typed, run⟩ := bind_some_iff.mp run
    obtain ⟨ext₄, named, size, type, index⟩ :=
      blank.header host (Nat.lt_of_not_le short) put sized typed
    have sane₄ := ext₄.sane sane₁
    have linked : Linked d₄ .data g 0 d₁.nextbno d₄.nextbno :=
      Linked.empty place below sane₁.low sane₄.high index
    have turns : content.length ≤ by2blk * (content.length / by2blk + 1) := by
      simp only [by2blk]
      omega
    obtain ⟨linked', -, shows, ext'⟩ :=
      writeBlocks_links turns linked (ext₄.next) sane₄ small run
    rw [Nat.zero_add] at linked'
    have links (w : Nat) (hw : Links d₄ g w) : fDirect g 0 ≤ w ∧ w ≤ fIndirect g :=
      hw.resolve_right fun index' => index'.1 index
    have stays (x : Nat) (hx : x < 34) : d'.word (g + x) = d₄.word (g + x) := by
      apply ext'.word
      · have grown := ext₄.next
        omega
      · intro hw
        have first := (links _ hw).1
        unfold fDirect at first
        omega
    refine ⟨⟨named.congr fun x hx => stays x (by omega), ?_, ?_, linked', fun i hi => ?_⟩, ?_⟩
    · have few : blocksOf content.length ≤ 1024 := linked'.few
      refine (stays 32 (by decide)).trans (size.trans (Nat.mod_eq_of_lt ?_))
      simp only [blocksOf, by2blk] at few
      omega
    · exact (stays 33 (by decide)).trans type
    · have here := shows i hi
      rwa [Nat.zero_add] at here
    · apply ext₄.trans ext'
      rintro w - hw
      obtain ⟨first, last⟩ := links w hw
      unfold fDirect at first
      unfold fIndirect at last
      exact ⟨by omega, by omega⟩

/-- A directory before its first file is written. -/
theorem makeDirectory_named {name : List Nat} (host : HostName name)
    (run : makeDirectory f name d = some (g, d')) :
    ∃ d₁, createFile f d = some (g, d₁) ∧ (Blank d₁ g → Sane d₁ →
      Named d'.word g (name.take 127) ∧ IsDir d'.word g ∧
        Listing d' g 0 0 d₁.nextbno d'.nextbno ∧ d'.nextbno = d₁.nextbno ∧
        Extends (InSlot g) d₁ d') := by
  unfold makeDirectory at run
  obtain ⟨g', d₁, created, run⟩ := bind_some_iff.mp run
  obtain ⟨⟨⟩, d₂, put, run⟩ := bind_some_iff.mp run
  obtain ⟨e, e', got, run⟩ := bind_some_iff.mp run
  cases got
  split at run
  · cases run
  · obtain ⟨⟨⟩, d₃, typed, last⟩ := bind_some_iff.mp run
    clear run
    cases last
    refine ⟨d₁, created, fun blank sane => ?_⟩
    have place := blank.place
    have below := blank.below
    have short : (name.take 127).length ≤ 127 := List.length_take_le _ _
    have fits :
        (name.take 127 ++ List.replicate (127 - name.length) 0).length ≤ maxnamelen := by
      rw [List.length_append, List.length_take, List.length_replicate]
      unfold maxnamelen
      omega
    obtain ⟨byte, zero, next₂, ext₂⟩ := blank.putBytes fits put
    have named₂ := putName host.take (Nat.lt_succ_of_le short)
      (fun b hb => List.eq_of_mem_replicate hb) byte
    obtain ⟨word₃, type₃, next₃⟩ := store_some typed
    have keep (x : Nat) (type : x ≠ 33) : d'.word (g + x) = d₂.word (g + x) := by
      rw [word₃, Function.update_of_ne (by unfold fType; omega)]
    have ext : Extends (InSlot g) d₁ d' := by
      have plain (sane : Sane d₂) : Harmless d₂ (fType g) ftypeDir :=
        .inl ((blank.struct.extends ext₂ below).plain sane (by decide) (by decide))
      apply ext₂.trans (store_ends (by unfold fType; omega) plain typed)
      rintro w - rfl
      exact ⟨Nat.le_add_right g 33, Nat.add_lt_add_left (by decide) g⟩
    have index : d'.word (fIndirect g) = 0 := by
      unfold fIndirect
      rw [keep 44 (by decide), zero 44 (by decide) (by decide)]
    have linked : Linked d' .file g 0 d₁.nextbno d'.nextbno :=
      Linked.empty place below sane.low (ext.sane sane).high index
    refine ⟨named₂.congr fun x hx => keep x (by omega), ?_, ⟨linked, ?_, Nat.zero_le _, ?_, ?_⟩,
      next₃.trans next₂, ext⟩
    · unfold IsDir
      rw [word₃, Function.update_self]
      rfl
    · unfold fSize
      rw [keep 32 (by decide), zero 32 (by decide) (by decide)]
      rfl
    · exact fun _ no => absurd no (Nat.not_lt_zero _)
    · exact fun _ _ no => absurd no (Nat.not_lt_zero _)

/-! ## The entries of a directory -/

/-- The words that change when more files are written into a directory. -/
def Mine (d : Image) (f m k w : Nat) : Prop :=
  Header d f w ∨ ∃ j, k ≤ j ∧ j < file2blk * m ∧ InSlot (entryAt d.word f j) w

theorem Mine.below {k : Nat} (h : Listing d f m k lo hi) (low : lo ≤ hi) (mine : Mine d f m k w) :
    w / 1024 < hi := by
  rcases mine with (rfl | links) | ⟨j, -, inside, first, last⟩
  · have place := h.linked.place
    have below := h.linked.below
    unfold fSize
    omega
  · exact h.linked.links_below low (Nat.le_refl hi) links
  · obtain ⟨at_, -, high, -⟩ := h.linked.entry inside
    omega

/-- They are not those of the files in use. -/
theorem Mine.apart {k j : Nat} (h : Listing d f m k lo hi) (hj : j < k) (mine : Mine d f m k w) :
    ¬ InSlot (entryAt d.word f j) w := by
  rintro ⟨first, last⟩
  have inside := hj.trans_le h.room
  obtain ⟨at_, low, -, type⟩ := h.linked.entry inside
  have block : w / 1024 = pointer d.word f (j / file2blk) := by omega
  rcases mine with (rfl | links) | ⟨i, later, inside', first', last'⟩
  · have place := h.linked.place
    have below := h.linked.below
    unfold fSize at block
    omega
  · apply h.linked.no_link (w := w) _ _ links
    · rw [block]
      exact low
    · rw [block, type]
      exact BlockType.noConfusion
  · have same := h.linked.entry_apart inside inside' first last first' last'
    omega

theorem Mine.grown {m' k k' : Nat} (grown : Grown d d' f m m') (h : Linked d' .file f m' lo hi)
    (le : k ≤ k') (old : w / 1024 < d.nextbno) (mine : Mine d' f m' k' w) : Mine d f m k w := by
  rcases mine with (rfl | direct | ⟨nonzero, block⟩) | ⟨j, later, inside, first, last⟩
  · exact .inl (.inl rfl)
  · exact .inl (.inr (.inl direct))
  · cases grown.index with
    | inl same =>
      rw [same] at nonzero block
      exact .inl (.inr (.inr ⟨nonzero, block⟩))
    | inr new => omega
  · by_cases there : j < file2blk * m
    · rw [grown.entryAt there] at first last
      exact .inr ⟨j, le.trans later, there, first, last⟩
    · have at_ := (h.entry inside).1
      have block : m ≤ j / file2blk ∧ j / file2blk < m' := by
        simp only [file2blk] at there inside ⊢
        omega
      have new := grown.fresh (j / file2blk) block.1 block.2
      omega

theorem Listing.mono {k hi' : Nat} (h : Listing d f m k lo hi) (le : hi ≤ hi')
    (high : hi' ≤ numBlock) : Listing d f m k lo hi' :=
  ⟨h.linked.mono le high, h.size, h.room, h.used, h.empty⟩

/-- A directory into which file `k` is written next, with its blocks from `lo` on. -/
structure Filling (d : Image) (f k lo : Nat) : Prop where
  listing : Listing d f (dirBlocks k) k lo d.nextbno
  struct : Struct d f
  low : lo ≤ d.nextbno
  sane : Sane d

/-- File `k` of a directory was written, with its own blocks from `b` on. -/
structure Entered (d d' : Image) (f k lo b : Nat) : Prop where
  low : lo ≤ b
  taken : b ≤ d'.nextbno
  listing : Listing d' f (dirBlocks (k + 1)) (k + 1) lo b
  grown : Grown d d' f (dirBlocks k) (dirBlocks (k + 1))
  ext : Extends (Mine d f (dirBlocks k) k) d d'

/-- A `struct File` is found and filled. -/
theorem Filling.step {k : Nat} {d₁ : Image} (h : Filling d f k lo)
    (created : createFile f d = some (g, d₁)) :
    Blank d₁ g ∧ Sane d₁ ∧
      ∀ d', Extends (InSlot g) d₁ d' → cellByte d'.word (4 * g) ≠ 0 →
        Entered d d' f k lo d₁.nextbno ∧ entryAt d'.word f k = g := by
  obtain ⟨listing, rfl, grown, ext⟩ := createFile_listing h.listing h.struct h.low h.sane created
  have inside : k < file2blk * dirBlocks (k + 1) := by
    simp only [dirBlocks, file2blk]
    omega
  refine ⟨listing.blank inside (Nat.le_refl _), ext.sane h.sane, fun d' filled used => ?_⟩
  obtain ⟨listing', stays⟩ := listing.fill inside (Nat.le_refl _) filled used
  refine ⟨⟨h.low.trans ext.next, filled.next, listing', grown.trans stays ext.next, ?_⟩,
    stays.entryAt inside⟩
  apply (ext.mono fun _ _ header => .inl header).trans filled
  intro w old slot
  exact Mine.grown grown listing.linked (Nat.le_refl k) old
    (.inr ⟨k, Nat.le_refl k, inside, slot⟩)

theorem Filling.entered {k b : Nat} (h : Filling d f k lo) (entered : Entered d d' f k lo b) :
    Filling d' f (k + 1) lo := by
  have sane := entered.ext.sane h.sane
  exact ⟨entered.listing.mono entered.taken sane.high,
    h.struct.extends entered.ext (h.listing.linked.below.trans_le h.low),
    entered.low.trans entered.taken, sane⟩

/-- A file is written. -/
theorem Filling.file {k : Nat} {name content : List Nat} (h : Filling d f k lo)
    (host : HostName name) (small : ∀ b ∈ content, b < 256)
    (run : writeFile f name content d = some ((), d')) :
    ∃ b, Entered d d' f k lo b ∧
      FileIn d' (entryAt d'.word f k) name content b d'.nextbno := by
  obtain ⟨g, d₁, created, fills⟩ := writeFile_fileIn host small run
  obtain ⟨blank, sane, step⟩ := h.step created
  obtain ⟨file, filled⟩ := fills blank sane
  obtain ⟨entered, rfl⟩ := step d' filled (file.named.used host)
  exact ⟨d₁.nextbno, entered, file⟩

/-- The number of files and directories. -/
def Entries.count : Entries → Nat
  | .nil => 0
  | .file _ _ rest => rest.count + 1
  | .dir _ _ rest => rest.count + 1

/-- Names and contents as the host has them. -/
def Entries.Hosted : Entries → Prop
  | .nil => True
  | .file name content rest => HostName name ∧ (∀ b ∈ content, b < 256) ∧ rest.Hosted
  | .dir name entries rest => HostName name ∧ entries.Hosted ∧ rest.Hosted

/-- The files of a directory from file `k` on are the entries, with blocks from `lo` on and
below `hi`. -/
def Holds (d : Image) (f k lo hi : Nat) : Entries → Prop
  | .nil => True
  | .file name content rest =>
    (∃ lo', lo ≤ lo' ∧ FileIn d (entryAt d.word f k) name content lo' hi) ∧
      Holds d f (k + 1) lo hi rest
  | .dir name entries rest =>
    (Named d.word (entryAt d.word f k) (name.take 127) ∧ IsDir d.word (entryAt d.word f k) ∧
      ∃ lo', lo ≤ lo' ∧
        Listing d (entryAt d.word f k) (dirBlocks entries.count) entries.count lo' hi ∧
        Holds d (entryAt d.word f k) 0 lo' hi entries) ∧
      Holds d f (k + 1) lo hi rest

theorem Agree.sub {x lo' : Nat} (h : Agree d d' f lo hi)
    (own : ∀ y < 64, d'.word (x + y) = d.word (x + y)) (low : lo ≤ lo') : Agree d d' x lo' hi :=
  ⟨own, fun w first => h.word w (low.trans first), fun b first => h.type b (low.trans first)⟩

theorem FileIn.agree {name content : List Nat} {hi' : Nat} (h : FileIn d g name content lo hi)
    (agree : Agree d d' g lo hi) (le : hi ≤ hi') (high : hi' ≤ numBlock) :
    FileIn d' g name content lo hi' := by
  refine ⟨h.named.congr fun x hx => agree.own x (by omega), ?_, ?_,
    (h.linked.agree agree).mono le high, fun i hi => ?_⟩
  · rw [← h.size]
    exact agree.own 32 (by decide)
  · rw [← h.type]
    exact agree.own 33 (by decide)
  · obtain ⟨low, below, -⟩ := h.linked.inside i hi
    rw [h.linked.agree_pointer agree hi]
    apply (h.shows i hi).congr
    intro w hw
    exact agree.word w (by rw [hw]; exact low) (by rw [hw]; exact below)

/-- A directory that agrees has the same files. -/
theorem Listing.agree_entry {k j : Nat} (h : Listing d f m k lo hi) (agree : Agree d d' f lo hi)
    (hj : j < file2blk * m) :
    entryAt d'.word f j = entryAt d.word f j ∧
      ∀ x < 64, d'.word (entryAt d.word f j + x) = d.word (entryAt d.word f j + x) := by
  obtain ⟨at_, low, high, -⟩ := h.linked.entry hj
  constructor
  · unfold entryAt
    rw [h.linked.agree_pointer agree (Nat.div_lt_of_lt_mul hj)]
  · intro x hx
    exact agree.word _ (by omega) (by omega)

theorem Listing.agree {k hi' : Nat} (h : Listing d f m k lo hi) (agree : Agree d d' f lo hi)
    (le : hi ≤ hi') (high : hi' ≤ numBlock) : Listing d' f m k lo hi' := by
  refine ⟨(h.linked.agree agree).mono le high, ?_, h.room, fun j hj => ?_,
    fun j low inside x hx => ?_⟩
  · rw [← h.size]
    exact agree.own 32 (by decide)
  · obtain ⟨entry, words⟩ := h.agree_entry agree (hj.trans_le h.room)
    have used := h.used j hj
    have word : 4 * entryAt d.word f j / 4 = entryAt d.word f j :=
      Nat.mul_div_cancel_left _ (by decide)
    have kept := words 0 (by decide)
    rw [Nat.add_zero] at kept
    unfold cellByte at used ⊢
    rw [entry, word, kept]
    rwa [word] at used
  · obtain ⟨entry, words⟩ := h.agree_entry agree inside
    rw [entry, words x hx]
    exact h.empty j low inside x hx

theorem Holds.agree {entries : Entries} {k n lo' hi' : Nat} (holds : Holds d f k lo hi entries)
    (h : Listing d f m n lo hi) (agree : Agree d d' f lo hi) (all : k + entries.count ≤ n)
    (low : lo' ≤ lo) (le : hi ≤ hi') (high : hi' ≤ numBlock) : Holds d' f k lo' hi' entries := by
  induction entries generalizing f m k n lo lo' with
  | nil => trivial
  | file name content rest ih =>
    obtain ⟨⟨from_, first, file⟩, later⟩ := holds
    rw [Entries.count] at all
    have inside : k < file2blk * m := by
      have room := h.room
      omega
    obtain ⟨entry, words⟩ := h.agree_entry agree inside
    refine ⟨⟨from_, low.trans first, ?_⟩, ih later h agree (by omega) low⟩
    rw [entry]
    exact file.agree (agree.sub words first) le high
  | dir name entries rest ih ih' =>
    obtain ⟨⟨named, isDir, from_, first, listing, inner⟩, later⟩ := holds
    rw [Entries.count] at all
    have inside : k < file2blk * m := by
      have room := h.room
      omega
    obtain ⟨entry, words⟩ := h.agree_entry agree inside
    have agree' := agree.sub words first
    refine ⟨?_, ih' later h agree (by omega) low⟩
    rw [entry]
    refine ⟨named.congr fun x hx => words x (by omega), ?_, from_, low.trans first,
      listing.agree agree' le high, ih inner listing agree' (by omega) (Nat.le_refl _)⟩
    unfold IsDir at isDir ⊢
    rw [← isDir]
    exact words 33 (by decide)

/-- What is written later leaves a file of the directory, and the blocks it took, as they are. -/
theorem Listing.later {k : Nat} (h : Listing d f m (k + 1) lo hi) (low : lo ≤ hi)
    (taken : hi ≤ d.nextbno) (ext : Extends (Mine d f m (k + 1)) d d') :
    Agree d d' (entryAt d.word f k) hi d.nextbno := by
  obtain ⟨at_, -, below, -⟩ := h.linked.entry h.room
  apply ext.agree (by omega) (by omega) (Nat.le_refl _)
  · intro x hx mine
    exact Mine.apart h (Nat.lt_succ_self k) mine ⟨Nat.le_add_right _ x, Nat.add_lt_add_left hx _⟩
  · intro w first _ mine
    exact absurd (Mine.below h low mine) (Nat.not_lt.mpr first)

/-- Nor does it take words of the directory that were not its own before. -/
theorem Entered.rest {k k' b : Nat} (h : Entered d d' f k lo b)
    (grown : Grown d' d'' f (dirBlocks (k + 1)) (dirBlocks k'))
    (ext : Extends (Mine d' f (dirBlocks (k + 1)) (k + 1)) d' d'') :
    Agree d' d'' (entryAt d'.word f k) b d'.nextbno ∧ entryAt d''.word f k = entryAt d'.word f k ∧
      Grown d d'' f (dirBlocks k) (dirBlocks k') ∧ Extends (Mine d f (dirBlocks k) k) d d'' := by
  refine ⟨h.listing.later h.low h.taken ext, grown.entryAt h.listing.room,
    h.grown.trans grown h.ext.next, ?_⟩
  apply h.ext.trans ext
  intro w old mine
  exact Mine.grown h.grown h.listing.linked (Nat.le_succ k) old mine

theorem Mine.own (h : Listing d f 0 0 lo hi) (mine : Mine d f 0 0 w) :
    InSlot f w ∧ (w = f + 32 ∨ f + 34 ≤ w) := by
  rcases mine with (rfl | ⟨first, last⟩ | ⟨nonzero, -⟩) | ⟨j, -, inside, -⟩
  · exact ⟨⟨Nat.le_add_right f 32, Nat.add_lt_add_left (by decide) f⟩, .inl rfl⟩
  · unfold fDirect at first
    unfold fIndirect at last
    exact ⟨⟨by omega, by omega⟩, .inr (by omega)⟩
  · exact absurd (h.linked.direct (Nat.zero_le _)) nonzero
  · exact absurd inside (Nat.not_lt_zero _)

/-- A directory is made, and filled. -/
theorem Filling.dir {k : Nat} {name : List Nat} (h : Filling d f k lo) (host : HostName name)
    (made : makeDirectory f name d = some (g, d')) :
    ∃ b, Filling d' g 0 b ∧ ∀ d'', Extends (Mine d' g 0 0) d' d'' →
      Entered d d'' f k lo b ∧ entryAt d''.word f k = g ∧ Named d''.word g (name.take 127) ∧
        IsDir d''.word g := by
  obtain ⟨d₁, created, makes⟩ := makeDirectory_named host made
  obtain ⟨blank, sane, step⟩ := h.step created
  obtain ⟨named, isDir, empty, next, filled⟩ := makes blank sane
  refine ⟨d₁.nextbno, ⟨empty, blank.struct.extends filled blank.below, next.ge, filled.sane sane⟩,
    fun d'' ext => ?_⟩
  -- the directory keeps its name and type
  have stays (x : Nat) (hx : x < 32 ∨ x = 33) : d''.word (g + x) = d'.word (g + x) := by
    have place := blank.place
    have below := blank.below
    apply ext.word
    · omega
    · intro mine
      have other := (Mine.own empty mine).2
      omega
  have filled' : Extends (InSlot g) d₁ d'' :=
    filled.trans ext fun _ _ mine => (Mine.own empty mine).1
  have named' := named.congr fun x hx => stays x (.inl hx)
  obtain ⟨entered, entry⟩ := step d'' filled' (named'.used host.take)
  refine ⟨entered, entry, named', ?_⟩
  unfold IsDir fType at isDir ⊢
  rw [stays 33 (.inr rfl), isDir]

/-- A directory of the host is written as it is. -/
theorem write_holds {entries : Entries} {k : Nat} (hosted : entries.Hosted) (h : Filling d f k lo)
    (run : write f entries d = some ((), d')) :
    Filling d' f (k + entries.count) lo ∧
      Grown d d' f (dirBlocks k) (dirBlocks (k + entries.count)) ∧
      Holds d' f k lo d'.nextbno entries ∧ Extends (Mine d f (dirBlocks k) k) d d' := by
  induction entries generalizing f k lo d d' with
  | nil =>
    cases run
    exact ⟨h, Grown.refl _ f _, trivial, Extends.refl _ _⟩
  | file name content rest ih =>
    obtain ⟨host, small, hosted⟩ := hosted
    unfold write at run
    obtain ⟨⟨⟩, d₂, written, tail⟩ := bind_some_iff.mp run
    clear run
    obtain ⟨b, entered, file⟩ := h.file host small written
    obtain ⟨filling, grown, holds, ext⟩ := ih hosted (h.entered entered) tail
    obtain ⟨agree, entry, grown, ext'⟩ := entered.rest grown ext
    rw [Entries.count, Nat.add_comm rest.count 1, ← Nat.add_assoc]
    refine ⟨filling, grown, ⟨⟨b, entered.low, ?_⟩, holds⟩, ext'⟩
    rw [entry]
    exact file.agree agree ext.next filling.sane.high
  | dir name entries rest ih ih' =>
    obtain ⟨host, hosted, hosted'⟩ := hosted
    unfold write at run
    obtain ⟨g, d₂, made, run⟩ := bind_some_iff.mp run
    obtain ⟨⟨⟩, d₃, inner, tail⟩ := bind_some_iff.mp run
    clear run
    obtain ⟨b, empty, enters⟩ := h.dir host made
    obtain ⟨child, -, holds, ext₃⟩ := ih hosted empty inner
    rw [Nat.zero_add] at child
    obtain ⟨entered, rfl, named, isDir⟩ := enters d₃ ext₃
    obtain ⟨filling, grown, later, ext⟩ := ih' hosted' (h.entered entered) tail
    obtain ⟨agree, entry, grown, ext'⟩ := entered.rest grown ext
    have high := filling.sane.high
    rw [Entries.count, Nat.add_comm rest.count 1, ← Nat.add_assoc]
    refine ⟨filling, grown, ⟨⟨?_, ?_, b, entered.low, ?_, ?_⟩, later⟩, ext'⟩
    · rw [entry]
      exact named.congr fun x hx => agree.own x (by omega)
    · unfold IsDir fType at isDir ⊢
      rw [entry, agree.own 33 (by decide), isDir]
    · rw [entry]
      exact child.listing.agree agree ext.next high
    · rw [entry]
      exact holds.agree child.listing agree (Nat.zero_add _).le (Nat.le_refl _) ext.next high

end

/-! ## The whole image -/

theorem initDisk_type {b : Nat} (hb : 3 ≤ b) : initDisk.type b = .free := by
  unfold initDisk nbitblock numBlock bit2blk by2blk
  simp only
  rw [if_neg (by omega), if_neg (by omega), if_neg (by omega)]

theorem initDisk_system : ∀ b < 3, initDisk.type b ≠ .index ∧ initDisk.type b ≠ .file := by decide

/-- No block is linked yet. -/
theorem initDisk_pointers {w : Nat} (h : PointerWord initDisk w) : initDisk.word w = 0 := by
  have types (b : Nat) : initDisk.type b ≠ .index ∧ initDisk.type b ≠ .file := by
    by_cases low : b < 3
    · exact initDisk_system b low
    · rw [initDisk_type (Nat.le_of_not_lt low)]
      exact ⟨BlockType.noConfusion, BlockType.noConfusion⟩
  rcases h with index | ⟨file, -⟩ | ⟨low, high⟩
  · exact absurd index (types _).1
  · exact absurd file (types _).2
  · unfold fDirect sRoot at low
    unfold fIndirect sRoot at high
    show initWord w = 0
    unfold initWord sNblocks fType sRoot nbitblock numBlock bit2blk by2blk
    rw [if_neg (by omega), if_neg (by omega), if_neg (by omega), if_neg (by omega),
      if_neg (by omega)]

theorem initDisk_sane : Sane initDisk := by
  refine ⟨by decide, by decide, fun w hw => ?_, fun b => initDisk_type, initDisk_system,
    fun w hw nonzero => absurd (initDisk_pointers hw) nonzero,
    fun w x hw hx nonzero => absurd (initDisk_pointers hw) nonzero⟩
  have behind : 3 ≤ w / 1024 := hw
  show initWord w = 0
  unfold initWord sNblocks fType sRoot nbitblock numBlock bit2blk by2blk
  rw [if_neg (by omega), if_neg (by omega), if_neg (by omega), if_neg (by omega), if_neg (by omega)]

theorem initDisk_root : Filling initDisk sRoot 0 3 := by
  have empty : Linked initDisk .file sRoot 0 3 initDisk.nextbno :=
    Linked.empty (by decide) (by decide) (Nat.le_refl 3) (by decide) rfl
  exact ⟨⟨empty, rfl, Nat.zero_le _, fun _ no => absurd no (Nat.not_lt_zero _),
    fun _ _ no => absurd no (Nat.not_lt_zero _)⟩, .inl rfl, Nat.le_refl 3, initDisk_sane⟩

theorem initDisk_free {b : Nat} (hb : b < numBlock) : isFree initDisk.word b = true := by
  have small : b < 1024 := hb
  have bits : initWord (blockWord 2 (b / 32)) = 2 ^ 32 - 1 := by
    have at_ : blockWord 2 (b / 32) = 2048 + b / 32 := by
      unfold blockWord page
      omega
    rw [at_]
    unfold initWord nbitblock numBlock bit2blk by2blk
    rw [if_pos (by omega), if_neg (by omega)]
  unfold isFree
  show (initWord _).testBit _ = true
  rw [bits, Nat.testBit_two_pow_sub_one]
  exact decide_eq_true (Nat.mod_lt _ (by decide))

theorem useBit_eq {c : Nat → Nat} {i : Nat} (hi : i < bit2blk) : useBit c i = taken c i := by
  have block : i / bit2blk = 0 := Nat.div_eq_of_lt hi
  have bit : i % bit2blk = i := Nat.mod_eq_of_lt hi
  have small : c (blockWord 2 (i / 32)) &&& (2 ^ 32 - 1 - 1 <<< (i % 32)) < 2 ^ 32 :=
    Nat.lt_of_le_of_lt (Nat.and_le_right.trans (Nat.sub_le _ _)) (by decide)
  unfold useBit taken
  rw [block, bit, uInt, Nat.mod_eq_of_lt small]

theorem flushBitmap_free {c : Nat → Nat} {n : Nat} (few : n ≤ bit2blk) (b : Nat) :
    isFree ((List.range n).foldl useBit c) b = true ↔ isFree c b = true ∧ n ≤ b := by
  induction n with
  | zero => simp
  | succ n ih =>
    rw [List.range_succ, List.foldl_append, List.foldl_cons, List.foldl_nil, useBit_eq few,
      isFree_taken, ih (Nat.le_of_succ_le few)]
    constructor
    · rintro ⟨⟨free, low⟩, other⟩
      exact ⟨free, by omega⟩
    · rintro ⟨free, low⟩
      exact ⟨⟨free, by omega⟩, by omega⟩

theorem flushBitmap_word {c : Nat → Nat} {n w : Nat} (few : n ≤ bit2blk) (hw : w / 1024 ≠ 2) :
    (List.range n).foldl useBit c w = c w := by
  induction n with
  | zero => rfl
  | succ n ih =>
    rw [List.range_succ, List.foldl_append, List.foldl_cons, List.foldl_nil, useBit_eq few, taken,
      Function.update_of_ne, ih (Nat.le_of_succ_le few)]
    rintro rfl
    have small : n < 32768 := few
    apply hw
    unfold blockWord page
    omega

theorem Sane.flush {d : Image} (h : Sane d) : Sane (flushBitmap d) := by
  have few : d.nextbno ≤ bit2blk := h.high.trans (by decide)
  have low := h.low
  have kept {w : Nat} (hw : PointerWord d w) : (flushBitmap d).word w = d.word w := by
    apply flushBitmap_word few
    intro bitmap
    obtain ⟨index, file⟩ := h.system 2 (by decide)
    rw [← bitmap] at index file
    rcases hw with is | ⟨is, -⟩ | ⟨first, last⟩
    · exact index is
    · exact file is
    · unfold fIndirect sRoot at last
      omega
  refine ⟨h.low, h.high, fun w hw => ?_, h.free, h.system, fun w hw => ?_, fun w x hw hx => ?_⟩
  · have behind : d.nextbno ≤ w / 1024 := hw
    exact (flushBitmap_word few (by omega)).trans (h.zero w hw)
  · rw [kept hw]
    exact h.taken w hw
  · rw [kept hw, kept hx]
    exact h.sole w x hw hx

/-- An image with the entries in its root directory. The blocks from `hi` on are free. -/
structure Formatted (d : Image) (entries : Entries) (hi : Nat) : Prop where
  listing : Listing d sRoot (dirBlocks entries.count) entries.count 3 hi
  holds : Holds d sRoot 0 3 hi entries
  isDir : IsDir d.word sRoot
  magic : d.word 1024 = fsMagic
  nblocks : d.word sNblocks = numBlock
  low : 3 ≤ hi
  free : ∀ b < numBlock, isFree d.word b = true ↔ hi ≤ b

/-- The image holds what the host has. -/
theorem format_formatted {entries : Entries} {d : Image} (hosted : entries.Hosted)
    (made : format entries = some d) : Formatted d entries d.nextbno ∧ Sane d := by
  unfold format at made
  obtain ⟨⟨⟨⟩, e⟩, written, last⟩ := Option.bind_eq_some_iff.mp made
  obtain ⟨⟨listing, -, -, sane⟩, -, holds, ext⟩ := write_holds hosted initDisk_root written
  have few : e.nextbno ≤ bit2blk := sane.high.trans (by decide)
  cases last
  have other (w : Nat) (hw : w / 1024 ≠ 2) : (flushBitmap e).word w = e.word w :=
    flushBitmap_word few hw
  have own (w : Nat) (old : w / 1024 < 3) (hw : ¬ InSlot sRoot w ∨ w = sRoot + 33) :
      e.word w = initWord w := by
    apply ext.word w old
    intro mine
    obtain ⟨slot, place⟩ := Mine.own initDisk_root.listing mine
    rcases hw with out | rfl
    · exact out slot
    · omega
  have agree : Agree e (flushBitmap e) sRoot 3 e.nextbno := by
    refine ⟨fun x hx => other _ ?_, fun w low _ => other w (by omega), fun _ _ _ => rfl⟩
    unfold sRoot
    omega
  rw [Nat.zero_add] at listing
  refine ⟨⟨listing.agree agree (Nat.le_refl _) sane.high,
    holds.agree listing agree (Nat.zero_add _).le (Nat.le_refl 3) (Nat.le_refl _) sane.high,
    ?_, ?_, ?_, sane.low, fun b hb => ?_⟩, sane.flush⟩
  · unfold IsDir fType
    rw [other _ (by decide), own _ (by decide) (.inr rfl)]
    rfl
  · rw [other _ (by decide), own _ (by decide) (.inl (by unfold InSlot; decide))]
    rfl
  · rw [other _ (by decide), own _ (by decide) (.inl (by unfold InSlot; decide))]
    rfl
  · have small : b < 1024 := hb
    have bits : isFree e.word b = isFree initDisk.word b := by
      unfold isFree
      rw [own]
      · rfl
      · unfold blockWord page
        omega
      · left
        unfold InSlot blockWord page sRoot
        omega
    show isFree ((List.range e.nextbno).foldl useBit e.word) b = true ↔ _
    rw [flushBitmap_free few, bits, initDisk_free hb]
    exact ⟨And.right, fun low => ⟨rfl, low⟩⟩

end Format

end RiscvMos
