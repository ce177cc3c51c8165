import RiscvMos.Fs.Mounted

/-!
No block of the disk that `tools/fsformat.c` writes belongs to two files.
-/

namespace RiscvMos

open Fs

namespace Format

/-- The words of a file in which its block numbers stand. -/
def LinkWord (c : Nat → Nat) (f w : Nat) : Prop :=
  w = fIndirect f ∨ ∃ i, HasSlot c f i ∧ w = slot c f i

section
variable {d : Image} {entries : Entries} {c : Nat → Nat} {f g b w m hi : Nat}

/-- A block of a file is the number in one of them. -/
theorem owned_link (h : Owned c f b) : ∃ w, LinkWord c f w ∧ c w = b ∧ b ≠ 0 := by
  obtain ⟨nonzero, rfl | ⟨i, rfl⟩⟩ := h
  · exact ⟨fIndirect f, .inl rfl, rfl, nonzero⟩
  · have has : HasSlot c f i := by
      by_contra none_
      exact nonzero (if_neg none_)
    exact ⟨slot c f i, .inr ⟨i, has, rfl⟩, (if_pos has).symm, nonzero⟩

/-- What the link words of a file look like. -/
theorem LinkWord.cases (h : LinkWord d.word f w) (small : d.word (fIndirect f) < 2 ^ 20) :
    (∃ x, 34 ≤ x ∧ x ≤ 44 ∧ w = f + x) ∨
      d.word (fIndirect f) ≠ 0 ∧ w / 1024 = d.word (fIndirect f) := by
  rcases h with rfl | ⟨i, has, rfl⟩
  · exact .inl ⟨44, by decide, by decide, rfl⟩
  · by_cases direct : i < ndirect
    · refine .inl ⟨34 + i, by omega, ?_, ?_⟩
      · unfold ndirect at direct
        omega
      · rw [slot_direct direct, Nat.add_assoc]
    · obtain ⟨few, nonzero⟩ := has.resolve_left direct
      refine .inr ⟨nonzero, ?_⟩
      have short : i < 1024 := few
      rw [slot_indirect direct small]
      omega

/-- Where the files of an image stand, and what their indirect blocks are. -/
structure Stands (d : Image) (f : Nat) : Prop where
  struct : Struct d f
  index : d.word (fIndirect f) ≠ 0 → d.type (d.word (fIndirect f)) = .index
  small : d.word (fIndirect f) < numBlock

theorem Struct.link {x : Nat} (h : Struct d f) (low : 34 ≤ x) (high : x ≤ 44) :
    PointerWord d (f + x) := by
  rcases h with rfl | ⟨aligned, type⟩
  · right; right
    unfold fDirect fIndirect
    omega
  · have block : (f + x) / 1024 = f / 1024 := by omega
    right; left
    rw [block]
    exact ⟨type, by omega, by omega⟩

theorem Stands.link (h : Stands d f) (link : LinkWord d.word f w) : PointerWord d w := by
  have small := h.small
  rcases link.cases (small.trans (by decide)) with ⟨x, low, high, rfl⟩ | ⟨nonzero, block⟩
  · exact h.struct.link low high
  · left
    rw [block]
    exact h.index nonzero

theorem Struct.apart {x y : Nat} (h : Struct d f) (h' : Struct d g) (sane : Sane d) (hx : x < 64)
    (hy : y < 64) (same : f + x = g + y) : f = g := by
  have system := sane.system 1 (by decide)
  rcases h with rfl | ⟨aligned, type⟩
  · rcases h' with rfl | ⟨aligned', type'⟩
    · rfl
    · unfold sRoot at same
      have block : g / 1024 = 1 := by omega
      rw [block] at type'
      exact absurd type' system.2
  · rcases h' with rfl | ⟨aligned', type'⟩
    · unfold sRoot at same
      have block : f / 1024 = 1 := by omega
      rw [block] at type
      exact absurd type system.2
    · omega

/-- Two files have no link word in common. -/
theorem Stands.apart (h : Stands d f) (h' : Stands d g) (sane : Sane d)
    (link : LinkWord d.word f w) (link' : LinkWord d.word g w) : f = g := by
  have small := h.small
  have small' := h'.small
  have notIndex {f : Nat} (h : Struct d f) {x : Nat} (hx : x < 64) :
      d.type ((f + x) / 1024) ≠ .index := by
    rcases h with rfl | ⟨aligned, type⟩
    · have block : (sRoot + x) / 1024 = 1 := by
        unfold sRoot
        omega
      rw [block]
      exact (sane.system 1 (by decide)).1
    · have block : (f + x) / 1024 = f / 1024 := by omega
      rw [block, type]
      exact BlockType.noConfusion
  rcases link.cases (small.trans (by decide)) with ⟨x, low, high, rfl⟩ | ⟨nonzero, block⟩ <;>
    rcases link'.cases (small'.trans (by decide)) with ⟨y, low', high', same⟩ | ⟨nonzero', block'⟩
  · exact h.struct.apart h'.struct sane (by omega) (by omega) same
  · exact absurd (block' ▸ h'.index nonzero') (notIndex h.struct (by omega))
  · rw [same] at block
    exact absurd (block ▸ h.index nonzero) (notIndex h'.struct (by omega))
  · have same := sane.sole _ _ (h.link (.inl rfl)) (h'.link (.inl rfl)) nonzero
      (block.symm.trans block')
    unfold fIndirect at same
    omega

/-- A block belongs to one file. -/
theorem Stands.owner (h : Stands d f) (h' : Stands d g) (sane : Sane d) (owned : Owned d.word f b)
    (owned' : Owned d.word g b) : f = g := by
  obtain ⟨w, link, rfl, nonzero⟩ := owned_link owned
  obtain ⟨x, link', same, -⟩ := owned_link owned'
  have word := sane.sole w x (h.link link) (h'.link link') nonzero same.symm
  subst word
  exact h.apart h' sane link link'

theorem Formatted.struct (h : Formatted d entries hi) (hosted : entries.Hosted)
    (node : Node d.word f) : Struct d f := by
  cases node with
  | root => exact .inl rfl
  | @file p f dir isDir listed used =>
    obtain ⟨m', k, lo, listing⟩ := h.dir hosted ⟨dir, isDir⟩
    have mem := listed.mem
    rw [listing.files] at mem
    obtain ⟨j, hj, rfl⟩ := List.mem_map.mp mem
    obtain ⟨place, -, -, type⟩ := listing.linked.entry (List.mem_range.mp hj)
    have block : entryAt d.word p j / 1024 = pointer d.word p (j / file2blk) := by omega
    exact .inr ⟨by omega, by rw [block, type]⟩

theorem Linked.stands {t : BlockType} {k lo : Nat} (h : Linked d t f k lo hi)
    (struct : Struct d f) : Stands d f := by
  refine ⟨struct, fun nonzero => (h.index (h.many nonzero)).2.2, ?_⟩
  by_cases zero : d.word (fIndirect f) = 0
  · rw [zero]
    decide
  · exact (h.index (h.many zero)).2.1.trans_le h.high

theorem Formatted.stands (h : Formatted d entries hi) (hosted : entries.Hosted)
    (node : Node d.word f) : Stands d f := by
  have struct := h.struct hosted node
  obtain ⟨x, is⟩ := h.node hosted node
  cases x with
  | file content =>
    obtain ⟨name, lo, file⟩ := is
    exact file.linked.stands struct
  | dir entries' =>
    obtain ⟨-, -, lo, listing, -⟩ := is
    exact listing.linked.stands struct

/-- The block of a file belongs to its directory, which is another file. -/
theorem Formatted.listed (h : Formatted d entries hi) (hosted : entries.Hosted) {p : Nat}
    (hp : Dir d.word p) (listed : f ∈ files d.word p) : Owned d.word p (f / 1024) ∧ p ≠ f := by
  obtain ⟨m', k, lo, listing⟩ := h.dir hosted hp
  rw [listing.files] at listed
  obtain ⟨j, hj, rfl⟩ := List.mem_map.mp listed
  obtain ⟨at_, low, -, -⟩ := listing.linked.entry (List.mem_range.mp hj)
  have three := listing.linked.low
  have below := listing.linked.below
  have block : entryAt d.word p j / 1024 = pointer d.word p (j / file2blk) := by omega
  refine ⟨?_, fun same => ?_⟩
  · rw [block]
    exact ⟨by omega, .inr ⟨_, rfl⟩⟩
  · rw [← same] at block
    omega

/-- A file is in one directory. -/
theorem Formatted.single (h : Formatted d entries hi) (hosted : entries.Hosted) (sane : Sane d) :
    Single d.word := by
  intro p q f hp hq listed listed'
  exact (h.stands hosted hp.1).owner (h.stands hosted hq.1) sane (h.listed hosted hp listed).1
    (h.listed hosted hq listed').1

/-- A slot that is not in use is empty. -/
theorem Formatted.empty (h : Formatted d entries hi) (hosted : entries.Hosted) {p : Nat}
    (hp : Dir d.word p) (listed : f ∈ files d.word p) (unused : cellByte d.word (4 * f) = 0) :
    ∀ x < 64, d.word (f + x) = 0 := by
  obtain ⟨m', k, lo, listing⟩ := h.dir hosted hp
  rw [listing.files] at listed
  obtain ⟨j, hj, rfl⟩ := List.mem_map.mp listed
  by_cases used : j < k
  · exact absurd unused (listing.used j used)
  · exact listing.empty j (Nat.le_of_not_lt used) (List.mem_range.mp hj)

theorem Formatted.vacated (h : Formatted d entries hi) (hosted : entries.Hosted) :
    Vacated d.word := by
  intro p f hp listed unused isDir
  have size : d.word (fSize f) = 0 := h.empty hosted hp listed unused 32 (by decide)
  simp [nblock, size]

/-- So no block belongs to it. -/
theorem Formatted.vacant (h : Formatted d entries hi) (hosted : entries.Hosted) {p : Nat}
    (hp : Dir d.word p) (listed : f ∈ files d.word p) (unused : cellByte d.word (4 * f) = 0) :
    ¬ Owned d.word f b := by
  intro owned
  have zero := h.empty hosted hp listed unused
  have indirect : d.word (fIndirect f) = 0 := zero 44 (by decide)
  obtain ⟨w, link, rfl, nonzero⟩ := owned_link owned
  rcases link.cases (by rw [indirect]; decide) with ⟨x, -, high, rfl⟩ | ⟨there, -⟩
  · exact nonzero (zero x (by omega))
  · exact there indirect

/-- The blocks of a file, of whichever kind, were taken. -/
theorem Formatted.owned (h : Formatted d entries hi) (hosted : entries.Hosted) (sane : Sane d)
    (node : Node d.word f) (owned : Owned d.word f b) : 3 ≤ b ∧ b < d.nextbno := by
  obtain ⟨w, link, rfl, nonzero⟩ := owned_link owned
  exact sane.taken w ((h.stands hosted node).link link) nonzero

/-- The blocks of a file are its own. -/
theorem Formatted.layout (h : Formatted d entries d.nextbno) (hosted : entries.Hosted)
    (sane : Sane d) (node : Node d.word f) : Layout d.word f := by
  have stands := h.stands hosted node
  have bitmap (b : Nat) : BitmapBlock d.word b ↔ b = 2 := by
    unfold BitmapBlock nbitmap
    rw [h.nblocks]
    simp only [numBlock, bit2blk, by2blk]
    omega
  have place : f % 1024 ≤ 960 ∧ (f = sRoot ∨ 3 ≤ f / 1024) := by
    rcases stands.struct with rfl | ⟨aligned, type⟩
    · exact ⟨by decide, .inl rfl⟩
    · refine ⟨by omega, .inr ?_⟩
      by_contra low
      exact (sane.system _ (Nat.lt_of_not_le low)).2 type
  have block : f / 1024 ≠ 0 ∧ f / 1024 ≠ 2 ∧ (f / 1024 = 1 → f = sRoot) := by
    rcases place.2 with rfl | low
    · decide
    · omega
  have owned (b : Nat) (hb : Owned d.word f b) : 3 ≤ b ∧ b < d.nextbno ∧ b ≠ f / 1024 := by
    obtain ⟨low, taken⟩ := h.owned hosted sane node hb
    refine ⟨low, taken, fun same => ?_⟩
    rw [same] at hb low
    cases node with
    | root => exact absurd low (by decide)
    | @file p f dir isDir listed used =>
      obtain ⟨parent, other⟩ := h.listed hosted ⟨dir, isDir⟩ listed.mem
      exact other ((h.stands hosted dir).owner stands sane parent hb)
  refine ⟨⟨block.1, place.1⟩, block.2.2, ?_, fun b hb => ?_, fun nonzero i same => ?_,
    fun nonzero => ?_⟩
  · rw [bitmap]
    exact block.2.1
  · obtain ⟨low, taken, other⟩ := owned b hb
    obtain ⟨valid, -, super_, bits⟩ := h.block low taken
    exact ⟨valid, super_, bits, other⟩
  · obtain ⟨-, -, other⟩ := owned _ ⟨nonzero, .inl rfl⟩
    have small : d.word (fIndirect f) < 2 ^ 20 := stands.small.trans (by decide)
    have has : HasSlot d.word f i := by
      by_contra none_
      rw [pointer, if_neg none_] at same
      exact nonzero same.symm
    rw [pointer, if_pos has] at same
    have word := sane.sole _ _ (stands.link (.inr ⟨i, has, rfl⟩)) (stands.link (.inl rfl))
      (by rw [same]; exact nonzero) same
    by_cases direct : i < ndirect
    · rw [slot_direct direct] at word
      unfold ndirect at direct
      unfold fIndirect at word
      omega
    · have few := (has.resolve_left direct).1
      have short : i < 1024 := few
      rw [slot_indirect direct small] at word
      have inside := fIndirect_block place.1
      omega
  · obtain ⟨low, taken, -⟩ := owned _ ⟨nonzero, .inl rfl⟩
    exact (h.block low taken).2.1

end

/-- The image is sound: a tree without holes in which each file is in one directory, and in which
no block belongs to a slot that is not in use. The blocks of a file are blocks of the disk that
were taken and are in use, and its own; no block belongs to two files. The blocks behind them are
free. -/
theorem format_sound {entries : Entries} {image : Image} (hosted : entries.Hosted)
    (made : format entries = some image) :
    Tree image.word ∧ Single image.word ∧ Vacated image.word ∧
      (∀ f, Node image.word f → Layout image.word f) ∧
      (∀ f b, Node image.word f → Owned image.word f b →
        3 ≤ b ∧ b < image.nextbno ∧ isFree image.word b = false) ∧
      (∀ p f b, Dir image.word p → f ∈ files image.word p → cellByte image.word (4 * f) = 0 →
        ¬ Owned image.word f b) ∧
      (∀ f g b, Node image.word f → Node image.word g → Owned image.word f b →
        Owned image.word g b → f = g) ∧
      ∀ b < numBlock, isFree image.word b = true ↔ image.nextbno ≤ b := by
  obtain ⟨h, sane⟩ := format_formatted hosted made
  refine ⟨h.tree hosted, h.single hosted sane, h.vacated hosted, fun f => h.layout hosted sane,
    fun f b node owned => ?_, fun p f b => h.vacant hosted, fun f g b hf hg => ?_, h.free⟩
  · obtain ⟨low, taken⟩ := h.owned hosted sane node owned
    exact ⟨low, taken, (h.block low taken).2.1⟩
  · exact (h.stands hosted hf).owner (h.stands hosted hg) sane

theorem format_sound_threeBytes : ∃ image, format threeBytes = some image ∧ Tree image.word ∧
    (∀ f, Node image.word f → Layout image.word f) ∧
    ∀ f b, Node image.word f → Owned image.word f b →
      3 ≤ b ∧ b < image.nextbno ∧ isFree image.word b = false := by
  obtain ⟨image, made⟩ := threeBytes_made
  obtain ⟨tree, -, -, layout, owned, -⟩ := format_sound threeBytes_hosted made
  exact ⟨image, made, tree, layout, owned⟩

end Format

end RiscvMos
