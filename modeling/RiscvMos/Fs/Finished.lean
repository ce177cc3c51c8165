import RiscvMos.Fs.Formatted

/-!
`tools/fsformat.c` finishes an image whenever the blocks of the tree fit on the disk,
and takes exactly so many.
-/

namespace RiscvMos

open Fs

namespace Format

/-- The blocks that go with `m` block pointers: the indirect block is one more. -/
def linkedBlocks (m : Nat) : Nat := m + if ndirect < m then 1 else 0

/-- The indirect block, where pointer `m` is the first in it. -/
def indexBlocks (m : Nat) : Nat := if m = ndirect then 1 else 0

/-- The blocks of the files and directories. -/
def Entries.blocks : Entries → Nat
  | .nil => 0
  | .file _ content rest => linkedBlocks (blocksOf content.length) + rest.blocks
  | .dir _ entries rest => linkedBlocks (dirBlocks entries.count) + entries.blocks + rest.blocks

/-- The blocks of the disk that are needed for a root directory. -/
def Entries.total (entries : Entries) : Nat :=
  2 + nbitblock + linkedBlocks (dirBlocks entries.count) + entries.blocks

/-- The names fit into a `struct File`. -/
def Entries.Named : Entries → Prop
  | .nil => True
  | .file name _ rest => name.length < maxnamelen ∧ rest.Named
  | .dir name entries rest => name.length < maxnamelen ∧ entries.Named ∧ rest.Named

/-- The call finishes, and takes `n` blocks. -/
def Finishes {α : Type} (x : FormatM α) (d : Image) (n : Nat) : Prop :=
  ∃ a d', x d = some (a, d') ∧ d'.nextbno = d.nextbno + n

section
variable {α β : Type} {x : FormatM α} {φ : α → FormatM β} {d d' : Image} {t : BlockType}
    {f g k m lo b n e w v i : Nat} {bs content name : List Nat}

theorem linkedBlocks_succ (m : Nat) :
    linkedBlocks (m + 1) = linkedBlocks m + 1 + indexBlocks m := by
  unfold linkedBlocks indexBlocks ndirect
  split <;> split <;> split <;> omega

theorem linkedBlocks_mono (h : m ≤ n) : linkedBlocks m ≤ linkedBlocks n := by
  unfold linkedBlocks ndirect
  split <;> split <;> omega

theorem le_linkedBlocks (m : Nat) : m ≤ linkedBlocks m := Nat.le_add_right _ _

theorem Finishes.bind (h : Finishes x d n)
    (next : ∀ a d', x d = some (a, d') → d'.nextbno = d.nextbno + n → Finishes (φ a) d' e) :
    Finishes (x >>= φ) d (n + e) := by
  obtain ⟨a, d₁, run, taken⟩ := h
  obtain ⟨b, d₂, run', taken'⟩ := next a d₁ run taken
  exact ⟨b, d₂, bind_some_iff.mpr ⟨a, d₁, run, run'⟩, by omega⟩

theorem Finishes.of_eq (h : Finishes x d n) (same : n = e) : Finishes x d e := same ▸ h

theorem finishes_pure (a : α) : Finishes (pure a) d 0 := ⟨a, d, rfl, rfl⟩

theorem finishes_load : Finishes (load w) d 0 := ⟨_, d, rfl, rfl⟩

theorem finishes_store : Finishes (store w v) d 0 := ⟨(), _, rfl, rfl⟩

theorem finishes_putBytes : Finishes (putBytes i bs) d 0 := by
  obtain ⟨c, run, -⟩ := putBytes_eq i bs d
  exact ⟨(), _, run, rfl⟩

theorem finishes_nextBlock (room : d.nextbno < numBlock) : Finishes (nextBlock t) d 1 :=
  ⟨_, _, if_pos room, rfl⟩

theorem finishes_readBlock (room : d.nextbno < numBlock) : Finishes (readBlock bs) d 0 := by
  obtain ⟨c, run, -⟩ := putBytes_eq (by2blk * d.nextbno) bs d
  refine ⟨(), { d with word := c }, bind_some_iff.mpr ⟨d, d, rfl, ?_⟩, rfl⟩
  exact (congrFun (if_pos room) d).trans run

/-! ## The blocks of a file -/

theorem finishes_saveBlockLink (h : Linked d t f m lo b) (few : m < nindirect)
    (room : d.nextbno + indexBlocks m ≤ numBlock) :
    Finishes (saveBlockLink f m b) d (indexBlocks m) := by
  unfold saveBlockLink
  rw [if_neg (Nat.not_le.mpr few)]
  unfold indexBlocks at room ⊢
  by_cases direct : m < ndirect
  · rw [if_pos direct, if_neg (Nat.ne_of_lt direct)]
    exact finishes_store
  rw [if_neg direct]
  refine (finishes_load.bind (e := if m = ndirect then 1 else 0) ?_).of_eq (Nat.zero_add _)
  rintro _ _ ⟨⟩ -
  by_cases first : m = ndirect
  · -- the indirect block is taken
    rw [if_pos first] at room ⊢
    rw [if_pos (h.direct first.le)]
    refine (finishes_nextBlock room).bind (e := 0) fun x d₁ _ _ => ?_
    refine finishes_store.bind (e := 0) fun _ d₂ _ _ => ?_
    exact finishes_load.bind (e := 0) fun _ _ _ _ => finishes_store
  · rw [if_neg first, if_neg (h.index_pos (by omega))]
    exact finishes_load.bind (e := 0) fun _ _ _ _ => finishes_store

/-- One more block of a file. -/
theorem Linked.turn {d₀ d₁ : Image} (h : Linked d .data f m lo d.nextbno) (low : lo ≤ d.nextbno)
    (sane : Sane d) (small : ∀ x ∈ content, x < 256)
    (read : readBlock (content.take by2blk) d = some ((), d₀))
    (taken : nextBlock .data d₀ = some (b, d₁)) :
    Linked d₁ .data f m lo b ∧ ∀ d₂, saveBlockLink f m b d₁ = some ((), d₂) →
      Linked d₂ .data f (m + 1) lo d₂.nextbno ∧ lo ≤ d₂.nextbno ∧ Sane d₂ := by
  obtain ⟨rfl, next, type, loose, ext, -⟩ := readBlock_shows sane (List.length_take_le _ _)
    (fun x hx => small x (List.mem_of_mem_take hx)) read taken
  have below := h.below
  have h₁ := h.agree
    (ext.agree h.place (by omega) (Nat.le_refl _) (fun _ _ => id) fun _ _ _ => id)
  refine ⟨h₁, fun d₂ linked => ?_⟩
  obtain ⟨h₂, pushed⟩ := saveBlockLink_links h₁ low next (ext.sane sane) type loose linked
  have grown := pushed.rest.next
  exact ⟨h₂, by omega, pushed.rest.sane (ext.sane sane)⟩

theorem blocksOf_drop (more : content ≠ []) :
    blocksOf content.length = blocksOf (content.drop by2blk).length + 1 := by
  have some_ : 0 < content.length := List.length_pos_iff.mpr more
  rw [List.length_drop]
  simp only [blocksOf, by2blk]
  omega

theorem finishes_writeBlocks (turns : content.length ≤ by2blk * n)
    (h : Linked d .data f m lo d.nextbno) (low : lo ≤ d.nextbno) (sane : Sane d)
    (small : ∀ x ∈ content, x < 256) (few : m + blocksOf content.length ≤ nindirect)
    (cost : linkedBlocks (m + blocksOf content.length) = linkedBlocks m + k)
    (room : d.nextbno + k ≤ numBlock) : Finishes (writeBlocks f n m content) d k := by
  induction n generalizing d m content k with
  | zero =>
    have done : content = [] := List.eq_nil_of_length_eq_zero (Nat.le_zero.mp turns)
    subst done
    exact (finishes_pure ()).of_eq (Nat.add_left_cancel cost)
  | succ n ih =>
    unfold writeBlocks
    by_cases done : content = []
    · subst done
      rw [if_pos rfl]
      exact (finishes_pure ()).of_eq (Nat.add_left_cancel cost)
    rw [if_neg done]
    rw [blocksOf_drop done] at few cost
    have turns' : (content.drop by2blk).length ≤ by2blk * n := by
      rw [List.length_drop]
      simp only [by2blk] at turns ⊢
      omega
    have all : m + 1 + blocksOf (content.drop by2blk).length =
        m + (blocksOf (content.drop by2blk).length + 1) := by omega
    have step := linkedBlocks_succ m
    obtain ⟨k', rest⟩ := Nat.exists_eq_add_of_le (linkedBlocks_mono (Nat.le_add_right (m + 1)
      (blocksOf (content.drop by2blk).length)))
    have total : k = 0 + (1 + (indexBlocks m + k')) := by
      rw [all] at rest
      omega
    rw [total]
    refine (finishes_readBlock (by omega)).bind fun _ d₀ read next₀ => ?_
    refine (finishes_nextBlock (by omega)).bind fun b d₁ taken next₁ => ?_
    obtain ⟨h₁, more⟩ := h.turn low sane small read taken
    refine (finishes_saveBlockLink h₁ (by omega) (by omega)).bind fun _ d₂ linked next₂ => ?_
    obtain ⟨h₂, low₂, sane₂⟩ := more d₂ linked
    exact ih turns' h₂ low₂ sane₂ (fun x hx => small x (List.mem_of_mem_drop hx)) (by omega) rest
      (by omega)

/-! ## The entries of a directory -/

theorem finishes_makeLinkBlock (h : Linked d .file f m lo d.nextbno) (few : m < nindirect)
    (room : d.nextbno + (1 + indexBlocks m) ≤ numBlock) :
    Finishes (makeLinkBlock f m) d (1 + indexBlocks m) := by
  unfold makeLinkBlock
  refine (finishes_nextBlock (by omega)).bind fun b d₁ taken next => ?_
  obtain ⟨rfl, -, ext, -, word, -⟩ := nextBlock_some taken
  have h₁ : Linked d₁ .file f m lo d.nextbno :=
    h.congr (fun w _ => by rw [word]) fun b _ taken => ext.type b taken
  refine (finishes_saveBlockLink h₁ few (by omega)).bind (e := 0) fun _ d₂ _ _ => ?_
  refine finishes_load.bind (e := 0) fun _ d₃ _ _ => ?_
  exact finishes_store.bind (e := 0) fun _ d₄ _ _ => finishes_pure _

theorem finishes_createFileFrom (h : Listing d f m k lo d.nextbno) (turns : i + n = m)
    (before : file2blk * i ≤ k) (few : max m (k / file2blk + 1) ≤ nindirect)
    (cost : linkedBlocks (max m (k / file2blk + 1)) = linkedBlocks m + b)
    (room : d.nextbno + b ≤ numBlock) : Finishes (createFileFrom f n i) d b := by
  induction n generalizing i with
  | zero =>
    rw [Nat.add_zero] at turns
    subst turns
    have full : k = file2blk * i := Nat.le_antisymm h.room before
    have more : max i (k / file2blk + 1) = i + 1 := by
      rw [full, Nat.mul_div_cancel_left _ (by decide)]
      exact max_eq_right (Nat.le_succ i)
    rw [more] at few cost
    have step := linkedBlocks_succ i
    have last : b = 1 + indexBlocks i := by omega
    rw [last] at room ⊢
    unfold createFileFrom
    exact (finishes_makeLinkBlock h.linked few room).bind (e := 0) fun _ _ _ _ => finishes_pure _
  | succ n ih =>
    have inside : i < m := by omega
    unfold createFileFrom
    have linked : Finishes (linkAt f i) d 0 := ⟨_, _, linkAt_eq h.linked inside, rfl⟩
    refine (linked.bind (e := b) fun p d₁ found _ => ?_).of_eq (Nat.zero_add b)
    rw [linkAt_eq h.linked inside] at found
    cases found
    have got : Finishes get d 0 := ⟨d, d, rfl, rfl⟩
    refine (got.bind (e := b) fun e d₂ found _ => ?_).of_eq (Nat.zero_add b)
    cases found
    rw [h.unusedIn inside before]
    by_cases full : file2blk * (i + 1) ≤ k
    · rw [if_pos full]
      exact ih (by omega) full
    · rw [if_neg full]
      have same : max m (k / file2blk + 1) = m := by
        simp only [file2blk] at full ⊢
        omega
      rw [same] at cost
      exact (finishes_pure _).of_eq (Nat.add_left_cancel cost)

theorem finishes_createFile (h : Filling d f k lo) (few : dirBlocks (k + 1) ≤ nindirect)
    (cost : linkedBlocks (dirBlocks (k + 1)) = linkedBlocks (dirBlocks k) + b)
    (room : d.nextbno + b ≤ numBlock) : Finishes (createFile f) d b := by
  unfold createFile
  refine (finishes_load.bind (e := b) ?_).of_eq (Nat.zero_add b)
  rintro _ _ ⟨⟩ -
  rw [h.listing.size, Nat.mul_div_cancel_left _ (by decide)]
  rw [← dirBlocks_succ] at few cost
  exact finishes_createFileFrom h.listing (Nat.zero_add _) (Nat.zero_le _) few cost room

theorem finishes_writeFile (h : Filling d f k lo) (host : HostName name)
    (short : name.length < maxnamelen) (small : ∀ x ∈ content, x < 256)
    (few : dirBlocks (k + 1) ≤ nindirect)
    (cost : linkedBlocks (dirBlocks (k + 1)) = linkedBlocks (dirBlocks k) + b)
    (room : d.nextbno + (b + linkedBlocks (blocksOf content.length)) ≤ numBlock) :
    Finishes (writeFile f name content) d (b + linkedBlocks (blocksOf content.length)) := by
  have few' : blocksOf content.length ≤ nindirect := by
    have le := le_linkedBlocks (blocksOf content.length)
    simp only [numBlock, nindirect] at room ⊢
    omega
  unfold writeFile
  refine (finishes_createFile h few cost (by omega)).bind fun g d₁ created next => ?_
  obtain ⟨blank, sane₁, -⟩ := h.step created
  rw [if_neg (Nat.not_le.mpr short), ← Nat.zero_add (linkedBlocks _)]
  refine finishes_putBytes.bind fun _ d₂ put _ => ?_
  rw [← Nat.zero_add (linkedBlocks _)]
  refine finishes_store.bind fun _ d₃ sized _ => ?_
  rw [← Nat.zero_add (linkedBlocks _)]
  refine finishes_store.bind fun _ d₄ typed next₄ => ?_
  obtain ⟨ext, -, -, -, index⟩ := blank.header host short put sized typed
  have sane₄ := ext.sane sane₁
  have linked : Linked d₄ .data g 0 d₁.nextbno d₄.nextbno :=
    Linked.empty blank.place blank.below sane₁.low sane₄.high index
  have turns : content.length ≤ by2blk * (content.length / by2blk + 1) := by
    simp only [by2blk]
    omega
  exact finishes_writeBlocks turns linked ext.next sane₄ small ((Nat.zero_add _).trans_le few')
    (by rw [Nat.zero_add]; exact (Nat.zero_add _).symm) (by omega)

theorem finishes_makeDirectory (h : Filling d f k lo) (few : dirBlocks (k + 1) ≤ nindirect)
    (cost : linkedBlocks (dirBlocks (k + 1)) = linkedBlocks (dirBlocks k) + b)
    (room : d.nextbno + b ≤ numBlock) : Finishes (makeDirectory f name) d b := by
  unfold makeDirectory
  refine (finishes_createFile h few cost room).bind (e := 0) fun g d₁ created next => ?_
  obtain ⟨blank, -, -⟩ := h.step created
  refine finishes_putBytes.bind (e := 0) fun _ d₂ put _ => ?_
  have got : Finishes get d₂ 0 := ⟨d₂, d₂, rfl, rfl⟩
  refine got.bind (e := 0) fun e d₃ found _ => ?_
  cases found
  have length : (name.take 127 ++ List.replicate (127 - name.length) 0).length = 127 := by
    rw [List.length_append, List.length_take, List.length_replicate]
    omega
  -- `strncpy` leaves the last byte as it was
  obtain ⟨byte, -⟩ := blank.putBytes (length.trans_le (by decide)) put
  have last : cellByte d₂.word (4 * g + 127) = 0 := by
    rw [byte 127 (by decide), List.getD_eq_default _ _ length.le]
  rw [if_neg (not_not.mpr last)]
  exact finishes_store.bind (e := 0) fun _ _ _ _ => finishes_pure g

theorem dirBlocks_mono (h : k ≤ n) : dirBlocks k ≤ dirBlocks n :=
  Nat.div_le_div_right (Nat.add_le_add_right h _)

/-- The blocks for the next file of the directory, and the blocks for the others. -/
theorem cost_next {own rest : Nat}
    (cost : linkedBlocks (dirBlocks (k + 1 + n)) + (own + rest) =
      linkedBlocks (dirBlocks k) + b) :
    ∃ x y, linkedBlocks (dirBlocks (k + 1)) = linkedBlocks (dirBlocks k) + x ∧
      linkedBlocks (dirBlocks (k + 1 + n)) + rest = linkedBlocks (dirBlocks (k + 1)) + y ∧
      b = x + own + y := by
  have first := linkedBlocks_mono (dirBlocks_mono (Nat.le_add_right k 1))
  have later := linkedBlocks_mono (dirBlocks_mono (Nat.le_add_right (k + 1) n))
  obtain ⟨x, hx⟩ := Nat.exists_eq_add_of_le first
  obtain ⟨y, hy⟩ := Nat.exists_eq_add_of_le (later.trans (Nat.le_add_right _ rest))
  exact ⟨x, y, hx, hy, by omega⟩

/-- Files and directories are written, and take the blocks that they need. -/
theorem finishes_write {entries : Entries} (hosted : entries.Hosted) (named : entries.Named)
    (h : Filling d f k lo) (few : dirBlocks (k + entries.count) ≤ nindirect)
    (cost : linkedBlocks (dirBlocks (k + entries.count)) + entries.blocks =
      linkedBlocks (dirBlocks k) + b)
    (room : d.nextbno + b ≤ numBlock) : Finishes (write f entries) d b := by
  induction entries generalizing d f k lo b with
  | nil => exact (finishes_pure ()).of_eq (Nat.add_left_cancel cost)
  | file name content rest ih =>
    obtain ⟨host, small, hosted⟩ := hosted
    obtain ⟨short, named⟩ := named
    rw [Entries.count, Nat.add_comm rest.count 1, ← Nat.add_assoc] at few cost
    obtain ⟨x, y, own, later, rfl⟩ := cost_next cost
    have next := (dirBlocks_mono (Nat.le_add_right (k + 1) _)).trans few
    unfold write
    refine (finishes_writeFile h host short small next own (by omega)).bind fun _ d₂ written _ => ?_
    obtain ⟨_, entered, -⟩ := h.file host small written
    exact ih hosted named (h.entered entered) few later (by omega)
  | dir name entries rest ih ih' =>
    obtain ⟨host, hosted, hosted'⟩ := hosted
    obtain ⟨-, named, named'⟩ := named
    rw [Entries.count, Nat.add_comm rest.count 1, ← Nat.add_assoc] at few cost
    obtain ⟨x, y, own, later, rfl⟩ := cost_next cost
    have next := (dirBlocks_mono (Nat.le_add_right (k + 1) _)).trans few
    have few' : dirBlocks (0 + entries.count) ≤ nindirect := by
      have le := le_linkedBlocks (dirBlocks entries.count)
      rw [Nat.zero_add]
      simp only [numBlock, nindirect] at room ⊢
      omega
    unfold write
    rw [Nat.add_assoc]
    refine (finishes_makeDirectory h next own (by omega)).bind fun g d₂ made _ => ?_
    obtain ⟨_, empty, enters⟩ := h.dir host made
    refine (ih hosted named empty few' ?_ (by omega)).bind fun _ d₃ inner _ => ?_
    · rw [Nat.zero_add]
      exact (Nat.zero_add _).symm
    obtain ⟨-, -, -, ext⟩ := write_holds hosted empty inner
    exact ih' hosted' named' (h.entered (enters d₃ ext).1) few later (by omega)

end

/-- An image is made whenever the blocks fit on the disk. -/
theorem format_finishes {entries : Entries} (hosted : entries.Hosted) (named : entries.Named)
    (fits : entries.total ≤ numBlock) :
    ∃ image, format entries = some image ∧ image.nextbno = entries.total := by
  have few : dirBlocks (0 + entries.count) ≤ nindirect := by
    have le := le_linkedBlocks (dirBlocks entries.count)
    rw [Nat.zero_add]
    simp only [Entries.total, numBlock, nindirect] at fits ⊢
    omega
  have cost : linkedBlocks (dirBlocks (0 + entries.count)) + entries.blocks =
      linkedBlocks (dirBlocks 0) + (linkedBlocks (dirBlocks entries.count) + entries.blocks) := by
    rw [Nat.zero_add]
    exact (Nat.zero_add _).symm
  have first : initDisk.nextbno = 2 + nbitblock := rfl
  obtain ⟨⟨⟩, d, run, next⟩ := finishes_write hosted named initDisk_root few cost (by
    rw [first, ← Nat.add_assoc]
    exact fits)
  refine ⟨flushBitmap d, ?_, ?_⟩
  · unfold format
    rw [run]
    rfl
  · show d.nextbno = _
    rw [next, first, ← Nat.add_assoc]
    rfl

end Format

end RiscvMos
