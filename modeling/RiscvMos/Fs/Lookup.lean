import RiscvMos.Lib.Runs
import RiscvMos.Fs.Tree

/-!
`dir_lookup` of `fs/fs.c` where no block that it reads is missing. Where the server can
run out of pages for the blocks that are not in the cache, the kernel stops then;
nothing else stops a look-up.
-/

namespace RiscvMos

namespace Fs

/-- There is always a page for a block. -/
def Supplied (s : Fs) : Prop := ∀ n, s.asked ≤ n → s.memory n = true ∨ s.memory (n + 1) = true

theorem Grows.supplied {s s' : Fs} (h : Grows s s') (supplied : s.Supplied) : s'.Supplied := by
  intro n hn
  rw [h.memory]
  exact supplied n (h.asked.trans hn)

/-- If pages may be `short`, the kernel stops for want of one. -/
def serving (short : Prop) : Progress Fs Stop where
  rel := Serves short
  stops x s := short ∧ x = .halt ∧ ¬ s.Supplied
  refl := Serves.refl
  trans h h' := h.trans h'
  back h stops := ⟨stops.1, stops.2.1, fun supplied => stops.2.2 (h.toGrows.supplied supplied)⟩

/-- The words with `f->f_dir = d`. -/
def relink (c : Nat → Nat) (f d : Nat) : Nat → Nat :=
  Function.update (Function.update c (fDirLow f) (uInt (diskmap + 4 * d))) (fDirHigh f)
    (uInt ((diskmap + 4 * d) / 2 ^ 32))

/-- Some files have their directory stored in `f_dir`. -/
def LinksIn (B : Nat → Prop) (c c' : Nat → Nat) : Prop :=
  ∀ w, c' w = c w ∨ ∃ d f, DirIn B c d ∧ Listed B c d f ∧
    (w = fDirLow f ∧ c' w = uInt (diskmap + 4 * d) ∨
      w = fDirHigh f ∧ c' w = uInt ((diskmap + 4 * d) / 2 ^ 32))

/-- `f->f_dir == d`. -/
def Linked (c : Nat → Nat) (f d : Nat) : Prop :=
  c (fDirLow f) = uInt (diskmap + 4 * d) ∧ c (fDirHigh f) = uInt ((diskmap + 4 * d) / 2 ^ 32)

/-- Each file is in one directory. -/
def Single (c : Nat → Nat) : Prop :=
  ∀ d d' f, Dir c d → Dir c d' → f ∈ files c d → f ∈ files c d' → d = d'

section
variable {B : Nat → Prop} {c c' c'' : Nat → Nat} {d f : Nat}

theorem LinksIn.refl (c : Nat → Nat) : LinksIn B c c := fun _ => .inl rfl

theorem relink_links (hd : DirIn B c d) (hf : Listed B c d f) : LinksIn B c (relink c f d) := by
  intro w
  unfold relink
  by_cases high : w = fDirHigh f
  · rw [high, Function.update_self]
    exact .inr ⟨d, f, hd, hf, .inr ⟨rfl, rfl⟩⟩
  · rw [Function.update_of_ne high]
    by_cases low : w = fDirLow f
    · rw [low, Function.update_self]
      exact .inr ⟨d, f, hd, hf, .inl ⟨rfl, rfl⟩⟩
    · exact .inl (Function.update_of_ne low _ _)

theorem LinksIn.relinks (h : LinksIn B c c') (tree : TreeIn B c) (disk : c sNblocks ≤ 2 ^ 18) :
    RelinksIn B c c' := by
  intro w fixed
  cases h w with
  | inl same => exact same
  | inr changed =>
    obtain ⟨d, f, hd, hf, place⟩ := changed
    obtain ⟨block, aligned, low, -⟩ := tree.file_place disk hd hf
    have word : w = f + 45 ∨ w = f + 46 := place.imp And.left And.left
    have here : w / 1024 = f / 1024 := by omega
    have free := fixed (by rw [here]; exact block)
    omega

theorem relink_linked (c : Nat → Nat) (f d : Nat) : Linked (relink c f d) f d := by
  have apart : fDirLow f ≠ fDirHigh f := by
    unfold fDirLow fDirHigh
    omega
  unfold Linked relink
  rw [Function.update_of_ne apart, Function.update_self, Function.update_self]
  exact ⟨rfl, rfl⟩

/-- A file that is in one directory only keeps the link to it. -/
theorem LinksIn.linked (h : LinksIn Every c c') (one : Single c) (hd : Dir c d)
    (hf : f ∈ files c d) (linked : Linked c f d) : Linked c' f d := by
  have aligned := (aligned_of_mem hf).1
  constructor
  · cases h (fDirLow f) with
    | inl same => exact same.trans linked.1
    | inr changed =>
      obtain ⟨d', f', hd', hf', place⟩ := changed
      have hf' := hf'.mem
      have aligned' := (aligned_of_mem hf').1
      cases place with
      | inl low =>
        have same : f = f' := Nat.add_right_cancel low.1
        rw [← same] at hf'
        rw [one d d' f hd hd' hf hf']
        exact low.2
      | inr high =>
        have word : f + 45 = f' + 46 := high.1
        omega
  · cases h (fDirHigh f) with
    | inl same => exact same.trans linked.2
    | inr changed =>
      obtain ⟨d', f', hd', hf', place⟩ := changed
      have hf' := hf'.mem
      have aligned' := (aligned_of_mem hf').1
      cases place with
      | inl low =>
        have word : f + 46 = f' + 45 := low.1
        omega
      | inr high =>
        have same : f = f' := Nat.add_right_cancel high.1
        rw [← same] at hf'
        rw [one d d' f hd hd' hf hf']
        exact high.2

theorem Single.relinks (one : Single c) (h : Relinks c c') (tree : Tree c)
    (disk : c sNblocks ≤ 2 ^ 18) : Single c' := by
  intro d d' f hd hd' hf hf'
  have hd := (h.dir_iff tree disk).mp hd
  have hd' := (h.dir_iff tree disk).mp hd'
  rw [h.files_eq tree disk hd] at hf
  rw [h.files_eq tree disk hd'] at hf'
  exact one d d' f hd hd' hf hf'

theorem LinksIn.trans (h : LinksIn B c c') (tree : TreeIn B c) (disk : c sNblocks ≤ 2 ^ 18)
    (h' : LinksIn B c' c'') : LinksIn B c c'' := by
  have relinks := h.relinks tree disk
  intro w
  cases h' w with
  | inl same =>
    rw [same]
    exact h w
  | inr changed =>
    obtain ⟨d, f, hd, hf, place⟩ := changed
    have hd := (relinks.dir_iff tree disk).mp hd
    exact .inr ⟨d, f, hd, (relinks.listed_iff tree disk hd).mp hf, place⟩

end

end Fs

namespace FsM

open Fs

/-- From `s` the computation ends with `Q`, or pages may be short and there is none for a block. -/
abbrev Ends {α : Type} (short : Prop) (m : FsM α) (s : Fs) (Q : α → Fs → Prop) : Prop :=
  Runs (serving short) m s Q

section Blocks
variable {α : Type} {short : Prop} {B : Nat → Prop} {s s' : Fs} {w b d f i : Nat} {alloc : Bool}
  {Q : α → Fs → Prop}

theorem Ends.load {k : Nat → FsM α} (h : s.mapped (w / 1024) = true)
    (rest : Ends short (k (s.cell w)) s Q) :
    Ends short (FsM.load w >>= k) s Q := Runs.bind_ok (load_mapped h) (Serves.refl s) rest

theorem asked_keeps (s : Fs) : Keeps s { s with asked := s.asked + 1 } :=
  ⟨⟨fun _ h => h, rfl, Nat.le_succ _⟩, rfl⟩

theorem asked_serves (s : Fs) : Serves short s { s with asked := s.asked + 1 } :=
  ⟨(asked_keeps s).toGrows, fun _ => rfl⟩

theorem memAlloc_eq (s : Fs) :
    memAlloc s = .ok (s.memory s.asked, { s with asked := s.asked + 1 }) := rfl

theorem loadBlock_ends (may : short) (h : s.mapped b = false) (hb : b < 2 ^ 20) :
    Ends short (loadBlock b) s fun _ s' => Keeps s s' ∧ s'.mapped b = true := by
  have page : Fs.page b = b := Nat.mod_eq_of_lt hb
  have filled (t : Fs) (ht : t.mapped b = false) :
      Keeps t (t.fill b) ∧ (t.fill b).mapped b = true := by
    refine ⟨fill_keeps ht hb, ?_⟩
    simp only [fill, page, Function.update_self]
  by_cases out : s.memory s.asked = false ∧ s.memory (s.asked + 1) = false
  · have halts : loadBlock b s = .error .halt := by
      unfold loadBlock
      rw [bind_ok (memAlloc_eq s), out.1, if_neg Bool.false_ne_true, bind_ok (memAlloc_eq _)]
      simp only [out.2, Bool.false_eq_true, if_false]
      rfl
    apply Runs.of_error halts
    refine ⟨may, rfl, fun supplied => ?_⟩
    have page := supplied s.asked (Nat.le_refl _)
    simp only [out.1, out.2, Bool.false_eq_true, or_self] at page
  · unfold loadBlock
    apply Runs.bind_ok (memAlloc_eq s) (asked_serves s)
    have asked := asked_keeps s
    cases first : s.memory s.asked with
    | true =>
      have fill := filled { s with asked := s.asked + 1 } h
      exact Runs.of_ok rfl ⟨fill.1.toGrows, fun no => absurd may no⟩ ⟨asked.trans fill.1, fill.2⟩
    | false =>
      have second : s.memory (s.asked + 1) = true := by
        by_contra none
        exact out ⟨first, eq_false_of_ne_true none⟩
      have asked₂ := asked_keeps { s with asked := s.asked + 1 }
      have fill := filled { s with asked := s.asked + 1 + 1 } h
      rw [if_neg Bool.false_ne_true]
      apply Runs.bind_ok (memAlloc_eq _) (asked_serves _)
      simp only [second, if_true]
      exact Runs.of_ok rfl ⟨fill.1.toGrows, fun no => absurd may no⟩
        ⟨(asked.trans asked₂).trans fill.1, fill.2⟩

/-- A block can be read: it is in the cache, unless the kernel may stop. -/
def Has (short : Prop) (s : Fs) (b : Nat) : Prop := short ∨ s.mapped b = true

theorem Has.any (s : Fs) (b : Nat) : Has True s b := .inl trivial

theorem Has.grows (h : Has short s b) (grows : Grows s s') : Has short s' b :=
  h.imp id (grows.mapped b)

theorem readBlock_ends (h : Inited s) (hb : b < s.cell sNblocks) (used : isFree s.cell b = false)
    (has : Has short s b) :
    Ends short (readBlock b) s fun _ s' => Keeps s s' ∧ s'.mapped b = true := by
  have small : b < 2 ^ 20 := by
    have := h.nblocks
    omega
  have asks : blockIsMapped b s = .ok (s.mapped b, s) := by
    unfold blockIsMapped
    rw [show Fs.page b = b from Nat.mod_eq_of_lt small]
  unfold readBlock
  apply Ends.load h.super
  rw [if_neg (by omega)]
  apply Runs.bind_ok (blockIsFree_eq h hb) (Serves.refl s)
  rw [used, if_neg Bool.false_ne_true]
  apply Runs.bind_ok asks (Serves.refl s)
  cases mapped : s.mapped b with
  | true =>
    rw [if_pos rfl]
    exact Runs.pure ⟨Keeps.refl s, mapped⟩
  | false =>
    rw [if_neg Bool.false_ne_true]
    exact loadBlock_ends (has.resolve_right (by rw [mapped]; exact Bool.false_ne_true)) mapped small

/-- A directory of the tree in the cache. -/
structure SearchableIn (B : Nat → Prop) (s : Fs) (d : Nat) : Prop extends Inited s where
  tree : TreeIn B s.cell
  dir : DirIn B s.cell d
  cached : s.mapped (d / 1024) = true

abbrev Searchable : Fs → Nat → Prop := SearchableIn Every

theorem SearchableIn.keeps (h : SearchableIn B s d) (keeps : Keeps s s') :
    SearchableIn B s' d := by
  have same := keeps.cell
  refine ⟨h.toInited.grows keeps.toGrows (by rw [same]), ?_, ?_, keeps.mapped _ h.cached⟩
  · rw [same]
    exact h.tree
  · rw [same]
    exact h.dir

theorem SearchableIn.field (h : SearchableIn B s d) {k : Nat} (hk : k < 45) :
    s.mapped ((d + k) / 1024) = true := by
  have place := (h.tree.field_fixed h.nblocks h.dir.1 hk).2
  have block : (d + k) / 1024 = d / 1024 := by omega
  rw [block]
  exact h.cached

/-- A block of a directory has its number in a slot. -/
theorem SearchableIn.slot (h : SearchableIn B s d) (hi : i < nblock s.cell d)
    (hb : B (pointer s.cell d i)) :
    pointer s.cell d i = s.cell (slot s.cell d i) ∧ s.cell (slot s.cell d i) ≠ 0 ∧
      (ndirect ≤ i → s.cell (fIndirect d) ≠ 0) := by
  have nonzero := (h.tree.whole d h.dir i hi hb).1
  have slot_ : HasSlot s.cell d i := by
    by_contra none
    exact nonzero (if_neg none)
  have value : pointer s.cell d i = s.cell (Fs.slot s.cell d i) := if_pos slot_
  rw [value] at nonzero
  refine ⟨value, nonzero, fun high => ?_⟩
  cases slot_ with
  | inl direct => exact absurd direct (Nat.not_lt_of_le high)
  | inr indirect => exact indirect.2

theorem SearchableIn.direct (h : SearchableIn B s d) (low : i < ndirect) :
    s.mapped (fDirect d i / 1024) = true := by
  have below : i < 10 := low
  rw [fDirect, Nat.add_assoc]
  exact h.field (by omega)

/-- The indirect block of a directory is read, and its entries are in the cache. -/
theorem indirect_ends (h : SearchableIn B s d) (hi : i < nblock s.cell d)
    (hb : B (pointer s.cell d i)) (high : ndirect ≤ i)
    (has : Has short s (s.cell (fIndirect d))) :
    Ends short (readBlock (s.cell (fIndirect d))) s fun _ s' =>
      Keeps s s' ∧ s'.mapped (s.cell (fIndirect d)) = true ∧
        s'.mapped (blockWord (s.cell (fIndirect d)) i / 1024) = true := by
  obtain ⟨value, nonzero, indirect⟩ := h.slot hi hb
  rw [← value] at nonzero
  have used := h.tree.indirect d h.dir (by omega) (indirect high)
  have block : blockWord (s.cell (fIndirect d)) i / 1024 = s.cell (fIndirect d) := by
    have disk := h.nblocks
    exact blockWord_block (by omega) (pointer_below nonzero)
  apply Runs.mono (readBlock_ends h.toInited used.1 used.2 has)
  intro _ s' _ read
  rw [block]
  exact ⟨read.1, read.2, read.2⟩

/-- The pointer to a block of a directory is found as it is, whether or not one may be allocated. -/
theorem fileMapBlock_ends (h : SearchableIn B s d) (hi : i < nblock s.cell d)
    (hb : B (pointer s.cell d i)) (has : ndirect ≤ i → Has short s (s.cell (fIndirect d))) :
    Ends short (fileMapBlock d i alloc) s fun r s' =>
      r = .ok (pointer s.cell d i) ∧ Keeps s s' ∧
      (ndirect ≤ i → s'.mapped (s.cell (fIndirect d)) = true) := by
  obtain ⟨value, nonzero, indirect⟩ := h.slot hi hb
  have below := pointer_below (value ▸ nonzero)
  rw [value]
  unfold fileMapBlock fileBlockWalk
  by_cases direct : i < ndirect
  · rw [slot, if_pos direct] at nonzero ⊢
    rw [if_pos direct, pure_bind]
    apply Ends.load (h.direct direct)
    rw [if_neg nonzero]
    apply Ends.load (h.direct direct)
    exact Runs.pure ⟨rfl, Keeps.refl s, fun high => absurd direct (Nat.not_lt_of_le high)⟩
  · have high : ndirect ≤ i := Nat.le_of_not_lt direct
    have cached : s.mapped (fIndirect d / 1024) = true := h.field (by decide)
    rw [slot, if_neg direct] at nonzero ⊢
    rw [if_neg direct, if_pos below, bind_assoc]
    apply Ends.load cached
    rw [if_neg (indirect high)]
    unfold indirectEntry
    rw [bind_assoc]
    apply Ends.load cached
    rw [bind_assoc]
    apply Runs.bind (indirect_ends h hi hb high (has high))
    intro _ s₁ _ read
    rw [pure_bind]
    apply Ends.load read.2.2
    rw [read.1.cell, if_neg nonzero]
    apply Ends.load read.2.2
    rw [read.1.cell]
    exact Runs.pure ⟨rfl, read.1, fun _ => read.2.1⟩

theorem fileGetBlock_ends (h : SearchableIn B s d) (hi : i < nblock s.cell d)
    (hb : B (pointer s.cell d i)) (indirect : ndirect ≤ i → Has short s (s.cell (fIndirect d)))
    (has : Has short s (pointer s.cell d i)) :
    Ends short (fileGetBlock d i) s fun r s' => r = .ok (pointer s.cell d i) ∧ Keeps s s' ∧
      (ndirect ≤ i → s'.mapped (s.cell (fIndirect d)) = true) ∧
      s'.mapped (pointer s.cell d i) = true := by
  have whole := h.tree.whole d h.dir i hi hb
  unfold fileGetBlock
  apply Runs.bind (fileMapBlock_ends h hi hb indirect)
  intro r s₁ grows found
  obtain ⟨rfl, keeps, cached⟩ := found
  have h₁ := h.keeps keeps
  apply Runs.bind (readBlock_ends h₁.toInited (by rw [keeps.cell]; exact whole.2.1)
    (by rw [keeps.cell]; exact whole.2.2) (has.grows grows.toGrows))
  intro _ s₂ _ read
  exact Runs.pure ⟨rfl, keeps.trans read.1, fun high => read.1.mapped _ (cached high), read.2⟩

theorem setDir_relink (cached : s.mapped (f / 1024) = true) (place : f % 1024 ≤ 960) (d : Nat) :
    ∃ s', setDir f d s = .ok ((), s') ∧ Serves short s s' ∧ s'.cell = relink s.cell f d := by
  have low : fDirLow f / 1024 = f / 1024 := by
    unfold fDirLow
    omega
  have high : fDirHigh f / 1024 = f / 1024 := by
    unfold fDirHigh
    omega
  obtain ⟨s₁, first, grows₁, cell₁⟩ := store_serves (by rw [low]; exact cached) (diskmap + 4 * d)
  obtain ⟨s₂, second, grows₂, cell₂⟩ := store_serves (w := fDirHigh f)
    (by rw [high]; exact grows₁.mapped _ cached) ((diskmap + 4 * d) / 2 ^ 32)
  refine ⟨s₂, ?_, grows₁.trans grows₂, ?_⟩
  · unfold setDir
    rw [bind_ok first]
    exact second
  · rw [cell₂, cell₁]
    rfl

/-- What a look-up gives for the file that is to be found. -/
def Looked (c : Nat → Nat) (d : Nat) (found : Option Nat) (r : Except Int Nat) (s' : Fs) : Prop :=
  match found with
  | some f => r = .ok f ∧ s'.cell = relink c f d ∧ s'.mapped (f / 1024) = true
  | none => r = .error (-eNotFound) ∧ s'.cell = c

/-- The files of a block that is in the cache have the names that the tree has. -/
theorem findName_eq {c : Nat → Nat} (cell : s.cell = c) (cached : s.mapped b = true)
    (small : b < 2 ^ 20) {name : List Nat} (short : name.length < maxnamelen) :
    findName s b name = (filesIn b).find? fun f => hasName c f name := by
  have same : ∀ f ∈ filesIn b, s.nameIs f name = hasName c f name := by
    intro f hf
    obtain ⟨j, hj, rfl⟩ := (mem_filesIn small).mp hf
    have few : j < 16 := hj
    apply @hasName_congr c s.word (1024 * b + 64 * j) name _ short
    intro k hk
    have block : (1024 * b + 64 * j + k) / 1024 = b := by omega
    rw [← cell, Fs.cell, if_pos (by rw [block]; exact cached)]
  exact List.find?_congr same

/-- The blocks that a look-up reads, from block `i` on. -/
def Scans (X : Nat → Prop) (c : Nat → Nat) (d : Nat) (name : List Nat) : Nat → Nat → Prop
  | 0, _ => True
  | n + 1, i =>
    (ndirect ≤ i → X (c (fIndirect d))) ∧ X (pointer c d i) ∧
      (((filesIn (pointer c d i)).find? fun f => hasName c f name) = none →
        Scans X c d name n (i + 1))

theorem Scans.mono {X Y : Nat → Prop} {c : Nat → Nat} {name : List Nat}
    (weaker : ∀ b, X b → Y b) {n i : Nat} (h : Scans X c d name n i) : Scans Y c d name n i := by
  induction n generalizing i with
  | zero => trivial
  | succ n ih =>
    exact ⟨fun high => weaker _ (h.1 high), weaker _ h.2.1, fun none_ => ih (h.2.2 none_)⟩

theorem Scans.of_all {X : Nat → Prop} (all : ∀ b, X b) (c : Nat → Nat) (d : Nat)
    (name : List Nat) (n i : Nat) :
    Scans X c d name n i := by
  induction n generalizing i with
  | zero => trivial
  | succ n ih => exact ⟨fun _ => all _, all _, fun _ => ih (i + 1)⟩

/-- A block of the directory is searched, and then the rest. -/
theorem searchBlock_ends {name : List Nat} (fits : name.length < maxnamelen)
    (h : SearchableIn B s d) (hi : i < nblock s.cell d) (hb : B (pointer s.cell d i))
    (cached : s.mapped (pointer s.cell d i) = true) {next : FsM (Except Int Nat)}
    {found : Option Nat} {R : Fs → Prop}
    (rest : ((filesIn (pointer s.cell d i)).find? fun f => hasName s.cell f name) = none →
      Ends short next s fun r s' => Looked s.cell d found r s' ∧ R s') :
    Ends short (do
      match findName (← get) (pointer s.cell d i) name with
      | some f => do
        setDir f d
        pure (.ok f)
      | none => next) s fun r s' =>
        Looked s.cell d
          (((filesIn (pointer s.cell d i)).find? fun f => hasName s.cell f name).or found) r s' ∧
          (((filesIn (pointer s.cell d i)).find? fun f => hasName s.cell f name) =
            none → R s') := by
  have small := h.tree.pointer_small h.nblocks h.dir hi hb
  apply Runs.bind_ok (show (get : FsM Fs) s = .ok (s, s) from rfl) (Serves.refl s)
  rw [findName_eq rfl cached small fits]
  cases here : (filesIn (pointer s.cell d i)).find? fun f => hasName s.cell f name with
  | some f =>
    obtain ⟨j, hj, place⟩ := (mem_filesIn small).mp (List.mem_of_find?_eq_some here)
    have few : j < 16 := hj
    have block : f / 1024 = pointer s.cell d i := by omega
    have cached' : s.mapped (f / 1024) = true := by
      rw [block]
      exact cached
    obtain ⟨s₂, set, grows, cell⟩ := setDir_relink cached' (by omega) d
    apply Runs.bind_ok set grows
    exact Runs.pure ⟨⟨rfl, cell, grows.mapped _ cached'⟩, fun none_ => nomatch none_⟩
  | none =>
    apply Runs.mono (rest here)
    intro r s' _ looked
    exact ⟨looked.1, fun _ => looked.2⟩

/-- The files of the blocks from block `i` on. -/
theorem find_files (c : Nat → Nat) (d n i : Nat) (p : Nat → Bool) :
    ((List.range' i (n + 1)).flatMap fun i => filesIn (pointer c d i)).find? p =
      ((filesIn (pointer c d i)).find? p).or
      (((List.range' (i + 1) n).flatMap fun i => filesIn (pointer c d i)).find? p) := by
  rw [List.range'_succ, List.flatMap_cons, List.find?_append]

/-- A file that is found is in one of the blocks that the look-up reads. -/
theorem Scans.listed {c : Nat → Nat} {name : List Nat} {n : Nat} (h : Scans B c d name n i)
    (hn : i + n = nblock c d)
    (found : (((List.range' i n).flatMap fun i => filesIn (pointer c d i)).find? fun f =>
      hasName c f name) = some f) : Listed B c d f := by
  induction n generalizing i with
  | zero => cases found
  | succ n ih =>
    rw [find_files] at found
    cases here : (filesIn (pointer c d i)).find? fun f => hasName c f name with
    | some g =>
      rw [here, Option.some_or] at found
      rw [← Option.some.inj found]
      exact ⟨i, by omega, h.2.1, List.mem_of_find?_eq_some here⟩
    | none =>
      rw [here, Option.none_or] at found
      exact ih (h.2.2 here) (by omega) found

theorem Scans.child {c : Nat → Nat} {name : List Nat} (h : Scans B c d name (nblock c d) 0)
    (found : childOf c d name = some f) : Listed B c d f := by
  unfold childOf files at found
  rw [List.range_eq_range'] at found
  exact h.listed (Nat.zero_add _) found

theorem lookupFrom_ends {name : List Nat} (fits : name.length < maxnamelen)
    (h : SearchableIn B s d) (n i : Nat) (hn : i + n = nblock s.cell d)
    (there : Scans B s.cell d name n i) (has : Scans (Has short s) s.cell d name n i) :
    Ends short (lookupFrom d name n i) s fun r s' =>
      Looked s.cell d
      (((List.range' i n).flatMap fun i => filesIn (pointer s.cell d i)).find? fun f =>
        hasName s.cell f name) r s' ∧ Scans (fun b => s'.mapped b = true) s.cell d name n i := by
  induction n generalizing s i with
  | zero => exact Runs.pure ⟨⟨rfl, rfl⟩, trivial⟩
  | succ n ih =>
    have hi : i < nblock s.cell d := by omega
    unfold lookupFrom
    rw [find_files]
    apply Runs.bind (fileGetBlock_ends h hi there.2.1 has.1 has.2.1)
    intro r s₁ grows₁ got
    obtain ⟨rfl, keeps, indirect, cached⟩ := got
    have h₁ := h.keeps keeps
    have rest
        (none_ : ((filesIn (pointer s₁.cell d i)).find? fun f => hasName s₁.cell f name) = none) :=
      ih h₁ (i + 1) (by rw [keeps.cell]; omega)
        (by
          rw [keeps.cell] at none_ ⊢
          exact there.2.2 none_)
        (by
          rw [keeps.cell] at none_ ⊢
          exact (has.2.2 none_).mono fun b hb => hb.grows grows₁.toGrows)
    have hb := there.2.1
    rw [← keeps.cell] at cached indirect hi hb ⊢
    apply Runs.mono (searchBlock_ends fits h₁ hi hb cached rest)
    intro r s' grows looked
    exact ⟨looked.1, fun high => grows.mapped _ (indirect high), grows.mapped _ cached, looked.2⟩

/-- A look-up finds the first file of the name, and stores its directory into it. -/
theorem dirLookup_ends {name : List Nat} (fits : name.length < maxnamelen)
    (h : SearchableIn B s d) (there : Scans B s.cell d name (nblock s.cell d) 0)
    (has : Scans (Has short s) s.cell d name (nblock s.cell d) 0) :
    Ends short (dirLookup d name) s fun r s' =>
      Looked s.cell d (childOf s.cell d name) r s' ∧
        Scans (fun b => s'.mapped b = true) s.cell d name (nblock s.cell d) 0 := by
  unfold dirLookup
  apply Ends.load (h.field (by decide))
  have all := lookupFrom_ends fits h (nblock s.cell d) 0 (Nat.zero_add _) there has
  rw [← List.range_eq_range'] at all
  exact all

end Blocks

end FsM

end RiscvMos
