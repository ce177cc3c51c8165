import Mathlib.Data.ZMod.Defs
import RiscvMos.Env.UserMem
import RiscvMos.Lib.Bytes
import RiscvMos.Lib.Except
import RiscvMos.Lib.PageImage

/-!
`include/elf.h` and `lib/elfloader.c`: the headers of a 64-bit ELF file, and
`elf_load_seg_64`, which walks over the pages of a segment and leaves each of
them to a mapper. What a walk amounts to is the list of its mapper calls.
-/

open PageImage

namespace RiscvMos

/-- The bytes of an ELF file. -/
abbrev Binary := Nat → Fin 256

namespace Elf

/-- A field of `n` bytes at offset `a`. -/
def field (binary : Binary) (a n : Nat) : Nat := Bytes.load (fun x => binary x) a n

/-- `elf_from_64`: the size, the magic number and `e_type == 2`. -/
def elfFrom64 (binary : Binary) (size : Nat) : Bool :=
  64 ≤ size && binary 0 == 0x7f && binary 1 == 0x45 && binary 2 == 0x4c && binary 3 == 0x46 &&
    field binary 16 2 == 2

def eEntry (binary : Binary) : Nat := field binary 24 8
def ePhoff (binary : Binary) : Nat := field binary 32 8
def ePhentsize (binary : Binary) : Nat := field binary 54 2
def ePhnum (binary : Binary) : Nat := field binary 56 2

/-- `PT_LOAD`. -/
def ptLoad := 1
def pfR := 4
def pfW := 2
def pfX := 1

structure Phdr where
  pType : Nat
  pFlags : Nat
  pOffset : Nat
  pVaddr : Nat
  pFilesz : Nat
  pMemsz : Nat
  deriving DecidableEq, Repr

def phdrAt (binary : Binary) (off : Nat) : Phdr where
  pType := field binary off 4
  pFlags := field binary (off + 4) 4
  pOffset := field binary (off + 8) 8
  pVaddr := field binary (off + 16) 8
  pFilesz := field binary (off + 32) 8
  pMemsz := field binary (off + 40) 8

/-- `ELF_FOREACH_PHDR_OFF`. -/
def phdrs (binary : Binary) : List Phdr :=
  (List.range (ePhnum binary)).map fun i => phdrAt binary
    (uLong (ePhoff binary + i * ePhentsize binary))

/-- The arguments of a mapper. `src` is an offset in the file, or `NULL`. -/
structure MapperCall where
  va : Nat
  offset : Nat
  perm : Nat
  src : Option Nat
  len : Nat
  deriving DecidableEq, Repr

/-- `elf_mapper_t`. -/
abbrev Mapper (σ : Type) := σ → MapperCall → Except Halt (Int × σ)

section
variable {σ : Type}

/-- `if ((r = …) != 0) return r;`, and then the rest. -/
def andThen (x : Except Halt (Int × σ)) (f : σ → Except Halt (Int × σ)) :
    Except Halt (Int × σ) := do
  let (r, s) ← x
  if r ≠ 0 then .ok (r, s) else f s

/-- `n` turns of a loop with `i += PAGE_SIZE` that a code other than 0 ends. -/
def forPages (body : σ → Nat → Except Halt (Int × σ)) : Nat → Nat → σ → Except Halt (Int × σ)
  | 0, _, s => .ok (0, s)
  | n + 1, i, s => andThen (body s i) (forPages body n (i + 4096))

/-- How many turns such a loop makes from `i` while `i < size`. -/
def pagesTo (i size : Nat) : Nat := (size - i + 4095) / 4096

end

namespace Phdr

def perm (ph : Phdr) : Nat :=
  let perm := pteV ||| pteU
  let perm := if ph.pFlags &&& pfR ≠ 0 then perm ||| pteR else perm
  let perm := if ph.pFlags &&& pfW ≠ 0 then perm ||| pteW else perm
  if ph.pFlags &&& pfX ≠ 0 then perm ||| pteX else perm

/-- `va - ROUNDDOWN(va, PAGE_SIZE)`. -/
def offset (ph : Phdr) : Nat := ph.pVaddr - ph.pVaddr / 4096 * 4096

/-- Where the index `i` starts. -/
def start (ph : Phdr) : Nat := if ph.offset ≠ 0 then min ph.pFilesz (4096 - ph.offset) else 0

/-- Where the first loop leaves the index. -/
def rest (ph : Phdr) : Nat := ph.start + 4096 * pagesTo ph.start ph.pFilesz

end Phdr

section
variable {σ : Type}

/-- `elf_load_seg_64`, for a segment that ends below `2^64`: no address wraps. -/
def elfLoadSeg64 (mapper : Mapper σ) (ph : Phdr) (bin : Nat) (s : σ) : Except Halt (Int × σ) :=
  let va := ph.pVaddr
  let binSize := ph.pFilesz
  let sgsize := ph.pMemsz
  andThen
    (if ph.offset ≠ 0 then mapper s
      ⟨va, ph.offset, ph.perm, some bin, min binSize (4096 - ph.offset)⟩
    else .ok (0, s)) fun s =>
  andThen
    (forPages (fun s i => mapper s ⟨va + i, 0, ph.perm, some (bin + i), min (binSize - i) 4096⟩)
      (pagesTo ph.start binSize) ph.start s) fun s =>
  forPages (fun s i => mapper s ⟨va + i, 0, ph.perm, none, min (uLongSub binSize i) 4096⟩)
    (pagesTo ph.rest sgsize) ph.rest s

/-- The loop over the program headers, up to a code other than 0. -/
def loadSegs (mapper : Mapper σ) : List Phdr → σ → Except Halt (Int × σ)
  | [], s => .ok (0, s)
  | ph :: phs, s =>
    if ph.pType = ptLoad then andThen (elfLoadSeg64 mapper ph ph.pOffset s) (loadSegs mapper phs)
    else loadSegs mapper phs s

/-! ## The calls of a walk -/

/-- Mapper calls one after the other, up to a code other than 0. -/
def runCalls (mapper : Mapper σ) : List MapperCall → σ → Except Halt (Int × σ)
  | [], s => .ok (0, s)
  | c :: cs, s => andThen (mapper s c) (runCalls mapper cs)

end

namespace Phdr

def headCalls (ph : Phdr) (bin : Nat) : List MapperCall :=
  if ph.offset ≠ 0 then [⟨ph.pVaddr, ph.offset, ph.perm, some bin,
    min ph.pFilesz (4096 - ph.offset)⟩] else []

def fileCalls (ph : Phdr) (bin : Nat) : List MapperCall :=
  (List.range' ph.start (pagesTo ph.start ph.pFilesz) 4096).map fun i =>
    ⟨ph.pVaddr + i, 0, ph.perm, some (bin + i), min (ph.pFilesz - i) 4096⟩

def zeroCalls (ph : Phdr) : List MapperCall :=
  (List.range' ph.rest (pagesTo ph.rest ph.pMemsz) 4096).map fun i =>
    ⟨ph.pVaddr + i, 0, ph.perm, none, min (uLongSub ph.pFilesz i) 4096⟩

def calls (ph : Phdr) (bin : Nat) : List MapperCall :=
  ph.headCalls bin ++ ph.fileCalls bin ++ ph.zeroCalls

end Phdr

/-- The segments that are loaded. -/
def loads (phs : List Phdr) : List Phdr := phs.filter fun ph => ph.pType = ptLoad

def loadCalls (phs : List Phdr) : List MapperCall :=
  (loads phs).flatMap fun ph => ph.calls ph.pOffset

section
variable {σ : Type} {mapper : Mapper σ} {s s' : σ}

theorem andThen_ok (f : σ → Except Halt (Int × σ)) : andThen (.ok (0, s)) f = f s := rfl

theorem andThen_stop {r : Int} (h : r ≠ 0) (f : σ → Except Halt (Int × σ)) :
    andThen (.ok (r, s)) f = .ok (r, s) :=
  if_pos h

theorem andThen_ret (x : Except Halt (Int × σ)) : andThen x (fun s => .ok (0, s)) = x := by
  cases x with
  | error e => rfl
  | ok p =>
    obtain ⟨r, s⟩ := p
    show (if r ≠ 0 then _ else _) = _
    split
    · rfl
    · rename_i zero
      rw [not_not.mp zero]

theorem andThen_assoc (x : Except Halt (Int × σ)) (f g : σ → Except Halt (Int × σ)) :
    andThen (andThen x f) g = andThen x fun s => andThen (f s) g := by
  cases x with
  | error e => rfl
  | ok p =>
    obtain ⟨r, s⟩ := p
    by_cases zero : r = 0
    · subst zero
      rfl
    · rw [andThen_stop zero, andThen_stop zero, andThen_stop zero]

theorem runCalls_append (cs cs' : List MapperCall) (s : σ) :
    runCalls mapper (cs ++ cs') s = andThen (runCalls mapper cs s) (runCalls mapper cs') := by
  induction cs generalizing s with
  | nil => rfl
  | cons c cs ih =>
    have rest : runCalls mapper (cs ++ cs') = fun s => andThen (runCalls mapper cs s)
        (runCalls mapper cs') :=
      funext ih
    rw [List.cons_append, runCalls, rest, runCalls, andThen_assoc]

theorem forPages_eq (call : Nat → MapperCall) (n i : Nat) (s : σ) :
    forPages (fun s i => mapper s (call i)) n i s =
    runCalls mapper ((List.range' i n 4096).map call) s := by
  induction n generalizing i s with
  | zero => rfl
  | succ n ih =>
    have rest : forPages (fun s i => mapper s (call i)) n (i + 4096) =
        runCalls mapper ((List.range' (i + 4096) n 4096).map call) := funext (ih (i + 4096))
    rw [forPages, rest, List.range'_succ, List.map_cons, runCalls]

theorem elfLoadSeg64_eq (ph : Phdr) (bin : Nat) (s : σ) :
    elfLoadSeg64 mapper ph bin s = runCalls mapper (ph.calls bin) s := by
  have head : (if ph.offset ≠ 0 then
        mapper s ⟨ph.pVaddr, ph.offset, ph.perm, some bin, min ph.pFilesz (4096 - ph.offset)⟩
        else .ok (0, s)) =
      runCalls mapper (ph.headCalls bin) s := by
    unfold Phdr.headCalls
    split
    · exact (andThen_ret _).symm
    · rfl
  have file := @forPages_eq _ mapper
    fun i => ⟨ph.pVaddr + i, 0, ph.perm, some (bin + i), min (ph.pFilesz - i) 4096⟩
  have zero := @forPages_eq _ mapper
    fun i => ⟨ph.pVaddr + i, 0, ph.perm, none, min (uLongSub ph.pFilesz i) 4096⟩
  unfold elfLoadSeg64 Phdr.calls
  simp only [head, file, zero, runCalls_append, andThen_assoc]
  rfl

theorem loadSegs_eq (phs : List Phdr) (s : σ) :
    loadSegs mapper phs s = runCalls mapper (loadCalls phs) s := by
  induction phs generalizing s with
  | nil => rfl
  | cons ph phs ih =>
    have rest : loadSegs mapper phs = runCalls mapper (loadCalls phs) := funext ih
    unfold loadSegs loadCalls loads
    rw [rest, List.filter_cons]
    by_cases load : ph.pType = ptLoad
    · rw [if_pos load, if_pos (decide_eq_true load), List.flatMap_cons, runCalls_append,
        elfLoadSeg64_eq]
      rfl
    · rw [if_neg load, if_neg (by simpa using load)]
      rfl

end

/-- The bytes that a mapper is to store. -/
def MapperCall.visit (binary : Binary) (c : MapperCall) : Visit (Fin 256) where
  addr := c.va
  len := if c.src.isSome then c.len else 0
  byte := fun i => binary (c.src.getD 0 + i)

namespace Phdr

/-! ## Which pages a walk visits -/

/-- The file part ends inside the head page: the index is not brought to the end of a page. -/
def ShortHead (ph : Phdr) : Prop := ph.pVaddr % 4096 ≠ 0 ∧ ph.pVaddr % 4096 + ph.pFilesz < 4096

instance (ph : Phdr) : Decidable ph.ShortHead := inferInstanceAs (Decidable (_ ∧ _))

/-- The last page that the walk over a segment visits. -/
def lastVisited (ph : Phdr) : Nat :=
  if ph.ShortHead then ph.pVaddr / 4096 + (ph.pMemsz - ph.pFilesz - 1) / 4096
  else (ph.pVaddr + ph.pMemsz - 1) / 4096

/-- The walk visits page `p`. -/
def Visits (ph : Phdr) (p : Nat) : Prop :=
  (ph.pVaddr % 4096 ≠ 0 ∨ 0 < ph.pMemsz) ∧ ph.pVaddr / 4096 ≤ p ∧ p ≤ ph.lastVisited

instance (ph : Phdr) (p : Nat) : Decidable (ph.Visits p) := inferInstanceAs (Decidable (_ ∧ _))

variable {ph : Phdr} {bin a p : Nat} {binary : Binary} {c : MapperCall} {us ws : List MapperCall}

theorem offset_eq (ph : Phdr) : ph.offset = ph.pVaddr % 4096 := by
  unfold offset
  omega

theorem start_aligned (h : ph.pVaddr % 4096 = 0) : ph.start = 0 := by
  unfold start
  rw [offset_eq, h]
  exact if_neg (by simp)

theorem start_unaligned (h : ph.pVaddr % 4096 ≠ 0) :
    ph.start = min ph.pFilesz (4096 - ph.pVaddr % 4096) := by
  unfold start
  rw [offset_eq, if_pos h]

theorem mem_fileCalls : c ∈ ph.fileCalls bin ↔ ∃ m < pagesTo ph.start ph.pFilesz,
    c = ⟨ph.pVaddr + (ph.start + 4096 * m), 0, ph.perm, some (bin + (ph.start + 4096 * m)),
      min (ph.pFilesz - (ph.start + 4096 * m)) 4096⟩ := by
  unfold fileCalls
  constructor
  · intro h
    obtain ⟨i, hi, rfl⟩ := List.mem_map.mp h
    obtain ⟨m, hm, rfl⟩ := List.mem_range'.mp hi
    exact ⟨m, hm, rfl⟩
  · intro ⟨m, hm, h⟩
    exact List.mem_map.mpr ⟨_, List.mem_range'.mpr ⟨m, hm, rfl⟩, h.symm⟩

theorem mem_zeroCalls (h : c ∈ ph.zeroCalls) : c.src = none := by
  obtain ⟨i, -, rfl⟩ := List.mem_map.mp h
  rfl

theorem mem_headCalls : c ∈ ph.headCalls bin ↔ ph.pVaddr % 4096 ≠ 0 ∧
    c = ⟨ph.pVaddr, ph.pVaddr % 4096, ph.perm, some bin,
      min ph.pFilesz (4096 - ph.pVaddr % 4096)⟩ := by
  unfold headCalls
  rw [offset_eq]
  split
  · rename_i h
    simp [h]
  · rename_i h
    simp [not_not.mp h]

theorem not_covers_zero (h : c ∈ ph.zeroCalls) : ¬ (c.visit binary).Covers a := by
  unfold Visit.Covers MapperCall.visit
  rw [mem_zeroCalls h]
  simp

/-- A call that stores something: which bytes of the file, and where. -/
structure Copies (ph : Phdr) (bin : Nat) (c : MapperCall) (i : Nat) : Prop where
  va : c.va = ph.pVaddr + i
  src : c.src = some (bin + i)
  offset : c.offset = c.va % 4096
  page : c.va % 4096 + c.len ≤ 4096
  file : c.len = 0 ∨ i + c.len ≤ ph.pFilesz

theorem copies_of_head (h : c ∈ ph.headCalls bin) : Copies ph bin c 0 := by
  obtain ⟨-, rfl⟩ := mem_headCalls.mp h
  constructor
  · rfl
  · rfl
  · rfl
  · show ph.pVaddr % 4096 + min ph.pFilesz (4096 - ph.pVaddr % 4096) ≤ 4096
    omega
  · right
    show 0 + min ph.pFilesz (4096 - ph.pVaddr % 4096) ≤ ph.pFilesz
    omega

/-- The first loop starts at the end of a page. -/
theorem loop_aligned (h : 0 < pagesTo ph.start ph.pFilesz) : (ph.pVaddr + ph.start) % 4096 = 0 := by
  by_cases zero : ph.pVaddr % 4096 = 0
  · rw [start_aligned zero]
    exact zero
  · unfold pagesTo at h
    rw [start_unaligned zero] at h ⊢
    omega

theorem copies_of_file (h : c ∈ ph.fileCalls bin) : ∃ i, Copies ph bin c i := by
  obtain ⟨m, hm, rfl⟩ := mem_fileCalls.mp h
  have aligned : (ph.pVaddr + ph.start) % 4096 = 0 := loop_aligned (by omega)
  have page : (ph.pVaddr + (ph.start + 4096 * m)) % 4096 = 0 := by omega
  refine ⟨ph.start + 4096 * m, rfl, rfl, page.symm, ?_, ?_⟩
  · show (ph.pVaddr + (ph.start + 4096 * m)) % 4096 + min
      (ph.pFilesz - (ph.start + 4096 * m)) 4096 ≤ 4096
    omega
  · show min (ph.pFilesz - (ph.start + 4096 * m)) 4096 = 0 ∨
      ph.start + 4096 * m + min (ph.pFilesz - (ph.start + 4096 * m)) 4096 ≤ ph.pFilesz
    omega

/-- Every call of a walk stores bytes of the file at their place, or none. -/
theorem calls_cases (h : c ∈ ph.calls bin) : (∃ i, Copies ph bin c i) ∨ c.src = none := by
  unfold calls at h
  rw [List.mem_append, List.mem_append] at h
  rcases h with (h | h) | h
  · exact .inl ⟨0, copies_of_head h⟩
  · exact .inl (copies_of_file h)
  · exact .inr (mem_zeroCalls h)

theorem Copies.covers {i : Nat} (h : Copies ph bin c i) :
    (c.visit binary).Covers a ↔ ph.pVaddr + i ≤ a ∧ a < ph.pVaddr + i + c.len := by
  unfold Visit.Covers MapperCall.visit
  rw [h.va, h.src]
  rfl

theorem covers_cases (h : c ∈ ph.calls bin) (covers : (c.visit binary).Covers a) :
    ∃ i, Copies ph bin c i := by
  cases calls_cases h with
  | inl copies => exact copies
  | inr none =>
    unfold Visit.Covers MapperCall.visit at covers
    rw [none] at covers
    exact absurd covers.2 (Nat.not_lt.mpr covers.1)

theorem calls_within (h : c ∈ ph.calls bin) : (c.visit binary).Within 4096 := by
  intro a covers
  obtain ⟨i, copies⟩ := covers_cases h covers
  have range := copies.covers.mp covers
  have page := copies.page
  show a / 4096 = c.va / 4096
  rw [copies.va] at page ⊢
  omega

/-- What a walk stores is the file part. -/
theorem calls_stored (h : c ∈ ph.calls bin) (covers : (c.visit binary).Covers a) :
    ∃ j < ph.pFilesz, a = ph.pVaddr + j ∧ (c.visit binary).stored a = binary (bin + j) := by
  obtain ⟨i, copies⟩ := covers_cases h covers
  have range := copies.covers.mp covers
  have file := copies.file
  refine ⟨a - ph.pVaddr, by omega, by omega, ?_⟩
  show binary (c.src.getD 0 + (a - c.va)) = binary (bin + (a - ph.pVaddr))
  rw [copies.src, copies.va]
  congr 1
  show bin + i + _ = _
  omega

/-- Every byte of the file part is stored. -/
theorem calls_cover {j : Nat} (hj : j < ph.pFilesz) :
    ∃ c ∈ ph.calls bin, (c.visit binary).Covers (ph.pVaddr + j) := by
  by_cases head : j < ph.start
  · have off : ph.pVaddr % 4096 ≠ 0 := by
      intro zero
      rw [start_aligned zero] at head
      exact absurd head (Nat.not_lt_zero j)
    have start := start_unaligned off
    have call := @mem_headCalls ph bin _ |>.mpr ⟨off, rfl⟩
    refine ⟨_, List.mem_append_left _ (List.mem_append_left _ call),
      (copies_of_head call).covers.mpr ?_⟩
    dsimp only
    omega
  · have turns : (j - ph.start) / 4096 < pagesTo ph.start ph.pFilesz := by
      unfold pagesTo
      omega
    have call := @mem_fileCalls ph bin _ |>.mpr ⟨_, turns, rfl⟩
    refine ⟨_, List.mem_append_left _ (List.mem_append_right _ call), ?_⟩
    unfold Visit.Covers MapperCall.visit
    dsimp only [Option.isSome]
    rw [if_pos rfl]
    omega

theorem pages_range' (va i n : Nat) :
    (List.range' i n 4096).map (fun i => (va + i) / 4096) = List.range' ((va + i) / 4096) n := by
  induction n generalizing i with
  | zero => rfl
  | succ n ih =>
    have next : (va + (i + 4096)) / 4096 = (va + i) / 4096 + 1 := by omega
    rw [List.range'_succ, List.map_cons, ih, next, List.range'_succ]

theorem pages_calls (ph : Phdr) (bin : Nat) : (ph.calls bin).map (fun c => c.va / 4096) =
    (if ph.pVaddr % 4096 ≠ 0 then [ph.pVaddr / 4096] else []) ++
      List.range' ((ph.pVaddr + ph.start) / 4096) (pagesTo ph.start ph.pFilesz) ++
      List.range' ((ph.pVaddr + ph.rest) / 4096) (pagesTo ph.rest ph.pMemsz) := by
  have head : (ph.headCalls bin).map (fun c => c.va / 4096) =
      if ph.pVaddr % 4096 ≠ 0 then [ph.pVaddr / 4096] else [] := by
    unfold headCalls
    rw [offset_eq]
    split <;> rfl
  unfold calls fileCalls zeroCalls
  rw [List.map_append, List.map_append, List.map_map, List.map_map, head,
    ← pages_range', ← pages_range']
  rfl

/-- After a short head page the second loop starts inside it. -/
theorem pages_short (h : ph.ShortHead) : (ph.calls bin).map (fun c => c.va / 4096) =
    ph.pVaddr / 4096 :: List.range' (ph.pVaddr / 4096) (pagesTo ph.pFilesz ph.pMemsz) := by
  obtain ⟨off, short⟩ := h
  have start : ph.start = ph.pFilesz := by
    rw [start_unaligned off]
    omega
  have turns : pagesTo ph.pFilesz ph.pFilesz = 0 := by
    unfold pagesTo
    omega
  have rest : ph.rest = ph.pFilesz := by
    unfold rest
    rw [start, turns]
    omega
  have page : (ph.pVaddr + ph.pFilesz) / 4096 = ph.pVaddr / 4096 := by omega
  rw [pages_calls, if_pos off, start, rest, turns, page]
  rfl

/-- Otherwise the walk goes from page to page. -/
theorem pages_long (h : ¬ ph.ShortHead) (size : ph.pFilesz ≤ ph.pMemsz) :
    (ph.calls bin).map (fun c => c.va / 4096) =
      List.range' (ph.pVaddr / 4096) ((ph.pVaddr % 4096 + ph.pMemsz + 4095) / 4096) := by
  have between : (ph.pVaddr + ph.rest) / 4096 =
      (ph.pVaddr + ph.start) / 4096 + pagesTo ph.start ph.pFilesz := by
    unfold rest
    omega
  rw [pages_calls, between, List.append_assoc, List.range'_append_1]
  by_cases off : ph.pVaddr % 4096 = 0
  · have count : pagesTo ph.start ph.pFilesz + pagesTo ph.rest ph.pMemsz =
        (ph.pVaddr % 4096 + ph.pMemsz + 4095) / 4096 := by
      unfold rest
      rw [start_aligned off]
      unfold pagesTo
      omega
    rw [if_neg (not_not.mpr off), count, start_aligned off]
    rfl
  · have start : ph.start = 4096 - ph.pVaddr % 4096 := by
      unfold ShortHead at h
      rw [start_unaligned off]
      omega
    have next : (ph.pVaddr + ph.start) / 4096 = ph.pVaddr / 4096 + 1 := by omega
    have count : (ph.pVaddr % 4096 + ph.pMemsz + 4095) / 4096 =
        pagesTo ph.start ph.pFilesz + pagesTo ph.rest ph.pMemsz + 1 := by
      unfold rest
      rw [start]
      unfold pagesTo
      have fills : 4096 ≤ ph.pVaddr % 4096 + ph.pFilesz := by
        unfold ShortHead at h
        omega
      omega
    rw [if_pos off, next, count, List.range'_succ]
    rfl

/-- The pages that the calls of a walk are for. -/
theorem visits_iff (size : ph.pFilesz ≤ ph.pMemsz) :
    ph.Visits p ↔ ∃ c ∈ ph.calls bin, c.va / 4096 = p := by
  have pages : (∃ c ∈ ph.calls bin, c.va / 4096 = p) ↔
      p ∈ (ph.calls bin).map (fun c => c.va / 4096) :=
    List.mem_map.symm
  rw [pages]
  unfold Visits lastVisited
  by_cases short : ph.ShortHead
  · rw [if_pos short, pages_short short, List.mem_cons, List.mem_range'_1]
    have off := short.1
    unfold pagesTo
    omega
  · rw [if_neg short, pages_long short size, List.mem_range'_1]
    omega

/-- A short head page is visited for the file part, and the other pages for zeros. -/
theorem calls_short (h : ph.ShortHead) : ∃ c, ph.calls bin = c :: ph.zeroCalls := by
  have turns : pagesTo ph.start ph.pFilesz = 0 := by
    have short := h.2
    rw [start_unaligned h.1]
    unfold pagesTo
    omega
  unfold calls fileCalls headCalls
  rw [turns, offset_eq, if_pos h.1]
  exact ⟨_, rfl⟩

/-- A page of the file part is visited once more by the same walk if zeros
follow a short head page, and its bytes are stored once. -/
theorem again_iff (size : ph.pFilesz ≤ ph.pMemsz) (split : ph.calls bin = us ++ c :: ws)
    (covers : (c.visit binary).Covers a) :
    ((∃ w ∈ ws, w.va / 4096 = a / 4096) ↔ ph.ShortHead ∧ ph.pFilesz < ph.pMemsz) ∧
      ∀ w ∈ ws, ¬ (w.visit binary).Covers a := by
  have call : c ∈ ph.calls bin := by simp [split]
  have later : ∀ w ∈ ws, w ∈ ph.calls bin := by
    intro w hw
    simp [split, hw]
  have page : a / 4096 = c.va / 4096 := calls_within call a covers
  have mem : (∃ w ∈ ws, w.va / 4096 = a / 4096) ↔ a / 4096 ∈ ws.map (fun c => c.va / 4096) :=
    List.mem_map.symm
  by_cases short : ph.ShortHead
  · obtain ⟨head, shape⟩ := @calls_short _ bin short
    have pages := @pages_short _ bin short
    rw [shape] at split pages
    have first : us = [] := by
      cases us with
      | nil => rfl
      | cons u us =>
        have zero : c ∈ ph.zeroCalls := by
          rw [(List.cons.inj split).2]
          simp
        exact absurd covers (not_covers_zero zero)
    rw [first] at split
    obtain ⟨rfl, zeros⟩ := List.cons.inj split
    obtain ⟨here, others⟩ := List.cons.inj pages
    have here : head.va / 4096 = ph.pVaddr / 4096 := here
    constructor
    · rw [mem, ← zeros, others, List.mem_range'_1, page, here]
      unfold pagesTo
      constructor
      · intro h
        exact ⟨short, by omega⟩
      · intro h
        omega
    · intro w hw
      rw [← zeros] at hw
      exact not_covers_zero hw
  · have pages := @pages_long ph bin short size
    rw [split, List.map_append, List.map_cons] at pages
    have nodup :
        (us.map (fun c : MapperCall => c.va / 4096) ++ c.va / 4096 :: ws.map
          (fun c => c.va / 4096)).Nodup := by
      rw [pages]
      exact List.nodup_range'
    have other : ∀ w ∈ ws, w.va / 4096 ≠ a / 4096 := by
      intro w hw same
      have once := (List.nodup_cons.mp (List.nodup_append.mp nodup).2.1).1
      exact once (List.mem_map.mpr ⟨w, hw, same.trans page⟩)
    constructor
    · constructor
      · intro ⟨w, hw, same⟩
        exact absurd same (other w hw)
      · intro h
        exact absurd h.1 short
    · intro w hw again
      exact other w hw (calls_within (later w hw) a again).symm

end Phdr

/-- A call that stays below `ULIM` and in its page. -/
structure MapperCall.Fits (c : MapperCall) : Prop where
  va : c.va < ulim
  perm : c.perm < 0x400
  offset : ∀ src, c.src = some src → c.offset = c.va % 4096
  page : ∀ src, c.src = some src → c.va % 4096 + c.len ≤ 4096

theorem Phdr.perm_lt (ph : Phdr) : ph.perm < 0x400 := by
  unfold Phdr.perm
  dsimp only
  split <;> split <;> split <;> decide

theorem Phdr.calls_perm {ph : Phdr} {bin : Nat} {c : MapperCall} (h : c ∈ ph.calls bin) :
    c.perm = ph.perm := by
  unfold Phdr.calls at h
  rw [List.mem_append, List.mem_append] at h
  rcases h with (h | h) | h
  · rw [(Phdr.mem_headCalls.mp h).2]
  · obtain ⟨m, -, rfl⟩ := Phdr.mem_fileCalls.mp h
    rfl
  · obtain ⟨i, -, rfl⟩ := List.mem_map.mp h
    rfl

/-- The last page of every segment is visited, by its own walk or another. -/
def LastVisited (phs : List Phdr) : Prop :=
  ∀ ph ∈ loads phs, 0 < ph.pMemsz →
    ∃ ph' ∈ loads phs, ph'.Visits ((ph.pVaddr + ph.pMemsz - 1) / 4096)

/-- A walk misses no page of its segment but, perhaps, the last. -/
theorem Phdr.visits_or_last {ph : Phdr} {j : Nat} (hj : j < ph.pMemsz) :
    ph.Visits ((ph.pVaddr + j) / 4096) ∨
    (ph.pVaddr + j) / 4096 = (ph.pVaddr + ph.pMemsz - 1) / 4096 := by
  unfold Visits lastVisited
  by_cases short : ph.ShortHead
  · have head := short.2
    rw [if_pos short]
    omega
  · rw [if_neg short]
    omega

theorem Phdr.visits_low {ph : Phdr} {p : Nat} (low : ph.pVaddr + ph.pMemsz ≤ ulim)
    (h : ph.Visits p) :
    4096 * p < ulim := by
  unfold Visits lastVisited at h
  unfold ulim at low ⊢
  split at h <;> omega

/-! ## The images that the calls of all segments make -/

/-- No address is in the ranges of both segments. -/
def Phdr.Apart (ph ph' : Phdr) : Prop :=
  ∀ j < ph.pMemsz, ∀ j' < ph'.pMemsz, ph.pVaddr + j ≠ ph'.pVaddr + j'

theorem Phdr.apart_symm : Std.Symm Phdr.Apart :=
  ⟨fun _ _ apart j hj j' hj' same => apart j' hj' j hj same.symm⟩

/-- Segments are not larger in the file than in memory, and their address
ranges are disjoint. -/
structure SegmentsApart (phs : List Phdr) : Prop where
  sizes : ∀ ph ∈ loads phs, ph.pFilesz ≤ ph.pMemsz
  disjoint : (loads phs).Pairwise Phdr.Apart

def visits (binary : Binary) (phs : List Phdr) : List (Visit (Fin 256)) :=
  (loadCalls phs).map (MapperCall.visit binary)

section
variable {phs l₁ l₂ : List Phdr} {ph ph' : Phdr} {binary : Binary} {p j : Nat} {I : Image (Fin 256)}

theorem mem_loadCalls {c : MapperCall} :
    c ∈ loadCalls phs ↔ ∃ ph ∈ loads phs, c ∈ ph.calls ph.pOffset :=
  List.mem_flatMap

theorem loadCalls_visits (wf : SegmentsApart phs) :
    (∃ c ∈ loadCalls phs, c.va / 4096 = p) ↔ ∃ ph ∈ loads phs, ph.Visits p := by
  constructor
  · intro ⟨c, hc, page⟩
    obtain ⟨ph, hph, call⟩ := mem_loadCalls.mp hc
    exact ⟨ph, hph, (Phdr.visits_iff (wf.sizes ph hph)).mpr ⟨c, call, page⟩⟩
  · intro ⟨ph, hph, visits⟩
    obtain ⟨c, call, page⟩ := (@Phdr.visits_iff _ ph.pOffset _ (wf.sizes ph hph)).mp visits
    exact ⟨c, mem_loadCalls.mpr ⟨ph, hph, call⟩, page⟩

/-- The calls fit where no page at or above `ULIM` is visited. -/
theorem loadCalls_fits (wf : SegmentsApart phs)
    (low : ∀ ph ∈ loads phs, ∀ p, ph.Visits p → 4096 * p < ulim)
    {c : MapperCall} (h : c ∈ loadCalls phs) : c.Fits := by
  obtain ⟨ph, hph, call⟩ := mem_loadCalls.mp h
  have below := low ph hph _ ((Phdr.visits_iff (wf.sizes ph hph)).mpr ⟨c, call, rfl⟩)
  have copies : ∀ src, c.src = some src → ∃ i, Phdr.Copies ph ph.pOffset c i := by
    intro src hsrc
    cases Phdr.calls_cases call with
    | inl copies => exact copies
    | inr null =>
      rw [hsrc] at null
      cases null
  constructor
  · simp only [ulim] at below ⊢
    omega
  · rw [Phdr.calls_perm call]
    exact ph.perm_lt
  · intro src hsrc
    obtain ⟨i, copy⟩ := copies src hsrc
    exact copy.offset
  · intro src hsrc
    obtain ⟨i, copy⟩ := copies src hsrc
    exact copy.page

/-- Two segments that have an address in common are one. -/
theorem SegmentsApart.same (wf : SegmentsApart phs) {j' : Nat} (h : ph ∈ loads phs)
    (h' : ph' ∈ loads phs)
    (hj : j < ph.pMemsz) (hj' : j' < ph'.pMemsz) (same : ph.pVaddr + j = ph'.pVaddr + j') :
    ph = ph' := by
  by_contra other
  have symm := Phdr.apart_symm
  exact wf.disjoint.forall h h' other j hj j' hj' same

/-- What the calls store at an address of a segment is its byte of the file. -/
theorem visits_stored (wf : SegmentsApart phs) (h : ph ∈ loads phs) (hj : j < ph.pMemsz)
    {v : Visit (Fin 256)} (hv : v ∈ visits binary phs) (covers : v.Covers (ph.pVaddr + j)) :
    j < ph.pFilesz ∧ v.stored (ph.pVaddr + j) = binary (ph.pOffset + j) := by
  obtain ⟨c, hc, rfl⟩ := List.mem_map.mp hv
  obtain ⟨ph', h', call⟩ := mem_loadCalls.mp hc
  obtain ⟨j', hj', place, stored⟩ := Phdr.calls_stored call covers
  have size := wf.sizes ph' h'
  have same := wf.same h h' hj (by omega) place
  subst same
  have index : j' = j := by omega
  rw [← index]
  exact ⟨hj', index ▸ stored⟩

theorem visits_cover (h : ph ∈ loads phs) (hj : j < ph.pFilesz) :
    ∃ v ∈ visits binary phs, v.Within 4096 ∧ v.Covers (ph.pVaddr + j) := by
  obtain ⟨c, call, covers⟩ := @Phdr.calls_cover _ ph.pOffset binary _ hj
  exact ⟨_, List.mem_map.mpr ⟨c, mem_loadCalls.mpr ⟨ph, h, call⟩, rfl⟩,
    Phdr.calls_within call, covers⟩

/-- The pages that are there when every visit keeps the page it finds. -/
theorem keep_present (wf : SegmentsApart phs) (p : Nat) :
    ((visits binary phs).foldl (keep 4096) (fun _ => none) p).isSome ↔
    ∃ ph ∈ loads phs, ph.Visits p := by
  rw [foldl_keep_present, ← loadCalls_visits wf]
  constructor
  · intro h
    obtain ⟨v, hv, page⟩ := h.resolve_left (by simp)
    obtain ⟨c, hc, rfl⟩ := List.mem_map.mp hv
    exact ⟨c, hc, page⟩
  · intro ⟨c, hc, page⟩
    exact .inr ⟨_, List.mem_map.mpr ⟨c, hc, rfl⟩, page⟩

/-- The file part is there. -/
theorem keep_file (wf : SegmentsApart phs) (h : ph ∈ loads phs) (hj : j < ph.pFilesz) :
    Image.byteAt 4096 ((visits binary phs).foldl (keep 4096) I)
    (ph.pVaddr + j) = some (binary (ph.pOffset + j)) := by
  obtain ⟨v, hv, within, covers⟩ := @visits_cover _ _ binary _ h hj
  apply foldl_keep_stored hv within covers
  intro v hv covers
  have size := wf.sizes ph h
  exact (visits_stored wf h (by omega) hv covers).2

/-- Behind it there are zeros, where a page is. -/
theorem keep_zero (wf : SegmentsApart phs) (h : ph ∈ loads phs) (low : ph.pFilesz ≤ j)
    (hj : j < ph.pMemsz) (visited : ∃ ph' ∈ loads phs, ph'.Visits ((ph.pVaddr + j) / 4096)) :
    Image.byteAt 4096 ((visits binary phs).foldl (keep 4096) fun _ => none)
    (ph.pVaddr + j) = some 0 := by
  obtain ⟨c, hc, page⟩ := (loadCalls_visits wf).mpr visited
  apply foldl_keep_zero (v := c.visit binary) (List.mem_map.mpr ⟨c, hc, rfl⟩) page.symm rfl
  intro v hv covers
  exact absurd (visits_stored wf h hj hv covers).1 (by omega)

/-- The file part, when every visit renews its page: a byte is there unless the
same walk or a later one comes back to the page. -/
theorem renew_file (wf : SegmentsApart phs) (split : loads phs = l₁ ++ ph :: l₂)
    (hj : j < ph.pFilesz) :
    Image.byteAt 4096 ((visits binary phs).foldl (renew 4096) I) (ph.pVaddr + j) =
      some (if (ph.ShortHead ∧ ph.pFilesz < ph.pMemsz) ∨
        ∃ ph' ∈ l₂, ph'.Visits ((ph.pVaddr + j) / 4096) then 0
        else binary (ph.pOffset + j)) := by
  have h : ph ∈ loads phs := by simp [split]
  have size := wf.sizes ph h
  have sizes : ∀ ph' ∈ l₂, ph'.pFilesz ≤ ph'.pMemsz :=
    fun ph' h' => wf.sizes ph' (by simp [split, h'])
  have apart : ∀ ph' ∈ l₂, Phdr.Apart ph ph' := by
    have pairs := wf.disjoint
    rw [split, List.pairwise_append, List.pairwise_cons] at pairs
    exact pairs.2.1.1
  obtain ⟨c, call, covers⟩ := @Phdr.calls_cover _ ph.pOffset binary _ hj
  have stored := (visits_stored wf h (by omega)
    (List.mem_map.mpr ⟨c, mem_loadCalls.mpr ⟨ph, h, call⟩, rfl⟩) covers).2
  obtain ⟨us, ws, inner⟩ := List.append_of_mem call
  obtain ⟨own, once⟩ := Phdr.again_iff size inner covers
  let after := ws ++ l₂.flatMap fun ph => ph.calls ph.pOffset
  have shape : visits binary phs = ((l₁.flatMap fun ph => ph.calls ph.pOffset) ++ us).map
      (MapperCall.visit binary) ++
      c.visit binary :: after.map (MapperCall.visit binary) := by
    unfold visits loadCalls
    rw [split, List.flatMap_append, List.flatMap_cons, inner]
    simp [after]
  have mem : ∀ w, w ∈ after ↔ w ∈ ws ∨ ∃ ph' ∈ l₂, w ∈ ph'.calls ph'.pOffset := by
    intro w
    rw [List.mem_append, List.mem_flatMap]
  have again : (∃ v ∈ after.map (MapperCall.visit binary), v.page 4096 = (ph.pVaddr + j) / 4096) ↔
      (ph.ShortHead ∧ ph.pFilesz < ph.pMemsz) ∨
      ∃ ph' ∈ l₂, ph'.Visits ((ph.pVaddr + j) / 4096) := by
    rw [← own]
    constructor
    · intro ⟨v, hv, page⟩
      obtain ⟨w, hw, rfl⟩ := List.mem_map.mp hv
      cases (mem w).mp hw with
      | inl own => exact .inl ⟨w, own, page⟩
      | inr later =>
        obtain ⟨ph', h', call⟩ := later
        exact .inr ⟨ph', h', (Phdr.visits_iff (sizes ph' h')).mpr ⟨w, call, page⟩⟩
    · intro visited
      cases visited with
      | inl own =>
        obtain ⟨w, hw, page⟩ := own
        exact ⟨_, List.mem_map.mpr ⟨w, (mem w).mpr (.inl hw), rfl⟩, page⟩
      | inr later =>
        obtain ⟨ph', h', visits⟩ := later
        obtain ⟨w, call, page⟩ := (@Phdr.visits_iff _ ph'.pOffset _ (sizes ph' h')).mp visits
        exact ⟨_, List.mem_map.mpr ⟨w, (mem w).mpr (.inr ⟨ph', h', call⟩), rfl⟩, page⟩
  rw [shape]
  by_cases visited : (ph.ShortHead ∧ ph.pFilesz < ph.pMemsz) ∨
    ∃ ph' ∈ l₂, ph'.Visits ((ph.pVaddr + j) / 4096)
  · rw [if_pos visited]
    apply foldl_renew_again (again.mpr visited)
    intro v hv covers
    obtain ⟨w, hw, rfl⟩ := List.mem_map.mp hv
    cases (mem w).mp hw with
    | inl own => exact once w own covers
    | inr later =>
      obtain ⟨ph', h', call⟩ := later
      obtain ⟨j', hj', place, -⟩ := Phdr.calls_stored call covers
      have size' := sizes ph' h'
      exact apart ph' h' j (by omega) j' (by omega) place
  · rw [if_neg visited, foldl_renew_last (Phdr.calls_within call) covers, stored]
    intro v hv page
    exact visited (again.mp ⟨v, hv, page⟩)

end

end Elf
end RiscvMos
