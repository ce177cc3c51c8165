import RiscvMos.Fs.Grants

/-!
`alloc_file` against `file_create`: where a name of the path is missing, `alloc_file`
looks the names that are left up in the directory that lacks it.
-/

namespace RiscvMos

namespace Fs

/-- Where `alloc_file` goes on to when names are missing: the directory and the name to be
created. -/
def skip (c : Nat → Nat) : List (List Nat) → Nat → Option (Nat × List Nat)
  | [], _ => none
  | name :: names, f =>
    if IsDir c f then
      match childOf c f name with
      | some g => skip c names g
      | none => if names = [] then some (f, name) else skip c names f
    else none

/-- A block can be had for a directory whose `f_size` has grown. -/
def CanGrow (c : Nat → Nat) (d : Nat) : Prop :=
  0 < c sNblocks ∧ FsM.Available d (nblock c d) (FsM.inCache (grown c d))

/-- Where the last name is the first that is missing, there is a slot for it, or the number
of the new block is stored, or no block can be had; where another one is, the names behind it
lead to nothing that can be created. A name that is found has its directory stored. -/
def Creates (init : Nat) : (Nat → Nat) → List (List Nat) → Nat → Prop
  | _, [], _ => True
  | c, name :: names, f =>
    IsDir c f →
      match childOf c f name with
      | some g => Creates init (relink c g f) names g
      | none =>
        if names = [] then init ≠ 0 ∨ HasFree c f ∨ ¬ CanGrow c f else skip c names f = none

/-- The directory that the file is to be in does not exist. -/
def ParentMissing (c : Nat → Nat) (names : List (List Nat)) (f : Nat) : Prop :=
  names ≠ [] ∧ resolve c names.dropLast f = none

end Fs

namespace FsM

open Fs

/-- How a call ends. -/
abbrev Outcome : Type := Except Stop (Except Int Nat × Fs)

/-- Both create the same entry, which `alloc_file` links to its directory; or both fail, from
the same state or with nothing but links changed; or both stop. The kernel may stop either
for want of a page. -/
def Alike (c : Nat → Nat) (names : List (List Nat)) (f : Nat) : Outcome → Outcome → Prop
  | .error .halt, _ => True
  | _, .error .halt => True
  | .error e, .error e' => e = e'
  | .ok (.ok g, s₁), .ok (.ok g', s₂) =>
    g = g' ∧ names ≠ [] ∧ ∃ d, resolve c names.dropLast f = some d ∧ setDir g d s₂ = .ok ((), s₁)
  | .ok (.error _, s₁), .ok (.error _, s₂) => s₁ = s₂ ∨ Relinks c s₁.cell ∧ Relinks c s₂.cell
  | _, _ => False

/-- The call fails and creates nothing. -/
def Fails (c : Nat → Nat) : Outcome → Prop
  | .error e => e = .halt
  | .ok (.ok _, _) => False
  | .ok (.error _, s') => Relinks c s'.cell

/-- What is to hold of the two calls. -/
def AllocAgrees (c : Nat → Nat) (names : List (List Nat)) (f : Nat) (x y : Outcome) : Prop :=
  Alike c names f x y ∧ (ParentMissing c names f → Fails c x ∧ Fails c y)

end FsM

namespace Fs

section
variable {c c' : Nat → Nat} {names : List (List Nat)} {name : List Nat} {f g init : Nat}

theorem skip_file (other : ¬ IsDir c f) : skip c (name :: names) f = none := by
  rw [skip, if_neg other]

theorem skip_found (isDir : IsDir c f) (found : childOf c f name = some g) :
    skip c (name :: names) f = skip c names g := by
  rw [skip, if_pos isDir, found]

theorem skip_missing (isDir : IsDir c f) (missing : childOf c f name = none) :
    skip c (name :: names) f = if names = [] then some (f, name) else skip c names f := by
  rw [skip, if_pos isDir, missing]

theorem creates_found (isDir : IsDir c f) (found : childOf c f name = some g) :
    Creates init c (name :: names) f ↔ Creates init (relink c g f) names g := by
  rw [Creates, found]
  exact forall_prop_of_true isDir

theorem creates_missing (isDir : IsDir c f) (missing : childOf c f name = none) :
    Creates init c (name :: names) f ↔
      if names = [] then init ≠ 0 ∨ HasFree c f ∨ ¬ CanGrow c f else skip c names f = none := by
  rw [Creates, missing]
  exact forall_prop_of_true isDir

variable (h : Relinks c c') (tree : Tree c) (disk : c sNblocks ≤ 2 ^ 18)

include h tree in
/-- The bit of block 0 is in the bitmap also of a disk without blocks. -/
theorem Relinks.boot : isFree c' 0 = isFree c 0 := by
  have fixed : Fixed c (blockWord 2 (0 / 32)) := by
    intro block
    have word : blockWord 2 (0 / 32) / 1024 = 2 := rfl
    rw [word] at block
    exact absurd ⟨Nat.le_refl 2, Nat.lt_add_of_pos_right (Nat.succ_pos _)⟩ (tree.apart 2 block).2.1
  rw [isFree, h _ fixed, isFree]

include h tree disk in
theorem skip_congr (proper : ∀ n ∈ names, Proper n ∧ n.length < maxnamelen) (hf : Node c f) :
    skip c' names f = skip c names f := by
  induction names generalizing f with
  | nil => rfl
  | cons name names ih =>
    have first := proper name List.mem_cons_self
    have rest : ∀ n ∈ names, Proper n ∧ n.length < maxnamelen :=
      fun n hn => proper n (List.mem_cons_of_mem name hn)
    unfold skip
    by_cases isDir : IsDir c f
    · rw [if_pos isDir, if_pos ((h.isDir tree disk hf).mpr isDir),
        h.childOf_eq tree disk ⟨hf, isDir⟩ first.2]
      cases found : childOf c f name with
      | some g => exact ih rest (childOf_node ⟨hf, isDir⟩ first.1 found)
      | none => simp only [ih rest hf]
    · rw [if_neg isDir, if_neg fun isDir' => isDir ((h.isDir tree disk hf).mp isDir')]

end

end Fs

namespace FsM

open Fs

section
variable {s : Fs} {d f i n : Nat} {init : Nat} {name path tail : List Nat}

/-! ## The paths -/

/-- Names that are there and fit. -/
def Plain (names : List (List Nat)) : Prop := ∀ n ∈ names, n ≠ [] ∧ n.length < maxnamelen

theorem skipSlash_plain
    (first : (if path.head? = some slash then path.tail else path).takeWhile (· != slash) ≠ []) :
    skipSlash path = (if path.head? = some slash then path.tail else path) ∧
    skipSlash path ≠ [] := by
  have plain (rest : List Nat) (some_ : rest.takeWhile (· != slash) ≠ []) :
      skipSlash rest = rest ∧ skipSlash rest ≠ [] := by
    cases rest with
    | nil => exact absurd rfl some_
    | cons b rest =>
      have other : b ≠ slash := by
        intro same
        rw [same, List.takeWhile_cons_of_neg (by simp)] at some_
        exact some_ rfl
      have same : skipSlash (b :: rest) = b :: rest :=
        List.dropWhile_cons_of_neg (by simpa using other)
      rw [same]
      exact ⟨rfl, List.cons_ne_nil b rest⟩
  by_cases head : path.head? = some slash
  · rw [if_pos head] at first ⊢
    cases path with
    | nil => cases head
    | cons b path =>
      rw [Option.some.inj head]
      have same : skipSlash (slash :: path) = skipSlash path := List.dropWhile_cons_of_pos (by rfl)
      rw [same]
      exact plain path first
  · rw [if_neg head] at first ⊢
    exact plain path first

/-- The first name of a path and what is left, as both loops take them. -/
structure Cut (path name tail : List Nat) : Prop where
  names : rawComponents path = name :: rawComponents tail
  there : path ≠ []
  first : (if path.head? = some slash then path.tail else path).takeWhile (· != slash) = name
  left : (if path.head? = some slash then path.tail else path).dropWhile (· != slash) = tail
  start : skipSlash path = if path.head? = some slash then path.tail else path
  shorter : tail.length < path.length
  skipped : (skipSlash tail).length < (skipSlash path).length
  done : skipSlash tail = [] ↔ tail = []

theorem cut_of (there : path ≠ []) (named : ∀ n ∈ rawComponents path, n ≠ []) :
    ∃ name tail, Cut path name tail := by
  have names := rawComponents_cons there
  have shorter := (left_raw there).2
  rw [names] at named
  have some_ := named _ List.mem_cons_self
  have start := skipSlash_plain some_
  refine ⟨_, _, names, there, rfl, rfl, start.1, shorter, ?_, ?_⟩
  · rw [start.1]
    generalize (if path.head? = some slash then path.tail else path) = rest at some_ ⊢
    have sub : (skipSlash (rest.dropWhile (· != slash))).length ≤
        (rest.dropWhile (· != slash)).length := (List.dropWhile_sublist _).length_le
    have whole :=
      congrArg List.length (List.takeWhile_append_dropWhile (p := (· != slash)) (l := rest))
    rw [List.length_append] at whole
    have pos := List.length_pos_iff.mpr some_
    omega
  · constructor
    · intro none_
      by_contra more
      rw [rawComponents_cons more] at named
      have second := named _ (List.mem_cons_of_mem _ List.mem_cons_self)
      exact (skipSlash_plain second).2 none_
    · intro none_
      rw [none_]
      rfl

/-! ## The slot, or the block that is added -/

/-- What `file_create` does with the block for a new file. -/
def placeFile (b : Nat) (name : List Nat) : FsM (Except Int Nat) := do
  readBlock b
  strcpy (4 * blockWord b 0) name
  pure (.ok (blockWord b 0))

/-- What `alloc_file` does with it. -/
def placeLinked (d b : Nat) (name : List Nat) : FsM (Except Int Nat) := do
  readBlock b
  nameFile d (blockWord b 0) name

/-- What `alloc_file` does behind the look-up that does not find the last name. -/
def allocBehind (d : Nat) (name : List Nat) (init : Nat) : FsM (Except Int Nat) := do
  match ← allocFileDir d name init with
  | .error _ => pure (.error (-eNotFound))
  | .ok f => pure (.ok f)

theorem strcpy_total (i : Nat) (name : List Nat) (s : Fs) :
    ∃ s', strcpy i name s = .ok ((), s') := by
  induction name generalizing i s with
  | nil => exact ⟨_, rfl⟩
  | cons b name ih =>
    obtain ⟨s₁, stored⟩ : ∃ s₁, storeByte i b s = .ok ((), s₁) := ⟨_, rfl⟩
    obtain ⟨s', rest⟩ := ih (i + 1) s₁
    refine ⟨s', ?_⟩
    rw [strcpy, bind_ok stored]
    exact rest

theorem nameFile_total (d g : Nat) (name : List Nat) (s : Fs) :
    ∃ s₁ s₂, strcpy (4 * g) name s = .ok ((), s₁) ∧ setDir g d s₁ = .ok ((), s₂) ∧
      nameFile d g name s = .ok (.ok g, s₂) := by
  obtain ⟨s₁, copied⟩ := strcpy_total (4 * g) name s
  obtain ⟨s₂, linked⟩ : ∃ s₂, setDir g d s₁ = .ok ((), s₂) := ⟨_, rfl⟩
  refine ⟨s₁, s₂, copied, linked, ?_⟩
  rw [nameFile, bind_ok copied, bind_ok linked]
  rfl

theorem allocDirFrom_cached (h : Ready Every s d) (name : List Nat) (init n i : Nat)
    (hn : i + n = nblock s.cell d) :
    allocDirFrom d name init n i s =
      match ((List.range' i n).flatMap fun i => filesIn (pointer s.cell d i)).find? fun f =>
      cellByte s.cell (4 * f) == 0 with
      | some f => nameFile d f name s
      | none => allocDirFrom d name init 0 (nblock s.cell d) s := by
  induction n generalizing i with
  | zero =>
    rw [← hn]
    rfl
  | succ n ih =>
    have hi : i < nblock s.cell d := by omega
    have here : (get : FsM Fs) s = .ok (s, s) := rfl
    have small := h.tree.pointer_small h.nblocks h.dir hi trivial
    have whole := h.tree.whole d h.dir i hi trivial
    have read := readBlock_cached h.toInited whole.2.1 whole.2.2 (h.loaded i hi).1
    show (getBlockFile d i >>= _) s = _
    rw [find_files, getBlockFile_eq, bind_ok (fileMapBlock_cached false h hi)]
    simp only
    rw [bind_ok read, bind_ok here, findFree_eq rfl (h.loaded i hi).1 small]
    cases (filesIn (pointer s.cell d i)).find? fun f => cellByte s.cell (4 * f) == 0 with
    | some f => rfl
    | none =>
      rw [Option.none_or]
      exact ih (i + 1) (by omega)

theorem allocFileDir_cached (h : Ready Every s d) (name : List Nat) (init : Nat) :
    allocFileDir d name init s =
      match vacant s.cell d with
      | some f => nameFile d f name s
      | none => allocDirFrom d name init 0 (nblock s.cell d) s := by
  have cached : s.mapped (fSize d / 1024) = true := h.field (by decide)
  unfold allocFileDir vacant files
  rw [bind_ok (load_mapped cached), List.range_eq_range']
  exact allocDirFrom_cached h name init _ 0 (Nat.zero_add _)

/-- With a slot both end in it. -/
theorem behind_slot {g : Nat} (h : Ready Every s d) (name : List Nat) (init : Nat)
    (free : vacant s.cell d = some g) :
    ∃ s₁ s₂, setDir g d s₁ = .ok ((), s₂) ∧ allocBehind d name init s = .ok (.ok g, s₂) ∧
      createBehind ⟨-eNotFound, some d, none, some name⟩ s = .ok (.ok g, s₁) := by
  obtain ⟨s₁, s₂, copied, linked, names⟩ := nameFile_total d g name s
  have alloc : allocFileDir d name init s = .ok (.ok g, s₂) := by
    rw [allocFileDir_cached h name init, free]
    exact names
  have create : dirAllocFile d s = .ok (.ok g, s) := by
    rw [dirAllocFile_cached h, free]
  refine ⟨s₁, s₂, linked, ?_, ?_⟩
  · rw [allocBehind, bind_ok alloc]
    rfl
  · rw [createBehind_missing, bind_ok create]
    simp only
    rw [bind_ok copied]
    rfl

/-- What goes on from one state goes on from the other. -/
theorem bind_from {α β : Type} {x y : FsM α} {k : α → FsM β} {t : Fs} (h : x s = y t) :
    (x >>= k) s = (y >>= k) t := by
  show (x s >>= fun p => k p.1 p.2) = (y t >>= fun p => k p.1 p.2)
  rw [h]

/-- Without one both ask for a block, from the same state. -/
theorem behind_grows (h : Ready Every s d) (name : List Nat) (init : Nat)
    (full : vacant s.cell d = none) :
    ∃ t, Inited t ∧ Grows s t ∧ t.mapped = s.mapped ∧ t.cell = grown s.cell d ∧
      allocBehind d name init s = (do
        match ← fileMapBlock d (nblock s.cell d) true with
        | .error _ => pure (.error (-eNotFound))
        | .ok b => placeLinked d (if init = 0 then 0 else b) name : FsM (Except Int Nat)) t ∧
      createBehind ⟨-eNotFound, some d, none, some name⟩ s = (do
        match ← fileMapBlock d (nblock s.cell d) true with
        | .error _ => pure (.error (-eNotFound))
        | .ok b => placeFile b name : FsM (Except Int Nat)) t := by
  obtain ⟨t, inited, grows, mapped, cell, step⟩ := h.grows
  have alloc := allocFileDir_cached h name init
  have create := dirAllocFile_cached h
  rw [full] at alloc create
  simp only at alloc create
  rw [allocDirFrom, step, allocBlockFile_eq] at alloc
  rw [allocFileFrom, step, fileGetBlock] at create
  refine ⟨t, inited, grows, mapped, cell, ?_, ?_⟩
  · rw [allocBehind, bind_from alloc, bind_assoc, bind_assoc]
    apply bind_congr_at
    intro r t' run
    cases r with
    | error r =>
      have negative := fileMapBlock_negative d _ t r t' run
      simp only [output, pure_bind, negative, if_true]
    | ok b =>
      simp only [output, pure_bind, lt_irrefl, if_false, bind_assoc, placeLinked, nameFile]
  · rw [createBehind_missing, bind_from create, bind_assoc, bind_assoc]
    apply bind_congr_at
    intro r t' _
    cases r with
    | error r => rfl
    | ok b => simp only [bind_assoc, pure_bind, placeFile]

/-! ## The last name is missing -/

theorem alike_error (c : Nat → Nat) (names : List (List Nat)) (f : Nat) (e : Stop) :
    Alike c names f (.error e) (.error e) := by
  cases e with
  | halt => trivial
  | panic msg => exact rfl
  | undefined => exact rfl


theorem placeFile_linked (d b : Nat) (name : List Nat) (s : Fs) :
    (∃ e, placeFile b name s = .error e ∧ placeLinked d b name s = .error e) ∨
      ∃ s₁ s₂, setDir (blockWord b 0) d s₁ = .ok ((), s₂) ∧
        placeFile b name s = .ok (.ok (blockWord b 0), s₁) ∧
        placeLinked d b name s = .ok (.ok (blockWord b 0), s₂) := by
  cases read : readBlock b s with
  | error e => exact .inl ⟨e, bind_error read, bind_error read⟩
  | ok p =>
    obtain ⟨_, s'⟩ := p
    obtain ⟨s₁, s₂, copied, linked, names⟩ := nameFile_total d (blockWord b 0) name s'
    refine .inr ⟨s₁, s₂, linked, ?_, ?_⟩
    · rw [placeFile, bind_ok read, bind_ok copied]
      rfl
    · rw [placeLinked, bind_ok read, names]

/-- On a disk without blocks no number can be read. -/
theorem readBlock_blank (h : Inited s) (blank : s.cell sNblocks = 0) (b : Nat) :
    readBlock b s = .error (.panic "reading non-existent block %08x\n") := by
  rw [readBlock, bind_ok (load_mapped h.super), blank, if_pos (Nat.zero_le b)]
  rfl

theorem inCache_whole (h : Inited s) : Whole (inCache s.cell) :=
  ⟨⟨h.nblocks, rfl, fun _ _ => rfl⟩, fun _ => rfl, fun _ _ => .inl rfl⟩

section
variable {t : Fs} (h : Ready Every s d) (inited : Inited t) (mapped : t.mapped = s.mapped)
  (cell : t.cell = grown s.cell d)

include h inited mapped cell

/-- A block that is got for the directory could be had with all blocks in the cache. -/
theorem available_grown (gets : Gets (fileMapBlock d (nblock s.cell d) true) t) :
    Available d (nblock s.cell d) (inCache (grown s.cell d)) := by
  have whole := inCache_whole inited
  have got := fileMapBlock_whole (h.slotted inited mapped) whole rfl (h.grown_kept cell).2.2 gets
  rw [cell, fileMapBlock_gets] at got
  exact got

/-- Where all blocks are in the cache, a block that can be had is got. -/
theorem gets_grown (whole : Whole t) (can : CanGrow s.cell d) :
    Gets (fileMapBlock d (nblock s.cell d) true) t := by
  have slotted : Slotted (inCache (grown s.cell d)) d := by
    rw [← cell]
    exact ⟨(inCache_whole inited).toInited, (h.slotted inited mapped).place, rfl⟩
  have bitmap := (h.grown_kept cell).2.2
  rw [cell] at bitmap
  exact fileMapBlock_whole slotted whole cell bitmap ((fileMapBlock_gets _ _ _).mpr can.2)

end

/-- The last name is missing, and both create it, or fail in the same way. -/
theorem behind_alike (h : Ready Every s d) (name : List Nat) (init : Nat)
    (can : init ≠ 0 ∨ HasFree s.cell d ∨ ¬ CanGrow s.cell d) (c : Nat → Nat) :
    Alike c [name] d (allocBehind d name init s)
      (createBehind ⟨-eNotFound, some d, none, some name⟩ s) := by
  cases slot : vacant s.cell d with
  | some g =>
    obtain ⟨s₁, s₂, linked, alloc, create⟩ := behind_slot h name init slot
    rw [alloc, create]
    exact ⟨rfl, List.cons_ne_nil _ _, d, rfl, linked⟩
  | none =>
    obtain ⟨t, inited, grows, mapped, cell, alloc, create⟩ := behind_grows h name init slot
    rw [alloc, create]
    cases run : fileMapBlock d (nblock s.cell d) true t with
    | error e =>
      rw [bind_error run, bind_error run]
      exact alike_error c [name] d e
    | ok p =>
      obtain ⟨r, t'⟩ := p
      rw [bind_ok run, bind_ok run]
      cases r with
      | error r => exact .inl rfl
      | ok b =>
        -- the number that was stored is read, or none can be
        by_cases blank : s.cell sNblocks = 0
        · rw [← (h.grown_kept cell).1] at blank
          have keeps := fileMapBlock_blank (h.slotted inited mapped) blank run
          rw [← keeps.cell] at blank
          have inited' := inited.grows keeps.toGrows (by rw [keeps.cell])
          have panics := readBlock_blank inited' blank
          simp only [placeLinked, placeFile]
          rw [bind_error (panics _), bind_error (panics _)]
          exact rfl
        · have same : (if init = 0 then 0 else b) = b := by
            by_cases zero : init = 0
            · rw [if_pos zero]
              by_contra other
              have full := vacant_none.mp slot
              have none_ := (can.resolve_left (not_not.mpr zero)).resolve_left full
              have gets := available_grown h inited mapped cell ⟨b, t', run, Ne.symm other⟩
              exact none_ ⟨Nat.pos_of_ne_zero blank, gets⟩
            · rw [if_neg zero]
          simp only [same]
          obtain ⟨e, create, alloc⟩ | ⟨s₁, s₂, linked, create, alloc⟩ :=
            placeFile_linked d b name t'
          · rw [create, alloc]
            exact alike_error c [name] d e
          · rw [create, alloc]
            exact ⟨rfl, List.cons_ne_nil _ _, d, rfl, linked⟩

/-- Where all blocks are in the cache and the condition fails, `alloc_file` takes block 0. -/
theorem behind_differs (h : Ready Every s d) (whole : Whole s) (boot : isFree s.cell 0 = false)
    (name : List Nat) (init : Nat)
    (cannot : ¬ (init ≠ 0 ∨ HasFree s.cell d ∨ ¬ CanGrow s.cell d)) (c : Nat → Nat) :
    ¬ Alike c [name] d (allocBehind d name init s)
      (createBehind ⟨-eNotFound, some d, none, some name⟩ s) := by
  simp only [not_or, not_not] at cannot
  obtain ⟨zero, full, can⟩ := cannot
  obtain ⟨t, inited, grows, mapped, cell, alloc, create⟩ :=
    behind_grows h name init (vacant_none.mpr full)
  obtain ⟨nblocks, free, -⟩ := h.grown_kept cell
  have wholeT := whole.grows grows nblocks
  obtain ⟨b, t', run, nonzero⟩ := gets_grown h inited mapped cell wholeT can
  have ends := fileMapBlock_granted wholeT (h.slotted inited mapped).place (nblock s.cell d)
  have granted := (ends.result run).1 wholeT
  have pos : 0 < t'.cell sNblocks := by
    rw [granted.blocks, nblocks]
    exact can.1
  have used : isFree t'.cell 0 = false := by
    rw [granted.boot, free 0 can.1]
    exact boot
  obtain ⟨s₁, s₂, -, -, names⟩ := nameFile_total d (blockWord 0 0) name t'
  have place : placeLinked d 0 name t' = .ok (.ok 0, s₂) := by
    rw [placeLinked, bind_ok (readBlock_cached granted.toInited pos used (granted.all 0)), names]
    rfl
  rw [alloc, create, bind_ok run, bind_ok run]
  simp only [zero, if_true]
  rw [place]
  cases read : readBlock b t' with
  | error e =>
    have other := (readBlock_granted granted.toWhole b).stopped read granted.toWhole
    rw [placeFile, bind_error read]
    cases e with
    | halt => exact absurd rfl other
    | panic msg => exact id
    | undefined => exact id
  | ok p =>
    obtain ⟨_, t₂⟩ := p
    have valid := (readBlock_used granted.toInited read).1
    obtain ⟨s₃, copied⟩ := strcpy_total (4 * blockWord b 0) name t₂
    have disk := granted.nblocks
    rw [placeFile, bind_ok read, bind_ok copied]
    intro alike
    have same : 0 = blockWord b 0 := alike.1
    unfold blockWord page at same
    omega

/-- Where all blocks are in the cache, it creates something, or `f_size` has grown, or it stops. -/
theorem behind_creates (h : Ready Every s d) (whole : Whole s) (name : List Nat) (init : Nat)
    {c : Nat → Nat} (tree : Tree c) (disk : c sNblocks ≤ 2 ^ 18) (links : Relinks c s.cell) :
    ¬ Fails c (allocBehind d name init s) := by
  cases slot : vacant s.cell d with
  | some g =>
    obtain ⟨s₁, s₂, -, alloc, -⟩ := behind_slot h name init slot
    rw [alloc]
    exact id
  | none =>
    obtain ⟨t, inited, grows, mapped, cell, alloc, -⟩ := behind_grows h name init slot
    obtain ⟨nblocks, -, bitmap⟩ := h.grown_kept cell
    have wholeT := whole.grows grows nblocks
    have slotted := h.slotted inited mapped
    have ends := fileMapBlock_granted wholeT slotted.place (nblock s.cell d)
    rw [alloc]
    cases run : fileMapBlock d (nblock s.cell d) true t with
    | error e =>
      rw [bind_error run]
      exact ends.stopped run wholeT
    | ok p =>
      obtain ⟨r, t'⟩ := p
      have granted := (ends.result run).1 wholeT
      rw [bind_ok run]
      cases r with
      | error r =>
        intro fails
        have fails : Relinks c t'.cell := fails
        have node := (links.node_iff tree disk).mp h.dir.1
        have before := links.field tree disk node (k := 32) (by decide)
        have behind := fails.field tree disk node (k := 32) (by decide)
        have few := h.tree.few h.dir
        have size : t.cell (fSize d) = s.cell (fSize d) + 4096 := by
          have small : s.cell (fSize d) / 4096 ≤ 1024 := few
          rw [cell, grown, Function.update_self, uInt]
          exact Nat.mod_eq_of_lt (by unfold by2blk; omega)
        have kept := granted.rest (fSize d) (by rwa [fSize_block slotted.place]) (by omega)
        unfold fSize at size kept
        omega
      | ok b =>
        simp only
        generalize (if init = 0 then 0 else b) = b
        cases read : readBlock b t' with
        | error e =>
          rw [placeLinked, bind_error read]
          exact (readBlock_granted granted.toWhole b).stopped read granted.toWhole
        | ok q =>
          obtain ⟨_, t₂⟩ := q
          obtain ⟨s₁, s₂, -, -, names⟩ := nameFile_total d (blockWord b 0) name t₂
          rw [placeLinked, bind_ok read, names]
          exact id

/-! ## A turn of both loops -/

/-- How a turn of the loop of `alloc_file` (`x`) and one of the loop of `walk_path`, with what
`file_create` does behind it (`y`), go on behind the first name. -/
inductive Turn (init n m : Nat) (s : Fs) (f : Nat) (name tail : List Nat) (x y : Outcome) : Prop
  | halts (short : ¬ s.Supplied) (alloc : x = .error .halt) (create : y = .error .halt)
  | file (other : ¬ IsDir s.cell f) (alloc : x = .ok (.error (-eNotFound), s))
    (create : y = .ok (.error (-eNotFound), s))
  | found (g : Nat) (s₁ : Fs) (isDir : IsDir s.cell f) (found : childOf s.cell f name = some g)
    (grows : Grows s s₁) (reached : Reached s₁ g) (cell : s₁.cell = relink s.cell g f)
    (links : Relinks s.cell s₁.cell) (alloc : x = allocPathFrom init n g tail s₁)
    (create : y = (walkFrom m (skipSlash tail) (some f) g >>= createBehind) s₁)
  | last (s₁ : Fs) (isDir : IsDir s.cell f) (missing : childOf s.cell f name = none)
    (grows : Grows s s₁) (ready : Ready Every s₁ f) (cell : s₁.cell = s.cell) (done : tail = [])
    (alloc : x = allocBehind f name init s₁)
    (create : y = createBehind ⟨-eNotFound, some f, none, some name⟩ s₁)
  | skips (s₁ : Fs) (isDir : IsDir s.cell f) (missing : childOf s.cell f name = none)
    (grows : Grows s s₁) (reached : Reached s₁ f) (cell : s₁.cell = s.cell) (more : tail ≠ [])
    (alloc : x = allocPathFrom init n f tail s₁) (create : y = .ok (.error (-eNotFound), s₁))

theorem turn_of (h : Reached s f) (cut : Cut path name tail) (proper : Proper name)
    (fits : name.length < maxnamelen) (init n m : Nat) (dir : Option Nat) :
    Turn init n m s f name tail (allocPathFrom init (n + 1) f path s)
      ((walkFrom (m + 1) (skipSlash path) dir f >>= createBehind) s) := by
  have some_ : skipSlash path ≠ [] := List.ne_nil_of_length_pos (Nat.zero_lt_of_lt cut.skipped)
  unfold allocPathFrom walkFrom
  rw [if_neg cut.there, if_neg some_, cut.start]
  simp only
  rw [cut.first, cut.left, if_neg (Nat.not_lt_of_lt fits), if_neg (Nat.ne_of_lt fits),
    if_neg (Nat.not_le_of_lt fits), bind_assoc, bind_ok (load_mapped h.type_cached),
    bind_ok (load_mapped h.type_cached)]
  by_cases isDir : IsDir s.cell f
  · have same : s.cell (fType f) = ftypeDir := isDir
    have searchable : Searchable s f := ⟨h.toInited, h.tree, ⟨h.node, isDir⟩, h.cached⟩
    have all (X : Nat → Prop) (all : ∀ b, X b) := Scans.of_all all s.cell f name (nblock s.cell f) 0
    have ends := dirLookup_ends fits searchable (all _ Every.intro) (all _ (Has.any s))
    have lookup := getFileDir_eq searchable name
    rw [if_neg (not_not.mpr same), if_neg (not_not.mpr same), bind_assoc]
    cases out : dirLookup f name s with
    | error e =>
      obtain ⟨-, rfl, short⟩ := ends.stopped out
      exact .halts short (bind_error (lookup.trans out)) (bind_error out)
    | ok p =>
      obtain ⟨r, s₁⟩ := p
      obtain ⟨serves, looked, scanned⟩ := ends.result out
      rw [bind_ok (lookup.trans out), bind_ok out]
      cases found : childOf s.cell f name with
      | some g =>
        rw [found] at looked
        obtain ⟨rfl, cell, cached⟩ := looked
        have listed : Listed Every s.cell f g := .of_mem Every.intro (childOf_listed found)
        obtain ⟨reached, links⟩ := h.child isDir serves.toGrows found listed proper cell cached
        exact .found g s₁ isDir found serves.toGrows reached cell (links.relinks h.tree h.nblocks)
          rfl rfl
      | none =>
        rw [found] at looked
        obtain ⟨rfl, cell⟩ := looked
        have reached := h.stays serves.toGrows cell
        by_cases done : tail = []
        · have loaded : Loaded s₁ f := by
            intro i hi
            rw [cell] at hi ⊢
            exact scanned.all (fun j _ high => missing_block found (by omega)) i (Nat.zero_le i)
              (by omega)
          have ready : Ready Every s₁ f :=
            ⟨⟨reached.toInited, reached.tree, ⟨reached.node, by rw [cell]; exact isDir⟩,
              reached.cached⟩, fun _ _ => trivial, loaded⟩
          refine .last s₁ isDir found serves.toGrows ready cell done ?_ ?_
          · simp only [done, and_self, if_true]
            rfl
          · simp only [cut.done.mpr done, and_self, if_true]
            rfl
        · refine .skips s₁ isDir found serves.toGrows reached cell done ?_ ?_
          · simp only [done, and_false, if_false]
          · have more : skipSlash tail ≠ [] := fun none_ => done (cut.done.mp none_)
            simp only [more, and_false, if_false]
            rfl
  · have other : s.cell (fType f) ≠ ftypeDir := isDir
    rw [if_pos other, if_pos other]
    exact .file isDir rfl rfl

/-! ## The loops -/

section
variable {c : Nat → Nat} (tree : Tree c) (disk : c sNblocks ≤ 2 ^ 18)

include tree disk in
/-- Where the names lead to nothing that can be created, nothing is; else, with all blocks in
the cache, something is, or `f_size` has grown, or the server stops. -/
theorem allocPath_skips (init : Nat) (links : Relinks c s.cell) (h : Reached s f)
    (long : path.length ≤ n)
    (proper : ∀ n ∈ rawComponents path, Proper n ∧ n.length < maxnamelen) :
    (skip c (rawComponents path) f = none → Fails c (allocPathFrom init n f path s)) ∧
      (Whole s → skip c (rawComponents path) f ≠ none →
        ¬ Fails c (allocPathFrom init n f path s)) := by
  induction n generalizing s f path with
  | zero =>
    rw [List.eq_nil_of_length_eq_zero (Nat.le_zero.mp long)]
    exact ⟨fun _ => links, fun _ some_ => absurd rfl some_⟩
  | succ n ih =>
    by_cases done : path = []
    · rw [done]
      exact ⟨fun _ => links, fun _ some_ => absurd rfl some_⟩
    · obtain ⟨name, tail, cut⟩ := cut_of done fun n hn => (proper n hn).1.1
      have shorter : tail.length ≤ n := Nat.le_of_lt_succ (cut.shorter.trans_le long)
      rw [cut.names] at proper ⊢
      have first := proper name List.mem_cons_self
      have rest : ∀ n ∈ rawComponents tail, Proper n ∧ n.length < maxnamelen :=
        fun n hn => proper n (List.mem_cons_of_mem name hn)
      have node : Node c f := (links.node_iff tree disk).mp h.node
      have isDir_iff := links.isDir tree disk node
      cases turn_of h cut first.1 first.2 init n 0 none with
      | halts short alloc _ =>
        rw [alloc]
        exact ⟨fun _ => rfl, fun whole => absurd whole.supplied short⟩
      | file other alloc _ =>
        rw [alloc, skip_file fun isDir => other (isDir_iff.mpr isDir)]
        exact ⟨fun _ => links, fun _ some_ => absurd rfl some_⟩
      | found g s₁ isDir found grows reached _ links₁ alloc _ =>
        rw [links.childOf_eq tree disk ⟨node, isDir_iff.mp isDir⟩ first.2] at found
        rw [alloc, skip_found (isDir_iff.mp isDir) found]
        have next := ih (links.trans tree disk links₁) reached shorter rest
        exact ⟨next.1, fun whole => next.2 (whole.grows grows (links₁.nblocks h.tree))⟩
      | last s₁ isDir missing grows ready cell done alloc _ =>
        rw [links.childOf_eq tree disk ⟨node, isDir_iff.mp isDir⟩ first.2] at missing
        rw [alloc, skip_missing (isDir_iff.mp isDir) missing,
          if_pos ((rawComponents_nil _).mpr done)]
        refine ⟨nofun, fun whole _ => ?_⟩
        rw [← cell] at links
        exact behind_creates ready (whole.grows grows (by rw [cell])) name init tree disk links
      | skips s₁ isDir missing grows reached cell more alloc _ =>
        rw [links.childOf_eq tree disk ⟨node, isDir_iff.mp isDir⟩ first.2] at missing
        rw [alloc, skip_missing (isDir_iff.mp isDir) missing,
          if_neg fun none_ => more ((rawComponents_nil _).mp none_)]
        rw [← cell] at links
        have next := ih links reached shorter rest
        exact ⟨next.1, fun whole => next.2 (whole.grows grows (by rw [cell]))⟩

/-- Both fail before anything is created. -/
theorem both_fail {names : List (List Nat)} (links : Relinks c s.cell) (r r' : Int) :
    AllocAgrees c names f (.ok (.error r, s)) (.ok (.error r', s)) :=
  ⟨.inl rfl, fun _ => ⟨links, links⟩⟩

/-- A call that fails and creates nothing is like one that fails at once. -/
theorem Fails.alike {names : List (List Nat)} {x : Outcome} {r : Int} (fails : Fails c x)
    (links : Relinks c s.cell) : Alike c names f x (.ok (.error r, s)) := by
  match x, fails with
  | .error .halt, _ => trivial
  | .ok (.error _, _), relinks => exact .inr ⟨relinks, links⟩

/-- What holds from the file found under the first name holds from its directory. -/
theorem agrees_found {names : List (List Nat)} {g : Nat} {x y : Outcome} (some_ : names ≠ [])
    (isDir : IsDir c f) (found : childOf c f name = some g) :
    AllocAgrees c (name :: names) f x y ↔ AllocAgrees c names g x y := by
  obtain ⟨second, rest, rfl⟩ := List.exists_cons_of_ne_nil some_
  have onward : resolve c (name :: second :: rest).dropLast f =
      resolve c (second :: rest).dropLast g := by
    rw [List.dropLast_cons_cons, resolve, if_pos isDir, found]
    rfl
  have there (name : List Nat) (names : List (List Nat)) : (name :: names ≠ []) = True :=
    eq_true (List.cons_ne_nil name names)
  unfold AllocAgrees ParentMissing Alike
  simp only [onward, there]

include tree disk in
/-- A name that is not the last is missing: `file_create` fails, and `alloc_file` goes on. -/
theorem skips_agrees (init : Nat) (isDir : IsDir c f) (missing : childOf c f name = none)
    (some_ : rawComponents path ≠ []) (links : Relinks c s.cell) (h : Reached s f)
    (long : path.length ≤ n)
    (proper : ∀ n ∈ rawComponents path, Proper n ∧ n.length < maxnamelen) :
    (skip c (rawComponents path) f = none →
      AllocAgrees c (name :: rawComponents path) f (allocPathFrom init n f path s)
        (.ok (.error (-eNotFound), s))) ∧
      (Whole s → AllocAgrees c (name :: rawComponents path) f (allocPathFrom init n f path s)
        (.ok (.error (-eNotFound), s)) → skip c (rawComponents path) f = none) := by
  have absent : ParentMissing c (name :: rawComponents path) f := by
    obtain ⟨second, names, same⟩ := List.exists_cons_of_ne_nil some_
    refine ⟨List.cons_ne_nil _ _, ?_⟩
    rw [same, List.dropLast_cons_cons, resolve, if_pos isDir, missing]
    rfl
  have goes := allocPath_skips tree disk init links h long proper
  constructor
  · intro none_
    have fails := goes.1 none_
    exact ⟨fails.alike links, fun _ => ⟨fails, links⟩⟩
  · intro whole agrees
    by_contra leads
    exact goes.2 whole leads (agrees.2 absent).1

include tree disk in
/-- On the condition the two agree, and with all blocks in the cache only then. -/
theorem allocPath_agrees {m : Nat} (init : Nat) (boot : isFree c 0 = false)
    (links : Relinks c s.cell) (h : Reached s f) (long : path.length ≤ n)
    (long' : (skipSlash path).length ≤ m)
    (proper : ∀ n ∈ rawComponents path, Proper n ∧ n.length < maxnamelen) (dir : Option Nat) :
    (Creates init s.cell (rawComponents path) f →
      AllocAgrees c (rawComponents path) f (allocPathFrom init n f path s)
        ((walkFrom m (skipSlash path) dir f >>= createBehind) s)) ∧
      (Whole s → AllocAgrees c (rawComponents path) f (allocPathFrom init n f path s)
        ((walkFrom m (skipSlash path) dir f >>= createBehind) s) →
        Creates init s.cell (rawComponents path) f) := by
  have ended (s : Fs) (f g n m : Nat) (dir : Option Nat) (links : Relinks c s.cell)
      (names : List (List Nat)) :
      AllocAgrees c names f (allocPathFrom init n g [] s)
        ((walkFrom m (skipSlash []) dir g >>= createBehind) s) := by
    cases n <;> cases m <;> exact both_fail links _ _
  induction n generalizing s f path m dir with
  | zero =>
    rw [List.eq_nil_of_length_eq_zero (Nat.le_zero.mp long)]
    exact ⟨fun _ => ended s f f 0 m dir links _, fun _ _ => trivial⟩
  | succ n ih =>
    by_cases done : path = []
    · rw [done]
      exact ⟨fun _ => ended s f f (n + 1) m dir links _, fun _ _ => trivial⟩
    · obtain ⟨name, tail, cut⟩ := cut_of done fun n hn => (proper n hn).1.1
      have shorter : tail.length ≤ n := Nat.le_of_lt_succ (cut.shorter.trans_le long)
      rw [cut.names] at proper ⊢
      have first := proper name List.mem_cons_self
      have rest : ∀ n ∈ rawComponents tail, Proper n ∧ n.length < maxnamelen :=
        fun n hn => proper n (List.mem_cons_of_mem name hn)
      cases m with
      | zero => exact absurd (cut.skipped.trans_le long') (Nat.not_lt_zero _)
      | succ m =>
        have shorter' : (skipSlash tail).length ≤ m :=
          Nat.le_of_lt_succ (cut.skipped.trans_le long')
        have node : Node c f := (links.node_iff tree disk).mp h.node
        have isDir_iff := links.isDir tree disk node
        have empty_iff := rawComponents_nil tail
        cases turn_of h cut first.1 first.2 init n m dir with
        | halts short alloc create =>
          rw [alloc, create]
          exact ⟨fun _ => ⟨trivial, fun _ => ⟨rfl, rfl⟩⟩, fun whole => absurd whole.supplied short⟩
        | file other alloc create =>
          rw [alloc, create]
          exact ⟨fun _ => both_fail links _ _, fun _ _ isDir => absurd isDir other⟩
        | found g s₁ isDir found grows reached cell links₁ alloc create =>
          have child := found
          rw [links.childOf_eq tree disk ⟨node, isDir_iff.mp isDir⟩ first.2] at child
          have links' := links.trans tree disk links₁
          rw [creates_found isDir found, ← cell]
          by_cases last : tail = []
          · rw [alloc, create, last]
            exact ⟨fun _ => ended s₁ f g n m (some f) links' _, fun _ _ => trivial⟩
          · have next := ih links' reached shorter shorter' rest (some f)
            rw [alloc, create,
              agrees_found (fun none_ => last (empty_iff.mp none_)) (isDir_iff.mp isDir) child]
            exact ⟨next.1, fun whole => next.2 (whole.grows grows (links₁.nblocks h.tree))⟩
        | last s₁ isDir missing grows ready cell done alloc create =>
          rw [alloc, create, creates_missing isDir missing, if_pos (empty_iff.mpr done),
            empty_iff.mpr done, ← cell]
          refine ⟨fun can => ⟨behind_alike ready name init can c, fun missing => nomatch missing.2⟩,
            fun whole agrees => ?_⟩
          by_contra cannot
          have whole₁ := whole.grows grows (by rw [cell])
          have boot₁ : isFree s₁.cell 0 = false := by
            rw [cell, links.boot tree]
            exact boot
          exact behind_differs ready whole₁ boot₁ name init cannot c agrees.1
        | skips s₁ isDir missing grows reached cell more alloc create =>
          have some_ : rawComponents tail ≠ [] := fun none_ => more (empty_iff.mp none_)
          rw [alloc, create, creates_missing isDir missing, if_neg some_,
            skip_congr links tree disk rest node]
          rw [links.childOf_eq tree disk ⟨node, isDir_iff.mp isDir⟩ first.2] at missing
          rw [← cell] at links
          have both := skips_agrees tree disk init (isDir_iff.mp isDir) missing some_ links reached
            shorter rest
          exact ⟨both.1, fun whole => both.2 (whole.grows grows (by rw [cell]))⟩

end

end

/-- Exactly where `alloc_file` agrees with `file_create` in all states of the cache and of the
server's memory. -/
theorem allocFile_agrees_iff (c : Nat → Nat) (path : List Nat) (init : Nat)
    (disk : c sNblocks ≤ 2 ^ 18) (tree : Tree c) (boot : isFree c 0 = false)
    (nul : ∀ b ∈ path, b ≠ 0) (plain : Plain (rawComponents path)) :
    (∀ s, Inited s → s.cell = c →
      AllocAgrees c (rawComponents path) sRoot (allocFile path init s) (fileCreate path s)) ↔
      Creates init c (rawComponents path) sRoot := by
  have sub : (skipSlash path).length ≤ path.length := (List.dropWhile_sublist _).length_le
  have proper : ∀ n ∈ rawComponents path, Proper n ∧ n.length < maxnamelen :=
    fun n hn => ⟨⟨(plain n hn).1, raw_nul nul n hn⟩, (plain n hn).2⟩
  have loops (s : Fs) (inited : Inited s) (cell : s.cell = c) := by
    have reached : Reached s sRoot := reached_root inited (by rw [cell]; exact tree)
    have links : Relinks c s.cell := by
      rw [cell]
      exact .refl c
    exact allocPath_agrees tree disk init boot links reached (Nat.le_refl _) sub proper none
  constructor
  · intro agrees
    have whole : Whole (inCache c) :=
      ⟨⟨disk, rfl, fun _ _ => rfl⟩, fun _ => rfl, fun _ _ => .inl rfl⟩
    exact (loops _ whole.toInited rfl).2 whole (agrees _ whole.toInited rfl)
  · intro creates s inited cell
    have loop := (loops s inited cell).1
    rw [cell] at loop
    exact loop creates

/-- The name is missing in a directory with a slot. -/
theorem allocFile_agrees_twoDirs :
    AllocAgrees twoDirs.cell (rawComponents [47, 98]) sRoot (allocFile [47, 98] 1 twoDirs)
    (fileCreate [47, 98] twoDirs) := by
  have plain : Plain (rawComponents [47, 98]) := by
    intro n hn
    rw [List.mem_singleton.mp hn]
    decide
  have agrees := (allocFile_agrees_iff twoDirs.cell [47, 98] 1 (by decide) twoDirs_tree rfl
    (by decide) plain).mpr
  exact agrees (fun _ => .inl (by decide)) twoDirs twoDirs_inited rfl

/-- A disk of eight blocks, with an empty root and block 4 free. -/
def bareRoot : Fs where
  word := fun w => if w = sNblocks then 8 else if w = sRoot then 47 else if w = fType sRoot then 1
    else if w = 2048 then 16 else 0
  mapped := fun _ => true
  pteD := fun _ => false
  disk := fun _ => 0
  memory := fun _ => true
  asked := 0

/-- `/b/c` is created as `/c`; and where `diskbno` is 0, a new block is left for block 0. -/
theorem allocFile_differs :
    ¬ AllocAgrees twoDirs.cell (rawComponents [47, 98, 47, 99]) sRoot
    (allocFile [47, 98, 47, 99] 1 twoDirs)
        (fileCreate [47, 98, 47, 99] twoDirs) ∧
      ¬ AllocAgrees bareRoot.cell (rawComponents [47, 97]) sRoot (allocFile [47, 97] 0 bareRoot)
        (fileCreate [47, 97] bareRoot) := by
  obtain ⟨s₁, alloc⟩ : ∃ s₁, allocFile [47, 98, 47, 99] 1 twoDirs = .ok (.ok 3136, s₁) := ⟨_, rfl⟩
  obtain ⟨s₂, create⟩ : ∃ s₂, fileCreate [47, 98, 47, 99] twoDirs =
    .ok (.error (-eNotFound), s₂) := ⟨_, rfl⟩
  obtain ⟨s₃, alloc'⟩ : ∃ s₃, allocFile [47, 97] 0 bareRoot = .ok (.ok 0, s₃) := ⟨_, rfl⟩
  obtain ⟨s₄, create'⟩ : ∃ s₄, fileCreate [47, 97] bareRoot = .ok (.ok 4096, s₄) := ⟨_, rfl⟩
  rw [alloc, create, alloc', create']
  exact ⟨fun agrees => agrees.1, fun agrees => nomatch agrees.1.1⟩

end FsM

end RiscvMos
