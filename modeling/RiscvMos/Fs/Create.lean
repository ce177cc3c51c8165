import RiscvMos.Fs.Scanners

/-!
`file_create` of `fs/fs.c`, and `alloc_file`, which searches and creates in one loop.
-/

namespace RiscvMos

namespace Fs

/-- A slot of the directory is not in use. -/
def HasFree (c : Nat → Nat) (d : Nat) : Prop := ∃ f ∈ files c d, cellByte c (4 * f) = 0

end Fs

namespace FsM

open Fs

/-- A word with another byte `k`. -/
def setByte (w k b : Nat) : Nat :=
  w % 256 ^ k + b % 256 * 256 ^ k + w / 256 ^ (k + 1) * 256 ^ (k + 1)

def storeByte (i b : Nat) : FsM Unit := do
  let w ← load (i / 4)
  store (i / 4) (setByte w (i % 4) b)

/-- `strcpy` of a name to the byte `i` of the cache. -/
def strcpy : Nat → List Nat → FsM Unit
  | i, [] => storeByte i 0
  | i, b :: name => do
    storeByte i b
    strcpy (i + 1) name

/-- What `file_create` does behind `walk_path`. -/
def createBehind (w : Walk) : FsM (Except Int Nat) := do
  if w.code = 0 then pure (.error (-eFileExists))
  else match w.dir with
    | none => pure (.error w.code)
    | some dir =>
      if w.code ≠ -eNotFound then pure (.error w.code)
      else match ← dirAllocFile dir with
        | .error _ => pure (.error w.code)
        | .ok f =>
          match w.lastelem with
          | none => stop .undefined
          | some name => do
            strcpy (4 * f) name
            pure (.ok f)

theorem createBehind_missing (d : Nat) (name : List Nat) :
    createBehind ⟨-eNotFound, some d, none, some name⟩ = (do
      match ← dirAllocFile d with
      | .error _ => pure (.error (-eNotFound))
      | .ok f => do
        strcpy (4 * f) name
        pure (.ok f)) := rfl

def fileCreate (path : List Nat) : FsM (Except Int Nat) := do
  let w ← walkPath path
  createBehind w

/-- `strcpy(f->f_name, name)`, `f->f_dir = dir`. -/
def nameFile (dir f : Nat) (name : List Nat) : FsM (Except Int Nat) := do
  strcpy (4 * f) name
  setDir f dir
  pure (.ok f)

/-- The loop of `alloc_file_dir`; `init` is what the second `diskbno` holds before it is set. -/
def allocDirFrom (dir : Nat) (name : List Nat) (init : Nat) : Nat → Nat → FsM (Except Int Nat)
  | 0, i => do
    store (fSize dir) ((← load (fSize dir)) + by2blk)
    let (r, diskbno) ← allocBlockFile dir i init
    if r < 0 then pure (.error r)
    else do
      readBlock diskbno
      nameFile dir (blockWord diskbno 0) name
  | n + 1, i => do
    match ← getBlockFile dir i with
    | .error r => pure (.error r)
    | .ok b => do
      readBlock b
      match findFree (← get) b with
      | some f => nameFile dir f name
      | none => allocDirFrom dir name init n (i + 1)

def allocFileDir (dir : Nat) (name : List Nat) (init : Nat) : FsM (Except Int Nat) := do
  let size ← load (fSize dir)
  allocDirFrom dir name init (size / by2blk) 0

/-- The loop of `alloc_file`, which ends with the path. -/
def allocPathFrom (init : Nat) : Nat → Nat → List Nat → FsM (Except Int Nat)
  | 0, _, _ => pure (.error (-eFileExists))
  | n + 1, file, path => do
    if path = [] then pure (.error (-eFileExists))
    else
      let path := if path.head? = some slash then path.tail else path
      let name := path.takeWhile (· != slash)
      let rest := path.dropWhile (· != slash)
      if maxnamelen < name.length then pure (.error (-eBadPath))
      -- `name[len] = '\0'` is behind the buffer
      else if name.length = maxnamelen then stop .undefined
      else if (← load (fType file)) ≠ ftypeDir then pure (.error (-eNotFound))
      else match ← getFileDir file name with
        | .ok f => allocPathFrom init n f rest
        | .error r =>
          if r = -eNotFound ∧ rest = [] then
            match ← allocFileDir file name init with
            | .error _ => pure (.error r)
            | .ok f => pure (.ok f)
          -- `*file` is still the directory
          else allocPathFrom init n file rest

def allocFile (path : List Nat) (init : Nat) : FsM (Except Int Nat) :=
  allocPathFrom init path.length sRoot path

/-! ## Storing a name -/

theorem setByte_at (w b : Nat) {k j : Nat} (hk : k < 4) (hj : j < 4) :
    setByte w k b % 2 ^ 32 / 256 ^ j % 256 = if j = k then b % 256 else w / 256 ^ j % 256 := by
  have places : ∀ n < 4, n = 0 ∨ n = 1 ∨ n = 2 ∨ n = 3 := by decide
  unfold setByte
  rcases places k hk with rfl | rfl | rfl | rfl <;> rcases places j hj with rfl | rfl | rfl | rfl
    <;> simp <;> omega

theorem cellByte_div (c : Nat → Nat) (i : Nat) :
    cellByte c i = c (i / 4) / 256 ^ (i % 4) % 256 := by
  rw [cellByte, Nat.shiftRight_eq_div_pow, Nat.pow_mul]

section
variable {s : Fs} {f i : Nat} {name : List Nat}

theorem storeByte_cell (cached : s.mapped (i / 4 / 1024) = true) (b : Nat) :
    ∃ s', storeByte i b s = .ok ((), s') ∧ Grows s s' ∧
      (∀ j, cellByte s'.cell j = if j = i then b % 256 else cellByte s.cell j) ∧
      ∀ w, w ≠ i / 4 → s'.cell w = s.cell w := by
  obtain ⟨s', stored, grows, cell⟩ := store_mapped cached (setByte (s.cell (i / 4)) (i % 4) b)
  refine ⟨s', ?_, grows, fun j => ?_, fun w other => ?_⟩
  · unfold storeByte
    rw [bind_ok (load_mapped cached)]
    exact stored
  · rw [cellByte_div, cellByte_div, cell]
    by_cases word : j / 4 = i / 4
    · rw [word, Function.update_self, uInt,
        setByte_at _ _ (Nat.mod_lt _ (by decide)) (Nat.mod_lt _ (by decide))]
      by_cases same : j = i
      · rw [if_pos same, if_pos (by rw [same])]
      · rw [if_neg same, if_neg (by omega)]
    · have other : j ≠ i := fun same => word (by rw [same])
      rw [Function.update_of_ne word, if_neg other]
  · rw [cell, Function.update_of_ne other]

/-- The bytes of the name and the `NUL`, and nothing else. -/
theorem strcpy_cell (cached : s.mapped (f / 1024) = true) (place : f % 1024 ≤ 960) {k : Nat}
    (fits : k + name.length < maxnamelen) :
    ∃ s', strcpy (4 * f + k) name s = .ok ((), s') ∧ Grows s s' ∧
      (∀ j, cellByte s'.cell j =
        if 4 * f + k ≤ j ∧
        j ≤ 4 * f + k + name.length then (name ++ [0]).getD (j - (4 * f + k)) 0 % 256
        else cellByte s.cell j) ∧
      ∀ w, ¬ (f ≤ w ∧ w < f + 32) → s'.cell w = s.cell w := by
  have fits' : k + name.length < 128 := fits
  have block : (4 * f + k) / 4 / 1024 = f / 1024 := by omega
  have word : f ≤ (4 * f + k) / 4 ∧ (4 * f + k) / 4 < f + 32 := by omega
  have cached' : s.mapped ((4 * f + k) / 4 / 1024) = true := by
    rw [block]
    exact cached
  induction name generalizing s k with
  | nil =>
    obtain ⟨s', stored, grows, cell, frame⟩ := storeByte_cell cached' 0
    refine ⟨s', stored, grows, fun j => ?_, fun w out => frame w fun same => out (same ▸ word)⟩
    rw [cell]
    by_cases here : j = 4 * f + k
    · rw [if_pos here, if_pos (by omega), here, Nat.sub_self]
      rfl
    · rw [if_neg here, if_neg (by rw [List.length_nil]; omega)]
  | cons b name ih =>
    rw [List.length_cons] at fits'
    obtain ⟨s₁, stored, grows, cell, frame⟩ := storeByte_cell cached' b
    have next : 4 * f + (k + 1) = 4 * f + k + 1 := rfl
    obtain ⟨s', rest, grows', cell', frame'⟩ :=
      @ih s₁ (grows.mapped _ cached) (k + 1) (show k + 1 + name.length < 128 by omega)
        (by omega) (by omega)
      (by omega)
      (grows.mapped _ (by rw [show (4 * f + (k + 1)) / 4 / 1024 = f / 1024 by omega]; exact cached))
    refine ⟨s', ?_, grows.trans grows', fun j => ?_, fun w out => ?_⟩
    · unfold strcpy
      rw [bind_ok stored]
      exact rest
    · rw [cell', cell, next, List.length_cons]
      by_cases here : j = 4 * f + k
      · rw [if_neg (by omega), if_pos here, if_pos (by omega), here, Nat.sub_self]
        rfl
      · by_cases inside : 4 * f + k + 1 ≤ j ∧ j ≤ 4 * f + k + 1 + name.length
        · have step : j - (4 * f + k) = (j - (4 * f + k + 1)) + 1 := by omega
          rw [if_pos inside, if_pos (by omega), step]
          rfl
        · rw [if_neg inside, if_neg here, if_neg (by omega)]
    · rw [frame' w out, frame w fun same => out (same ▸ word)]

end

/-! ## The look-ups are the same -/

section
variable {s : Fs} {d i : Nat} {name : List Nat}

/-- Where there is a block, none is allocated. -/
theorem fileMapBlock_noAlloc (h : Searchable s d) (hi : i < nblock s.cell d) :
    fileMapBlock d i true s = fileMapBlock d i false s := by
  obtain ⟨-, nonzero, indirect⟩ := h.slot hi trivial
  unfold fileMapBlock fileBlockWalk
  by_cases direct : i < ndirect
  · rw [slot, if_pos direct] at nonzero
    rw [if_pos direct, if_pos direct, pure_bind, pure_bind]
    simp only
    rw [bind_ok (load_mapped (h.direct direct)), bind_ok (load_mapped (h.direct direct)),
      if_neg nonzero, if_neg nonzero]
  · have high : ndirect ≤ i := Nat.le_of_not_lt direct
    have below : i < nindirect := Nat.lt_of_lt_of_le hi (h.tree.few h.dir)
    have cached : s.mapped (fIndirect d / 1024) = true := h.field (by decide)
    rw [slot, if_neg direct] at nonzero
    rw [if_neg direct, if_neg direct, if_pos below, if_pos below, bind_assoc, bind_assoc,
      bind_ok (load_mapped cached), bind_ok (load_mapped cached), if_neg (indirect high),
      if_neg (indirect high)]
    unfold indirectEntry
    rw [bind_assoc, bind_assoc, bind_ok (load_mapped cached), bind_ok (load_mapped cached),
      bind_assoc, bind_assoc]
    apply bind_congr_at
    intro _ s₁ read
    have read := (indirect_ends h hi trivial high (Has.any s _)).result read
    rw [pure_bind, pure_bind]
    simp only
    rw [bind_ok (load_mapped read.2.2.2), bind_ok (load_mapped read.2.2.2), read.2.1.cell,
      if_neg nonzero, if_neg nonzero]

/-- A block of the directory is fetched and used, in the first version or in the second. -/
theorem fetch_congr {α : Type} (h : Searchable s d) (hi : i < nblock s.cell d) {E : Int → FsM α}
    {k : Nat → FsM α}
    {k' : Except Int Nat → FsM α}
    (same : ∀ s₁, Searchable s₁ d → Keeps s s₁ → s₁.mapped (pointer s.cell d i) = true →
      k (pointer s.cell d i) s₁ = k' (.ok (pointer s.cell d i)) s₁) :
    (do
      match ← getBlockFile d i with
      | .error r => E r
      | .ok b => do
        readBlock b
        k b) s = (fileGetBlock d i >>= k') s := by
  have noAlloc := fileMapBlock_noAlloc h hi
  have whole := h.tree.whole d h.dir i hi trivial
  unfold fileGetBlock
  rw [getBlockFile_eq, bind_assoc]
  cases out : fileMapBlock d i false s with
  | error e =>
    rw [out] at noAlloc
    rw [bind_error out, bind_error noAlloc]
  | ok p =>
    obtain ⟨r, s₁⟩ := p
    rw [out] at noAlloc
    obtain ⟨-, rfl, keeps, -⟩ := (fileMapBlock_ends h hi trivial fun _ => Has.any s _).result out
    have h₁ := h.keeps keeps
    rw [bind_ok out, bind_ok noAlloc]
    simp only
    rw [bind_assoc]
    apply bind_congr_at
    intro _ s₂ read
    have used : pointer s.cell d i < s₁.cell sNblocks ∧
        isFree s₁.cell (pointer s.cell d i) = false := by
      rw [keeps.cell]
      exact whole.2
    have read := (readBlock_ends h₁.toInited used.1 used.2 (Has.any s₁ _)).result read
    rw [pure_bind]
    exact same s₂ (h₁.keeps read.2.1) (keeps.trans read.2.1) read.2.2

theorem getDirFrom_eq (h : Searchable s d) (n i : Nat) (hn : i + n = nblock s.cell d) :
    getDirFrom d name n i s = lookupFrom d name n i s := by
  induction n generalizing s i with
  | zero => rfl
  | succ n ih =>
    unfold getDirFrom lookupFrom
    apply fetch_congr h (by omega)
    intro s₁ h₁ keeps _
    simp only
    have here : (get : FsM Fs) s₁ = .ok (s₁, s₁) := rfl
    rw [bind_ok here, bind_ok here]
    cases findName s₁ (pointer s.cell d i) name with
    | some f => rfl
    | none => exact ih h₁ (i + 1) (by rw [keeps.cell]; omega)

/-- On a directory without holes `get_file_dir` is `dir_lookup`. -/
theorem getFileDir_eq (h : Searchable s d) (name : List Nat) :
    getFileDir d name s = dirLookup d name s := by
  have cached : s.mapped (fSize d / 1024) = true := h.field (by decide)
  unfold getFileDir dirLookup
  rw [bind_ok (load_mapped cached), bind_ok (load_mapped cached)]
  exact getDirFrom_eq h _ 0 (Nat.zero_add _)

/-! ## Creating in a directory -/

/-- The error codes of a computation are negative. -/
def Negative {α : Type} (m : FsM (Except Int α)) : Prop :=
  ∀ s r s', m s = .ok (.error r, s') → r < 0

theorem Negative.pure_ok {α : Type} (a : α) : Negative (pure (.ok a)) := by
  intro s r s' out
  cases out

theorem Negative.pure_error {α : Type} {r : Int} (h : r < 0) :
    Negative (pure (.error r) : FsM (Except Int α)) := by
  intro s r' s' out
  cases out
  exact h

theorem Negative.bind {α β : Type} {x : FsM α} {f : α → FsM (Except Int β)}
    (h : ∀ a, Negative (f a)) :
    Negative (x >>= f) := by
  intro s r s' out
  obtain ⟨a, s₁, -, rest⟩ := StateT.bind_ok_iff.mp out
  exact h a s₁ r s' rest

theorem Negative.bind_result {α β : Type} {x : FsM (Except Int α)} (hx : Negative x)
    {f : Except Int α → FsM (Except Int β)} (error : ∀ r, f (.error r) = pure (.error r))
    (h : ∀ a, Negative (f (.ok a))) :
    Negative (x >>= f) := by
  intro s r s' out
  obtain ⟨a, s₁, first, rest⟩ := StateT.bind_ok_iff.mp out
  cases a with
  | error r' =>
    have negative := hx s r' s₁ first
    rw [error] at rest
    cases rest
    exact negative
  | ok a => exact h a s₁ r s' rest

theorem allocFrom_negative (n b : Nat) : Negative (allocFrom n b) := by
  induction n generalizing b with
  | zero => exact .pure_error (by decide)
  | succ n ih =>
    apply Negative.bind
    intro nblocks
    by_cases more : b < nblocks
    · rw [if_pos more]
      apply Negative.bind
      intro w
      by_cases free : w.testBit (b % 32) = true
      · rw [if_pos free]
        exact .bind fun _ => .bind fun _ => .pure_ok b
      · rw [if_neg free]
        exact ih (b + 1)
    · rw [if_neg more]
      exact .pure_error (by decide)

theorem allocBlock_negative : Negative allocBlock := by
  refine Negative.bind_result (.bind fun n => allocFrom_negative n 3) (fun r => rfl) fun b => ?_
  apply Negative.bind
  intro r
  by_cases negative : r < 0
  · rw [if_pos negative]
    exact .bind fun _ => .pure_error negative
  · rw [if_neg negative]
    exact .pure_ok b

theorem fileMapBlock_negative (f i : Nat) : Negative (fileMapBlock f i true) := by
  have entry : Negative (indirectEntry f i) := .bind fun _ => .bind fun _ => .pure_ok _
  have walk : Negative (fileBlockWalk f i true) := by
    unfold fileBlockWalk
    by_cases direct : i < ndirect
    · rw [if_pos direct]
      exact .pure_ok _
    · rw [if_neg direct]
      by_cases below : i < nindirect
      · rw [if_pos below]
        apply Negative.bind
        intro b
        by_cases none_ : b = 0
        · rw [if_pos none_, if_pos rfl]
          exact .bind_result allocBlock_negative (fun r => rfl) fun b => .bind fun _ => entry
        · rw [if_neg none_]
          exact entry
      · rw [if_neg below]
        exact .pure_error (by decide)
  refine Negative.bind_result walk (fun r => rfl) fun ptr => ?_
  apply Negative.bind
  intro b
  by_cases none_ : b = 0
  · rw [if_pos none_, if_pos rfl]
    exact .bind_result allocBlock_negative (fun r => rfl) fun b => .bind fun _ =>
      .bind fun _ => .pure_ok _
  · rw [if_neg none_]
    exact .bind fun _ => .pure_ok _

/-- The free slots of a block that is in the cache. -/
theorem findFree_eq {c : Nat → Nat} {b : Nat} (cell : s.cell = c) (cached : s.mapped b = true)
    (small : b < 2 ^ 20) :
    findFree s b = (filesIn b).find? fun f => cellByte c (4 * f) == 0 := by
  apply List.find?_congr
  intro f hf
  obtain ⟨j, hj, rfl⟩ := (mem_filesIn small).mp hf
  have few : j < 16 := hj
  have word : 4 * (1024 * b + 64 * j) / 4 = 1024 * b + 64 * j :=
    Nat.mul_div_cancel_left _ (by decide)
  have block : (1024 * b + 64 * j) / 1024 = b := by omega
  unfold Fs.byte cellByte
  rw [word, ← cell, Fs.cell, if_pos (by rw [block]; exact cached)]

end

end FsM

end RiscvMos
