import RiscvMos.Fs.Debug
import RiscvMos.Fs.Rewritten
import RiscvMos.Fs.Resolve

/-!
The path look-ups that `fs/fs.c` has a second and a third time: `file_open1`,
`get_file` and `get_file_absolute`, and the paths on which they do what `file_open`
does.
-/

namespace RiscvMos

namespace FsM

open Fs

/-- The loop of `get_file_dir`. -/
def getDirFrom (dir : Nat) (name : List Nat) : Nat → Nat → FsM (Except Int Nat)
  | 0, _ => pure (.error (-eNotFound))
  | n + 1, i => do
    match ← getBlockFile dir i with
    | .error r => pure (.error r)
    | .ok b => do
      readBlock b
      match findName (← get) b name with
      | some f => do
        setDir f dir
        pure (.ok f)
      | none => getDirFrom dir name n (i + 1)

def getFileDir (dir : Nat) (name : List Nat) : FsM (Except Int Nat) := do
  let size ← load (fSize dir)
  getDirFrom dir name (size / by2blk) 0

/-- The loop of `file_open1` and of `get_file`, which ends with the path. -/
def openFrom (lookup : Nat → List Nat → FsM (Except Int Nat)) :
    Nat → Nat → List Nat → FsM (Except Int Nat)
  | 0, file, _ => pure (.ok file)
  | n + 1, file, path => do
    if path = [] then pure (.ok file)
    else
      let path := if path.head? = some slash then path.tail else path
      let name := path.takeWhile (· != slash)
      if maxnamelen < name.length then pure (.error (-eBadPath))
      -- `name[len] = '\0'` is behind the buffer
      else if name.length = maxnamelen then stop .undefined
      else if (← load (fType file)) ≠ ftypeDir then pure (.error (-eNotFound))
      else match ← lookup file name with
        | .error r => pure (.error r)
        | .ok f => openFrom lookup n f (path.dropWhile (· != slash))

def fileOpen1 (path : List Nat) : FsM (Except Int Nat) := openFrom dirLookup1 path.length sRoot path

def getFile (path : List Nat) : FsM (Except Int Nat) := openFrom getFileDir path.length sRoot path

/-! ## The look-ups in a directory -/

section
variable {s : Fs} {d i : Nat} {name : List Nat} {alloc : Bool}

theorem findBlock_ends (h : Searchable s d) (hi : i < nblock s.cell d) :
    Ends True (findBlock d i alloc) s fun r s' => r = .block (pointer s.cell d i) ∧ Keeps s s' := by
  obtain ⟨value, nonzero, indirect⟩ := h.slot hi trivial
  rw [value]
  unfold findBlock
  by_cases direct : i < ndirect
  · rw [slot, if_pos direct] at nonzero ⊢
    rw [if_pos direct]
    apply Ends.load (h.direct direct)
    rw [numbered, if_neg nonzero]
    exact Runs.pure ⟨rfl, Keeps.refl s⟩
  · have high : ndirect ≤ i := Nat.le_of_not_lt direct
    have below : i < nindirect := Nat.lt_of_lt_of_le hi (h.tree.few h.dir)
    have cached : s.mapped (fIndirect d / 1024) = true := h.field (by decide)
    rw [slot, if_neg direct] at nonzero ⊢
    rw [if_neg direct, if_pos below]
    apply Ends.load cached
    rw [if_neg (indirect high)]
    unfold indirectNumber
    apply Ends.load cached
    apply Runs.bind (indirect_ends h hi trivial high (.inl trivial))
    intro _ s₁ _ read
    apply Ends.load read.2.2
    rw [read.1.cell, numbered, if_neg nonzero]
    exact Runs.pure ⟨rfl, read.1⟩

/-- What a look-up in a directory does, of whichever version. -/
structure LooksUp (lookup : Nat → List Nat → FsM (Except Int Nat)) : Prop where
  ends : ∀ {s d name}, name.length < maxnamelen → Searchable s d →
    Ends True (lookup d name) s fun r s' => Looked s.cell d (childOf s.cell d name) r s'
  empty : ∀ {s d}, s.mapped (fSize d / 1024) = true → nblock s.cell d = 0 →
    ∀ name, lookup d name s = .ok (.error (-eNotFound), s)

/-- Behind the number of a block: the block is read and searched, and then the rest. -/
theorem readSearch_ends (fits : name.length < maxnamelen) (h : Searchable s d)
    (hi : i < nblock s.cell d) {next : FsM (Except Int Nat)} {found : Option Nat}
    (rest : ∀ s₁, Searchable s₁ d → s₁.cell = s.cell →
      Ends True next s₁ fun r s' => Looked s.cell d found r s') :
    Ends True (do
      readBlock (pointer s.cell d i)
      match findName (← get) (pointer s.cell d i) name with
      | some f => do
        setDir f d
        pure (.ok f)
      | none => next) s fun r s' =>
        Looked s.cell d (((filesIn (pointer s.cell d i)).find? fun f => hasName s.cell f name).or
          found) r s' := by
  have whole := h.tree.whole d h.dir i hi trivial
  apply Runs.bind (readBlock_ends h.toInited whole.2.1 whole.2.2 (.inl trivial))
  intro _ s₁ _ read
  have h₁ := h.keeps read.1
  have next_ := rest s₁ h₁ read.1.cell
  have cached := read.2
  rw [← read.1.cell] at cached hi next_ ⊢
  apply Runs.mono (searchBlock_ends (R := fun _ => True) fits h₁ hi trivial cached fun _ =>
    Runs.mono next_ fun _ _ _ looked => ⟨looked, trivial⟩)
  exact fun _ _ _ looked => looked.1

theorem lookup1From_ends (fits : name.length < maxnamelen) (h : Searchable s d) (n i : Nat)
    (hn : i + n = nblock s.cell d) :
    Ends True (lookup1From d name n i) s fun r s' =>
      Looked s.cell d
      (((List.range' i n).flatMap fun i => filesIn (pointer s.cell d i)).find? fun f =>
        hasName s.cell f name) r s' := by
  induction n generalizing s i with
  | zero => exact Runs.pure ⟨rfl, rfl⟩
  | succ n ih =>
    have hi : i < nblock s.cell d := by omega
    unfold lookup1From
    rw [find_files]
    apply Runs.bind (findBlock_ends h hi)
    intro r s₁ _ got
    obtain ⟨rfl, keeps⟩ := got
    rw [← keeps.cell] at hi hn ⊢
    apply readSearch_ends fits (h.keeps keeps) hi
    intro s₂ h₂ same
    rw [← same] at hn ⊢
    exact ih h₂ (i + 1) (by omega)

theorem getDirFrom_ends (fits : name.length < maxnamelen) (h : Searchable s d) (n i : Nat)
    (hn : i + n = nblock s.cell d) :
    Ends True (getDirFrom d name n i) s fun r s' =>
      Looked s.cell d
      (((List.range' i n).flatMap fun i => filesIn (pointer s.cell d i)).find? fun f =>
        hasName s.cell f name) r s' := by
  induction n generalizing s i with
  | zero => exact Runs.pure ⟨rfl, rfl⟩
  | succ n ih =>
    have hi : i < nblock s.cell d := by omega
    unfold getDirFrom
    rw [find_files, getBlockFile_eq]
    apply Runs.bind (fileMapBlock_ends h hi trivial fun _ => .inl trivial)
    intro r s₁ _ got
    obtain ⟨rfl, keeps, -⟩ := got
    rw [← keeps.cell] at hi hn ⊢
    apply readSearch_ends fits (h.keeps keeps) hi
    intro s₂ h₂ same
    rw [← same] at hn ⊢
    exact ih h₂ (i + 1) (by omega)

theorem dirLookup1_looksUp : LooksUp dirLookup1 := by
  constructor
  · intro s d name fits h
    unfold dirLookup1
    apply Ends.load (h.field (by decide))
    have all := lookup1From_ends fits h (nblock s.cell d) 0 (Nat.zero_add _)
    rw [← List.range_eq_range'] at all
    exact all
  · intro s d cached none_ name
    have zero : s.cell (fSize d) / by2blk = 0 := none_
    unfold dirLookup1
    rw [bind_ok (load_mapped cached), zero]
    rfl

theorem getFileDir_looksUp : LooksUp getFileDir := by
  constructor
  · intro s d name fits h
    unfold getFileDir
    apply Ends.load (h.field (by decide))
    have all := getDirFrom_ends fits h (nblock s.cell d) 0 (Nat.zero_add _)
    rw [← List.range_eq_range'] at all
    exact all
  · intro s d cached none_ name
    have zero : s.cell (fSize d) / by2blk = 0 := none_
    unfold getFileDir
    rw [bind_ok (load_mapped cached), zero]
    rfl

end

end FsM

namespace Fs

/-! ## Paths -/

/-- What the scanners of the second versions take for components: each skips one slash only. -/
def rawComponents (path : List Nat) : List (List Nat) :=
  if path = [] then []
  else (if path.head? = some FsM.slash then path.tail else path).splitOn FsM.slash

/-- The file that the names lead to, if they fit into `name[MAXNAMELEN]`. -/
def located (c : Nat → Nat) : List (List Nat) → Nat → Option Nat
  | [], f => some f
  | name :: names, f =>
    if name.length < maxnamelen ∧ IsDir c f then (childOf c f name).bind (located c names) else none

/-- What the second versions make of the names: a file, no file, or a store behind the buffer. -/
def strayed (c : Nat → Nat) : List (List Nat) → Nat → Option (Option Nat)
  | [], f => some (some f)
  | name :: names, f =>
    if name.length = maxnamelen then none
    else if maxnamelen < name.length ∨ ¬ IsDir c f then some none
    else
      match childOf c f name with
      | some g => strayed c names g
      | none => some none

/-- The names that are not empty. -/
def named (names : List (List Nat)) : List (List Nat) := names.filter (· ≠ [])

/-- No name that is met has 128 bytes; and where an empty name is met, which takes a slot that is
not in use for a file, `file_open` finds nothing either and the slot ends the search. -/
def Coincide (c : Nat → Nat) : List (List Nat) → Nat → Prop
  | [], _ => True
  | name :: names, f =>
    if name = [] then
      located c (named names) f = none ∧
        (IsDir c f → ∀ g, childOf c f [] = some g →
          names.head?.map List.length ≠ some maxnamelen ∧ (IsDir c g → nblock c g = 0))
    else
      name.length ≠ maxnamelen ∧
        (name.length < maxnamelen → IsDir c f → ∀ g, childOf c f name = some g → Coincide c names g)

/-- Slots of directories that are not in use hold no blocks. -/
def Vacated (c : Nat → Nat) : Prop :=
  ∀ d f, Dir c d → f ∈ files c d → cellByte c (4 * f) = 0 → IsDir c f → nblock c f = 0

section
variable {c : Nat → Nat} {names : List (List Nat)} {path : List Nat} {f g : Nat}

theorem located_iff : located c names f = some g ↔ Short names ∧ resolve c names f = some g := by
  induction names generalizing f with
  | nil =>
    constructor
    · exact fun same => ⟨fun _ h => absurd h List.not_mem_nil, same⟩
    · exact fun h => h.2
  | cons name names ih =>
    have head : Short (name :: names) ↔ name.length < maxnamelen ∧ Short names :=
      List.forall_mem_cons
    unfold located resolve
    by_cases fits : name.length < maxnamelen
    · by_cases isDir : IsDir c f
      · rw [if_pos ⟨fits, isDir⟩, if_pos isDir, head]
        cases found : childOf c f name with
        | none => simp
        | some h =>
          simp only [Option.bind_some, fits, true_and]
          exact ih
      · rw [if_neg (fun both => isDir both.2), if_neg isDir]
        simp
    · rw [if_neg (fun both => fits both.1), head]
      simp [fits]

/-- The scanner of the second versions takes the first name. -/
theorem rawComponents_cons (some_ : path ≠ []) :
    rawComponents path =
      ((if path.head? = some FsM.slash then path.tail else path).takeWhile (· != FsM.slash)) ::
        rawComponents ((if path.head? = some FsM.slash then path.tail
          else path).dropWhile (· != FsM.slash)) := by
  rw [rawComponents, if_neg some_]
  generalize (if path.head? = some FsM.slash then path.tail else path) = rest
  have none_ : FsM.slash ∉ rest.takeWhile (· != FsM.slash) := by
    intro mem
    have other := List.all_eq_true.mp (List.all_takeWhile (p := (· != FsM.slash))) FsM.slash mem
    exact absurd rfl (bne_iff_ne.mp other)
  have whole := List.takeWhile_append_dropWhile (p := (· != FsM.slash)) (l := rest)
  cases left : rest.dropWhile (· != FsM.slash) with
  | nil =>
    rw [left, List.append_nil] at whole
    rw [whole] at none_ ⊢
    exact List.splitOn_eq_singleton none_
  | cons sep after =>
    have sep_ : sep = FsM.slash := by
      have stop := List.head?_dropWhile_not (· != FsM.slash) rest
      rw [left] at stop
      simpa using stop
    rw [left, sep_] at whole
    have split := List.splitOn_append_cons_self_of_not_mem none_ after
    rw [whole] at split
    rw [split, sep_]
    rfl

theorem rawComponents_nil (path : List Nat) : rawComponents path = [] ↔ path = [] := by
  constructor
  · intro none_
    by_contra some_
    rw [rawComponents_cons some_] at none_
    cases none_
  · intro same
    rw [same]
    rfl

/-- What is left of a path after a name. -/
theorem left_raw (some_ : path ≠ []) :
    ((if path.head? = some FsM.slash then path.tail
        else path).dropWhile (· != FsM.slash)).Sublist path ∧
      ((if path.head? = some FsM.slash then path.tail
        else path).dropWhile (· != FsM.slash)).length < path.length := by
  cases path with
  | nil => exact absurd rfl some_
  | cons b path =>
    rw [List.head?_cons]
    by_cases first : b = FsM.slash
    · have sub : (path.dropWhile (· != FsM.slash)).Sublist path := List.dropWhile_sublist _
      rw [if_pos (by rw [first])]
      exact ⟨sub.trans (List.sublist_cons_self b path), Nat.lt_succ_of_le sub.length_le⟩
    · have sub : (path.dropWhile (· != FsM.slash)).Sublist path := List.dropWhile_sublist _
      rw [if_neg fun same => first (Option.some.inj same),
        List.dropWhile_cons_of_pos (by simpa using first)]
      exact ⟨sub.trans (List.sublist_cons_self b path), Nat.lt_succ_of_le sub.length_le⟩

theorem raw_nul (nul : ∀ b ∈ path, b ≠ 0) : ∀ n ∈ rawComponents path, ∀ b ∈ n, b ≠ 0 := by
  induction long : path.length using Nat.strong_induction_on generalizing path with
  | _ len ih =>
    by_cases done : path = []
    · rw [done]
      exact fun n hn => absurd hn List.not_mem_nil
    · have left := left_raw done
      have sub : (if path.head? = some FsM.slash then path.tail else path).Sublist path := by
        by_cases first : path.head? = some FsM.slash
        · rw [if_pos first]
          exact List.tail_sublist path
        · rw [if_neg first]
      rw [rawComponents_cons done]
      intro n hn b hb
      cases List.mem_cons.mp hn with
      | inl same =>
        rw [same] at hb
        exact nul b (sub.subset ((List.takeWhile_sublist _).subset hb))
      | inr later =>
        exact ih _ (by omega) (fun b hb => nul b (left.1.subset hb)) rfl n later b hb

theorem components_raw (path : List Nat) : components path = named (rawComponents path) := by
  cases path with
  | nil => rfl
  | cons b path =>
    unfold rawComponents
    rw [if_neg (List.cons_ne_nil b path)]
    by_cases first : b = FsM.slash
    · rw [first, components_slash, List.head?_cons, if_pos rfl]
      rfl
    · rw [List.head?_cons, if_neg fun same => first (Option.some.inj same)]
      rfl

/-- What follows a slot without blocks. -/
theorem strayed_empty (none_ : IsDir c g → nblock c g = 0) :
    strayed c names g =
      match names with
      | [] => some (some g)
      | name :: _ => if name.length = maxnamelen then none else some none := by
  cases names with
  | nil => rfl
  | cons name names =>
    unfold strayed
    by_cases bound : name.length = maxnamelen
    · rw [if_pos bound]
      simp only [bound, if_true]
    · rw [if_neg bound]
      simp only [bound, if_false]
      by_cases stop : maxnamelen < name.length ∨ ¬ IsDir c g
      · rw [if_pos stop]
      · rw [if_neg stop, childOf_none (none_ (not_not.mp (not_or.mp stop).2))]

/-- The slots that are taken for files hold no blocks. -/
def Idle (c : Nat → Nat) : List (List Nat) → Nat → Prop
  | [], _ => True
  | name :: names, f =>
    name.length < maxnamelen → IsDir c f → ∀ g, childOf c f name = some g →
      if name = [] then IsDir c g → nblock c g = 0 else Idle c names g

theorem Coincide.idle (h : Coincide c names f) : Idle c names f := by
  induction names generalizing f with
  | nil => trivial
  | cons name names ih =>
    intro fits isDir g found
    unfold Coincide at h
    by_cases none_ : name = []
    · rw [if_pos none_] at h ⊢
      rw [none_] at found
      exact (h.2 isDir g found).2
    · rw [if_neg none_] at h ⊢
      exact ih (h.2 fits isDir g found)

theorem free_slot (h : childOf c f [] = some g) : cellByte c (4 * g) = 0 := by
  have named := childOf_named h
  simp only [hasName, Bool.and_eq_true, beq_iff_eq] at named
  exact named.2

theorem Vacated.idle (vacated : Vacated c) (nul : ∀ n ∈ names, ∀ b ∈ n, b ≠ 0) (hf : Node c f) :
    Idle c names f := by
  induction names generalizing f with
  | nil => trivial
  | cons name names ih =>
    intro fits isDir g found
    have hd : Dir c f := ⟨hf, isDir⟩
    by_cases none_ : name = []
    · rw [if_pos none_]
      rw [none_] at found
      exact vacated f g hd (childOf_listed found) (free_slot found)
    · rw [if_neg none_]
      exact ih (fun n hn => nul n (List.mem_cons_of_mem name hn))
        (childOf_node hd ⟨none_, nul name List.mem_cons_self⟩ found)

/-- A slot that is not in use is no file of the tree. -/
theorem free_not_node (tree : Tree c) (disk : c sNblocks ≤ 2 ^ 18) (hd : Dir c f)
    (h : childOf c f [] = some g) :
    ¬ Node c g := by
  intro node
  have free := free_slot h
  obtain ⟨block, -, -, -⟩ := tree.file_place disk hd (.of_mem Every.intro (childOf_listed h))
  cases node with
  | root => exact absurd rfl (tree.apart 1 block).1
  | file _ _ _ used => exact used free

/-- The condition says that the names lead where `file_open` gets to. -/
theorem coincide_iff (tree : Tree c) (disk : c sNblocks ≤ 2 ^ 18)
    (nul : ∀ n ∈ names, ∀ b ∈ n, b ≠ 0) (hf : Node c f) (idle : Idle c names f) :
    Coincide c names f ↔ strayed c names f = some (located c (named names) f) := by
  induction names generalizing f with
  | nil =>
    constructor
    · exact fun _ => rfl
    · exact fun _ => trivial
  | cons name names ih =>
    unfold Coincide strayed
    by_cases none_ : name = []
    · have dropped : named (name :: names) = named names := by
        rw [none_]
        rfl
      rw [if_pos none_, dropped, none_, List.length_nil, if_neg (by decide)]
      by_cases isDir : IsDir c f
      · have hd : Dir c f := ⟨hf, isDir⟩
        rw [if_neg (fun or_ => or_.elim (by decide) fun other => other isDir)]
        cases found : childOf c f [] with
        | none => simp [isDir, eq_comm]
        | some g =>
          have blocks : IsDir c g → nblock c g = 0 := by
            have here := idle (by rw [none_]; decide) isDir g (by rw [none_]; exact found)
            rwa [if_pos none_] at here
          have other : g ≠ f := fun same => free_not_node tree disk hd found (same ▸ hf)
          simp only [strayed_empty blocks]
          cases names with
          | nil => simp [named, located, other]
          | cons second names =>
            by_cases bound : second.length = maxnamelen
            · simp [bound, isDir]
            · constructor
              · intro h
                simp only [bound, if_false, h.1]
              · intro h
                simp only [bound, if_false, Option.some.injEq] at h
                refine ⟨h.symm, fun _ g' same => ?_⟩
                rw [← Option.some.inj same]
                exact ⟨by simpa using bound, blocks⟩
      · rw [if_pos (.inr isDir)]
        simp [isDir, eq_comm]
    · have kept : named (name :: names) = name :: named names :=
        List.filter_cons_of_pos (by simpa using none_)
      rw [if_neg none_, kept, located]
      by_cases bound : name.length = maxnamelen
      · simp [bound]
      · rw [if_neg bound]
        by_cases fits : name.length < maxnamelen
        · by_cases isDir : IsDir c f
          · rw [if_neg (fun or_ => or_.elim (Nat.not_lt_of_lt fits) fun other => other isDir),
              if_pos ⟨fits, isDir⟩]
            cases found : childOf c f name with
            | none => simp [bound]
            | some g =>
              have node := childOf_node ⟨hf, isDir⟩ ⟨none_, nul name List.mem_cons_self⟩ found
              have next := idle fits isDir g found
              rw [if_neg none_] at next
              have rest := ih (fun n hn => nul n (List.mem_cons_of_mem name hn)) node next
              simp only [Option.bind_some, ← rest]
              constructor
              · exact fun h => h.2 fits isDir g rfl
              · intro h
                refine ⟨bound, fun _ _ g' same => ?_⟩
                rw [← Option.some.inj same]
                exact h
          · rw [if_pos (.inr isDir), if_neg (fun both => isDir both.2)]
            simp [bound, isDir]
        · rw [if_pos (.inl (by omega)), if_neg (fun both => fits both.1)]
          simp [bound, fits]

end

/-! ## Links change nothing -/

section
variable {c c' : Nat → Nat} {names : List (List Nat)} {f : Nat} (h : Relinks c c') (tree : Tree c)
  (disk : c sNblocks ≤ 2 ^ 18)

include h tree disk in
theorem idle_congr (nul : ∀ n ∈ names, ∀ b ∈ n, b ≠ 0) (hf : Node c f) :
    Idle c' names f ↔ Idle c names f := by
  induction names generalizing f with
  | nil => exact Iff.rfl
  | cons name names ih =>
    unfold Idle
    apply forall_congr'
    intro fits
    rw [h.isDir tree disk hf]
    apply forall_congr'
    intro isDir
    have hd : Dir c f := ⟨hf, isDir⟩
    rw [h.childOf_eq tree disk hd fits]
    apply forall_congr'
    intro g
    apply forall_congr'
    intro found
    by_cases none_ : name = []
    · have slot := h.slot_eq (childOf_listed found)
      rw [if_pos none_, if_pos none_, slot.1, slot.2]
    · rw [if_neg none_, if_neg none_]
      exact ih (fun n hn => nul n (List.mem_cons_of_mem name hn))
        (childOf_node hd ⟨none_, nul name List.mem_cons_self⟩ found)

include h tree disk in
theorem strayed_congr (nul : ∀ n ∈ names, ∀ b ∈ n, b ≠ 0) (hf : Node c f) (idle : Idle c names f) :
    strayed c' names f = strayed c names f := by
  induction names generalizing f with
  | nil => rfl
  | cons name names ih =>
    unfold strayed
    by_cases bound : name.length = maxnamelen
    · rw [if_pos bound, if_pos bound]
    · rw [if_neg bound, if_neg bound]
      by_cases isDir : IsDir c f
      · have isDir' := (h.isDir tree disk hf).mpr isDir
        by_cases beyond : maxnamelen < name.length
        · rw [if_pos (.inl beyond), if_pos (.inl beyond)]
        · have fits : name.length < maxnamelen := by omega
          have hd : Dir c f := ⟨hf, isDir⟩
          rw [if_neg (fun or_ => or_.elim beyond fun other => other isDir'),
            if_neg (fun or_ => or_.elim beyond fun other => other isDir),
            h.childOf_eq tree disk hd fits]
          cases found : childOf c f name with
          | none => rfl
          | some g =>
            have next := idle fits isDir g found
            by_cases none_ : name = []
            · have slot := h.slot_eq (childOf_listed found)
              rw [if_pos none_] at next
              have next' : IsDir c' g → nblock c' g = 0 := by
                rw [slot.1, slot.2]
                exact next
              simp only
              rw [strayed_empty next, strayed_empty next']
            · rw [if_neg none_] at next
              exact ih (fun n hn => nul n (List.mem_cons_of_mem name hn))
                (childOf_node hd ⟨none_, nul name List.mem_cons_self⟩ found) next
      · have other : ¬ IsDir c' f := fun isDir' => isDir ((h.isDir tree disk hf).mp isDir')
        rw [if_pos (.inr other), if_pos (.inr isDir)]

end

end Fs

namespace FsM

open Fs

/-! ## The scanners -/

/-- The kernel stops for want of a page, or a name is stored behind the buffer. -/
def straying (A : Prop) : Progress Fs Stop where
  rel := Serves True
  stops x s := (x = .halt ∧ ¬ s.Supplied) ∨ (x = .undefined ∧ A)
  refl := Serves.refl
  trans h h' := h.trans h'
  back h stops :=
    stops.imp (fun halt => ⟨halt.1, fun supplied => halt.2 (h.toGrows.supplied supplied)⟩) id

section
variable {s s' : Fs} {f g d n : Nat} {path : List Nat} {A : Prop}
    {lookup : Nat → List Nat → FsM (Except Int Nat)}

theorem Ends.straying {α : Type} {m : FsM α} {Q : α → Fs → Prop} (h : Ends True m s Q) :
    Runs (straying A) m s Q :=
  h.weaken (fun _ rel => rel) fun _ stops => .inl stops.2

/-- The search goes on in a slot that holds no blocks. -/
theorem openFrom_empty (looksUp : LooksUp lookup) (cached : s.mapped (g / 1024) = true)
    (place : g % 1024 ≤ 960) (none_ : IsDir s.cell g → nblock s.cell g = 0) (long : path.length ≤ n)
    (stray : strayed s.cell (rawComponents path) g = none → A) :
    Runs (FsM.straying A) (openFrom lookup n g path) s fun r _ =>
      strayed s.cell (rawComponents path) g = some r.toOption := by
  have type : s.mapped (fType g / 1024) = true := by
    have block : fType g / 1024 = g / 1024 := by
      unfold fType
      omega
    rw [block]
    exact cached
  have size : s.mapped (fSize g / 1024) = true := by
    have block : fSize g / 1024 = g / 1024 := by
      unfold fSize
      omega
    rw [block]
    exact cached
  by_cases done : path = []
  · subst done
    cases n with
    | zero => exact Runs.pure rfl
    | succ n => exact Runs.pure rfl
  · cases n with
    | zero => exact absurd (List.eq_nil_of_length_eq_zero (Nat.le_zero.mp long)) done
    | succ n =>
      rw [strayed_empty none_, rawComponents_cons done] at stray ⊢
      unfold openFrom
      rw [if_neg done]
      generalize (if path.head? = some slash then path.tail else path) = rest at stray ⊢
      simp only
      by_cases beyond : maxnamelen < (rest.takeWhile (· != slash)).length
      · rw [if_pos beyond]
        exact Runs.pure (if_neg (Nat.ne_of_gt beyond))
      · rw [if_neg beyond]
        by_cases bound : (rest.takeWhile (· != slash)).length = maxnamelen
        · rw [if_pos bound]
          exact Runs.of_error rfl (.inr ⟨rfl, stray (if_pos bound)⟩)
        · rw [if_neg bound, if_neg bound]
          apply Runs.bind_ok (load_mapped type) (Serves.refl s)
          by_cases isDir : s.cell (fType g) = ftypeDir
          · rw [if_neg (not_not.mpr isDir)]
            exact Runs.bind_ok (looksUp.empty size (none_ isDir) _) (Serves.refl s) (Runs.pure rfl)
          · rw [if_pos isDir]
            exact Runs.pure rfl

/-- A second version gives what its names lead to. -/
theorem openFrom_ends (looksUp : LooksUp lookup) (h : Reached s f) (long : path.length ≤ n)
    (nul : ∀ b ∈ path, b ≠ 0)
    (idle : Idle s.cell (rawComponents path) f)
    (stray : strayed s.cell (rawComponents path) f = none → A) :
    Runs (FsM.straying A) (openFrom lookup n f path) s fun r _ =>
      strayed s.cell (rawComponents path) f = some r.toOption := by
  induction n generalizing s f path with
  | zero =>
    rw [List.eq_nil_of_length_eq_zero (Nat.le_zero.mp long)]
    exact Runs.pure rfl
  | succ n ih =>
    by_cases done : path = []
    · rw [done]
      exact Runs.pure rfl
    · have nuls := raw_nul nul
      have left := left_raw done
      rw [rawComponents_cons done] at idle stray nuls ⊢
      unfold openFrom
      rw [if_neg done]
      generalize (if path.head? = some slash then path.tail else path) = rest
        at idle stray nuls left ⊢
      have nul' : ∀ b ∈ rest.dropWhile (· != slash), b ≠ 0 := fun b hb => nul b (left.1.subset hb)
      have shorter : (rest.dropWhile (· != slash)).length ≤ n := by
        have less := left.2
        omega
      simp only
      generalize rest.takeWhile (· != slash) = name at idle stray nuls ⊢
      generalize rest.dropWhile (· != slash) = tail at idle stray nuls nul' shorter ⊢
      by_cases beyond : maxnamelen < name.length
      · rw [if_pos beyond]
        apply Runs.pure
        unfold strayed
        rw [if_neg (Nat.ne_of_gt beyond), if_pos (.inl beyond)]
        rfl
      · rw [if_neg beyond]
        by_cases bound : name.length = maxnamelen
        · rw [if_pos bound]
          exact Runs.of_error rfl (.inr ⟨rfl, stray (if_pos bound)⟩)
        · have fits : name.length < maxnamelen := by omega
          rw [if_neg bound]
          apply Runs.bind_ok (load_mapped h.type_cached) (Serves.refl s)
          unfold strayed at stray ⊢
          rw [if_neg bound] at stray ⊢
          by_cases isDir : IsDir s.cell f
          · have same : s.cell (fType f) = ftypeDir := isDir
            have hd : Dir s.cell f := ⟨h.node, isDir⟩
            have go : ¬ (maxnamelen < name.length ∨ ¬ IsDir s.cell f) :=
              fun or_ => or_.elim beyond fun other => other isDir
            rw [if_neg go] at stray ⊢
            rw [if_neg (not_not.mpr same)]
            apply Runs.bind (looksUp.ends fits ⟨h.toInited, h.tree, hd, h.cached⟩).straying
            intro r s₁ grows looked
            cases found : childOf s.cell f name with
            | none =>
              rw [found] at looked
              obtain ⟨rfl, -⟩ := looked
              exact Runs.pure rfl
            | some g =>
              rw [found] at looked stray
              obtain ⟨rfl, cell, cached⟩ := looked
              have listed : Listed Every s.cell f g := .of_mem Every.intro (childOf_listed found)
              have links : LinksIn Every s.cell s₁.cell := by
                rw [cell]
                exact relink_links hd listed
              have relinks := links.relinks h.tree h.nblocks
              have next := idle fits isDir g found
              simp only at stray ⊢
              by_cases none_ : name = []
              · -- a slot that is not in use is taken for the file
                rw [if_pos none_] at next
                obtain ⟨-, -, place, -⟩ := h.tree.file_place h.nblocks hd listed
                have slot := relinks.slot_eq listed.mem
                have next' : IsDir s₁.cell g → nblock s₁.cell g = 0 := by
                  rw [slot.1, slot.2]
                  exact next
                have same' : strayed s₁.cell (rawComponents tail) g =
                    strayed s.cell (rawComponents tail) g := by
                  rw [strayed_empty next, strayed_empty next']
                rw [← same'] at stray ⊢
                exact openFrom_empty looksUp cached place next' shorter stray
              · rw [if_neg none_] at next
                have proper : Proper name := ⟨none_, nuls name List.mem_cons_self⟩
                have nuls' : ∀ n ∈ rawComponents tail, ∀ b ∈ n, b ≠ 0 :=
                  fun n hn => nuls n (List.mem_cons_of_mem name hn)
                have node := childOf_node hd proper found
                have reached := (h.child isDir grows.toGrows found listed proper cell cached).1
                have same' := strayed_congr relinks h.tree h.nblocks nuls' node next
                rw [← same'] at stray ⊢
                exact ih reached shorter nul'
                  ((idle_congr relinks h.tree h.nblocks nuls' node).mpr next) stray
          · have other : maxnamelen < name.length ∨ ¬ IsDir s.cell f := .inr isDir
            rw [if_pos other, if_pos (show s.cell (fType f) ≠ ftypeDir from isDir)]
            exact Runs.pure rfl

end

/-- The file that a look-up with a return code gives. -/
def fileOf (m : FsM (Except Int Nat)) : FsM (Option Nat) := do
  pure (← m).toOption

theorem relativeFrom_eq (n f : Nat) (path : List Nat) :
    relativeFrom n f path = fileOf (openFrom dirLookup1 n f path) := by
  induction n generalizing f path with
  | zero => rfl
  | succ n ih =>
    unfold relativeFrom openFrom fileOf
    by_cases done : path = []
    · rw [if_pos done, if_pos done]
      rfl
    · rw [if_neg done, if_neg done]
      generalize (if path.head? = some slash then path.tail else path) = rest
      simp only
      by_cases beyond : maxnamelen < (rest.takeWhile (· != slash)).length
      · rw [if_pos beyond, if_pos beyond]
        rfl
      · rw [if_neg beyond, if_neg beyond]
        by_cases bound : (rest.takeWhile (· != slash)).length = maxnamelen
        · rw [if_pos bound, if_pos bound]
          rfl
        · rw [if_neg bound, if_neg bound, bind_assoc]
          apply bind_congr_right
          intro type
          by_cases isDir : type = ftypeDir
          · rw [if_neg (not_not.mpr isDir), if_neg (not_not.mpr isDir), bind_assoc]
            apply bind_congr_right
            intro r
            cases r with
            | error e => rfl
            | ok g => exact ih g _
          · rw [if_pos isDir, if_pos isDir]
            rfl

/-- The three look-ups, by the file that they give. -/
def lookups (path : List Nat) : List (FsM (Option Nat)) :=
  [fileOf (fileOpen1 path), fileOf (getFile path), getFileAbsolute path]

/-- The look-up gives the file that `file_open` gives, or none where `file_open` fails. It
stores nothing behind its buffer: only the want of a page stops it. -/
def SameFile (m : FsM (Option Nat)) (path : List Nat) (s : Fs) : Prop :=
  Ends True m s fun r _ => Ends True (fileOpen path) s fun r' _ => r = r'.toOption

section
variable {s : Fs} {path : List Nat} {lookup : Nat → List Nat → FsM (Except Int Nat)}

theorem mem_lookups {m : FsM (Option Nat)} (hm : m ∈ lookups path) :
    ∃ lookup, LooksUp lookup ∧ m = fileOf (openFrom lookup path.length sRoot path) := by
  unfold lookups at hm
  rw [List.mem_cons, List.mem_cons, List.mem_singleton] at hm
  cases hm with
  | inl first => exact ⟨dirLookup1, dirLookup1_looksUp, first⟩
  | inr rest =>
    cases rest with
    | inl second => exact ⟨getFileDir, getFileDir_looksUp, second⟩
    | inr third =>
      refine ⟨dirLookup1, dirLookup1_looksUp, third.trans ?_⟩
      exact relativeFrom_eq path.length sRoot path

/-- What `file_open` finds. -/
theorem fileOpen_located (h : Inited s) (tree : Tree s.cell) (nul : ∀ b ∈ path, b ≠ 0) :
    Ends True (fileOpen path) s fun r _ => r.toOption = located s.cell (components path) sRoot := by
  apply Runs.mono (fileOpen_ends (reached_root h tree) nul (Needs.of_all Every.intro _ _ _)
    (Needs.of_all (Has.any s) _ _ _))
  rintro r s' _ ⟨rfl, -⟩
  apply Option.ext
  intro f
  rw [located_iff, ← opened_walked]
  generalize opened (walked s.cell (components path) none sRoot) = r
  cases r with
  | error e => simp [Except.toOption]
  | ok g => simp [Except.toOption]

theorem coincide_same (looksUp : LooksUp lookup) (h : Inited s) (tree : Tree s.cell)
    (nul : ∀ b ∈ path, b ≠ 0) (coincide : Coincide s.cell (rawComponents path) sRoot) :
    SameFile (fileOf (openFrom lookup path.length sRoot path)) path s := by
  have same := (coincide_iff tree h.nblocks (raw_nul nul) .root coincide.idle).mp coincide
  have runs :=
    openFrom_ends (A := False) looksUp (reached_root h tree) (Nat.le_refl _) nul coincide.idle
    (fun none_ => by rw [same] at none_; cases none_)
  have ends : Ends True (openFrom lookup path.length sRoot path) s fun r _ =>
      strayed s.cell (rawComponents path) sRoot = some r.toOption :=
    runs.weaken (fun _ rel => rel) fun _ stops => stops.elim
      (fun halt => ⟨trivial, halt⟩) fun wild => wild.2.elim
  apply Runs.bind ends
  intro r _ _ result
  apply Runs.pure
  apply Runs.mono (fileOpen_located h tree nul)
  intro r' _ _ result'
  rw [same, ← components_raw] at result
  rw [result']
  exact (Option.some.inj result).symm

/-- The words all in the cache, with pages to spare. -/
def inCache (c : Nat → Nat) : Fs where
  word := c
  mapped := fun _ => true
  pteD := fun _ => false
  disk := fun _ => 0
  memory := fun _ => true
  asked := 0

theorem same_coincide {c : Nat → Nat} (looksUp : LooksUp lookup)
    (h : Inited (inCache c)) (tree : Tree c) (vacated : Vacated c) (nul : ∀ b ∈ path, b ≠ 0)
    (same : SameFile (fileOf (openFrom lookup path.length sRoot path)) path (inCache c)) :
    Coincide c (rawComponents path) sRoot := by
  have idle := vacated.idle (raw_nul nul) .root
  have supplied : (inCache c).Supplied := fun _ _ => .inl rfl
  have runs :=
    @openFrom_ends (inCache c) sRoot path.length path (strayed c (rawComponents path) sRoot = none)
    lookup looksUp (reached_root h tree) (Nat.le_refl _) nul idle id
  rw [coincide_iff tree h.nblocks (raw_nul nul) .root idle, ← components_raw]
  unfold SameFile Ends Runs fileOf at same
  unfold Runs at runs
  cases out : openFrom lookup path.length sRoot path (inCache c) with
  | error e =>
    have stop : (do pure (← openFrom lookup path.length sRoot path).toOption)
        (inCache c) = .error e := by
      show (openFrom lookup path.length sRoot path (inCache c) >>= _) = _
      rw [out]
      rfl
    rw [stop] at same
    exact absurd supplied same.2.2
  | ok p =>
    rw [out] at runs
    rw [bind_ok out] at same
    obtain ⟨r', s', opens, -, located_⟩ :=
      (fileOpen_located h tree nul).total fun _ stops => stops.2.2 supplied
    have both := same.2
    rw [opens] at both
    have found : strayed c (rawComponents path) sRoot = some p.1.toOption := runs.2
    rw [found, both.2, located_]
    rfl

end

/-- Exactly where the rewritten look-ups do what `file_open` does: if the names that they meet
coincide with the components in every respect that the condition names, they do, in every state
with the tree; if not, in some state they do not, where slots that are not in use hold no blocks. -/
theorem lookups_same_iff (c : Nat → Nat) (path : List Nat) (m : FsM (Option Nat))
    (hm : m ∈ lookups path) (disk : c sNblocks ≤ 2 ^ 18) (tree : Tree c) (nul : ∀ b ∈ path, b ≠ 0) :
    (Coincide c (rawComponents path) sRoot → ∀ s, Inited s → s.cell = c → SameFile m path s) ∧
      (Vacated c → (∀ s, Inited s → s.cell = c → SameFile m path s) →
        Coincide c (rawComponents path) sRoot) := by
  obtain ⟨lookup, looksUp, rfl⟩ := mem_lookups hm
  constructor
  · rintro coincide s inited rfl
    exact coincide_same looksUp inited tree nul coincide
  · intro vacated same
    have inited : Inited (inCache c) := ⟨disk, rfl, fun _ _ => rfl⟩
    exact same_coincide looksUp inited tree vacated nul (same (inCache c) inited rfl)

theorem lookups_same_a : SameFile (getFileAbsolute [47, 97]) [47, 97] twoDirs := by
  have last : getFileAbsolute [47, 97] ∈ lookups [47, 97] :=
    List.mem_cons_of_mem _ (List.mem_cons_of_mem _ List.mem_cons_self)
  have same :=
    (lookups_same_iff twoDirs.cell [47, 97] _ last (by decide) twoDirs_tree (by decide)).1
  exact same ⟨by decide, fun _ _ _ _ => trivial⟩ twoDirs twoDirs_inited rfl

/-- A name of 128 bytes is stored with its `NUL` behind the buffer. -/
theorem lookups_overrun {name : List Nat} (bound : name.length = maxnamelen)
    (plain : slash ∉ name) (s : Fs) :
    ∀ m ∈ lookups (slash :: name), m s = .error .undefined := by
  intro m hm
  obtain ⟨lookup, -, rfl⟩ := mem_lookups hm
  have whole : name.takeWhile (· != slash) = name := by
    have inside : ∀ b ∈ name, (b != slash) = true :=
      fun b hb => bne_iff_ne.mpr fun same => plain (same ▸ hb)
    have split : (name ++ []).takeWhile (· != slash) = name ++ [].takeWhile (· != slash) :=
      List.takeWhile_append_of_pos inside
    rwa [List.append_nil, List.takeWhile_nil, List.append_nil] at split
  have stops : openFrom lookup (slash :: name).length sRoot (slash :: name) = stop .undefined := by
    rw [List.length_cons, openFrom, if_neg (List.cons_ne_nil _ _), List.head?_cons,
      if_pos rfl, List.tail_cons]
    simp only
    rw [whole, if_neg (by omega), if_pos bound]
  unfold fileOf
  rw [stops]
  rfl

/-- `file_open` finds the directory `a` under `/a/`; the others do not. -/
theorem lookups_differ :
    (∀ m ∈ lookups [47, 97, 47], ¬ SameFile m [47, 97, 47] twoDirs) ∧
      ∀ m ∈ lookups (47 :: List.replicate 128 97), m twoDirs = .error .undefined := by
  have opens : ∃ s', fileOpen [47, 97, 47] twoDirs = .ok (.ok 3072, s') := ⟨_, rfl⟩
  obtain ⟨s', opens⟩ := opens
  have differ (m : FsM (Option Nat)) (fails : ∃ t, m twoDirs = .ok (none, t)) :
      ¬ SameFile m [47, 97, 47] twoDirs := by
    intro same
    obtain ⟨t, fails⟩ := fails
    have both := ((same.result fails).2.result opens).2
    cases both
  constructor
  · intro m hm
    apply differ
    rcases List.mem_cons.mp hm with rfl | hm
    · exact ⟨_, rfl⟩
    · rcases List.mem_cons.mp hm with rfl | hm
      · exact ⟨_, rfl⟩
      · rw [List.mem_singleton.mp hm]
        exact ⟨_, rfl⟩
  · exact lookups_overrun List.length_replicate (by simp [slash]) twoDirs

end FsM

end RiscvMos
