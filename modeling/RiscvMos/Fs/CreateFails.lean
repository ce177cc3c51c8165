import RiscvMos.Fs.Grow

/-!
What `file_create` leaves behind where it fails. `dir_alloc_file` adds to `f_size` of
the directory before it has the block, and `file_create` returns the code of the
look-up in its place. A directory that was left so has a hole, and the next look-up in
it allocates a block there.
-/

namespace RiscvMos

namespace Fs

/-- `block_is_free` of the blocks that `read_bitmap` checks. -/
def Reserved (c : Nat → Nat) : Prop := ∀ b, b < 2 ∨ BitmapBlock c b → isFree c b = false

def IsBlock (b : Nat) : Prop := b ≠ 0

/-- A directory tree that may have holes: where a directory has a block, it is a block of the disk
in use, and holds nothing but files. -/
abbrev Sound : (Nat → Nat) → Prop := TreeIn IsBlock

/-- The look-ups of a path read no hole. -/
def Unholed (c : Nat → Nat) (names : List (List Nat)) : Prop := FsM.Needs IsBlock c names sRoot

theorem TreeIn.sound {c : Nat → Nat} (tree : Tree c) : Sound c := tree.weaken fun b _ => .intro b

/-- In a tree without holes no path has any. -/
theorem TreeIn.unholed {c : Nat → Nat} {names : List (List Nat)} (tree : Tree c)
    (proper : ∀ n ∈ names, Proper n) : Unholed c names := by
  refine FsM.Needs.of_tree ?_ ?_ proper (FsM.Needs.of_all Every.intro _ _ _) .root
  · rintro _ ⟨d, i, hd, hi, rfl, -⟩
    exact (tree.whole d hd i hi trivial).1
  · intro d i hd hi high _ zero
    refine (tree.whole d hd i hi trivial).1 (if_neg fun has => ?_)
    exact (has.resolve_left (Nat.not_lt_of_le high)).2 zero

/-- A component that does not fit is met. -/
def TooLong (c : Nat → Nat) : List (List Nat) → Nat → Prop
  | [], _ => False
  | name :: names, f =>
    maxnamelen ≤ name.length ∨ IsDir c f ∧ ∃ g, childOf c f name = some g ∧ TooLong c names g

/-- The code for each way to fail. -/
structure RightCode (c : Nat → Nat) (names : List (List Nat)) (r : Int) : Prop where
  exists_ : ∀ f, Short names → resolve c names sRoot = some f → r = -eFileExists
  tooLong : TooLong c names sRoot → r = -eBadPath
  noRoom : ∀ d name, LastMissing c names d name → r = -eNoDisk ∨ r = -eNoMem ∨ r = -eInval
  missing : (∀ f, ¬ (Short names ∧ resolve c names sRoot = some f)) → ¬ TooLong c names sRoot →
    (∀ d name, ¬ LastMissing c names d name) → r = -eNotFound

/-- A failure that leaves everything but `f_dir` of files that were found, and says why. -/
def FailsClean (path : List Nat) (s : Fs) : Prop :=
  ∀ r s', FsM.fileCreate path s = .ok (.error r, s') →
    RelinksIn IsBlock s.cell s'.cell ∧ RightCode s.cell (components path) r

section
variable {c : Nat → Nat} {names : List (List Nat)} {dir : Option Nat} {f d : Nat}

theorem walked_tooLong : (walked c names dir f).code = -eBadPath ↔ TooLong c names f := by
  induction names generalizing dir f with
  | nil => exact ⟨(fun h => nomatch h), False.elim⟩
  | cons name names ih =>
    unfold walked TooLong
    by_cases long : maxnamelen ≤ name.length
    · rw [if_pos long]
      exact ⟨fun _ => .inl long, fun _ => rfl⟩
    · rw [if_neg long]
      by_cases isDir : IsDir c f
      · rw [if_neg (not_not.mpr isDir)]
        cases found : childOf c f name with
        | some g =>
          simp only [ih]
          constructor
          · exact fun rest => .inr ⟨isDir, g, rfl, rest⟩
          · intro rest
            obtain ⟨-, g', same, rest⟩ := rest.resolve_left long
            rw [Option.some.inj same]
            exact rest
        | none =>
          have other :
              ¬ (maxnamelen ≤ name.length ∨ IsDir c f ∧
                ∃ g, none = some g ∧ TooLong c names g) := by
            rintro (h | ⟨-, g, h, -⟩)
            · exact long h
            · cases h
          constructor
          · intro code
            by_cases last : names = []
            · simp only [last, if_true] at code
              cases code
            · simp only [last, if_false] at code
              cases code
          · exact fun rest => absurd rest other
      · rw [if_pos isDir]
        constructor
        · intro code
          cases code
        · rintro (h | ⟨h, -⟩)
          · exact absurd h long
          · exact absurd h isDir

/-- A walk that finds nothing has the right code. -/
theorem walked_rightCode (nonzero : (walked c names none sRoot).code ≠ 0)
    (h : (walked c names none sRoot).dir = none ∨ (walked c names none sRoot).code ≠ -eNotFound) :
    RightCode c names (walked c names none sRoot).code := by
  have resolves := walked_resolves c names
  have missing (d : Nat) (name : List Nat) : ¬ LastMissing c names d name := by
    intro last
    rw [resolves.missing d name last] at h
    cases h with
    | inl none_ => cases none_
    | inr other => exact other rfl
  have all (g : Nat) : ¬ (Short names ∧ resolve c names sRoot = some g) :=
    fun found => nonzero (resolves.zero.mpr ⟨found.1, g, found.2⟩)
  constructor
  · exact fun g short found => absurd ⟨short, found⟩ (all g)
  · exact walked_tooLong.mpr
  · exact fun d name last => absurd last (missing d name)
  · intro _ fits _
    exact (resolves.failing nonzero missing).1.resolve_right fun bad => fits (walked_tooLong.mp bad)

theorem walked_dir (nonzero : (walked c names none sRoot).code ≠ 0)
    (h : (walked c names none sRoot).dir = some d) :
    ∃ name, LastMissing c names d name := by
  have resolves := walked_resolves c names
  by_contra none_
  have missing (d' : Nat) (name : List Nat) : ¬ LastMissing c names d' name := by
    intro last
    rw [resolves.missing d' name last] at h
    rw [Option.some.inj h] at last
    exact none_ ⟨name, last⟩
  rw [(resolves.failing nonzero missing).2.1] at h
  cases h

theorem found_rightCode {g : Nat} (short : Short names) (found : resolve c names sRoot = some g) :
    RightCode c names (-eFileExists) := by
  have walk : walked c names none sRoot = _ := walked_found short found
  constructor
  · exact fun _ _ _ => rfl
  · intro long
    have code : (walked c names none sRoot).code = -eBadPath := walked_tooLong.mpr long
    rw [walk] at code
    cases code
  · intro d name last
    have missing := (walked_resolves c names).missing d name last
    rw [walk] at missing
    cases missing
  · exact fun none_ => absurd ⟨short, found⟩ (none_ g)

end

end Fs

namespace FsM

open Fs

section
variable {B : Nat → Prop} {s s' : Fs} {d : Nat} {name path : List Nat} {names : List (List Nat)}
    {w : Walk}

/-- Behind a walk that lacks the last name, the directory and its blocks are in the cache. -/
theorem WalkedIn.ready (walk : WalkedIn B s names sRoot w s') (h : ReachedIn B s sRoot)
    (grows : Grows s s') (proper : ∀ n ∈ names, Proper n) (there : Needs B s.cell names sRoot)
    (missing : LastMissing s.cell names d name) : Ready B s' d := by
  have relinks := (walk.links h proper there).relinks h.tree h.nblocks
  have inited : Inited s' := h.toInited.grows grows (relinks.nblocks h.tree)
  have hd := missing.node proper there
  obtain ⟨place, scans⟩ := walk.read.last missing.short missing.last missing.dir missing.isDir
  have loaded := scans.all fun j _ high => missing_block missing.missing (by omega)
  have blocks (i : Nat) (hi : i < nblock s'.cell d) : i < nblock s.cell d ∧
      pointer s'.cell d i = pointer s.cell d i := by
    rw [relinks.nblock_eq h.tree h.nblocks hd.1] at hi
    exact ⟨hi, relinks.pointer_eq h.tree h.nblocks hd hi⟩
  have searchable : SearchableIn B s' d := by
    refine ⟨inited, relinks.tree_kept h.tree h.nblocks,
      (relinks.dir_iff h.tree h.nblocks).mpr hd, ?_⟩
    cases place with
    | inl root =>
      rw [root]
      exact inited.super
    | inr met =>
      obtain ⟨_, cached⟩ := met
      exact cached
  refine ⟨searchable, fun i hi => ?_, fun i hi => ?_⟩
  · obtain ⟨hi, same⟩ := blocks i hi
    rw [same]
    exact (missing.reads there hi).1
  · have indirect : s'.cell (fIndirect d) = s.cell (fIndirect d) :=
      relinks.field h.tree h.nblocks hd.1 (by decide)
    obtain ⟨hi, same⟩ := blocks i hi
    rw [same, indirect]
    exact loaded i (Nat.zero_le i) (by omega)

/-- A failure that is not one of `dir_alloc_file` comes from the walk. -/
theorem createBehind_fails {r : Int}
    (room : w.code ≠ 0 → ∀ d, w.dir = some d → ∀ r s', dirAllocFile d s ≠ .ok (.error r, s'))
    (out : createBehind w s = .ok (.error r, s')) :
    s' = s ∧ (w.code = 0 ∧ r = -eFileExists ∨ w.code ≠ 0 ∧ r = w.code ∧
      (w.dir = none ∨ w.code ≠ -eNotFound)) := by
  unfold createBehind at out
  by_cases zero : w.code = 0
  · rw [if_pos zero] at out
    cases out
    exact ⟨rfl, .inl ⟨zero, rfl⟩⟩
  · rw [if_neg zero] at out
    cases dir : w.dir with
    | none =>
      rw [dir] at out
      cases out
      exact ⟨rfl, .inr ⟨zero, rfl, .inl rfl⟩⟩
    | some d =>
      rw [dir] at out
      simp only at out
      by_cases other : w.code = -eNotFound
      · rw [if_neg (not_not.mpr other)] at out
        obtain ⟨got, s₁, alloc, rest⟩ := StateT.bind_ok_iff.mp out
        cases got with
        | error r' => exact absurd alloc (room zero d dir r' s₁)
        | ok f =>
          cases last : w.lastelem with
          | none =>
            simp only [last] at rest
            cases rest
          | some name =>
            simp only [last] at rest
            obtain ⟨_, s₂, -, done⟩ := StateT.bind_ok_iff.mp rest
            cases done
      · rw [if_pos other] at out
        cases out
        exact ⟨rfl, .inr ⟨zero, rfl, .inr other⟩⟩

/-- Where only the file is missing, its directory has room for it, or there are `pages` and the
blocks that it takes to make some. -/
def Room (pages : Prop) (c : Nat → Nat) (names : List (List Nat)) : Prop :=
  ∀ d name, LastMissing c names d name →
    Roomy (linked names c sRoot) d ∨ pages ∧ Enough c d (nblock c d)

/-- Links leave the blocks that are to be had. -/
theorem enough_linked {c : Nat → Nat} (sound : TreeIn B c) (disk : c sNblocks ≤ 2 ^ 18)
    (nul : ∀ b ∈ path, b ≠ 0) (there : Needs B c (components path) sRoot)
    (last : LastMissing c (components path) d name) :
    Enough (linked (components path) c sRoot) d
      (nblock (linked (components path) c sRoot) d) ↔ Enough c d (nblock c d) := by
  have proper := components_proper path nul
  have relinks := (linked_links sound disk proper there .root).relinks sound disk
  have hd := (last.node proper there).1
  have takes (b : Nat) : Takes (linked (components path) c sRoot) b ↔ Takes c b := by
    unfold Takes
    rw [relinks.nblocks sound]
    exact and_congr_right fun _ => and_congr_right fun hb => by rw [relinks.free sound hb]
  have indirect : linked (components path) c sRoot (fIndirect d) = c (fIndirect d) :=
    relinks.field sound disk hd (by decide)
  unfold Enough
  rw [relinks.nblock_eq sound disk hd, indirect]
  simp only [takes]

section
variable (h : Inited s) (sound : TreeIn B s.cell) (nul : ∀ b ∈ path, b ≠ 0)
  (there : Needs B s.cell (components path) sRoot)

include h sound nul there in
/-- A failed create is a failed look-up, unless a block could not be added. -/
theorem fileCreate_clean
    (enough : ∀ d name s₁, LastMissing s.cell (components path) d name → Ready B s₁ d →
      s₁.cell = linked (components path) s.cell sRoot → s₁.memory = s.memory →
      ∀ r s', dirAllocFile d s₁ ≠ .ok (.error r, s'))
    {r : Int} (out : fileCreate path s = .ok (.error r, s')) :
    RelinksIn B s.cell s'.cell ∧ RightCode s.cell (components path) r := by
  have reached := reached_root h sound
  have proper := components_proper path nul
  obtain ⟨w, s₁, walk, behind⟩ := StateT.bind_ok_iff.mp out
  have ends := walkPath_ends reached nul there (Needs.of_all (Has.any s) _ _ _)
  obtain ⟨grows, rfl, walk⟩ := ends.result walk
  have relinks := (walk.links reached proper there).relinks sound h.nblocks
  have added (nonzero : (walked s.cell (components path) none sRoot).code ≠ 0) (d : Nat)
      (dir : (walked s.cell (components path) none sRoot).dir = some d) :
      ∀ r s', dirAllocFile d s₁ ≠ .ok (.error r, s') := by
    obtain ⟨name, last⟩ := walked_dir nonzero dir
    exact enough d name s₁ last (walk.ready reached grows.toGrows proper there last) walk.cell
      grows.memory
  obtain ⟨rfl, zero | ⟨nonzero, rfl, dir⟩⟩ := createBehind_fails added behind
  · obtain ⟨zero, rfl⟩ := zero
    obtain ⟨short, g, found⟩ := (walked_resolves s.cell (components path)).zero.mp zero
    exact ⟨relinks, found_rightCode short found⟩
  · exact ⟨relinks, walked_rightCode nonzero dir⟩

end

section
variable (h : Inited s) (sound : Sound s.cell) (nul : ∀ b ∈ path, b ≠ 0)
  (unholed : Unholed s.cell (components path))

include h sound nul unholed in
theorem fileCreate_room {pages : Prop} (memory : pages → ∀ n, s.memory n = true)
    (room : Room pages s.cell (components path)) : FailsClean path s := by
  intro r s' out
  apply fileCreate_clean h sound nul unholed _ out
  intro d name s₁ last ready cell same
  cases room d name last with
  | inl roomy =>
    rw [← cell] at roomy
    exact dirAllocFile_room ready roomy
  | inr more =>
    have enough := (enough_linked sound h.nblocks nul unholed last).mpr more.2
    rw [← cell] at enough
    apply dirAllocFile_ample ready _ enough
    rw [same]
    exact memory more.1

end

end

/-- The words with the blocks in use in the cache, and pages for others or none. -/
def bare (c : Nat → Nat) (pages : Bool) : Fs where
  word := c
  mapped := fun b => !isFree c b
  pteD := fun _ => false
  disk := c
  memory := fun _ => pages
  asked := 0

section
variable {c : Nat → Nat} {path : List Nat} {d : Nat} {name : List Nat} {pages : Bool}

theorem bare_cell (c : Nat → Nat) (pages : Bool) : (bare c pages).cell = c := by
  funext w
  unfold cell bare
  exact ite_self (c w)

theorem bare_mapped {b : Nat} (used : isFree c b = false) : (bare c pages).mapped b = true := by
  show (!isFree c b) = true
  rw [used]
  rfl

theorem bare_inited (disk : c sNblocks ≤ 2 ^ 18) (reserved : Reserved c) :
    Inited (bare c pages) := by
  constructor
  · rw [bare_cell]
    exact disk
  · exact bare_mapped (reserved 1 (.inl (by decide)))
  · intro b hb
    rw [bare_cell] at hb
    exact bare_mapped (reserved b (.inr hb))

/-- A directory without room, and no block to be had: the code is that of the look-up. -/
theorem fileCreate_short (disk : c sNblocks ≤ 2 ^ 18) (reserved : Reserved c) (sound : Sound c)
    (nul : ∀ b ∈ path, b ≠ 0) (unholed : Unholed c (components path))
    (last : LastMissing c (components path) d name)
    (full : ¬ (Roomy (linked (components path) c sRoot) d ∨
      pages = true ∧ Enough c d (nblock c d))) :
    ∃ s', fileCreate path (bare c pages) = .ok (.error (-eNotFound), s') := by
  rw [not_or] at full
  have inited : Inited (bare c pages) := bare_inited disk reserved
  have proper := components_proper path nul
  have reached : ReachedIn IsBlock (bare c pages) sRoot :=
    reached_root inited (by rw [bare_cell]; exact sound)
  have there : Needs IsBlock (bare c pages).cell (components path) sRoot := by
    rw [bare_cell]
    exact unholed
  have needs : Needs (Has False (bare c pages)) (bare c pages).cell (components path) sRoot := by
    rw [bare_cell]
    refine Needs.of_tree ?_ ?_ proper unholed .root
    · rintro _ ⟨d', i, hd', hi, rfl, hb⟩
      exact .inr (bare_mapped (sound.whole d' hd' i hi hb).2.2)
    · intro d' i hd' hi high hb
      have indirect : c (fIndirect d') ≠ 0 := by
        intro zero
        refine hb (if_neg fun has => ?_)
        exact (has.resolve_left (Nat.not_lt_of_le high)).2 zero
      exact .inr (bare_mapped (sound.indirect d' hd' (by omega) indirect).2)
  -- every block that the walk reads is in use, and so in the cache
  have ends := walkPath_ends reached nul there needs
  obtain ⟨w, s₁, run, serves, rfl, walk⟩ := ends.total fun _ stops => stops.1
  have relinks := (walk.links reached proper there).relinks reached.tree inited.nblocks
  have ready :=
    walk.ready reached serves.toGrows proper there (by rw [bare_cell]; exact last)
  have cell := walk.cell
  rw [bare_cell] at run relinks cell
  have fails : ∃ r s', dirAllocFile d s₁ = .ok (.error r, s') := by
    apply dirAllocFile_short ready
    · rw [cell]
      exact full.1
    · intro b hb
      rw [relinks.nblocks sound] at hb
      rw [serves.still id, relinks.free sound hb]
      rfl
    · cases pages with
      | false =>
        refine .inl fun n => ?_
        rw [serves.memory]
        rfl
      | true =>
        refine .inr fun enough => full.2 ⟨rfl, ?_⟩
        rw [cell] at enough
        exact (enough_linked sound disk nul unholed last).mp enough
  obtain ⟨r, s', fails⟩ := fails
  refine ⟨s', ?_⟩
  unfold fileCreate
  rw [bind_ok run, (walked_resolves c (components path)).missing d name last]
  rw [createBehind_missing, bind_ok fails]
  rfl

end

/-- Where the look-ups of the path read no hole and the directory has room for the entry, a failed
`file_create` changes nothing and has the right code, in every state of the cache and of the memory;
in the states in which pages can be had, also where there are the free blocks that a new block
takes. Where no hole is read, only then. -/
theorem fileCreate_clean_iff (c : Nat → Nat) (path : List Nat) (disk : c sNblocks ≤ 2 ^ 18)
    (sound : Sound c) (reserved : Reserved c) (nul : ∀ b ∈ path, b ≠ 0) :
    (Unholed c (components path) ∧ Room False c (components path) →
      ∀ s, Inited s → s.cell = c → FailsClean path s) ∧
      (Unholed c (components path) ∧ Room True c (components path) →
        ∀ s, Inited s → s.cell = c → (∀ n, s.memory n = true) → FailsClean path s) ∧
      (Unholed c (components path) →
        ((∀ s, Inited s → s.cell = c → FailsClean path s) → Room False c (components path)) ∧
        ((∀ s, Inited s → s.cell = c → (∀ n, s.memory n = true) → FailsClean path s) →
          Room True c (components path))) := by
  have short (unholed : Unholed c (components path)) (pages : Bool)
      (clean : FailsClean path (bare c pages)) : Room (pages = true) c (components path) := by
    intro d name last
    by_contra none_
    obtain ⟨s', out⟩ := fileCreate_short disk reserved sound nul unholed last none_
    have code := (clean _ _ out).2
    have wrong := code.noRoom d name (by rw [bare_cell]; exact last)
    exact absurd wrong (by decide)
  have starts (pages : Bool) : Inited (bare c pages) := bare_inited disk reserved
  refine ⟨?_, ?_, fun unholed => ⟨fun clean => ?_, fun clean => ?_⟩⟩
  · rintro ⟨unholed, room⟩ s inited rfl
    exact fileCreate_room inited sound nul unholed False.elim room
  · rintro ⟨unholed, room⟩ s inited rfl memory
    exact fileCreate_room inited sound nul unholed (fun _ => memory) room
  · have room := short unholed false (clean _ (starts false) (bare_cell c false))
    rwa [Bool.false_eq_true] at room
  · have room := short unholed true (clean _ (starts true) (bare_cell c true) fun _ => rfl)
    rwa [eq_self] at room

theorem twoDirs_reserved : Reserved twoDirs.cell := by
  have bit (b : Nat) (hb : b < 8) : isFree twoDirs.cell b = false := by
    have all : ∀ b < 8, isFree twoDirs.cell b = false := by decide
    exact all b hb
  intro b hb
  apply bit
  cases hb with
  | inl low => omega
  | inr bitmap =>
    have above : b < 3 := bitmap.2
    omega

/-- The directory for `/x/y` is missing. -/
theorem fileCreate_clean_twoDirs :
    FailsClean [47, 120, 47, 121] twoDirs ∧
      fileCreate [47, 120, 47, 121] twoDirs = .ok (.error (-eNotFound), twoDirs) := by
  have unholed := twoDirs_tree.unholed (components_proper [47, 120, 47, 121] (by decide))
  have clean := (fileCreate_clean_iff twoDirs.cell [47, 120, 47, 121] (by decide)
    twoDirs_tree.sound twoDirs_reserved (by decide)).1
  have none_ : resolve twoDirs.cell (components [47, 120, 47, 121]).dropLast sRoot = none := by
    decide
  refine ⟨clean ⟨unholed, fun d name last => ?_⟩ twoDirs twoDirs_inited rfl, rfl⟩
  cases none_.symm.trans last.dir

/-- A disk of eight blocks, with block 4 free and a root whose second block is a hole. -/
def rootHole : Fs where
  word := fun w =>
    if w = sNblocks then 8 else if w = sRoot then 47 else if w = fSize sRoot then 8192
    else if w = fType sRoot then 1 else if w = fDirect sRoot 0 then 3
    else if w = 2048 then 16 else 0
  mapped := fun _ => true
  pteD := fun _ => false
  disk := fun _ => 0
  memory := fun _ => true
  asked := 0

/-- There is no block for `/a/b`, and `f_size` of the empty `a` is 4096 from then on. Where the
root has a hole, the look-up of `x` puts a block there before `/x/y` fails. -/
theorem fileCreate_not_clean :
    (∃ s', fileCreate [47, 97, 47, 98] twoDirs = .ok (.error (-eNotFound), s') ∧
      twoDirs.cell (fSize 3072) = 0 ∧ s'.cell (fSize 3072) = 4096 ∧
      ¬ FailsClean [47, 97, 47, 98] twoDirs) ∧
    ∃ s', fileCreate [47, 120, 47, 121] rootHole = .ok (.error (-eNotFound), s') ∧
      rootHole.cell (fDirect sRoot 1) = 0 ∧ s'.cell (fDirect sRoot 1) = 4 ∧
      ¬ FailsClean [47, 120, 47, 121] rootHole := by
  constructor
  · obtain ⟨s', out, grew⟩ : ∃ s', fileCreate [47, 97, 47, 98] twoDirs =
      .ok (.error (-eNotFound), s') ∧
        s'.cell (fSize 3072) = 4096 := ⟨_, rfl, rfl⟩
    refine ⟨s', out, rfl, grew, fun clean => ?_⟩
    have same := (clean _ _ out).1 (fSize 3072) fun _ => by decide
    rw [grew] at same
    exact absurd same (by decide)
  · obtain ⟨s', out, filled⟩ : ∃ s', fileCreate [47, 120, 47, 121] rootHole =
      .ok (.error (-eNotFound), s') ∧
        s'.cell (fDirect sRoot 1) = 4 := ⟨_, rfl, rfl⟩
    refine ⟨s', out, rfl, filled, fun clean => ?_⟩
    have same := (clean _ _ out).1 (fDirect sRoot 1) fun _ => by decide
    rw [filled] at same
    exact absurd same (by decide)

end FsM

end RiscvMos
