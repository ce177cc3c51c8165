import RiscvMos.User.Files

/-!
`open` and `ftruncate` of `user/lib/file.c`, `dup` of `fd.c` and `pipe` of
`pipe.c` where a system call or the file server refuses something. Descriptors
are the numbers that a program passes, of any of the three devices, and their
pages are in one address space, by page number: the data of a long file reach
into those of the next descriptor.
-/

namespace RiscvMos

inductive FdDev where
  | file
  | cons
  | pipe
  deriving DecidableEq, Repr

def devconsId : Nat := 99
def devpipeId : Nat := 112

/-- `dev_lookup`. -/
def devLookup (id : Nat) : Option FdDev :=
  if id = devfileId then some .file
  else if id = devconsId then some .cons
  else if id = devpipeId then some .pipe
  else none

/-- An answer of the file server, with its page. -/
structure PageReply where
  code : Int
  page : Nat

/-- What the system calls of `pipe` get: the pages of `syscall_mem_alloc`, and
whether there is memory for `syscall_mem_map`. -/
structure PipeCalls where
  fd0 : Option Nat
  fd1 : Option Nat
  data : Option Nat
  map : Bool

/-- The address space of an env. -/
structure FdSpace where
  pt : Int → Option Nat
  /-- A page, read as a `struct Filefd`. -/
  ff : Nat → Filefd

namespace FdSpace

/-- The page at `INDEX2FD`. -/
def fdPage (i : Int) : Int := 0x5fe00 + i

/-- The first page at `INDEX2DATA`. -/
def dataPage (i : Int) : Int := 0x60000 + 512 * i

def setPage (s : FdSpace) (v : Int) (o : Option Nat) : FdSpace :=
  { s with pt := Function.update s.pt v o }

def setFf (s : FdSpace) (q : Nat) (ff : Filefd) : FdSpace :=
  { s with ff := Function.update s.ff q ff }

/-- A page of zeros. -/
def alloc (s : FdSpace) (v : Int) (p : Nat) : FdSpace := (s.setPage v (some p)).setFf p Filefd.zero

/-- `fd_lookup`. -/
def fdLookup (s : FdSpace) (i : Int) : Option Nat := if 32 ≤ i then none else s.pt (fdPage i)

/-- `fd_alloc`. -/
def fdAlloc (s : FdSpace) : Option FdIdx :=
  (List.finRange 32).find? fun i => i.val < 31 && (s.pt (fdPage i.val)).isNone

/-- A loop with `syscall_mem_unmap`. -/
def unmapFrom : Nat → Int → FdSpace → FdSpace
  | 0, _, s => s
  | n + 1, v, s => unmapFrom n (v + 1) (s.setPage v none)

/-- A loop with `fsipc_map`. -/
def mapFrom (base : Int) (maps : Nat → PageReply) : Nat → Nat → FdSpace → Int × FdSpace
  | 0, _, s => (0, s)
  | n + 1, k, s =>
    if (maps k).code < 0 then ((maps k).code, s)
    else mapFrom base maps n (k + 1) (s.setPage (base + k) (some (maps k).page))

def openPath (s : FdSpace) (reply : PageReply) (ff : Filefd) (maps : Nat → PageReply) :
    Int × FdSpace :=
  match s.fdAlloc with
  | none => (-eMaxOpen, s)
  | some i =>
    if reply.code < 0 then (reply.code, s)
    else
      match mapFrom (dataPage i.val) maps (numPages ff.size) 0
          ((s.setPage (fdPage i.val) (some reply.page)).setFf reply.page ff) with
      | (r, s) => if r < 0 then (r, s) else (i.val, s)

def ftruncate (s : FdSpace) (i : Int) (size : Nat) (setSize : Int) (maps : Nat → PageReply) :
    Int × FdSpace :=
  if maxfilesize < size then (-eNoDisk, s)
  else
    match s.fdLookup i with
    | none => (-eInval, s)
    | some q =>
      if (s.ff q).devId ≠ devfileId then (-eInval, s)
      else
        let old := numPages (s.ff q).size
        let new := numPages size
        let s := s.setFf q ((s.ff q).setSize size)
        if setSize < 0 then (setSize, s)
        else
          match mapFrom (dataPage i) maps (new - old) old s with
          -- the server gets the old size again
          | (r, s) => if r < 0 then (r, s) else (0, unmapFrom (old - new) (dataPage i + new) s)

def pipe (s : FdSpace) (c : PipeCalls) : Int × FdSpace :=
  match s.fdAlloc with
  | none => (-eMaxOpen, s)
  | some i =>
    match c.fd0 with
    | none => (-eNoMem, s)
    | some p =>
      let s := s.alloc (fdPage i.val) p
      let err1 (s : FdSpace) := s.setPage (fdPage i.val) none
      match s.fdAlloc with
      | none => (-eMaxOpen, err1 s)
      | some j =>
        match c.fd1 with
        | none => (-eNoMem, err1 s)
        | some p' =>
          let s := s.alloc (fdPage j.val) p'
          let err2 (s : FdSpace) := err1 (s.setPage (fdPage j.val) none)
          match c.data with
          | none => (-eNoMem, err2 s)
          | some d =>
            let s := s.alloc (dataPage i.val) d
            if c.map then
              let s := s.setPage (dataPage j.val) (some d)
              let s := s.setFf p { s.ff p with devId := devpipeId, omode := 0 }
              (0, s.setFf p' { s.ff p' with devId := devpipeId, omode := 1 })
            else (-eNoMem, err2 (s.setPage (dataPage i.val) none))

/-- `dev_close`; `reply` is the answer to `fsipc_close`. -/
def devClose (s : FdSpace) (i : Int) (ff : Filefd) (reply : Int) : FdDev → Int × FdSpace
  | .file => if reply < 0 then (reply, s) else (0, unmapFrom (numPages ff.size) (dataPage i) s)
  | .cons => (0, s)
  | .pipe => (0, (s.setPage (fdPage i) none).setPage (dataPage i) none)

def close (s : FdSpace) (i : Int) (reply : Int) : Int × FdSpace :=
  match s.fdLookup i with
  | none => (-eInval, s)
  | some q =>
    match devLookup (s.ff q).devId with
    | none => (-eInval, s)
    | some dev =>
      match s.devClose i (s.ff q) reply dev with
      | (r, s) => (r, s.setPage (fdPage i) none)

/-- The loop of `dup`; `ok` is false where `syscall_mem_map` refuses. -/
def dupFrom (ova nva : Int) (ok : Nat → Bool) : Nat → Nat → FdSpace → Bool × FdSpace
  | 0, _, s => (true, s)
  | n + 1, k, s =>
    match s.pt (ova + k) with
    | none => dupFrom ova nva ok n (k + 1) s
    | some p =>
      if ok k = true then dupFrom ova nva ok n (k + 1) (s.setPage (nva + k) (some p))
      else (false, s)

/-- `err` of `dup`. -/
def dupErr (s : FdSpace) (new : Int) : FdSpace :=
  unmapFrom 512 (dataPage new) (s.setPage (fdPage new) none)

/-- `dup`: an error code, or the number. The language leaves open what happens
where `INDEX2DATA` of a number is no `int`. -/
def dup (s : FdSpace) (old new reply : Int) (ok : Nat → Bool) (okFd : Bool) :
    Option (Except Int Int × FdSpace) :=
  match s.fdLookup old with
  | none => some (.error (-eInval), s)
  | some _ =>
    if old < -1024 ∨ new < -1024 ∨ 1024 ≤ new then none
    else
      match dupFrom (dataPage old) (dataPage new) ok 512 0 (s.close new reply).2 with
      | (false, s) => some (.error (-eNoMem), s.dupErr new)
      | (true, s) =>
        match s.fdLookup old with
        | none => some (.error (-eInval), s.dupErr new)
        | some q =>
          if okFd = true then some (.ok new, s.setPage (fdPage new) (some q))
          else some (.error (-eNoMem), s.dupErr new)

end FdSpace

/-- A call, with what its system calls and requests get. -/
inductive FdCall where
  | openPath (reply : PageReply) (ff : Filefd) (maps : Nat → PageReply)
  | ftruncate (i : Int) (size : Nat) (setSize : Int) (maps : Nat → PageReply)
  | pipe (c : PipeCalls)
  | dup (old new reply : Int) (ok : Nat → Bool) (okFd : Bool)

namespace FdSpace

/-- A negative code is an error. -/
def checked (x : Int × FdSpace) : Except Int Int × FdSpace :=
  (if x.1 < 0 then .error x.1 else .ok x.1, x.2)

def exec (s : FdSpace) : FdCall → Option (Except Int Int × FdSpace)
  | .openPath reply ff maps => some (checked (s.openPath reply ff maps))
  | .ftruncate i size setSize maps => some (checked (s.ftruncate i size setSize maps))
  | .pipe c => some (checked (s.pipe c))
  | .dup old new reply ok okFd => s.dup old new reply ok okFd

/-! ## What a failed call leaves -/

/-- The number of pages that a descriptor can have data on. -/
def span (ff : Filefd) : Nat := if ff.devId = devfileId then max 512 (numPages ff.size) else 512

/-- The pages of descriptor `i`, whose `struct Fd` is the page `q`. -/
def Page (s : FdSpace) (i : Int) (q : Nat) (v : Int) : Prop :=
  v = fdPage i ∨ dataPage i ≤ v ∧ v < dataPage i + span (s.ff q)

/-- Descriptor `i` is valid as before, with the pages and the `f_size` it had. -/
structure Same (s s' : FdSpace) (i : FdIdx) : Prop where
  valid : (s'.fdLookup i.val).isSome = (s.fdLookup i.val).isSome
  pages : ∀ q, s.fdLookup i.val = some q → ∀ v, s.Page i.val q v → s'.pt v = s.pt v
  size : ∀ q, s.fdLookup i.val = some q → (s'.ff q).size = (s.ff q).size

/-- `new` is closed, and was valid. -/
def Closes (s s' : FdSpace) (i : FdIdx) : FdCall → Prop
  | .dup _ new _ _ _ => (i.val : Int) = new ∧ (s.fdLookup new).isSome ∧ s'.fdLookup new = none
  | _ => False

/-- The descriptors share the page of the `struct Fd` and the data pages. -/
structure Shares (s : FdSpace) (old new : Int) : Prop where
  valid : (s.fdLookup new).isSome
  fd : s.fdLookup new = s.fdLookup old
  data : ∀ k < 512, ∀ p, s.pt (dataPage old + (k : Nat)) = some p →
    s.pt (dataPage new + (k : Nat)) = some p

/-- What a success promises. -/
def Delivers (s : FdSpace) : FdCall → Prop
  | .dup old new _ _ _ => s.Shares old new
  | _ => True

/-- The data pages that `dev_close` unmaps, and `pipe_close` the `struct Fd`. -/
def DevUnmaps (i : Int) (ff : Filefd) (reply v : Int) : FdDev → Prop
  | .file => 0 ≤ reply ∧ dataPage i ≤ v ∧ v < dataPage i + numPages ff.size
  | .cons => False
  | .pipe => v = fdPage i ∨ v = dataPage i

/-- The pages that `close` unmaps. -/
def Unmaps (s : FdSpace) (i reply v : Int) : Prop :=
  ∃ q dev, s.fdLookup i = some q ∧ devLookup (s.ff q).devId = some dev ∧
    (v = fdPage i ∨ DevUnmaps i (s.ff q) reply v dev)

/-- A mapping of `dup` is refused, or the old descriptor is closed first. -/
def DupFails (s : FdSpace) (old new reply : Int) (ok : Nat → Bool) (okFd : Bool) : Prop :=
  (∃ k < 512, ok k = false ∧ s.pt (dataPage old + (k : Nat)) ≠ none ∧
      ¬ s.Unmaps new reply (dataPage old + (k : Nat))) ∨
    s.Unmaps new reply (fdPage old) ∨ okFd = false

/-- The pages that are not mapped any more when `dup` fails. -/
def DupLoses (s : FdSpace) (new reply v : Int) : Prop :=
  v = fdPage new ∨ (dataPage new ≤ v ∧ v < dataPage new + 512) ∨ s.Unmaps new reply v

/-- No page of descriptor `i` is of the kind `lost`. -/
def Spares (s : FdSpace) (lost : Int → Prop) (i : FdIdx) : Prop :=
  ∀ q, s.fdLookup i.val = some q → ∀ v, s.Page i.val q v → lost v → s.pt v = none

def FailsClean (s : FdSpace) : FdCall → Prop
  | .openPath reply ff maps =>
    s.fdAlloc ≠ none → 0 ≤ reply.code → ∀ k < numPages ff.size, 0 ≤ (maps k).code
  | .ftruncate i size setSize maps =>
    size ≤ maxfilesize → ∀ q, s.fdLookup i = some q → (s.ff q).devId = devfileId →
      0 ≤ i ∧ (size = (s.ff q).size ∨
        0 ≤ setSize ∧ ∀ k, numPages (s.ff q).size ≤ k → k < numPages size → 0 ≤ (maps k).code)
  | .pipe c =>
    ∀ i, s.fdAlloc = some i → (∃ j : FdIdx, j ≠ i ∧ j.val < 31 ∧ s.pt (fdPage j.val) = none) →
      c.fd0.isSome → c.fd1.isSome → c.data.isSome → c.map = false →
      ∀ j, s.Spares (· = dataPage i.val) j
  | .dup old new reply ok okFd => s.fdLookup old ≠ none → 0 ≤ old ∧ 0 ≤ new ∧ new < 1024 ∧
      (s.DupFails old new reply ok okFd →
        ∀ i : FdIdx, (i.val : Int) ≠ new → s.Spares (s.DupLoses new reply) i) ∧
      (¬ s.DupFails old new reply ok okFd → new < 32)

/-- Descriptor numbers are not negative. -/
def Counts : FdCall → Prop
  | .ftruncate i _ _ _ => 0 ≤ i
  | .dup old new _ _ _ => 0 ≤ old ∧ 0 ≤ new
  | _ => True

/-- `syscall_mem_alloc` gives pages that are mapped nowhere. -/
def Fresh (s : FdSpace) : FdCall → Prop
  | .pipe c => ∀ p, c.fd0 = some p ∨ c.fd1 = some p ∨ c.data = some p → ∀ v, s.pt v ≠ some p
  | _ => True

section
variable {s s' : FdSpace} {i j new reply : Int} {v w : Int} {n k q : Nat}

@[simp] theorem setPage_pt (o : Option Nat) : (s.setPage v o).pt = Function.update s.pt v o := rfl
@[simp] theorem setPage_ff (o : Option Nat) : (s.setPage v o).ff = s.ff := rfl
theorem unmapFrom_ff (n : Nat) (v : Int) (s : FdSpace) : (unmapFrom n v s).ff = s.ff := by
  induction n generalizing v s with
  | zero => rfl
  | succ n ih => exact ih _ _

theorem unmapFrom_pt (n : Nat) (v : Int) (s : FdSpace) (w : Int) :
    (unmapFrom n v s).pt w = if v ≤ w ∧ w < v + n then none else s.pt w := by
  induction n generalizing v s with
  | zero => rw [if_neg (by omega)]; rfl
  | succ n ih =>
    unfold unmapFrom
    rw [ih]
    by_cases first : w = v
    · rw [if_neg (by omega), if_pos (by omega), setPage_pt, first, Function.update_self]
    · rw [setPage_pt, Function.update_of_ne first]
      exact if_congr (by omega) rfl rfl

section
variable {base : Int} {maps : Nat → PageReply}

end

theorem fdLookup_some (h : s.fdLookup i = some q) : i < 32 ∧ s.pt (fdPage i) = some q := by
  unfold fdLookup at h
  by_cases out : 32 ≤ i
  · rw [if_pos out] at h
    cases h
  · rw [if_neg out] at h
    exact ⟨by omega, h⟩

theorem Same.refl (s : FdSpace) (i : FdIdx) : Same s s i :=
  ⟨rfl, fun _ _ _ _ => rfl, fun _ _ => rfl⟩

theorem Fresh.ne {c : PipeCalls} {p : Nat} (fresh : s.Fresh (.pipe c))
    (got : c.fd0 = some p ∨ c.fd1 = some p ∨ c.data = some p) (mapped : ∃ v, s.pt v = some q) :
    q ≠ p := by
  obtain ⟨v, mapped⟩ := mapped
  rintro rfl
  exact fresh q got v mapped

theorem devClose_pt (i reply : Int) (ff : Filefd) (dev : FdDev) (s : FdSpace) (v : Int) :
    (DevUnmaps i ff reply v dev → (s.devClose i ff reply dev).2.pt v = none) ∧
      (¬ DevUnmaps i ff reply v dev → (s.devClose i ff reply dev).2.pt v = s.pt v) := by
  cases dev with
  | file =>
    unfold devClose DevUnmaps
    by_cases refused : reply < 0
    · rw [if_pos refused]
      exact ⟨fun h => absurd h.1 (by omega), fun _ => rfl⟩
    · rw [if_neg refused, unmapFrom_pt]
      exact ⟨fun h => if_pos h.2, fun h => if_neg fun inside => h ⟨by omega, inside⟩⟩
  | cons => exact ⟨False.elim, fun _ => rfl⟩
  | pipe =>
    unfold devClose DevUnmaps
    simp only [setPage_pt, Function.update_apply]
    constructor
    · rintro (own | data)
      · simp [own]
      · simp [data]
    · intro other
      rw [if_neg fun data => other (.inr data), if_neg fun own => other (.inl own)]

theorem close_none {reply : Int}
    (h : ∀ q dev, s.fdLookup i = some q → devLookup (s.ff q).devId ≠ some dev) :
    (s.close i reply).2 = s := by
  unfold close
  cases valid : s.fdLookup i with
  | none => rfl
  | some q =>
    cases dev : devLookup (s.ff q).devId with
    | none => simp only [dev]
    | some dev' => exact absurd dev (h q dev' valid)

theorem close_some {reply : Int} {dev : FdDev} (valid : s.fdLookup i = some q)
    (known : devLookup (s.ff q).devId = some dev) :
    (s.close i reply).2 = (s.devClose i (s.ff q) reply dev).2.setPage (fdPage i) none := by
  simp only [close, valid, known]

/-- `close` unmaps these pages, and no others. -/
theorem close_pt (i reply : Int) (s : FdSpace) (v : Int) :
    (s.Unmaps i reply v → (s.close i reply).2.pt v = none) ∧
      (¬ s.Unmaps i reply v → (s.close i reply).2.pt v = s.pt v) := by
  by_cases h : ∃ q dev, s.fdLookup i = some q ∧ devLookup (s.ff q).devId = some dev
  · obtain ⟨q, dev, valid, known⟩ := h
    obtain ⟨gone, kept⟩ := devClose_pt i reply (s.ff q) dev s v
    rw [close_some valid known, setPage_pt]
    by_cases own : v = fdPage i
    · rw [own, Function.update_self]
      exact ⟨fun _ => rfl, fun other => absurd ⟨q, dev, valid, known, .inl rfl⟩ other⟩
    · rw [Function.update_of_ne own]
      constructor
      · rintro ⟨q', dev', valid', known', h⟩
        cases valid.symm.trans valid'
        cases known.symm.trans known'
        exact gone (h.resolve_left own)
      · exact fun other => kept fun h => other ⟨q, dev, valid, known, .inr h⟩
  · rw [close_none fun q dev valid known => h ⟨q, dev, valid, known⟩]
    exact ⟨fun ⟨q, dev, valid, known, _⟩ => absurd ⟨q, dev, valid, known⟩ h, fun _ => rfl⟩

section
variable {ova nva : Int} {ok : Nat → Bool}

end

section
variable {old reply : Int} {ok : Nat → Bool} {okFd : Bool}

/-- What `err` of `dup` leaves, whatever the loop has mapped. -/
theorem dupErr_pt (outside : ∀ v, v < dataPage new ∨ dataPage new + 512 ≤ v →
    s'.pt v = (s.close new reply).2.pt v)
    (v : Int) : (s.DupLoses new reply v → (s'.dupErr new).pt v = none) ∧
      (¬ s.DupLoses new reply v → (s'.dupErr new).pt v = s.pt v) := by
  obtain ⟨gone, kept⟩ := close_pt new reply s v
  unfold dupErr DupLoses
  rw [unmapFrom_pt, setPage_pt, Nat.cast_ofNat]
  by_cases data : dataPage new ≤ v ∧ v < dataPage new + 512
  · rw [if_pos data]
    exact ⟨fun _ => rfl, fun other => absurd (.inr (.inl data)) other⟩
  · rw [if_neg data]
    by_cases own : v = fdPage new
    · rw [own, Function.update_self]
      exact ⟨fun _ => rfl, fun other => absurd (.inl rfl) other⟩
    · rw [Function.update_of_ne own, outside v (by omega)]
      constructor
      · intro lost
        exact gone ((lost.resolve_left own).resolve_left data)
      · exact fun other => kept fun unmaps => other (.inr (.inr unmaps))

theorem dupErr_ff (s : FdSpace) (new : Int) : (s.dupErr new).ff = s.ff := by
  unfold dupErr
  rw [unmapFrom_ff, setPage_ff]

/-- The loop of `dup` refuses a page that `close` has left. -/
def Refuses (s : FdSpace) (old new reply : Int) (ok : Nat → Bool) : Prop :=
  ∃ k < 512, ok k = false ∧ s.pt (dataPage old + (k : Nat)) ≠ none ∧
    ¬ s.Unmaps new reply (dataPage old + (k : Nat))

/-- What the loop of `dup` leaves after the `close`. -/
structure Looped (s s' : FdSpace) (old new reply : Int) (ok : Nat → Bool) (b : Bool) : Prop where
  ff : s'.ff = s.ff
  outside : ∀ v, v < dataPage new ∨ dataPage new + 512 ≤ v →
    s'.pt v = (s.close new reply).2.pt v
  refuses : b = false ↔ s.Refuses old new reply ok
  copies : b = true → ∀ k : Nat, k < 512 → ∀ p,
    (s.close new reply).2.pt (dataPage old + (k : Nat)) = some p →
      s'.pt (dataPage new + (k : Nat)) = some p

namespace Looped

variable {b : Bool}

/-- What `err` of `dup` leaves. -/
theorem failed (h : Looped s s' old new reply ok b) : (s'.dupErr new).ff = s.ff ∧
    (∀ v, s.DupLoses new reply v → (s'.dupErr new).pt v = none) ∧
    ∀ v, ¬ s.DupLoses new reply v → (s'.dupErr new).pt v = s.pt v := by
  have ends := fun v => @dupErr_pt s s' new reply h.outside v
  exact ⟨by rw [dupErr_ff, h.ff], fun v => (ends v).1, fun v => (ends v).2⟩

theorem shares (h : Looped s s' old new reply ok true) (fd : s'.fdLookup old = some q)
    (hold : 0 ≤ old) (hnew : 0 ≤ new) (low : new < 32) :
    (s'.setPage (fdPage new) (some q)).Shares old new := by
  obtain ⟨oldLow, fd⟩ := fdLookup_some fd
  have below : ∀ i, i < 32 → ∀ j k : Int, 0 ≤ j → 0 ≤ k → fdPage i < dataPage j + k := by
    intro i hi j k hj hk
    unfold fdPage dataPage
    omega
  have shown : (s'.setPage (fdPage new) (some q)).fdLookup new = some q := by
    unfold fdLookup
    rw [if_neg (by omega), setPage_pt, Function.update_self]
  refine ⟨by rw [shown]; rfl, ?_, ?_⟩
  · rw [shown]
    by_cases same : old = new
    · rw [same, shown]
    · have other : fdPage old ≠ fdPage new := by
        unfold fdPage
        omega
      unfold fdLookup
      rw [if_neg (by omega), setPage_pt, Function.update_of_ne other, fd]
  · intro k hk p hp
    have oldData := below new low old k hold (Int.natCast_nonneg k)
    have newData := below new low new k hnew (Int.natCast_nonneg k)
    rw [setPage_pt, Function.update_of_ne (by omega)] at hp ⊢
    by_cases same : old = new
    · rw [← same]
      exact hp
    · apply h.copies rfl k hk p
      rw [← h.outside, hp]
      unfold dataPage
      omega

end Looped

end

/-- A file of one page, open at descriptor 0. -/
def oneFile : FdSpace where
  pt v := if v = fdPage 0 then some 1 else if v = dataPage 0 then some 2 else none
  ff _ := ⟨devfileId, 0, 2, 1024, fun w => if w = 32 then 10 else 0⟩

end

end FdSpace

end RiscvMos
