import RiscvMos.User.Files

/-!
The data areas of open files over whole runs of `open`, `close`, `ftruncate`,
`write`, `read`, `seek` and `dup`: a call for one file leaves the bytes of the
others alone, while no file reaches the area of the next descriptor.
-/

namespace RiscvMos

theorem fd2data_eq (i : FdIdx) : fd2data i = 4096 * (0x60000 + 512 * i.val) := by
  simp only [fd2data, Side.addr]
  omega

theorem fd2data_page (i : FdIdx) : fd2data i / 4096 = 0x60000 + 512 * i.val := by
  rw [fd2data_eq, Nat.mul_div_cancel_left _ (by decide)]

/-- A page of the first `size` bytes of the data area of a descriptor. -/
def InWindow (i : FdIdx) (size v : Nat) : Prop :=
  fd2data i / 4096 ≤ v ∧ v < fd2data i / 4096 + numPages size

/-- A page that the data area of a descriptor can have. -/
def InArea (v : Nat) : Prop := 0x60000 ≤ v ∧ v < 0x60000 + 512 * 31 + 1024

theorem numPages_le {size : Nat} (h : size ≤ maxfilesize) : numPages size ≤ 1024 := by
  simp only [numPages, maxfilesize] at *
  omega

theorem InWindow.mono {i : FdIdx} {m n v : Nat} (h : InWindow i m v) (hmn : m ≤ n) :
    InWindow i n v := by
  have hle : numPages m ≤ numPages n := by
    simp only [numPages]
    omega
  exact ⟨h.1, by have := h.2; omega⟩

theorem InWindow.inArea {i : FdIdx} {size v : Nat} (h : InWindow i size v)
    (hsize : size ≤ maxfilesize) :
    InArea v := by
  obtain ⟨hlo, hhi⟩ := h
  have := numPages_le hsize
  have := i.isLt
  rw [fd2data_page] at hlo hhi
  constructor
  · omega
  · omega

/-- The page of a byte of a file. -/
theorem inWindow_of_lt {i : FdIdx} {size o : Nat} (h : o < size) :
    InWindow i size ((fd2data i + o) / 4096) := by
  rw [InWindow, fd2data_page, fd2data_eq]
  simp only [numPages]
  omega

namespace Client

/-- Another descriptor than `e`, on another file. -/
def Other (s : Client) (e : FdIdx) (file : Option Nat) (j : FdIdx) (q : Nat) : Prop :=
  j ≠ e ∧ s.fd j = some q ∧ some (s.file q) ≠ file

/-- A page through which such a descriptor is read. -/
def Foreign (s : Client) (e : FdIdx) (file : Option Nat) (p : Nat) : Prop :=
  ∃ j q v, s.Other e file j q ∧ InWindow j (s.ff q).size v ∧ s.pt v = some p

/-- With a size of `n`, the file at `k` does not reach the area of the next
descriptor in use for another file, nor one of these the area of `k`. -/
def Clear (s : Client) (e : FdIdx) (file : Option Nat) (k : FdIdx) (n : Nat) : Prop :=
  ∀ j q, s.Other e file j q →
    (j < k → fd2data j + (s.ff q).size ≤ fd2data k) ∧ (k < j → fd2data k + n ≤ fd2data j)

/-- No page of another file was left where the file is going to be. -/
def NoLeft (s : Client) (e : FdIdx) (file : Option Nat) (k : FdIdx) (n : Nat) : Prop :=
  ∀ v p, InWindow k n v → s.pt v = some p → ¬ s.Foreign e file p

structure Fits (s : Client) (e : FdIdx) (file : Option Nat) (k : FdIdx) (n : Nat) : Prop where
  size : n ≤ maxfilesize
  clear : s.Clear e file k n
  left : s.NoLeft e file k n

/-- The server changes no page of another file. -/
def Serves (s : Client) (e : FdIdx) (file : Option Nat) (a : Answer) : Prop :=
  ∀ p, s.Foreign e file p → a.mem p = s.mem p

/-- Nor does it send one. -/
def Sends (s : Client) (e : FdIdx) (file : Option Nat) (a : Answer) : Prop :=
  s.Serves e file a ∧ (0 ≤ a.code → ¬ s.Foreign e file a.page)

/-- What a call for `file` at `e` does to the other descriptors: nothing. -/
structure Quiet (s s' : Client) (e : FdIdx) (file : Option Nat) : Prop where
  same : ∀ j q, s.Other e file j q → s'.fd j = some q ∧ s'.ff q = s.ff q ∧ s'.file q = s.file q ∧
    ∀ v, InWindow j (s.ff q).size v → s'.pt v = s.pt v
  kept : ∀ p, s.Foreign e file p → s'.mem p = s.mem p
  pages : ∀ v p, s'.pt v = some p → s.pt v = some p ∨ ¬ s.Foreign e file p
  own : ∀ k q, s'.fd k = some q →
    s.Other e file k q ∨ some (s'.file q) = file ∧ s.Fits e file k (s'.ff q).size
  inside : ∀ v, InArea v → s'.pt v ≠ s.pt v → InWindow e maxfilesize v

/-- Files have areas and pages of their own. -/
structure Inv (s : Client) : Prop where
  size : ∀ i q, s.fd i = some q → (s.ff q).size ≤ maxfilesize
  clear : ∀ i q j r, s.fd i = some q → s.fd j = some r → s.file q ≠ s.file r → i < j →
    fd2data i + (s.ff q).size ≤ fd2data j
  apart : ∀ i q j r v u p, s.fd i = some q → s.fd j = some r → s.file q ≠ s.file r →
    InWindow i (s.ff q).size v → s.pt v = some p → InWindow j (s.ff r).size u → s.pt u ≠ some p

variable {s s' s₁ : Client} {e i j k : FdIdx} {file : Option Nat} {q p v n : Nat} {a : Answer}

theorem Inv.fits (h : Inv s) (hk : s.fd k = some q) (hq : some (s.file q) = file) :
    s.Fits e file k (s.ff q).size := by
  constructor
  · exact h.size k q hk
  · intro j r hj
    have hne : s.file q ≠ s.file r := fun heq => hj.2.2 (by rw [← heq, hq])
    exact ⟨h.clear j r k q hj.2.1 hk hne.symm, h.clear k q j r hk hj.2.1 hne⟩
  · rintro v p hv hp ⟨j, r, u, hj, hu, hup⟩
    have hne : s.file q ≠ s.file r := fun heq => hj.2.2 (by rw [← heq, hq])
    exact h.apart k q j r v u p hk hj.2.1 hne hv hp hu hup

/-- The start of a call for `file` at `e`, which is free or on that file. -/
theorem Inv.quiet (h : Inv s) (he : ∀ q, s.fd e = some q → some (s.file q) = file) :
    Quiet s s e file := by
  constructor
  case same => exact fun j q hj => ⟨hj.2.1, rfl, rfl, fun v _ => rfl⟩
  case kept => exact fun p _ => rfl
  case pages => exact fun v p hp => .inl hp
  case own =>
    intro k q hk
    by_cases hq : some (s.file q) = file
    · exact .inr ⟨hq, h.fits hk hq⟩
    · refine .inl ⟨?_, hk, hq⟩
      intro hke
      subst hke
      exact hq (he q hk)
  case inside => exact fun v _ hne => absurd rfl hne

/-- The windows of two files do not meet. -/
theorem Clear.not_inWindow {r m : Nat} (hc : s.Clear e file k n)
    (hj : s.Other e file j r) (hjk : j ≠ k)
    (hv : InWindow k m v) (hm : k < j → m ≤ n ∨ m ≤ largePageSize) :
    ¬ InWindow j (s.ff r).size v := by
  obtain ⟨hlow, hhigh⟩ := hc j r hj
  intro hv'
  simp only [InWindow, fd2data_page, numPages, largePageSize] at *
  rw [fd2data_eq, fd2data_eq] at hlow hhigh
  cases Nat.lt_or_gt_of_ne (fun heq => hjk (Fin.ext heq) : j.val ≠ k.val) with
  | inl hlt =>
    have := hlow hlt
    omega
  | inr hlt =>
    have := hhigh hlt
    cases hm hlt with
    | inl hle => omega
    | inr hle => omega

namespace Quiet

theorem fd_other (h : Quiet s s' e file) (hs : Inv s) (hj : s.Other e file j q) :
    s'.fd j = some q ∧ s'.file q = s.file q ∧ (s'.ff q).size = (s.ff q).size ∧
      (s'.ff q).size ≤ maxfilesize ∧ ∀ v, InWindow j (s.ff q).size v → s'.pt v = s.pt v := by
  obtain ⟨hfd, hff, hfile, hpt⟩ := h.same j q hj
  rw [hff]
  exact ⟨hfd, hfile, rfl, hs.size j q hj.2.1, hpt⟩

/-- No page of a file of the call is one of another file. -/
theorem not_foreign (h : Quiet s s' e file) (hfits : s.Fits e file k n) (hv : InWindow k n v)
    (hp : s'.pt v = some p) : ¬ s.Foreign e file p := by
  cases h.pages v p hp with
  | inl hold => exact hfits.left v p hv hold
  | inr hnew => exact hnew

theorem inv (h : Quiet s s' e file) (hs : Inv s) : Inv s' := by
  constructor
  case size =>
    intro k q hk
    cases h.own k q hk with
    | inl hother => exact (h.fd_other hs hother).2.2.2.1
    | inr hown => exact hown.2.size
  case clear =>
    intro k q j r hk hj hne hlt
    cases h.own k q hk with
    | inl hko =>
      obtain ⟨-, hkfile, hksize, -⟩ := h.fd_other hs hko
      rw [hksize]
      cases h.own j r hj with
      | inl hjo =>
        rw [hkfile, (h.fd_other hs hjo).2.1] at hne
        exact hs.clear k q j r hko.2.1 hjo.2.1 hne hlt
      | inr hjown => exact (hjown.2.clear k q hko).1 hlt
    | inr hkown =>
      cases h.own j r hj with
      | inl hjo => exact (hkown.2.clear j r hjo).2 hlt
      | inr hjown => exact absurd (Option.some.inj (hkown.1.trans hjown.1.symm)) hne
  case apart =>
    intro k q j r v u p hk hj hne hv hp hu hup
    cases h.own k q hk with
    | inl hko =>
      obtain ⟨-, hkfile, hksize, -, hkpt⟩ := h.fd_other hs hko
      rw [hksize] at hv
      have hp' : s.pt v = some p := (hkpt v hv).symm.trans hp
      cases h.own j r hj with
      | inl hjo =>
        obtain ⟨-, hjfile, hjsize, -, hjpt⟩ := h.fd_other hs hjo
        rw [hjsize] at hu
        rw [hkfile, hjfile] at hne
        exact hs.apart k q j r v u p hko.2.1 hjo.2.1 hne hv hp' hu ((hjpt u hu).symm.trans hup)
      | inr hjown => exact h.not_foreign hjown.2 hu hup ⟨k, q, v, hko, hv, hp'⟩
    | inr hkown =>
      cases h.own j r hj with
      | inl hjo =>
        obtain ⟨-, -, hjsize, -, hjpt⟩ := h.fd_other hs hjo
        rw [hjsize] at hu
        exact h.not_foreign hkown.2 hv hp ⟨j, r, u, hjo, hu, (hjpt u hu).symm.trans hup⟩
      | inr hjown => exact absurd (Option.some.inj (hkown.1.trans hjown.1.symm)) hne

/-! What a call is made of. -/

theorem answered (h : Quiet s s₁ e file) (ha : s.Serves e file a) :
    Quiet s (s₁.answered a) e file :=
  { h with kept := ha }

theorem setFd_none (h : Quiet s s₁ e file) : Quiet s (s₁.setFd e none) e file := by
  constructor
  case same =>
    intro j q hj
    simp only [setFd, Function.update_of_ne hj.1]
    exact h.same j q hj
  case kept => exact h.kept
  case pages => exact h.pages
  case own =>
    intro k q hk
    by_cases hke : k = e
    · subst hke
      simp only [setFd, Function.update_self] at hk
      cases hk
    · simp only [setFd, Function.update_of_ne hke] at hk
      exact h.own k q hk
  case inside => exact h.inside

/-- A page of the area at `e` is mapped anew, or not at all. -/
theorem setPage (h : Quiet s s₁ e file) {o : Option Nat} (hv : InWindow e maxfilesize v)
    (hclear : ∀ j q, s.Other e file j q → ¬ InWindow j (s.ff q).size v)
    (ho : ∀ p, o = some p → ¬ s.Foreign e file p) : Quiet s (s₁.setPage v o) e file := by
  constructor
  case same =>
    intro j q hj
    obtain ⟨hfd, hff, hfile, hpt⟩ := h.same j q hj
    refine ⟨hfd, hff, hfile, ?_⟩
    intro u hu
    have hne : u ≠ v := by
      intro huv
      subst huv
      exact hclear j q hj hu
    simp only [Client.setPage, Function.update_of_ne hne]
    exact hpt u hu
  case kept => exact h.kept
  case pages =>
    intro u p hp
    by_cases huv : u = v
    · subst huv
      simp only [Client.setPage, Function.update_self] at hp
      exact .inr (ho p hp)
    · simp only [Client.setPage, Function.update_of_ne huv] at hp
      exact h.pages u p hp
  case own => exact h.own
  case inside =>
    intro u hu hne
    by_cases huv : u = v
    · subst huv
      exact hv
    · simp only [Client.setPage, Function.update_of_ne huv] at hne
      exact h.inside u hu hne

/-- The page of a `struct Filefd` is written. -/
theorem setFf (h : Quiet s s₁ e file) {ff : Filefd} (hq : ∀ j, ¬ s.Other e file j q)
    (hfits : ∀ k, s₁.fd k = some q → s.Fits e file k ff.size) : Quiet s (s₁.setFf q ff) e file := by
  constructor
  case same =>
    intro j r hj
    obtain ⟨hfd, hff, hfile, hpt⟩ := h.same j r hj
    have hne : r ≠ q := by
      intro hrq
      subst hrq
      exact hq j hj
    simp only [Client.setFf, Function.update_of_ne hne]
    exact ⟨hfd, hff, hfile, hpt⟩
  case kept => exact h.kept
  case pages => exact h.pages
  case own =>
    intro k r hk
    cases h.own k r hk with
    | inl hother => exact .inl hother
    | inr hown =>
      refine .inr ⟨hown.1, ?_⟩
      by_cases hrq : r = q
      · subst hrq
        simp only [Client.setFf, Function.update_self]
        exact hfits k hk
      · simp only [Client.setFf, Function.update_of_ne hrq]
        exact hown.2
  case inside => exact h.inside

/-- The loop over pages from the start of the area at `e`. -/
theorem unmapFrom {m c : Nat} (h : Quiet s s₁ e file)
    (hwin : ∀ k, k < c + m → InWindow e maxfilesize (fd2data e / 4096 + k) ∧
      ∀ j q, s.Other e file j q → ¬ InWindow j (s.ff q).size (fd2data e / 4096 + k)) :
    Quiet s (Client.unmapFrom (fd2data e / 4096) m c s₁) e file := by
  induction m generalizing c s₁ with
  | zero => exact h
  | succ m ih =>
    obtain ⟨hin, hout⟩ := hwin c (by omega)
    apply ih (h.setPage hin hout fun p hp => by cases hp)
    intro k hk
    exact hwin k (by omega)

theorem mapFrom {m c : Nat} {maps : Nat → Answer} (h : Quiet s s₁ e file)
    (hwin : ∀ k, k < c + m → InWindow e maxfilesize (fd2data e / 4096 + k) ∧
      ∀ j q, s.Other e file j q → ¬ InWindow j (s.ff q).size (fd2data e / 4096 + k))
    (hmaps : ∀ k, c ≤ k → k < c + m → s.Sends e file (maps k)) :
    Quiet s (Client.mapFrom (fd2data e / 4096) maps m c s₁).2 e file := by
  induction m generalizing c s₁ with
  | zero => exact h
  | succ m ih =>
    obtain ⟨hserves, hsends⟩ := hmaps c (le_refl c) (by omega)
    unfold Client.mapFrom
    split
    · exact h.answered hserves
    · rename_i hcode
      obtain ⟨hin, hout⟩ := hwin c (by omega)
      apply ih
      · apply (h.answered hserves).setPage hin hout
        intro p hp
        cases hp
        exact hsends (by omega)
      · exact fun k hk => hwin k (by omega)
      · exact fun k hc hk => hmaps k (by omega) (by omega)

/-- The loop of `dup`, with pages that are not of another file. -/
theorem dupFrom {m c ova : Nat} {ok : Nat → Bool} (h : Quiet s s₁ e file)
    (hwin : ∀ k, k < c + m → InWindow e maxfilesize (fd2data e / 4096 + k) ∧
      ∀ j q, s.Other e file j q → ¬ InWindow j (s.ff q).size (fd2data e / 4096 + k))
    (hova : ∀ k p, k < c + m → s.pt (ova + k) = some p → ¬ s.Foreign e file p) :
    Quiet s (Client.dupFrom ova (fd2data e / 4096) ok m c s₁).2 e file := by
  induction m generalizing c s₁ with
  | zero => exact h
  | succ m ih =>
    have hwin' : ∀ k, k < c + 1 + m → _ := fun k hk => hwin k (by omega)
    have hova' : ∀ k p, k < c + 1 + m → _ := fun k p hk => hova k p (by omega)
    unfold Client.dupFrom
    split
    · exact ih h hwin' hova'
    · rename_i p hp
      split
      · obtain ⟨hin, hout⟩ := hwin c (by omega)
        refine ih (h.setPage hin hout ?_) hwin' hova'
        intro p' hp'
        cases hp'
        cases h.pages _ p hp with
        | inl hold => exact hova c p (by omega) hold
        | inr hnew => exact hnew
      · exact h

/-- An address that is not in the area, or in that of `e`. -/
def Safe (s : Client) (e : FdIdx) (file : Option Nat) (va : Nat) : Prop :=
  (InArea (va / 4096) → InWindow e maxfilesize (va / 4096)) ∧
    ∀ j q, s.Other e file j q → ¬ InWindow j (s.ff q).size (va / 4096)

theorem touch {va : Nat} {fault : Nat → Nat} (h : Quiet s s₁ e file) (hva : Safe s e file va)
    (hfault : ∀ v, ¬ s.Foreign e file (fault v)) : Quiet s (s₁.touch fault va) e file := by
  unfold Client.touch
  split
  · exact h
  · constructor
    case same =>
      intro j q hj
      obtain ⟨hfd, hff, hfile, hpt⟩ := h.same j q hj
      refine ⟨hfd, hff, hfile, ?_⟩
      intro u hu
      have hne : u ≠ va / 4096 := by
        intro huv
        subst huv
        exact hva.2 j q hj hu
      simp only [Function.update_of_ne hne]
      exact hpt u hu
    case kept =>
      intro p hp
      have hne : p ≠ fault (va / 4096) := by
        intro heq
        subst heq
        exact hfault _ hp
      simp only [Function.update_of_ne hne]
      exact h.kept p hp
    case pages =>
      intro u p hp
      by_cases huv : u = va / 4096
      · subst huv
        simp only [Function.update_self] at hp
        cases hp
        exact .inr (hfault _)
      · simp only [Function.update_of_ne huv] at hp
        exact h.pages u p hp
    case own => exact h.own
    case inside =>
      intro u hu hne
      by_cases huv : u = va / 4096
      · subst huv
        exact hva.1 hu
      · simp only [Function.update_of_ne huv] at hne
        exact h.inside u hu hne

theorem storeByte {va b : Nat} (h : Quiet s s₁ e file)
    (hva : ∀ p, s.pt (va / 4096) = some p → ¬ s.Foreign e file p) :
    Quiet s (s₁.storeByte va b) e file := by
  unfold Client.storeByte
  split
  · rename_i p hp
    have hp' : ¬ s.Foreign e file p := by
      cases h.pages _ p hp with
      | inl hold => exact hva p hold
      | inr hnew => exact hnew
    refine { h with kept := ?_ }
    intro p₁ hp₁
    have hne : p₁ ≠ p := by
      intro heq
      subst heq
      exact hp' hp₁
    simp only [Function.update_of_ne hne]
    exact h.kept p₁ hp₁
  · exact h

/-- Bytes are copied to pages that are not of another file. -/
theorem memcpy {dst src m : Nat} {fault : Nat → Nat} (h : Quiet s s₁ e file)
    (hfault : ∀ v, ¬ s.Foreign e file (fault v))
    (hsrc : ∀ k, k < m → Safe s e file (src + k)) (hdst : ∀ k, k < m → Safe s e file (dst + k))
    (hpages : ∀ k p, k < m → s.pt ((dst + k) / 4096) = some p → ¬ s.Foreign e file p) :
    Quiet s (Client.memcpy fault dst src m s₁) e file := by
  induction m with
  | zero => exact h
  | succ m ih =>
    have hm := ih (fun k hk => hsrc k (by omega)) (fun k hk => hdst k (by omega))
      (fun k p hk => hpages k p (by omega))
    have htouch := (hm.touch (hsrc m (by omega)) hfault).touch (hdst m (by omega)) hfault
    exact htouch.storeByte fun p => hpages m p (by omega)

end Quiet

/-- The file of a descriptor. -/
def fileOf (s : Client) (i : FdIdx) : Option Nat := (s.fd i).map s.file

/-- The answers to `ftruncate`, and the sizes that the file gets at its descriptors. -/
structure Resizes (s : Client) (i : FdIdx) (size : Nat) (a : SizeAnswers) : Prop where
  fits : ∀ k, s.fd k = s.fd i → s.Fits i (s.fileOf i) k size
  setSize : s.Serves i (s.fileOf i) a.setSize
  maps : ∀ q k, s.fd i = some q → numPages (s.ff q).size ≤ k → k < numPages size →
    s.Sends i (s.fileOf i) (a.maps k)
  undo : s.Serves i (s.fileOf i) a.undo

/-- The buffer is outside the descriptors and their data, and not of another file. -/
structure Buffer (s : Client) (e : FdIdx) (file : Option Nat) (buf n : Nat) : Prop where
  outside : buf + n ≤ fd2data 0 - largePageSize ∨ fd2data 31 + maxfilesize ≤ buf
  pages : ∀ k p, k < n → s.pt ((buf + k) / 4096) = some p → ¬ s.Foreign e file p

/-- The page `p` is mapped at `v`, and `close` of `i` leaves it there. -/
def Stays (s : Client) (i : FdIdx) (reply : Answer) (v p : Nat) : Prop :=
  s.pt v = some p ∧ ∀ q, s.fd i = some q → 0 ≤ reply.code → ¬ InWindow i (s.ff q).size v

/-- A call that finds memory, and answers of the server, for the file it is about. -/
def Meets (s : Client) : FileAct → Prop
  | .openPath reply ff file maps =>
    ∀ e, s.fdAlloc = some e → s.Serves e (some file) reply ∧
      (0 ≤ reply.code → (∀ j, s.fd j ≠ some reply.page) ∧ s.Fits e (some file) e ff.size ∧
        ∀ k, k < numPages ff.size → s.Sends e (some file) (maps k))
  | .close i reply => s.Serves i (s.fileOf i) reply
  | .ftruncate i size a => size ≤ maxfilesize → s.Resizes i size a
  | .write i buf n a fault =>
    ∀ q, s.fd i = some q → (s.ff q).offset + n < 2 ^ 32 ∧
      ((s.ff q).size < (s.ff q).offset + n → (s.ff q).offset + n ≤ maxfilesize →
        s.Resizes i ((s.ff q).offset + n) a) ∧
      s.Buffer i (s.fileOf i) buf n ∧ ∀ v, ¬ s.Foreign i (s.fileOf i) (fault v)
  | .read i buf n fault =>
    ∀ q, s.fd i = some q → (s.ff q).offset + n < 2 ^ 32 ∧ s.Buffer i (s.fileOf i) buf n ∧
      ∀ v, ¬ s.Foreign i (s.fileOf i) (fault v)
  | .seek _ _ => True
  | .dup old new reply _ _ =>
    s.Serves new (s.fileOf new) reply ∧
      ∀ q, s.fd old = some q → s.Clear new (s.fileOf old) new (s.ff q).size ∧
        -- what the `close` of `new` leaves in the new area and in the one that is copied
        ∀ v p, InWindow new (s.ff q).size v ∨ InWindow old largePageSize v →
          s.Stays new reply v p → ∀ j r u, s.Other new (s.fileOf old) j r →
            InWindow j (s.ff r).size u → ¬ s.Stays new reply u p

theorem Fits.window (h : s.Fits e file e n) {c : Nat} (hc : c < numPages n) :
    InWindow e maxfilesize (fd2data e / 4096 + c) ∧
      ∀ j q, s.Other e file j q → ¬ InWindow j (s.ff q).size (fd2data e / 4096 + c) := by
  have hin : InWindow e n (fd2data e / 4096 + c) := ⟨by omega, by omega⟩
  exact ⟨hin.mono h.size, fun j q hj => h.clear.not_inWindow hj hj.1 hin fun _ => .inl (le_refl n)⟩

/-- `dup` goes over the whole area of a descriptor. -/
theorem Fits.area (h : s.Fits e file e n) {c : Nat} (hc : c < largePageSize / 4096) :
    InWindow e maxfilesize (fd2data e / 4096 + c) ∧
      ∀ j q, s.Other e file j q → ¬ InWindow j (s.ff q).size (fd2data e / 4096 + c) := by
  have hin : InWindow e largePageSize (fd2data e / 4096 + c) := by
    simp only [InWindow, numPages, largePageSize] at *
    omega
  refine ⟨hin.mono (by decide),
    fun j q hj => h.clear.not_inWindow hj hj.1 hin fun _ => .inr (le_refl _)⟩

theorem fileOf_some (hi : s.fd i = some q) : s.fileOf i = some (s.file q) := by
  rw [fileOf, hi]
  rfl

/-- The start of a call for a descriptor. -/
theorem Inv.quiet_fileOf (hs : Inv s) (i : FdIdx) : Quiet s s i (s.fileOf i) := by
  apply hs.quiet
  intro q hq
  exact (fileOf_some hq).symm

theorem not_other (hi : s.fd i = some q) (j : FdIdx) : ¬ s.Other i (s.fileOf i) j q := by
  intro hj
  exact hj.2.2 (fileOf_some hi).symm

theorem close_quiet (hs : Inv s) {reply : Answer} (hm : s.Serves i (s.fileOf i) reply) :
    Quiet s (s.close i reply).2 i (s.fileOf i) := by
  have h := hs.quiet_fileOf i
  unfold close
  cases hfd : s.fd i with
  | none => exact h
  | some q =>
    dsimp only
    split
    · exact (h.answered hm).setFd_none
    · apply Quiet.setFd_none
      apply (h.answered hm).unmapFrom
      intro k hk
      rw [Nat.zero_add] at hk
      exact (hs.fits hfd (fileOf_some hfd).symm).window hk

theorem ftruncate_quiet (hs : Inv s) {size : Nat} {a : SizeAnswers}
    (hm : size ≤ maxfilesize → s.Resizes i size a) :
    Quiet s (s.ftruncate i size a).2 i (s.fileOf i) := by
  have h := hs.quiet_fileOf i
  unfold ftruncate
  split
  · exact h
  · rename_i hsize
    replace hm := hm (by omega)
    cases hfd : s.fd i with
    | none => exact h
    | some q =>
      dsimp only
      have hset : Quiet s (s.setFf q ((s.ff q).setSize size)) i (s.fileOf i) := by
        apply h.setFf (not_other hfd)
        intro k hk
        rw [Filefd.setSize_size]
        exact hm.fits k (hk.trans hfd.symm)
      have hnew := hm.fits i rfl
      have hold : s.Fits i (s.fileOf i) i (s.ff q).size := hs.fits hfd (fileOf_some hfd).symm
      -- the pages of the old size or the new one
      have hwin : ∀ k, k < numPages (s.ff q).size ∨ k < numPages size →
          InWindow i maxfilesize (fd2data i / 4096 + k) ∧
            ∀ j r, s.Other i (s.fileOf i) j r →
            ¬ InWindow j (s.ff r).size (fd2data i / 4096 + k) := by
        intro k hk
        cases hk with
        | inl hk => exact hold.window hk
        | inr hk => exact hnew.window hk
      split
      · exact hset.answered hm.setSize
      · have hmap :
            Quiet s (mapFrom (fd2data i / 4096) a.maps (numPages size - numPages (s.ff q).size)
            (numPages (s.ff q).size) ((s.setFf q ((s.ff q).setSize size)).answered a.setSize)).2 i
            (s.fileOf i) := by
          apply (hset.answered hm.setSize).mapFrom
          · exact fun k hk => hwin k (by omega)
          · exact fun k hc hk => hm.maps q k hfd hc (by omega)
        split
        · exact hmap.answered hm.undo
        · apply hmap.unmapFrom
          exact fun k hk => hwin k (by omega)

theorem Fits.safe (h : s.Fits e file e n) {o : Nat} (ho : o < n) :
    Quiet.Safe s e file (fd2data e + o) := by
  have hin := inWindow_of_lt (i := e) ho
  exact ⟨fun _ => hin.mono h.size,
    fun j q hj => h.clear.not_inWindow hj hj.1 hin fun _ => .inl (le_refl n)⟩

theorem Buffer.safe (hs : Inv s) {buf : Nat} (h : s.Buffer e file buf n) {k : Nat} (hk : k < n) :
    Quiet.Safe s e file (buf + k) := by
  have hout : ¬ InArea ((buf + k) / 4096) := by
    intro hin
    have hor := h.outside
    simp only [InArea, fd2data_eq, largePageSize, maxfilesize] at *
    have h31 : ((31 : FdIdx) : Nat) = 31 := rfl
    have h0 : ((0 : FdIdx) : Nat) = 0 := rfl
    rw [h31, h0] at hor
    omega
  refine ⟨fun hin => absurd hin hout, ?_⟩
  intro j q hj hin
  exact hout (hin.inArea (hs.size j q hj.2.1))

/-- Bytes are copied from a buffer to the file. -/
theorem Quiet.copyIn (hs : Inv s) (h : Quiet s s₁ e file) {buf o m : Nat} {fault : Nat → Nat}
    (hfits : s.Fits e file e m)
    (hbuf : s.Buffer e file buf n) (hfault : ∀ v, ¬ s.Foreign e file (fault v)) (hm : o + n ≤ m) :
    Quiet s (Client.memcpy fault (fd2data e + o) buf n s₁) e file := by
  apply h.memcpy hfault
  · exact fun k hk => hbuf.safe hs hk
  · intro k hk
    rw [Nat.add_assoc]
    exact hfits.safe (by omega)
  · intro k p hk
    rw [Nat.add_assoc]
    exact hfits.left _ p (inWindow_of_lt (by omega))

/-- Bytes are copied from the file to a buffer. -/
theorem Quiet.copyOut (hs : Inv s) (h : Quiet s s₁ e file) {buf o m c : Nat} {fault : Nat → Nat}
    (hfits : s.Fits e file e m) (hbuf : s.Buffer e file buf n)
    (hfault : ∀ v, ¬ s.Foreign e file (fault v))
    (hm : o + c ≤ m) (hc : c ≤ n) :
    Quiet s (Client.memcpy fault buf (fd2data e + o) c s₁) e file := by
  apply h.memcpy hfault
  · intro k hk
    rw [Nat.add_assoc]
    exact hfits.safe (by omega)
  · exact fun k hk => hbuf.safe hs (by omega)
  · exact fun k p hk => hbuf.pages k p (by omega)

/-- The offset of a descriptor changes. -/
theorem Quiet.setOffset (h : Quiet s s₁ i (s.fileOf i)) (hi : s.fd i = some q) (o : Nat) :
    Quiet s (s₁.setFf q { s₁.ff q with offset := o }) i (s.fileOf i) := by
  apply h.setFf (not_other hi)
  intro k hk
  cases h.own k q hk with
  | inl hother => exact absurd hother (not_other hi k)
  | inr hown => exact hown.2

theorem Quiet.advance {x : Int × Client} (h : Quiet s x.2 i (s.fileOf i)) (hi : s.fd i = some q) :
    Quiet s (advance q x).2 i (s.fileOf i) := by
  unfold Client.advance
  split
  · exact h.setOffset hi _
  · exact h

theorem write_quiet (hs : Inv s) {buf : Nat} {a : SizeAnswers} {fault : Nat → Nat}
    (hm : s.Meets (.write i buf n a fault)) :
    Quiet s (s.write i buf n a fault).2 i (s.fileOf i) := by
  have h := hs.quiet_fileOf i
  unfold write
  cases hfd : s.fd i with
  | none => exact h
  | some q =>
    obtain ⟨hwrap, hsizes, hbuf, hfault⟩ := hm q hfd
    dsimp only
    split
    · exact h
    · refine Quiet.advance ?_ hfd
      unfold fileWrite
      have htot : uInt ((s.ff q).offset + n) = (s.ff q).offset + n := Nat.mod_eq_of_lt hwrap
      dsimp only
      rw [htot]
      split
      · exact h
      · rename_i hmax
        split
        · rename_i hgrow
          have hres := hsizes hgrow (by omega)
          have htrunc := ftruncate_quiet hs fun _ => hres
          split
          · exact htrunc
          · exact htrunc.copyIn hs (hres.fits i rfl) hbuf hfault (le_refl _)
        · exact h.copyIn hs (hs.fits hfd (fileOf_some hfd).symm) hbuf hfault (by omega)

theorem read_quiet (hs : Inv s) {buf : Nat} {fault : Nat → Nat}
    (hm : s.Meets (.read i buf n fault)) :
    Quiet s (s.read i buf n fault).2 i (s.fileOf i) := by
  have h := hs.quiet_fileOf i
  unfold read
  cases hfd : s.fd i with
  | none => exact h
  | some q =>
    obtain ⟨hwrap, hbuf, hfault⟩ := hm q hfd
    dsimp only
    split
    · exact h
    · refine Quiet.advance ?_ hfd
      unfold fileRead
      have htot : uInt ((s.ff q).offset + n) = (s.ff q).offset + n := Nat.mod_eq_of_lt hwrap
      dsimp only
      rw [htot]
      split
      · exact h
      · have hfits := hs.fits (e := i) hfd (fileOf_some hfd).symm
        apply h.copyOut hs hfits hbuf hfault
        · split
          · omega
          · omega
        · split
          · omega
          · exact le_refl n

theorem seek_quiet (hs : Inv s) (offset : Nat) : Quiet s (s.seek i offset).2 i (s.fileOf i) := by
  have h := hs.quiet_fileOf i
  unfold seek
  cases hfd : s.fd i with
  | none => exact h
  | some q => exact h.setOffset hfd offset

theorem fdAlloc_free (h : s.fdAlloc = some e) : s.fd e = none := by
  have hfree := List.find?_some h
  simp only [Bool.and_eq_true, Option.isNone_iff_eq_none] at hfree
  exact hfree.2

/-- A file gets the free descriptor `e`, with a page that no other one has. -/
theorem Quiet.opened (h : Quiet s s₁ e (some n)) (hfd : s₁.fd = s.fd) {ff : Filefd}
    (hq : ∀ j, s.fd j ≠ some q) (hfits : s.Fits e (some n) e ff.size) :
    Quiet s { (s₁.setFd e (some q)).setFf q ff with file := Function.update s₁.file q n }
    e (some n) := by
  constructor
  case same =>
    intro j r hj
    obtain ⟨hjfd, hff, hfile, hpt⟩ := h.same j r hj
    have hne : r ≠ q := by
      intro hrq
      subst hrq
      exact hq j hj.2.1
    simp only [setFd, Client.setFf, Function.update_of_ne hj.1, Function.update_of_ne hne]
    exact ⟨hjfd, hff, hfile, hpt⟩
  case kept => exact h.kept
  case pages => exact h.pages
  case own =>
    intro k r hk
    by_cases hke : k = e
    · subst hke
      simp only [setFd, Client.setFf, Function.update_self, Option.some.injEq] at hk
      subst hk
      simp only [setFd, Client.setFf, Function.update_self]
      exact .inr ⟨trivial, hfits⟩
    · simp only [setFd, Client.setFf, Function.update_of_ne hke] at hk
      have hne : r ≠ q := by
        intro hrq
        subst hrq
        rw [hfd] at hk
        exact hq k hk
      simp only [setFd, Client.setFf, Function.update_of_ne hne]
      exact h.own k r hk
  case inside => exact h.inside

theorem openPath_quiet (hs : Inv s) {reply : Answer} {ff : Filefd} {maps : Nat → Answer}
    (hm : s.Meets (.openPath reply ff n maps)) (he : s.fdAlloc = some e) :
    Quiet s (s.openPath reply ff n maps).2 e (some n) := by
  obtain ⟨hserves, hok⟩ := hm e he
  have hfree := fdAlloc_free he
  have h : Quiet s s e (some n) := by
    apply hs.quiet
    intro q hq
    rw [hfree] at hq
    cases hq
  unfold openPath
  rw [he]
  dsimp only
  split
  · exact h.answered hserves
  · rename_i hcode
    obtain ⟨hq, hfits, hmaps⟩ := hok (by omega)
    have hopen := (h.answered hserves).opened rfl hq hfits
    have hmap :=
      hopen.mapFrom (m := numPages ff.size) (c := 0) (fun k hk => hfits.window (by omega))
      (fun k _ hk => hmaps k (by omega))
    split
    · exact hmap
    · exact hmap

theorem Quiet.setFd_some (h : Quiet s s₁ e file) (hfile : some (s₁.file q) = file)
    (hfits : s.Fits e file e (s₁.ff q).size) : Quiet s (s₁.setFd e (some q)) e file := by
  constructor
  case same =>
    intro j r hj
    simp only [setFd, Function.update_of_ne hj.1]
    exact h.same j r hj
  case kept => exact h.kept
  case pages => exact h.pages
  case own =>
    intro k r hk
    by_cases hke : k = e
    · subst hke
      simp only [setFd, Function.update_self, Option.some.injEq] at hk
      subst hk
      exact .inr ⟨hfile, hfits⟩
    · simp only [setFd, Function.update_of_ne hke] at hk
      exact h.own k r hk
  case inside => exact h.inside

theorem unmapFrom_fd (base n k : Nat) (s : Client) : (unmapFrom base n k s).fd = s.fd ∧
    (unmapFrom base n k s).ff = s.ff ∧ (unmapFrom base n k s).file = s.file := by
  induction n generalizing k s with
  | zero => exact ⟨rfl, rfl, rfl⟩
  | succ n ih => exact ih (k + 1) _

theorem unmapFrom_pt (base n k : Nat) (s : Client) :
    (unmapFrom base n k s).pt v = if base + k ≤ v ∧ v < base + k + n then none else s.pt v := by
  induction n generalizing k s with
  | zero => rw [unmapFrom, if_neg (by omega)]
  | succ n ih =>
    rw [unmapFrom, ih]
    by_cases hv : v = base + k
    · rw [if_neg (by omega), if_pos (by omega), hv]
      exact Function.update_self _ _ _
    · simp only [setPage, Function.update_of_ne hv]
      exact if_congr (by omega) rfl rfl

/-- `close` unmaps the data of the descriptor, where the server takes the request. -/
theorem close_pt (s : Client) (i : FdIdx) (reply : Answer) :
    (s.close i reply).2.pt v = some p ↔ s.Stays i reply v p := by
  unfold close Stays
  cases hfd : s.fd i with
  | none => exact ⟨fun h => ⟨h, fun q hq => by cases hq⟩, fun h => h.1⟩
  | some q =>
    simp only [Option.some_inj, forall_eq']
    by_cases hcode : reply.code < 0
    · rw [if_pos hcode]
      exact ⟨fun h => ⟨h, fun hle => by omega⟩, fun h => h.1⟩
    · rw [if_neg hcode, setFd]
      dsimp only
      rw [unmapFrom_pt, Nat.add_zero]
      by_cases hin : fd2data i / 4096 ≤ v ∧ v < fd2data i / 4096 + numPages (s.ff q).size
      · rw [if_pos hin]
        exact ⟨nofun, fun h => absurd hin (h.2 (by omega))⟩
      · rw [if_neg hin]
        exact ⟨fun h => ⟨h, fun _ => hin⟩, fun h => h.1⟩

/-- `close` takes the descriptor away, and no page of a `struct Filefd` changes. -/
theorem close_fd (s : Client) (i : FdIdx) (reply : Answer) :
    (s.close i reply).2.fd = Function.update s.fd i none ∧ (s.close i reply).2.ff = s.ff ∧
      (s.close i reply).2.file = s.file := by
  unfold close
  cases hfd : s.fd i with
  | none =>
    exact ⟨(Function.update_eq_self_iff.mpr hfd.symm).symm, rfl, rfl⟩
  | some q =>
    dsimp only
    split
    · exact ⟨rfl, rfl, rfl⟩
    · obtain ⟨h1, h2, h3⟩ :=
        unmapFrom_fd (fd2data i / 4096) (numPages (s.ff q).size) 0 (s.answered reply)
      refine ⟨?_, h2, h3⟩
      rw [setFd, h1]
      rfl

theorem close_other (s : Client) (i : FdIdx) (reply : Answer) (file : Option Nat) (j : FdIdx)
    (q : Nat) : (s.close i reply).2.Other i file j q ↔ s.Other i file j q := by
  obtain ⟨hfd, -, hfile⟩ := close_fd s i reply
  unfold Other
  rw [hfile, hfd]
  exact and_congr_right fun hne => by rw [Function.update_of_ne hne]

theorem dupFrom_fd (ova nva : Nat) (ok : Nat → Bool) (n k : Nat) (s : Client) :
    (dupFrom ova nva ok n k s).2.fd = s.fd ∧ (dupFrom ova nva ok n k s).2.ff = s.ff ∧
      (dupFrom ova nva ok n k s).2.file = s.file := by
  induction n generalizing k s with
  | zero => exact ⟨rfl, rfl, rfl⟩
  | succ n ih =>
    unfold dupFrom
    split
    · exact ih (k + 1) s
    · split
      · exact ih (k + 1) _
      · exact ⟨rfl, rfl, rfl⟩

/-- `err` of `dup`. -/
theorem Quiet.dupErr (h : Quiet s s₁ e file) (hfits : s.Fits e file e n) :
    Quiet s (s₁.dupErr e) e file := by
  apply h.setFd_none.unmapFrom
  intro k hk
  rw [Nat.zero_add] at hk
  exact hfits.area hk

/-- The new descriptor has room for the file once `new` is closed, and the pages
that are copied are of no other file. -/
theorem dup_fits (hs : Inv s) {old new : FdIdx} {reply : Answer} {ok : Nat → Bool} {okFd : Bool}
    (hm : s.Meets (.dup old new reply ok okFd)) (hold : s.fd old = some q) :
    (s.close new reply).2.Fits new (s.fileOf old) new (s.ff q).size ∧
      ∀ v p, InWindow old largePageSize v → (s.close new reply).2.pt v = some p →
        ¬ (s.close new reply).2.Foreign new (s.fileOf old) p := by
  obtain ⟨hclear, hleft⟩ := hm.2 q hold
  have hff := (close_fd s new reply).2.1
  have hforeign : ∀ v p, InWindow new (s.ff q).size v ∨ InWindow old largePageSize v →
      (s.close new reply).2.pt v = some p →
      ¬ (s.close new reply).2.Foreign new (s.fileOf old) p := by
    rintro v p hv hp ⟨j, r, u, hj, hu, hup⟩
    rw [hff] at hu
    exact hleft v p hv ((close_pt s new reply).mp hp) j r u
      ((close_other s new reply _ j r).mp hj) hu ((close_pt s new reply).mp hup)
  refine ⟨⟨hs.size old q hold, ?_, fun v p hv => hforeign v p (.inl hv)⟩,
    fun v p hv => hforeign v p (.inr hv)⟩
  intro j r hj
  rw [hff]
  exact hclear j r ((close_other s new reply _ j r).mp hj)

/-- What `dup` does after the `close` of `new`. -/
theorem dup_quiet (hs : Inv s) {old new : FdIdx} {reply : Answer} {ok : Nat → Bool} {okFd : Bool}
    (hm : s.Meets (.dup old new reply ok okFd)) (hold : s.fd old = some q) :
    Quiet (s.close new reply).2 (s.dup old new reply ok okFd).2 new (s.fileOf old) := by
  obtain ⟨hfits, hpages⟩ := dup_fits hs hm hold
  obtain ⟨hfd, hff, hfile⟩ := close_fd s new reply
  have h : Quiet (s.close new reply).2 (s.close new reply).2 new (s.fileOf old) := by
    apply ((close_quiet hs hm.1).inv hs).quiet
    intro r hr
    rw [hfd, Function.update_self] at hr
    cases hr
  have hdup : Quiet (s.close new reply).2 (dupFrom (fd2data old / 4096) (fd2data new / 4096) ok
      (largePageSize / 4096) 0 (s.close new reply).2).2 new (s.fileOf old) := by
    apply h.dupFrom
    · exact fun k hk => hfits.area (by omega)
    · intro k p hk
      apply hpages
      have hlarge : numPages largePageSize = largePageSize / 4096 := rfl
      exact ⟨by omega, by omega⟩
  obtain ⟨hfd', hff', hfile'⟩ := dupFrom_fd (fd2data old / 4096) (fd2data new / 4096) ok
    (largePageSize / 4096) 0 (s.close new reply).2
  unfold dup
  rw [hold]
  dsimp only
  split
  · rename_i s₂ heq
    rw [heq] at hdup
    dsimp only at hdup ⊢
    exact hdup.dupErr hfits
  · rename_i s₂ heq
    rw [heq] at hdup hfd' hff' hfile'
    dsimp only at hdup hfd' hff' hfile' ⊢
    cases hold' : s₂.fd old with
    | none =>
      dsimp only
      exact hdup.dupErr hfits
    | some q' =>
      dsimp only
      have hq : q' = q := by
        rw [hfd', hfd] at hold'
        by_cases hne : old = new
        · subst hne
          rw [Function.update_self] at hold'
          cases hold'
        · rw [Function.update_of_ne hne, hold] at hold'
          exact (Option.some.inj hold').symm
      subst hq
      split
      · apply hdup.setFd_some
        · rw [hfile', hfile, fileOf_some hold]
        · rw [hff', hff]
          exact hfits
      · dsimp only
        exact hdup.dupErr hfits

/-- The file of a descriptor is none that the call is about. -/
def Elsewhere (s : Client) (j : FdIdx) : FileAct → Prop
  | .openPath _ _ file _ => s.fileOf j ≠ some file
  | .close i _ => s.fileOf j ≠ s.fileOf i
  | .ftruncate i _ _ => s.fileOf j ≠ s.fileOf i
  | .write i _ _ _ _ => s.fileOf j ≠ s.fileOf i
  | .read i _ _ _ => s.fileOf j ≠ s.fileOf i
  | .seek i _ => s.fileOf j ≠ s.fileOf i
  | .dup old new _ _ _ => s.fileOf j ≠ s.fileOf old ∧ s.fileOf j ≠ s.fileOf new

/-- The descriptor whose area a call changes. -/
def target (s : Client) : FileAct → Option FdIdx
  | .openPath _ _ _ _ => s.fdAlloc
  | .close i _ => some i
  | .ftruncate i _ _ => some i
  | .write i _ _ _ _ => some i
  | .read i _ _ _ => some i
  | .seek i _ => some i
  | .dup _ new _ _ _ => some new

/-- The calls whose answers and memory `Meets` allows; the bytes of pages can
change between them. -/
inductive Run (s₀ : Client) : Client → Prop where
  | start : Run s₀ s₀
  | step {s : Client} {a : FileAct} (run : Run s₀ s) (met : s.Meets a) : Run s₀ (s.exec a).2
  | others {s : Client} (mem : Nat → Nat → Nat) (run : Run s₀ s) : Run s₀ { s with mem := mem }

theorem fileOf_eq {s s' : Client} (hfd : s'.fd j = s.fd j) (hfile : s'.file = s.file) :
    s'.fileOf j = s.fileOf j := by
  rw [fileOf, fileOf, hfd, hfile]

theorem Quiet.contents_eq (h : Quiet s s' e file) (hj : s.Other e file j q) :
    s'.contents j = s.contents j := by
  obtain ⟨hfd, hff, -, hpt⟩ := h.same j q hj
  rw [contents, contents, hfd, hj.2.1, Option.map_some, Option.map_some, hff]
  apply congrArg some
  funext o
  split
  · rename_i ho
    have hwin := inWindow_of_lt (i := j) ho
    have hpage := hpt _ hwin
    rw [byteAt, byteAt, hpage]
    cases hp : s.pt ((fd2data j + o) / 4096) with
    | none => rfl
    | some p =>
      dsimp only
      rw [h.kept p ⟨j, q, _, hj, hwin, hp⟩]
  · rfl

/-- What one call does. -/
structure Keeps (s s' : Client) (e : FdIdx) (files : Option Nat → Prop) : Prop where
  inv : Inv s'
  contents : ∀ j, s.fd j ≠ none → j ≠ e → ¬ files (s.fileOf j) → s'.contents j = s.contents j
  inside : ∀ v, InArea v → s'.pt v ≠ s.pt v → InWindow e maxfilesize v

theorem Quiet.keeps (h : Quiet s s' e file) (hs : Inv s) : Keeps s s' e (· = file) := by
  constructor
  · exact h.inv hs
  · intro j hopen hne hfile
    obtain ⟨q, hq⟩ := Option.ne_none_iff_exists'.mp hopen
    rw [fileOf_some hq] at hfile
    exact h.contents_eq ⟨hne, hq, hfile⟩
  · exact h.inside

theorem dup_keeps (hs : Inv s) {old new : FdIdx} {reply : Answer} {ok : Nat → Bool} {okFd : Bool}
    (hm : s.Meets (.dup old new reply ok okFd)) :
    Keeps s (s.dup old new reply ok okFd).2 new (fun f => f = s.fileOf old ∨ f = s.fileOf new) := by
  cases hold : s.fd old with
  | none =>
    have heq : (s.dup old new reply ok okFd).2 = s := by
      unfold dup
      rw [hold]
    rw [heq]
    exact ⟨hs, fun j _ _ _ => rfl, fun v _ hne => absurd rfl hne⟩
  | some q =>
    have hclose := (close_quiet hs hm.1).keeps hs
    have hdup := (dup_quiet hs hm hold).keeps hclose.inv
    obtain ⟨hfd, -, hfile⟩ := close_fd s new reply
    constructor
    · exact hdup.inv
    · intro j hopen hne hfiles
      rw [not_or] at hfiles
      have hfd' : (s.close new reply).2.fd j = s.fd j := by
        rw [hfd, Function.update_of_ne hne]
      have hcontents := hdup.contents j (by rw [hfd']; exact hopen) hne
        (by rw [fileOf_eq hfd' hfile]; exact hfiles.1)
      exact hcontents.trans (hclose.contents j hopen hne hfiles.2)
    · intro v hv hne
      by_cases hmid : (s.close new reply).2.pt v = s.pt v
      · rw [← hmid] at hne
        exact hdup.inside v hv hne
      · exact hclose.inside v hv hmid

/-- A call that meets its condition keeps the files apart. -/
theorem exec_keeps (hs : Inv s) {a : FileAct} (hm : s.Meets a) :
    Inv (s.exec a).2 ∧
    (∀ j, s.fd j ≠ none → s.Elsewhere j a → (s.exec a).2.contents j = s.contents j) ∧
      ∀ v, InArea v → (s.exec a).2.pt v ≠ s.pt v →
      ∃ e, s.target a = some e ∧ InWindow e maxfilesize v := by
  have key : ∀ {i : FdIdx} {s' : Client}, Quiet s s' i (s.fileOf i) → Inv s' ∧
      (∀ j, s.fd j ≠ none → s.fileOf j ≠ s.fileOf i → s'.contents j = s.contents j) ∧
      ∀ v, InArea v → s'.pt v ≠ s.pt v → ∃ e, some i = some e ∧ InWindow e maxfilesize v := by
    intro i s' h
    have hk := h.keeps hs
    refine ⟨hk.inv, ?_, fun v hv hne => ⟨i, rfl, hk.inside v hv hne⟩⟩
    intro j hopen hne
    exact hk.contents j hopen (fun hji => hne (by rw [hji])) hne
  cases a with
  | openPath reply ff file maps =>
    cases he : s.fdAlloc with
    | none =>
      have heq : (s.exec (.openPath reply ff file maps)).2 = s := by
        simp only [exec, openPath, he]
      rw [heq]
      exact ⟨hs, fun j _ _ => rfl, fun v _ hne => absurd rfl hne⟩
    | some e =>
      have hk := (openPath_quiet hs hm he).keeps hs
      refine ⟨hk.inv, ?_, fun v hv hne => ⟨e, he, hk.inside v hv hne⟩⟩
      intro j hopen hne
      apply hk.contents j hopen _ hne
      intro hje
      subst hje
      exact hopen (fdAlloc_free he)
  | close i reply => exact key (close_quiet hs hm)
  | ftruncate i size a => exact key (ftruncate_quiet hs hm)
  | write i buf n a fault => exact key (write_quiet hs hm)
  | read i buf n fault => exact key (read_quiet hs hm)
  | seek i offset => exact key (seek_quiet hs offset)
  | dup old new reply ok okFd =>
    have hk := dup_keeps hs hm
    refine ⟨hk.inv, ?_, fun v hv hne => ⟨new, rfl, hk.inside v hv hne⟩⟩
    intro j hopen hne
    exact hk.contents j hopen (fun hji => hne.2 (by rw [hji])) (not_or.mpr hne)

theorem inv_of_free (h : ∀ i, s.fd i = none) : Inv s := by
  constructor
  · intro i q hi
    rw [h i] at hi
    cases hi
  · intro i q j r hi
    rw [h i] at hi
    cases hi
  · intro i q j r v u p hi
    rw [h i] at hi
    cases hi

theorem run_inv {s₀ : Client} (free : ∀ i, s₀.fd i = none) (run : Run s₀ s) : Inv s := by
  induction run with
  | start => exact inv_of_free free
  | step run met ih => exact (exec_keeps ih met).1
  | others mem run ih => exact ⟨ih.size, ih.clear, ih.apart⟩

/-- The first `m` bytes of the area of `i` and the first `n` of that of `j` are different ones. -/
def DisjointData (i : FdIdx) (m : Nat) (j : FdIdx) (n : Nat) : Prop :=
  ∀ x, fd2data i ≤ x → x < fd2data i + m → fd2data j ≤ x → fd2data j + n ≤ x

/-- Areas of `MAXFILESIZE` bytes, which are two large pages. -/
theorem disjoint_maxfilesize_iff (i j : FdIdx) :
    DisjointData i maxfilesize j maxfilesize ↔ i.val + 1 < j.val ∨ j.val + 1 < i.val := by
  simp only [DisjointData, fd2data_eq, maxfilesize]
  constructor
  · intro h
    have hi := h (4096 * (0x60000 + 512 * i.val))
    have hj := h (4096 * (0x60000 + 512 * j.val))
    omega
  · intro h x
    omega

/-- In a run whose calls meet the condition, files of different descriptors have
different bytes, and a call changes no byte that is read through another one. -/
theorem file_windows {s₀ : Client} (free : ∀ i, s₀.fd i = none) (run : Run s₀ s) :
    (∀ i j q r, s.fd i = some q → s.fd j = some r → s.file q ≠ s.file r →
      (s.ff q).size ≤ maxfilesize ∧ DisjointData i (s.ff q).size j (s.ff r).size ∧
        (DisjointData i maxfilesize j maxfilesize ↔ i.val + 1 < j.val ∨ j.val + 1 < i.val)) ∧
    ∀ a, s.Meets a →
      (∀ j, s.fd j ≠ none → s.Elsewhere j a → (s.exec a).2.contents j = s.contents j) ∧
      ∀ v, InArea v → (s.exec a).2.pt v ≠ s.pt v →
      ∃ e, s.target a = some e ∧ InWindow e maxfilesize v := by
  have h := run_inv free run
  constructor
  · intro i j q r hi hj hne
    refine ⟨h.size i q hi, ?_, disjoint_maxfilesize_iff i j⟩
    intro x hlo hhi hlo'
    cases Nat.lt_trichotomy i.val j.val with
    | inl hlt =>
      have := h.clear i q j r hi hj hne hlt
      omega
    | inr hge =>
      cases hge with
      | inl heq =>
        rw [Fin.ext heq, hj] at hi
        exact absurd (congrArg s.file (Option.some.inj hi).symm) hne
      | inr hlt => exact h.clear j r i q hj hi hne.symm hlt |>.trans hlo
  · exact fun a hm => (exec_keeps h hm).2

/-- Nothing is open, and the bytes of a page are its number. -/
def unopened : Client := ⟨fun _ => none, fun p _ => p, fun _ => none, fun _ => .zero, fun _ => 0⟩

/-- A file of `size` bytes is opened, with the page `q` and blocks from `p` on. -/
def openFrom (q size file p : Nat) : FileAct :=
  .openPath ⟨0, q, fun p _ => p⟩ (Filefd.zero.setSize size) file fun k => ⟨0, p + k, fun p _ => p⟩

theorem not_other_of_free {s : Client} (free : ∀ i, s.fd i = none) (e : FdIdx)
    (file : Option Nat) (j : FdIdx) (q : Nat) : ¬ s.Other e file j q := by
  intro hj
  have := hj.2.1
  rw [free j] at this
  cases this

/-- The first file can be as large as any. -/
theorem unopened_meets {q size file p : Nat} (hsize : size ≤ maxfilesize) :
    unopened.Meets (openFrom q size file p) := by
  have hnone := not_other_of_free (s := unopened) fun _ => rfl
  have hforeign : ∀ e f r, ¬ unopened.Foreign e f r := by
    rintro e f r ⟨j, q', v, hj, -⟩
    exact hnone e f j q' hj
  intro e _
  refine ⟨fun r hr => absurd hr (hforeign _ _ r), fun _ => ⟨?_, ?_, ?_⟩⟩
  · intro j hj
    cases hj
  · rw [Filefd.setSize_size]
    constructor
    · exact hsize
    · exact fun j r hj => absurd hj (hnone _ _ j r)
    · exact fun v r _ _ => hforeign _ _ r
  · exact fun k _ => ⟨fun r hr => absurd hr (hforeign _ _ r), fun _ => hforeign _ _ _⟩

/-- A file of `size` bytes is open. -/
def oneFile (size : Nat) : Client := (unopened.exec (openFrom 1 size 1 1000)).2

theorem oneFile_run {size : Nat} (hsize : size ≤ maxfilesize) : Run unopened (oneFile size) :=
  Run.start.step (unopened_meets hsize)

theorem oneFile_pt (v : Nat) : (oneFile 4096).pt v = if v = 0x60000 then some 1000 else none := by
  have hpt : (oneFile 4096).pt = Function.update (fun _ => none) 0x60000 (some 1000) := rfl
  rw [hpt, Function.update_apply]

theorem oneFile_fd {j : FdIdx} {q : Nat} (h : (oneFile 4096).fd j = some q) : j = 0 ∧ q = 1 := by
  have hfd : (oneFile 4096).fd = Function.update (fun _ => none) 0 (some 1) := rfl
  rw [hfd, Function.update_apply] at h
  split at h
  · rename_i hj
    exact ⟨hj, (Option.some.inj h).symm⟩
  · cases h

theorem oneFile_foreign {e : FdIdx} {file : Option Nat} {p : Nat}
    (h : (oneFile 4096).Foreign e file p) : p = 1000 := by
  obtain ⟨j, q, v, -, -, hv⟩ := h
  rw [oneFile_pt] at hv
  split at hv
  · exact (Option.some.inj hv).symm
  · cases hv

/-- A second file is opened next to one of a page. -/
theorem oneFile_meets : (oneFile 4096).Meets (openFrom 2 4096 2 5000) := by
  intro e he
  have he1 : e = 1 := Option.some.inj (he.symm.trans (by decide +kernel))
  subst he1
  refine ⟨fun p hp => rfl, fun _ => ⟨?_, ?_, ?_⟩⟩
  · intro j hj
    cases (oneFile_fd hj).2
  · rw [Filefd.setSize_size]
    constructor
    · decide
    · intro j q hj
      obtain ⟨rfl, rfl⟩ := oneFile_fd hj.2.1
      exact ⟨fun _ => by decide +kernel, fun hlt => absurd hlt (by decide)⟩
    · intro v p hv hp
      rw [oneFile_pt, if_neg] at hp
      · cases hp
      · have h1 : ((1 : FdIdx) : Nat) = 1 := rfl
        rw [InWindow, fd2data_page, h1] at hv
        omega
  · intro k hk
    rw [Filefd.setSize_size, numPages] at hk
    refine ⟨fun p hp => rfl, fun _ hf => ?_⟩
    have hpage : 5000 + k = 1000 := oneFile_foreign hf
    omega

theorem file_windows_two_files :
    ((oneFile 4096).exec (openFrom 2 4096 2 5000)).2.contents 0 = (oneFile 4096).contents 0 := by
  apply ((file_windows (fun _ => rfl) (oneFile_run (by decide))).2 _ oneFile_meets).1 0
  · decide +kernel
  · show (oneFile 4096).fileOf 0 ≠ some 2
    decide +kernel

/-- Two megabytes and a page are open as 0. Another file is opened as 1, and the
byte at two megabytes is one of that file then. -/
theorem open_maps_over : ((oneFile (513 * 4096)).exec (openFrom 2 4096 2 5000)).1 = 1 ∧
    (oneFile (513 * 4096)).fd 0 ≠ none ∧
    (oneFile (513 * 4096)).Elsewhere 0 (openFrom 2 4096 2 5000) ∧
    ((oneFile (513 * 4096)).exec (openFrom 2 4096 2 5000)).2.contents 0 ≠
    (oneFile (513 * 4096)).contents 0 := by
  refine ⟨by decide +kernel, by decide +kernel, ?_, ?_⟩
  · show (oneFile (513 * 4096)).fileOf 0 ≠ some 2
    decide +kernel
  · intro hsame
    have hbyte := congrArg (fun c => c.map (· 0x200000)) hsame
    revert hbyte
    decide +kernel

end Client

end RiscvMos
