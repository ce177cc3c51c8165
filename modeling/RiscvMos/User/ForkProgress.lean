import RiscvMos.User.ForkSteps

/-!
How `fork` and `cow_entry` get on: the window of an env keeps showing its tables
while the kernel has pages for them, the loop of `fork` comes to the next page
that is there, and `memcpy` to the end of the page.
-/

namespace RiscvMos.Forks

open Pmap CopyOnWrite

section
variable {M K1 K0 : Nat → Prop} {s s' : Forks} {c e : EnvIdx} {m : Pmap EnvIdx} {k : Kernel}
    {cow child : Nat}

theorem exec_next (current : s.kernel.curenv = some c) (user : s.handler c = none) :
    s.exec cow .next = s.forkStep cow c (s.prog c) := by
  simp only [Forks.exec, current, Option.bind_eq_bind, Option.bind_some, user]

theorem exec_fork (current : s.kernel.curenv = some c) (at_ : s.prog c = .running)
    (user : s.handler c = none) : s.exec cow .fork = some (s.fork cow c) := by
  simp only [Forks.exec, current, Option.bind_eq_bind, Option.bind_some, at_, user]

theorem exec_handler (current : s.kernel.curenv = some c) {hd : Handler}
    (at_ : s.handler c = some hd) : s.exec cow .next = s.cowEntry c hd := by
  simp only [Forks.exec, current, Option.bind_eq_bind, Option.bind_some, at_]

/-- The env that `sys_exofork` has made. -/
theorem bear_new (new : Kernel.NewEnv s.kernel k e) :
    s.bear { s with kernel := k } =
      ({ s with kernel := k }.setProg e .born).setHandler e none := by
  have made : taken s.kernel k = some e := by
    unfold taken
    rw [new.list, List.length_cons, if_pos (Nat.lt_succ_self _)]
    rfl
  unfold bear
  rw [made]

/-! ## The window -/

/-- The calls of the next step, from a handler and a program, get the tables that they
need. -/
def tables (m : Pmap EnvIdx) (c : EnvIdx) : Option Handler → Prog → Prop
  | some (.looked _ perm), _ => m.AllocsAll c ucow (uInt perm)
  | some (.copying va perm _), _ => m.MapsAll c va (m.getPa c ucow) (uInt perm)
  | none, .looked child vpn perm => m.MapsAll (envx child) (vpn <<< 12)
    (m.getPa c (vpn <<< 12)) (uInt (if Writes perm then lentPerm perm else perm))
  | none, .lent _ vpn perm =>
    m.MapsAll c (vpn <<< 12) (m.getPa c (vpn <<< 12)) (uInt (lentPerm perm))
  | _, _ => True

instance : (h : Option Handler) → (prog : Prog) → Decidable (tables m c h prog)
  | some (.looked _ _), _ => inferInstanceAs (Decidable (AllocsAll _ _ _ _))
  | some (.copying _ _ _), _ => inferInstanceAs (Decidable (MapsAll _ _ _ _ _))
  | some (.entered _), _ | some (.mapped _), _ | some .panicked, _ =>
    inferInstanceAs (Decidable True)
  | none, .looked _ _ _ => inferInstanceAs (Decidable (MapsAll _ _ _ _ _))
  | none, .lent _ _ _ => inferInstanceAs (Decidable (MapsAll _ _ _ _ _))
  | none, .born | none, .running | none, .setting | none, .forking | none, .walking _ _
  | none, .called _ _ | none, .finishing _ => inferInstanceAs (Decidable True)

def Tabled (s : Forks) (c : EnvIdx) : Prop :=
  tables s.kernel.pmap c (s.handler c) (s.prog c)

instance (s : Forks) (c : EnvIdx) : Decidable (s.Tabled c) :=
  inferInstanceAs (Decidable (tables _ _ _ _))

theorem Inv.viewed (h : Inv M K1 K0 s) (current : s.kernel.curenv = some c)
    (mirrored : Mirrored c s.kernel.pmap) : Viewed M c s.kernel.pmap :=
  ⟨h.secure.guarded.consistent, h.secure.guarded.userApart, h.live current, mirrored⟩

/-- `sys_mem_map` of a page of the running env. -/
theorem Inv.map_mirrored (h : Inv M K1 K0 s) (current : s.kernel.curenv = some c)
    (mirrored : Mirrored c s.kernel.pmap)
    (counts : ∀ x p perm, s.place x = some (p, perm) → s.kernel.pmap.ppRef p < 65535)
    {va dstid dstva perm : Nat} {r : Int}
    (tabled : ∀ e, s.kernel.envid2env c dstid (s.kernel.envs c).envId = .ok e →
      s.kernel.pmap.MapsAll e dstva (s.kernel.pmap.getPa c va) (uInt perm))
    (hx : s.kernel.sysMemMap 0 va dstid dstva perm = .ok (r, k)) : Mirrored c k.pmap := by
  rcases Kernel.sysMemMap_ok hx with rfl |
    ⟨c', src, dst, m, hc', hsrc, hdst, legal, legal', there, map, rfl⟩
  · exact mirrored
  obtain rfl := Option.some.inj (hc'.symm.trans current)
  obtain rfl := Except.ok.inj hsrc
  have hva := Kernel.lt_ulim_of_not_illegal legal
  obtain ⟨a, view⟩ := view_of_isMappedPage (not_shared_of_user hva) there
  have count := counts (placeOf c' va) _ a ((place_of_view hva).trans view)
  have hdva := Kernel.lt_ulim_of_not_illegal legal'
  have step := MapStep.mapPageUser hdva hva there (tabled dst hdst) map
  refine ((h.viewed current mirrored).step ?_ step).mirrored
  exact count

/-- A word that `memcpy` copies goes to no table. -/
theorem Inv.word_mirrored (h : Inv M K1 K0 s) (current : s.kernel.curenv = some c)
    (mirrored : Mirrored c s.kernel.pmap) {va n : Nat} (lt : n < 1024)
    (word : copyWord s.kernel.pmap c va n = some m) : Mirrored c m := by
  obtain ⟨p, -, word⟩ := Option.bind_eq_some_iff.mp word
  obtain ⟨q, store, word⟩ := Option.bind_eq_some_iff.mp word
  obtain rfl := Option.some.inj word
  have to_lt : ucow + 4 * n < ulim := by
    unfold ucow ulim
    omega
  obtain ⟨a, there, -⟩ := translate_place (h.live current) to_lt store
  have apart : ¬ s.kernel.pmap.TablePage q := h.secure.guarded.userApart.place there
  exact mirrored.of_ent fun x _ => congrFun (writePage_ent apart _) x

/-- A step of `cow_entry`. -/
theorem Inv.cowEntry_mirrored (h : Inv M K1 K0 s) (current : s.kernel.curenv = some c)
    (mirrored : Mirrored c s.kernel.pmap) {hd : Handler} (at_ : s.handler c = some hd)
    (counts : ∀ x p perm, s.place x = some (p, perm) → s.kernel.pmap.ppRef p < 65535)
    (tabled : s.Tabled c) (out : s.cowEntry c hd = some s') : Mirrored c s'.kernel.pmap := by
  have viewed := h.viewed current mirrored
  unfold Tabled at tabled
  rw [at_] at tabled
  cases hd with
  | entered va =>
    obtain ⟨pte, -, out⟩ := Option.bind_eq_some_iff.mp out
    obtain rfl := Option.some.inj out
    exact mirrored
  | looked va perm =>
    obtain ⟨⟨r, s₁⟩, hcall, out⟩ := Option.bind_eq_some_iff.mp out
    obtain rfl := Option.some.inj out
    obtain ⟨k, hx, rfl⟩ := call_some.mp hcall
    rcases Kernel.sysMemAlloc_ok hx with rfl | ⟨c', e, m, hc', he, legal, alloc, rfl⟩
    · exact mirrored
    obtain rfl := Option.some.inj (hc'.symm.trans current)
    obtain rfl := Except.ok.inj he
    have step := MapStep.allocPageUser (show ucow < ulim by decide) tabled alloc
    refine (viewed.step ?_ step).mirrored
    trivial
  | copying va perm n =>
    by_cases lt : n < 1024
    · have out := (if_pos lt).symm.trans out
      obtain ⟨m, word, out⟩ := Option.bind_eq_some_iff.mp out
      obtain rfl := Option.some.inj out
      exact h.word_mirrored current mirrored lt word
    · have out := (if_neg lt).symm.trans out
      obtain ⟨⟨r, s₁⟩, hcall, out⟩ := Option.bind_eq_some_iff.mp out
      obtain rfl := Option.some.inj out
      obtain ⟨k, hx, rfl⟩ := call_some.mp hcall
      refine h.map_mirrored current mirrored counts (fun e he => ?_) hx
      obtain rfl := Except.ok.inj he
      exact tabled
  | mapped va =>
    obtain ⟨⟨r, s₁⟩, hcall, out⟩ := Option.bind_eq_some_iff.mp out
    obtain rfl := Option.some.inj out
    obtain ⟨k, hx, rfl⟩ := call_some.mp hcall
    rcases Kernel.sysMemUnmap_ok hx with rfl | ⟨c', e, m, hc', he, legal, unmap, rfl⟩
    · exact mirrored
    obtain rfl := Option.some.inj (hc'.symm.trans current)
    obtain rfl := Except.ok.inj he
    have step := MapStep.unmapPage (show ucow < ulim by decide) unmap
    refine (viewed.step ?_ step).mirrored
    trivial
  | panicked => cases out

/-- A step of `fork` or `duppage`. -/
theorem Inv.forkStep_mirrored (h : Inv M K1 K0 s) (current : s.kernel.curenv = some c)
    (user : s.handler c = none) (mirrored : Mirrored c s.kernel.pmap) (allowed : s.Allowed c .next)
    (tabled : s.Tabled c) (out : s.forkStep cow c (s.prog c) = some s') :
    Mirrored c s'.kernel.pmap := by
  obtain ⟨-, counts, succeeds⟩ := allowed
  have succeeds := succeeds user
  unfold Tabled at tabled
  rw [user] at tabled
  cases at_ : s.prog c with
  | born | running =>
    rw [at_] at out
    cases out
  | setting =>
    rw [at_] at out
    obtain ⟨⟨r, s₁⟩, hcall, out⟩ := Option.bind_eq_some_iff.mp out
    obtain rfl := Option.some.inj out
    obtain ⟨k, hx, rfl⟩ := call_some.mp hcall
    obtain ⟨envs, rfl, -⟩ := Kernel.sysSetTlbModEntry_ok hx
    exact mirrored
  | forking =>
    rw [at_] at out succeeds
    obtain ⟨room, asids, pages⟩ := succeeds
    obtain ⟨⟨r, s₁⟩, hcall, out⟩ := Option.bind_eq_some_iff.mp out
    obtain rfl := Option.some.inj out
    obtain ⟨k, hx, rfl⟩ := call_some.mp hcall
    obtain ⟨e, rest, list⟩ := List.exists_cons_of_ne_nil room
    have zero := h.freed e (by rw [list]; exact List.mem_cons_self)
    obtain ⟨-, new, -⟩ := h.secure.sysExofork list zero asids pages hx
    have other : c ≠ e := by
      rintro rfl
      exact h.live current zero
    rw [bear_new new]
    exact mirrored.of_ent fun x hx => new.ents x (by rw [hx]; exact other)
  | walking child vpn =>
    rw [at_] at out
    by_cases low : vpn < walkedPages
    · have out := (if_pos low).symm.trans out
      obtain ⟨mapped, -, out⟩ := Option.bind_eq_some_iff.mp out
      obtain rfl := Option.some.inj out
      exact mirrored
    · have out := (if_neg low).symm.trans out
      obtain ⟨⟨r, s₁⟩, hcall, out⟩ := Option.bind_eq_some_iff.mp out
      obtain rfl := Option.some.inj out
      obtain ⟨k, hx, rfl⟩ := call_some.mp hcall
      obtain ⟨envs, rfl, -⟩ := Kernel.sysSetTlbModEntry_ok hx
      exact mirrored
  | called child vpn =>
    rw [at_] at out
    obtain ⟨pte, -, out⟩ := Option.bind_eq_some_iff.mp out
    obtain rfl := Option.some.inj out
    exact mirrored
  | looked child vpn perm =>
    rw [at_] at out tabled
    obtain ⟨named, -, -⟩ := h.childBorn c child (by rw [at_]; rfl)
    -- the kernel's env for the id is the one that `fork` means
    have dst (perm' : Nat) (all : s.kernel.pmap.MapsAll (envx child) (vpn <<< 12)
          (s.kernel.pmap.getPa c (vpn <<< 12)) (uInt perm')) (e : EnvIdx)
        (he : s.kernel.envid2env c child (s.kernel.envs c).envId = .ok e) :
        s.kernel.pmap.MapsAll e (vpn <<< 12) (s.kernel.pmap.getPa c (vpn <<< 12))
          (uInt perm') := by
      rwa [← envx_of_named named he]
    by_cases writes : Writes perm
    · simp only [tables, if_pos writes] at tabled
      have out := (if_pos writes).symm.trans out
      obtain ⟨⟨r, s₁⟩, hcall, out⟩ := Option.bind_eq_some_iff.mp out
      obtain rfl := Option.some.inj out
      obtain ⟨k, hx, rfl⟩ := call_some.mp hcall
      exact h.map_mirrored current mirrored counts (dst _ tabled) hx
    · simp only [tables, if_neg writes] at tabled
      have out := (if_neg writes).symm.trans out
      obtain ⟨⟨r, s₁⟩, hcall, out⟩ := Option.bind_eq_some_iff.mp out
      obtain rfl := Option.some.inj out
      obtain ⟨k, hx, rfl⟩ := call_some.mp hcall
      exact h.map_mirrored current mirrored counts (dst _ tabled) hx
  | lent child vpn perm =>
    rw [at_] at out tabled
    obtain ⟨⟨r, s₁⟩, hcall, out⟩ := Option.bind_eq_some_iff.mp out
    obtain rfl := Option.some.inj out
    obtain ⟨k, hx, rfl⟩ := call_some.mp hcall
    refine h.map_mirrored current mirrored counts (fun e he => ?_) hx
    obtain rfl := Except.ok.inj he
    exact tabled
  | finishing child =>
    rw [at_] at out
    obtain ⟨⟨r, s₁⟩, hcall, out⟩ := Option.bind_eq_some_iff.mp out
    obtain ⟨k, hx, rfl⟩ := call_some.mp hcall
    obtain rfl := Option.some.inj out
    rcases Kernel.sysSetEnvStatus_wakes hx with ⟨rfl, -⟩ | ⟨rfl, c', e, q, -, -, rfl⟩
    · split <;> exact mirrored
    · exact mirrored

/-- The window of the running env shows its tables after each step of `fork`, `duppage` and
`cow_entry` that finds the pages for its tables. -/
theorem Inv.next_mirrored (h : Inv M K1 K0 s) (current : s.kernel.curenv = some c)
    (mirrored : Mirrored c s.kernel.pmap) (allowed : s.Allowed c .next) (tabled : s.Tabled c)
    (out : s.exec cow .next = some s') : Mirrored c s'.kernel.pmap := by
  cases user : s.handler c with
  | none =>
    rw [exec_next current user] at out
    exact h.forkStep_mirrored current user mirrored allowed tabled out
  | some hd =>
    rw [exec_handler current user] at out
    exact h.cowEntry_mirrored current mirrored user allowed.2.1 tabled out

/-- An access, where a fault gives a page and finds the pages for its tables. -/
theorem Inv.access_mirrored (h : Inv M K1 K0 s) (current : s.kernel.curenv = some c)
    (mirrored : Mirrored c s.kernel.pmap) {cause : Fault} {va w : Nat} {tf : Trapframe}
    (hva : va < ulim) (set : s.kernel.pmap.ent (.pte1 c 3 3) ≠ none)
    (gives : s.kernel.pmap.translate c cause va = none → ∃ v perm,
      s.kernel.pmap.faultGives c cause va = some (v, perm) ∧ s.kernel.pmap.AllocsAll c v perm)
    (out : s.access cow c cause va w tf = some s') : Mirrored c s'.kernel.pmap := by
  cases goes : s.kernel.pmap.translate c cause va with
  | none =>
    obtain ⟨up, m, handle, -, rfl⟩ := access_faults current goes out
    obtain ⟨v, perm, page, tables⟩ := gives goes
    have step := MapStep.fault (.inl hva) set goes page tables handle
    refine ((h.viewed current mirrored).step ?_ step).mirrored
    trivial
  | some p =>
    obtain ⟨a, there, -⟩ := translate_place (h.live current) hva goes
    have apart : ¬ s.kernel.pmap.TablePage p := h.secure.guarded.userApart.place there
    unfold Forks.access at out
    rw [goes] at out
    obtain rfl := Option.some.inj out
    split
    · exact mirrored.of_ent fun x _ => congrFun (writePage_ent apart _) x
    · exact mirrored

/-! ## Loops -/

/-- `P` goes on to hold while `c` is in `fork` for the same child, or in none. -/
def Keeps (cow : Nat) (c : EnvIdx) (P : Forks → Prop) : Prop :=
  ∀ s s', P s → s.kernel.curenv = some c → s.Allowed c .next → s.exec cow .next = some s' →
    (s'.prog c).child = (s.prog c).child → P s'

/-- The loop of `fork` passes the pages that are not there. -/
theorem walk_unmapped {P : Forks → Prop} (keeps : Keeps cow c P)
    (current : s.kernel.curenv = some c) (user : s.handler c = none)
    (agrees : SelfMapAgrees s.kernel.pmap c)
    (counts : ∀ x p perm, s.place x = some (p, perm) → s.kernel.pmap.ppRef p < 65535)
    {a b : Nat} (start : P (s.setProg c (.walking child a))) (low : b ≤ walkedPages) (le : a ≤ b)
    (empty : ∀ v, a ≤ v → v < b → s.place (c, v) = none) :
    P (s.setProg c (.walking child b)) := by
  induction b, le using Nat.le_induction with
  | base => exact start
  | succ v hv ih =>
    have before := ih (Nat.le_of_succ_le low) fun w ha hb => empty w ha (Nat.lt_succ_of_lt hb)
    have hva := shift_lt (Nat.lt_of_succ_le low)
    have unmapped : s.kernel.pmap.isMappedPage c (v <<< 12) = false := by
      rw [isMappedPage_eq (not_shared_of_user hva), ← place_of_view hva, placeOf_shift]
      exact congrArg Option.isSome (empty v hv (Nat.lt_succ_self v))
    refine keeps _ _ before current ⟨agrees, counts, fun _ => ?_⟩ ?_ ?_
    · rw [setProg_prog]
      trivial
    · rw [exec_next (s := s.setProg c (.walking child v)) current user, setProg_prog]
      have twice : (s.setProg c (.walking child v)).setProg c (.walking child (v + 1)) =
          s.setProg c (.walking child (v + 1)) := by
        unfold setProg
        rw [Function.update_idem]
      refine (if_pos (Nat.lt_of_succ_le low)).trans ?_
      refine Option.bind_eq_some_iff.mpr ⟨false, ?_, congrArg some twice⟩
      exact (agrees.isMapped _ hva).trans (congrArg some unmapped)
    · rw [setProg_prog, setProg_prog]
      rfl

/-- A page of a place that the hardware lets be used so. -/
theorem place_translate {cause : Fault} {va p perm : Nat} (hva : va < ulim)
    (here : m.place (placeOf c va) = some (p, perm)) (permitted : permits perm cause) :
    m.translate c cause va = some p := by
  rw [place_of_view hva] at here
  have hv := not_shared_of_user hva
  have mapped : m.isMappedPage c va = true := by
    rw [isMappedPage_eq hv, here]
    rfl
  obtain ⟨hd, t0, -, -, leaf⟩ := exists_leafPte mapped
  have low : canonical va := .inl (Nat.lt_trans hva (by decide))
  obtain ⟨rfl, rfl⟩ := Prod.mk.inj (Option.some.inj (here.symm.trans (ent_of_leafPte hd hv leaf)))
  have ok := (permits_perm _ cause).mp permitted
  simp only [Pmap.translate, low, leaf, ok, if_true]

/-- `cow_entry` of `c` after `n` words of `memcpy`, when the copy holds `f`. -/
def copying (s : Forks) (c : EnvIdx) (va perm q n : Nat) (f : Vpn → Nat) : Forks :=
  { s with kernel := { s.kernel with pmap := s.kernel.pmap.writePage q f } }.setHandler c
    (some (.copying va perm n))

/-- A page to copy, and the page at `UCOW` to copy it to. -/
structure CopyPages (m : Pmap EnvIdx) (c : EnvIdx) (va p q : Nat) : Prop where
  user : va < ulim
  src : ∃ a, m.place (placeOf c va) = some (p, a) ∧ permits a .load
  dst : ∃ a, m.place (c, ucowPage) = some (q, a) ∧ permits a .store
  apart : ¬ m.TablePage q
  ne : p ≠ q

theorem setPte_writePage (q w : Nat) (f : Vpn → Nat) (i : Vpn) :
    (m.writePage q f).setPte q i w = m.writePage q (Function.update f i w) := by
  unfold setPte writePage
  simp only [Function.update_self, Function.update_idem]

theorem CopyPages.written {va p q : Nat} (h : CopyPages m c va p q) (f : Vpn → Nat) :
    CopyPages (m.writePage q f) c va p q := by
  have same := writePage_place h.apart f
  obtain ⟨a, src, reads⟩ := h.src
  obtain ⟨b, dst, writes⟩ := h.dst
  refine ⟨h.user, ⟨a, (same _).trans src, reads⟩, ⟨b, (same _).trans dst, writes⟩, ?_, h.ne⟩
  rintro ⟨x, table, leads⟩
  exact h.apart ⟨x, table, by rw [← leads, tgt_eq_of_ent (writePage_ent h.apart f)]⟩

/-- Word `n` of the copy. -/
theorem CopyPages.word {va p q n : Nat} (h : CopyPages m c va p q) (lt : n < 1024) :
    copyWord m c va n = some (m.setPte q (wordIdx (ucow + 4 * n))
      (copyHalf (m.mem q (wordIdx (ucow + 4 * n))) (m.mem p (wordIdx (ucow + 4 * n))) n)) := by
  obtain ⟨a, src, reads⟩ := h.src
  obtain ⟨b, dst, writes⟩ := h.dst
  have user := h.user
  have from_lt : va / 4096 * 4096 + 4 * n < ulim := by
    unfold ulim at user ⊢
    omega
  have to_lt : ucow + 4 * n < ulim := by
    unfold ucow ulim
    omega
  have from_ : placeOf c (va / 4096 * 4096 + 4 * n) = placeOf c va := by
    unfold placeOf
    congr 1
    omega
  have to_ : placeOf c (ucow + 4 * n) = (c, ucowPage) := by
    unfold placeOf ucowPage ucow
    congr 1
    omega
  have load : m.translate c .load (va / 4096 * 4096 + 4 * n) = some p := by
    refine place_translate from_lt ?_ reads
    rw [from_]
    exact src
  have store : m.translate c .store (ucow + 4 * n) = some q := by
    refine place_translate to_lt ?_ writes
    rw [to_]
    exact dst
  have idx : wordIdx (va / 4096 * 4096 + 4 * n) = wordIdx (ucow + 4 * n) := by
    apply Fin.ext
    rw [Nat.mul_comm, wordIdx_page lt, show ucow + 4 * n = 4096 * ucowPage + 4 * n from rfl,
      wordIdx_page lt]
  simp only [copyWord, load, store, idx, Option.bind_eq_bind, Option.bind_some, storeWord]

/-- `memcpy` comes to the end of the page. -/
theorem copy_page {P : Forks → Prop} (keeps : Keeps cow c P) (current : s.kernel.curenv = some c)
    (live : s.kernel.pmap.pgdir c ≠ 0) (mirrored : Mirrored c s.kernel.pmap)
    (counts : ∀ x p perm, s.place x = some (p, perm) → s.kernel.pmap.ppRef p < 65535)
    {va perm p q : Nat} (pages : CopyPages s.kernel.pmap c va p q)
    (at_ : s.handler c = some (.copying va perm 0)) (start : P s) :
    P (s.copying c va perm q 1024 (s.kernel.pmap.mem p)) := by
  have words : ∀ n ≤ 1024, ∃ f, P (s.copying c va perm q n f) ∧
      Copied (s.kernel.pmap.writePage q f) p q n := by
    intro n
    induction n with
    | zero =>
      intro _
      refine ⟨s.kernel.pmap.mem q, ?_, fun i => ⟨fun lt => absurd lt (Nat.not_lt_zero _),
        fun lt => absurd lt (Nat.not_lt_zero _)⟩⟩
      have same : s.copying c va perm q 0 (s.kernel.pmap.mem q) = s := by
        unfold copying setHandler writePage
        simp only [Function.update_eq_self, ← at_]
      rwa [same]
    | succ n ih =>
      intro le
      obtain ⟨f, before, copied⟩ := ih (Nat.le_of_succ_le le)
      have lt : n < 1024 := le
      have word := (pages.written f).word lt
      have to_idx : (wordIdx (ucow + 4 * n)).val = n / 2 := by
        rw [show ucow + 4 * n = 4096 * ucowPage + 4 * n from rfl, wordIdx_page lt]
      have next := copied.next pages.ne to_idx
      generalize copyHalf _ _ n = w at word next
      rw [setPte_writePage] at word next
      refine ⟨Function.update f (wordIdx (ucow + 4 * n)) w,
        keeps _ _ before current ⟨?_, fun x r a there => ?_, fun user => ?_⟩ ?_ rfl, next⟩
      · have mirrored : Mirrored c (s.kernel.pmap.writePage q f) :=
          mirrored.of_ent fun x _ => congrFun (writePage_ent pages.apart f) x
        exact mirrored.agrees live
      · exact counts x r a ((writePage_place pages.apart f x).symm.trans there)
      · cases (Function.update_self _ _ _).symm.trans user
      · have here : (s.copying c va perm q n f).handler c = some (.copying va perm n) :=
          Function.update_self _ _ _
        rw [exec_handler (s := s.copying c va perm q n f) current here]
        refine (if_pos lt).trans (Option.bind_eq_some_iff.mpr ⟨_, word, ?_⟩)
        unfold copying setHandler
        simp only [Function.update_idem]
  obtain ⟨f, done, copied⟩ := words 1024 le_rfl
  have whole := copied.whole le_rfl
  unfold writePage at whole
  simp only [Function.update_self, Function.update_of_ne pages.ne] at whole
  rwa [← whole]

end

end RiscvMos.Forks
