import RiscvMos.Env.Places
import RiscvMos.Env.Readonly
import RiscvMos.Env.Known
import RiscvMos.Env.Setup
import RiscvMos.Env.Teardown

/-!
The system calls of `fork` and `cow_entry`. `sys_exofork` gives the first free
env a directory of its own, whose window shows it and whose user half is empty;
the pages of all other envs stay where they are.
-/

namespace RiscvMos.Pmap

variable {D : Type} [Fintype D] [DecidableEq D] {M K1 K0 : Nat → Prop} {G : D → Nat → Prop}
    {s s₁ s₂ s' : Pmap D} {d : D}

omit [Fintype D] in
theorem setPgdir_same (h : s.pgdir d = 0) : s.setPgdir d 0 = s := by
  unfold setPgdir
  rw [← h, Function.update_eq_self]

/-- A root table of its own, for a directory without one. -/
theorem Guarded.allocPgdir (h : Guarded M K1 K0 G s) (hd : s.pgdir d = 0)
    (ha : s.allocPgdir d = .ok (0, s')) :
    Guarded M K1 K0 G s' ∧ ∀ d', d' ≠ d → s'.pgdir d' = s.pgdir d' := by
  obtain ⟨consistent, frame, pp, hent, -⟩ := allocPgdir_spec h.consistent hd ha
  obtain ⟨q, rest, -, rfl⟩ : ∃ q rest, s.pageFreeList = q :: rest ∧ s' = s.rooted d q rest := by
    cases hl : s.pageFreeList with
    | nil => simp [Pmap.allocPgdir, pageAlloc, hl, eNoMem] at ha
    | cons q rest =>
      rw [allocPgdir_eq hl] at ha
      exact ⟨q, rest, rfl, (Prod.mk.inj (Except.ok.inj ha)).2.symm⟩
  have others : ∀ d', d' ≠ d → (s.rooted d q rest).pgdir d' = s.pgdir d' := fun d' ne =>
    Function.update_of_ne ne _ _
  have leaf (d' : D) (i j k : Vpn) :
      (s.rooted d q rest).ent (.pte0 d' i j k) = s.ent (.pte0 d' i j k) :=
    frame.ent_eq _ (by rintro ⟨⟩)
  have mem0 {t : Nat} (ht : K0 t) : (s.rooted d q rest).mem t = s.mem t :=
    frame.kernel t (h.kernel.own0 t ht)
  have mem1 {t : Nat} (ht : K1 t) : (s.rooted d q rest).mem t = s.mem t :=
    frame.kernel t (h.kernel.own1 t ht)
  have apart {d' : D} {i j k : Vpn} {p perm : Nat} (there : s.ent (.pte0 d' i j k) = some (p, perm))
      (no : ¬ s.TablePage p) : ¬ (s.rooted d q rest).TablePage p :=
    (frame.data _ p (by rintro ⟨⟩) (tgt_eq_some.mpr ⟨perm, there⟩) no).2
  refine ⟨⟨consistent, ⟨fun d' i hd' hi hv => ?_, fun t j ht hv => ?_, fun t i ht => ?_,
    h.kernel.levels, h.kernel.own1, h.kernel.own0⟩, fun t i ht => ?_, fun d' va hva p hp => ?_,
    fun d' j k p perm he => ?_, fun d' i j k p perm he hu hw => ?_⟩, others⟩
  · by_cases eq : d' = d
    · rw [eq, rooted_pgdir, page2pa_shift, rooted_mem_new] at hv
      exact absurd hv not_valid_zero
    · rw [others d' eq] at hd' hv ⊢
      have root : s.tgt (.root d') = some (s.pgdir d' >>> 12) := by simp [tgt, ent, ent.root, hd']
      rw [frame.sharedEntry d' _ i root hi] at hv ⊢
      exact h.kernel.table1 d' i hd' hi hv
  · rw [mem1 ht] at hv ⊢
    exact h.kernel.table0 t j ht hv
  · rw [mem0 ht]
    exact h.kernel.user t i ht
  · rw [mem0 ht]
    exact h.readonly t i ht
  · obtain ⟨perm, he⟩ := tgt_eq_some.mp hp
    rw [leafSlot, leaf] at he
    exact apart he (h.userApart d' va hva p (tgt_eq_some.mpr ⟨perm, he⟩))
  · rw [leaf] at he
    exact h.noCow d' j k p perm he
  · rw [leaf] at he
    obtain ⟨no, granted⟩ := h.granted d' i j k p perm he hu hw
    exact ⟨apart he no, granted⟩

/-- The root table of a directory, in its window. -/
theorem Guarded.window (h : Guarded M K1 K0 G s) (hd : s.pgdir d ≠ 0) (consistent : Consistent M s')
    (hx : s.mapPage d Kernel.rootWindow (s.pgdir d) (pteR ||| pteU) = .ok (0, s')) :
    Guarded M K1 K0 G s' := by
  have hlt : Kernel.rootWindow < 2 ^ 39 := by decide
  obtain ⟨frame, hent, but, -⟩ := mapPage_spec h.consistent hlt (by decide) hx
  refine h.leaf hlt hd consistent (frame.mono fun x hx => .inl hx) but (fun _ _ hg _ => hg)
    fun p perm he => ?_
  obtain ⟨-, rfl⟩ := Prod.mk.inj (Option.some.inj ((hent rfl).symm.trans he))
  refine ⟨fun lt => absurd lt (by decide), fun _ => by decide, fun _ w => absurd w (by decide)⟩

end RiscvMos.Pmap

namespace RiscvMos.Kernel

open Pmap

section
variable {M K1 K0 : Nat → Prop} {G : Grants} {k k' : Kernel} {c e : EnvIdx} {r : Int}
    {rest : List EnvIdx}

/-- What the pages are for does not matter here. -/
theorem Secure.granted (h : Secure M K1 K0 G k) : Secure M K1 K0 (fun _ _ => True) k :=
  h.step (h.guarded.regrant fun _ _ _ _ => trivial) (.refl _)

/-- A store that the hardware makes. -/
theorem Secure.store (h : Secure M K1 K0 (fun _ _ => True) k) (hc : k.curenv = some c) {va p : Nat}
    (goes : k.pmap.translate c .store va = some p) (w : Nat) :
    Secure M K1 K0 (fun _ _ => True) { k with pmap := k.pmap.storeWord p va w } := by
  have done : k.access .store va w (fun _ => 0) =
      .ok { k with pmap := k.pmap.storeWord p va w } := by
    unfold Kernel.access
    split
    · rename_i none_
      cases hc.symm.trans none_
    · rename_i e he
      obtain rfl := Option.some.inj (he.symm.trans hc)
      rw [goes]
      rfl
  refine (h.access (fun e he faults => ?_) done).granted
  obtain rfl := Option.some.inj (he.symm.trans hc)
  rw [goes] at faults
  cases faults

/-- Only the env table changes. -/
theorem Secure.envs (h : Secure M K1 K0 G k) (hp : k'.pmap = k.pmap)
    (hb : k'.basePgdir = k.basePgdir)
    (live : ∀ e, (k'.envs e).envStatus ≠ .free →
      k.pmap.pgdir e ≠ 0 ∧ k.pmap.ent (.pte1 e 3 3) ≠ none)
    (cur : ∀ c, k'.curenv = some c → (k'.envs c).envStatus ≠ .free ∧
      ∀ i, shared i → valid (k.pmap.mem (k.pmap.pgdir c >>> 12) i)) : Secure M K1 K0 G k' := by
  refine ⟨by rw [hp]; exact h.guarded, by rw [hb]; exact h.baseApart, fun i hi => ?_, ?_, ?_⟩
  · simp only [baseEntry, hp, hb]
    exact h.base i hi
  · rw [hp]
    exact live
  · rw [hp]
    exact cur

/-- The two calls of `env_setup_vm`. -/
theorem Secure.newDir (h : Secure M K1 K0 G k) (hd : k.pmap.pgdir e = 0) {s₁ s₂ : Pmap EnvIdx}
    (hroot : k.pmap.allocPgdir e = .ok (0, s₁))
    (hwin : s₁.mapPage e rootWindow (s₁.pgdir e) (pteR ||| pteU) = .ok (0, s₂)) :
    Secure M K1 K0 G { k with pmap := s₂ } ∧ s₂.ent (.pte1 e 3 3) ≠ none ∧
      (∀ d, d ≠ e → k.pmap.pgdir d = 0 → s₂.pgdir d = 0) ∧
      (∀ x, s₂.place x = k.pmap.place x) ∧
      (∀ x p perm, k.pmap.place x = some (p, perm) → s₂.mem p = k.pmap.mem p) ∧
      ∀ x, x.dir ≠ e → s₂.ent x = k.pmap.ent x := by
  have hs := h.guarded.consistent
  have hu := h.guarded.userApart
  obtain ⟨hs₂, hu₂, window, kept⟩ := newDir_spec hs hu hd hroot hwin
  obtain ⟨guarded₁, roots₁⟩ := h.guarded.allocPgdir hd hroot
  obtain ⟨-, frame₁, pp, hent₁, -⟩ := allocPgdir_spec hs hd hroot
  have hd₁ : s₁.pgdir e ≠ 0 := by
    intro zero
    have none_ := ent_none_of_pgdir (s := s₁) (.root e) zero
    rw [hent₁, Function.update_self] at none_
    cases none_
  obtain ⟨frame₂, -⟩ := mapPage_spec guarded₁.consistent (by decide) (by decide) hwin
  have sameRoots : SameRoots s₁ s₂ := by
    refine sameRoots_of_frame frame₂ fun d' hd' => ?_
    have : d' = e := by simpa [OnPath, leafSlot] using hd'
    rw [this]
    exact hd₁
  have mem {p : Nat} (hp : ¬ M p) : s₂.mem p = k.pmap.mem p :=
    (frame₂.kernel p hp).trans (frame₁.kernel p hp)
  have off₁ (d : EnvIdx) (va : Nat) (hva : va < ulim) : ¬ leafSlot d va = .root e := by
    simp [leafSlot]
  have off₂ (d : EnvIdx) (va : Nat) (hva : va < ulim) : ¬ OnPath e rootWindow (leafSlot d va) := by
    have ne := vpn2_ne_three_of_user hva
    rintro (eq | eq | eq | eq)
    · cases eq
    · cases eq
    · cases eq
    · simp only [leafSlot, Slot.pte0.injEq] at eq
      exact ne eq.2.1
  obtain ⟨place₁, data₁⟩ := Frame.places hu frame₁ off₁
  obtain ⟨place₂, data₂⟩ := Frame.places guarded₁.userApart frame₂ off₂
  refine ⟨⟨guarded₁.window hd₁ hs₂ hwin, h.baseApart, fun i hi => ?_, fun x hx => ?_,
    fun c hc => ?_⟩, window, fun d ne zero => ?_, fun x => (place₂ x).trans (place₁ x),
    fun x p perm here => ?_, fun x ne => ?_⟩
  · have same : Kernel.baseEntry { k with pmap := s₂ } i = k.baseEntry i :=
      congrFun (mem h.baseApart.1) i
    rw [same]
    exact h.base i hi
  · have here := kept x (h.live x hx).2
    exact ⟨live_of_window here, here⟩
  · obtain ⟨hst, entries⟩ := h.cur c hc
    refine ⟨hst, fun i hi => ?_⟩
    have hdc := (h.live c hst).1
    have ne : c ≠ e := by
      rintro rfl
      exact hdc hd
    have root : k.pmap.tgt (.root c) = some (k.pmap.pgdir c >>> 12) := by
      simp [tgt, ent, ent.root, hdc]
    have root₁ : s₁.tgt (.root c) = some (k.pmap.pgdir c >>> 12) :=
      frame₁.table _ _ trivial root
    show valid (s₂.mem (s₂.pgdir c >>> 12) i)
    rw [(sameRoots c).2, roots₁ c ne, frame₂.sharedEntry c _ i root₁ hi,
      frame₁.sharedEntry c _ i root hi]
    exact entries i hi
  · rw [(sameRoots d).1, roots₁ d ne]
    exact zero
  · rw [data₂ x p perm ((place₁ x).trans here), data₁ x p perm here]
  · rw [frame₂.ent_eq x fun path => ne ?_, frame₁.ent_eq x fun root => ne ?_]
    · rw [root]
      rfl
    · rcases path with rfl | rfl | rfl | rfl <;> rfl

theorem mkenvid_mod (i : Nat) (e : EnvIdx) : mkenvid i e % 1024 = e.val := by
  have low : uInt (i <<< 11) % 2 ^ 10 = 0 := by
    rw [uInt, Nat.shiftLeft_eq]
    omega
  have split := Nat.or_mod_two_pow (a := uInt (i <<< 11)) (b := e.val) (n := 10)
  rw [low, Nat.zero_or] at split
  exact split.trans (Nat.mod_eq_of_lt e.isLt)

theorem mkenvid_lt (i : Nat) (e : EnvIdx) : mkenvid i e < 2 ^ 32 :=
  Nat.or_lt_two_pow (Nat.mod_lt _ (by decide)) (e.isLt.trans (by decide))

/-- `e` is a new env, with an empty user half; the memory of the others is as it was. -/
structure NewEnv (k k' : Kernel) (e : EnvIdx) : Prop where
  id : (k'.envs e).envId < 2 ^ 32 ∧ (k'.envs e).envId % 1024 = e.val
  list : k.envFreeList = e :: k'.envFreeList
  cur : k'.curenv = k.curenv
  others : ∀ x, x ≠ e → k'.envs x = k.envs x
  window : k'.pmap.ent (.pte1 e 3 3) ≠ none
  place : ∀ x, k'.pmap.place x = k.pmap.place x
  data : ∀ x p perm, k.pmap.place x = some (p, perm) → k'.pmap.mem p = k.pmap.mem p
  roots : ∀ d, d ≠ e → k.pmap.pgdir d = 0 → k'.pmap.pgdir d = 0
  ents : ∀ x, x.dir ≠ e → k'.pmap.ent x = k.pmap.ent x

theorem NewEnv.setRootEntry (h : NewEnv k k' e) (secure : Secure M K1 K0 G k') {i : Vpn}
    (hi : shared i) (w : Nat) : NewEnv k (k'.setRootEntry e i w) e := by
  have hs := secure.guarded.consistent
  have live := live_of_window h.window
  have stays := Stays.setShared hs secure.guarded.userApart live hi w
  refine ⟨h.id, h.list, h.cur, h.others, ?_, fun x => (stays.place x).trans (h.place x),
    fun x p perm here => ?_, fun d ne zero => stays.roots d (h.roots d ne zero), fun x ne => ?_⟩
  · rw [Kernel.setRootEntry, ent_setShared hs.distinct live hi w]
    exact h.window
  · exact (stays.data x p perm ((h.place x).trans here)).trans (h.data x p perm here)
  · rw [Kernel.setRootEntry, ent_setShared hs.distinct live hi w]
    exact h.ents x ne

theorem NewEnv.setEnv (h : NewEnv k k' e) {v : Env} (id : v.envId = (k'.envs e).envId) :
    NewEnv k (k'.setEnv e v) e := by
  refine ⟨?_, h.list, h.cur, fun x ne => ?_, h.window, h.place, h.data, h.roots, h.ents⟩
  · rw [setEnv_envs, Function.update_self, id]
    exact h.id
  · rw [setEnv_envs, Function.update_of_ne ne]
    exact h.others x ne

theorem NewEnv.setStatus (h : NewEnv k k' e) (st : EnvStatus) : NewEnv k (k'.setStatus e st) e :=
  h.setEnv rfl

/-- `env_alloc`, with an env, an ASID and three pages. -/
theorem Secure.envAlloc (h : Secure M K1 K0 G k) (hl : k.envFreeList = e :: rest)
    (hd : k.pmap.pgdir e = 0) (asids : k.asidAlloc ≠ none)
    (pages : 3 ≤ k.pmap.pageFreeList.length) {parentId : Nat} {a : Except Int EnvIdx}
    (hx : k.envAlloc parentId = .ok (a, k')) :
    a = .ok e ∧ Secure M K1 K0 G k' ∧ NewEnv k k' e := by
  rcases envAlloc_cases hx with ⟨none_, -⟩ | ⟨-, -, -, none_, -⟩ |
    ⟨e', rest', asid, k₁, hl', -, rfl, hsetup, rfl⟩
  · rw [none_] at hl
    cases hl
  · exact absurd none_ asids
  obtain ⟨rfl, rfl⟩ := List.cons.inj (hl'.symm.trans hl)
  have claimed_pmap : (k.claimed e' asid parentId).pmap = k.pmap := setPgdir_same hd
  -- with three pages both calls of `env_setup_vm` return 0
  obtain ⟨p, q, t, pages', free⟩ : ∃ p q t pages', k.pmap.pageFreeList = p :: q :: t :: pages' := by
    rcases hp : k.pmap.pageFreeList with _ | ⟨p, _ | ⟨q, _ | ⟨t, pages'⟩⟩⟩
    · rw [hp] at pages
      exact absurd pages (by decide)
    · rw [hp] at pages
      exact absurd pages (by decide : ¬ 3 ≤ 1)
    · rw [hp] at pages
      exact absurd pages (by decide : ¬ 3 ≤ 2)
    · exact ⟨p, q, t, pages', rfl⟩
  have ram : inRam p := by
    have hs := h.guarded.consistent
    exact hs.ram p (hs.counted.free_sub p (by rw [free]; exact List.mem_cons_self))
  obtain ⟨⟨r₁, s₁⟩, hroot, hsetup⟩ := Except.bind_ok_iff.mp hsetup
  obtain ⟨⟨r₂, s₂⟩, hwin, hsetup⟩ := Except.bind_ok_iff.mp hsetup
  obtain rfl := Except.ok.inj hsetup
  have root := allocPgdir_eq (s := (k.claimed e' asid parentId).pmap) (d := e')
    (by rw [claimed_pmap]; exact free)
  obtain ⟨rfl, rfl⟩ := Prod.mk.inj (Except.ok.inj (hroot.symm.trans root))
  have hwin' := hwin
  rw [rooted_pgdir, mapPage_rootWindow rooted_pgdir ram rooted_mem_new] at hwin'
  obtain ⟨rfl, -⟩ := Prod.mk.inj (Except.ok.inj hwin')
  -- what the claim of the env does not change
  have status : ∀ x, ((k.claimed e' asid parentId).envs x).envStatus = (k.envs x).envStatus := by
    intro x
    by_cases eq : x = e'
    · rw [eq, claimed_self]
    · rw [claimed_other eq]
  have h₀ : Secure M K1 K0 G (k.claimed e' asid parentId) :=
    h.sched claimed_pmap rfl status fun c hc => h.cur c hc
  obtain ⟨h₂, window, roots, place, data, ents⟩ :=
    h₀.newDir (by rw [claimed_pmap]; exact hd) hroot hwin
  have live := live_of_window window
  have new : NewEnv k { k.claimed e' asid parentId with pmap := s₂, envFreeList := rest' } e' := by
    refine ⟨?_, hl, rfl, fun x ne => claimed_other ne, window, ?_, ?_, ?_, ?_⟩
    · show ((k.claimed e' asid parentId).envs e').envId < 2 ^ 32 ∧ _
      rw [claimed_self]
      exact ⟨mkenvid_lt _ _, mkenvid_mod _ _⟩
    · rw [← claimed_pmap]
      exact place
    · rw [← claimed_pmap]
      exact data
    · rw [← claimed_pmap]
      exact roots
    · rw [← claimed_pmap]
      exact ents
  have h₃ : Secure M K1 K0 G
      { k.claimed e' asid parentId with pmap := s₂, envFreeList := rest' } :=
    h₂.envs rfl rfl h₂.live h₂.cur
  have base := h₃.base 4 (.inr rfl)
  refine ⟨rfl, h₃.setRootEntry live (.inr rfl) (valid_or_pteV _) ?_,
    new.setRootEntry h₃ (.inr rfl) _⟩
  rw [ptePage_or_pteV]
  exact base.2

theorem Secure.sysExofork (h : Secure M K1 K0 G k) (hl : k.envFreeList = e :: rest)
    (hd : k.pmap.pgdir e = 0) (asids : k.asidAlloc ≠ none)
    (pages : 3 ≤ k.pmap.pageFreeList.length) (hx : k.sysExofork = .ok (r, k')) :
    Secure M K1 K0 G k' ∧ NewEnv k k' e ∧ (k'.envs e).envStatus = .notRunnable ∧
      r = uIntToInt (k'.envs e).envId := by
  obtain ⟨c, hc, hx⟩ := byCurenv_ok hx
  obtain ⟨⟨a, k₁⟩, halloc, hx⟩ := Except.bind_ok_iff.mp hx
  obtain ⟨rfl, h₁, new⟩ := h.envAlloc hl hd asids pages halloc
  have live := live_of_window new.window
  have hx : Except.ok (sysExofork.finish k₁ c e) = .ok (r, k') := (if_neg live).symm.trans hx
  have base (i : Vpn) (hi : shared i) {k : Kernel} (h : Secure M K1 K0 G k) :
      valid (k.baseEntry i ||| pteV) ∧ K1 (ptePage (k.baseEntry i ||| pteV)) := by
    rw [ptePage_or_pteV]
    exact ⟨valid_or_pteV _, (h.base i hi).2⟩
  have h₂ := h₁.setRootEntry live (.inl rfl) (h₁.base 2 (.inl rfl)).1 (h₁.base 2 (.inl rfl)).2
  have new₂ := new.setRootEntry h₁ (.inl rfl) (k₁.baseEntry 2)
  have h₃ := h₂.setRootEntry (e := e) live (.inr rfl) (base 4 (.inr rfl) h₂).1
    (base 4 (.inr rfl) h₂).2
  have new₃ := new₂.setRootEntry h₂ (.inr rfl)
    ((k₁.setRootEntry e 2 (k₁.baseEntry 2)).baseEntry 4 ||| pteV)
  have ne : c ≠ e := by
    rintro rfl
    exact (h.live c (h.cur c hc).1).1 hd
  obtain ⟨rfl, rfl⟩ := Prod.mk.inj (Except.ok.inj hx)
  refine ⟨h₃.envs rfl rfl (fun x hx => ?_) (fun c' hc' => ?_),
    (new₃.setStatus .notRunnable).setEnv rfl, ?_, rfl⟩
  · by_cases eq : x = e
    · rw [eq]
      exact ⟨live, new₃.window⟩
    · rw [setEnv_envs, Function.update_of_ne eq, setStatus, setEnv_envs,
        Function.update_of_ne eq] at hx
      exact h₃.live x hx
  · obtain rfl := Option.some.inj (hc.symm.trans (new₃.cur.symm.trans hc'))
    rw [setEnv_envs, Function.update_of_ne ne, setStatus, setEnv_envs, Function.update_of_ne ne]
    exact h₃.cur c hc'
  · rw [setEnv_envs, Function.update_self, setStatus, setEnv_envs, Function.update_self]

/-! ## The other calls -/

theorem envid2env_index {envid checkperm : Nat} (named : uInt envid ≠ 0)
    (h : k.envid2env c envid checkperm = .ok e) : uInt envid % 1024 = e.val := by
  unfold envid2env at h
  dsimp only at h
  rw [if_neg named] at h
  split at h
  · cases h
  split at h
  · cases h
  · rw [← Except.ok.inj h]

section
variable {va srcva dstva perm envid func : Nat}

theorem byCurenv_of (hc : k.curenv = some c) (f : EnvIdx → Except Halt (Int × Kernel)) :
    k.byCurenv f = f c := by
  unfold byCurenv
  rw [hc]

theorem sysMemAlloc_self (hc : k.curenv = some c) (legal : ¬ isIllegalVa va) :
    k.sysMemAlloc 0 va perm = k.liftPmap (k.pmap.allocPageUser c va (uInt perm)) := by
  unfold sysMemAlloc
  rw [if_neg legal, byCurenv_of hc]
  rfl

theorem sysMemUnmap_self (hc : k.curenv = some c) (legal : ¬ isIllegalVa va) :
    k.sysMemUnmap 0 va = k.liftPmap (k.pmap.unmapPage c va) := by
  unfold sysMemUnmap
  rw [if_neg legal, byCurenv_of hc]
  rfl

theorem sysMemMap_self (hc : k.curenv = some c) (legal₁ : ¬ isIllegalVa srcva)
    (legal₂ : ¬ isIllegalVa dstva) (mapped : k.pmap.isMappedPage c srcva = true) :
    k.sysMemMap 0 srcva 0 dstva perm =
      k.liftPmap (k.pmap.mapPageUser c dstva (k.pmap.getPa c srcva) (uInt perm)) := by
  have there : ¬ k.pmap.isMappedPage c srcva = false := by
    rw [mapped]
    decide
  unfold sysMemMap
  rw [if_neg (not_or.mpr ⟨legal₁, legal₂⟩), byCurenv_of hc]
  exact if_neg there

theorem sysMemMap_zero {srcid dstid : Nat}
    (h : k.sysMemMap srcid srcva dstid dstva perm = .ok (0, k')) :
    ∃ c src dst s, k.curenv = some c ∧ k.envid2env c srcid (k.envs c).envId = .ok src ∧
      k.envid2env c dstid (k.envs c).envId = .ok dst ∧ ¬ isIllegalVa srcva ∧ ¬ isIllegalVa dstva ∧
      k.pmap.isMappedPage src srcva = true ∧
      k.pmap.mapPageUser dst dstva (k.pmap.getPa src srcva) (uInt perm) = .ok (0, s) ∧
      k' = { k with pmap := s } := by
  have fails {x : Int} (hx : x = 0) : x ≠ -eInval ∧ x ≠ -eBadEnv := by
    rw [hx]
    decide
  unfold sysMemMap at h
  split at h
  · exact absurd (Prod.mk.inj (Except.ok.inj h)).1.symm (fails rfl).1
  rename_i legal
  rw [not_or] at legal
  obtain ⟨c, hc, h⟩ := byCurenv_ok h
  rcases withEnv_ok h with ⟨-, bad⟩ | ⟨src, hsrc, h⟩
  · exact absurd (envid2env_error bad) (fails rfl).2
  rcases withEnv_ok h with ⟨-, bad⟩ | ⟨dst, hdst, h⟩
  · exact absurd (envid2env_error bad) (fails rfl).2
  split at h
  · exact absurd (Prod.mk.inj (Except.ok.inj h)).1.symm (fails rfl).1
  rename_i mapped
  obtain ⟨s, hs, rfl⟩ := liftPmap_ok h
  exact ⟨c, src, dst, s, hc, hsrc, hdst, legal.1, legal.2, by simpa using mapped, hs, rfl⟩

theorem sysSetTlbModEntry_ok (h : Machine.sysSetTlbModEntry k envid func = .ok (r, k')) :
    ∃ envs, k' = { k with envs := envs } ∧ ∀ x, (envs x).envStatus = (k.envs x).envStatus := by
  obtain ⟨c, hc, h⟩ := byCurenv_ok h
  rcases withEnv_ok h with ⟨rfl, -⟩ | ⟨e, he, h⟩
  · exact ⟨_, rfl, fun _ => rfl⟩
  · obtain ⟨-, rfl⟩ := Prod.mk.inj (Except.ok.inj h)
    refine ⟨_, rfl, fun x => ?_⟩
    by_cases eq : x = e
    · rw [eq, Function.update_self]
    · rw [Function.update_of_ne eq]

/-- `sys_set_env_status` wakes the env, or changes nothing. -/
theorem sysSetEnvStatus_wakes (h : k.sysSetEnvStatus envid 1 = .ok (r, k')) :
    (k' = k ∧ r ≠ 0) ∨ (r = 0 ∧ ∃ c e q, k.curenv = some c ∧
      k.envid2env c envid (k.envs c).envId = .ok e ∧
      k' = { k with envSchedList := q }.setStatus e .runnable) := by
  unfold sysSetEnvStatus at h
  split at h
  · rename_i none_
    cases none_
  rename_i st runnable
  obtain rfl : .runnable = st := Option.some.inj runnable
  obtain ⟨c, hc, h⟩ := byCurenv_ok h
  rcases withEnv_ok h with ⟨rfl, bad⟩ | ⟨e, he, h⟩
  · refine .inl ⟨rfl, ?_⟩
    rw [envid2env_error bad]
    decide
  obtain ⟨k₁, h₁, h⟩ := Except.bind_ok_iff.mp h
  obtain ⟨rfl, rfl⟩ := Prod.mk.inj (Except.ok.inj h)
  refine .inr ⟨rfl, c, e, k₁.envSchedList, hc, he, ?_⟩
  unfold schedUpdate at h₁
  split at h₁
  · rename_i other
    exact absurd rfl other.2
  split at h₁
  · rw [← Except.ok.inj h₁]
    rfl
  · rw [← Except.ok.inj h₁]

/-- An env that is woken was live. -/
theorem Secure.wake (h : Secure M K1 K0 G k) (hc : k.curenv = some c) {checkperm : Nat}
    (he : k.envid2env c envid checkperm = .ok e) (q : Tailq EnvIdx) :
    Secure M K1 K0 G ({ k with envSchedList := q }.setStatus e .runnable) := by
  have live : (k.envs e).envStatus ≠ .free :=
    envid2env_not_free (fun c hc => (h.cur c hc).1) hc he
  refine h.envs rfl rfl (fun x hx => ?_) fun c' hc' => ?_
  · by_cases eq : x = e
    · rw [eq]
      exact h.live e live
    · rw [setStatus, setEnv_envs, Function.update_of_ne eq] at hx
      exact h.live x hx
  · obtain ⟨status, entries⟩ := h.cur c' hc'
    refine ⟨?_, entries⟩
    by_cases eq : c' = e
    · rw [setStatus, setEnv_envs, eq, Function.update_self]
      simp
    · rwa [setStatus, setEnv_envs, Function.update_of_ne eq]

theorem Secure.envRun_stays (h : Secure M K1 K0 G k) (hx : k.envRun e = .ok k') :
    Stays k.pmap k'.pmap ∧ ∀ x, (k'.envs x).envStatus = (k.envs x).envStatus := by
  unfold Kernel.envRun at hx
  split at hx
  · cases hx
  rename_i runnable
  rw [not_not] at runnable
  obtain rfl := Except.ok.inj hx
  have live := (h.live e (by rw [runnable]; decide)).1
  have set₂ := h.setRootEntry live (.inl rfl) (h.base 2 (.inl rfl)).1 (h.base 2 (.inl rfl)).2
  have stays₂ := Stays.setShared h.guarded.consistent h.guarded.userApart live (i := 2) (.inl rfl)
    (k.baseEntry 2)
  refine ⟨stays₂.trans (.setShared set₂.guarded.consistent set₂.guarded.userApart live
    (.inr rfl) _), fun x => ?_⟩
  by_cases eq : x = e
  · subst eq
    simp [Kernel.setRootEntry, setEnv]
  · simp [Kernel.setRootEntry, setEnv, eq]

theorem Secure.schedule_stays (h : Secure M K1 K0 G k) {yield : Bool}
    (hx : k.schedule yield = .ok k') :
    Stays k.pmap k'.pmap ∧ (∀ x, (k'.envs x).envStatus = (k.envs x).envStatus) ∧
      k'.envFreeList = k.envFreeList ∧
      ∀ e, k'.curenv = some e → (k'.envs e).envStatus = .runnable := by
  obtain ⟨-, list, e, cur, runnable⟩ := schedule_msg hx
  obtain ⟨k₁, e', hp, hb, he, hc, hrun⟩ := schedule_envRun hx
  have h₁ : Secure M K1 K0 G k₁ :=
    h.sched hp hb (fun x => by rw [he]) fun c hcur => h.cur c (hc ▸ hcur)
  obtain ⟨stays, status⟩ := h₁.envRun_stays hrun
  rw [hp] at stays
  refine ⟨stays, fun x => by rw [status, he], list, fun x hx => ?_⟩
  obtain rfl := Option.some.inj (cur.symm.trans hx)
  exact runnable

end

end

end RiscvMos.Kernel
