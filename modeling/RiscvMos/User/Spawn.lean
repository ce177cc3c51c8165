import RiscvMos.Env.Loader
import RiscvMos.Env.Teardown
import RiscvMos.Env.Wrap

/-!
`spawn_mapper` of `user/lib/spawn.c` beside `load_icode_mapper`. A call of it
puts a new page in the child's address space, so the bytes that an earlier call
stored in that page are lost.
-/

namespace RiscvMos

open PageImage Elf Pmap

namespace Kernel

/-- `memcpy` by the running env to its own address `va`. -/
def userCopy (k : Kernel) (cur : EnvIdx) (va : Nat) (data : Nat → Nat) (off n : Nat) : Kernel :=
  { k with pmap :=
      (List.range n).foldl (fun s i => s.storeByte (s.getPa cur (va + i)) (data (off + i))) k.pmap }

/-- `spawn_mapper`, where `data` points to the child's id. -/
def spawnMapper (binary : Binary) (childId : Nat) : Mapper Kernel := fun k c =>
  andThen (k.sysMemAlloc childId c.va c.perm) fun k =>
    match c.src with
    | none => .ok (0, k)
    | some src => do
      let (r, k) ← k.sysMemMap childId c.va 0 utemp (c.perm ||| pteR ||| pteW ||| pteU)
      if r ≠ 0 then do
        let (_, k) ← k.sysMemUnmap childId c.va
        .ok (r, k)
      else k.byCurenv fun cur =>
        (k.userCopy cur (utemp + c.offset) (fun i => binary i) src c.len).sysMemUnmap 0 utemp

/-- The pages of the image are in the child, and the parent runs. -/
structure Spawning (M : Nat → Prop) (I : Image (Fin 256)) (cur child : EnvIdx) (childId : Nat)
    (k : Kernel) : Prop where
  consistent : Consistent M k.pmap
  userApart : k.pmap.UserApart
  shows : Shows I child k.pmap
  curenv : k.curenv = some cur
  names : MemCall.Names k cur childId child
  other : child ≠ cur

variable {M : Nat → Prop} {I : Image (Fin 256)} {cur child : EnvIdx}
    {childId va p q perm r : Nat} {k k' : Kernel}
  {s s' : Pmap EnvIdx} {binary : Binary} {c : MapperCall}

theorem names_self (k : Kernel) (cur : EnvIdx) : MemCall.Names k cur 0 cur := rfl

/-- The bytes of the page at `UTEMP` by their addresses. -/
theorem getPa_utemp (view : s.view cur utemp = some (q, perm)) {o : Nat} (ho : o < 4096) :
    s.getPa cur (utemp + o) = q * 4096 + o := by
  have page : leafSlot cur (utemp + o) = leafSlot cur utemp := by
    rw [← leafSlot_page cur (utemp + o)]
    have same : 4096 * ((utemp + o) / 4096) = utemp := by
      unfold utemp
      omega
    rw [same]
  have low : utemp + o < ulim := by
    unfold utemp ulim
    omega
  have view : s.view cur (utemp + o) = some (q, perm) := by
    rw [Pmap.view, page]
    exact view
  rw [getPa_of_view (not_shared_of_user low) view]
  unfold utemp
  omega

/-- The store to the page behind `UTEMP`. -/
theorem userCopy_eq (hu : k.pmap.UserApart) {data : Nat → Nat} {off n o : Nat} (ho : o + n ≤ 4096)
    (view : k.pmap.view cur utemp = some (q, perm)) (small : q < 0x84000) :
    k.userCopy cur (utemp + o) data off n =
    { k with pmap := k.pmap.copyTo (q * 4096 + o) data off n } := by
  have frame : ¬ k.pmap.TablePage q := hu cur utemp (by decide) q (tgt_eq_some.mpr ⟨perm, view⟩)
  have place : ∀ i, i < n → uLong (q * 4096 + o + i) = q * 4096 + o + i := by
    intro i hi
    unfold uLong
    omega
  have copied : ∀ m ≤ n, (List.range m).foldl
      (fun s i => s.storeByte (s.getPa cur (utemp + o + i)) (data (off + i))) k.pmap =
        k.pmap.copyTo (q * 4096 + o) data off m := by
    intro m hm
    induction m with
    | zero => rfl
    | succ m ih =>
      have spaces := @copyTo_sameSpaces _ k.pmap (q * 4096 + o) off m data (by
        intro i hi
        have page : (q * 4096 + o + i) / 4096 = q := by omega
        rw [place i (by omega), page]
        exact frame)
      have here := getPa_utemp (o := o + m) ((spaces.view cur utemp).trans view) (by omega)
      rw [List.range_succ, List.foldl_append, ih (by omega), List.foldl_cons, List.foldl_nil,
        Nat.add_assoc, here, copyTo_succ, place m (by omega), Nat.add_assoc]
  unfold userCopy
  rw [copied n (Nat.le_refl n)]

/-! ## One call -/

theorem uInt_perm {perm : Nat} (h : perm < 0x400) : uInt perm = perm := by
  unfold uInt
  omega

theorem rwu_lt {perm : Nat} (h : perm < 0x400) : perm ||| pteR ||| pteW ||| pteU < 0x400 := by
  have wide : perm < 2 ^ 10 := h
  have all := Nat.or_lt_two_pow (Nat.or_lt_two_pow (Nat.or_lt_two_pow wide (y := pteR) (by decide))
    (y := pteW) (by decide)) (y := pteU) (by decide)
  exact all

/-- Another state of memory for the same envs. -/
theorem Spawning.withPmap (h : Spawning M I cur child childId k) {J : Image (Fin 256)}
    (hs : Consistent M s)
    (hu : s.UserApart) (shows : Shows J child s) :
    Spawning M J cur child childId { k with pmap := s } :=
  ⟨hs, hu, shows, h.curenv, h.names, h.other⟩

theorem Spawning.alloc (h : Spawning M I cur child childId k) (legal : ¬ isIllegalVa va)
    (hperm : perm < 0x400) :
    ∃ r k', k.sysMemAlloc childId va perm = .ok (r, k') ∧ (r = 0 ∨ r = -eNoMem) ∧
      (r = 0 → Spawning M (Function.update I (va / 4096) (some fun _ => 0)) cur child childId k' ∧
        ∃ q, k'.pmap.view child va = some (q, perm ||| pteV) ∧ k'.pmap.ppRef q = 1) := by
  have hva := lt_ulim_of_not_illegal legal
  have hlt : va < 2 ^ 39 := hva.trans (by decide)
  have hv := not_shared_of_user hva
  have apart := apart_of_ne (d := child) k.pmap hlt (vpn2_ne_three_of_user hva)
  obtain ⟨r, s, alloc⟩ := allocPageUser_returns (d := child) h.consistent hva hperm
  refine ⟨r, { k with pmap := s }, ?_, allocPageUser_codes alloc, ?_⟩
  · unfold sysMemAlloc
    rw [if_neg legal, byCurenv_eq h.curenv, withEnv_names h.names, uInt_perm hperm, alloc]
    rfl
  · rintro rfl
    obtain ⟨cons, -, -, q, hM, hent, -, fresh, -⟩ :=
      allocPageUser_spec h.consistent hlt hv apart alloc
    refine ⟨h.withPmap cons (allocPageUser_userApart h.consistent hlt hv apart h.userApart alloc)
      (h.shows.alloc h.consistent h.userApart hva alloc), q, hent, ?_⟩
    show s.ppRef q = 1
    rw [cons.counted.count q hM]
    apply RefCount.refs_eq_card {leafSlot child va}
    intro x
    rw [Finset.mem_singleton]
    constructor
    · intro tgt
      by_contra other
      exact fresh x other tgt
    · rintro rfl
      exact tgt_eq_some.mpr ⟨_, hent⟩

theorem Spawning.mapUtemp (h : Spawning M I cur child childId k) (legal : ¬ isIllegalVa va)
    (view : k.pmap.view child va = some (q, perm)) (one : k.pmap.ppRef q = 1) {perm' : Nat}
    (hperm : perm' < 0x400) :
    ∃ r k', k.sysMemMap childId va 0 utemp perm' = .ok (r, k') ∧ (r = 0 ∨ r = -eNoMem) ∧
      (∃ x, k'.sysMemUnmap childId va = .ok x) ∧
      (r = 0 → Spawning M I cur child childId k' ∧ k'.pmap.view child va = some (q, perm) ∧
        k'.pmap.view cur utemp = some (q, perm' ||| pteV)) := by
  have hva := lt_ulim_of_not_illegal legal
  have hv := not_shared_of_user hva
  have low : utemp < ulim := by decide
  have hlt : utemp < 2 ^ 39 := by decide
  have mapped : k.pmap.isMappedPage child va = true := by
    rw [isMappedPage_eq hv, view]
    rfl
  have place := getPa_of_view hv view
  have page : k.pmap.getPa child va / 4096 = q := by omega
  have tgt : k.pmap.tgt (leafSlot child va) = some (k.pmap.getPa child va / 4096) := by
    rw [page]
    exact tgt_eq_some.mpr ⟨perm, view⟩
  have hpa : mappablePa (k.pmap.getPa child va) :=
    Source.mappable h.consistent (V := (· < ulim)) (fun va hva => not_shared_of_user hva)
      (.inl ⟨child, va, hva, mapped, rfl⟩)
  obtain ⟨r, s, map, -, -⟩ := mapPageUser_code (d := cur) h.consistent low hperm hpa
  have cons := mapPageUser_fits h.consistent low hva tgt (.inl (by rw [page, one]; decide)) map
  obtain ⟨r', k', undo, -⟩ :=
    sysMemUnmap_contract (k := { k with pmap := s }) cons h.curenv childId va
  refine ⟨r, { k with pmap := s }, ?_, mapPageUser_codes map, ⟨_, undo⟩, ?_⟩
  · have legal' : ¬ (isIllegalVa va ∨ isIllegalVa utemp) := by
      rintro (h | h)
      · exact legal h
      · exact absurd h (by decide)
    unfold sysMemMap
    rw [if_neg legal', byCurenv_eq h.curenv, withEnv_names h.names,
      withEnv_names (names_self k cur), if_neg (by rw [mapped]; decide), uInt_perm hperm, map]
    rfl
  · rintro rfl
    obtain ⟨hf, hent, -⟩ := mapPageUser_spec h.consistent hlt (not_shared_of_user low)
      (apart_of_ne k.pmap hlt (vpn2_ne_three_of_user low)) map
    have kept : ∀ p, 4096 * p < ulim →
        ¬ Touched (OnPath cur) cur utemp (leafSlot child (4096 * p)) :=
      fun p hp => page_not_touched low hp (.inl h.other)
    refine ⟨h.withPmap cons (mapPageUser_userApart h.consistent h.userApart low hva tgt map)
      (h.shows.frame h.userApart hf fun p hp => kept p (h.shows.low p hp)), ?_, ?_⟩
    · have same := hf.ent_eq _ (kept (va / 4096) (Nat.lt_of_le_of_lt (Nat.mul_div_le va 4096) hva))
      rw [leafSlot_page] at same
      exact same.trans view
    · rw [← page]
      exact hent rfl

theorem Spawning.unmap (h : Spawning M I cur child childId k) :
    ∃ k', k.sysMemUnmap 0 utemp = .ok (0, k') ∧ Spawning M I cur child childId k' := by
  have low : utemp < ulim := by decide
  obtain ⟨s, unmap, cons, stored⟩ :=
    @unmapPage_ok _ _ _ _ _ cur utemp h.consistent (not_shared_of_user low) (by decide)
  have legal : ¬ isIllegalVa utemp := by decide
  refine ⟨{ k with pmap := s }, ?_, h.withPmap cons ?_ ?_⟩
  · unfold sysMemUnmap
    rw [if_neg legal, byCurenv_eq h.curenv, withEnv_names (names_self k cur), unmap]
    rfl
  · apply @UserApart.leaf _ _ _ _ _ utemp h.userApart (by decide)
      (stored.frame.mono fun x hx => .inl (.inr (.inr (.inr hx))))
    intro p _ hp
    rw [tgt, stored.ent, Function.update_self] at hp
    cases hp
  · apply h.shows.frame h.userApart stored.frame
    intro p _ same
    exact h.other (Slot.pte0.inj same).1

/-- One call at a legal address, as a visit that renews the page. -/
theorem Spawning.step (h : Spawning M I cur child childId k) (hc : c.Fits)
    (legal : ¬ isIllegalVa c.va) :
    ∃ r k', spawnMapper binary childId k c = .ok (r, k') ∧ (r = 0 ∨ r = -eNoMem) ∧
      (r = 0 → Spawning M (renew 4096 I (c.visit binary)) cur child childId k') := by
  obtain ⟨r, k₁, alloc, codes, fresh⟩ := h.alloc legal hc.perm
  unfold spawnMapper
  rw [alloc]
  rcases codes with rfl | rfl
  · obtain ⟨h₁, q, view, one⟩ := fresh rfl
    rw [andThen_ok]
    cases hsrc : c.src with
    | none =>
      refine ⟨0, k₁, rfl, .inl rfl, fun _ => ?_⟩
      unfold renew
      rw [put_of_null hsrc]
      exact h₁
    | some src =>
      obtain ⟨r, k₂, map, codes, ⟨x, undo⟩, mapped⟩ := h₁.mapUtemp legal view one (rwu_lt hc.perm)
      dsimp only
      rw [map]
      rcases codes with rfl | rfl
      · obtain ⟨h₂, view, window⟩ := mapped rfl
        have small : q < 0x84000 :=
          (h₂.consistent.ram q (h₂.consistent.mem_of_tgt (tgt_eq_some.mpr ⟨_, window⟩))).2
        obtain ⟨cons, spaces, shows⟩ := @Shows.write _ _ _ _ _ _ _ h₂.consistent h₂.userApart
          h₂.shows binary _ _ _ _
          (Function.update_self ..) hsrc (hc.page src hsrc) view
        obtain ⟨k₃, unmap, h₃⟩ := (h₂.withPmap cons (spaces.userApart h₂.userApart) shows).unmap
        refine ⟨0, k₃, ?_, .inl rfl, fun _ => ?_⟩
        · show k₂.byCurenv _ = _
          rw [byCurenv_eq h₂.curenv, hc.offset src hsrc,
            userCopy_eq h₂.userApart (hc.page src hsrc) window small, unmap]
        · rw [Function.update_idem] at h₃
          exact h₃
      · refine ⟨-eNoMem, x.2, ?_, .inr rfl, fun h => absurd h (by decide)⟩
        show (do let (_, k) ← k₂.sysMemUnmap childId c.va; .ok (-eNoMem, k)) = _
        rw [undo]
        rfl
  · exact ⟨_, k₁, andThen_stop (by decide) _, .inr rfl, fun h => absurd h (by decide)⟩

/-! ## All calls -/

theorem spawnMapper_legal (h : spawnMapper binary childId k c = .ok (0, k')) :
    ¬ isIllegalVa c.va := by
  intro illegal
  have refused : k.sysMemAlloc childId c.va c.perm = .ok (-eInval, k) := if_pos illegal
  unfold spawnMapper at h
  rw [refused, andThen_stop (by decide)] at h
  exact absurd (Prod.mk.inj (Except.ok.inj h)).1 (by decide)

theorem runCalls_legal {cs : List MapperCall}
    (h : runCalls (spawnMapper binary childId) cs k = .ok (0, k')) :
    ∀ c ∈ cs, ¬ isIllegalVa c.va := by
  induction cs generalizing k with
  | nil => simp
  | cons c cs ih =>
    rw [runCalls] at h
    cases first : spawnMapper binary childId k c with
    | error e =>
      rw [first] at h
      cases h
    | ok p =>
      obtain ⟨r, k₁⟩ := p
      rw [first] at h
      by_cases zero : r = 0
      · subst zero
        rw [andThen_ok] at h
        intro c' hc'
        cases List.mem_cons.mp hc' with
        | inl same => rw [same]; exact spawnMapper_legal first
        | inr later => exact ih h c' later
      · rw [andThen_stop zero] at h
        exact absurd (Prod.mk.inj (Except.ok.inj h)).1 zero

theorem Spawning.run (h : Spawning M I cur child childId k) {cs : List MapperCall}
    (hc : ∀ c ∈ cs, c.Fits) (legal : ∀ c ∈ cs, ¬ isIllegalVa c.va) :
    ∃ r k', runCalls (spawnMapper binary childId) cs k = .ok (r, k') ∧ (r = 0 ∨ r = -eNoMem) ∧
      (r = 0 →
        Spawning M ((cs.map (MapperCall.visit binary)).foldl (renew 4096) I) cur child
        childId k') := by
  induction cs generalizing I k with
  | nil => exact ⟨0, k, rfl, .inl rfl, fun _ => h⟩
  | cons c cs ih =>
    obtain ⟨r, k₁, step, codes, after⟩ :=
      @Spawning.step _ _ _ _ _ _ binary _ h (hc c List.mem_cons_self)
      (legal c List.mem_cons_self)
    rw [runCalls, step]
    by_cases ok : r = 0
    · subst ok
      rw [andThen_ok]
      exact ih (after rfl) (fun c' hc' => hc c' (List.mem_cons_of_mem c hc'))
        fun c' hc' => legal c' (List.mem_cons_of_mem c hc')
    · exact ⟨r, k₁, andThen_stop ok _, codes, fun h => absurd h ok⟩

/-- Every visited page is one that `sys_mem_alloc` accepts. -/
def LegalPages (phs : List Phdr) : Prop :=
  ∀ ph ∈ loads phs, ∀ p, ph.Visits p → utemp ≤ 4096 * p ∧ 4096 * p < utop

/-- No page that holds a byte of the file other than 0 is visited again, by the
zeros of the same segment or by a later segment. -/
def NotRevisited (binary : Binary) (phs : List Phdr) : Prop :=
  ∀ l₁ ph l₂, loads phs = l₁ ++ ph :: l₂ → ∀ j < ph.pFilesz, (binary (ph.pOffset + j) : Nat) ≠ 0 →
    ¬ (ph.ShortHead ∧ ph.pFilesz < ph.pMemsz) ∧ ∀ ph' ∈ l₂, ¬ ph'.Visits ((ph.pVaddr + j) / 4096)

/-- Both loads are done, and the child has the bytes of the file part that the
env of the kernel has. -/
def Agree (binary : Binary) (e : EnvIdx) (s : Pmap EnvIdx) (child : EnvIdx) (childId : Nat)
    (k : Kernel) : Prop :=
  ∃ s' k', loadSegs (loadIcodeMapper binary e) (phdrs binary) s = .ok (0, s') ∧
    loadSegs (spawnMapper binary childId) (phdrs binary) k = .ok (0, k') ∧
    ∀ ph ∈ loads (phdrs binary),
    ∀ j < ph.pFilesz, k'.pmap.isMappedPage child (ph.pVaddr + j) = true ∧
      k'.pmap.byteAt (k'.pmap.getPa child (ph.pVaddr + j)) = s'.byteAt (s'.getPa e (ph.pVaddr + j))

theorem legalPages_iff {phs : List Phdr} (wf : SegmentsApart phs) :
    LegalPages phs ↔ ∀ c ∈ loadCalls phs, ¬ isIllegalVa c.va := by
  have legal : ∀ va, ¬ isIllegalVa va ↔ utemp ≤ 4096 * (va / 4096) ∧ 4096 * (va / 4096) < utop := by
    intro va
    unfold isIllegalVa utemp utop ulim
    omega
  constructor
  · intro pages c hc
    obtain ⟨ph, hph, visits⟩ := (loadCalls_visits wf).mp ⟨c, hc, rfl⟩
    exact (legal c.va).mpr (pages ph hph _ visits)
  · intro calls ph hph p visits
    obtain ⟨c, hc, rfl⟩ := (loadCalls_visits wf).mpr ⟨ph, hph, visits⟩
    exact (legal c.va).mp (calls c hc)

theorem loadSegs_spawning (h : Spawning M I cur child childId k) (wf : SegmentsApart (phdrs binary))
    (legal : LegalPages (phdrs binary))
    (supplied : ∀ k', loadSegs (spawnMapper binary childId) (phdrs binary) k ≠ .ok (-eNoMem, k')) :
    ∃ k', loadSegs (spawnMapper binary childId) (phdrs binary) k = .ok (0, k') ∧
      Spawning M ((visits binary (phdrs binary)).foldl (renew 4096) I) cur child childId k' := by
  obtain ⟨r, k', run, codes, after⟩ := @Spawning.run _ _ _ _ _ _ binary h _
    (fun c hc => loadCalls_fits wf (fun ph hph p visits => (legal ph hph p visits).2) hc)
    ((legalPages_iff wf).mp legal)
  rw [← loadSegs_eq] at run
  rcases codes with rfl | rfl
  · exact ⟨k', run, after rfl⟩
  · exact absurd run (supplied k')

/-- Where both loads are done, a byte of the file part is the same in both, or
it was lost in the child. -/
theorem byte_agrees_iff {e : EnvIdx} {M' : Nat → Prop} {l₁ l₂ : List Phdr} {ph : Phdr} {j : Nat}
    (wf : SegmentsApart (phdrs binary)) (split : loads (phdrs binary) = l₁ ++ ph :: l₂)
    (hj : j < ph.pFilesz)
    (loaded : Loading M' ((visits binary (phdrs binary)).foldl (keep 4096) fun _ => none) e s')
    (spawned : Spawning M ((visits binary (phdrs binary)).foldl (renew 4096) I) cur
      child childId k') :
    k'.pmap.isMappedPage child (ph.pVaddr + j) = true ∧
      (k'.pmap.byteAt (k'.pmap.getPa child (ph.pVaddr + j)) =
        s'.byteAt (s'.getPa e (ph.pVaddr + j)) ↔
        ((binary (ph.pOffset + j) : Nat) ≠ 0 →
          ¬ (ph.ShortHead ∧ ph.pFilesz < ph.pMemsz) ∧
          ∀ ph' ∈ l₂, ¬ ph'.Visits ((ph.pVaddr + j) / 4096))) := by
  have h : ph ∈ loads (phdrs binary) := by simp [split]
  have kernel := (loaded.shows.byteAt (keep_file wf h hj)).2
  obtain ⟨mapped, user⟩ := spawned.shows.byteAt (renew_file wf split hj)
  refine ⟨mapped, ?_⟩
  rw [kernel, user, Fin.val_inj]
  by_cases again : (ph.ShortHead ∧ ph.pFilesz < ph.pMemsz) ∨
    ∃ ph' ∈ l₂, ph'.Visits ((ph.pVaddr + j) / 4096)
  · rw [if_pos again]
    constructor
    · intro zero nonzero
      exact absurd (congrArg Fin.val zero.symm) nonzero
    · intro kept
      by_contra other
      obtain ⟨alone, later⟩ := kept fun zero => other (Fin.ext zero.symm)
      rcases again with own | ⟨ph', h', visits⟩
      · exact alone own
      · exact later ph' h' visits
  · rw [if_neg again]
    constructor
    · intro _ _
      exact ⟨fun own => again (.inl own), fun ph' h' visits => again (.inr ⟨ph', h', visits⟩)⟩
    · intro _
      rfl

/-- `spawn` and the kernel load the same bytes of a file, if no allocation fails:
exactly when `sys_mem_alloc` accepts every page and no page that holds a byte
other than 0 is visited again. -/
theorem spawn_agrees_iff {M' : Nat → Prop} {e : EnvIdx} (hs : Consistent M' s) (hu : s.UserApart)
    (fresh : NoUserPage e s) (supplied : LoadSupplied binary e s) (hs' : Consistent M k.pmap)
    (hu' : k.pmap.UserApart)
    (hcur : k.curenv = some cur) (names : MemCall.Names k cur childId child) (other : child ≠ cur)
    (supplied' : ∀ k', loadSegs (spawnMapper binary childId) (phdrs binary) k ≠ .ok (-eNoMem, k'))
    (wf : SegmentsApart (phdrs binary)) :
    Agree binary e s child childId k ↔
    LegalPages (phdrs binary) ∧ NotRevisited binary (phdrs binary) := by
  have start : Spawning M (fun _ => none) cur child childId k :=
    ⟨hs', hu', Shows.empty child k.pmap, hcur, names, other⟩
  have both : LegalPages (phdrs binary) → ∃ s' k',
      loadSegs (loadIcodeMapper binary e) (phdrs binary) s = .ok (0, s') ∧
      loadSegs (spawnMapper binary childId) (phdrs binary) k = .ok (0, k') ∧
      Loading M' ((visits binary (phdrs binary)).foldl (keep 4096) fun _ => none) e s' ∧
      Spawning M ((visits binary (phdrs binary)).foldl (renew 4096) fun _ => none) cur child
      childId k' := by
    intro legal
    obtain ⟨s', load, loaded⟩ := loadSegs_loading hs hu fresh wf
      (fun ph hph p visits => (legal ph hph p visits).2) supplied
    obtain ⟨k', spawn, spawned⟩ := loadSegs_spawning start wf legal supplied'
    exact ⟨s', k', load, spawn, loaded, spawned⟩
  constructor
  · intro ⟨s₁, k₁, load₁, spawn₁, bytes⟩
    have legal : LegalPages (phdrs binary) := by
      rw [legalPages_iff wf]
      rw [loadSegs_eq] at spawn₁
      exact runCalls_legal spawn₁
    obtain ⟨s', k', load, spawn, loaded, spawned⟩ := both legal
    obtain ⟨-, rfl⟩ := Prod.mk.inj (Except.ok.inj (load.symm.trans load₁))
    obtain ⟨-, rfl⟩ := Prod.mk.inj (Except.ok.inj (spawn.symm.trans spawn₁))
    refine ⟨legal, ?_⟩
    intro l₁ ph l₂ split j hj
    exact (byte_agrees_iff wf split hj loaded spawned).2.mp (bytes ph (by simp [split]) j hj).2
  · intro ⟨legal, kept⟩
    obtain ⟨s', k', load, spawn, loaded, spawned⟩ := both legal
    refine ⟨s', k', load, spawn, ?_⟩
    intro ph hph j hj
    obtain ⟨l₁, l₂, split⟩ := List.append_of_mem hph
    obtain ⟨mapped, same⟩ := byte_agrees_iff wf split hj loaded spawned
    exact ⟨mapped, same.mpr (kept l₁ ph l₂ split j hj)⟩

/-- A parent, the first env, and a child that has no page yet. -/
def parentAndChild : Kernel :=
  let k : Kernel := { envInit oneDir 0x82000000 with curenv := some 0 }
  k.setEnv 1 { k.envs 1 with envId := 1025, envStatus := .notRunnable }

theorem parentAndChild_names : MemCall.Names parentAndChild 0 1025 1 := by
  unfold MemCall.Names
  decide

theorem spawn_agrees_iff_small : Agree (smallElf 0x400000 1 2) 0 oneDir 1 1025 parentAndChild ↔
    LegalPages (phdrs (smallElf 0x400000 1 2)) ∧
      NotRevisited (smallElf 0x400000 1 2) (phdrs (smallElf 0x400000 1 2)) := by
  obtain ⟨-, wf⟩ := @smallElf_segmentsApart 0x400000 1 2 (by decide) (by decide)
  apply @spawn_agrees_iff _ 0 _ _ _ _ _ _ _ oneDir_consistent oneDir_userApart
    (oneDir_noUserPage 0) _ oneDir_consistent
    oneDir_userApart rfl parentAndChild_names (by decide) _ wf
  · apply supplied_of_code
    decide +kernel
  · apply supplied_of_code
    decide +kernel

/-- A segment of one byte of the file and a zero behind it, in the middle of a page:
the child has 0 where the kernel's env has the byte. -/
theorem spawn_loses_byte : SegmentsApart (phdrs (smallElf 0x400ffd 1 2)) ∧
    ∃ s' k', loadSegs (loadIcodeMapper (smallElf 0x400ffd 1 2) 0)
    (phdrs (smallElf 0x400ffd 1 2)) oneDir = .ok (0, s') ∧
      loadSegs (spawnMapper (smallElf 0x400ffd 1 2) 1025)
      (phdrs (smallElf 0x400ffd 1 2)) parentAndChild = .ok (0, k') ∧
      s'.byteAt (s'.getPa 0 0x400ffd) = 7 ∧ k'.pmap.byteAt (k'.pmap.getPa 1 0x400ffd) = 0 := by
  obtain ⟨only, wf⟩ := @smallElf_segmentsApart 0x400ffd 1 2 (by decide) (by decide)
  have legal : LegalPages (phdrs (smallElf 0x400ffd 1 2)) := by
    rw [legalPages_iff wf]
    decide
  obtain ⟨s', load, loaded⟩ :=
    @loadSegs_loading _ _ _ _ _ _ (smallElf 0x400ffd 1 2) oneDir_consistent oneDir_userApart
    (oneDir_noUserPage 0) wf (fun ph hph p visits => (legal ph hph p visits).2) (by
      apply supplied_of_code
      decide +kernel)
  have start : Spawning (· ∈ somePages) (fun _ => none) 0 1 1025 parentAndChild :=
    ⟨oneDir_consistent, oneDir_userApart, Shows.empty .., rfl, parentAndChild_names, by decide⟩
  obtain ⟨k', spawn, spawned⟩ := loadSegs_spawning start wf legal (by
    apply supplied_of_code
    decide +kernel)
  have split : loads (phdrs (smallElf 0x400ffd 1 2)) =
      [] ++ ⟨1, 6, 120, 0x400ffd, 1, 2⟩ :: [] := only
  refine ⟨wf, s', k', load, spawn, ?_, ?_⟩
  · have kernel :=
      (loaded.shows.byteAt (keep_file (j := 0) wf (by rw [only]; exact List.mem_singleton_self _)
      (by decide))).2
    rw [Nat.add_zero] at kernel
    rw [kernel]
    decide
  · have user := (spawned.shows.byteAt (renew_file (j := 0) wf split (by decide))).2
    rw [Nat.add_zero] at user
    rw [user, if_pos (by decide)]
    rfl

end Kernel

end RiscvMos
