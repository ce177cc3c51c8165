import RiscvMos.Pmap.Shared

/-!
What user code can write. A last-level entry with `PTE_U` and `PTE_W` leads to
a page that is no table and that was handed to the env for writing; behind the
shared root entries there is no such entry. `Guarded` is kept by every call
that puts one last-level entry in place, if that entry respects it.
-/

namespace RiscvMos.Pmap

variable {D : Type}

/-- `G d p` says that `d` was handed page `p` with `PTE_W` or `PTE_COW`. -/
structure Guarded [Fintype D] (M K1 K0 : Nat → Prop) (G : D → Nat → Prop) (s : Pmap D) : Prop where
  consistent : Consistent M s
  kernel : KernelHalf M K1 K0 s
  readonly : ∀ t i, K0 t → valid (s.mem t i) → s.mem t i &&& pteU ≠ 0 → s.mem t i &&& pteW = 0
  userApart : s.UserApart
  noCow : ∀ d j k p perm, s.ent (.pte0 d 3 j k) = some (p, perm) → perm &&& pteCow = 0
  granted : ∀ d i j k p perm, s.ent (.pte0 d i j k) = some (p, perm) →
    perm &&& pteU ≠ 0 → perm &&& pteW ≠ 0 → ¬ s.TablePage p ∧ G d p

section
variable [Fintype D] {M K1 K0 : Nat → Prop} {G G' : D → Nat → Prop} {s s' : Pmap D}
    {d : D} {va : Nat}

/-- A store that keeps every slot and the kernel half. -/
theorem Guarded.of_ent (h : Guarded M K1 K0 G s) (hs' : Consistent M s') (hent : s'.ent = s.ent)
    (hk : KernelHalf M K1 K0 s')
    (hro : ∀ t i, K0 t → valid (s'.mem t i) → s'.mem t i &&& pteU ≠ 0 → s'.mem t i &&& pteW = 0)
    (hG : ∀ d p, G d p → p ∉ s'.pageFreeList → G' d p) : Guarded M K1 K0 G' s' := by
  have htgt := tgt_eq_of_ent hent
  have htab : ∀ p, s'.TablePage p ↔ s.TablePage p := by
    intro p
    simp only [TablePage, htgt]
  refine ⟨hs', hk, hro, fun d va hva p hp => ?_, fun d j k p perm he => ?_,
    fun d i j k p perm he hu hw => ?_⟩
  · rw [htab]
    rw [htgt] at hp
    exact h.userApart d va hva p hp
  · rw [hent] at he
    exact h.noCow d j k p perm he
  · have hp : s'.tgt (.pte0 d i j k) = some p := tgt_eq_some.mpr ⟨perm, he⟩
    rw [hent] at he
    obtain ⟨hn, hg⟩ := h.granted d i j k p perm he hu hw
    exact ⟨(htab p).not.mpr hn, hG d p hg (hs'.counted.not_free_of_tgt hp)⟩

/-- What the new entry for `va` in `d` must respect. -/
structure Respects (G : D → Nat → Prop) (s : Pmap D) (d : D) (va p perm : Nat) : Prop where
  user : (vpn2 va).val < 2 → ¬ s.TablePage p
  window : vpn2 va = 3 → perm &&& pteCow = 0
  writable : perm &&& pteU ≠ 0 → perm &&& pteW ≠ 0 → ¬ s.TablePage p ∧ G d p

variable [DecidableEq D]

/-- A call for `va` that leaves a respectable entry, or none. -/
theorem Guarded.leaf (h : Guarded M K1 K0 G s) (hva : va < 2 ^ 39) (hd : s.pgdir d ≠ 0)
    (hs' : Consistent M s') (hf : Frame M (Touched (OnPath d) d va) s s')
    (hbut : WindowBut (leafSlot d va) s s') (hG : ∀ d p, G d p → p ∉ s'.pageFreeList → G' d p)
    (hleaf : ∀ p perm, s'.ent (leafSlot d va) = some (p, perm) → Respects G' s' d va p perm) :
    Guarded M K1 K0 G' s' := by
  have hroots : SameRoots s s' := by
    refine sameRoots_of_frame hf fun d' hd' => ?_
    have : d' = d := by
      rcases hd' with h | h
      · simpa [OnPath, leafSlot] using h
      · simpa [InWindowSlot] using selfTouched_window hva h
    rw [this]
    exact hd
  have hmem0 : ∀ t, K0 t → s'.mem t = s.mem t := fun t ht => hf.kernel t (h.kernel.own0 t ht)
  have happart : s'.UserApart := by
    apply h.userApart.leaf hva hf
    intro p hv hp
    obtain ⟨perm, he⟩ := tgt_eq_some.mp hp
    exact (hleaf p perm he).user hv
  refine ⟨hs', h.kernel.of_frame hf hroots, fun t i ht => ?_, happart,
    fun d' j k p perm he => ?_, fun d' i j k p perm he hu hw => ?_⟩
  · rw [hmem0 t ht]
    exact h.readonly t i ht
  · by_cases hslot : Slot.pte0 d' 3 j k = leafSlot d va
    · rw [hslot] at he
      refine (hleaf p perm he).window ?_
      simp only [leafSlot, Slot.pte0.injEq] at hslot
      exact hslot.2.1.symm
    · rcases hbut (.pte0 d' 3 j k) id hslot with ⟨hkeep, -⟩ | ⟨t, -, hnew⟩
      · rw [hkeep] at he
        exact h.noCow d' j k p perm he
      · rw [he] at hnew
        rw [(Prod.mk.inj (Option.some.inj hnew)).2]
        decide
  · have hp : s'.tgt (.pte0 d' i j k) = some p := tgt_eq_some.mpr ⟨perm, he⟩
    by_cases hslot : Slot.pte0 d' i j k = leafSlot d va
    · rw [hslot] at he
      have hdd : d' = d := by
        simp only [leafSlot, Slot.pte0.injEq] at hslot
        exact hslot.1
      rw [hdd]
      exact (hleaf p perm he).writable hu hw
    · rcases hbut (.pte0 d' i j k) id hslot with ⟨hkeep, hntab⟩ | ⟨t, -, hnew⟩
      · have hp₀ : s.tgt (.pte0 d' i j k) = some p := by rw [tgt, ← hkeep]; exact hp
        rw [hkeep] at he
        obtain ⟨hn, hg⟩ := h.granted d' i j k p perm he hu hw
        exact ⟨hntab p hp₀ hn, hG d' p hg (hs'.counted.not_free_of_tgt hp)⟩
      · rw [he] at hnew
        rw [(Prod.mk.inj (Option.some.inj hnew)).2] at hw
        exact absurd (by decide) hw

/-! ## The calls -/

theorem or_pteV_and (perm : Nat) {b : Nat} (hb : pteV &&& b = 0) :
    (perm ||| pteV) &&& b = perm &&& b := by
  rw [Nat.and_or_distrib_right, hb, Nat.or_zero]

/-- A page of its own at `va`. -/
theorem Guarded.alloc (h : Guarded M K1 K0 G s) (hva : va < 2 ^ 39) (hd : s.pgdir d ≠ 0)
    (hv : ¬ shared (vpn2 va)) (hT : Apart (OnPath d) d va s) {perm : Nat}
    (hG : ∀ d p, G d p → p ∉ s'.pageFreeList → G' d p)
    (hcow : vpn2 va = 3 → perm &&& pteCow = 0)
    (hnew : ∀ q, s'.ent (leafSlot d va) = some (q, perm ||| pteV) → perm &&& pteW ≠ 0 → G' d q)
    (ha : s.allocPageUser d va perm = .ok (0, s')) : Guarded M K1 K0 G' s' := by
  obtain ⟨hs', hf, hbut, q, -, he, -, hafter, -⟩ := allocPageUser_spec h.consistent hva hv hT ha
  have hntab : ¬ s'.TablePage q := by
    rintro ⟨y, hy, hyq⟩
    exact hafter y (by rintro rfl; exact hy) hyq
  refine h.leaf hva hd hs' hf hbut hG fun p perm' hp => ?_
  obtain ⟨rfl, rfl⟩ := Prod.mk.inj (Option.some.inj (he.symm.trans hp))
  refine ⟨fun _ => hntab, fun h3 => ?_, fun _ hw => ⟨hntab, hnew q he ?_⟩⟩
  · rw [or_pteV_and _ (by decide)]
    exact hcow h3
  · rwa [or_pteV_and _ (by decide)] at hw

/-- No page for an address that had none. -/
theorem Guarded.allocFail (h : Guarded M K1 K0 G s) (hva : va < 2 ^ 39) (hd : s.pgdir d ≠ 0)
    (hv : ¬ shared (vpn2 va)) (hT : Apart (OnPath d) d va s) {perm : Nat} {r : Int}
    (hG : ∀ d p, G d p → p ∉ s'.pageFreeList → G' d p) (hnone : s.ent (leafSlot d va) = none)
    (ha : s.allocPageUser d va perm = .ok (r, s')) (hr : r ≠ 0) : Guarded M K1 K0 G' s' := by
  obtain ⟨hs', hf, hw, hnone'⟩ := allocPageUser_fail h.consistent hva hv hT hnone ha hr
  refine h.leaf hva hd hs' hf (fun x hx _ => hw x hx) hG fun p perm' hp => ?_
  rw [hnone'] at hp
  cases hp

theorem Guarded.unmap (h : Guarded M K1 K0 G s) (hva : va < 2 ^ 39) (hd : s.pgdir d ≠ 0)
    (hG : ∀ d p, G d p → p ∉ s'.pageFreeList → G' d p) (hs' : Consistent M s')
    (hst : Stored M d va none s s') : Guarded M K1 K0 G' s' := by
  refine h.leaf hva hd hs' (hst.frame.mono ?_) (hst.windowBut (.refl s)) hG fun p perm hp => ?_
  · rintro x rfl
    exact .inl (.inr (.inr (.inr rfl)))
  · rw [hst.ent, Function.update_self] at hp
    cases hp

/-- Mapping over a page makes no tables. -/
theorem mapPageUser_mapped (hs : Consistent M s) (hv : ¬ shared (vpn2 va)) {pa perm : Nat} {r : Int}
    (hm : s.ent (leafSlot d va) ≠ none) (h : s.mapPageUser d va pa perm = .ok (r, s')) :
    Stored M d va (some (pa / 4096, perm ||| pteV)) s s' := by
  have hd : s.pgdir d ≠ 0 := by
    obtain ⟨e, he⟩ := Option.ne_none_iff_exists'.mp hm
    exact pgdir_ne_zero_of_view he
  unfold mapPageUser at h
  split at h
  · cases h
  split at h
  · cases h
  rename_i hperm hpa
  rw [descend, if_neg hd] at h
  rcases walk_cases s hd hv with ⟨t2, -, -, hn⟩ | ⟨t1, -, -, hn⟩ | ⟨t0, hw, ht⟩
  · exact absurd (leaf_none_of_pte1 (pte1_none_of_pte2 hn)) hm
  · exact absurd (leaf_none_of_pte1 hn) hm
  · rw [hw] at h
    obtain ⟨s₁, heq, hst, -⟩ := remapLeaf_spec hs ht (Nat.not_le.mp hperm) (not_not.mp hpa)
    obtain ⟨-, rfl⟩ := Prod.mk.inj (Except.ok.inj (heq.symm.trans h))
    exact hst

/-- A user page stays one when it is mapped at another user address. -/
theorem mapPageUser_notTable (hs : Consistent M s) (hu : s.UserApart) (hva : va < ulim)
    {pa perm va₀ : Nat} {d₀ : D} {r : Int} (hva₀ : va₀ < ulim)
    (hsrc : s.tgt (leafSlot d₀ va₀) = some (pa / 4096))
    (h : s.mapPageUser d va pa perm = .ok (r, s')) : ¬ s'.TablePage (pa / 4096) := by
  have hlt : va < 2 ^ 39 := hva.trans (by decide)
  have hv := not_shared_of_user hva
  have hn := hu d₀ va₀ hva₀ _ hsrc
  by_cases hslot : leafSlot d₀ va₀ = leafSlot d va
  · have hm : s.ent (leafSlot d va) ≠ none := by
      intro h0
      rw [hslot, tgt, h0] at hsrc
      cases hsrc
    exact (mapPageUser_mapped hs hv hm h).tablePage.not.mpr hn
  · obtain ⟨hf, -⟩ := mapPageUser_spec hs hlt hv (apart_of_ne s hlt (vpn2_ne_three_of_user hva)) h
    exact (hf.data _ _ (not_touched_of_user hlt hva₀ hslot) hsrc hn).2

/-- A page that a user address maps gets one reference more, at most. -/
theorem mapPageUser_consistent (hs : Consistent M s) (hu : s.UserApart) (hva : va < ulim)
    {pa perm va₀ : Nat} {d₀ : D} {r : Int} (hva₀ : va₀ < ulim)
    (hsrc : s.tgt (leafSlot d₀ va₀) = some (pa / 4096)) (href : s.ppRef (pa / 4096) < 65535)
    (h : s.mapPageUser d va pa perm = .ok (r, s')) : Consistent M s' := by
  have hlt : va < 2 ^ 39 := hva.trans (by decide)
  obtain ⟨-, -, hbut, -, hcons⟩ := mapPageUser_spec hs hlt (not_shared_of_user hva)
    (apart_of_ne s hlt (vpn2_ne_three_of_user hva)) h
  have hn := mapPageUser_notTable hs hu hva hva₀ hsrc h
  have hle : RefCount.refs s'.tgt (pa / 4096) ≤ RefCount.refs s.tgt (pa / 4096) + 1 := by
    refine RefCount.refs_le_of_off {leafSlot d va} fun x hx hp => ?_
    by_cases htab : x.IsTable
    · exact absurd ⟨x, htab, hp⟩ hn
    · rcases hbut x htab (by simpa using hx) with ⟨hkeep, -⟩ | ⟨t, ht, he⟩
      · rwa [tgt, ← hkeep]
      · rw [tgt, he] at hp
        exact absurd ((Option.some.inj hp) ▸ ht) hn
  rw [← hs.counted.count _ (hs.mem_of_tgt hsrc)] at hle
  refine hcons ⟨_, hsrc, .inr fun hself => ?_⟩ (by omega)
  have := selfTouched_window hlt hself
  simp [InWindowSlot, vpn2_ne_three_of_user hva₀] at this

/-- A page that a user address maps, at another user address. -/
theorem Guarded.map (h : Guarded M K1 K0 G s) (hva : va < ulim) (hd : s.pgdir d ≠ 0)
    {pa perm va₀ : Nat} {d₀ : D} {r : Int} (hva₀ : va₀ < ulim)
    (hsrc : s.tgt (leafSlot d₀ va₀) = some (pa / 4096)) (href : s.ppRef (pa / 4096) < 65535)
    (hG : ∀ d p, G d p → p ∉ s'.pageFreeList → G' d p)
    (hnew : r = 0 → s'.ent (leafSlot d va) = some (pa / 4096, perm ||| pteV) → perm &&& pteW ≠ 0 →
      G' d (pa / 4096))
    (ha : s.mapPageUser d va pa perm = .ok (r, s')) : Guarded M K1 K0 G' s' := by
  have hlt : va < 2 ^ 39 := hva.trans (by decide)
  obtain ⟨hf, he, hbut, hfail, -⟩ := mapPageUser_spec h.consistent hlt (not_shared_of_user hva)
    (apart_of_ne s hlt (vpn2_ne_three_of_user hva)) ha
  have hn := mapPageUser_notTable h.consistent h.userApart hva hva₀ hsrc ha
  refine h.leaf hlt hd
    (mapPageUser_consistent h.consistent h.userApart hva hva₀ hsrc href ha) hf hbut
    hG fun p perm' hp => ?_
  by_cases hr : r = 0
  · have he' := he hr
    obtain ⟨rfl, rfl⟩ := Prod.mk.inj (Option.some.inj (he'.symm.trans hp))
    refine ⟨fun _ => hn, fun h3 => absurd h3 (vpn2_ne_three_of_user hva), fun _ hw =>
      ⟨hn, hnew hr he' ?_⟩⟩
    rwa [or_pteV_and _ (by decide)] at hw
  · rw [(hfail hr).2] at hp
    cases hp

/-! ## Permission upgrades -/

omit [DecidableEq D] in
theorem ent_setKernel (hs : Consistent M s) {t : Nat} (ht : ¬ M t) (i : Vpn) (w : Nat) :
    (s.setPte t i w).ent = s.ent := by
  refine ent_congr rfl fun x p _ hp => setPte_mem_of_ne s i w ?_
  rintro rfl
  exact ht (hs.mem_of_tgt hp)

omit [DecidableEq D] in
theorem Consistent.of_ent {w : Nat} {t : Nat} {i : Vpn} (hs : Consistent M s)
    (hent : (s.setPte t i w).ent = s.ent) : Consistent M (s.setPte t i w) := by
  refine ⟨?_, hs.small, distinct_of_ent hs.distinct hent, hs.aligned, hs.ram⟩
  rw [tgt_eq_of_ent hent]
  exact hs.counted

omit [DecidableEq D] in
/-- Other bits for a page of the kernel half, not both `PTE_U` and `PTE_W`. -/
theorem Guarded.setKernel (h : Guarded M K1 K0 G s) {t w : Nat} {i : Vpn} (ht : K0 t)
    (hv : valid (s.mem t i)) (hw : userPage w = userPage (s.mem t i))
    (hro : w &&& pteU ≠ 0 → w &&& pteW = 0) : Guarded M K1 K0 G (s.setPte t i w) := by
  have hk := h.kernel
  have hent := ent_setKernel h.consistent (hk.own0 t ht) i w
  have hne : ∀ p, ¬ K0 p ∨ M p → p ≠ t := by
    rintro p (hp | hp) rfl
    · exact hp ht
    · exact hk.own0 p ht hp
  refine h.of_ent (h.consistent.of_ent hent) hent ⟨fun d j hd hj hvj => ?_, fun p j hp hvj => ?_,
    fun p j hp hvj hu => ?_, hk.levels, hk.own1,
    hk.own0⟩ (fun p j hp hvj hu => ?_) fun d p hg _ => hg
  · change s.pgdir d ≠ 0 at hd
    change valid ((s.setPte t i w).mem (s.pgdir d >>> 12) j) at hvj
    show K1 (ptePage ((s.setPte t i w).mem (s.pgdir d >>> 12) j))
    have hroot : M (s.pgdir d >>> 12) :=
      h.consistent.mem_of_tgt (x := .root d) (by simp [tgt, ent, ent.root, hd])
    rw [setPte_mem_of_ne s i w (hne _ (.inr hroot))] at hvj ⊢
    exact hk.table1 d j hd hj hvj
  · rw [setPte_mem_of_ne s i w (hne p (.inl (hk.levels p hp)))] at hvj ⊢
    exact hk.table0 p j hp hvj
  · rw [setPte_mem] at hvj hu ⊢
    split at hvj
    · rename_i hslot
      rw [if_pos hslot] at hu ⊢
      have hpage : ptePage w = ptePage (s.mem t i) := (Prod.mk.inj hw).1
      have hbit : w &&& pteU = s.mem t i &&& pteU := (Prod.mk.inj hw).2
      rw [hpage]
      exact hk.user t i ht hv (by rwa [← hbit])
    · rename_i hslot
      rw [if_neg hslot] at hu ⊢
      exact hk.user p j hp hvj hu
  · rw [setPte_mem] at hvj hu ⊢
    split at hvj
    · rename_i hslot
      rw [if_pos hslot] at hu ⊢
      exact hro hu
    · rename_i hslot
      rw [if_neg hslot] at hu ⊢
      exact h.readonly p j hp hvj hu

/-- Other bits for a page of the env's own. -/
theorem Guarded.setLeaf (h : Guarded M K1 K0 G s) (hva : va < 2 ^ 39) (hd : s.pgdir d ≠ 0)
    {t0 p perm w perm' : Nat} (ht : s.tgt (.pte1 d (vpn2 va) (vpn1 va)) = some t0)
    (he : s.ent (leafSlot d va) = some (p, perm)) (hw : entry w = some (p, perm'))
    (hcow : perm' &&& pteCow = perm &&& pteCow)
    (hwr : perm' &&& pteU ≠ 0 → perm' &&& pteW ≠ 0 → ¬ s.TablePage p ∧ G d p) :
    Guarded M K1 K0 G (s.setPte t0 (vpn0 va) w) := by
  obtain ⟨hs', hent⟩ :=
    permEntry_spec h.consistent (x := .pte1 d (vpn2 va) (vpn1 va)) trivial ht id he hw
  have hst : Stored M d va (some (p, perm')) s (s.setPte t0 (vpn0 va) w) :=
    storeLeaf_frame h.consistent ht hent rfl rfl
  refine h.leaf hva hd hs' (hst.frame.mono ?_) (hst.windowBut (.refl s)) (fun d p hg _ => hg)
    fun q perm₁ hq => ?_
  · rintro x rfl
    exact .inl (.inr (.inr (.inr rfl)))
  · rw [hst.ent, Function.update_self] at hq
    obtain ⟨rfl, rfl⟩ := Prod.mk.inj (Option.some.inj hq)
    refine ⟨fun hlt => ?_, fun h3 => ?_, fun hu hw' => ?_⟩
    · rw [hst.tablePage]
      have hus : va < ulim := by
        rw [vpn2_val] at hlt
        simp only [ulim]
        omega
      exact h.userApart d va hus p (tgt_eq_some.mpr ⟨perm, he⟩)
    · rw [hcow]
      rw [leafSlot, h3] at he
      exact h.noCow d _ _ p perm he
    · rw [hst.tablePage]
      exact hwr hu hw'

/-- `map_page` of a mapped page to where it is, with other bits. -/
theorem Guarded.upgrade (h : Guarded M K1 K0 G s) (hva : va < 2 ^ 39)
    (hm : s.isMappedPage d va = true) {bits : Nat} {r : Int} (hb : bits < 0x400)
    (hu : bits &&& pteU = 0) (hc : bits &&& pteCow = 0)
    (hw : bits &&& pteW ≠ 0 → s.getPerm d va &&& pteU ≠ 0 → ¬ shared (vpn2 va) ∧
      ¬ s.TablePage (s.getPa d va / 4096) ∧ G d (s.getPa d va / 4096))
    (hmap : s.mapPage d va (s.getPa d va) (s.getPerm d va ||| bits) = .ok (r, s')) :
    Guarded M K1 K0 G s' := by
  obtain ⟨hd, t0, hwalk, hv0, hl⟩ := exists_leafPte hm
  obtain ⟨t0', w, hwalk', -, rfl, hvw, hp, hperm⟩ := mapPage_upgrade hm hb hmap
  obtain rfl := Walk.pte0.inj (hwalk.symm.trans hwalk')
  rw [getPerm_of_leafPte hl, getPa_of_leafPte hl] at hw
  have hdiv : (ptePage (s.mem t0 (vpn0 va)) * 4096 + va % 4096) / 4096 =
      ptePage (s.mem t0 (vpn0 va)) := by omega
  rw [hdiv] at hw
  have hbit : ∀ b, bits &&& b = 0 → pteV &&& b = 0 →
      pte2perm w &&& b = pte2perm (s.mem t0 (vpn0 va)) &&& b := by
    intro b hb hV
    rw [hperm, Nat.and_or_distrib_right, Nat.and_or_distrib_right, hb, hV, Nat.or_zero, Nat.or_zero]
  by_cases hv : shared (vpn2 va)
  · have hK := h.kernel.table_of_walk hd hv hwalk
    have hU : w &&& pteU = s.mem t0 (vpn0 va) &&& pteU := by
      rw [← pte2perm_and w (by decide), hbit pteU hu (by decide), pte2perm_and _ (by decide)]
    refine h.setKernel hK hv0 (Prod.ext hp hU) fun hwu => ?_
    have hbw : bits &&& pteW = 0 := by
      by_contra hbw
      rw [hU, ← pte2perm_and _ (by decide)] at hwu
      exact (hw hbw hwu).1 hv
    rw [← pte2perm_and w (by decide), hbit pteW hbw (by decide), pte2perm_and _ (by decide)]
    rw [hU] at hwu
    exact h.readonly t0 (vpn0 va) hK hv0 hwu
  · have ht : s.tgt (.pte1 d (vpn2 va) (vpn1 va)) = some t0 := by
      rcases walk_cases s hd hv with ⟨t2, hn, -⟩ | ⟨t1, hn, -⟩ | ⟨t, hn, ht⟩
      · cases hwalk.symm.trans hn
      · cases hwalk.symm.trans hn
      · rw [Walk.pte0.inj (hwalk.symm.trans hn)]
        exact ht
    have he : s.ent (leafSlot d va) =
        some (ptePage (s.mem t0 (vpn0 va)), pte2perm (s.mem t0 (vpn0 va))) := by
      rw [ent_leafSlot ht, entry, if_pos hv0]
    have hew : entry w = some (ptePage (s.mem t0 (vpn0 va)), pte2perm w) := by
      rw [entry, if_pos hvw, hp]
    refine h.setLeaf hva hd ht he hew (hbit pteCow hc (by decide)) fun hwu hww => ?_
    rw [hbit pteU hu (by decide)] at hwu
    by_cases hbw : bits &&& pteW = 0
    · rw [hbit pteW hbw (by decide)] at hww
      exact h.granted _ _ _ _ _ _ he hwu hww
    · exact (hw hbw hwu).2

/-! ## Other stores -/

omit [DecidableEq D] in
theorem Consistent.write (hs : Consistent M s) {p : Nat} (hp : ¬ s.TablePage p) (f : Vpn → Nat) :
    Consistent M (s.writePage p f) := by
  have hent := writePage_ent hp f
  refine ⟨?_, hs.small, distinct_of_ent hs.distinct hent, hs.aligned, hs.ram⟩
  rw [tgt_eq_of_ent hent]
  exact hs.counted

omit [DecidableEq D] in
/-- A store to a data page of an env. -/
theorem Guarded.write (h : Guarded M K1 K0 G s) {p : Nat} (hM : M p) (hp : ¬ s.TablePage p)
    (f : Vpn → Nat) : Guarded M K1 K0 G (s.writePage p f) := by
  have hk := h.kernel
  have hent := writePage_ent hp f
  have hmem : ∀ t, t ≠ p → (s.writePage p f).mem t = s.mem t := by
    intro t ht
    simp [writePage, ht]
  have hne1 : ∀ t, K1 t → t ≠ p := by
    rintro t ht rfl
    exact hk.own1 t ht hM
  have hne0 : ∀ t, K0 t → t ≠ p := by
    rintro t ht rfl
    exact hk.own0 t ht hM
  refine h.of_ent (h.consistent.write hp f) hent
    ⟨fun d j hd hj hvj => ?_, fun t j ht => ?_, fun t j ht => ?_, hk.levels,
    hk.own1, hk.own0⟩ (fun t j ht => ?_) fun d p hg _ => hg
  · change s.pgdir d ≠ 0 at hd
    change valid ((s.writePage p f).mem (s.pgdir d >>> 12) j) at hvj
    show K1 (ptePage ((s.writePage p f).mem (s.pgdir d >>> 12) j))
    have hroot : s.pgdir d >>> 12 ≠ p := by
      rintro rfl
      exact hp ⟨.root d, trivial, by simp [tgt, ent, ent.root, hd]⟩
    rw [hmem _ hroot] at hvj ⊢
    exact hk.table1 d j hd hj hvj
  · rw [hmem t (hne1 t ht)]
    exact hk.table0 t j ht
  · rw [hmem t (hne0 t ht)]
    exact hk.user t j ht
  · rw [hmem t (hne0 t ht)]
    exact h.readonly t j ht

omit [DecidableEq D] in
/-- A shared root entry that leads to a table of the kernel half. -/
theorem Guarded.setShared (h : Guarded M K1 K0 G s) (hd : s.pgdir d ≠ 0) {i : Vpn} (hi : shared i)
    {w : Nat} (hw : K1 (ptePage w)) : Guarded M K1 K0 G (s.setPte (s.pgdir d >>> 12) i w) := by
  have hk := h.kernel
  have hroot : s.tgt (.root d) = some (s.pgdir d >>> 12) := by simp [tgt, ent, ent.root, hd]
  have hM := h.consistent.mem_of_tgt hroot
  have hmem : ∀ t, ¬ M t → (s.setPte (s.pgdir d >>> 12) i w).mem t = s.mem t := by
    intro t ht
    refine setPte_mem_of_ne s i w ?_
    rintro rfl
    exact ht hM
  refine h.of_ent (h.consistent.setShared hd hi w) (ent_setShared h.consistent.distinct hd hi w)
    ⟨fun d' j hd' hj hvj => ?_, fun t j ht => ?_, fun t j ht => ?_, hk.levels, hk.own1, hk.own0⟩
    (fun t j ht => ?_) fun d p hg _ => hg
  · rw [setPte_mem] at hvj ⊢
    split at hvj
    · rename_i hslot
      rw [if_pos hslot]
      exact hw
    · rename_i hslot
      rw [if_neg hslot]
      exact hk.table1 d' j hd' hj hvj
  · rw [hmem t (hk.own1 t ht)]
    exact hk.table0 t j ht
  · rw [hmem t (hk.own0 t ht)]
    exact hk.user t j ht
  · rw [hmem t (hk.own0 t ht)]
    exact h.readonly t j ht

end

end RiscvMos.Pmap
