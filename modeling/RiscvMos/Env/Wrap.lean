import RiscvMos.Pmap.Exhausted
import RiscvMos.Env.Reach
import Mathlib.Data.Finset.Prod

/-!
How far `pp_ref` counts. It is a `u_short`, and nothing stops an env from
mapping one page 65536 times.
-/

namespace RiscvMos.Pmap

open RefCount (refs)

variable {D : Type}

/-- Mapping page `p` at `va` does not give it its 65536th reference: the counter
has room, or `p` is there already, or the tables cannot be made. -/
def Fits (s : Pmap D) (d : D) (va p : Nat) : Prop :=
  s.ppRef p < 65535 ∨ (s.isMappedPage d va = true ∧ s.getPa d va / 4096 = p) ∨
    s.pageFreeList.length < s.pagesNeeded d va

instance (s : Pmap D) (d : D) (va p : Nat) : Decidable (s.Fits d va p) :=
  inferInstanceAs (Decidable (_ ∨ _))

variable [DecidableEq D] [Fintype D] {M : Nat → Prop} {s s' : Pmap D} {d : D} {va : Nat}

/-- A store of one entry is one reference more, at most. -/
theorem Stored.refs_le {v : Option (Nat × Nat)} (h : Stored M d va v s s') (p : Nat) :
    refs s'.tgt p ≤ refs s.tgt p + 1 := by
  apply RefCount.refs_le_of_off {leafSlot d va}
  intro x hx hp
  rw [Finset.mem_singleton] at hx
  rw [← h.frame.tgt_eq hx]
  exact hp

omit [DecidableEq D] [Fintype D] in
theorem user_ne_window {w : Nat} {d' : D} (hva : va < ulim) (hw : InWindow w) :
    leafSlot d va ≠ leafSlot d' w := by
  intro heq
  have h3 : vpn2 va = vpn2 w := (Slot.pte0.inj heq).2.1
  rw [hw.vpn2_eq] at h3
  exact vpn2_ne_three_of_user hva h3

section
variable {w q p : Nat} {c : Slot D} {d₀ : D} {va₀ : Nat}

omit [DecidableEq D] in
theorem Shown.source (h : Shown M d w c q s s') (hva₀ : va₀ < ulim) (hw : InWindow w)
    (hc : c.IsTable)
    (hsrc : s.tgt (leafSlot d₀ va₀) = some p) : s'.tgt (leafSlot d₀ va₀) = some p := by
  rw [tgt, h.leaf hc id (user_ne_window hva₀ hw)]
  exact hsrc

omit [DecidableEq D] in
theorem Shown.ppRef_le (h : Shown M d w c q s s') {y : Slot D} (hy : s.tgt y = some p) :
    s'.ppRef p ≤ s.ppRef p := by
  rw [h.ppRef p y hy]
  split
  · exact Nat.sub_le _ _
  · exact Nat.le_refl _

end

section
variable {pa perm va₀ : Nat} {d₀ : D} {r : Int}

/-- The last step of `map_page_user`, where the counter has room. -/
theorem mapLeaf_fits (hs : Consistent M s) (hperm : perm < 0x400) (hpa : mappablePa pa)
    (hsrc : s.tgt (leafSlot d₀ va₀) = some (pa / 4096)) {t0 : Nat}
    (ht : s.tgt (.pte1 d (vpn2 va) (vpn1 va)) = some t0) (hnone : s.ent (leafSlot d va) = none)
    (href : s.ppRef (pa / 4096) < 65535) : Consistent M (mapLeaf va pa perm s t0) := by
  have hM := hs.mem_of_tgt hsrc
  obtain ⟨hst, hcons⟩ := mapLeaf_spec hs ht hnone hperm hpa
  apply hcons hM (hs.counted.not_free_of_tgt hsrc)
  have hle := hst.refs_le (pa / 4096)
  rw [← hs.counted.count _ hM] at hle
  omega

theorem createPte0_fits (hs : Consistent M s) (hva : va < ulim) (hva₀ : va₀ < ulim)
    (hperm : perm < 0x400)
    (hpa : mappablePa pa) (hsrc : s.tgt (leafSlot d₀ va₀) = some (pa / 4096))
    (hd : s.pgdir d ≠ 0) {t1 : Nat}
    (ht : s.tgt (.pte2 d (vpn2 va)) = some t1) (hnone : s.ent (.pte1 d (vpn2 va) (vpn1 va)) = none)
    (href : s.ppRef (pa / 4096) < 65535)
    (h : createPte0 (selfMap d) (mapAt va pa perm) s t1 va = .ok (r, s')) :
    Consistent M s' := by
  have hlt : va < 2 ^ 39 := hva.trans (by decide)
  have hw := selfVa0_inWindow hlt
  have hoff : ¬ OnPath d (selfVa0 va) (.pte1 d (vpn2 va) (vpn1 va)) := by
    intro hpath
    have := hw.onPath hpath
    simp [InWindowSlot, vpn2_ne_three_of_user hva] at this
  obtain ⟨r', s₁, h₁, hout⟩ := createPte0_out hs (mapAt_needs va pa perm) hlt hd hoff ht hnone
  obtain ⟨rfl, rfl⟩ := Prod.mk.inj (Except.ok.inj (h₁.symm.trans h))
  cases hout with
  | noTable => exact hs
  | noLeaf h hshown hfew => exact hshown.consistent
  | done h hshown henough hm =>
    obtain ⟨-, rfl⟩ := Prod.mk.inj (Except.ok.inj hm)
    have hsrc₁ := hshown.source hva₀ hw trivial hsrc
    apply mapLeaf_fits hshown.consistent hperm hpa hsrc₁ hshown.made
    · rw [hshown.leaf trivial id (user_ne_window hva hw)]
      exact leaf_none_of_pte1 hnone
    · exact Nat.lt_of_le_of_lt (hshown.ppRef_le hsrc) href

theorem createPte1_fits (hs : Consistent M s) (hva : va < ulim) (hva₀ : va₀ < ulim)
    (hperm : perm < 0x400)
    (hpa : mappablePa pa) (hsrc : s.tgt (leafSlot d₀ va₀) = some (pa / 4096))
    (hd : s.pgdir d ≠ 0) {t2 : Nat}
    (ht : s.tgt (.root d) = some t2) (hnone : s.ent (.pte2 d (vpn2 va)) = none)
    (href : s.ppRef (pa / 4096) < 65535)
    (h : createPte1 (selfMap d) (mapAt va pa perm) s t2 va = .ok (r, s')) :
    Consistent M s' := by
  have hlt : va < 2 ^ 39 := hva.trans (by decide)
  have hw := selfVa1_inWindow hlt
  have hoff : ∀ x, x = .pte2 d (vpn2 va) ∨ x = .pte1 d (vpn2 va) (vpn1 va) →
      ¬ OnPath d (selfVa1 va) x := by
    rintro x (rfl | rfl) hpath
    · have := hw.onPath hpath
      simp [InWindowSlot, vpn2_ne_three_of_user hva] at this
    · have := hw.onPath hpath
      simp [InWindowSlot, vpn2_ne_three_of_user hva] at this
  unfold createPte1 at h
  cases ha : s.allocEntry t2 (vpn2 va) 0 with
  | none =>
    rw [ha] at h
    obtain ⟨-, rfl⟩ := Prod.mk.inj (Except.ok.inj h)
    exact hs
  | some e =>
    obtain ⟨q, s₁⟩ := e
    rw [ha] at h
    obtain ⟨s₂, h₂, hshown⟩ :=
      table_shown hs (x := .root d) trivial ht (not_shared_of_user hva) trivial hnone ha hw
      (hoff _ (.inl rfl)) hd (vpn1 va)
    obtain ⟨s₂', h₂', h⟩ := Except.bind_ok_iff.mp h
    obtain rfl := Except.ok.inj (h₂.symm.trans h₂')
    have hroot : s₂.pgdir d ≠ 0 := by
      intro h0
      have hr := hshown.table (.root d) _ trivial ht
      simp [tgt, ent, ent.root, h0] at hr
    apply createPte0_fits hshown.consistent hva hva₀ hperm hpa
      (hshown.source hva₀ hw trivial hsrc) hroot hshown.made _ _ h
    · rw [hshown.off _ (hoff _ (.inr rfl)) (by simp [Slot.child])]
      exact pte1_none_of_pte2 hnone
    · exact Nat.lt_of_le_of_lt (hshown.ppRef_le hsrc) href

theorem createPte2_fits (hs : Consistent M s) (hva : va < ulim) (hva₀ : va₀ < ulim)
    (hperm : perm < 0x400)
    (hpa : mappablePa pa) (hsrc : s.tgt (leafSlot d₀ va₀) = some (pa / 4096)) (hd : s.pgdir d = 0)
    (href : s.ppRef (pa / 4096) < 65535)
    (h : createPte2 (selfMap d) (mapAt va pa perm) s d va = .ok (r, s')) :
    Consistent M s' := by
  have hlt : va < 2 ^ 39 := hva.trans (by decide)
  have hw := selfVa2_inWindow hlt
  have hvw : ¬ shared (vpn2 (selfVa2 va)) := by rw [hw.vpn2_eq]; decide
  unfold createPte2 at h
  cases ha : s.pageAlloc with
  | none =>
    rw [ha] at h
    obtain ⟨-, rfl⟩ := Prod.mk.inj (Except.ok.inj h)
    exact hs
  | some e =>
    obtain ⟨q, s₀⟩ := e
    rw [ha] at h
    obtain ⟨rest, hl, hs₀⟩ := pageAlloc_eq_some ha
    obtain ⟨hs₁, hent₁, href₁, -⟩ := newRoot_spec hs hd ha
    dsimp only at h
    obtain ⟨s₂, h₂, h⟩ := Except.bind_ok_iff.mp h
    have hpq : pa / 4096 ≠ q := by
      intro heq
      exact hs.counted.tgt_ne_of_free (by simp [hl]) _ (heq ▸ hsrc)
    have hother : ∀ x, x ≠ .root d → ((s₀.setPgdir d (page2pa q)).incRef q).ent x = s.ent x := by
      intro x hx
      rw [hent₁, Function.update_of_ne hx]
    have htgt₁ : ((s₀.setPgdir d (page2pa q)).incRef q).tgt (.root d) = some q := by
      rw [tgt, hent₁, Function.update_self]
      rfl
    have hsrc₁ : ((s₀.setPgdir d (page2pa q)).incRef q).tgt (leafSlot d₀ va₀) =
        some (pa / 4096) := by
      rw [tgt, hother _ (by simp)]
      exact hsrc
    have href₀ : ((s₀.setPgdir d (page2pa q)).incRef q).ppRef (pa / 4096) =
        s.ppRef (pa / 4096) := by
      subst hs₀
      exact Function.update_of_ne hpq _ _
    have hroot₁ : ((s₀.setPgdir d (page2pa q)).incRef q).pgdir d ≠ 0 := by
      intro h0
      simp [tgt, ent, ent.root, h0] at htgt₁
    obtain ⟨hs₂, hf₂, -⟩ := selfMap_spec hs₁ hw ⟨.root d, trivial, by rw [pteAddr_div]; exact htgt₁⟩
      (by rw [pteAddr_div, href₁]) h₂
    obtain ⟨⟨r₂, s₂'⟩, hm, h₂'⟩ := Except.bind_ok_iff.mp h₂
    obtain rfl := Except.ok.inj h₂'
    have href₂ := mapPage_ppRef hs₁ hroot₁ hvw hm (hs₁.counted.not_free_of_tgt hsrc₁)
      (by rw [pteAddr_div]; exact hpq)
    have hkeep : ∀ x, ¬ InWindowSlot d x →
        s₂'.ent x = ((s₀.setPgdir d (page2pa q)).incRef q).ent x :=
      fun x hx => hf₂.ent_eq x fun hpath => hx (hw.onPath hpath)
    have hsrc₂ : s₂'.tgt (leafSlot d₀ va₀) = some (pa / 4096) := by
      rw [tgt, hkeep _ (by simp [InWindowSlot, vpn2_ne_three_of_user hva₀])]
      exact hsrc₁
    have hroot₂ : s₂'.pgdir d ≠ 0 := by
      intro h0
      have hr := hf₂.table (.root d) _ trivial htgt₁
      simp [tgt, ent, ent.root, h0] at hr
    apply createPte1_fits hs₂ hva hva₀ hperm hpa hsrc₂ hroot₂
      (hf₂.table (.root d) _ trivial htgt₁) _ _ h
    · rw [hkeep _ (by simp [InWindowSlot, vpn2_ne_three_of_user hva]), hother _ (by simp)]
      exact ent_child_none (x := .root d) trivial (by simp [ent, ent.root, hd]) _
    · show s₂'.ppRef _ < 65535
      rw [href₂]
      split <;> omega

/-- `map_page_user` of a page that a user address maps. -/
theorem mapPageUser_fits (hs : Consistent M s) (hva : va < ulim) (hva₀ : va₀ < ulim)
    (hsrc : s.tgt (leafSlot d₀ va₀) = some (pa / 4096)) (hfits : s.Fits d va (pa / 4096))
    (h : s.mapPageUser d va pa perm = .ok (r, s')) : Consistent M s' := by
  have hv := not_shared_of_user hva
  have hM := hs.mem_of_tgt hsrc
  have hcode := h
  unfold mapPageUser at h
  split at h
  · cases h
  split at h
  · cases h
  rename_i hperm hpa
  have hperm' : perm < 0x400 := Nat.not_le.mp hperm
  have hpa' := not_not.mp hpa
  have hsmall := hs.small _ hM
  have hcount := hs.counted.count _ hM
  by_cases hm : s.missing d va = 0
  · obtain ⟨t0, ht, hfound⟩ :=
      descend_found (selfMap d) (mapAt va pa perm) (remapLeaf va pa perm) hv hm
    obtain ⟨s₁, h₁, hst, hcons⟩ := remapLeaf_spec hs ht hperm' hpa'
    obtain ⟨-, rfl⟩ := Prod.mk.inj (Except.ok.inj ((hfound.trans h₁).symm.trans h))
    apply hcons hM (hs.counted.not_free_of_tgt hsrc)
    rcases hfits with href | ⟨hmapped, hpage⟩ | hfew
    · have hle := hst.refs_le (pa / 4096)
      omega
    · -- the page is there already, and no slot is new
      obtain ⟨perm', hview⟩ := view_of_isMappedPage hv hmapped
      have hle : refs s₁.tgt (pa / 4096) ≤ refs s.tgt (pa / 4096) + 0 := by
        apply RefCount.refs_le_of_off ∅
        intro x _ hx
        by_cases hleaf : x = leafSlot d va
        · rw [hleaf, ← hpage]
          exact tgt_eq_some.mpr ⟨perm', hview⟩
        · rw [← hst.frame.tgt_eq hleaf]
          exact hx
      omega
    · unfold pagesNeeded at hfew
      rw [hm] at hfew
      exact absurd hfew (Nat.not_lt_zero _)
  · rcases hfits with href | ⟨hmapped, -⟩ | hfew
    · rw [descend] at h
      by_cases hd : s.pgdir d = 0
      · rw [if_pos hd] at h
        exact createPte2_fits hs hva hva₀ hperm' hpa' hsrc hd href h
      rw [if_neg hd] at h
      rcases walk_cases s hd hv with ⟨t2, hw, ht, hn⟩ | ⟨t1, hw, ht, hn⟩ | ⟨t0, hw, -⟩
        <;> rw [hw] at h
      · exact createPte1_fits hs hva hva₀ hperm' hpa' hsrc hd ht hn href h
      · exact createPte0_fits hs hva hva₀ hperm' hpa' hsrc hd ht hn href h
      · unfold missing at hm
        rw [if_neg hd, hw] at hm
        exact absurd rfl hm
    · exact absurd (view_of_missing hv hm) ((mapped_iff hv).mp hmapped)
    · obtain ⟨r', s₁, h₁, hr, hneg⟩ := mapPageUser_code (d := d) hs hva hperm' hpa'
      obtain ⟨rfl, rfl⟩ := Prod.mk.inj (Except.ok.inj (h₁.symm.trans hcode))
      have hne : r' ≠ 0 := fun h0 => by
        have := hr.mp h0
        omega
      rw [hneg hne] at h
      have hlt : va < 2 ^ 39 := hva.trans (by decide)
      exact (descend_fail hs selfMap_spec hlt hv (apart_of_ne s hlt (vpn2_ne_three_of_user hva))
        (mapAt_needs va pa perm) hm h).1

end

end RiscvMos.Pmap

namespace RiscvMos.Kernel

open Pmap

/-- `sys_mem_map` and `sys_mem_unmap`. -/
inductive MapCall where
  | map (srcid srcva dstid dstva perm : Nat)
  | unmap (envid va : Nat)

def MapCall.exec (k : Kernel) : MapCall → Except Halt (Int × Kernel)
  | map srcid srcva dstid dstva perm => k.sysMemMap srcid srcva dstid dstva perm
  | unmap envid va => k.sysMemUnmap envid va

/-- The counter of the page has room for the mapping that the call makes. -/
def MapCall.Fits (k : Kernel) (cur : EnvIdx) : MapCall → Prop
  | map srcid srcva dstid dstva _ => ∀ src dst, k.envid2env cur srcid (k.envs cur).envId = .ok src →
      k.envid2env cur dstid (k.envs cur).envId = .ok dst → ¬ isIllegalVa srcva →
      ¬ isIllegalVa dstva →
      k.pmap.isMappedPage src srcva = true → k.pmap.Fits dst dstva (k.pmap.getPa src srcva / 4096)
  | unmap .. => True

/-- Calls by any envs, one after the other. -/
inductive MapRun (ok : Kernel → EnvIdx → MapCall → Prop) (k : Kernel) : Kernel → Prop where
  | nil : MapRun ok k k
  | call {k₁ k₂ : Kernel} {cur : EnvIdx} {c : MapCall} {r : Int} (run : MapRun ok k k₁)
    (hok : ok k₁ cur c)
      (h : c.exec { k₁ with curenv := some cur } = .ok (r, k₂)) : MapRun ok k k₂

variable {k k' : Kernel} {M : Nat → Prop}

theorem MapCall.consistent (hs : Consistent M k.pmap) {cur : EnvIdx} {c : MapCall} {r : Int}
    (hfits : c.Fits k cur)
    (h : c.exec { k with curenv := some cur } = .ok (r, k')) : Consistent M k'.pmap := by
  cases c with
  | map srcid srcva dstid dstva perm =>
    rcases sysMemMap_ok h with rfl | ⟨c, src, dst, s, hc, hsrc, hdst, hsv, hdv, hm, hs', rfl⟩
    · exact hs
    · obtain rfl := Option.some.inj hc
      have hva := lt_ulim_of_not_illegal hsv
      obtain ⟨perm', hview⟩ := view_of_isMappedPage (not_shared_of_user hva) hm
      exact mapPageUser_fits hs (lt_ulim_of_not_illegal hdv) hva (tgt_eq_some.mpr ⟨perm', hview⟩)
        (hfits src dst hsrc hdst hsv hdv hm) hs'
  | unmap envid va =>
    rcases sysMemUnmap_ok h with rfl | ⟨c, e, s, -, -, hv, hs', rfl⟩
    · exact hs
    · have hva := lt_ulim_of_not_illegal hv
      obtain ⟨s₁, h₁, hs₁, -⟩ := unmapPage_ok (d := e) hs (not_shared_of_user hva)
        (Addressable.not_kernel (.inl hva))
      obtain ⟨-, rfl⟩ := Prod.mk.inj (Except.ok.inj (h₁.symm.trans hs'))
      exact hs₁

theorem mapRun_consistent (hs : Consistent M k.pmap)
    (h : MapRun (fun k cur c => c.Fits k cur) k k') :
    Consistent M k'.pmap := by
  induction h with
  | nil => exact hs
  | call run hok h ih => exact MapCall.consistent ih hok h

/-- As long as every counter has room for the mapping that is made, a page that
some entry maps has a count and is not free. -/
theorem mapRun_counted (hs : Consistent M k.pmap) (h : MapRun (fun k cur c => c.Fits k cur) k k')
    {x : Slot EnvIdx}
    {p : Nat} (hx : k'.pmap.tgt x = some p) : k'.pmap.ppRef p ≠ 0 ∧ p ∉ k'.pmap.pageFreeList := by
  have hs' := mapRun_consistent hs h
  exact ⟨(hs'.counted.ref_pos_of_tgt hx).ne', hs'.counted.not_free_of_tgt hx⟩

/-! ## A page with 65535 references -/

/-- One directory with 128 last-level tables, every entry of which but the last
maps page `0x82002`. -/
def fullPmap : Pmap EnvIdx :=
  { mem := fun p i =>
      if p = 0x82000 then (if i = 0 then mkPte (page2pa 0x82001) 0 else 0)
      else if p = 0x82001 then
        (if 2 ≤ i.val ∧ i.val < 130 then mkPte (page2pa (0x82001 + i.val)) 0 else 0)
      else if 0x82003 ≤ p ∧ p < 0x82083 ∧
          ¬ (p = 0x82082 ∧ i = 511) then mkPte (page2pa 0x82002) (pteR ||| pteU)
      else 0
    ppRef := fun p => if p = 0x82002 then 65535 else 1
    pageFreeList := []
    pgdir := fun e => if e = 0 then page2pa 0x82000 else 0 }

theorem fullPmap_root (d : EnvIdx) :
    fullPmap.tgt (.root d) = if d = 0 then some 0x82000 else none := by
  unfold tgt ent ent.root
  by_cases hd : d = 0
  · subst hd
    rfl
  · rw [if_neg hd]
    simp [fullPmap, hd]

theorem fullPmap_pte2 (d : EnvIdx) (i : Vpn) :
    fullPmap.tgt (.pte2 d i) = if d = 0 ∧ i = 0 then some 0x82001 else none := by
  by_cases hi : shared i
  · have hne : i ≠ 0 := by
      rintro rfl
      exact absurd hi (by decide)
    rw [if_neg (fun h => hne h.2), tgt, show fullPmap.ent (.pte2 d i) = none from
      ent_child_leaves (x := .root d) fullPmap hi]
    rfl
  · have h := tgt_child fullPmap (x := .root d) trivial hi
    rw [Slot.child, fullPmap_root] at h
    rw [h]
    by_cases hd : d = 0
    · by_cases h0 : i = 0
      · subst h0
        rw [if_pos hd, if_pos ⟨hd, rfl⟩]
        decide +kernel
      · rw [if_pos hd, if_neg (fun h => h0 h.2)]
        simp [fullPmap, h0]
    · rw [if_neg hd, if_neg (fun h => hd h.1)]
      rfl

theorem fullPmap_pte1 (d : EnvIdx) (i j : Vpn) : fullPmap.tgt (.pte1 d i j) =
    if d = 0 ∧ i = 0 ∧ 2 ≤ j.val ∧ j.val < 130 then some (0x82001 + j.val) else none := by
  have h := tgt_child fullPmap (x := .pte2 d i) (i := j) trivial id
  rw [Slot.child, fullPmap_pte2] at h
  rw [h]
  by_cases hdi : d = 0 ∧ i = 0
  · rw [if_pos hdi, Option.bind_some]
    by_cases hj : 2 ≤ j.val ∧ j.val < 130
    · rw [if_pos ⟨hdi.1, hdi.2, hj⟩]
      have hmem : fullPmap.mem 0x82001 j = mkPte (page2pa (0x82001 + j.val)) 0 := by
        simp [fullPmap, hj]
      have hlt : page2pa (0x82001 + j.val) < 2 ^ 56 := by
        rw [page2pa, Nat.shiftLeft_eq]
        omega
      rw [hmem, entry_mkPte (by decide) hlt, page2pa_div]
      rfl
    · rw [if_neg (fun h => hj h.2.2)]
      have hmem : fullPmap.mem 0x82001 j = 0 := by simp [fullPmap, hj]
      rw [hmem, entry_zero]
      rfl
  · rw [if_neg hdi, if_neg (fun h => hdi ⟨h.1, h.2.1⟩)]
    rfl

theorem fullPmap_pte0 (d : EnvIdx) (i j l : Vpn) : fullPmap.tgt (.pte0 d i j l) =
    if d = 0 ∧ i = 0 ∧ 2 ≤ j.val ∧ j.val < 130 ∧ ¬ (j.val = 129 ∧ l = 511) then some 0x82002
    else none := by
  have h := tgt_child fullPmap (x := .pte1 d i j) (i := l) trivial id
  rw [Slot.child, fullPmap_pte1] at h
  rw [h]
  by_cases hdi : d = 0 ∧ i = 0 ∧ 2 ≤ j.val ∧ j.val < 130
  · rw [if_pos hdi, Option.bind_some]
    obtain ⟨hd, hi, hj, hj'⟩ := hdi
    by_cases hl : j.val = 129 ∧ l = 511
    · rw [if_neg (fun h => h.2.2.2.2 hl)]
      have hmem : fullPmap.mem (0x82001 + j.val) l = 0 := by simp [fullPmap, hl]
      rw [hmem, entry_zero]
      rfl
    · rw [if_pos ⟨hd, hi, hj, hj', hl⟩]
      have hmem : fullPmap.mem (0x82001 + j.val) l = mkPte (page2pa 0x82002) (pteR ||| pteU) := by
        have h1 : 0x82001 + j.val ≠ 0x82000 := by omega
        have h2 : 0x82001 + j.val ≠ 0x82001 := by omega
        have h3 : 0x82003 ≤ 0x82001 + j.val ∧ 0x82001 + j.val < 0x82083 ∧
            ¬ (0x82001 + j.val = 0x82082 ∧ l = 511) := by
          refine ⟨by omega, by omega, fun h => hl ⟨by omega, h.2⟩⟩
        unfold fullPmap
        simp only [if_neg h1, if_neg h2, if_pos h3]
      rw [hmem, entry_mkPte (by decide) (by decide), page2pa_div]
      rfl
  · rw [if_neg hdi, if_neg (fun h => hdi ⟨h.1, h.2.1, h.2.2.1, h.2.2.2.1⟩)]
    rfl

def FullPage (p : Nat) : Prop := 0x82000 ≤ p ∧ p < 0x82083

/-- The entries that map the page. -/
def fullSlots : Finset (Slot EnvIdx) :=
  (((Finset.univ.filter fun j : Vpn => 2 ≤ j.val ∧ j.val < 130) ×ˢ (Finset.univ : Finset Vpn)).erase
    (129, 511)).image
    fun e => .pte0 0 0 e.1 e.2

theorem fullSlots_card : fullSlots.card = 65535 := by
  have hrows : (Finset.univ.filter fun j : Vpn => 2 ≤ j.val ∧ j.val < 130).card =
      128 := by decide +kernel
  unfold fullSlots
  rw [Finset.card_image_of_injective, Finset.card_erase_of_mem, Finset.card_product, hrows,
    Finset.card_univ, Fintype.card_fin]
  · simp
  · rintro ⟨j, l⟩ ⟨j', l'⟩ h
    obtain ⟨-, -, h1, h0⟩ := Slot.pte0.inj h
    exact Prod.ext h1 h0

theorem mem_fullSlots (x : Slot EnvIdx) : x ∈ fullSlots ↔ fullPmap.tgt x = some 0x82002 := by
  unfold fullSlots
  simp only [Finset.mem_image, Finset.mem_erase, Finset.mem_product, Finset.mem_filter,
    Finset.mem_univ, true_and, and_true, Prod.exists, ne_eq, Prod.mk.injEq]
  constructor
  · rintro ⟨j, l, ⟨hne, hj⟩, rfl⟩
    rw [fullPmap_pte0, if_pos ⟨rfl, rfl, hj.1, hj.2, fun h => hne ⟨Fin.ext h.1, h.2⟩⟩]
  · intro h
    cases x with
    | root d =>
      rw [fullPmap_root] at h
      split at h <;> cases h
    | pte2 d i =>
      rw [fullPmap_pte2] at h
      split at h <;> cases h
    | pte1 d i j =>
      rw [fullPmap_pte1] at h
      split at h
      · have := Option.some.inj h
        omega
      · cases h
    | pte0 d i j l =>
      rw [fullPmap_pte0] at h
      split at h
      · rename_i hc
        obtain ⟨rfl, rfl, hj, hj', hl⟩ := hc
        refine ⟨j, l, ⟨?_, hj, hj'⟩, rfl⟩
        rintro ⟨rfl, rfl⟩
        exact hl ⟨rfl, rfl⟩
      · cases h

/-- The slot of a table page. -/
def tableSlot (p : Nat) : Slot EnvIdx :=
  if p = 0x82000 then .root 0 else if p = 0x82001 then .pte2 0 0
  else .pte1 0 0 (Fin.ofNat 512 (p - 0x82001))

theorem tableSlot_iff {p : Nat} (hp : FullPage p) (h2 : p ≠ 0x82002) (x : Slot EnvIdx) :
    fullPmap.tgt x = some p ↔ x = tableSlot p := by
  unfold FullPage at hp
  unfold tableSlot
  cases x with
  | root d =>
    rw [fullPmap_root]
    by_cases h0 : p = 0x82000
    · rw [h0, if_pos rfl, Slot.root.injEq]
      by_cases hd : d = 0
      · rw [if_pos hd]
        exact iff_of_true rfl hd
      · rw [if_neg hd]
        exact iff_of_false (Option.some_ne_none _).symm hd
    · apply iff_of_false
      · intro h
        split at h
        · exact h0 (Option.some.inj h).symm
        · cases h
      · rw [if_neg h0]
        intro h
        split at h <;> cases h
  | pte2 d i =>
    rw [fullPmap_pte2]
    by_cases h1 : p = 0x82001
    · have hne : ¬ (0x82001 = 0x82000) := by omega
      rw [h1, if_neg hne, if_pos rfl, Slot.pte2.injEq]
      by_cases hdi : d = 0 ∧ i = 0
      · rw [if_pos hdi]
        exact iff_of_true rfl hdi
      · rw [if_neg hdi]
        exact iff_of_false (Option.some_ne_none _).symm hdi
    · apply iff_of_false
      · intro h
        split at h
        · exact h1 (Option.some.inj h).symm
        · cases h
      · rw [if_neg h1]
        intro h
        split at h <;> cases h
  | pte1 d i j =>
    rw [fullPmap_pte1]
    by_cases h0 : p = 0x82000
    · simp only [h0, if_true, reduceCtorEq, iff_false]
      split
      · intro h
        have := Option.some.inj h
        omega
      · exact fun h => by cases h
    · by_cases h1 : p = 0x82001
      · subst h1
        simp only [if_neg h0, if_true, reduceCtorEq, iff_false]
        split
        · intro h
          have := Option.some.inj h
          omega
        · exact fun h => by cases h
      · simp only [if_neg h0, if_neg h1, Slot.pte1.injEq, Fin.ext_iff, Fin.val_ofNat]
        have hd : d = 0 ↔ d.val = 0 := Fin.ext_iff
        have hi : i = 0 ↔ i.val = 0 := Fin.ext_iff
        constructor
        · split
          · rename_i hc
            intro h
            have := Option.some.inj h
            omega
          · exact fun h => by cases h
        · rintro ⟨h1', h2', h3'⟩
          rw [if_pos (by omega)]
          congr 1
          omega
  | pte0 d i j l =>
    rw [fullPmap_pte0]
    constructor
    · split
      · intro h
        exact absurd (Option.some.inj h).symm h2
      · exact fun h => by cases h
    · intro h
      split at h
      · cases h
      · split at h <;> cases h

theorem fullPmap_refs {p : Nat} (hp : FullPage p) :
    RefCount.refs fullPmap.tgt p = fullPmap.ppRef p := by
  show _ = if p = 0x82002 then 65535 else 1
  by_cases h2 : p = 0x82002
  · rw [if_pos h2, ← fullSlots_card, h2]
    exact RefCount.refs_eq_card _ fun x => (mem_fullSlots x).symm
  · rw [if_neg h2, ← Finset.card_singleton (tableSlot p)]
    apply RefCount.refs_eq_card
    intro x
    rw [tableSlot_iff hp h2, Finset.mem_singleton]

theorem fullPmap_consistent : Consistent FullPage fullPmap := by
  have hsub : ∀ x p, fullPmap.tgt x = some p → FullPage p := by
    intro x p h
    unfold FullPage
    cases x with
    | root d =>
      rw [fullPmap_root] at h
      split at h
      · have := Option.some.inj h
        omega
      · cases h
    | pte2 d i =>
      rw [fullPmap_pte2] at h
      split at h
      · have := Option.some.inj h
        omega
      · cases h
    | pte1 d i j =>
      rw [fullPmap_pte1] at h
      split at h
      · have := Option.some.inj h
        omega
      · cases h
    | pte0 d i j l =>
      rw [fullPmap_pte0] at h
      split at h
      · have := Option.some.inj h
        omega
      · cases h
  have hpos : ∀ p, fullPmap.ppRef p ≠ 0 ∧ fullPmap.ppRef p < 65536 := by
    intro p
    show (if p = 0x82002 then 65535 else 1) ≠ 0 ∧ (if p = 0x82002 then 65535 else 1) < 65536
    split
    · simp
    · simp
  refine ⟨⟨fun p hp => (fullPmap_refs hp).symm, fun p _ => ?_, List.nodup_nil, ?_, hsub⟩,
    fun p _ => (hpos p).2, ?_, ?_, ?_⟩
  · exact iff_of_false List.not_mem_nil (hpos p).1
  · intro p hp
    cases hp
  · intro x y p hx hy hxp hyp
    have hp := hsub x p hxp
    by_cases h2 : p = 0x82002
    · exfalso
      rw [h2, ← mem_fullSlots] at hxp
      rw [fullSlots, Finset.mem_image] at hxp
      obtain ⟨e, -, rfl⟩ := hxp
      exact hx
    · rw [(tableSlot_iff hp h2 x).mp hxp, (tableSlot_iff hp h2 y).mp hyp]
  · intro d
    show (if d = 0 then page2pa 0x82000 else 0) % 4096 = 0
    split
    · rw [page2pa, Nat.shiftLeft_eq]
    · rfl
  · intro p hp
    unfold FullPage at hp
    simp only [inRam]
    omega

/-- The state a call by env 0 leaves. -/
def MapCall.after (k : Kernel) (c : MapCall) : Kernel :=
  match c.exec { k with curenv := some 0 } with
  | .ok (_, k') => k'
  | .error _ => k

def MapCall.returns (k : Kernel) (c : MapCall) : Bool :=
  match c.exec { k with curenv := some 0 } with
  | .ok (r, _) => r == 0
  | .error _ => false

theorem MapCall.exec_after {c : MapCall} (h : c.returns k = true) :
    c.exec { k with curenv := some 0 } = .ok (0, c.after k) := by
  unfold returns at h
  unfold after
  cases hx : c.exec { k with curenv := some 0 } with
  | error e => simp [hx] at h
  | ok r =>
    obtain ⟨r, k'⟩ := r
    rw [hx] at h
    have hr : r = 0 := by simpa using h
    rw [hr]

def fullKernel : Kernel := envInit fullPmap 0x82000000

/-- Takes one reference from the page. -/
def fullUnmap : MapCall := .unmap 0 0x400000

/-- Maps the page at the last entry. -/
def fullMap : MapCall := .map 0 0x401000 0 0x103ff000 (pteR ||| pteU)

theorem mapRun_counted_full : ∃ k', MapRun (fun k cur c => c.Fits k cur) fullKernel k' ∧
    k'.pmap.tgt (.pte0 0 0 129 511) = some 0x82002 ∧
    k'.pmap.ppRef 0x82002 ≠ 0 ∧ 0x82002 ∉ k'.pmap.pageFreeList := by
  have h₁ : fullUnmap.exec { fullKernel with curenv := some 0 } =
      .ok (0, fullUnmap.after fullKernel) :=
    MapCall.exec_after (by decide +kernel)
  have h₂ : fullMap.exec { fullUnmap.after fullKernel with curenv := some 0 } =
      .ok (0, fullMap.after (fullUnmap.after fullKernel)) := MapCall.exec_after (by decide +kernel)
  have hfits : fullMap.Fits (fullUnmap.after fullKernel) 0 := by
    intro src dst hsrc hdst _ _ _
    obtain rfl := Except.ok.inj hsrc
    obtain rfl := Except.ok.inj hdst
    exact .inl (by decide +kernel)
  have hrun : MapRun (fun k cur c => c.Fits k cur) fullKernel
      (fullMap.after (fullUnmap.after fullKernel)) :=
    .call (.call .nil (show fullUnmap.Fits fullKernel 0 from trivial) h₁) hfits h₂
  have htgt : (fullMap.after (fullUnmap.after fullKernel)).pmap.tgt (.pte0 0 0 129 511) =
      some 0x82002 := by
    decide +kernel
  exact ⟨_, hrun, htgt, mapRun_counted (k := fullKernel) fullPmap_consistent hrun htgt⟩

/-- One more mapping takes the counter to 0. -/
theorem sys_mem_map_wraps : Consistent FullPage fullKernel.pmap ∧
    MapRun (fun _ _ _ => True) fullKernel (fullMap.after fullKernel) ∧
    (fullMap.after fullKernel).pmap.tgt (.pte0 0 0 129 511) = some 0x82002 ∧
    (fullMap.after fullKernel).pmap.ppRef 0x82002 = 0 := by
  refine ⟨fullPmap_consistent, ?_, by decide +kernel, by decide +kernel⟩
  exact .call .nil trivial (MapCall.exec_after (by decide +kernel))

end RiscvMos.Kernel
