import RiscvMos.Pmap.Descend

/-!
The last step of each call: the code at `map`, and the branches that meet an
existing level-0 table. A page that is replaced gives up its reference before
the entry is written; `clearLeaf` puts the write of 0 that `unmap_page` makes
there in between, which changes nothing in the end.
-/

namespace RiscvMos.Pmap

open RefCount (refs)

variable {D : Type} [DecidableEq D] [Fintype D] {M : Nat → Prop} {s s' : Pmap D} {d : D} {va : Nat}

/-- `s'` is `s` with `v` in the entry for `va`. -/
structure Stored (M : Nat → Prop) (d : D) (va : Nat) (v : Option (Nat × Nat)) (s s' : Pmap D) :
    Prop where
  ent : s'.ent = Function.update s.ent (leafSlot d va) v
  frame : Frame M (· = leafSlot d va) s s'
  pgdir : s'.pgdir = s.pgdir

omit [Fintype D] in
theorem Stored.trans {v w : Option (Nat × Nat)} {s₁ : Pmap D} (h : Stored M d va v s s₁)
    (h' : Stored M d va w s₁ s') : Stored M d va w s s' :=
  ⟨by rw [h'.ent, h.ent, Function.update_idem], h.frame.trans h'.frame, h'.pgdir.trans h.pgdir⟩

omit [DecidableEq D] [Fintype D] in
/-- A last-level entry depends on its table's word. -/
theorem ent_leafSlot {t0 : Nat} (ht : s.tgt (.pte1 d (vpn2 va) (vpn1 va)) = some t0) :
    s.ent (leafSlot d va) = entry (s.mem t0 (vpn0 va)) :=
  ent_child_of (x := .pte1 d (vpn2 va) (vpn1 va)) trivial id ht

theorem storeLeaf_frame (hs : Consistent M s) {t0 : Nat}
    (ht : s.tgt (.pte1 d (vpn2 va) (vpn1 va)) = some t0) {v : Option (Nat × Nat)} {w : Nat}
    (hent : s'.ent = Function.update s.ent (leafSlot d va) v)
    (hmem : s'.mem = (s.setPte t0 (vpn0 va) w).mem) (hp : s'.pgdir = s.pgdir) :
    Stored M d va v s s' := by
  refine ⟨hent, ?_, hp⟩
  refine frame_of_update hs (x := .pte1 d (vpn2 va) (vpn1 va)) (i := vpn0 va) trivial ht id hent
    (fun h => h.elim) ?_ ?_
  · intro p _ hpt
    rw [hmem, setPte_mem_of_ne s _ w hpt]
  · intro k hk
    rw [hmem, setPte_mem, if_neg (by simp [hk])]

theorem clearLeaf_spec (hs : Consistent M s) {t0 : Nat}
    (ht : s.tgt (.pte1 d (vpn2 va) (vpn1 va)) = some t0) {p perm : Nat}
    (he : s.ent (leafSlot d va) = some (p, perm)) :
    let s₁ := (s.dropRef p).setPte t0 (vpn0 va) 0
    s.clearRef p = .ok (s.dropRef p) ∧ Consistent M s₁ ∧ Stored M d va none s s₁ := by
  have hc : s.tgt (leafSlot d va) = some p := tgt_eq_some.mpr ⟨perm, he⟩
  obtain ⟨hs₁, hent⟩ := clearEntry_spec hs (x := .pte1 d (vpn2 va) (vpn1 va)) trivial ht he
    (fun h => h.elim)
  exact ⟨clearRef_eq hs hc, hs₁, storeLeaf_frame hs ht (w := 0) hent rfl rfl⟩

omit [DecidableEq D] [Fintype D] in
theorem setPte_idem (s : Pmap D) (t : Nat) (k : Vpn) (w w' : Nat) :
    (s.setPte t k w).setPte t k w' = s.setPte t k w' := by
  simp [setPte]

omit [DecidableEq D] [Fintype D] in
theorem mapLeaf_setPte (s : Pmap D) (t0 w pa perm : Nat) :
    mapLeaf va pa perm (s.setPte t0 (vpn0 va) w) t0 = mapLeaf va pa perm s t0 := by
  simp only [mapLeaf, setPte_idem]

omit [DecidableEq D] [Fintype D] in
/-- The word an allocation writes over does not matter. -/
theorem allocEntry_setPte (s : Pmap D) (t : Nat) (k : Vpn) (w perm : Nat) :
    (s.setPte t k w).allocEntry t k perm = s.allocEntry t k perm := by
  unfold allocEntry pageAlloc
  cases hl : s.pageFreeList with
  | nil => simp [setPte, hl]
  | cons q rest =>
    simp only [setPte, hl]
    by_cases hq : t = q
    · subst hq; simp
    · simp [Function.update_of_ne hq, Function.update_comm (Ne.symm hq)]

omit [DecidableEq D] [Fintype D] in
theorem allocLeaf_setPte {t0 perm : Nat} (w : Nat) (h : allocLeaf va perm s t0 = .ok (0, s')) :
    allocLeaf va perm (s.setPte t0 (vpn0 va) w) t0 = .ok (0, s') := by
  unfold allocLeaf at h ⊢
  rw [allocEntry_setPte]
  cases ha : s.allocEntry t0 (vpn0 va) perm with
  | none => simp [ha, eNoMem] at h
  | some e => simpa [ha] using h

theorem lt_of_mappablePa {pa : Nat} (h : mappablePa pa) : pa < 2 ^ 56 := by
  simp only [mappablePa, kernbase, memorySize] at h
  omega

theorem mapLeaf_spec (hs : Consistent M s) {t0 pa perm : Nat}
    (ht : s.tgt (.pte1 d (vpn2 va) (vpn1 va)) = some t0) (hnone : s.ent (leafSlot d va) = none)
    (hperm : perm < 0x400) (hpa : mappablePa pa) :
    let s' := mapLeaf va pa perm s t0
    Stored M d va (some (pa / 4096, perm ||| pteV)) s s' ∧
    (M (pa / 4096) → pa / 4096 ∉ s.pageFreeList → refs s'.tgt (pa / 4096) < 65536 →
      Consistent M s') := by
  intro s'
  have hmem : s'.mem = (s.setPte t0 (vpn0 va) (mkPte pa perm)).mem ∧ s'.pgdir = s.pgdir := by
    simp only [s', mapLeaf]
    split <;> exact ⟨rfl, rfl⟩
  have hent : s'.ent =
      Function.update s.ent (leafSlot d va) (some (pa / 4096, perm ||| pteV)) := by
    rw [← entry_mkPte hperm (lt_of_mappablePa hpa),
      ent_eq_of_mem (s := s.setPte t0 (vpn0 va) (mkPte pa perm)) hmem.1 hmem.2]
    exact ent_setPte hs.distinct (x := .pte1 d (vpn2 va) (vpn1 va)) trivial ht id _
      (fun h => h.elim) (fun h => h.elim)
  refine ⟨storeLeaf_frame hs ht hent hmem.1 hmem.2, fun hq hlive => ?_⟩
  have hram := hs.ram _ hq
  have hin : kernbase ≤ pa ∧ pa < kernbase + memorySize := by
    simp only [inRam, kernbase, memorySize] at *
    omega
  have heq : s' = (s.setPte t0 (vpn0 va) (mkPte pa perm)).incRef (pa / 4096) := by
    simp only [s', mapLeaf, if_pos hin, Nat.shiftRight_eq_div_pow]
  rw [heq]
  exact shareEntry_spec hs (x := .pte1 d (vpn2 va) (vpn1 va)) trivial ht id id hnone hperm
    (lt_of_mappablePa hpa) hq
    hlive

theorem remapLeaf_spec (hs : Consistent M s) {t0 pa perm : Nat}
    (ht : s.tgt (.pte1 d (vpn2 va) (vpn1 va)) = some t0) (hperm : perm < 0x400)
    (hpa : mappablePa pa) :
    ∃ s', remapLeaf va pa perm s t0 = .ok (0, s') ∧
      Stored M d va (some (pa / 4096, perm ||| pteV)) s s' ∧
      (M (pa / 4096) → pa / 4096 ∉ s.pageFreeList → refs s'.tgt (pa / 4096) < 65536 →
        Consistent M s') := by
  have hleaf := ent_leafSlot ht
  have hlt := lt_of_mappablePa hpa
  have hpage : ptePage (pa2pte pa) = pa / 4096 := by
    rw [ptePage_eq, pa2pte_eq]; omega
  unfold remapLeaf
  simp only
  split
  · rename_i hv
    rw [entry, if_pos hv] at hleaf
    rw [pte2pa_eq, pte2pa_eq, hpage]
    split
    · rename_i hsame
      have hp : ptePage (s.mem t0 (vpn0 va)) = pa / 4096 := by omega
      rw [hp] at hleaf
      obtain ⟨hs', hent⟩ := permEntry_spec hs (x := .pte1 d (vpn2 va) (vpn1 va)) trivial ht id hleaf
        (entry_mkPte hperm hlt)
      exact ⟨_, rfl, storeLeaf_frame hs ht hent rfl rfl, fun _ _ _ => hs'⟩
    · rename_i hdiff
      obtain ⟨hclear, hs₁, hst⟩ := clearLeaf_spec hs ht hleaf
      have hfree : pa / 4096 ∉ s.pageFreeList → pa / 4096 ∉
          ((s.dropRef (ptePage (s.mem t0 (vpn0 va)))).setPte t0 (vpn0 va) 0).pageFreeList := by
        intro hlive
        simp only [setPte, dropRef]
        split
        · rw [List.mem_cons, not_or]
          exact ⟨fun h => hdiff (by rw [h]), hlive⟩
        · exact hlive
      obtain ⟨hst', hc⟩ := mapLeaf_spec hs₁ (hst.frame.table _ _ trivial ht) (by simp [hst.ent])
        hperm hpa
      rw [mapLeaf_setPte] at hst' hc
      rw [hclear]
      exact ⟨_, rfl, hst.trans hst', fun hq hlive => hc hq (hfree hlive)⟩
  · rename_i hv
    rw [entry, if_neg hv] at hleaf
    exact ⟨_, rfl, mapLeaf_spec hs ht hleaf hperm hpa⟩

/-- What `alloc_page` leaves behind an entry: a zero page no other slot of `s`
points at. -/
structure Fresh (M : Nat → Prop) (d : D) (va perm : Nat) (s s' : Pmap D) (q : Nat) : Prop where
  stored : Stored M d va (some (q, perm ||| pteV)) s s'
  zero : s'.mem q = fun _ => 0
  fresh : ∀ y, y ≠ leafSlot d va → s.tgt y ≠ some q
  page : M q

theorem allocLeaf_spec (hs : Consistent M s) {t0 perm : Nat} {r : Int}
    (ht : s.tgt (.pte1 d (vpn2 va) (vpn1 va)) = some t0) (hnone : s.ent (leafSlot d va) = none)
    (hperm : perm < 0x400) (h : allocLeaf va perm s t0 = .ok (r, s')) :
    (r = 0 ∧ Consistent M s' ∧ ∃ q, Fresh M d va perm s s' q) ∨ (r = -eNoMem ∧ s' = s) := by
  unfold allocLeaf at h
  cases ha : s.allocEntry t0 (vpn0 va) perm with
  | none =>
    simp only [ha, Except.ok.injEq, Prod.mk.injEq] at h
    exact .inr ⟨h.1.symm, h.2.symm⟩
  | some e =>
    obtain ⟨q, s₁⟩ := e
    simp only [ha, Except.ok.injEq, Prod.mk.injEq] at h
    obtain ⟨rfl, rfl⟩ := h
    obtain ⟨hs₁, hf⟩ := allocEntry_spec hs (x := .pte1 d (vpn2 va) (vpn1 va)) trivial ht id hnone
      hperm ha
    have hmem : q ∈ s.pageFreeList := by simp [hf.free]
    refine .inl ⟨rfl, hs₁, q, ⟨hf.ent, ?_, hf.pgdir⟩, hf.zero, ?_, hs.counted.free_sub q hmem⟩
    · exact hf.frame hs (x := .pte1 d (vpn2 va) (vpn1 va)) trivial ht id hnone
    · exact fun y _ => hs.counted.tgt_ne_of_free hmem y

theorem replaceLeaf_spec (hs : Consistent M s) {t0 perm : Nat}
    (ht : s.tgt (.pte1 d (vpn2 va) (vpn1 va)) = some t0) (hperm : perm < 0x400)
    (h : replaceLeaf va perm s t0 = .ok (0, s')) :
    Consistent M s' ∧ ∃ q, Fresh M d va perm s s' q := by
  have hleaf := ent_leafSlot ht
  have h0 : (0 : Int) ≠ -eNoMem := by decide
  unfold replaceLeaf at h
  simp only at h
  split at h
  · rename_i hv
    rw [entry, if_pos hv] at hleaf
    obtain ⟨hclear, hs₁, hst⟩ := clearLeaf_spec hs ht hleaf
    rw [hclear] at h
    rcases allocLeaf_spec hs₁ (hst.frame.table _ _ trivial ht) (by simp [hst.ent]) hperm
      (allocLeaf_setPte 0 h) with
      ⟨_, hs', q, hf⟩ | ⟨hr, _⟩
    · refine ⟨hs', q, hst.trans hf.stored, hf.zero, ?_, hf.page⟩
      intro y hy
      rw [← hst.frame.tgt_eq hy]
      exact hf.fresh y hy
    · exact absurd hr h0
  · rename_i hv
    rw [entry, if_neg hv] at hleaf
    rcases allocLeaf_spec hs ht hleaf hperm h with ⟨_, hs', hf⟩ | ⟨hr, _⟩
    · exact ⟨hs', hf⟩
    · exact absurd hr h0

end RiscvMos.Pmap
