import RiscvMos.Pmap.View

/-!
How many free pages a call takes. `map_page_user` of a user page never halts on
consistent memory, and returns `-E_NO_MEM` exactly when the free list is
shorter than `pagesNeeded`. The self-maps take pages too, and their own failure
goes unnoticed.
-/

namespace RiscvMos.Pmap

open RefCount (refs)

variable {D : Type}

/-- The number of tables that the walk to `va` does not find. -/
def missing (s : Pmap D) (d : D) (va : Nat) : Nat :=
  if s.pgdir d = 0 then 3
  else match s.walk (s.pgdir d >>> 12) va with
  | .noPte1 _ => 2
  | .noPte0 _ => 1
  | .pte0 _ => 0

/-- The page mapped at `va` has no other reference. -/
def SoleRef (s : Pmap D) (d : D) (va : Nat) : Prop :=
  s.isMappedPage d va = true ∧ s.ppRef (s.getPa d va / 4096) = 1

instance (s : Pmap D) (d : D) (va : Nat) : Decidable (s.SoleRef d va) :=
  inferInstanceAs (Decidable (_ ∧ _))

/-- The free pages needed to make a table, map it at `w` in the window and take
one page more. The self-map takes pages for the window's own tables; where these
are there, a page that only the entry at `w` holds is freed on the way. -/
def tableNeeded (s : Pmap D) (d : D) (w : Nat) : Nat :=
  match s.missing d w with
  | 0 => if s.SoleRef d w then 1 else 2
  | m => m + 2

/-- The free pages `map_page_user` needs for a user page. -/
def pagesNeeded (s : Pmap D) (d : D) (va : Nat) : Nat :=
  match s.missing d va with
  | 0 => 0
  | 1 => 1
  | 2 => s.tableNeeded d (selfVa1 va)
  | _ => 5

section
variable {s : Pmap D} {d : D} {va : Nat}

theorem missing_eq (s : Pmap D) (d : D) (hv : ¬ shared (vpn2 va)) :
    s.missing d va = if s.ent (.root d) = none then 3
      else if s.ent (.pte2 d (vpn2 va)) = none then 2
      else if s.ent (.pte1 d (vpn2 va) (vpn1 va)) = none then 1 else 0 := by
  unfold missing
  by_cases hd : s.pgdir d = 0
  · simp [hd, ent, ent.root]
  have hroot : s.ent (.root d) ≠ none := by simp [ent, ent.root, hd]
  rw [if_neg hd, if_neg hroot]
  rcases walk_cases s hd hv with ⟨t2, hw, -, hn⟩ | ⟨t1, hw, ht, hn⟩ | ⟨t0, hw, ht⟩
  · rw [hw, if_pos hn]
  · have h2 : s.ent (.pte2 d (vpn2 va)) ≠ none := by
      intro h; rw [tgt, h] at ht; cases ht
    rw [hw, if_neg h2, if_pos hn]
  · have h1 : s.ent (.pte1 d (vpn2 va) (vpn1 va)) ≠ none := by
      intro h; rw [tgt, h] at ht; cases ht
    have h2 : s.ent (.pte2 d (vpn2 va)) ≠ none := by
      intro h; exact h1 (ent_child_none (x := .pte2 d (vpn2 va)) trivial h _)
    rw [hw, if_neg h2, if_neg h1]

theorem allocEntry_nil (t : Nat) (i : Vpn) (perm : Nat) (h : s.pageFreeList = []) :
    s.allocEntry t i perm = none := by
  simp [allocEntry, pageAlloc, h]

theorem allocEntry_cons (t : Nat) (i : Vpn) (perm : Nat) {q : Nat} {rest : List Nat}
    (h : s.pageFreeList = q :: rest) :
    ∃ s', s.allocEntry t i perm = some (q, s') ∧ s'.pageFreeList = rest := by
  simp only [allocEntry, pageAlloc, h]
  exact ⟨_, rfl, rfl⟩

/-! ## The self-maps -/

/-- The code at `map` of `map_page`. -/
def mapAt (va pa perm : Nat) (s : Pmap D) (t0 : Nat) : Except Halt (Reply D) :=
  .ok (0, mapLeaf va pa perm s t0)

theorem mapLeaf_free (va pa perm : Nat) (s : Pmap D) (t0 : Nat) :
    (mapLeaf va pa perm s t0).pageFreeList = s.pageFreeList := by
  simp only [mapLeaf]
  split <;> rfl

theorem createPte0_free (pa perm t1 : Nat) : ∃ r s', createPte0 noSelf (mapAt va pa perm) s t1 va =
    .ok (r, s') ∧ s'.pageFreeList = s.pageFreeList.drop 1 ∧
    (1 ≤ s.pageFreeList.length → r = 0) := by
  unfold createPte0
  cases hl : s.pageFreeList with
  | nil =>
    rw [allocEntry_nil _ _ _ hl]
    exact ⟨_, s, rfl, hl, by simp⟩
  | cons q rest =>
    obtain ⟨s₁, ha, hfree⟩ := allocEntry_cons t1 (vpn1 va) 0 hl
    rw [ha]
    exact ⟨0, mapLeaf va pa perm s₁ q, rfl, by rw [mapLeaf_free, hfree]; rfl, fun _ => rfl⟩

theorem createPte1_free (pa perm t2 : Nat) : ∃ r s', createPte1 noSelf (mapAt va pa perm) s t2 va =
    .ok (r, s') ∧ s'.pageFreeList = s.pageFreeList.drop 2 ∧
    (2 ≤ s.pageFreeList.length → r = 0) := by
  unfold createPte1
  cases hl : s.pageFreeList with
  | nil =>
    rw [allocEntry_nil _ _ _ hl]
    exact ⟨_, s, rfl, hl, by simp⟩
  | cons q rest =>
    obtain ⟨s₁, ha, hfree⟩ := allocEntry_cons t2 (vpn2 va) 0 hl
    rw [ha]
    obtain ⟨r, s', h, hf, hr⟩ := createPte0_free (s := s₁) pa perm q
    refine ⟨r, s', h, by rw [hf, hfree]; rfl, fun hlen => hr ?_⟩
    rw [hfree]
    simpa using hlen

theorem createPte2_free [DecidableEq D] (pa perm : Nat) :
    ∃ r s', createPte2 noSelf (mapAt va pa perm) s d va = .ok (r, s') ∧
      s'.pageFreeList = s.pageFreeList.drop 3 ∧ (3 ≤ s.pageFreeList.length → r = 0) := by
  unfold createPte2 pageAlloc
  cases hl : s.pageFreeList with
  | nil => exact ⟨_, s, rfl, hl, by simp⟩
  | cons q rest =>
    obtain ⟨r, s', h, hf, hr⟩ := createPte1_free pa perm q
    exact ⟨r, s', h, by rw [hf]; rfl, fun hlen => hr (by simpa [incRef, setPgdir] using hlen)⟩

end

section
variable [DecidableEq D] [Fintype D] {M : Nat → Prop} {s : Pmap D} {d : D} {va : Nat}

/-- The length of the free list after `map_page` of `pa` at `va`. -/
def freeAfter (s : Pmap D) (d : D) (va pa : Nat) : Nat :=
  match s.missing d va with
  | 0 =>
    match s.view d va with
    | some (p, _) => s.pageFreeList.length + if p ≠ pa / 4096 ∧ s.ppRef p = 1 then 1 else 0
    | none => s.pageFreeList.length
  | m => s.pageFreeList.length - m

/-- The free pages of `s'` were free, or are the one page that had its only
reference at `va`. -/
def FreedFrom (s : Pmap D) (d : D) (va : Nat) (s' : Pmap D) : Prop :=
  ∀ x ∈ s'.pageFreeList, x ∈ s.pageFreeList ∨ (s.tgt (leafSlot d va) = some x ∧ s.ppRef x = 1)

omit [DecidableEq D] [Fintype D] in
theorem freedFrom_drop {s' : Pmap D} {n : Nat} (h : s'.pageFreeList = s.pageFreeList.drop n) :
    s.FreedFrom d va s' := by
  intro x hx
  rw [h] at hx
  exact .inl (List.mem_of_mem_drop hx)

theorem remapLeaf_free (hs : Consistent M s) {t0 pa perm : Nat}
    (ht : s.tgt (.pte1 d (vpn2 va) (vpn1 va)) = some t0) (hpa : mappablePa pa) :
    ∃ s', remapLeaf va pa perm s t0 = .ok (0, s') ∧
      (s'.pageFreeList.length = match s.view d va with
        | some (p, _) => s.pageFreeList.length + if p ≠ pa / 4096 ∧ s.ppRef p = 1 then 1 else 0
        | none => s.pageFreeList.length) ∧ s.FreedFrom d va s' := by
  have hleaf : s.ent (leafSlot d va) = _ := ent_leafSlot ht
  have hpage : ptePage (pa2pte pa) = pa / 4096 := by
    have := lt_of_mappablePa hpa
    rw [ptePage_eq, pa2pte_eq]; omega
  unfold remapLeaf view
  simp only
  split
  · rename_i hv
    rw [entry, if_pos hv] at hleaf
    rw [pte2pa_eq, pte2pa_eq, hpage, hleaf]
    by_cases hsame : ptePage (s.mem t0 (vpn0 va)) = pa / 4096
    · rw [if_pos (by rw [hsame])]
      exact ⟨_, rfl, by simp [hsame, setPte], fun x hx => .inl hx⟩
    · rw [if_neg (by omega)]
      obtain ⟨hclear, -⟩ := clearLeaf_spec hs ht hleaf
      have hpos := hs.counted.ref_pos_of_tgt (tgt_eq_some.mpr ⟨_, hleaf⟩)
      rw [hclear]
      have htgt : s.tgt (leafSlot d va) = some (ptePage (s.mem t0 (vpn0 va))) :=
        tgt_eq_some.mpr ⟨_, hleaf⟩
      by_cases h1 : s.ppRef (ptePage (s.mem t0 (vpn0 va))) = 1
      · refine ⟨_, rfl, by simp [mapLeaf_free, dropRef, hsame, h1], fun x hx => ?_⟩
        simp only [mapLeaf_free, dropRef, h1, if_true, List.mem_cons] at hx
        rcases hx with rfl | hx
        · exact .inr ⟨htgt, h1⟩
        · exact .inl hx
      · have h0 : s.ppRef (ptePage (s.mem t0 (vpn0 va))) - 1 ≠ 0 := by omega
        refine ⟨_, rfl, by simp [mapLeaf_free, dropRef, h1, h0], fun x hx => .inl ?_⟩
        simpa only [mapLeaf_free, dropRef, h0, if_false] using hx
  · rename_i hv
    rw [entry, if_neg hv] at hleaf
    exact ⟨_, rfl, by rw [hleaf, mapLeaf_free], fun x hx => .inl (by rwa [mapLeaf_free] at hx)⟩

theorem mapPage_free (hs : Consistent M s) (hv : ¬ shared (vpn2 va)) {pa perm : Nat}
    (hperm : perm < 0x400) (hpa : mappablePa pa) :
    ∃ r s', s.mapPage d va pa perm = .ok (r, s') ∧ s'.pageFreeList.length = s.freeAfter d va pa ∧
      (s.missing d va ≤ s.pageFreeList.length → r = 0) ∧ s.FreedFrom d va s' := by
  unfold mapPage freeAfter missing
  rw [if_neg (by omega), if_neg (not_not.mpr hpa), descend]
  by_cases hd : s.pgdir d = 0
  · rw [if_pos hd, if_pos hd]
    obtain ⟨r, s', h, hf, hr⟩ := createPte2_free (s := s) (d := d) pa perm
    exact ⟨r, s', h, by rw [hf, List.length_drop]; rfl, hr, freedFrom_drop hf⟩
  rw [if_neg hd, if_neg hd]
  rcases walk_cases s hd hv with ⟨t2, hw, -, -⟩ | ⟨t1, hw, -, -⟩ | ⟨t0, hw, ht⟩ <;> rw [hw]
  · obtain ⟨r, s', h, hf, hr⟩ := createPte1_free pa perm t2
    exact ⟨r, s', h, by rw [hf, List.length_drop]; rfl, hr, freedFrom_drop hf⟩
  · obtain ⟨r, s', h, hf, hr⟩ := createPte0_free pa perm t1
    exact ⟨r, s', h, by rw [hf, List.length_drop]; rfl, hr, freedFrom_drop hf⟩
  · obtain ⟨s', h, hf, hfrom⟩ := remapLeaf_free hs ht hpa
    exact ⟨0, s', h, hf, fun _ => rfl, hfrom⟩

theorem mappablePa_pteAddr {t : Nat} (i : Vpn) (ht : inRam t) : mappablePa (pteAddr t i) := by
  have := pteAddr_div t i
  left
  simp only [inRam, kernbase, memorySize] at *
  omega

theorem selfMap_free (hs : Consistent M s) (hva : InWindow va) {t : Nat} (i : Vpn) (ht : inRam t) :
    ∃ r s', s.mapPage d va (pteAddr t i) (pteR ||| pteU) = .ok (r, s') ∧
      selfMap d s va (pteAddr t i) = .ok s' ∧
      s'.pageFreeList.length = s.freeAfter d va (pteAddr t i) ∧ s.FreedFrom d va s' := by
  have hv : ¬ shared (vpn2 va) := by rw [hva.vpn2_eq]; decide
  have hperm : pteR ||| pteU < 0x400 := by decide
  obtain ⟨r, s', h, hf, -, hfrom⟩ := mapPage_free (d := d) hs hv hperm (mappablePa_pteAddr i ht)
  exact ⟨r, s', h, Except.bind_ok_iff.mpr ⟨(r, s'), h, rfl⟩, hf, hfrom⟩

/-! ## The labels of `map_page_user` -/

theorem createPte0_code (hs : Consistent M s) (hva : va < 2 ^ 39) (pa perm : Nat) {t1 : Nat}
    (ht : s.tgt (.pte2 d (vpn2 va)) = some t1)
    (hnone : s.ent (.pte1 d (vpn2 va) (vpn1 va)) = none) :
    ∃ r s', createPte0 (selfMap d) (mapAt va pa perm) s t1 va = .ok (r, s') ∧
      (r = 0 ↔ 1 ≤ s.pageFreeList.length) ∧ (r ≠ 0 → r = -eNoMem) := by
  unfold createPte0
  cases hl : s.pageFreeList with
  | nil =>
    rw [allocEntry_nil _ _ _ hl]
    exact ⟨_, s, rfl, by simp [eNoMem], fun _ => rfl⟩
  | cons q rest =>
    obtain ⟨s₁, ha, -⟩ := allocEntry_cons t1 (vpn1 va) 0 hl
    obtain ⟨hs₁, -⟩ :=
      allocEntry_spec hs (x := .pte2 d (vpn2 va)) trivial ht id hnone (by decide) ha
    have hq : inRam q := hs.ram q (hs.counted.free_sub q (by simp [hl]))
    obtain ⟨-, s₂, -, h₂, -⟩ := selfMap_free (d := d) hs₁ (selfVa0_inWindow hva) (vpn0 va) hq
    rw [ha]
    exact ⟨0, mapLeaf va pa perm s₂ q, Except.bind_ok_iff.mpr ⟨s₂, h₂, rfl⟩, by simp,
      fun h => absurd rfl h⟩

theorem vpn_selfVa1 (hva : va < ulim) :
    vpn2 (selfVa1 va) = 3 ∧ vpn1 (selfVa1 va) = 3 ∧ vpn0 (selfVa1 va) = vpn2 va := by
  simp only [ulim] at hva
  refine ⟨(selfVa1_inWindow (by omega)).vpn2_eq, ?_, ?_⟩ <;> apply Fin.ext
  · rw [vpn1_val, selfVa1]
    simp only [pageTable, Nat.shiftRight_eq_div_pow]
    omega
  · rw [vpn0_val, vpn2_val, selfVa1]
    simp only [pageTable, Nat.shiftRight_eq_div_pow]
    omega

theorem vpn_selfVa2 (hva : va < ulim) :
    vpn2 (selfVa2 va) = 3 ∧ vpn1 (selfVa2 va) = 3 ∧ vpn0 (selfVa2 va) = 3 := by
  simp only [ulim] at hva
  refine ⟨(selfVa2_inWindow (by omega)).vpn2_eq, ?_, ?_⟩ <;> apply Fin.ext
  · rw [vpn1_val, selfVa2]
    simp only [pageTable, Nat.shiftRight_eq_div_pow]
    omega
  · rw [vpn0_val, selfVa2]
    simp only [pageTable, Nat.shiftRight_eq_div_pow]
    omega

omit [DecidableEq D] [Fintype D] in
theorem soleRef_iff (hv : ¬ shared (vpn2 va)) :
    s.SoleRef d va ↔ ∃ p perm, s.view d va = some (p, perm) ∧ s.ppRef p = 1 := by
  have hdiv : ∀ p, (p * 4096 + va % 4096) / 4096 = p := fun p => by omega
  rw [SoleRef, isMappedPage_eq hv, Option.isSome_iff_exists]
  constructor
  · rintro ⟨⟨⟨p, perm⟩, he⟩, href⟩
    rw [getPa_of_view hv he, hdiv] at href
    exact ⟨p, perm, he, href⟩
  · rintro ⟨p, perm, he, href⟩
    refine ⟨⟨_, he⟩, ?_⟩
    rwa [getPa_of_view hv he, hdiv]

omit [DecidableEq D] [Fintype D] in
theorem tableNeeded_pos (s : Pmap D) (d : D) (w : Nat) : 1 ≤ s.tableNeeded d w := by
  unfold tableNeeded
  split
  · split <;> omega
  · omega

/-- A step that puts a fresh page in a slot off the window leaves the window's
slots, and the counts of the pages there, alone. -/
theorem Filled.window (hs : Consistent M s) {s₁ : Pmap D} (hs₁ : Consistent M s₁)
    {i t : Nat} {c : Slot D} {j : Vpn} {q : Nat} (h : Filled s s₁ c t j q i)
    (hnone : s.ent c = none)
    {p perm : Nat} (hv : s.view d va = some (p, perm)) : p ≠ q ∧ s₁.ppRef p = s.ppRef p := by
  have ht : s.tgt (leafSlot d va) = some p := tgt_eq_some.mpr ⟨perm, hv⟩
  have hpq : p ≠ q := by
    rintro rfl
    exact hs.counted.tgt_ne_of_free (by simp [h.free]) _ ht
  have hM := hs.mem_of_tgt ht
  refine ⟨hpq, ?_⟩
  rw [hs₁.counted.count p hM, hs.counted.count p hM, tgt_update h.ent, Option.map_some,
    RefCount.refs_fill (tgt_eq_none.mpr hnone), if_neg hpq, Nat.add_zero]

omit [DecidableEq D] [Fintype D] in
/-- After `q` has been taken for a table, the self-map of `q` at `w` leaves a
page exactly when there were `tableNeeded`. -/
theorem freeAfter_pos_iff {s₁ : Pmap D} {w q pa : Nat} {rest : List Nat}
    (hv : ¬ shared (vpn2 w)) (hl : s.pageFreeList = q :: rest) (hfree : s₁.pageFreeList = rest)
    (hmiss : s₁.missing d w = s.missing d w) (hview : s₁.view d w = s.view d w)
    (href : ∀ p perm, s.view d w = some (p, perm) → p ≠ q ∧ s₁.ppRef p = s.ppRef p)
    (hpa : pa / 4096 = q) :
    1 ≤ s₁.freeAfter d w pa ↔ s.tableNeeded d w ≤ s.pageFreeList.length := by
  rw [freeAfter, hmiss, hview, tableNeeded, hfree, hpa, hl, List.length_cons]
  cases hm : s.missing d w with
  | succ m => simp only; omega
  | zero =>
    simp only
    cases hw : s.view d w with
    | none =>
      have : ¬ s.SoleRef d w := by
        rw [soleRef_iff hv]
        rintro ⟨p, perm, he, -⟩
        rw [hw] at he; cases he
      simp only [if_neg this]
      omega
    | some e =>
      obtain ⟨p, perm⟩ := e
      obtain ⟨hpq, hp⟩ := href p perm hw
      have : s.SoleRef d w ↔ s.ppRef p = 1 := by
        rw [soleRef_iff hv]
        refine ⟨?_, fun h => ⟨p, perm, hw, h⟩⟩
        rintro ⟨p', perm', he, h⟩
        rw [hw] at he
        cases he
        exact h
      simp only [hp, hpq, ne_eq, not_false_eq_true, true_and, this]
      split <;> omega

theorem createPte1_code (hs : Consistent M s) (hva : va < ulim) (pa perm : Nat) {t2 : Nat}
    (ht : s.tgt (.root d) = some t2) (hnone : s.ent (.pte2 d (vpn2 va)) = none) :
    ∃ r s', createPte1 (selfMap d) (mapAt va pa perm) s t2 va = .ok (r, s') ∧
      (r = 0 ↔ s.tableNeeded d (selfVa1 va) ≤ s.pageFreeList.length) ∧ (r ≠ 0 → r = -eNoMem) := by
  have hlt : va < 2 ^ 39 := hva.trans (by decide)
  have hwin := selfVa1_inWindow hlt
  have hv : ¬ shared (vpn2 (selfVa1 va)) := by rw [hwin.vpn2_eq]; decide
  have hne := vpn2_ne_three_of_user hva
  unfold createPte1
  cases hl : s.pageFreeList with
  | nil =>
    rw [allocEntry_nil _ _ _ hl]
    have := s.tableNeeded_pos d (selfVa1 va)
    exact ⟨_, s, rfl, ⟨fun h => absurd h (by decide), fun h => by simp at h; omega⟩, fun _ => rfl⟩
  | cons q rest =>
    obtain ⟨s₁, ha, hfree⟩ := allocEntry_cons t2 (vpn2 va) 0 hl
    obtain ⟨hs₁, hf₁⟩ := allocEntry_spec hs (x := .root d) trivial ht (not_shared_of_user hva) hnone
      (by decide) ha
    have hq : inRam q := hs.ram q (hs.counted.free_sub q (by simp [hl]))
    have ht1 : s₁.tgt (.pte2 d (vpn2 va)) = some q := by
      rw [tgt, hf₁.ent]; simp [Slot.child]
    obtain ⟨-, s₂, -, h₂, hlen, -⟩ := selfMap_free (d := d) hs₁ hwin (vpn1 va) hq
    obtain ⟨hs₂, hf₂, -⟩ := selfMap_spec hs₁ hwin
      ⟨.pte2 d (vpn2 va), trivial, by rw [pteAddr_div]; exact ht1⟩
      (by rw [pteAddr_div, hf₁.ppRef hs hs₁ hnone]) h₂
    -- the window is as before the first table was made
    have hent : ∀ x, x ≠ .pte2 d (vpn2 va) → s₁.ent x = s.ent x := by
      intro x hx
      rw [hf₁.ent]
      exact Function.update_of_ne hx _ _
    have hmiss : s₁.missing d (selfVa1 va) = s.missing d (selfVa1 va) := by
      rw [missing_eq s₁ d hv, missing_eq s d hv, hent _ (by simp),
        hent _ (by simp [hwin.vpn2_eq, hne.symm]), hent _ (by simp)]
    have hview : s₁.view d (selfVa1 va) = s.view d (selfVa1 va) := hent _ (by simp)
    have hcount : 1 ≤ s₂.pageFreeList.length ↔
        s.tableNeeded d (selfVa1 va) ≤ (q :: rest).length := by
      rw [hlen, ← hl]
      refine freeAfter_pos_iff hv hl hfree hmiss hview (fun p perm hw => ?_) (pteAddr_div _ _)
      exact hf₁.window hs hs₁ hnone hw
    obtain ⟨r, s', h, hr, hneg⟩ := createPte0_code hs₂ hlt pa perm
      (hf₂.table _ _ trivial ht1) (by
        rw [hf₂.ent_eq _ fun h => by simpa [InWindowSlot, hne] using hwin.onPath h,
          hent _ (by simp)]
        exact ent_child_none (x := .pte2 d (vpn2 va)) trivial hnone _)
    rw [ha]
    exact ⟨r, s', Except.bind_ok_iff.mpr ⟨s₂, h₂, h⟩, by rw [hr, hcount], hneg⟩

theorem createPte2_code (hs : Consistent M s) (hva : va < ulim) (pa perm : Nat)
    (hd : s.pgdir d = 0) :
    ∃ r s', createPte2 (selfMap d) (mapAt va pa perm) s d va = .ok (r, s') ∧
      (r = 0 ↔ 5 ≤ s.pageFreeList.length) ∧ (r ≠ 0 → r = -eNoMem) := by
  have hlt : va < 2 ^ 39 := hva.trans (by decide)
  have hwin := selfVa2_inWindow hlt
  have hv : ¬ shared (vpn2 (selfVa2 va)) := by rw [hwin.vpn2_eq]; decide
  have hv₁ : ¬ shared (vpn2 (selfVa1 va)) := by rw [(vpn_selfVa1 hva).1]; decide
  have hne := vpn2_ne_three_of_user hva
  unfold createPte2
  cases ha : s.pageAlloc with
  | none =>
    have hl : s.pageFreeList = [] := by
      unfold pageAlloc at ha
      split at ha
      · assumption
      · cases ha
    exact ⟨_, s, rfl, by simp [hl, eNoMem], fun _ => rfl⟩
  | some e =>
    obtain ⟨q, s₀⟩ := e
    obtain ⟨rest, hl, hs₀⟩ := pageAlloc_eq_some ha
    obtain ⟨hs₁, hent₁, href, -⟩ := newRoot_spec hs hd ha
    simp only
    set s₁ := (s₀.setPgdir d (page2pa q)).incRef q with hdef
    have hfree : s₁.pageFreeList = rest := by rw [hdef, hs₀]; rfl
    have hq : inRam q := hs.ram q (hs.counted.free_sub q (by simp [hl]))
    have ht2 : s₁.tgt (.root d) = some q := by rw [tgt, hent₁]; simp
    -- below the new root there is nothing
    have hbelow : ∀ i, s₁.ent (.pte2 d i) = none := by
      intro i
      rw [hent₁, Function.update_of_ne (by simp)]
      exact ent_child_none (x := .root d) trivial (by simp [ent, ent.root, hd]) i
    have hmiss : s₁.missing d (selfVa2 va) = 2 := by
      rw [missing_eq s₁ d hv, hbelow, if_neg (by rw [hent₁]; simp), if_pos rfl]
    obtain ⟨r₂, s₂, h₂, hlen, hzero, -⟩ := mapPage_free (d := d) hs₁ hv
      (show pteR ||| pteU < 0x400 by decide) (mappablePa_pteAddr (vpn2 va) hq)
    have hself : selfMap d s₁ (selfVa2 va) (pteAddr q (vpn2 va)) = .ok s₂ :=
      Except.bind_ok_iff.mpr ⟨(r₂, s₂), h₂, rfl⟩
    obtain ⟨hs₂, hf₂, -⟩ := selfMap_spec hs₁ hwin
      ⟨.root d, trivial, by rw [pteAddr_div]; exact ht2⟩ (by rw [pteAddr_div, href]) hself
    rw [freeAfter, hmiss, hfree] at hlen
    simp only at hlen
    obtain ⟨r, s', h, hr, hneg⟩ := createPte1_code hs₂ hva pa perm (hf₂.table _ _ trivial ht2)
      (by rw [hf₂.ent_eq _ fun h => by simpa [InWindowSlot, hne] using hwin.onPath h, hbelow])
    refine ⟨r, s', Except.bind_ok_iff.mpr ⟨s₂, hself, h⟩, ?_, hneg⟩
    rw [hr, hlen, hl, List.length_cons]
    have hpos := s₂.tableNeeded_pos d (selfVa1 va)
    by_cases henough : 2 ≤ rest.length
    · -- the self-map of the root has made the window's tables
      have hr₂ := hzero (by rw [hmiss, hfree]; exact henough)
      obtain ⟨-, hleaf, -⟩ := mapPage_spec hs₁ hwin.lt hv h₂
      have hleaf := hleaf hr₂
      rw [leafSlot, (vpn_selfVa2 hva).1, (vpn_selfVa2 hva).2.1] at hleaf
      have h1 : s₂.ent (.pte1 d 3 3) ≠ none := by
        intro hn
        rw [show s₂.ent (.pte0 d 3 3 _) = none from
          ent_child_none (x := .pte1 d 3 3) trivial hn _] at hleaf
        cases hleaf
      have h2 : s₂.ent (.pte2 d 3) ≠ none := fun hn =>
        h1 (ent_child_none (x := .pte2 d 3) trivial hn 3)
      have h3 : s₂.ent (.root d) ≠ none := fun hn =>
        h2 (ent_child_none (x := .root d) trivial hn 3)
      have hneed : s₂.tableNeeded d (selfVa1 va) = 2 := by
        have hm : s₂.missing d (selfVa1 va) = 0 := by
          rw [missing_eq s₂ d hv₁, (vpn_selfVa1 hva).1, (vpn_selfVa1 hva).2.1, if_neg h3, if_neg h2,
            if_neg h1]
        have hview : s₂.view d (selfVa1 va) = none := by
          rw [view, hf₂.ent_eq _ ?_]
          · exact ent_child_none (x := .pte1 d _ _) trivial
              (ent_child_none (x := .pte2 d _) trivial (hbelow _) _) _
          · rintro (h | h | h | h)
            · cases h
            · cases h
            · cases h
            · have := (Slot.pte0.inj h).2.2.2
              rw [(vpn_selfVa1 hva).2.2, (vpn_selfVa2 hva).2.2] at this
              exact hne this
        rw [tableNeeded, hm]
        refine if_neg ?_
        rw [soleRef_iff hv₁, hview]
        rintro ⟨p, perm, he, -⟩
        cases he
      omega
    · omega

/-- `map_page_user` of a page of memory at a user address: it always returns,
and returns 0 exactly when there are enough free pages. -/
theorem mapPageUser_code (hs : Consistent M s) (hva : va < ulim) {pa perm : Nat}
    (hperm : perm < 0x400) (hpa : mappablePa pa) :
    ∃ r s', s.mapPageUser d va pa perm = .ok (r, s') ∧
      (r = 0 ↔ s.pagesNeeded d va ≤ s.pageFreeList.length) ∧ (r ≠ 0 → r = -eNoMem) := by
  unfold mapPageUser pagesNeeded missing
  rw [if_neg (by omega), if_neg (not_not.mpr hpa), descend]
  by_cases hd : s.pgdir d = 0
  · rw [if_pos hd, if_pos hd]
    exact createPte2_code hs hva pa perm hd
  rw [if_neg hd, if_neg hd]
  rcases walk_cases s hd (not_shared_of_user hva) with
    ⟨t2, hw, ht, hn⟩ | ⟨t1, hw, ht, hn⟩ | ⟨t0, hw, ht⟩ <;> rw [hw]
  · exact createPte1_code hs hva pa perm ht hn
  · exact createPte0_code hs (hva.trans (by decide)) pa perm ht hn
  · obtain ⟨s', h, -⟩ := remapLeaf_free hs ht hpa
    exact ⟨0, s', h, by simp, fun h => absurd rfl h⟩

end

end RiscvMos.Pmap
