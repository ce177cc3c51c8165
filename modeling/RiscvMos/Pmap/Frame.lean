import RiscvMos.Pmap.Consistent

/-! What a call leaves alone. `Frame M C s s'` allows changes to the slots in
`C` only, and says what that means for the pages behind the other slots. -/

namespace RiscvMos.Pmap

variable {D : Type}

/-- Some slot points at `p` as a table. -/
def TablePage (s : Pmap D) (p : Nat) : Prop := ∃ x : Slot D, x.IsTable ∧ s.tgt x = some p

structure Frame (M : Nat → Prop) (C : Slot D → Prop) (s s' : Pmap D) : Prop where
  ent_eq : ∀ x, ¬ C x → s'.ent x = s.ent x
  /-- Tables are created, never taken away or moved. -/
  table : ∀ x p, x.IsTable → s.tgt x = some p → s'.tgt x = some p
  /-- A data page some other slot points at keeps its contents. -/
  data : ∀ x p, ¬ C x → s.tgt x = some p → ¬ s.TablePage p →
    s'.mem p = s.mem p ∧ ¬ s'.TablePage p
  kernel : ∀ p, ¬ M p → s'.mem p = s.mem p
  sharedEntry : ∀ d r i, s.tgt (.root d) = some r → shared i → s'.mem r i = s.mem r i

namespace Frame

variable {M : Nat → Prop} {C C' : Slot D → Prop} {s s' s'' : Pmap D}

theorem refl (s : Pmap D) : Frame M C s s :=
  ⟨fun _ _ => rfl, fun _ _ _ h => h, fun _ _ _ _ h => ⟨rfl, h⟩, fun _ _ => rfl,
    fun _ _ _ _ _ => rfl⟩

theorem mono (h : Frame M C s s') (hC : ∀ x, C x → C' x) : Frame M C' s s' :=
  ⟨fun x hx => h.ent_eq x fun hc => hx (hC x hc), h.table,
    fun x p hx => h.data x p fun hc => hx (hC x hc), h.kernel, h.sharedEntry⟩

theorem tgt_eq (h : Frame M C s s') {x : Slot D} (hx : ¬ C x) : s'.tgt x = s.tgt x := by
  rw [tgt, tgt, h.ent_eq x hx]

theorem trans (h : Frame M C s s') (h' : Frame M C s' s'') : Frame M C s s'' := by
  refine ⟨fun x hx => (h'.ent_eq x hx).trans (h.ent_eq x hx),
    fun x p hx hp => h'.table x p hx (h.table x p hx hp), ?_,
    fun p hp => (h'.kernel p hp).trans (h.kernel p hp), ?_⟩
  · intro x p hx hp hn
    obtain ⟨hm, hn'⟩ := h.data x p hx hp hn
    obtain ⟨hm', hn''⟩ := h'.data x p hx ((h.tgt_eq hx).trans hp) hn'
    exact ⟨hm'.trans hm, hn''⟩
  · intro d r i hr hi
    rw [h'.sharedEntry d r i (h.table _ r trivial hr) hi, h.sharedEntry d r i hr hi]

end Frame

section
variable [DecidableEq D] [Fintype D] {M : Nat → Prop} {s s' : Pmap D}

/-- A store to entry `i` of the table behind `x`, with pages of the free list
taken on the way, has the frame of the one slot it writes. -/
theorem frame_of_update (hs : Consistent M s) {x : Slot D} {t : Nat} (hx : x.IsTable)
    (ht : s.tgt x = some t) {i : Vpn} (hi : ¬ x.leaves i) {v : Option (Nat × Nat)}
    (hent : s'.ent = Function.update s.ent (x.child i) v)
    (htab : (x.child i).IsTable → s.ent (x.child i) = none ∧
      ∀ p, v.map Prod.fst = some p → p ∈ s.pageFreeList)
    (hmem : ∀ p, p ∉ s.pageFreeList → p ≠ t → s'.mem p = s.mem p)
    (hoth : ∀ k, k ≠ i → s'.mem t k = s.mem t k) : Frame M (· = x.child i) s s' := by
  have htgt := tgt_update hent
  refine ⟨fun y hy => by rw [hent, Function.update_of_ne hy], ?_, ?_, ?_, ?_⟩
  · intro y p hy hp
    by_cases hyc : y = x.child i
    · subst hyc
      rw [tgt, (htab hy).1] at hp
      cases hp
    · rw [htgt, Function.update_of_ne hyc, hp]
  · intro y p _ hp hn
    have hnf := hs.counted.not_free_of_tgt hp
    refine ⟨hmem p hnf ?_, ?_⟩
    · rintro rfl; exact hn ⟨x, hx, ht⟩
    · rintro ⟨z, hz, hzp⟩
      rw [htgt] at hzp
      by_cases hzc : z = x.child i
      · subst hzc
        rw [Function.update_self] at hzp
        exact hnf ((htab hz).2 p hzp)
      · rw [Function.update_of_ne hzc] at hzp
        exact hn ⟨z, hz, hzp⟩
  · intro p hp
    refine hmem p (fun hf => hp (hs.counted.free_sub p hf)) ?_
    rintro rfl
    exact hp (hs.mem_of_tgt ht)
  · intro d r j hr hj
    by_cases hrt : r = t
    · subst hrt
      obtain rfl := hs.distinct (x := .root d) trivial hx hr ht
      apply hoth
      rintro rfl
      exact hi hj
    · rw [hmem r (hs.counted.not_free_of_tgt hr) hrt]

theorem Filled.frame (hs : Consistent M s) {x : Slot D} {t : Nat} (hx : x.IsTable)
    (ht : s.tgt x = some t) {i : Vpn} (hi : ¬ x.leaves i) (hnone : s.ent (x.child i) = none)
    {q perm : Nat} (h : Filled s s' (x.child i) t i q perm) : Frame M (· = x.child i) s s' := by
  refine frame_of_update hs hx ht hi h.ent ?_ ?_ h.table
  · intro _
    refine ⟨hnone, fun p hp => ?_⟩
    obtain rfl := Option.some.inj hp
    simp [h.free]
  · intro p hp hpt
    exact h.other p (fun hpq => hp (by simp [h.free, hpq])) hpt

/-- Point an empty directory variable at a fresh page. -/
theorem newRoot_spec (hs : Consistent M s) {d : D} (hd : s.pgdir d = 0) {pp : Nat} {s₀ : Pmap D}
    (ha : s.pageAlloc = some (pp, s₀)) :
    let s₁ := (s₀.setPgdir d (page2pa pp)).incRef pp
    Consistent M s₁ ∧ s₁.ent = Function.update s.ent (.root d) (some (pp, 0)) ∧
    s₁.ppRef pp = 1 ∧ Frame M (· = .root d) s s₁ := by
  intro s₁
  have hent₀ := pageAlloc_ent hs ha
  obtain ⟨rest, hl, rfl⟩ := pageAlloc_eq_some ha
  have hq : M pp := hs.counted.free_sub pp (by simp [hl])
  have hram := (hs.ram pp hq).1
  have hnot : ∀ y, s.tgt y ≠ some pp := hs.counted.tgt_ne_of_free (by simp [hl])
  have href : s.ppRef pp = 0 := (hs.counted.free_iff pp hq).mp (by simp [hl])
  have hnz : page2pa pp ≠ 0 := by rw [page2pa, Nat.shiftLeft_eq]; omega
  have hpp : page2pa pp >>> 12 = pp := by
    rw [Nat.shiftRight_eq_div_pow]; exact page2pa_div pp
  have hnone : s.ent (.root d) = none := by simp [ent, ent.root, hd]
  have hent : s₁.ent = Function.update s.ent (.root d) (some (pp, 0)) := by
    have := ent_setPgdir (s := { s with
      pageFreeList := rest, mem := Function.update s.mem pp fun _ => 0 }) (d := d) (page2pa pp)
      (fun i => by rw [hent₀]; exact ent_child_none (x := .root d) trivial hnone i)
      (fun _ i _ => by rw [hpp]; simp)
    rw [if_neg hnz, hpp, hent₀] at this
    exact this
  have htgt := tgt_update hent
  have hfree : ∀ {x p}, s.tgt x = some p → p ≠ pp := by
    rintro x p hx rfl; exact hnot x hx
  refine ⟨⟨?_, ?_, ?_, ?_, hs.ram⟩, hent, by simp [s₁, incRef, setPgdir, href], ?_, ?_, ?_, ?_, ?_⟩
  · have hc := hs.counted
    rw [hl] at hc
    have := hc.alloc (x := .root d) (tgt_eq_none.mpr hnone)
    rw [htgt]
    simpa [s₁, incRef, setPgdir, href] using this
  · intro p hp
    by_cases hpq : p = pp
    · simp [s₁, hpq, incRef, setPgdir, href]
    · simpa [s₁, hpq, incRef, setPgdir] using hs.small p hp
  · exact distinct_update hs.distinct hent fun _ p hp => by
      obtain rfl := Option.some.inj hp; exact hnot
  · intro d'
    by_cases hdd : d' = d
    · subst hdd; simp [s₁, incRef, setPgdir, page2pa, Nat.shiftLeft_eq]
    · simpa [s₁, incRef, setPgdir, hdd] using hs.aligned d'
  · intro y hy; rw [hent, Function.update_of_ne hy]
  · intro y p _ hp
    have : y ≠ .root d := by rintro rfl; rw [tgt, hnone] at hp; cases hp
    rw [htgt, Function.update_of_ne this, hp]
  · intro y p _ hp hn
    refine ⟨by simp [s₁, incRef, setPgdir, hfree hp], ?_⟩
    rintro ⟨z, hz, hzp⟩
    rw [htgt] at hzp
    by_cases hzc : z = .root d
    · subst hzc
      rw [Function.update_self] at hzp
      exact hfree hp (Option.some.inj hzp).symm
    · rw [Function.update_of_ne hzc] at hzp
      exact hn ⟨z, hz, hzp⟩
  · intro p hp
    have : p ≠ pp := by rintro rfl; exact hp hq
    simp [s₁, incRef, setPgdir, this]
  · intro d' r' i hr _
    simp [s₁, incRef, setPgdir, hfree hr]

end

end RiscvMos.Pmap
