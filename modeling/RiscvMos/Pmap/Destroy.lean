import RiscvMos.Pmap.Calls

/-!
`destroy_pgdir`: three nested loops, each of which empties the slots of one
table before the slot that points at the table gives up its page.
-/

namespace RiscvMos

/-- The directory a slot belongs to. -/
def Slot.dir {D : Type} : Slot D → D
  | root d | pte2 d _ | pte1 d _ _ | pte0 d _ _ _ => d

namespace Pmap

variable {D : Type} [DecidableEq D] [Fintype D] {M : Nat → Prop} {s s' : Pmap D} {d : D}

/-- From `s` to `s'` only slots in `C` changed. -/
structure Emptied (M : Nat → Prop) (C : Slot D → Prop) (s s' : Pmap D) : Prop where
  consistent : Consistent M s'
  ent_eq : ∀ x, ¬ C x → s'.ent x = s.ent x

omit [DecidableEq D] in
theorem Emptied.trans {C : Slot D → Prop} {s₁ : Pmap D} (h : Emptied M C s s₁)
    (h' : Emptied M C s₁ s') : Emptied M C s s' :=
  ⟨h'.consistent, fun x hx => (h'.ent_eq x hx).trans (h.ent_eq x hx)⟩

omit [DecidableEq D] in
theorem Emptied.mono {C C' : Slot D → Prop} (h : Emptied M C s s') (hC : ∀ x, C x → C' x) :
    Emptied M C' s s' :=
  ⟨h.consistent, fun x hx => h.ent_eq x fun hc => hx (hC x hc)⟩

omit [DecidableEq D] in
theorem Emptied.tgt_eq {C : Slot D → Prop} (h : Emptied M C s s') {x : Slot D} (hx : ¬ C x) :
    s'.tgt x = s.tgt x := by
  rw [tgt, tgt, h.ent_eq x hx]

/-- The pair of statements that ends each loop body. -/
theorem clearEntry_ok (hs : Consistent M s) {x : Slot D} {t : Nat} (hx : x.IsTable)
    (ht : s.tgt x = some t) {i : Vpn} (hi : ¬ x.leaves i) (hv : valid (s.mem t i))
    (hbelow : (x.child i).IsTable → ∀ k, s.ent ((x.child i).child k) = none) :
    ∃ s', (do let s ← s.clearRef (ptePage (s.mem t i)); .ok (s.setPte t i 0)) = Except.ok s' ∧
      Emptied M (· = x.child i) s s' ∧ s'.ent (x.child i) = none := by
  have he : s.ent (x.child i) = some (ptePage (s.mem t i), pte2perm (s.mem t i)) := by
    rw [ent_child_of hx hi ht, entry, if_pos hv]
  obtain ⟨hs', hent⟩ := clearEntry_spec hs hx ht he hbelow
  rw [clearRef_eq hs (tgt_eq_some.mpr ⟨_, he⟩)]
  exact ⟨_, rfl, ⟨hs', fun y hy => by rw [hent, Function.update_of_ne hy]⟩, by simp [hent]⟩

omit [DecidableEq D] [Fintype D] in
theorem ptePage_of_tgt {x : Slot D} {t p : Nat} {i : Vpn} (hx : x.IsTable) (hi : ¬ x.leaves i)
    (ht : s.tgt x = some t) (hp : s.tgt (x.child i) = some p) : ptePage (s.mem t i) = p := by
  obtain ⟨perm, he⟩ := tgt_eq_some.mp hp
  rw [ent_child_of hx hi ht, entry] at he
  split at he
  · exact (Prod.mk.inj (Option.some.inj he)).1
  · cases he

theorem destroyPte0_ok {i j : Vpn} {t1 t0 : Nat} (hs : Consistent M s)
    (ht1 : s.tgt (.pte2 d i) = some t1) (ht0 : s.tgt (.pte1 d i j) = some t0) (k : Vpn) :
    ∃ s', destroyPte0 t1 j s k = .ok s' ∧ Emptied M (· = .pte0 d i j k) s s' ∧
      s'.ent (.pte0 d i j k) = none := by
  have hpage : ptePage (s.mem t1 j) = t0 := ptePage_of_tgt (x := .pte2 d i) trivial id ht1 ht0
  unfold destroyPte0
  rw [hpage]
  simp only
  split
  · rename_i hv
    exact clearEntry_ok hs (x := .pte1 d i j) trivial ht0 id hv (fun h => h.elim)
  · rename_i hv
    refine ⟨s, rfl, ⟨hs, fun _ _ => rfl⟩, ?_⟩
    have := ent_child_of (s := s) (x := .pte1 d i j) (i := k) trivial id ht0
    rw [entry, if_neg hv] at this
    exact this

theorem destroyPte1_ok {i : Vpn} {t2 t1 : Nat} (hs : Consistent M s) (hi : ¬ shared i)
    (ht2 : s.tgt (.root d) = some t2) (ht1 : s.tgt (.pte2 d i) = some t1) (j : Vpn) :
    ∃ s', destroyPte1 t2 i s j = .ok s' ∧
      Emptied M (fun x => x = .pte1 d i j ∨ ∃ k, x = .pte0 d i j k) s s' ∧
      s'.ent (.pte1 d i j) = none := by
  have hpage : ptePage (s.mem t2 i) = t1 := ptePage_of_tgt (x := .root d) trivial hi ht2 ht1
  have hent := ent_child_of (s := s) (x := .pte2 d i) (i := j) trivial id ht1
  unfold destroyPte1
  rw [hpage]
  simp only
  split
  · rename_i hv
    rw [entry, if_pos hv] at hent
    have ht0 : s.tgt (.pte1 d i j) = some (ptePage (s.mem t1 j)) := tgt_eq_some.mpr ⟨_, hent⟩
    -- the inner loop leaves the two tables above it in place
    obtain ⟨s₁, h₁, hE, hQ, -⟩ := Except.foldlM_ok (f := destroyPte0 t1 j)
      (P := fun s' => Emptied M (fun x => ∃ k, x = .pte0 d i j k) s s')
      (Q := fun k s' => s'.ent (.pte0 d i j k) = none)
      (fun s' k hE => by
        obtain ⟨s'', h, hE', hk⟩ := destroyPte0_ok hE.consistent
          ((hE.tgt_eq (by simp)).trans ht1) ((hE.tgt_eq (by simp)).trans ht0) k
        refine ⟨s'', h, hE.trans (hE'.mono fun x hx => ⟨k, hx⟩), hk, fun b hb => ?_⟩
        by_cases hbk : b = k
        · rw [hbk, hk]
        · rw [hE'.ent_eq _ (by simp [hbk]), hb])
      (List.finRange 512) ⟨hs, fun _ _ => rfl⟩
    have ht1' : s₁.tgt (.pte2 d i) = some t1 := (hE.tgt_eq (by simp)).trans ht1
    have hent₁ := ent_child_of (s := s₁) (x := .pte2 d i) (i := j) trivial id ht1'
    have hv₁ : valid (s₁.mem t1 j) := by
      by_contra hn
      rw [entry, if_neg hn, Slot.child, hE.ent_eq _ (by simp)] at hent₁
      rw [Slot.child, hent₁] at hent
      cases hent
    obtain ⟨s', h', hE', hk'⟩ := clearEntry_ok hE.consistent (x := .pte2 d i) trivial ht1' id hv₁
      (fun _ k => hQ k (List.mem_finRange k))
    refine ⟨s', ?_, (hE.mono fun x hx => .inr hx).trans (hE'.mono fun x hx => .inl hx), hk'⟩
    exact Except.bind_ok_iff.mpr ⟨s₁, h₁, h'⟩
  · rename_i hv
    rw [entry, if_neg hv] at hent
    exact ⟨s, rfl, ⟨hs, fun _ _ => rfl⟩, hent⟩

/-- The slots below the root of `d`. -/
def BelowRoot (d : D) (x : Slot D) : Prop := x.dir = d ∧ x ≠ .root d

theorem destroyPte2_ok {t2 : Nat} (hs : Consistent M s) (ht2 : s.tgt (.root d) = some t2)
    (i : Vpn) :
    ∃ s', destroyPte2 t2 s i = .ok s' ∧ Emptied M (BelowRoot d) s s' ∧
      s'.ent (.pte2 d i) = none ∧ ∀ b, s.ent (.pte2 d b) = none → s'.ent (.pte2 d b) = none := by
  unfold destroyPte2
  split
  · rename_i hi
    exact ⟨s, rfl, ⟨hs, fun _ _ => rfl⟩, ent_child_leaves s (x := .root d) hi, fun _ h => h⟩
  rename_i hi
  have hent := ent_child_of (s := s) (x := .root d) (i := i) trivial hi ht2
  split
  · rename_i hv
    rw [entry, if_pos hv] at hent
    have ht1 : s.tgt (.pte2 d i) = some (ptePage (s.mem t2 i)) := tgt_eq_some.mpr ⟨_, hent⟩
    obtain ⟨s₁, h₁, hE, hQ, -⟩ := Except.foldlM_ok (f := destroyPte1 t2 i)
      (P := fun s' => Emptied M (fun x => (∃ j, x = .pte1 d i j) ∨ ∃ j k, x = .pte0 d i j k) s s')
      (Q := fun j s' => s'.ent (.pte1 d i j) = none)
      (fun s' j hE => by
        obtain ⟨s'', h, hE', hj⟩ := destroyPte1_ok hE.consistent hi
          ((hE.tgt_eq (by simp)).trans ht2) ((hE.tgt_eq (by simp)).trans ht1) j
        refine ⟨s'', h, hE.trans (hE'.mono ?_), hj, fun b hb => ?_⟩
        · rintro x (hx | ⟨k, hx⟩)
          · exact .inl ⟨j, hx⟩
          · exact .inr ⟨j, k, hx⟩
        · by_cases hbj : b = j
          · rw [hbj, hj]
          · rw [hE'.ent_eq _ (by simp [hbj]), hb])
      (List.finRange 512) ⟨hs, fun _ _ => rfl⟩
    have ht2' : s₁.tgt (.root d) = some t2 := (hE.tgt_eq (by simp)).trans ht2
    have hent₁ := ent_child_of (s := s₁) (x := .root d) (i := i) trivial hi ht2'
    have hv₁ : valid (s₁.mem t2 i) := by
      by_contra hn
      rw [entry, if_neg hn, Slot.child, hE.ent_eq _ (by simp)] at hent₁
      rw [Slot.child, hent₁] at hent
      cases hent
    obtain ⟨s', h', hE', hk'⟩ := clearEntry_ok hE.consistent (x := .root d) trivial ht2' hi hv₁
      (fun _ j => hQ j (List.mem_finRange j))
    refine ⟨s', ?_, (hE.mono ?_).trans (hE'.mono ?_), hk', ?_⟩
    · exact Except.bind_ok_iff.mpr ⟨s₁, h₁, h'⟩
    · rintro x (⟨j, rfl⟩ | ⟨j, k, rfl⟩)
      · exact ⟨rfl, by simp⟩
      · exact ⟨rfl, by simp⟩
    · rintro x rfl
      exact ⟨rfl, by simp [Slot.child]⟩
    · intro b hb
      by_cases hbi : b = i
      · rw [hbi]; exact hk'
      · rw [hE'.ent_eq _ (by simp [Slot.child, hbi]), hE.ent_eq _ (by simp), hb]
  · rename_i hv
    rw [entry, if_neg hv] at hent
    exact ⟨s, rfl, ⟨hs, fun _ _ => rfl⟩, hent, fun _ h => h⟩

/-- Clearing the variable of a directory whose root table is empty. -/
theorem dropRoot_spec (hs : Consistent M s) {t2 : Nat} (ht2 : s.tgt (.root d) = some t2)
    (hbelow : ∀ i, s.ent (.pte2 d i) = none) :
    let s' := (s.dropRef t2).setPgdir d 0
    Consistent M s' ∧ s'.ent = Function.update s.ent (.root d) none := by
  intro s'
  have hent₁ : (s.dropRef t2).ent = s.ent := ent_eq_of_mem rfl rfl
  have hent : s'.ent = Function.update s.ent (.root d) none := by
    have := ent_setPgdir (s := s.dropRef t2) (d := d) 0 (fun i => by rw [hent₁, hbelow i])
      (fun h => absurd rfl h)
    rw [if_pos rfl, hent₁] at this
    exact this
  refine ⟨⟨?_, ?_, ?_, ?_, hs.ram⟩, hent⟩
  · rw [tgt_update hent]
    exact hs.counted.drop ht2
  · intro y hy
    have := hs.small y hy
    by_cases hyp : y = t2
    · subst hyp; simp [s', setPgdir, dropRef]; omega
    · simpa [s', setPgdir, dropRef, hyp] using this
  · exact distinct_update hs.distinct hent fun _ p hp => by cases hp
  · intro d'
    by_cases hdd : d' = d
    · subst hdd; simp [s', setPgdir]
    · simpa [s', setPgdir, dropRef, hdd] using hs.aligned d'

/-- `destroy_pgdir` returns, takes every page reference of its directory away
and leaves the other directories as they are. -/
theorem destroyPgdir_ok (hs : Consistent M s) (d : D) :
    ∃ s', s.destroyPgdir d = .ok (0, s') ∧ Emptied M (fun x => x.dir = d) s s' ∧
      s'.pgdir d = 0 := by
  unfold destroyPgdir
  split
  · rename_i hd
    exact ⟨s, rfl, ⟨hs, fun _ _ => rfl⟩, hd⟩
  rename_i hd
  have ht2 : s.tgt (.root d) = some (s.pgdir d >>> 12) := by simp [tgt, ent, ent.root, hd]
  obtain ⟨s₁, h₁, hE, hQ, -⟩ := Except.foldlM_ok (f := destroyPte2 (s.pgdir d >>> 12))
    (P := fun s' => Emptied M (BelowRoot d) s s') (Q := fun i s' => s'.ent (.pte2 d i) = none)
    (fun s' i hE => by
      obtain ⟨s'', h, hE', hi, hk⟩ := destroyPte2_ok hE.consistent
        ((hE.tgt_eq fun h => h.2 rfl).trans ht2) i
      exact ⟨s'', h, hE.trans hE', hi, hk⟩)
    (List.finRange 512) ⟨hs, fun _ _ => rfl⟩
  have ht2' : s₁.tgt (.root d) = some (s.pgdir d >>> 12) :=
    (hE.tgt_eq fun h => h.2 rfl).trans ht2
  obtain ⟨hs', hent⟩ := dropRoot_spec hE.consistent ht2' fun i => hQ i (List.mem_finRange i)
  refine ⟨_, ?_, ⟨hs', ?_⟩, by simp [setPgdir]⟩
  · exact Except.bind_ok_iff.mpr ⟨s₁, h₁, Except.bind_ok_iff.mpr
      ⟨_, clearRef_eq hE.consistent ht2', rfl⟩⟩
  · intro x hx
    have hne : x ≠ .root d := by rintro rfl; exact hx rfl
    rw [hent, Function.update_of_ne hne, hE.ent_eq x fun h => hx h.1]

omit [DecidableEq D] [Fintype D] in
/-- A directory without a root has no slots. -/
theorem ent_none_of_pgdir (x : Slot D) : s.pgdir x.dir = 0 → s.ent x = none := by
  induction x using Slot.child_induction with
  | hroot d =>
    intro hd
    simp only [Slot.dir] at hd
    simp [ent, ent.root, hd]
  | hchild x i hx ih =>
    intro hd
    have hdir : (x.child i).dir = x.dir := by cases x <;> rfl
    rw [hdir] at hd
    exact ent_child_none hx (ih hd) i

/-- What `d` held it has given back: a page that only `d` referred to is free,
none is free twice, and every page has lost the references it had from `d`. -/
structure Released (M : Nat → Prop) (d : D) (s s' : Pmap D) : Prop where
  freed : ∀ p, M p → (∀ x, s.tgt x = some p → x.dir = d) → p ∈ s'.pageFreeList
  nodup : s'.pageFreeList.Nodup
  dropped : ∀ p, M p → s'.ppRef p + RefCount.refsOf s.tgt (fun x => x.dir = d) p = s.ppRef p
  root : s'.pgdir d = 0

theorem destroyPgdir_released (hs : Consistent M s) (d : D) :
    ∃ s', s.destroyPgdir d = .ok (0, s') ∧ Consistent M s' ∧ Released M d s s' := by
  obtain ⟨s', hrun, hE, hd⟩ := destroyPgdir_ok hs d
  have hs' := hE.consistent
  have hempty : ∀ x : Slot D, x.dir = d → s'.tgt x = none := by
    intro x hx
    exact tgt_eq_none.mpr (ent_none_of_pgdir x (by rw [hx, hd]))
  refine ⟨s', hrun, hs', ?_, hs'.counted.nodup, ?_, hd⟩
  · intro p hp hown
    rw [hs'.counted.free_iff p hp, hs'.counted.count p hp, RefCount.refs_eq_zero_iff]
    intro x hx
    by_cases hxd : x.dir = d
    · rw [hempty x hxd] at hx
      cases hx
    · rw [hE.tgt_eq hxd] at hx
      exact hxd (hown x hx)
  · intro p hp
    rw [hs'.counted.count p hp, hs.counted.count p hp]
    exact RefCount.refs_add_refsOf hempty (fun x hx => hE.tgt_eq hx) p

end Pmap

end RiscvMos
