import RiscvMos.Lib.Except
import RiscvMos.Pmap.Frame

/-!
The descent to a level-0 table shared by `alloc_page`, `map_page` and their
`_user` variants: it either meets an existing table, or makes the missing ones
(and maps them in the page-table window) and arrives at `map` with an empty
entry, or runs out of pages.
-/

namespace RiscvMos.Pmap

variable {D : Type}

/-- The slot of the last-level entry for `va`. -/
abbrev leafSlot (d : D) (va : Nat) : Slot D := .pte0 d (vpn2 va) (vpn1 va) (vpn0 va)

/-- The slots on the way to the entry for `va`. -/
def OnPath (d : D) (va : Nat) (x : Slot D) : Prop :=
  x = .root d ∨ x = .pte2 d (vpn2 va) ∨ x = .pte1 d (vpn2 va) (vpn1 va) ∨ x = leafSlot d va

/-- Where the three labels map the root, level-1 and level-0 table of `va`. -/
def selfVa2 (va : Nat) : Nat :=
  pageTable + (pageTable >>> 9) + (pageTable >>> 18) + (va >>> 27)
def selfVa1 (va : Nat) : Nat := pageTable + (pageTable >>> 9) + (va >>> 18)
def selfVa0 (va : Nat) : Nat := pageTable + (va >>> 9)

/-- The gigabyte at `PAGE_TABLE`, behind root entry 3. -/
def InWindow (va : Nat) : Prop := pageTable ≤ va ∧ va < pageTable + 2 ^ 30

instance (va : Nat) : Decidable (InWindow va) := inferInstanceAs (Decidable (_ ∧ _))

theorem InWindow.vpn2_eq {va : Nat} (h : InWindow va) : vpn2 va = 3 := by
  have := h.1; have := h.2
  apply Fin.ext
  rw [vpn2_val]
  simp only [pageTable] at *
  omega

theorem InWindow.not_shared {va : Nat} (h : InWindow va) : ¬ shared (vpn2 va) := by
  rw [h.vpn2_eq]
  decide

theorem InWindow.lt {va : Nat} (h : InWindow va) : va < 2 ^ 39 :=
  h.2.trans (by decide)

theorem inWindow_of_vpn2 {va : Nat} (hva : va < 2 ^ 39) (h : vpn2 va = 3) : InWindow va := by
  have h3 : va / 1073741824 % 512 = 3 := by
    rw [← vpn2_val, h]
    rfl
  simp only [InWindow, pageTable]
  omega

section
variable {va : Nat}

theorem selfVa0_inWindow (hva : va < 2 ^ 39) : InWindow (selfVa0 va) := by
  rw [InWindow, selfVa0, pageTable, Nat.shiftRight_eq_div_pow]
  omega

theorem selfVa1_inWindow (hva : va < 2 ^ 39) : InWindow (selfVa1 va) := by
  rw [InWindow, selfVa1, pageTable, Nat.shiftRight_eq_div_pow, Nat.shiftRight_eq_div_pow]
  omega

theorem selfVa2_inWindow (hva : va < 2 ^ 39) : InWindow (selfVa2 va) := by
  rw [InWindow, selfVa2, pageTable]
  simp only [Nat.shiftRight_eq_div_pow]
  omega

end

theorem walk_cases (s : Pmap D) {d : D} {va : Nat} (hd : s.pgdir d ≠ 0)
    (hv : ¬ shared (vpn2 va)) :
    (∃ t2, s.walk (s.pgdir d >>> 12) va = .noPte1 t2 ∧ s.tgt (.root d) = some t2 ∧
      s.ent (.pte2 d (vpn2 va)) = none) ∨
    (∃ t1, s.walk (s.pgdir d >>> 12) va = .noPte0 t1 ∧ s.tgt (.pte2 d (vpn2 va)) = some t1 ∧
      s.ent (.pte1 d (vpn2 va) (vpn1 va)) = none) ∨
    (∃ t0, s.walk (s.pgdir d >>> 12) va = .pte0 t0 ∧
      s.tgt (.pte1 d (vpn2 va) (vpn1 va)) = some t0) := by
  have hroot : s.tgt (.root d) = some (s.pgdir d >>> 12) := by simp [tgt, ent, ent.root, hd]
  have h2 := ent_child_of (s := s) (x := .root d) (i := vpn2 va) trivial hv hroot
  by_cases hv2 : valid (s.mem (s.pgdir d >>> 12) (vpn2 va))
  · have ht1 : s.tgt (.pte2 d (vpn2 va)) = some (ptePage (s.mem (s.pgdir d >>> 12) (vpn2 va))) :=
      tgt_eq_some.mpr ⟨_, by rw [Slot.child] at h2; rw [h2, entry, if_pos hv2]⟩
    have h1 := ent_child_of (s := s) (x := .pte2 d (vpn2 va)) (i := vpn1 va) trivial id ht1
    by_cases hv1 : valid (s.mem (ptePage (s.mem (s.pgdir d >>> 12) (vpn2 va))) (vpn1 va))
    · refine .inr (.inr ⟨ptePage _, by simp only [walk, hv2, hv1, if_true]; rfl, ?_⟩)
      exact tgt_eq_some.mpr ⟨_, by rw [Slot.child] at h1; rw [h1, entry, if_pos hv1]⟩
    · refine .inr (.inl ⟨_, by simp only [walk, hv2, hv1, if_true, if_false], ht1, ?_⟩)
      rw [Slot.child] at h1; rw [h1, entry, if_neg hv1]
  · refine .inl ⟨_, by simp only [walk, hv2, if_false], hroot, ?_⟩
    rw [Slot.child] at h2; rw [h2, entry, if_neg hv2]

variable [DecidableEq D] [Fintype D] {M : Nat → Prop} {s s' : Pmap D}

/-- Slot `x` holds what it held, and its page has not become a table. -/
def Kept (x : Slot D) (s s' : Pmap D) : Prop :=
  s'.ent x = s.ent x ∧ ∀ p, s.tgt x = some p → ¬ s.TablePage p → ¬ s'.TablePage p

/-- The last-level entries of `s'` are those of `s`, or read-only maps of tables. -/
def WindowOnly (s s' : Pmap D) : Prop :=
  ∀ x, ¬ x.IsTable → Kept x s s' ∨
    ∃ t, s'.TablePage t ∧ s'.ent x = some (t, pteR ||| pteU ||| pteV)

omit [DecidableEq D] [Fintype D] in
theorem Kept.refl (x : Slot D) (s : Pmap D) : Kept x s s := ⟨rfl, fun _ _ h => h⟩

omit [DecidableEq D] [Fintype D] in
theorem Kept.trans {x : Slot D} {s₁ : Pmap D} (h : Kept x s s₁) (h' : Kept x s₁ s') :
    Kept x s s' := by
  refine ⟨h'.1.trans h.1, fun p hp hn => h'.2 p ?_ (h.2 p hp hn)⟩
  rw [tgt, h.1]
  exact hp

omit [DecidableEq D] [Fintype D] in
theorem WindowOnly.refl (s : Pmap D) : WindowOnly s s := fun x _ => .inl (.refl x s)

omit [DecidableEq D] [Fintype D] in
/-- Pointing a table slot at a page that no slot had. -/
theorem WindowOnly.of_update {c : Slot D} {q perm : Nat} [DecidableEq D]
    (hc : c.IsTable) (h : s'.ent = Function.update s.ent c (some (q, perm)))
    (hq : ∀ y, s.tgt y ≠ some q) : WindowOnly s s' := by
  intro x hx
  left
  constructor
  · rw [h, Function.update_of_ne (by rintro rfl; exact hx hc)]
  · rintro p hp hn ⟨y, hy, hyp⟩
    rw [tgt_update h] at hyp
    by_cases hyc : y = c
    · subst hyc
      rw [Function.update_self] at hyp
      obtain rfl := Option.some.inj hyp
      exact hq x hp
    · rw [Function.update_of_ne hyc] at hyp
      exact hn ⟨y, hy, hyp⟩

omit [DecidableEq D] [Fintype D] in
theorem WindowOnly.trans {C : Slot D → Prop} {s₁ : Pmap D} (h : WindowOnly s s₁)
    (h' : WindowOnly s₁ s') (hf : Frame M C s₁ s') : WindowOnly s s' := by
  intro x hx
  rcases h' x hx with he | he
  · rcases h x hx with he' | ⟨t, ⟨y, hy, hyt⟩, he'⟩
    · exact .inl (he'.trans he)
    · exact .inr ⟨t, ⟨y, hy, hf.table y t hy hyt⟩, he.1.trans he'⟩
  · exact .inr he

/-- A self-map step of a table page may touch the slots `T va`, and keeps the
invariant. -/
def SelfSpec (M : Nat → Prop) (T : Nat → Slot D → Prop)
    (self : Pmap D → Nat → Nat → Except Halt (Pmap D)) : Prop :=
  ∀ ⦃s va pa s'⦄, Consistent M s → InWindow va → s.TablePage (pa / 4096) →
    s.ppRef (pa / 4096) = 1 → self s va pa = .ok s' →
    Consistent M s' ∧ Frame M (T va) s s' ∧ WindowOnly s s'

/-- The slots a call for `va` may touch. -/
def Touched (T : Nat → Slot D → Prop) (d : D) (va : Nat) (x : Slot D) : Prop :=
  OnPath d va x ∨ T (selfVa2 va) x ∨ T (selfVa1 va) x ∨ T (selfVa0 va) x

/-- `s₂` is `s` with the tables for `va` made, and its entry empty. -/
structure Ready (M : Nat → Prop) (T : Nat → Slot D → Prop) (d : D) (va : Nat) (s s₂ : Pmap D)
    (t0 : Nat) : Prop where
  consistent : Consistent M s₂
  frame : Frame M (Touched T d va) s s₂
  window : WindowOnly s s₂
  table : s₂.tgt (.pte1 d (vpn2 va) (vpn1 va)) = some t0
  empty : s₂.ent (leafSlot d va) = none

/-- The code at `map` runs in a `Ready` state, or the call gives up. -/
def Arrives (M : Nat → Prop) (T : Nat → Slot D → Prop) (d : D) (va : Nat)
    (map : Pmap D → Nat → Except Halt (Reply D)) (s : Pmap D) (r : Int) (s' : Pmap D) : Prop :=
  (∃ s₂ t0, Ready M T d va s s₂ t0 ∧ map s₂ t0 = .ok (r, s')) ∨
  (r = -eNoMem ∧ Consistent M s' ∧ Frame M (Touched T d va) s s' ∧ WindowOnly s s' ∧
    s'.ent (leafSlot d va) = none)

omit [DecidableEq D] in
theorem Arrives.of_frame {T : Nat → Slot D → Prop} {d : D} {va : Nat}
    {map : Pmap D → Nat → Except Halt (Reply D)} {s₁ : Pmap D} {r : Int}
    (hf : Frame M (Touched T d va) s s₁) (hw : WindowOnly s s₁)
    (h : Arrives M T d va map s₁ r s') : Arrives M T d va map s r s' := by
  rcases h with ⟨s₂, t0, hr, hm⟩ | ⟨hr, hc, hf', hw', hn⟩
  · exact .inl ⟨s₂, t0, ⟨hr.consistent, hf.trans hr.frame, hw.trans hr.window hr.frame, hr.table,
      hr.empty⟩, hm⟩
  · exact .inr ⟨hr, hc, hf.trans hf', hw.trans hw' hf', hn⟩

theorem pteAddr_div (t : Nat) (i : Vpn) : pteAddr t i / 4096 = t := by
  have := i.isLt
  rw [pteAddr, page2pa, Nat.shiftLeft_eq]
  omega

/-- A page just put in an empty slot has that one reference. -/
theorem Filled.ppRef (hs : Consistent M s) (hs' : Consistent M s') {c : Slot D} {t : Nat} {i : Vpn}
    {q perm : Nat} (h : Filled s s' c t i q perm) (hc : s.ent c = none) : s'.ppRef q = 1 := by
  have hq : M q := hs.counted.free_sub q (by simp [h.free])
  have h0 : s.ppRef q = 0 := (hs.counted.free_iff q hq).mp (by simp [h.free])
  rw [hs'.counted.count q hq, tgt_update h.ent, Option.map_some,
    RefCount.refs_fill (tgt_eq_none.mpr hc), ← hs.counted.count q hq, h0, if_pos rfl]

theorem Filled.fresh (hs : Consistent M s) {c : Slot D} {t : Nat} {i : Vpn} {q perm : Nat}
    (h : Filled s s' c t i q perm) (y : Slot D) : s.tgt y ≠ some q :=
  hs.counted.tgt_ne_of_free (by simp [h.free]) y

section
variable {self : Pmap D → Nat → Nat → Except Halt (Pmap D)} {T : Nat → Slot D → Prop}
  {map found : Pmap D → Nat → Except Halt (Reply D)} {d : D} {va : Nat} {r : Int}

omit [DecidableEq D] [Fintype D] in
theorem leaf_none_of_pte1 (h : s.ent (.pte1 d (vpn2 va) (vpn1 va)) = none) :
    s.ent (leafSlot d va) = none :=
  ent_child_none (x := .pte1 d (vpn2 va) (vpn1 va)) trivial h _

omit [DecidableEq D] [Fintype D] in
theorem pte1_none_of_pte2 (h : s.ent (.pte2 d (vpn2 va)) = none) :
    s.ent (.pte1 d (vpn2 va) (vpn1 va)) = none :=
  ent_child_none (x := .pte2 d (vpn2 va)) trivial h _

theorem createPte0_spec (hs : Consistent M s) (hself : SelfSpec M T self) (hva : va < 2 ^ 39)
    (h0 : ¬ T (selfVa0 va) (leafSlot d va)) {t1 : Nat}
    (ht : s.tgt (.pte2 d (vpn2 va)) = some t1)
    (hnone : s.ent (.pte1 d (vpn2 va) (vpn1 va)) = none)
    (h : createPte0 self map s t1 va = .ok (r, s')) : Arrives M T d va map s r s' := by
  unfold createPte0 at h
  cases ha : s.allocEntry t1 (vpn1 va) 0 with
  | none =>
    simp only [ha, Except.ok.injEq, Prod.mk.injEq] at h
    obtain ⟨rfl, rfl⟩ := h
    exact .inr ⟨rfl, hs, Frame.refl s, WindowOnly.refl s, leaf_none_of_pte1 hnone⟩
  | some e =>
    obtain ⟨t0, s₁⟩ := e
    simp only [ha] at h
    obtain ⟨hs₁, hf₁⟩ := allocEntry_spec hs (x := .pte2 d (vpn2 va)) trivial ht id hnone
      (by decide) ha
    have hframe : Frame M (Touched T d va) s s₁ :=
      (hf₁.frame hs (x := .pte2 d (vpn2 va)) trivial ht id hnone).mono
        (by rintro x rfl; exact .inl (.inr (.inr (.inl rfl))))
    have ht0 : s₁.tgt (.pte1 d (vpn2 va) (vpn1 va)) = some t0 := by
      rw [tgt, hf₁.ent]; simp [Slot.child]
    obtain ⟨s₂, hsm, h⟩ := Except.bind_ok_iff.mp h
    obtain ⟨hs₂, hf₂, hw₂⟩ := hself hs₁ (selfVa0_inWindow hva)
      ⟨.pte1 d (vpn2 va) (vpn1 va), trivial, by rw [pteAddr_div]; exact ht0⟩
      (by rw [pteAddr_div, hf₁.ppRef hs hs₁ hnone]) hsm
    have hw₁ : WindowOnly s s₁ := .of_update (c := .pte1 d (vpn2 va) (vpn1 va)) trivial hf₁.ent
      (hf₁.fresh hs)
    refine .inl ⟨s₂, t0, ⟨hs₂, hframe.trans (hf₂.mono fun x hx => .inr (.inr (.inr hx))),
      hw₁.trans hw₂ hf₂, hf₂.table _ _ trivial ht0, ?_⟩, h⟩
    rw [hf₂.ent_eq _ h0, hf₁.ent, Function.update_of_ne (by simp [Slot.child])]
    exact ent_child_none (x := .pte1 d (vpn2 va) (vpn1 va)) trivial hnone _

theorem createPte1_spec (hs : Consistent M s) (hself : SelfSpec M T self) (hva : va < 2 ^ 39)
    (hv : ¬ shared (vpn2 va)) (h0 : ¬ T (selfVa0 va) (leafSlot d va))
    (h1 : ¬ T (selfVa1 va) (.pte1 d (vpn2 va) (vpn1 va))) {t2 : Nat}
    (ht : s.tgt (.root d) = some t2) (hnone : s.ent (.pte2 d (vpn2 va)) = none)
    (h : createPte1 self map s t2 va = .ok (r, s')) : Arrives M T d va map s r s' := by
  unfold createPte1 at h
  cases ha : s.allocEntry t2 (vpn2 va) 0 with
  | none =>
    simp only [ha, Except.ok.injEq, Prod.mk.injEq] at h
    obtain ⟨rfl, rfl⟩ := h
    exact .inr ⟨rfl, hs, Frame.refl s, WindowOnly.refl s,
      leaf_none_of_pte1 (pte1_none_of_pte2 hnone)⟩
  | some e =>
    obtain ⟨t1, s₁⟩ := e
    simp only [ha] at h
    obtain ⟨hs₁, hf₁⟩ := allocEntry_spec hs (x := .root d) trivial ht hv hnone (by decide) ha
    have hframe : Frame M (Touched T d va) s s₁ :=
      (hf₁.frame hs (x := .root d) trivial ht hv hnone).mono
        (by rintro x rfl; exact .inl (.inr (.inl rfl)))
    have ht1 : s₁.tgt (.pte2 d (vpn2 va)) = some t1 := by
      rw [tgt, hf₁.ent]; simp [Slot.child]
    obtain ⟨s₂, hsm, h⟩ := Except.bind_ok_iff.mp h
    obtain ⟨hs₂, hf₂, hw₂⟩ := hself hs₁ (selfVa1_inWindow hva)
      ⟨.pte2 d (vpn2 va), trivial, by rw [pteAddr_div]; exact ht1⟩
      (by rw [pteAddr_div, hf₁.ppRef hs hs₁ hnone]) hsm
    have hw₁ : WindowOnly s s₁ := .of_update (c := .pte2 d (vpn2 va)) trivial hf₁.ent
      (hf₁.fresh hs)
    refine (createPte0_spec hs₂ hself hva h0 (hf₂.table _ _ trivial ht1) ?_ h).of_frame
      (hframe.trans (hf₂.mono fun x hx => .inr (.inr (.inl hx)))) (hw₁.trans hw₂ hf₂)
    rw [hf₂.ent_eq _ h1, hf₁.ent, Function.update_of_ne (by simp [Slot.child])]
    exact ent_child_none (x := .pte2 d (vpn2 va)) trivial hnone _

theorem createPte2_spec (hs : Consistent M s) (hself : SelfSpec M T self) (hva : va < 2 ^ 39)
    (hv : ¬ shared (vpn2 va)) (h0 : ¬ T (selfVa0 va) (leafSlot d va))
    (h1 : ¬ T (selfVa1 va) (.pte1 d (vpn2 va) (vpn1 va)))
    (h2 : ¬ T (selfVa2 va) (.pte2 d (vpn2 va))) (hd : s.pgdir d = 0)
    (h : createPte2 self map s d va = .ok (r, s')) : Arrives M T d va map s r s' := by
  unfold createPte2 at h
  cases ha : s.pageAlloc with
  | none =>
    simp only [ha, Except.ok.injEq, Prod.mk.injEq] at h
    obtain ⟨rfl, rfl⟩ := h
    have hroot : s.ent (.root d) = none := by simp [ent, ent.root, hd]
    exact .inr ⟨rfl, hs, Frame.refl s, WindowOnly.refl s,
      leaf_none_of_pte1 (pte1_none_of_pte2 (ent_child_none (x := .root d) trivial hroot _))⟩
  | some e =>
    obtain ⟨pp, s₀⟩ := e
    simp only [ha] at h
    obtain ⟨hs₁, hent₁, href, hf₁⟩ := newRoot_spec hs hd ha
    have hfresh : ∀ y, s.tgt y ≠ some pp := by
      obtain ⟨rest, hl, -⟩ := pageAlloc_eq_some ha
      exact hs.counted.tgt_ne_of_free (by simp [hl])
    have ht : ((s₀.setPgdir d (page2pa pp)).incRef pp).tgt (.root d) = some pp := by
      rw [tgt, hent₁]; simp
    obtain ⟨s₂, hsm, h⟩ := Except.bind_ok_iff.mp h
    obtain ⟨hs₂, hf₂, hw₂⟩ := hself hs₁ (selfVa2_inWindow hva)
      ⟨.root d, trivial, by rw [pteAddr_div]; exact ht⟩
      (by rw [pteAddr_div, href]) hsm
    refine (createPte1_spec hs₂ hself hva hv h0 h1 (hf₂.table _ _ trivial ht) ?_ h).of_frame
      ((hf₁.mono (by rintro x rfl; exact .inl (.inl rfl))).trans
        (hf₂.mono fun x hx => .inr (.inl hx)))
      (WindowOnly.trans (.of_update (c := .root d) trivial hent₁ hfresh) hw₂ hf₂)
    rw [hf₂.ent_eq _ h2, hent₁, Function.update_of_ne (by simp)]
    exact ent_child_none (x := .root d) trivial (by simp [ent, ent.root, hd]) _

/-- The tables a call for `va` may have to make are not among the slots its
self-maps touch. -/
structure Apart (T : Nat → Slot D → Prop) (d : D) (va : Nat) (s : Pmap D) : Prop where
  pte0 : s.ent (.pte1 d (vpn2 va) (vpn1 va)) = none → ¬ T (selfVa0 va) (leafSlot d va)
  pte1 : s.ent (.pte2 d (vpn2 va)) = none → ¬ T (selfVa1 va) (.pte1 d (vpn2 va) (vpn1 va))
  pte2 : s.ent (.root d) = none → ¬ T (selfVa2 va) (.pte2 d (vpn2 va))

theorem descend_spec (hs : Consistent M s) (hself : SelfSpec M T self) (hva : va < 2 ^ 39)
    (hv : ¬ shared (vpn2 va)) (hT : Apart T d va s)
    (h : descend self map found s d va = .ok (r, s')) :
    (s.ent (leafSlot d va) = none ∧ Arrives M T d va map s r s') ∨
    ∃ t0, s.tgt (.pte1 d (vpn2 va) (vpn1 va)) = some t0 ∧ found s t0 = .ok (r, s') := by
  unfold descend at h
  split at h
  · rename_i hd
    have hroot : s.ent (.root d) = none := by simp [ent, ent.root, hd]
    have hn : s.ent (.pte2 d (vpn2 va)) = none := ent_child_none (x := .root d) trivial hroot _
    exact .inl ⟨leaf_none_of_pte1 (pte1_none_of_pte2 hn),
      createPte2_spec hs hself hva hv (hT.pte0 (pte1_none_of_pte2 hn)) (hT.pte1 hn)
      (hT.pte2 hroot) hd h⟩
  · rename_i hd
    rcases walk_cases s hd hv with ⟨t2, hw, ht, hn⟩ | ⟨t1, hw, ht, hn⟩ | ⟨t0, hw, ht⟩
    · simp only [hw] at h
      exact .inl ⟨leaf_none_of_pte1 (pte1_none_of_pte2 hn),
        createPte1_spec hs hself hva hv (hT.pte0 (pte1_none_of_pte2 hn))
        (hT.pte1 hn) ht hn h⟩
    · simp only [hw] at h
      exact .inl ⟨leaf_none_of_pte1 hn, createPte0_spec hs hself hva (hT.pte0 hn) ht hn h⟩
    · simp only [hw] at h
      exact .inr ⟨t0, ht, h⟩

end

section
variable {self : Pmap D → Nat → Nat → Except Halt (Pmap D)}
  {map found : Pmap D → Nat → Except Halt (Reply D)} {d : D} {va : Nat} {r : Int} {P : Int → Prop}

omit [DecidableEq D] [Fintype D] in
theorem createPte0_codes (hmap : ∀ s t0 r s', map s t0 = .ok (r, s') → P r)
    (hnm : P (-eNoMem)) {t1 : Nat} (h : createPte0 self map s t1 va = .ok (r, s')) : P r := by
  unfold createPte0 at h
  split at h
  · rw [← (Prod.mk.inj (Except.ok.inj h)).1]
    exact hnm
  · obtain ⟨s₁, -, h⟩ := Except.bind_ok_iff.mp h
    exact hmap _ _ _ _ h

omit [DecidableEq D] [Fintype D] in
theorem createPte1_codes (hmap : ∀ s t0 r s', map s t0 = .ok (r, s') → P r)
    (hnm : P (-eNoMem)) {t2 : Nat} (h : createPte1 self map s t2 va = .ok (r, s')) : P r := by
  unfold createPte1 at h
  split at h
  · rw [← (Prod.mk.inj (Except.ok.inj h)).1]
    exact hnm
  · obtain ⟨s₁, -, h⟩ := Except.bind_ok_iff.mp h
    exact createPte0_codes hmap hnm h

omit [Fintype D] in
/-- The code of a call is that of its last step, or `-E_NO_MEM`. -/
theorem descend_codes (hmap : ∀ s t0 r s', map s t0 = .ok (r, s') → P r)
    (hfound : ∀ s t0 r s', found s t0 = .ok (r, s') → P r) (hnm : P (-eNoMem))
    (h : descend self map found s d va = .ok (r, s')) : P r := by
  unfold descend at h
  split at h
  · unfold createPte2 at h
    split at h
    · rw [← (Prod.mk.inj (Except.ok.inj h)).1]
      exact hnm
    · obtain ⟨s₁, -, h⟩ := Except.bind_ok_iff.mp h
      exact createPte1_codes hmap hnm h
  split at h
  · exact createPte1_codes hmap hnm h
  · exact createPte0_codes hmap hnm h
  · exact hfound _ _ _ _ h

end

end RiscvMos.Pmap
