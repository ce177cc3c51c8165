import RiscvMos.Pmap.Leaf

/-!
One specification for each call of `kern/pmap.c`: the invariant it keeps, the
slots it may touch, and what the entry for `va` holds when it returns 0.
-/

namespace RiscvMos.Pmap

open RefCount (refs)

variable {D : Type} [DecidableEq D] [Fintype D] {M : Nat → Prop} {s s' : Pmap D} {d : D} {va : Nat}

/-- Last-level entries other than `c` stay, or become read-only maps of tables. -/
def WindowBut (c : Slot D) (s s' : Pmap D) : Prop :=
  ∀ x, ¬ x.IsTable → x ≠ c → Kept x s s' ∨
    ∃ t, s'.TablePage t ∧ s'.ent x = some (t, pteR ||| pteU ||| pteV)

omit [Fintype D] in
/-- Storing a last-level entry makes no page a table. -/
theorem Stored.tablePage {v : Option (Nat × Nat)} (h : Stored M d va v s s') {p : Nat} :
    s'.TablePage p ↔ s.TablePage p := by
  have htgt : ∀ y : Slot D, y.IsTable → s'.tgt y = s.tgt y := by
    intro y hy
    refine h.frame.tgt_eq ?_
    rintro rfl
    exact hy
  constructor
  · rintro ⟨y, hy, hyp⟩
    exact ⟨y, hy, (htgt y hy).symm.trans hyp⟩
  · rintro ⟨y, hy, hyp⟩
    exact ⟨y, hy, (htgt y hy).trans hyp⟩

omit [Fintype D] in
theorem Stored.windowBut {v : Option (Nat × Nat)} {s₂ : Pmap D} (hw : WindowOnly s s₂)
    (h : Stored M d va v s₂ s') : WindowBut (leafSlot d va) s s' := by
  intro x hx hne
  have hent : s'.ent x = s₂.ent x := by rw [h.ent, Function.update_of_ne hne]
  rcases hw x hx with he | ⟨t, ht, he⟩
  · exact .inl (he.trans ⟨hent, fun p _ hn => h.tablePage.not.mpr hn⟩)
  · exact .inr ⟨t, h.tablePage.mpr ht, hent.trans he⟩

section
variable {self : Pmap D → Nat → Nat → Except Halt (Pmap D)} {T : Nat → Slot D → Prop} {r : Int}

/-- The slots the self-maps of a call for `va` touch. -/
def SelfTouched (T : Nat → Slot D → Prop) (va : Nat) (x : Slot D) : Prop :=
  T (selfVa2 va) x ∨ T (selfVa1 va) x ∨ T (selfVa0 va) x

/-- Page `p` has a slot that no self-map of a call for `va` takes from it. -/
def Held (T : Nat → Slot D → Prop) (va : Nat) (s : Pmap D) (p : Nat) : Prop :=
  ∃ c, s.tgt c = some p ∧ (c.IsTable ∨ ¬ SelfTouched T va c)

omit [DecidableEq D] in
/-- Slots with a page in them survive the making of the tables. -/
theorem Ready.tgt_eq {s₂ : Pmap D} {t0 : Nat} (h : Ready M T d va s s₂ t0)
    (hleaf : s.ent (leafSlot d va) = none) {c : Slot D} {p : Nat} (hc : s.tgt c = some p)
    (hkeep : c.IsTable ∨ ¬ SelfTouched T va c) : s₂.tgt c = some p := by
  by_cases htab : c.IsTable
  · exact h.frame.table c p htab hc
  · have hself := hkeep.resolve_left htab
    rw [h.frame.tgt_eq, hc]
    rintro (hpath | hT)
    · rcases hpath with rfl | rfl | rfl | rfl
      · exact htab trivial
      · exact htab trivial
      · exact htab trivial
      · rw [tgt, hleaf] at hc; cases hc
    · exact hself hT

/-- `map_page` and `map_page_user`, by what they do about the self-map. -/
theorem mapVia_spec (hs : Consistent M s) (hself : SelfSpec M T self) (hva : va < 2 ^ 39)
    (hv : ¬ shared (vpn2 va)) (hT : Apart T d va s) {pa perm : Nat} (hperm : perm < 0x400)
    (hpa : mappablePa pa)
    (h : descend self (fun s t0 => .ok (0, mapLeaf va pa perm s t0)) (remapLeaf va pa perm) s d va
      = .ok (r, s')) :
    Frame M (Touched T d va) s s' ∧
    (r = 0 → s'.ent (leafSlot d va) = some (pa / 4096, perm ||| pteV)) ∧
    WindowBut (leafSlot d va) s s' ∧
    (r ≠ 0 → WindowOnly s s' ∧ s'.ent (leafSlot d va) = none) ∧
    (Held T va s (pa / 4096) → refs s'.tgt (pa / 4096) < 65536 → Consistent M s') := by
  have hpath : ∀ x, x = leafSlot d va → Touched T d va x := by
    rintro x rfl; exact .inl (.inr (.inr (.inr rfl)))
  rcases descend_spec hs hself hva hv hT h with ⟨hleaf, hA⟩ | ⟨t0, ht, hf⟩
  · rcases hA with ⟨s₂, t0, hr, hm⟩ | ⟨rfl, hs', hf, hw, hn⟩
    · obtain ⟨rfl, rfl⟩ := Prod.mk.inj (Except.ok.inj hm)
      obtain ⟨hst, hcons⟩ := mapLeaf_spec hr.consistent hr.table hr.empty hperm hpa
      refine ⟨hr.frame.trans (hst.frame.mono hpath), fun _ => by simp [hst.ent],
        hst.windowBut hr.window, fun h => absurd rfl h, ?_⟩
      rintro ⟨c, hc, hkeep⟩
      exact hcons (hs.mem_of_tgt hc)
        (hr.consistent.counted.not_free_of_tgt (hr.tgt_eq hleaf hc hkeep))
    · exact ⟨hf, fun h0 => absurd h0 (by decide), fun x hx _ => hw x hx,
        fun _ => ⟨hw, hn⟩, fun _ _ => hs'⟩
  · obtain ⟨s₁, heq, hst, hcons⟩ := remapLeaf_spec hs ht hperm hpa
    obtain ⟨rfl, rfl⟩ := Prod.mk.inj (Except.ok.inj (heq.symm.trans hf))
    refine ⟨hst.frame.mono hpath, fun _ => by simp [hst.ent], hst.windowBut (.refl s),
      fun h => absurd rfl h, ?_⟩
    rintro ⟨c, hc, -⟩
    exact hcons (hs.mem_of_tgt hc) (hs.counted.not_free_of_tgt hc)

/-- `alloc_page` and `alloc_page_user`, by what they do about the self-map. -/
theorem allocVia_spec (hs : Consistent M s) (hself : SelfSpec M T self) (hva : va < 2 ^ 39)
    (hv : ¬ shared (vpn2 va)) (hT : Apart T d va s) {perm : Nat} (hperm : perm < 0x400)
    (h : descend self (allocLeaf va perm) (replaceLeaf va perm) s d va = .ok (0, s')) :
    Consistent M s' ∧ Frame M (Touched T d va) s s' ∧
    WindowBut (leafSlot d va) s s' ∧
    ∃ q, M q ∧ s'.ent (leafSlot d va) = some (q, perm ||| pteV) ∧ s'.mem q = (fun _ => 0) ∧
      (∀ y, y ≠ leafSlot d va → s'.tgt y ≠ some q) ∧
      ∀ y, y ≠ leafSlot d va → s.tgt y = some q → ¬ y.IsTable ∧ SelfTouched T va y := by
  have h0 : (0 : Int) ≠ -eNoMem := by decide
  have hpath : ∀ x, x = leafSlot d va → Touched T d va x := by
    rintro x rfl; exact .inl (.inr (.inr (.inr rfl)))
  rcases descend_spec hs hself hva hv hT h with ⟨hleaf, hA⟩ | ⟨t0, ht, hf⟩
  · rcases hA with ⟨s₂, t0, hr, hm⟩ | ⟨habs, _⟩
    · rcases allocLeaf_spec hr.consistent hr.table hr.empty hperm hm with
        ⟨_, hs', q, hfr⟩ | ⟨habs, _⟩
      · have hst := hfr.stored
        refine ⟨hs', hr.frame.trans (hst.frame.mono hpath), hst.windowBut hr.window, q, hfr.page,
          by simp [hst.ent], hfr.zero, ?_, ?_⟩
        · intro y hy
          rw [hst.frame.tgt_eq hy]
          exact hfr.fresh y hy
        · intro y hy hyq
          by_contra hcon
          have hkeep : y.IsTable ∨ ¬ SelfTouched T va y := by tauto
          exact hfr.fresh y hy (hr.tgt_eq hleaf hyq hkeep)
      · exact absurd habs h0
    · exact absurd habs h0
  · obtain ⟨hs', q, hfr⟩ := replaceLeaf_spec hs ht hperm hf
    have hst := hfr.stored
    refine ⟨hs', hst.frame.mono hpath, hst.windowBut (.refl s), q, hfr.page, by simp [hst.ent],
      hfr.zero, ?_, ?_⟩
    · intro y hy
      rw [hst.frame.tgt_eq hy]
      exact hfr.fresh y hy
    · intro y hy hyq
      exact absurd hyq (hfr.fresh y hy)

/-- An allocation at an address that is not mapped may give up on the way. -/
theorem allocVia_fail (hs : Consistent M s) (hself : SelfSpec M T self) (hva : va < 2 ^ 39)
    (hv : ¬ shared (vpn2 va)) (hT : Apart T d va s) {perm : Nat} (hperm : perm < 0x400)
    (hnone : s.ent (leafSlot d va) = none)
    (h : descend self (allocLeaf va perm) (replaceLeaf va perm) s d va = .ok (r, s')) (hr : r ≠ 0) :
    Consistent M s' ∧ Frame M (Touched T d va) s s' ∧ WindowOnly s s' ∧
      s'.ent (leafSlot d va) = none := by
  rcases descend_spec hs hself hva hv hT h with ⟨-, hA⟩ | ⟨t0, ht, hf⟩
  · rcases hA with ⟨s₂, t0, hready, hm⟩ | ⟨-, hs', hf, hw, hn⟩
    · rcases allocLeaf_spec hready.consistent hready.table hready.empty hperm hm with
        ⟨h0, -⟩ | ⟨-, rfl⟩
      · exact absurd h0 hr
      · exact ⟨hready.consistent, hready.frame, hready.window, hready.empty⟩
    · exact ⟨hs', hf, hw, hn⟩
  · have hinv : ¬ valid (s.mem t0 (vpn0 va)) := by
      intro hvalid
      have hleaf := ent_leafSlot ht
      rw [hnone, entry, if_pos hvalid] at hleaf
      cases hleaf
    simp only [replaceLeaf, if_neg hinv] at hf
    rcases allocLeaf_spec hs ht hnone hperm hf with ⟨h0, -⟩ | ⟨-, rfl⟩
    · exact absurd h0 hr
    · exact ⟨hs, Frame.refl s', WindowOnly.refl s', hnone⟩

end

/-! ## The calls without self-map -/

/-- `alloc_page` and `map_page` touch no slot but those on the way to `va`. -/
abbrev noTouch : Nat → Slot D → Prop := fun _ _ => False

omit [DecidableEq D] in
theorem noSelf_spec : SelfSpec M noTouch (noSelf (D := D)) := by
  intro s va pa s' hs _ _ _ h
  obtain rfl := Except.ok.inj h
  exact ⟨hs, Frame.refl s, WindowOnly.refl s⟩

omit [DecidableEq D] [Fintype D] in
theorem apart_noTouch (s : Pmap D) : Apart noTouch d va s :=
  ⟨fun _ h => h, fun _ h => h, fun _ h => h⟩

omit [DecidableEq D] [Fintype D] in
theorem touched_noTouch {x : Slot D} (h : Touched noTouch d va x) : OnPath d va x := by
  rcases h with h | h | h | h
  · exact h
  all_goals exact h.elim

theorem mapPage_spec (hs : Consistent M s) (hva : va < 2 ^ 39) (hv : ¬ shared (vpn2 va))
    {pa perm : Nat} {r : Int} (h : s.mapPage d va pa perm = .ok (r, s')) :
    Frame M (OnPath d va) s s' ∧
    (r = 0 → s'.ent (leafSlot d va) = some (pa / 4096, perm ||| pteV)) ∧
    WindowBut (leafSlot d va) s s' ∧
    (r ≠ 0 → WindowOnly s s' ∧ s'.ent (leafSlot d va) = none) ∧
    ((∃ c, s.tgt c = some (pa / 4096)) → refs s'.tgt (pa / 4096) < 65536 → Consistent M s') := by
  unfold mapPage at h
  split at h
  · cases h
  split at h
  · cases h
  rename_i hperm hpa
  obtain ⟨hf, he, hbut, hw, hcons⟩ := mapVia_spec hs noSelf_spec hva hv (apart_noTouch s) (by omega)
    (not_not.mp hpa) h
  refine ⟨hf.mono fun _ => touched_noTouch, he, hbut, hw, ?_⟩
  rintro ⟨c, hc⟩
  exact hcons ⟨c, hc, .inr (by simp [SelfTouched])⟩

theorem allocPage_spec (hs : Consistent M s) (hva : va < 2 ^ 39) (hv : ¬ shared (vpn2 va))
    {perm : Nat} (h : s.allocPage d va perm = .ok (0, s')) :
    Consistent M s' ∧ Frame M (OnPath d va) s s' ∧
    ∃ q, M q ∧ s'.ent (leafSlot d va) = some (q, perm ||| pteV) ∧ s'.mem q = (fun _ => 0) ∧
      ∀ y, y ≠ leafSlot d va → s.tgt y ≠ some q := by
  unfold allocPage at h
  split at h
  · cases h
  rename_i hperm
  obtain ⟨hs', hf, _, q, hq, he, hz, _, hfresh⟩ := allocVia_spec hs noSelf_spec hva hv
    (apart_noTouch s) (by omega) h
  refine ⟨hs', hf.mono fun _ => touched_noTouch, q, hq, he, hz, ?_⟩
  intro y hy hyq
  rcases (hfresh y hy hyq).2 with h | h | h <;> exact h

/-! ## The calls with self-map -/

theorem refs_onPath_le (h : Frame M (OnPath d va) s s') (p : Nat) :
    refs s'.tgt p ≤ refs s.tgt p + 4 := by
  let A : Finset (Slot D) :=
    {.root d, .pte2 d (vpn2 va), .pte1 d (vpn2 va) (vpn1 va), leafSlot d va}
  have hA : ∀ x ∉ A, s'.tgt x = some p → s.tgt x = some p := by
    intro x hx hp
    rw [← h.tgt_eq fun hp => hx ?_]
    · exact hp
    · simpa [A, OnPath] using hp
  refine (RefCount.refs_le_of_off A hA).trans (Nat.add_le_add_left ?_ _)
  exact Finset.card_le_four

theorem selfMap_spec : SelfSpec M (OnPath d) (selfMap d) := by
  intro s va pa s' hs hva htab href h
  obtain ⟨y, hy, hyt⟩ := htab
  obtain ⟨⟨r, s₁⟩, hm, h⟩ := Except.bind_ok_iff.mp h
  obtain rfl := Except.ok.inj h
  have hv : ¬ shared (vpn2 va) := by rw [hva.vpn2_eq]; decide
  obtain ⟨hf, he, hbut, hw, hcons⟩ := mapPage_spec hs hva.lt hv hm
  have hrefs : refs s₁.tgt (pa / 4096) < 65536 := by
    have := refs_onPath_le hf (pa / 4096)
    rw [← hs.counted.count _ (hs.mem_of_tgt hyt), href] at this
    omega
  refine ⟨hcons ⟨y, hyt⟩ hrefs, hf, ?_⟩
  by_cases hr : r = 0
  · intro x hx
    by_cases hleaf : x = leafSlot d va
    · exact .inr ⟨pa / 4096, ⟨y, hy, hf.table y _ hy hyt⟩, hleaf ▸ he hr⟩
    · exact hbut x hx hleaf
  · exact (hw hr).1

/-- The slots of `d` behind root entry 3, with those on the way to them. -/
def InWindowSlot (d : D) (x : Slot D) : Prop :=
  x = .root d ∨ x = .pte2 d 3 ∨ (∃ j, x = .pte1 d 3 j) ∨ ∃ j k, x = .pte0 d 3 j k

omit [DecidableEq D] [Fintype D] in
theorem InWindow.onPath (hva : InWindow va) {x : Slot D} (h : OnPath d va x) :
    InWindowSlot d x := by
  rw [OnPath, leafSlot, hva.vpn2_eq] at h
  rcases h with h | h | h | h
  · exact .inl h
  · exact .inr (.inl h)
  · exact .inr (.inr (.inl ⟨_, h⟩))
  · exact .inr (.inr (.inr ⟨_, _, h⟩))

omit [DecidableEq D] [Fintype D] in
theorem selfTouched_window (hva : va < 2 ^ 39) {x : Slot D} (h : SelfTouched (OnPath d) va x) :
    InWindowSlot d x := by
  rcases h with h | h | h
  · exact (selfVa2_inWindow hva).onPath h
  · exact (selfVa1_inWindow hva).onPath h
  · exact (selfVa0_inWindow hva).onPath h

omit [DecidableEq D] [Fintype D] in
/-- An address outside the window has its tables apart from the window's. -/
theorem apart_of_ne (s : Pmap D) (hva : va < 2 ^ 39) (hv : vpn2 va ≠ 3) :
    Apart (OnPath d) d va s := by
  refine ⟨fun _ h => ?_, fun _ h => ?_, fun _ h => ?_⟩
  · have := (selfVa0_inWindow hva).onPath h
    simp [InWindowSlot, hv] at this
  · have := (selfVa1_inWindow hva).onPath h
    simp [InWindowSlot, hv] at this
  · have := (selfVa2_inWindow hva).onPath h
    simp [InWindowSlot, hv] at this

theorem vpn1_selfVa0 (hva : InWindow va) : vpn1 (selfVa0 va) = 3 := by
  have := hva.1; have := hva.2
  apply Fin.ext
  rw [vpn1_val, selfVa0, Nat.shiftRight_eq_div_pow]
  simp only [pageTable] at *
  omega

omit [DecidableEq D] [Fintype D] in
/-- In the window the table of the root's own entry must be there already. -/
theorem apart_of_window (hva : InWindow va) (htab : s.ent (.pte1 d 3 3) ≠ none) :
    Apart (OnPath d) d va s := by
  have h2 : s.ent (.pte2 d 3) ≠ none := by
    intro h
    exact htab (ent_child_none (x := .pte2 d 3) trivial h 3)
  refine ⟨fun hn h => ?_, fun hn => ?_, fun hn => ?_⟩
  · rw [hva.vpn2_eq] at hn
    simp only [OnPath, leafSlot, Slot.pte0.injEq, reduceCtorEq, false_or] at h
    rw [h.2.2.1, vpn1_selfVa0 hva] at hn
    exact htab hn
  · rw [hva.vpn2_eq] at hn
    exact absurd hn h2
  · exact absurd (ent_child_none (x := .root d) trivial hn 3) h2

section
variable (hs : Consistent M s) (hva : va < 2 ^ 39) (hv : ¬ shared (vpn2 va))
  (hT : Apart (OnPath d) d va s) {perm : Nat}
include hs hva hv hT

theorem mapPageUser_spec {pa : Nat} {r : Int} (h : s.mapPageUser d va pa perm = .ok (r, s')) :
    Frame M (Touched (OnPath d) d va) s s' ∧
    (r = 0 → s'.ent (leafSlot d va) = some (pa / 4096, perm ||| pteV)) ∧
    WindowBut (leafSlot d va) s s' ∧
    (r ≠ 0 → WindowOnly s s' ∧ s'.ent (leafSlot d va) = none) ∧
    (Held (OnPath d) va s (pa / 4096) → refs s'.tgt (pa / 4096) < 65536 → Consistent M s') := by
  unfold mapPageUser at h
  split at h
  · cases h
  split at h
  · cases h
  rename_i hperm hpa
  exact mapVia_spec hs selfMap_spec hva hv hT (by omega) (not_not.mp hpa) h

theorem allocPageUser_spec (h : s.allocPageUser d va perm = .ok (0, s')) :
    Consistent M s' ∧ Frame M (Touched (OnPath d) d va) s s' ∧
    WindowBut (leafSlot d va) s s' ∧
    ∃ q, M q ∧ s'.ent (leafSlot d va) = some (q, perm ||| pteV) ∧ s'.mem q = (fun _ => 0) ∧
      (∀ y, y ≠ leafSlot d va → s'.tgt y ≠ some q) ∧
      ∀ y, y ≠ leafSlot d va → s.tgt y = some q →
        ¬ y.IsTable ∧ SelfTouched (OnPath d) va y := by
  unfold allocPageUser at h
  split at h
  · cases h
  rename_i hperm
  exact allocVia_spec hs selfMap_spec hva hv hT (by omega) h

theorem allocPageUser_fail {r : Int} (hnone : s.ent (leafSlot d va) = none)
    (h : s.allocPageUser d va perm = .ok (r, s')) (hr : r ≠ 0) :
    Consistent M s' ∧ Frame M (Touched (OnPath d) d va) s s' ∧ WindowOnly s s' ∧
      s'.ent (leafSlot d va) = none := by
  unfold allocPageUser at h
  split at h
  · cases h
  rename_i hperm
  exact allocVia_fail hs selfMap_spec hva hv hT (by omega) hnone h hr

end

omit [Fintype D] in
theorem allocPageUser_codes {perm : Nat} {r : Int} (h : s.allocPageUser d va perm = .ok (r, s')) :
    r = 0 ∨ r = -eNoMem := by
  have hleaf : ∀ (s : Pmap D) (t0 : Nat) (r : Int) (s' : Pmap D),
      allocLeaf va perm s t0 = .ok (r, s') → r = 0 ∨ r = -eNoMem := by
    intro s t0 r s' h
    unfold allocLeaf at h
    split at h
    · exact .inr (Prod.mk.inj (Except.ok.inj h)).1.symm
    · exact .inl (Prod.mk.inj (Except.ok.inj h)).1.symm
  unfold allocPageUser at h
  split at h
  · cases h
  refine descend_codes (P := fun r => r = 0 ∨ r = -eNoMem) hleaf
    (fun s t0 r s' h => ?_) (.inr rfl) h
  unfold replaceLeaf at h
  simp only at h
  split at h
  · obtain ⟨s₁, -, h⟩ := Except.bind_ok_iff.mp h
    exact hleaf _ _ _ _ h
  · exact hleaf _ _ _ _ h

omit [Fintype D] in
theorem mapPageUser_codes {pa perm : Nat} {r : Int} (h : s.mapPageUser d va pa perm = .ok (r, s')) :
    r = 0 ∨ r = -eNoMem := by
  unfold mapPageUser at h
  split at h
  · cases h
  split at h
  · cases h
  refine descend_codes (P := fun r => r = 0 ∨ r = -eNoMem)
    (fun s t0 r s' h => .inl (Prod.mk.inj (Except.ok.inj h)).1.symm)
    (fun s t0 r s' h => ?_) (.inr rfl) h
  unfold remapLeaf at h
  simp only at h
  split at h
  · split at h
    · exact .inl (Prod.mk.inj (Except.ok.inj h)).1.symm
    · obtain ⟨s₁, -, h⟩ := Except.bind_ok_iff.mp h
      exact .inl (Prod.mk.inj (Except.ok.inj h)).1.symm
  · exact .inl (Prod.mk.inj (Except.ok.inj h)).1.symm

/-! ## The other calls -/

theorem unmapPage_ok (hs : Consistent M s) (hv : ¬ shared (vpn2 va))
    (hk : ¬ (kernbase ≤ va ∧ va < kernbase + memorySize)) :
    ∃ s', s.unmapPage d va = .ok (0, s') ∧ Consistent M s' ∧ Stored M d va none s s' := by
  have hkeep : s.ent (leafSlot d va) = none → Stored M d va none s s := by
    intro hn
    exact ⟨by rw [← hn, Function.update_eq_self], Frame.refl s, rfl⟩
  have hleaf : s.ent (.pte1 d (vpn2 va) (vpn1 va)) = none → s.ent (leafSlot d va) = none :=
    fun h => ent_child_none (x := .pte1 d (vpn2 va) (vpn1 va)) trivial h _
  have hpte1 : s.ent (.pte2 d (vpn2 va)) = none → s.ent (.pte1 d (vpn2 va) (vpn1 va)) = none :=
    fun h => ent_child_none (x := .pte2 d (vpn2 va)) trivial h _
  rw [unmapPage, if_neg hk]
  split
  · rename_i hd
    have hroot : s.ent (.root d) = none := by simp [ent, ent.root, hd]
    exact ⟨s, rfl, hs, hkeep (hleaf (hpte1 (ent_child_none (x := .root d) trivial hroot _)))⟩
  · rename_i hd
    rcases walk_cases s hd hv with ⟨t2, hw, ht, hn⟩ | ⟨t1, hw, ht, hn⟩ | ⟨t0, hw, ht⟩
    · simp only [hw]
      exact ⟨s, rfl, hs, hkeep (hleaf (hpte1 hn))⟩
    · simp only [hw]
      exact ⟨s, rfl, hs, hkeep (hleaf hn)⟩
    · simp only [hw]
      have hl := ent_leafSlot ht
      split
      · rename_i hvalid
        rw [entry, if_pos hvalid] at hl
        obtain ⟨hclear, hs₁, hst⟩ := clearLeaf_spec hs ht hl
        rw [hclear]
        exact ⟨_, rfl, hs₁, hst⟩
      · rename_i hvalid
        rw [entry, if_neg hvalid] at hl
        exact ⟨s, rfl, hs, hkeep hl⟩

theorem allocPgdir_spec (hs : Consistent M s) (hd : s.pgdir d = 0)
    (h : s.allocPgdir d = .ok (0, s')) :
    Consistent M s' ∧ Frame M (· = .root d) s s' ∧
    ∃ pp, s'.ent = Function.update s.ent (.root d) (some (pp, 0)) ∧ s'.ppRef pp = 1 := by
  unfold allocPgdir at h
  cases ha : s.pageAlloc with
  | none => simp [ha, eNoMem] at h
  | some e =>
    obtain ⟨pp, s₀⟩ := e
    simp only [ha, Except.ok.injEq, Prod.mk.injEq, true_and] at h
    obtain ⟨hs₁, hent, href, hf⟩ := newRoot_spec hs hd ha
    subst h
    exact ⟨hs₁, hf, pp, hent, href⟩

end RiscvMos.Pmap
