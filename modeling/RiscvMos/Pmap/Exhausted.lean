import RiscvMos.Pmap.Supply
import RiscvMos.Pmap.SelfMap

/-!
What the four calls leave when they return `-E_NO_MEM`. `alloc_page` gives up
the old page before it asks for a new one, and the `_user` calls map a new
table over what the window had before they know whether the pages suffice.
-/

namespace RiscvMos.Pmap

open RefCount (refs)

variable {D : Type}

/-- The free pages that a self-map leaves of `n`, by the tables its window
address misses and whether it frees the page it displaces. -/
def spare (missing : Nat) (sole : Prop) [Decidable sole] (n : Nat) : Nat :=
  match missing with
  | 0 => if sole then n + 1 else n
  | m => n - m

/-- `SoleRef` at `w'` once the mapping at `w` has been displaced. -/
def SoleAfter (s : Pmap D) (d : D) (w w' : Nat) : Prop :=
  s.isMappedPage d w' = true ∧ s.ppRef (s.getPa d w' / 4096) =
    if s.isMappedPage d w = true ∧ s.getPa d w / 4096 = s.getPa d w' / 4096 then 2 else 1

instance (s : Pmap D) (d : D) (w w' : Nat) : Decidable (s.SoleAfter d w w') :=
  inferInstanceAs (Decidable (_ ∧ _))

/-- A self-map of a `_user` call at `va` displaces a mapping, and then the pages
run out before the `n` that the last label needs. -/
def Displaces (s : Pmap D) (d : D) (va n : Nat) : Prop :=
  let free := s.pageFreeList.length
  let w1 := selfVa1 va
  let w0 := selfVa0 va
  match s.missing d va with
  | 1 => 1 ≤ free ∧ s.isMappedPage d w0 = true ∧
    spare (s.missing d w0) (s.SoleRef d w0) (free - 1) < n
  | 2 =>
    let left := spare (s.missing d w1) (s.SoleRef d w1) (free - 1)
    1 ≤ free ∧ ((s.isMappedPage d w1 = true ∧ left = 0) ∨
      ((s.isMappedPage d w1 = true ∨ s.isMappedPage d w0 = true) ∧ 1 ≤ left ∧
        spare (s.missing d w0) (s.SoleAfter d w1 w0) (left - 1) < n))
  | _ => False

/-- An allocation over a page with other references, with no page free. -/
def Overwrites (s : Pmap D) (d : D) (va : Nat) : Prop :=
  s.isMappedPage d va = true ∧ s.pageFreeList = [] ∧ s.ppRef (s.getPa d va / 4096) ≠ 1

/-- The call gives up a mapping on its way to `-E_NO_MEM`. -/
def Call.Forgets (s : Pmap D) : Call D → Prop
  | allocPage d va perm => perm < 0x400 ∧ s.Overwrites d va
  | allocPageUser d va perm => perm < 0x400 ∧ (s.Overwrites d va ∨ s.Displaces d va 1)
  | mapPageUser d va pa perm => perm < 0x400 ∧ mappablePa pa ∧ s.Displaces d va 0
  | _ => False

/-- An address behind a root entry that a directory does not take from
`base_pgdir`. -/
def Unshared (va : Nat) : Prop := va < 2 ^ 39 ∧ ¬ shared (vpn2 va)

theorem Unshared.inWindow {va : Nat} (h : Unshared va) (h3 : vpn2 va = 3) : InWindow va := by
  have hlt := h.1
  have hval := congrArg Fin.val h3
  rw [vpn2_val] at hval
  simp only [InWindow, pageTable]
  change _ = 3 at hval
  omega

/-- A `_user` call in the window comes from an env, whose root table
`env_setup_vm` has mapped at `[3][3][3]`. -/
def UserCall (s : Pmap D) (d : D) (va : Nat) : Prop :=
  Unshared va ∧ (vpn2 va = 3 → s.ent (.pte1 d 3 3) ≠ none)

theorem UserCall.apart {s : Pmap D} {d : D} {va : Nat} (h : s.UserCall d va) :
    Apart (OnPath d) d va s := by
  by_cases h3 : vpn2 va = 3
  · exact apart_of_window (h.1.inWindow h3) (h.2 h3)
  · exact apart_of_ne s h.1.1 h3

/-- The call is at an address of the directory's own. Behind the shared entries
are the tables of `base_pgdir`, which every directory has. -/
def Call.Placed (s : Pmap D) : Call D → Prop
  | allocPage _ va _ | mapPage _ va _ _ => Unshared va
  | allocPageUser d va _ | mapPageUser d va _ _ => s.UserCall d va
  | _ => True

variable [DecidableEq D] [Fintype D] {M : Nat → Prop} {s s' : Pmap D} {d : D} {va : Nat}

/-- Memory is consistent, and what was mapped still is, to the same page with
the same permission. -/
structure Intact (M : Nat → Prop) (s s' : Pmap D) : Prop where
  consistent : Consistent M s'
  mapped : ∀ d va, ¬ shared (vpn2 va) → s.isMappedPage d va = true → s'.isMappedPage d va = true ∧
    s'.getPa d va = s.getPa d va ∧ s'.getPerm d va = s.getPerm d va

/-- Last-level entries that hold a page keep it. -/
def LeavesKept (s s' : Pmap D) : Prop :=
  ∀ x, ¬ x.IsTable → s.ent x ≠ none → s'.ent x = s.ent x

omit [DecidableEq D] in
theorem intact_of_leaves (hs' : Consistent M s') (h : LeavesKept s s') : Intact M s s' := by
  refine ⟨hs', fun d va hv hm => ?_⟩
  have hview : s.view d va ≠ none := by
    intro hn
    rw [isMappedPage_eq hv, hn] at hm
    cases hm
  have heq : s'.view d va = s.view d va := h (leafSlot d va) id hview
  obtain ⟨⟨p, perm⟩, he⟩ := Option.ne_none_iff_exists'.mp hview
  rw [isMappedPage_eq hv, heq, getPa_of_view hv he, getPa_of_view hv (heq.trans he),
    getPerm_of_view hv he, getPerm_of_view hv (heq.trans he), he]
  exact ⟨rfl, rfl, rfl⟩

omit [DecidableEq D] in
/-- An entry of another page is a mapping that is gone. -/
theorem not_intact_of_view (hv : ¬ shared (vpn2 va)) {p q perm perm' : Nat}
    (he : s.view d va = some (p, perm))
    (he' : s'.view d va = some (q, perm')) (hne : q ≠ p) : ¬ Intact M s s' := by
  intro h
  obtain ⟨-, hpa, -⟩ := h.mapped d va hv (by rw [isMappedPage_eq hv, he]; rfl)
  rw [getPa_of_view hv he, getPa_of_view hv he'] at hpa
  omega

/-! ## A table and its self-map -/

omit [DecidableEq D] [Fintype D] in
theorem allocEntry_ppRef {t : Nat} {i : Vpn} {perm q p : Nat}
    (h : s.allocEntry t i perm = some (q, s'))
    (hp : p ∉ s.pageFreeList) : s'.ppRef p = s.ppRef p ∧ p ∉ s'.pageFreeList := by
  unfold allocEntry pageAlloc at h
  cases hl : s.pageFreeList with
  | nil => simp [hl] at h
  | cons a rest =>
    simp only [hl, Option.some_inj, Prod.mk.injEq] at h
    obtain ⟨rfl, rfl⟩ := h
    rw [hl, List.mem_cons, not_or] at hp
    exact ⟨by simp [incRef, setPte, hp.1], hp.2⟩

omit [DecidableEq D] [Fintype D] in
theorem mapLeaf_ppRef (s : Pmap D) (va perm t0 : Nat) {pa p : Nat} (hp : p ≠ pa / 4096) :
    (mapLeaf va pa perm s t0).ppRef p = s.ppRef p := by
  unfold mapLeaf
  dsimp only
  split
  · rw [Nat.shiftRight_eq_div_pow]
    exact Function.update_of_ne hp _ _
  · rfl

omit [DecidableEq D] [Fintype D] in
theorem createPte0_ppRef {pa perm t1 p : Nat} {r : Int}
    (h : createPte0 noSelf (mapAt va pa perm) s t1 va = .ok (r, s')) (hp : p ∉ s.pageFreeList)
    (hpa : p ≠ pa / 4096) : s'.ppRef p = s.ppRef p := by
  unfold createPte0 at h
  cases ha : s.allocEntry t1 (vpn1 va) 0 with
  | none =>
    rw [ha] at h
    obtain ⟨-, rfl⟩ := Prod.mk.inj (Except.ok.inj h)
    rfl
  | some e =>
    obtain ⟨q, s₁⟩ := e
    rw [ha] at h
    obtain ⟨-, rfl⟩ := Prod.mk.inj (Except.ok.inj h)
    rw [mapLeaf_ppRef _ _ _ _ hpa, (allocEntry_ppRef ha hp).1]

omit [DecidableEq D] [Fintype D] in
theorem createPte1_ppRef {pa perm t2 p : Nat} {r : Int}
    (h : createPte1 noSelf (mapAt va pa perm) s t2 va = .ok (r, s')) (hp : p ∉ s.pageFreeList)
    (hpa : p ≠ pa / 4096) : s'.ppRef p = s.ppRef p := by
  unfold createPte1 at h
  cases ha : s.allocEntry t2 (vpn2 va) 0 with
  | none =>
    rw [ha] at h
    obtain ⟨-, rfl⟩ := Prod.mk.inj (Except.ok.inj h)
    rfl
  | some e =>
    obtain ⟨q, s₁⟩ := e
    rw [ha] at h
    obtain ⟨href, hfree⟩ := allocEntry_ppRef ha hp
    rw [← href]
    exact createPte0_ppRef h hfree hpa

/-- With a root table there, `map_page` takes one reference from the page that
it displaces. -/
theorem mapPage_ppRef (hs : Consistent M s) (hd : s.pgdir d ≠ 0) (hv : ¬ shared (vpn2 va))
    {pa perm p : Nat} {r : Int}
    (h : s.mapPage d va pa perm = .ok (r, s')) (hp : p ∉ s.pageFreeList) (hpa : p ≠ pa / 4096) :
    s'.ppRef p = if s.tgt (leafSlot d va) = some p then s.ppRef p - 1 else s.ppRef p := by
  unfold mapPage at h
  split at h
  · cases h
  split at h
  · cases h
  rename_i hperm hmap
  have hlt := lt_of_mappablePa (not_not.mp hmap)
  rw [descend, if_neg hd] at h
  have hleaf : s.ent (leafSlot d va) = none → ¬ s.tgt (leafSlot d va) = some p := by
    intro hn ht
    rw [tgt, hn] at ht
    cases ht
  rcases walk_cases s hd hv with ⟨t2, hw, -, hn⟩ | ⟨t1, hw, -, hn⟩ | ⟨t0, hw, ht⟩ <;> rw [hw] at h
  · rw [if_neg (hleaf (leaf_none_of_pte1 (pte1_none_of_pte2 hn)))]
    exact createPte1_ppRef h hp hpa
  · rw [if_neg (hleaf (leaf_none_of_pte1 hn))]
    exact createPte0_ppRef h hp hpa
  · have hent : s.ent (leafSlot d va) = _ := ent_leafSlot ht
    have hpage : ptePage (pa2pte pa) = pa / 4096 := by
      rw [ptePage_eq, pa2pte_eq]; omega
    dsimp only at h
    unfold remapLeaf at h
    dsimp only at h
    split at h
    · rename_i hvalid
      rw [entry, if_pos hvalid] at hent
      have htgt : s.tgt (leafSlot d va) = some (ptePage (s.mem t0 (vpn0 va))) :=
        tgt_eq_some.mpr ⟨_, hent⟩
      simp only [htgt, Option.some_inj]
      split at h
      · rename_i hsame
        obtain ⟨-, rfl⟩ := Prod.mk.inj (Except.ok.inj h)
        rw [pte2pa_eq, pte2pa_eq, hpage] at hsame
        rw [if_neg (by omega)]
        rfl
      · rw [clearRef_eq hs htgt] at h
        obtain ⟨-, rfl⟩ := Prod.mk.inj (Except.ok.inj h)
        rw [mapLeaf_ppRef _ _ _ _ hpa]
        unfold dropRef
        dsimp only
        by_cases hpp : p = ptePage (s.mem t0 (vpn0 va))
        · rw [if_pos hpp.symm, hpp, Function.update_self]
        · rw [if_neg (Ne.symm hpp), Function.update_of_ne hpp]
    · rename_i hvalid
      rw [entry, if_neg hvalid] at hent
      obtain ⟨-, rfl⟩ := Prod.mk.inj (Except.ok.inj h)
      rw [if_neg (hleaf hent)]
      exact mapLeaf_ppRef _ _ _ _ hpa

theorem spare_congr {m : Nat} {p q : Prop} [Decidable p] [Decidable q] (h : p ↔ q) (n : Nat) :
    spare m p n = spare m q n := by
  unfold spare
  simp only [h]

omit [DecidableEq D] [Fintype D] in
/-- `freeAfter` of a page with no reference at `w`, by what `s` says of `w`. -/
theorem freeAfter_eq_spare {s₁ : Pmap D} {w pa : Nat} (hv : ¬ shared (vpn2 w))
    (hmiss : s₁.missing d w = s.missing d w) (hview : s₁.view d w = s.view d w)
    (href : ∀ p perm, s.view d w = some (p, perm) → p ≠ pa / 4096 ∧ s₁.ppRef p = s.ppRef p) :
    s₁.freeAfter d w pa = spare (s.missing d w) (s.SoleRef d w) s₁.pageFreeList.length := by
  unfold freeAfter spare
  rw [hmiss, hview]
  cases s.missing d w with
  | succ m => rfl
  | zero =>
    cases hw : s.view d w with
    | none =>
      have hsole : ¬ s.SoleRef d w := by
        rw [soleRef_iff hv, hw]
        rintro ⟨p, perm, he, -⟩
        cases he
      simp only [if_neg hsole]
    | some e =>
      obtain ⟨p, perm⟩ := e
      obtain ⟨hpq, hp⟩ := href p perm hw
      have hsole : s.SoleRef d w ↔ s.ppRef p = 1 := by
        rw [soleRef_iff hv, hw]
        constructor
        · rintro ⟨p', perm', he, h⟩
          cases he
          exact h
        · intro h
          exact ⟨p, perm, rfl, h⟩
      simp only [hp, hpq, ne_eq, not_false_eq_true, true_and, hsole]
      split <;> rfl

/-- What the self-map at `w` of a table made in slot `c` leaves. -/
structure Shown (M : Nat → Prop) (d : D) (w : Nat) (c : Slot D) (q : Nat)
    (s s' : Pmap D) : Prop where
  consistent : Consistent M s'
  free : s'.pageFreeList.length = spare (s.missing d w) (s.SoleRef d w) (s.pageFreeList.length - 1)
  made : s'.tgt c = some q
  fresh : ∀ y, s.tgt y ≠ some q
  table : ∀ x p, x.IsTable → s.tgt x = some p → s'.tgt x = some p
  off : ∀ y, ¬ OnPath d w y → y ≠ c → s'.ent y = s.ent y
  shown : s.view d w ≠ none → s'.view d w = some (q, pteR ||| pteU ||| pteV)
  ppRef : ∀ p y, s.tgt y = some p →
    s'.ppRef p = if s.tgt (leafSlot d w) = some p then s.ppRef p - 1 else s.ppRef p

theorem table_shown (hs : Consistent M s) {x : Slot D} {t : Nat} (hx : x.IsTable)
    (ht : s.tgt x = some t) {i : Vpn}
    (hi : ¬ x.leaves i) (htab : (x.child i).IsTable) (hnone : s.ent (x.child i) = none)
    {q : Nat} {s₁ : Pmap D}
    (ha : s.allocEntry t i 0 = some (q, s₁)) {w : Nat} (hw : InWindow w)
    (hoff : ¬ OnPath d w (x.child i)) (hd : s.pgdir d ≠ 0) (j : Vpn) :
    ∃ s₂, selfMap d s₁ w (pteAddr q j) = .ok s₂ ∧ Shown M d w (x.child i) q s s₂ := by
  obtain ⟨hs₁, hf₁⟩ := allocEntry_spec hs hx ht hi hnone (by decide) ha
  have hq : inRam q := hs.ram q (hs.counted.free_sub q (by simp [hf₁.free]))
  have hv : ¬ shared (vpn2 w) := by rw [hw.vpn2_eq]; decide
  have htq : s₁.tgt (x.child i) = some q := by
    rw [tgt, hf₁.ent, Function.update_self]
    rfl
  have hent : ∀ y, y ≠ x.child i → s₁.ent y = s.ent y := by
    intro y hy
    rw [hf₁.ent]
    exact Function.update_of_ne hy _ _
  have hpath : ∀ y, OnPath d w y → s₁.ent y = s.ent y := by
    intro y hy
    apply hent
    rintro rfl
    exact hoff hy
  obtain ⟨r, s₂, hm, h₂, hlen, -⟩ := selfMap_free (d := d) hs₁ hw j hq
  obtain ⟨hs₂, hf₂, -⟩ := selfMap_spec hs₁ hw ⟨x.child i, htab, by rw [pteAddr_div]; exact htq⟩
    (by rw [pteAddr_div, hf₁.ppRef hs hs₁ hnone]) h₂
  have hmiss : s₁.missing d w = s.missing d w := by
    rw [missing_eq s₁ d hv, missing_eq s d hv, hpath _ (.inl rfl), hpath _ (.inr (.inl rfl)),
      hpath _ (.inr (.inr (.inl rfl)))]
  have hview : s₁.view d w = s.view d w := hpath _ (.inr (.inr (.inr rfl)))
  refine ⟨s₂, h₂, hs₂, ?_, hf₂.table _ _ htab htq, hf₁.fresh hs, ?_, ?_, ?_, ?_⟩
  · rw [hlen, freeAfter_eq_spare hv hmiss hview, hf₁.free, List.length_cons, Nat.add_sub_cancel]
    intro p perm he
    rw [pteAddr_div]
    exact hf₁.window hs hs₁ hnone he
  · intro y p hy hp
    apply hf₂.table y p hy
    rw [tgt, hent]
    · exact hp
    · rintro rfl
      rw [tgt, hnone] at hp
      cases hp
  · intro y hy hc
    rw [hf₂.ent_eq y hy, hent y hc]
  · intro hmapped
    have hr : r = 0 := by
      obtain ⟨r', s', hm', -, hzero, -⟩ := mapPage_free (d := d) hs₁ hv
        (show pteR ||| pteU < 0x400 by decide) (mappablePa_pteAddr j hq)
      obtain ⟨rfl, rfl⟩ := Prod.mk.inj (Except.ok.inj (hm.symm.trans hm'))
      apply hzero
      have h1 : s.ent (.pte1 d (vpn2 w) (vpn1 w)) ≠ none := fun hn => hmapped (leaf_none_of_pte1 hn)
      have h2 : s.ent (.pte2 d (vpn2 w)) ≠ none := fun hn => h1 (pte1_none_of_pte2 hn)
      have h3 : s.ent (.root d) ≠ none := fun hn => h2 (ent_child_none (x := .root d) trivial hn _)
      rw [hmiss, missing_eq s d hv, if_neg h3, if_neg h2, if_neg h1]
      exact Nat.zero_le _
    obtain ⟨-, he, -⟩ := mapPage_spec hs₁ hw.lt hv hm
    rw [view, he hr, pteAddr_div]
  · intro p y hp
    have hlive := hs.counted.not_free_of_tgt hp
    obtain ⟨href, hlive₁⟩ := allocEntry_ppRef ha hlive
    have hpq : p ≠ pteAddr q j / 4096 := by
      rw [pteAddr_div]
      rintro rfl
      exact hf₁.fresh hs y hp
    have htgt : s₁.tgt (leafSlot d w) = s.tgt (leafSlot d w) := by
      rw [tgt, tgt, hpath _ (.inr (.inr (.inr rfl)))]
    rw [mapPage_ppRef hs₁ (by rw [hf₁.pgdir]; exact hd) hv hm hlive₁ hpq, htgt, href]

omit [DecidableEq D] in
theorem Shown.leaf {w q : Nat} {c y : Slot D} (h : Shown M d w c q s s') (hc : c.IsTable)
    (hy : ¬ y.IsTable) (hne : y ≠ leafSlot d w) : s'.ent y = s.ent y := by
  apply h.off
  · rintro (rfl | rfl | rfl | rfl)
    · exact hy trivial
    · exact hy trivial
    · exact hy trivial
    · exact hne rfl
  · rintro rfl
    exact hy hc

omit [DecidableEq D] in
theorem Shown.leavesKept {w q : Nat} {c : Slot D} (h : Shown M d w c q s s') (hc : c.IsTable)
    (hw : s.view d w = none) : LeavesKept s s' := by
  intro y hy hent
  apply h.leaf hc hy
  rintro rfl
  exact hent hw

omit [DecidableEq D] [Fintype D] in
theorem LeavesKept.trans {s₁ : Pmap D} (h : LeavesKept s s₁) (h' : LeavesKept s₁ s') :
    LeavesKept s s' := by
  intro y hy hent
  have heq := h y hy hent
  rw [h' y hy (heq ▸ hent), heq]

omit [DecidableEq D] in
/-- The mapping at `w` is displaced. -/
theorem Shown.not_intact {w q : Nat} {c : Slot D} (h : Shown M d w c q s s') (hw : InWindow w)
    (hmapped : s.view d w ≠ none) {s₂ : Pmap D} (hlater : s₂.view d w = s'.view d w) :
    ¬ Intact M s s₂ := by
  obtain ⟨⟨p, perm⟩, he⟩ := Option.ne_none_iff_exists'.mp hmapped
  apply not_intact_of_view (by rw [hw.vpn2_eq]; decide) he (hlater.trans (h.shown hmapped))
  rintro rfl
  exact h.fresh (leafSlot d w) (tgt_eq_some.mpr ⟨perm, he⟩)

/-! ## The labels -/

/-- The code at `map` needs `n` free pages, and changes nothing without them. -/
def Needs (n : Nat) (map : Pmap D → Nat → Except Halt (Reply D)) : Prop :=
  ∀ s t0, (n ≤ s.pageFreeList.length ∧ ∃ s', map s t0 = .ok (0, s')) ∨
    (s.pageFreeList.length < n ∧ map s t0 = .ok (-eNoMem, s))

omit [DecidableEq D] [Fintype D] in
theorem mapAt_needs (va pa perm : Nat) : Needs 0 (mapAt (D := D) va pa perm) :=
  fun s t0 => .inl ⟨Nat.zero_le _, mapLeaf va pa perm s t0, rfl⟩

omit [DecidableEq D] [Fintype D] in
theorem allocLeaf_needs (va perm : Nat) : Needs 1 (allocLeaf (D := D) va perm) := by
  intro s t0
  unfold allocLeaf
  cases hl : s.pageFreeList with
  | nil =>
    rw [allocEntry_nil _ _ _ hl]
    exact .inr ⟨by simp, rfl⟩
  | cons q rest =>
    obtain ⟨s', ha, -⟩ := allocEntry_cons t0 (vpn0 va) perm hl
    rw [ha]
    exact .inl ⟨by simp, s', rfl⟩

/-- What `create_pte0` comes to: no page for the table, none for `map`, or 0. -/
inductive Pte0Out (M : Nat → Prop) (d : D) (va n : Nat)
    (map : Pmap D → Nat → Except Halt (Reply D)) (s : Pmap D) :
    Int → Pmap D → Prop where
  | noTable (h : s.pageFreeList = []) : Pte0Out M d va n map s (-eNoMem) s
  | noLeaf {s' : Pmap D} {q : Nat} (h : 1 ≤ s.pageFreeList.length)
      (hshown : Shown M d (selfVa0 va) (.pte1 d (vpn2 va) (vpn1 va)) q s s')
      (hfew : s'.pageFreeList.length < n) : Pte0Out M d va n map s (-eNoMem) s'
  | done {s₁ s' : Pmap D} {q : Nat} (h : 1 ≤ s.pageFreeList.length)
      (hshown : Shown M d (selfVa0 va) (.pte1 d (vpn2 va) (vpn1 va)) q s s₁)
      (henough : n ≤ s₁.pageFreeList.length) (hmap : map s₁ q = .ok (0, s')) :
        Pte0Out M d va n map s 0 s'

section
variable {n : Nat} {map : Pmap D → Nat → Except Halt (Reply D)}

theorem createPte0_out (hs : Consistent M s) (hmap : Needs n map) (hva : va < 2 ^ 39)
    (hd : s.pgdir d ≠ 0) (hoff : ¬ OnPath d (selfVa0 va) (.pte1 d (vpn2 va) (vpn1 va))) {t1 : Nat}
    (ht : s.tgt (.pte2 d (vpn2 va)) = some t1)
    (hnone : s.ent (.pte1 d (vpn2 va) (vpn1 va)) = none) :
    ∃ r s', createPte0 (selfMap d) map s t1 va = .ok (r, s') ∧ Pte0Out M d va n map s r s' := by
  unfold createPte0
  cases hl : s.pageFreeList with
  | nil =>
    rw [allocEntry_nil _ _ _ hl]
    exact ⟨_, s, rfl, .noTable hl⟩
  | cons q rest =>
    obtain ⟨s₁, ha, -⟩ := allocEntry_cons t1 (vpn1 va) 0 hl
    obtain ⟨s₂, h₂, hshown⟩ :=
      table_shown hs (x := .pte2 d (vpn2 va)) trivial ht id trivial hnone ha
      (selfVa0_inWindow hva) hoff hd (vpn0 va)
    have hlen : 1 ≤ s.pageFreeList.length := by simp [hl]
    rw [ha]
    rcases hmap s₂ q with ⟨henough, s', hm⟩ | ⟨hfew, hm⟩
    · exact ⟨0, s', Except.bind_ok_iff.mpr ⟨s₂, h₂, hm⟩, .done hlen hshown henough hm⟩
    · exact ⟨_, s₂, Except.bind_ok_iff.mpr ⟨s₂, h₂, hm⟩, .noLeaf hlen hshown hfew⟩

theorem createPte1_out (hs : Consistent M s) (hmap : Needs n map) (hva : va < 2 ^ 39)
    (hv : ¬ shared (vpn2 va))
    (hd : s.pgdir d ≠ 0) (hne : vpn2 va ≠ 3) {t2 : Nat} (ht : s.tgt (.root d) = some t2)
    (hnone : s.ent (.pte2 d (vpn2 va)) = none) :
    ∃ r s', createPte1 (selfMap d) map s t2 va = .ok (r, s') ∧
      ((s.pageFreeList = [] ∧ r = -eNoMem ∧ s' = s) ∨ (1 ≤ s.pageFreeList.length ∧ ∃ s₁ q,
        Shown M d (selfVa1 va) (.pte2 d (vpn2 va)) q s s₁ ∧ Pte0Out M d va n map s₁ r s')) := by
  have hoff1 : ¬ OnPath d (selfVa1 va) (.pte2 d (vpn2 va)) := by
    intro h
    have := (selfVa1_inWindow hva).onPath h
    simp [InWindowSlot, hne] at this
  have hoff0 : ¬ OnPath d (selfVa0 va) (.pte1 d (vpn2 va) (vpn1 va)) := by
    intro h
    have := (selfVa0_inWindow hva).onPath h
    simp [InWindowSlot, hne] at this
  have hoff2 : ¬ OnPath d (selfVa1 va) (.pte1 d (vpn2 va) (vpn1 va)) := by
    intro h
    have := (selfVa1_inWindow hva).onPath h
    simp [InWindowSlot, hne] at this
  unfold createPte1
  cases hl : s.pageFreeList with
  | nil =>
    rw [allocEntry_nil _ _ _ hl]
    exact ⟨_, s, rfl, .inl ⟨rfl, rfl, rfl⟩⟩
  | cons q rest =>
    obtain ⟨s₁, ha, -⟩ := allocEntry_cons t2 (vpn2 va) 0 hl
    obtain ⟨s₂, h₂, hshown⟩ := table_shown hs (x := .root d) trivial ht hv trivial hnone ha
      (selfVa1_inWindow hva) hoff1 hd (vpn1 va)
    have hroot : s₂.pgdir d ≠ 0 := by
      intro h0
      have hr := hshown.table (.root d) _ trivial ht
      simp [tgt, ent, ent.root, h0] at hr
    obtain ⟨r, s', h, hout⟩ := createPte0_out hshown.consistent hmap hva hroot hoff0 hshown.made (by
      rw [hshown.off _ hoff2 (by simp [Slot.child])]
      exact ent_child_none (x := .pte2 d (vpn2 va)) trivial hnone _)
    rw [ha]
    exact ⟨r, s', Except.bind_ok_iff.mpr ⟨s₂, h₂, h⟩, .inr ⟨by simp, s₂, q, hshown, hout⟩⟩

omit [DecidableEq D] [Fintype D] in
theorem mapped_iff (hv : ¬ shared (vpn2 va)) : s.isMappedPage d va = true ↔ s.view d va ≠ none := by
  rw [isMappedPage_eq hv, Option.isSome_iff_ne_none]

omit [DecidableEq D] in
theorem pte0Out_intact {r : Int} (hs : Consistent M s) (hva : va < 2 ^ 39)
    (h : Pte0Out M d va n map s r s') :
    (r = -eNoMem → Intact M s s') ↔
      ¬ (1 ≤ s.pageFreeList.length ∧ s.isMappedPage d (selfVa0 va) = true ∧
        spare (s.missing d (selfVa0 va)) (s.SoleRef d (selfVa0 va))
        (s.pageFreeList.length - 1) < n) := by
  have hw := selfVa0_inWindow hva
  have hv : ¬ shared (vpn2 (selfVa0 va)) := by rw [hw.vpn2_eq]; decide
  rw [mapped_iff hv]
  cases h with
  | noTable h =>
    apply iff_of_true
    · intro _
      exact intact_of_leaves hs fun _ _ _ => rfl
    · rintro ⟨h1, -⟩
      rw [h] at h1
      exact absurd h1 (by decide)
  | noLeaf h hshown hfew =>
    rw [hshown.free] at hfew
    constructor
    · rintro hi ⟨-, hmapped, -⟩
      exact hshown.not_intact hw hmapped rfl (hi rfl)
    · intro hnot _
      apply intact_of_leaves hshown.consistent
      apply hshown.leavesKept trivial
      by_contra hmapped
      exact hnot ⟨h, hmapped, hfew⟩
  | done h hshown henough _ =>
    rw [hshown.free] at henough
    apply iff_of_true
    · intro h0
      exact absurd h0 (by decide)
    · rintro ⟨-, -, hfew⟩
      omega

omit [DecidableEq D] [Fintype D] in
theorem soleAfter_iff {w w' : Nat} (hv : ¬ shared (vpn2 w)) (hv' : ¬ shared (vpn2 w')) :
    s.SoleAfter d w w' ↔ ∃ p perm, s.view d w' = some (p, perm) ∧
      s.ppRef p = if s.tgt (leafSlot d w) = some p then 2 else 1 := by
  have hdiv : ∀ p x, (p * 4096 + x % 4096) / 4096 = p := fun p x => by omega
  have hcond : ∀ p, (s.isMappedPage d w = true ∧ s.getPa d w / 4096 = p) ↔
      s.tgt (leafSlot d w) = some p := by
    intro p
    rw [mapped_iff hv, tgt_eq_some]
    constructor
    · rintro ⟨hne, hp⟩
      obtain ⟨⟨p', perm⟩, he⟩ := Option.ne_none_iff_exists'.mp hne
      rw [getPa_of_view hv he, hdiv] at hp
      exact ⟨perm, hp ▸ he⟩
    · rintro ⟨perm, he⟩
      have he' : s.view d w = some (p, perm) := he
      rw [getPa_of_view hv he', hdiv, he']
      exact ⟨Option.some_ne_none _, rfl⟩
  rw [SoleAfter, mapped_iff hv']
  simp only [hcond]
  constructor
  · rintro ⟨hne, href⟩
    obtain ⟨⟨p, perm⟩, he⟩ := Option.ne_none_iff_exists'.mp hne
    rw [getPa_of_view hv' he, hdiv] at href
    exact ⟨p, perm, he, href⟩
  · rintro ⟨p, perm, he, href⟩
    rw [getPa_of_view hv' he, hdiv, he]
    exact ⟨Option.some_ne_none _, href⟩

omit [DecidableEq D] in
/-- The self-map of the level-1 table, by what it says of the next one. -/
theorem Shown.next (hva : va < 2 ^ 39) (hne : vpn2 va ≠ 3) {s₁ : Pmap D} {q : Nat}
    (h : Shown M d (selfVa1 va) (.pte2 d (vpn2 va)) q s s₁) :
    s₁.view d (selfVa0 va) = s.view d (selfVa0 va) ∧
    (s₁.SoleRef d (selfVa0 va) ↔ s.SoleAfter d (selfVa1 va) (selfVa0 va)) ∧
    (s.view d (selfVa1 va) ≠ none ∨ s.view d (selfVa0 va) ≠ none →
      s₁.missing d (selfVa0 va) = s.missing d (selfVa0 va)) := by
  have hw1 := selfVa1_inWindow hva
  have hw0 := selfVa0_inWindow hva
  have hv1 : ¬ shared (vpn2 (selfVa1 va)) := by rw [hw1.vpn2_eq]; decide
  have hv0 : ¬ shared (vpn2 (selfVa0 va)) := by rw [hw0.vpn2_eq]; decide
  have hleaf : leafSlot d (selfVa0 va) ≠ leafSlot d (selfVa1 va) := by
    intro heq
    have h1 : vpn1 (selfVa0 va) = vpn1 (selfVa1 va) := (Slot.pte0.inj heq).2.2.1
    rw [vpn1_selfVa0_eq, vpn1_selfVa1_eq hva] at h1
    exact hne h1
  have hview : s₁.view d (selfVa0 va) = s.view d (selfVa0 va) := h.leaf trivial id hleaf
  have hkept : ∀ x, x.IsTable → s.ent x ≠ none → s₁.ent x ≠ none := by
    intro x hx hent hn
    obtain ⟨⟨p, perm⟩, he⟩ := Option.ne_none_iff_exists'.mp hent
    have htgt := h.table x p hx (tgt_eq_some.mpr ⟨perm, he⟩)
    rw [tgt, hn] at htgt
    cases htgt
  refine ⟨hview, ?_, ?_⟩
  · rw [soleRef_iff hv0, soleAfter_iff hv1 hv0, hview]
    apply exists_congr
    intro p
    apply exists_congr
    intro perm
    apply and_congr_right
    intro he
    rw [h.ppRef p (leafSlot d (selfVa0 va)) (tgt_eq_some.mpr ⟨perm, he⟩)]
    split <;> omega
  · intro hmapped
    have h2 : s.ent (.pte2 d 3) ≠ none := by
      rcases hmapped with hm | hm
      · intro hn
        apply hm
        rw [← hw1.vpn2_eq] at hn
        exact leaf_none_of_pte1 (pte1_none_of_pte2 hn)
      · intro hn
        apply hm
        rw [← hw0.vpn2_eq] at hn
        exact leaf_none_of_pte1 (pte1_none_of_pte2 hn)
    have hr : s.ent (.root d) ≠ none := fun hn => h2 (ent_child_none (x := .root d) trivial hn 3)
    have h1 : s₁.ent (.pte1 d 3 (vpn2 va)) = s.ent (.pte1 d 3 (vpn2 va)) := by
      apply h.off
      · rintro (heq | heq | heq | heq)
        · cases heq
        · cases heq
        · rw [vpn1_selfVa1_eq hva] at heq
          exact hne (Slot.pte1.inj heq).2.2
        · cases heq
      · simp
    rw [missing_eq s₁ d hv0, missing_eq s d hv0, hw0.vpn2_eq, vpn1_selfVa0_eq,
      if_neg (hkept (.pte2 d 3) trivial h2),
      if_neg (hkept (.root d) trivial hr), if_neg h2, if_neg hr, h1]

omit [DecidableEq D] in
theorem pte1Out_intact {r : Int} (hs : Consistent M s) (hva : va < 2 ^ 39) (hne : vpn2 va ≠ 3)
    (hmiss : s.missing d va = 2)
    (h : (s.pageFreeList = [] ∧ r = -eNoMem ∧ s' = s) ∨ (1 ≤ s.pageFreeList.length ∧ ∃ s₁ q,
      Shown M d (selfVa1 va) (.pte2 d (vpn2 va)) q s s₁ ∧ Pte0Out M d va n map s₁ r s')) :
    (r = -eNoMem → Intact M s s') ↔ ¬ s.Displaces d va n := by
  have hw1 := selfVa1_inWindow hva
  have hw0 := selfVa0_inWindow hva
  have hv1 : ¬ shared (vpn2 (selfVa1 va)) := by rw [hw1.vpn2_eq]; decide
  have hv0 : ¬ shared (vpn2 (selfVa0 va)) := by rw [hw0.vpn2_eq]; decide
  unfold Displaces
  rw [hmiss]
  dsimp only
  rw [mapped_iff hv1, mapped_iff hv0]
  rcases h with ⟨hl, -, rfl⟩ | ⟨hl, s₁, q, hshown, hout⟩
  · apply iff_of_true
    · intro _
      exact intact_of_leaves hs fun _ _ _ => rfl
    · rintro ⟨h1, -⟩
      rw [hl] at h1
      exact absurd h1 (by decide)
  · obtain ⟨hview, hsole, hmissing⟩ := hshown.next hva hne
    have hspare : s.view d (selfVa1 va) ≠ none ∨ s.view d (selfVa0 va) ≠ none → ∀ m,
        spare (s.missing d (selfVa0 va)) (s.SoleAfter d (selfVa1 va) (selfVa0 va)) m =
          spare (s₁.missing d (selfVa0 va)) (s₁.SoleRef d (selfVa0 va)) m := by
      intro hmapped m
      rw [hmissing hmapped]
      exact spare_congr hsole.symm m
    rw [← hshown.free]
    cases hout with
    | noTable h =>
      have h0 : s'.pageFreeList.length = 0 := by simp [h]
      constructor
      · rintro hi ⟨-, ⟨hm, -⟩ | ⟨-, h1, -⟩⟩
        · exact hshown.not_intact hw1 hm rfl (hi rfl)
        · omega
      · intro hnot _
        apply intact_of_leaves hshown.consistent
        apply hshown.leavesKept trivial
        by_contra hm
        exact hnot ⟨hl, .inl ⟨hm, h0⟩⟩
    | noLeaf h hshown' hfew =>
      rw [hshown'.free] at hfew
      have hlater : s'.view d (selfVa1 va) = s₁.view d (selfVa1 va) := by
        apply hshown'.leaf trivial id
        intro heq
        have h1 : vpn1 (selfVa1 va) = vpn1 (selfVa0 va) := (Slot.pte0.inj heq).2.2.1
        rw [vpn1_selfVa0_eq, vpn1_selfVa1_eq hva] at h1
        exact hne h1.symm
      constructor
      · rintro hi ⟨-, ⟨-, h0⟩ | ⟨hm | hm, -⟩⟩
        · omega
        · exact hshown.not_intact hw1 hm hlater (hi rfl)
        · obtain ⟨⟨p, perm⟩, he⟩ := Option.ne_none_iff_exists'.mp hm
          apply not_intact_of_view hv0 he (hshown'.shown (hview ▸ hm)) _ (hi rfl)
          rintro rfl
          exact hshown'.fresh (leafSlot d (selfVa0 va)) (tgt_eq_some.mpr ⟨perm, hview.trans he⟩)
      · intro hnot _
        have hno : ¬ (s.view d (selfVa1 va) ≠ none ∨ s.view d (selfVa0 va) ≠ none) := by
          intro hm
          exact hnot ⟨hl, .inr ⟨hm, h, by rw [hspare hm]; exact hfew⟩⟩
        rw [not_or, not_not, not_not] at hno
        apply intact_of_leaves hshown'.consistent
        exact (hshown.leavesKept trivial hno.1).trans
          (hshown'.leavesKept trivial (hview.trans hno.2))
    | done h hshown' henough _ =>
      rw [hshown'.free] at henough
      apply iff_of_true
      · intro h0
        exact absurd h0 (by decide)
      · rintro ⟨-, ⟨-, h0⟩ | ⟨hm, -, hfew⟩⟩
        · omega
        · rw [hspare hm] at hfew
          omega

omit [Fintype D] in
/-- The calls meet the last-level table, where there is one. -/
theorem descend_found (self : Pmap D → Nat → Nat → Except Halt (Pmap D))
    (map found : Pmap D → Nat → Except Halt (Reply D)) (hv : ¬ shared (vpn2 va))
    (hm : s.missing d va = 0) :
    ∃ t0, s.tgt (.pte1 d (vpn2 va) (vpn1 va)) = some t0 ∧
    descend self map found s d va = found s t0 := by
  unfold missing at hm
  by_cases hd : s.pgdir d = 0
  · rw [if_pos hd] at hm
    cases hm
  rw [if_neg hd] at hm
  rw [descend, if_neg hd]
  rcases walk_cases s hd hv with ⟨t2, hw, -, -⟩ | ⟨t1, hw, -, -⟩ | ⟨t0, hw, ht⟩ <;> rw [hw] at hm ⊢
  · cases hm
  · cases hm
  · exact ⟨t0, ht, rfl⟩

omit [DecidableEq D] [Fintype D] in
theorem missing_of_view (hv : ¬ shared (vpn2 va)) (h : s.view d va ≠ none) :
    s.missing d va = 0 := by
  have h1 : s.ent (.pte1 d (vpn2 va) (vpn1 va)) ≠ none := fun hn => h (leaf_none_of_pte1 hn)
  have h2 : s.ent (.pte2 d (vpn2 va)) ≠ none := fun hn => h1 (pte1_none_of_pte2 hn)
  have h3 : s.ent (.root d) ≠ none := fun hn => h2 (ent_child_none (x := .root d) trivial hn _)
  rw [missing_eq s d hv, if_neg h3, if_neg h2, if_neg h1]

omit [DecidableEq D] in
/-- An allocation in an existing table. -/
theorem replaceLeaf_intact (hs : Consistent M s) (hv : ¬ shared (vpn2 va)) {t0 perm : Nat}
    (ht : s.tgt (.pte1 d (vpn2 va) (vpn1 va)) = some t0) :
    (∀ s', replaceLeaf va perm s t0 = .ok (-eNoMem, s') → Intact M s s') ↔ ¬ s.Overwrites d va := by
  have hdiv : ∀ p, (p * 4096 + va % 4096) / 4096 = p := fun p => by omega
  have hleaf : s.view d va = _ := ent_leafSlot ht
  unfold replaceLeaf Overwrites
  rw [mapped_iff hv]
  dsimp only
  by_cases hvalid : valid (s.mem t0 (vpn0 va))
  · rw [entry, if_pos hvalid] at hleaf
    rw [if_pos hvalid]
    generalize ptePage (s.mem t0 (vpn0 va)) = p at hleaf ⊢
    have htgt : s.tgt (leafSlot d va) = some p := tgt_eq_some.mpr ⟨_, hleaf⟩
    have hpos := hs.counted.ref_pos_of_tgt htgt
    rw [getPa_of_view hv hleaf, hdiv, hleaf, clearRef_eq hs htgt]
    constructor
    · rintro hi ⟨-, hl, href⟩
      have hl' : (s.dropRef p).pageFreeList = [] := by
        rw [dropRef, if_neg (by omega)]
        exact hl
      have hcons := (hi (s.dropRef p) (by
        unfold allocLeaf
        simp only [bind, Except.bind, allocEntry_nil _ _ _ hl'])).consistent
      -- the entry is still there, with one reference fewer than slots
      have htgt' : (s.dropRef p).tgt = s.tgt := tgt_eq_of_ent (ent_eq_of_mem rfl rfl)
      have hM := hs.mem_of_tgt htgt
      have hcount := hcons.counted.count p hM
      rw [htgt', ← hs.counted.count p hM, dropRef] at hcount
      simp only [Function.update_self] at hcount
      omega
    · intro hnot s' h
      rcases allocLeaf_needs va perm (s.dropRef p) t0 with ⟨-, s₁, h₁⟩ | ⟨hfew, h₁⟩
      · exact absurd (Prod.mk.inj (Except.ok.inj (h₁.symm.trans h))).1 (by decide)
      · have hl : (s.dropRef p).pageFreeList = [] := List.eq_nil_of_length_eq_zero (by omega)
        unfold dropRef at hl
        dsimp only at hl
        split at hl
        · cases hl
        · exact absurd ⟨Option.some_ne_none _, hl, by omega⟩ hnot
  · rw [entry, if_neg hvalid] at hleaf
    rw [if_neg hvalid, hleaf]
    apply iff_of_true
    · intro s' h
      rcases allocLeaf_needs va perm s t0 with ⟨-, s₁, h₁⟩ | ⟨-, h₁⟩
      · exact absurd (Prod.mk.inj (Except.ok.inj (h₁.symm.trans h))).1 (by decide)
      · obtain ⟨-, rfl⟩ := Prod.mk.inj (Except.ok.inj (h₁.symm.trans h))
        exact intact_of_leaves hs fun _ _ _ => rfl
    · rintro ⟨hm, -⟩
      exact hm rfl

/-- A call that gives up on the way to a table keeps memory consistent. -/
theorem descend_fail {self : Pmap D → Nat → Nat → Except Halt (Pmap D)} {T : Nat → Slot D → Prop}
    {found : Pmap D → Nat → Except Halt (Reply D)} (hs : Consistent M s) (hself : SelfSpec M T self)
    (hva : va < 2 ^ 39) (hv : ¬ shared (vpn2 va)) (hT : Apart T d va s) (hmap : Needs n map)
    (hm : s.missing d va ≠ 0) (h : descend self map found s d va = .ok (-eNoMem, s')) :
    Consistent M s' ∧ Frame M (Touched T d va) s s' := by
  rcases descend_spec hs hself hva hv hT h with
    ⟨-, ⟨s₂, t0, hready, h₂⟩ | ⟨-, hs', hf, -⟩⟩ | ⟨t0, ht, -⟩
  · rcases hmap s₂ t0 with ⟨-, s₁, h₁⟩ | ⟨-, h₁⟩
    · exact absurd (Prod.mk.inj (Except.ok.inj (h₁.symm.trans h₂))).1 (by decide)
    · obtain ⟨-, rfl⟩ := Prod.mk.inj (Except.ok.inj (h₁.symm.trans h₂))
      exact ⟨hready.consistent, hready.frame⟩
  · exact ⟨hs', hf⟩
  · exfalso
    apply hm
    have h1 : s.ent (.pte1 d (vpn2 va) (vpn1 va)) ≠ none := by
      intro hn
      rw [tgt, hn] at ht
      cases ht
    have h2 : s.ent (.pte2 d (vpn2 va)) ≠ none := fun hn => h1 (pte1_none_of_pte2 hn)
    have h3 : s.ent (.root d) ≠ none := fun hn => h2 (ent_child_none (x := .root d) trivial hn _)
    rw [missing_eq s d hv, if_neg h3, if_neg h2, if_neg h1]

omit [DecidableEq D] [Fintype D] in
theorem view_of_missing (hv : ¬ shared (vpn2 va)) (h : s.missing d va ≠ 0) :
    s.view d va = none := by
  by_contra hview
  exact h (missing_of_view hv hview)

/-- A `_user` call that has tables to make. -/
theorem descend_user_intact {found : Pmap D → Nat → Except Halt (Reply D)} (hs : Consistent M s)
    (hu : s.UserCall d va) (hmap : Needs n map) (hm : s.missing d va ≠ 0) :
    (∀ s', descend (selfMap d) map found s d va = .ok (-eNoMem, s') → Intact M s s') ↔
    ¬ s.Displaces d va n := by
  have hapart := hu.apart
  obtain ⟨⟨hva, hv⟩, htab⟩ := hu
  have hdet : ∀ {r : Int} {s₁ : Pmap D}, descend (selfMap d) map found s d va = .ok (r, s₁) →
      ((∀ s', descend (selfMap d) map found s d va = .ok (-eNoMem, s') → Intact M s s') ↔
        (r = -eNoMem → Intact M s s₁)) := by
    intro r s₁ h
    constructor
    · rintro hi rfl
      exact hi s₁ h
    · intro hi s' h'
      obtain ⟨rfl, rfl⟩ := Prod.mk.inj (Except.ok.inj (h.symm.trans h'))
      exact hi rfl
  by_cases hd : s.pgdir d = 0
  · -- nothing is mapped in the directory
    have hroot : s.ent (.root d) = none := by simp [ent, ent.root, hd]
    have hthree : s.missing d va = 3 := by
      unfold missing
      exact if_pos hd
    apply iff_of_true
    · intro s' h
      obtain ⟨hs', hf⟩ := descend_fail hs selfMap_spec hva hv hapart hmap hm h
      apply intact_of_leaves hs'
      intro x hx hent
      apply hf.ent_eq
      have hbelow : ∀ w, s.view d w = none := by
        intro w
        by_contra hw
        exact pgdir_ne_zero_of_view (Option.ne_none_iff_exists'.mp hw).choose_spec hd
      have hpath : ∀ w, ¬ OnPath d w x := by
        rintro w (rfl | rfl | rfl | rfl)
        · exact hx trivial
        · exact hx trivial
        · exact hx trivial
        · exact hent (hbelow w)
      rintro (h | h | h | h) <;> exact hpath _ h
    · unfold Displaces
      rw [hthree]
      exact id
  · rcases walk_cases s hd hv with ⟨t2, hw, ht, hn⟩ | ⟨t1, hw, ht, hn⟩ | ⟨t0, hw, -⟩
    · have hne : vpn2 va ≠ 3 := by
        intro h3
        rw [h3] at hn
        exact htab h3 (ent_child_none (x := .pte2 d 3) trivial hn 3)
      have htwo : s.missing d va = 2 := by
        unfold missing
        rw [if_neg hd, hw]
      obtain ⟨r, s', h, hout⟩ := createPte1_out hs hmap hva hv hd hne ht hn
      rw [hdet (by rw [descend, if_neg hd, hw]; exact h)]
      exact pte1Out_intact hs hva hne htwo hout
    · have hone : s.missing d va = 1 := by
        unfold missing
        rw [if_neg hd, hw]
      have hoff : ¬ OnPath d (selfVa0 va) (.pte1 d (vpn2 va) (vpn1 va)) := by
        rintro (heq | heq | heq | heq)
        · cases heq
        · cases heq
        · have h3 : vpn2 va = vpn2 (selfVa0 va) := (Slot.pte1.inj heq).2.1
          rw [(selfVa0_inWindow hva).vpn2_eq] at h3
          rw [heq, (selfVa0_inWindow hva).vpn2_eq, vpn1_selfVa0_eq, h3] at hn
          exact htab h3 hn
        · cases heq
      obtain ⟨r, s', h, hout⟩ := createPte0_out hs hmap hva hd hoff ht hn
      rw [hdet (by rw [descend, if_neg hd, hw]; exact h)]
      unfold Displaces
      rw [hone]
      exact pte0Out_intact hs hva hout
    · exfalso
      apply hm
      unfold missing
      rw [if_neg hd, hw]

end

/-- The calls without self-map, where they have tables to make. -/
theorem descend_noSelf_intact {n : Nat} {map found : Pmap D → Nat → Except Halt (Reply D)}
    (hs : Consistent M s) (hva : Unshared va) (hmap : Needs n map) (hm : s.missing d va ≠ 0)
    (h : descend noSelf map found s d va = .ok (-eNoMem, s')) : Intact M s s' := by
  obtain ⟨hs', hf⟩ := descend_fail hs noSelf_spec hva.1 hva.2 (apart_noTouch s) hmap hm h
  apply intact_of_leaves hs'
  intro x hx hent
  apply hf.ent_eq
  intro ht
  rcases touched_noTouch ht with rfl | rfl | rfl | rfl
  · exact hx trivial
  · exact hx trivial
  · exact hx trivial
  · exact hent (view_of_missing hva.2 hm)

omit [DecidableEq D] [Fintype D] in
theorem not_overwrites (hv : ¬ shared (vpn2 va)) (hm : s.missing d va ≠ 0) :
    ¬ s.Overwrites d va := by
  rintro ⟨h, -⟩
  rw [mapped_iff hv] at h
  exact h (view_of_missing hv hm)

omit [DecidableEq D] [Fintype D] in
theorem not_displaces {n : Nat} (hm : s.missing d va = 0) : ¬ s.Displaces d va n := by
  unfold Displaces
  rw [hm]
  exact id

/-! ## The four calls -/

theorem allocPage_intact (hs : Consistent M s) (hva : Unshared va) (perm : Nat) :
    (∀ s', s.allocPage d va perm = .ok (-eNoMem, s') → Intact M s s') ↔
    ¬ (perm < 0x400 ∧ s.Overwrites d va) := by
  unfold allocPage
  by_cases hperm : perm < 0x400
  · rw [if_neg (by omega)]
    simp only [hperm, true_and]
    by_cases hm : s.missing d va = 0
    · obtain ⟨t0, ht, hfound⟩ :=
        descend_found noSelf (allocLeaf va perm) (replaceLeaf va perm) hva.2 hm
      rw [hfound]
      exact replaceLeaf_intact hs hva.2 ht
    · apply iff_of_true
      · intro s' h
        exact descend_noSelf_intact hs hva (allocLeaf_needs va perm) hm h
      · exact not_overwrites hva.2 hm
  · rw [if_pos (by omega)]
    exact iff_of_true (fun s' h => by cases h) fun h => hperm h.1

/-- Over a mapping `map_page` and `map_page_user` take no page. -/
theorem descend_remap {self : Pmap D → Nat → Nat → Except Halt (Pmap D)} {pa perm : Nat}
    (hs : Consistent M s)
    (hv : ¬ shared (vpn2 va)) (hperm : perm < 0x400) (hpa : mappablePa pa)
    (hm : s.missing d va = 0) :
    descend self (mapAt va pa perm) (remapLeaf va pa perm) s d va ≠ .ok (-eNoMem, s') := by
  intro h
  obtain ⟨t0, ht, hfound⟩ := descend_found self (mapAt va pa perm) (remapLeaf va pa perm) hv hm
  obtain ⟨s₁, h₁, -⟩ := remapLeaf_spec hs ht hperm hpa
  exact absurd (Prod.mk.inj (Except.ok.inj ((hfound.trans h₁).symm.trans h))).1 (by decide)

theorem mapPage_intact (hs : Consistent M s) (hva : Unshared va) {pa perm : Nat}
    (h : s.mapPage d va pa perm = .ok (-eNoMem, s')) : Intact M s s' := by
  unfold mapPage at h
  split at h
  · cases h
  split at h
  · cases h
  rename_i hperm hpa
  by_cases hm : s.missing d va = 0
  · exact absurd h (descend_remap hs hva.2 (Nat.not_le.mp hperm) (not_not.mp hpa) hm)
  · exact descend_noSelf_intact hs hva (mapAt_needs va pa perm) hm h

theorem allocPageUser_intact (hs : Consistent M s) (hu : s.UserCall d va) (perm : Nat) :
    (∀ s', s.allocPageUser d va perm = .ok (-eNoMem, s') → Intact M s s') ↔
      ¬ (perm < 0x400 ∧ (s.Overwrites d va ∨ s.Displaces d va 1)) := by
  have hv := hu.1.2
  unfold allocPageUser
  by_cases hperm : perm < 0x400
  · rw [if_neg (by omega)]
    simp only [hperm, true_and]
    by_cases hm : s.missing d va = 0
    · obtain ⟨t0, ht, hfound⟩ :=
        descend_found (selfMap d) (allocLeaf va perm) (replaceLeaf va perm) hv hm
      rw [hfound, or_iff_left (not_displaces hm)]
      exact replaceLeaf_intact hs hv ht
    · rw [or_iff_right (not_overwrites hv hm)]
      exact descend_user_intact hs hu (allocLeaf_needs va perm) hm
  · rw [if_pos (by omega)]
    exact iff_of_true (fun s' h => by cases h) fun h => hperm h.1

theorem mapPageUser_intact (hs : Consistent M s) (hu : s.UserCall d va) (pa perm : Nat) :
    (∀ s', s.mapPageUser d va pa perm = .ok (-eNoMem, s') → Intact M s s') ↔
      ¬ (perm < 0x400 ∧ mappablePa pa ∧ s.Displaces d va 0) := by
  have hv := hu.1.2
  unfold mapPageUser
  by_cases hperm : perm < 0x400
  · rw [if_neg (by omega)]
    by_cases hpa : mappablePa pa
    · rw [if_neg (not_not.mpr hpa)]
      simp only [hperm, hpa, true_and]
      by_cases hm : s.missing d va = 0
      · apply iff_of_true
        · intro s' h
          exact absurd h (descend_remap hs hv hperm hpa hm)
        · exact not_displaces hm
      · exact descend_user_intact hs hu (mapAt_needs va pa perm) hm
    · rw [if_pos hpa]
      exact iff_of_true (fun s' h => by cases h) fun h => hpa h.2.1
  · rw [if_pos (by omega)]
    exact iff_of_true (fun s' h => by cases h) fun h => hperm h.1

omit [DecidableEq D] [Fintype D] in
theorem unmapPage_zero {r : Int} (h : s.unmapPage d va = .ok (r, s')) : r = 0 := by
  unfold unmapPage at h
  split at h
  · cases h
  split at h
  · exact (Prod.mk.inj (Except.ok.inj h)).1.symm
  split at h
  · dsimp only at h
    split at h
    · obtain ⟨s₁, -, h₁⟩ := Except.bind_ok_iff.mp h
      exact (Prod.mk.inj (Except.ok.inj h₁)).1.symm
    · exact (Prod.mk.inj (Except.ok.inj h)).1.symm
  · exact (Prod.mk.inj (Except.ok.inj h)).1.symm


/-- A call that returns `-E_NO_MEM` leaves the mappings as they were and memory
consistent, exactly when it has not given up a mapping before. -/
theorem Call.noMem_intact_iff (hs : Consistent M s) {c : Call D} (hp : c.Placed s) :
    (∀ s', c.run s = .ok (-eNoMem, s') → Intact M s s') ↔ ¬ c.Forgets s := by
  have hno : (0 : Int) ≠ -eNoMem := by decide
  cases c with
  | allocPage d va perm => exact allocPage_intact hs hp perm
  | allocPageUser d va perm => exact allocPageUser_intact hs hp perm
  | mapPageUser d va pa perm => exact mapPageUser_intact hs hp pa perm
  | mapPage d va pa perm =>
    apply iff_of_true
    · intro s' h
      exact mapPage_intact hs hp h
    · exact id
  | allocPgdir d =>
    apply iff_of_true
    · intro s' h
      change s.allocPgdir d = _ at h
      unfold Pmap.allocPgdir at h
      split at h
      · obtain ⟨-, rfl⟩ := Prod.mk.inj (Except.ok.inj h)
        exact intact_of_leaves hs fun _ _ _ => rfl
      · exact absurd (Prod.mk.inj (Except.ok.inj h)).1 hno
    · exact id
  | unmapPage d va =>
    apply iff_of_true
    · intro s' h
      exact absurd (unmapPage_zero h).symm hno
    · exact id
  | destroyPgdir d =>
    apply iff_of_true
    · intro s' h
      obtain ⟨s₁, h₁, -⟩ := destroyPgdir_ok hs d
      exact absurd (Prod.mk.inj (Except.ok.inj (h₁.symm.trans h))).1 hno
    · exact id

/-! A directory with a page at `0x400000`, and at `0x401000` again, and no page left. -/

def fourPages : List Nat := List.range' 0x83000 4

def scarceDir : Pmap EnvIdx := (Call.allocPgdir 0).after (boot EnvIdx fourPages)

def scarcePage : Pmap EnvIdx := (Call.allocPage 0 0x400000 (pteR ||| pteU)).after scarceDir

def scarceTwice : Pmap EnvIdx :=
  (Call.mapPage 0 0x401000 (page2pa 0x83003) (pteR ||| pteU)).after scarcePage

theorem scarceTwice_consistent : Consistent (· ∈ fourPages) scarceTwice := by
  have hboot : Consistent (· ∈ fourPages) (boot EnvIdx fourPages) :=
    noDirs_consistent (s := boot EnvIdx fourPages) (fun _ => rfl) (by decide)
      (fun _ _ => rfl) (by decide)
  have hdir : Call.run (boot EnvIdx fourPages) (.allocPgdir 0) = .ok (0, scarceDir) :=
    Call.run_after (by decide +kernel)
  have hpage : Call.run scarceDir (.allocPage 0 0x400000 (pteR ||| pteU)) = .ok (0, scarcePage) :=
    Call.run_after (by decide +kernel)
  have htwice : Call.run scarcePage (.mapPage 0 0x401000 (page2pa 0x83003) (pteR ||| pteU)) =
      .ok (0, scarceTwice) :=
    Call.run_after (by decide +kernel)
  have hs₁ := (allocPgdir_spec hboot rfl hdir).1
  have hs₂ := (allocPage_spec hs₁ (by decide) (by decide) hpage).1
  obtain ⟨hf, -, -, -, hcons⟩ := mapPage_spec hs₂ (by decide) (by decide) htwice
  have htgt : scarcePage.tgt (leafSlot 0 0x400000) = some 0x83003 := by decide +kernel
  apply hcons
  · exact ⟨_, htgt⟩
  · have hle := refs_onPath_le hf 0x83003
    rw [← hs₂.counted.count 0x83003 (by decide)] at hle
    have hone : scarcePage.ppRef 0x83003 = 1 := by decide +kernel
    have hdiv : page2pa 0x83003 / 4096 = 0x83003 := by decide
    rw [hdiv]
    omega

theorem noMem_intact_scarce :
    Call.code scarceTwice (.mapPage 0 0x600000 (page2pa 0x83003) pteR) = some (-eNoMem) ∧
    ∀ s', Call.run scarceTwice (.mapPage 0 0x600000 (page2pa 0x83003) pteR) = .ok (-eNoMem, s') →
      Intact (· ∈ fourPages) scarceTwice s' := by
  have hp : Call.Placed scarceTwice (.mapPage 0 0x600000 (page2pa 0x83003) pteR) :=
    ⟨by decide, by decide⟩
  exact ⟨by decide +kernel, (Call.noMem_intact_iff scarceTwice_consistent hp).mpr id⟩

/-- `alloc_page` over a page with two mappings, with no page free. -/
theorem alloc_page_forgets : Consistent (· ∈ fourPages) scarceTwice ∧
    Call.code scarceTwice (.allocPage 0 0x400000 pteR) = some (-eNoMem) ∧
    ¬ ∀ s', Call.run scarceTwice (.allocPage 0 0x400000 pteR) = .ok (-eNoMem, s') →
      Intact (· ∈ fourPages) scarceTwice s' := by
  refine ⟨scarceTwice_consistent, by decide +kernel, ?_⟩
  intro h
  have hva : Unshared 0x400000 := ⟨by decide, by decide⟩
  apply (allocPage_intact scarceTwice_consistent hva pteR).mp h
  exact ⟨by decide, by decide +kernel, by decide +kernel, by decide +kernel⟩

end RiscvMos.Pmap
