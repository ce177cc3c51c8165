import RiscvMos.Pmap.Run

/-!
The window at `PAGE_TABLE`, where an env reads its own tables. It is no
recursive entry: each new table of a user address is mapped there by a call of
its own, in tables that lie in the window themselves. `Mirrored` says that the
window shows every table of a user address.
-/

namespace RiscvMos

/-- The entry of the window that shows the table behind a slot. -/
def Slot.self {D : Type} : Slot D → Slot D
  | root d => pte0 d 3 3 3
  | pte2 d i => pte0 d 3 3 i
  | pte1 d i j => pte0 d 3 i j
  | x => x

namespace Pmap

variable {D : Type}

/-- The slots of `d` that lead to a table of an address below `ULIM`. -/
inductive UserTable (d : D) : Slot D → Prop where
  | root : UserTable d (.root d)
  | pte2 {i : Vpn} (hi : i.val < 2) : UserTable d (.pte2 d i)
  | pte1 {i j : Vpn} (hi : i.val < 2) : UserTable d (.pte1 d i j)

theorem vpn_ne_three {i : Vpn} (hi : i.val < 2) : i ≠ 3 := by
  rintro rfl
  revert hi
  decide

section
variable {d : D} {x y : Slot D}

theorem UserTable.isTable (h : UserTable d x) : x.IsTable := by
  cases h with
  | root => trivial
  | pte2 hi => trivial
  | pte1 hi => trivial

theorem UserTable.dir (h : UserTable d x) : x.dir = d := by
  cases h with
  | root => rfl
  | pte2 hi => rfl
  | pte1 hi => rfl

theorem UserTable.self_dir (h : UserTable d x) : x.self.dir = d := by
  cases h with
  | root => rfl
  | pte2 hi => rfl
  | pte1 hi => rfl

/-- The entry is in the window. -/
theorem UserTable.self_eq (h : UserTable d x) : ∃ j k, x.self = .pte0 d 3 j k := by
  cases h with
  | root => exact ⟨_, _, rfl⟩
  | pte2 hi => exact ⟨_, _, rfl⟩
  | pte1 hi => exact ⟨_, _, rfl⟩

/-- No two tables of user addresses have one entry. -/
theorem UserTable.self_inj (hx : UserTable d x) (hy : UserTable d y)
    (h : x.self = y.self) : x = y := by
  cases hx with
  | root =>
    cases hy with
    | root => rfl
    | pte2 hi => simp [Slot.self, (vpn_ne_three hi).symm] at h
    | pte1 hi => simp [Slot.self, (vpn_ne_three hi).symm] at h
  | pte2 hi =>
    cases hy with
    | root => simp [Slot.self, vpn_ne_three hi] at h
    | pte2 hj =>
      simp only [Slot.self, Slot.pte0.injEq, true_and] at h
      rw [h]
    | pte1 hj => simp [Slot.self, (vpn_ne_three hj).symm] at h
  | pte1 hi =>
    cases hy with
    | root => simp [Slot.self, vpn_ne_three hi] at h
    | pte2 hj => simp [Slot.self, vpn_ne_three hi] at h
    | pte1 hj =>
      simp only [Slot.self, Slot.pte0.injEq, true_and] at h
      rw [h.1, h.2]

end

/-- What user code may read: a page with `PTE_R` and `PTE_U`, not copy-on-write. -/
def Readable (perm : Nat) : Prop := perm &&& pteR ≠ 0 ∧ perm &&& pteU ≠ 0 ∧ perm &&& pteCow = 0

instance (perm : Nat) : Decidable (Readable perm) := inferInstanceAs (Decidable (_ ∧ _))

/-- The window of `d` shows every table of a user address but those in `P`, and
has tables of its own for the level-0 tables of each half but those in `W`. -/
structure MirroredBut (P : Slot D → Prop) (W : Vpn → Prop) (d : D) (s : Pmap D) : Prop where
  shown : ∀ x t, UserTable d x → ¬ P x → s.tgt x = some t → s.tgt x.self = some t
  windows : ∀ i : Vpn, i.val < 2 → ¬ W i → s.ent (.pte2 d i) ≠ none → s.ent (.pte1 d 3 i) ≠ none
  readable : ∀ j k p perm, s.ent (.pte0 d 3 j k) = some (p, perm) → Readable perm

abbrev Mirrored (d : D) (s : Pmap D) : Prop := MirroredBut (fun _ => False) (fun _ => False) d s

section
variable {M : Nat → Prop} {P : Slot D → Prop} {W : Vpn → Prop} {s s' : Pmap D} {d : D} {va : Nat}

theorem MirroredBut.mono {P' : Slot D → Prop} {W' : Vpn → Prop} (h : MirroredBut P W d s)
    (hP : ∀ x, UserTable d x → s.tgt x ≠ none → P x → P' x) (hW : ∀ i, W i → W' i) :
    MirroredBut P' W' d s := by
  constructor
  · intro x t hx hn ht
    refine h.shown x t hx (fun hp => hn (hP x hx ?_ hp)) ht
    rw [ht]
    exact Option.some_ne_none t
  · intro i hi hn
    exact h.windows i hi fun hw => hn (hW i hw)
  · exact h.readable

/-- A change outside the tables of `d`. -/
theorem MirroredBut.of_ent (h : MirroredBut P W d s)
    (hent : ∀ x : Slot D, x.dir = d → s'.ent x = s.ent x) :
    MirroredBut P W d s' := by
  constructor
  · intro x t hx hn ht
    rw [tgt, hent _ hx.dir] at ht
    rw [tgt, hent _ hx.self_dir]
    exact h.shown x t hx hn ht
  · intro i
    rw [hent (.pte2 d i) rfl, hent (.pte1 d 3 i) rfl]
    exact h.windows i
  · intro j k p perm
    rw [hent (.pte0 d 3 j k) rfl]
    exact h.readable j k p perm

variable [DecidableEq D]

/-- A table in an empty slot is not shown yet. -/
theorem MirroredBut.fill (h : MirroredBut P W d s) {c : Slot D} {e : Nat × Nat} (hc : c.IsTable)
    (hnone : s.ent c = none) (hent : s'.ent = Function.update s.ent c (some e)) :
    MirroredBut (fun x => P x ∨ x = c) (fun i => W i ∨ c = .pte2 d i) d s' := by
  constructor
  · intro x t hx hn ht
    rw [not_or] at hn
    obtain ⟨j, k, hself⟩ := hx.self_eq
    have hne : x.self ≠ c := by
      rw [hself]
      rintro rfl
      exact hc
    rw [tgt, hent, Function.update_of_ne hn.2] at ht
    rw [tgt, hent, Function.update_of_ne hne]
    exact h.shown x t hx hn.1 ht
  · intro i hi hn hne
    rw [not_or] at hn
    rw [hent, Function.update_of_ne fun he => hn.2 he.symm] at hne
    rw [hent]
    by_cases hic : Slot.pte1 d 3 i = c
    · rw [hic, Function.update_self]
      exact Option.some_ne_none e
    · rw [Function.update_of_ne hic]
      exact h.windows i hi hn.1 hne
  · intro j k p perm he
    have hne : Slot.pte0 d 3 j k ≠ c := by
      rintro rfl
      exact hc
    rw [hent, Function.update_of_ne hne] at he
    exact h.readable j k p perm he

/-- A last-level entry of the window is set, where no other table is shown. -/
theorem MirroredBut.show (h : MirroredBut P W d s) (hva : InWindow va)
    (hroot : s.ent (.root d) ≠ none) (hf : Frame M (OnPath d va) s s') {t perm : Nat}
    (hleaf : s'.ent (leafSlot d va) = some (t, perm)) (hperm : Readable perm)
    (hself : ∀ x, UserTable d x → s.tgt x ≠ none → x.self = leafSlot d va → s.tgt x = some t) :
    MirroredBut (fun x => P x ∧ x.self ≠ leafSlot d va) (fun i => W i ∧ i ≠ vpn1 va) d s' := by
  have h3 := hva.vpn2_eq
  have htab : ∀ x, UserTable d x → s'.tgt x = s.tgt x := by
    intro x hx
    cases hx with
    | root =>
      obtain ⟨⟨p, perm⟩, he⟩ := Option.ne_none_iff_exists'.mp hroot
      have ht : s.tgt (.root d) = some p := tgt_eq_some.mpr ⟨perm, he⟩
      rw [ht]
      exact hf.table _ p trivial ht
    | pte2 hi =>
      apply hf.tgt_eq
      simp [OnPath, leafSlot, h3, vpn_ne_three hi]
    | pte1 hi =>
      apply hf.tgt_eq
      simp [OnPath, leafSlot, h3, vpn_ne_three hi]
  constructor
  · intro x t' hx hn ht
    rw [htab x hx] at ht
    by_cases hslot : x.self = leafSlot d va
    · have hlive : s.tgt x ≠ none := by
        rw [ht]
        exact Option.some_ne_none t'
      obtain rfl := Option.some.inj (ht.symm.trans (hself x hx hlive hslot))
      rw [hslot]
      exact tgt_eq_some.mpr ⟨perm, hleaf⟩
    · have hkeep : ¬ OnPath d va x.self := by
        obtain ⟨j, k, hpte⟩ := hx.self_eq
        rw [hpte] at hslot ⊢
        simpa [OnPath] using hslot
      rw [hf.tgt_eq hkeep]
      exact h.shown x t' hx (fun hp => hn ⟨hp, hslot⟩) ht
  · intro i hi hn hne
    by_cases hiv : i = vpn1 va
    · intro h0
      rw [hiv, ← h3] at h0
      rw [leaf_none_of_pte1 h0] at hleaf
      cases hleaf
    · have hpte2 : s'.ent (.pte2 d i) = s.ent (.pte2 d i) := by
        apply hf.ent_eq
        simp [OnPath, leafSlot, h3, vpn_ne_three hi]
      rw [hpte2] at hne
      have hold := h.windows i hi (fun hw => hn ⟨hw, hiv⟩) hne
      obtain ⟨⟨p, perm⟩, he⟩ := Option.ne_none_iff_exists'.mp hold
      intro h0
      have := hf.table (.pte1 d 3 i) p trivial (tgt_eq_some.mpr ⟨perm, he⟩)
      rw [tgt, h0] at this
      cases this
  · intro j k p perm' he
    by_cases hslot : Slot.pte0 d 3 j k = leafSlot d va
    · rw [hslot, hleaf] at he
      rw [← (Prod.mk.inj (Option.some.inj he)).2]
      exact hperm
    · have hkeep : ¬ OnPath d va (.pte0 d 3 j k) := by simpa [OnPath] using hslot
      rw [hf.ent_eq _ hkeep] at he
      exact h.readable j k p perm' he

/-- A last-level entry of a user address is none of the window's. -/
theorem MirroredBut.leaf (h : MirroredBut P W d s) {v : Option (Nat × Nat)} (hv : vpn2 va ≠ 3)
    (hent : s'.ent = Function.update s.ent (leafSlot d va) v) : MirroredBut P W d s' := by
  have hne : ∀ j k, Slot.pte0 d 3 j k ≠ leafSlot d va := by
    intro j k he
    simp only [leafSlot, Slot.pte0.injEq] at he
    exact hv he.2.1.symm
  constructor
  · intro x t hx hn ht
    obtain ⟨j, k, hself⟩ := hx.self_eq
    have hxl : x ≠ leafSlot d va := by
      rintro rfl
      exact hx.isTable
    rw [tgt, hent, Function.update_of_ne hxl] at ht
    rw [tgt, hent, hself, Function.update_of_ne (hne j k), ← hself]
    exact h.shown x t hx hn ht
  · intro i
    rw [hent, Function.update_of_ne (by simp), Function.update_of_ne (by simp)]
    exact h.windows i
  · intro j k p perm
    rw [hent, Function.update_of_ne (hne j k)]
    exact h.readable j k p perm

/-! ## The calls -/

/-- The self-map of a new table, when its `page_alloc`s succeed. -/
def selfMapped (d : D) (s : Pmap D) (va pa : Nat) : Except Halt (Pmap D) := do
  let r ← s.mapPage d va pa (pteR ||| pteU)
  if r.1 = 0 then .ok r.2 else .error .null

/-- In `alloc_page_user` no `page_alloc` fails, that of a self-map included. -/
def AllocsAll (s : Pmap D) (d : D) (va perm : Nat) : Prop :=
  ∃ s', descend (selfMapped d) (allocLeaf va perm) (replaceLeaf va perm) s d va = .ok (0, s')

/-- In `map_page_user` no `page_alloc` fails, that of a self-map included. -/
def MapsAll (s : Pmap D) (d : D) (va pa perm : Nat) : Prop :=
  ∃ s', descend (selfMapped d) (fun s t0 => .ok (0, mapLeaf va pa perm s t0)) (remapLeaf va pa perm)
    s d va = .ok (0, s')

theorem selfMapped_ok {pa : Nat} (h : selfMapped d s va pa = .ok s') :
    s.mapPage d va pa (pteR ||| pteU) = .ok (0, s') := by
  obtain ⟨⟨r, s₁⟩, hm, h⟩ := Except.bind_ok_iff.mp h
  simp only at h
  split at h
  · rename_i h0
    rw [hm, h0, Except.ok.inj h]
  · cases h

section
variable {self self' : Pmap D → Nat → Nat → Except Halt (Pmap D)}
  {map found : Pmap D → Nat → Except Halt (Reply D)} {r : Int}

omit [DecidableEq D] in
theorem createPte0_mono (hself : ∀ s va pa s', self s va pa = .ok s' → self' s va pa = .ok s')
    {t1 : Nat}
    (h : createPte0 self map s t1 va = .ok (r, s')) :
    createPte0 self' map s t1 va = .ok (r, s') := by
  unfold createPte0 at h ⊢
  split at h
  · exact h
  · obtain ⟨s₁, h₁, h⟩ := Except.bind_ok_iff.mp h
    exact Except.bind_ok_iff.mpr ⟨s₁, hself _ _ _ _ h₁, h⟩

omit [DecidableEq D] in
theorem createPte1_mono (hself : ∀ s va pa s', self s va pa = .ok s' → self' s va pa = .ok s')
    {t2 : Nat}
    (h : createPte1 self map s t2 va = .ok (r, s')) :
    createPte1 self' map s t2 va = .ok (r, s') := by
  unfold createPte1 at h ⊢
  split at h
  · exact h
  · obtain ⟨s₁, h₁, h⟩ := Except.bind_ok_iff.mp h
    exact Except.bind_ok_iff.mpr ⟨s₁, hself _ _ _ _ h₁, createPte0_mono hself h⟩

/-- A self-map that gives more states gives a call that gives more states. -/
theorem descend_mono (hself : ∀ s va pa s', self s va pa = .ok s' → self' s va pa = .ok s')
    (h : descend self map found s d va = .ok (r, s')) :
    descend self' map found s d va = .ok (r, s') := by
  unfold descend at h ⊢
  split at h
  · rename_i hd
    rw [if_pos hd]
    unfold createPte2 at h ⊢
    split at h
    · exact h
    · obtain ⟨s₁, h₁, h⟩ := Except.bind_ok_iff.mp h
      exact Except.bind_ok_iff.mpr ⟨s₁, hself _ _ _ _ h₁, createPte1_mono hself h⟩
  · rename_i hd
    rw [if_neg hd]
    split at h
    · exact createPte1_mono hself h
    · exact createPte0_mono hself h
    · exact h

end

theorem selfMap_of_selfMapped (s : Pmap D) (va pa : Nat) (s' : Pmap D)
    (h : selfMapped d s va pa = .ok s') : selfMap d s va pa = .ok s' :=
  Except.bind_ok_iff.mpr ⟨_, selfMapped_ok h, rfl⟩

end

section
variable {M : Nat → Prop} {P : Slot D → Prop} {W : Vpn → Prop} {s s' : Pmap D} {d : D} {va : Nat}

theorem vpn1_selfVa0_eq : vpn1 (selfVa0 va) = vpn2 va := by
  apply Fin.ext
  rw [vpn1_val, vpn2_val, selfVa0, Nat.shiftRight_eq_div_pow]
  simp only [pageTable]
  omega

theorem vpn0_selfVa0_eq : vpn0 (selfVa0 va) = vpn1 va := by
  apply Fin.ext
  rw [vpn0_val, vpn1_val, selfVa0, Nat.shiftRight_eq_div_pow]
  simp only [pageTable]
  omega

theorem vpn1_selfVa1_eq (hva : va < 2 ^ 39) : vpn1 (selfVa1 va) = 3 := by
  apply Fin.ext
  rw [vpn1_val, selfVa1]
  simp only [Nat.shiftRight_eq_div_pow, pageTable]
  omega

theorem vpn0_selfVa1_eq : vpn0 (selfVa1 va) = vpn2 va := by
  apply Fin.ext
  rw [vpn0_val, vpn2_val, selfVa1]
  simp only [Nat.shiftRight_eq_div_pow, pageTable]
  omega

theorem leafSlot_selfVa0 (d : D) (hva : va < 2 ^ 39) :
    leafSlot d (selfVa0 va) = (Slot.pte1 d (vpn2 va) (vpn1 va)).self := by
  rw [leafSlot, (selfVa0_inWindow hva).vpn2_eq, vpn1_selfVa0_eq, vpn0_selfVa0_eq]
  rfl

theorem leafSlot_selfVa1 (d : D) (hva : va < 2 ^ 39) :
    leafSlot d (selfVa1 va) = (Slot.pte2 d (vpn2 va)).self := by
  rw [leafSlot, (selfVa1_inWindow hva).vpn2_eq, vpn1_selfVa1_eq hva, vpn0_selfVa1_eq]
  rfl

variable [DecidableEq D] [Fintype D] {map found : Pmap D → Nat → Except Halt (Reply D)}

/-- A new table at `c`, and its place in the window. -/
theorem MirroredBut.newTable (h : MirroredBut P W d s) (hs : Consistent M s) {x : Slot D} {t : Nat}
    {i : Vpn} (hx : x.IsTable) (ht : s.tgt x = some t) (hi : ¬ x.leaves i)
    (hc : (x.child i).IsTable) (hnone : s.ent (x.child i) = none) (hroot : s.ent (.root d) ≠ none)
    {q wva : Nat} {s₁ s₂ : Pmap D} {k : Vpn} (ha : s.allocEntry t i 0 = some (q, s₁))
    (hwva : InWindow wva) (hslot : leafSlot d wva = (x.child i).self)
    (hfree : ∀ y, UserTable d y → s.tgt y ≠ none → y.self ≠ (x.child i).self)
    (hmap : selfMapped d s₁ wva (pteAddr q k) = .ok s₂) :
    Consistent M s₂ ∧ s₂.tgt (x.child i) = some q ∧ s₂.ent (.root d) ≠ none ∧
      Frame M (OnPath d wva) s₁ s₂ ∧ s₁.ent = Function.update s.ent (x.child i)
      (some (q, 0 ||| pteV)) ∧
      MirroredBut P (fun j => (W j ∨ x.child i = .pte2 d j) ∧ j ≠ vpn1 wva) d s₂ := by
  obtain ⟨hs₁, hfill⟩ := allocEntry_spec hs hx ht hi hnone (by decide) ha
  have hq : s₁.tgt (x.child i) = some q := by
    rw [tgt, hfill.ent, Function.update_self]
    rfl
  have hroot₁ : s₁.ent (.root d) ≠ none := by
    rwa [hfill.ent, Function.update_of_ne (Slot.root_ne_child hx)]
  have hv : ¬ shared (vpn2 wva) := hwva.not_shared
  obtain ⟨hs₂, hf, -⟩ := selfMap_spec hs₁ hwva ⟨x.child i, hc, by rw [pteAddr_div]; exact hq⟩
    (by rw [pteAddr_div, hfill.ppRef hs hs₁ hnone]) (selfMap_of_selfMapped _ _ _ _ hmap)
  obtain ⟨-, hleaf, -⟩ := mapPage_spec hs₁ hwva.lt hv (selfMapped_ok hmap)
  have hleaf := hleaf rfl
  rw [pteAddr_div] at hleaf
  have hself : ∀ y, UserTable d y → s₁.tgt y ≠ none → y.self = leafSlot d wva →
      s₁.tgt y = some q := by
    intro y hy hlive hyself
    by_cases hyc : y = x.child i
    · rw [hyc]
      exact hq
    · rw [tgt, hfill.ent, Function.update_of_ne hyc] at hlive
      exact absurd (hyself.trans hslot) (hfree y hy hlive)
  have hroot₂ : s₂.ent (.root d) ≠ none := by
    obtain ⟨⟨p, perm⟩, he⟩ := Option.ne_none_iff_exists'.mp hroot₁
    have hroot := hf.table (.root d) p trivial (tgt_eq_some.mpr ⟨perm, he⟩)
    intro h0
    rw [tgt, h0] at hroot
    cases hroot
  refine ⟨hs₂, hf.table _ _ hc hq, hroot₂, hf, hfill.ent,
    ((h.fill hc hnone hfill.ent).show hwva hroot₁ hf hleaf (by decide) hself).mono
    ?_ fun j hj => hj⟩
  rintro y hy - ⟨hP | rfl, hne⟩
  · exact hP
  · exact absurd hslot.symm hne

theorem createPte0_mirrored (h : MirroredBut P W d s) (hs : Consistent M s) (hva : va < 2 ^ 39)
    (hT : ¬ OnPath d (selfVa0 va) (leafSlot d va)) (hroot : s.ent (.root d) ≠ none) {t1 : Nat}
    (ht : s.tgt (.pte2 d (vpn2 va)) = some t1) (hnone : s.ent (.pte1 d (vpn2 va) (vpn1 va)) = none)
    (hfree : ∀ y, UserTable d y → s.tgt y ≠ none → y.self ≠ (Slot.pte1 d (vpn2 va) (vpn1 va)).self)
    (hrun : createPte0 (selfMapped d) map s t1 va = .ok (0, s')) :
    ∃ s₂ t0, Consistent M s₂ ∧ MirroredBut P (fun i => W i ∧ i ≠ vpn2 va) d s₂ ∧
      s₂.ent (.root d) ≠ none ∧ s₂.tgt (.pte1 d (vpn2 va) (vpn1 va)) = some t0 ∧
      s₂.ent (leafSlot d va) = none ∧ map s₂ t0 = .ok (0, s') := by
  unfold createPte0 at hrun
  split at hrun
  · cases hrun
  rename_i t0 s₁ ha
  obtain ⟨s₂, hmap, hrun⟩ := Except.bind_ok_iff.mp hrun
  obtain ⟨hs₂, ht0, hroot₂, hf, hent, hm⟩ := h.newTable hs (x := .pte2 d (vpn2 va)) (i := vpn1 va)
    trivial ht id trivial hnone hroot ha (selfVa0_inWindow hva) (leafSlot_selfVa0 d hva) hfree hmap
  refine ⟨s₂, t0, hs₂, hm.mono (fun _ _ _ hP => hP) ?_, hroot₂, ht0, ?_, hrun⟩
  · rintro j ⟨hj | hj, hne⟩
    · rw [vpn1_selfVa0_eq] at hne
      exact ⟨hj, hne⟩
    · simp [Slot.child] at hj
  · rw [hf.ent_eq _ hT, hent, Function.update_of_ne (by simp [Slot.child])]
    exact leaf_none_of_pte1 hnone

theorem createPte1_mirrored (h : Mirrored d s) (hs : Consistent M s) (hva : va < 2 ^ 39)
    (hv : (vpn2 va).val < 2) (hroot : s.ent (.root d) ≠ none) {t2 : Nat}
    (ht : s.tgt (.root d) = some t2) (hnone : s.ent (.pte2 d (vpn2 va)) = none)
    (hrun : createPte1 (selfMapped d) map s t2 va = .ok (0, s')) :
    ∃ s₂ t0, Consistent M s₂ ∧ Mirrored d s₂ ∧ s₂.ent (.root d) ≠ none ∧
      s₂.tgt (.pte1 d (vpn2 va) (vpn1 va)) = some t0 ∧
      s₂.ent (leafSlot d va) = none ∧ map s₂ t0 = .ok (0, s') := by
  have hpath : ∀ {wva : Nat} {x : Slot D}, InWindow wva → (∃ j, x = .pte1 d (vpn2 va) j) ∨
      (∃ j k, x = .pte0 d (vpn2 va) j k) → ¬ OnPath d wva x := by
    rintro wva x hw (⟨j, rfl⟩ | ⟨j, k, rfl⟩)
    · simp [OnPath, leafSlot, hw.vpn2_eq, vpn_ne_three hv]
    · simp [OnPath, leafSlot, hw.vpn2_eq, vpn_ne_three hv]
  unfold createPte1 at hrun
  split at hrun
  · cases hrun
  rename_i t1 s₁ ha
  obtain ⟨s₂, hmap, hrun⟩ := Except.bind_ok_iff.mp hrun
  have hfree : ∀ y, UserTable d y → s.tgt y ≠ none → y.self ≠ (Slot.pte2 d (vpn2 va)).self := by
    intro y hy hlive hself
    rw [hy.self_inj (.pte2 hv) hself, tgt, hnone] at hlive
    exact hlive rfl
  obtain ⟨hs₂, ht1, hroot₂, hf, hent, hm⟩ := h.newTable hs (x := .root d) (i := vpn2 va)
    trivial ht (not_shared_of_lt hv) trivial hnone hroot ha (selfVa1_inWindow hva)
    (leafSlot_selfVa1 d hva) hfree hmap
  have hnone₂ : s₂.ent (.pte1 d (vpn2 va) (vpn1 va)) = none := by
    rw [hf.ent_eq _ (hpath (selfVa1_inWindow hva) (.inl ⟨_, rfl⟩)), hent,
      Function.update_of_ne (by simp [Slot.child])]
    exact pte1_none_of_pte2 hnone
  have hfree₂ : ∀ y, UserTable d y → s₂.tgt y ≠ none →
      y.self ≠ (Slot.pte1 d (vpn2 va) (vpn1 va)).self := by
    intro y hy hlive hself
    rw [hy.self_inj (.pte1 hv) hself, tgt, hnone₂] at hlive
    exact hlive rfl
  obtain ⟨s₃, t0, hs₃, hm₃, hrest⟩ := createPte0_mirrored hm hs₂ hva
    (hpath (selfVa0_inWindow hva) (.inr ⟨_, _, rfl⟩)) hroot₂ ht1 hnone₂ hfree₂ hrun
  refine ⟨s₃, t0, hs₃, hm₃.mono (fun _ _ _ hP => hP) ?_, hrest⟩
  rintro j ⟨⟨hj | hj, -⟩, hne⟩
  · exact hj
  · -- the half of the new level-1 table got its window table with the level-0 table
    simp only [Slot.child, Slot.pte2.injEq, true_and] at hj
    exact hne hj.symm

/-- User addresses, and those of the window. -/
def UserOrWindow (va : Nat) : Prop := (vpn2 va).val < 2 ∨ vpn2 va = 3

/-- The tables for `va` are there, or made and shown. -/
theorem descend_mirrored (h : Mirrored d s) (hs : Consistent M s) (hva : va < 2 ^ 39)
    (huw : UserOrWindow va) (hd : s.pgdir d ≠ 0)
    (hrun : descend (selfMapped d) map found s d va = .ok (0, s')) :
    (∃ s₂ t0, Consistent M s₂ ∧ Mirrored d s₂ ∧ s₂.ent (.root d) ≠ none ∧
      s₂.tgt (.pte1 d (vpn2 va) (vpn1 va)) = some t0 ∧ s₂.ent (leafSlot d va) = none ∧
      map s₂ t0 = .ok (0, s')) ∨
    ∃ t0, s.tgt (.pte1 d (vpn2 va) (vpn1 va)) = some t0 ∧ found s t0 = .ok (0, s') := by
  have hroot : s.tgt (.root d) = some (s.pgdir d >>> 12) := by simp [tgt, ent, ent.root, hd]
  have hroot' : s.ent (.root d) ≠ none := by simp [ent, ent.root, hd]
  have htop : s.ent (.pte1 d 3 3) ≠ none := by
    intro h0
    have hshown := h.shown (.root d) _ .root id hroot
    rw [tgt, show s.ent (Slot.root d).self = none from
      ent_child_none (x := .pte1 d 3 3) trivial h0 3] at hshown
    cases hshown
  have hshared : ¬ shared (vpn2 va) := by
    rcases huw with hv | hv
    · exact not_shared_of_lt hv
    · rw [hv]
      decide
  rw [descend, if_neg hd] at hrun
  rcases walk_cases s hd hshared with ⟨t2, hw, ht, hn⟩ | ⟨t1, hw, ht, hn⟩ | ⟨t0, hw, ht⟩
  · rw [hw] at hrun
    rcases huw with hv | hv
    · exact .inl (createPte1_mirrored h hs hva hv hroot' ht hn hrun)
    · rw [hv] at hn
      exact absurd (ent_child_none (x := .pte2 d 3) trivial hn 3) htop
  · rw [hw] at hrun
    refine .inl ?_
    rcases huw with hv | hv
    · have hT := (apart_of_ne (d := d) s hva (vpn_ne_three hv)).pte0 hn
      have hfree : ∀ y, UserTable d y → s.tgt y ≠ none →
          y.self ≠ (Slot.pte1 d (vpn2 va) (vpn1 va)).self := by
        intro y hy hlive hself
        rw [hy.self_inj (.pte1 hv) hself, tgt, hn] at hlive
        exact hlive rfl
      obtain ⟨s₂, t0, hs₂, hm, hrest⟩ := createPte0_mirrored h hs hva hT hroot' ht hn hfree hrun
      exact ⟨s₂, t0, hs₂, hm.mono (fun _ _ _ hP => hP) fun _ hW => hW.1, hrest⟩
    · have hT := (apart_of_window (inWindow_of_vpn2 hva hv) htop).pte0 hn
      -- the window shows a table there only if its own table was there already
      have hfree : ∀ y, UserTable d y → s.tgt y ≠ none →
          y.self ≠ (Slot.pte1 d (vpn2 va) (vpn1 va)).self := by
        intro y hy hlive hself
        rw [hv] at hn hself
        cases hy with
        | root =>
          simp only [Slot.self, Slot.pte0.injEq, true_and] at hself
          rw [← hself] at hn
          exact htop hn
        | pte2 hi =>
          simp only [Slot.self, Slot.pte0.injEq, true_and] at hself
          rw [← hself] at hn
          refine h.windows _ hi id (fun h0 => hlive ?_) hn
          rw [tgt, h0]
          rfl
        | pte1 hi =>
          simp only [Slot.self, Slot.pte0.injEq, true_and] at hself
          exact vpn_ne_three hi hself.1
      obtain ⟨s₂, t0, hs₂, hm, hrest⟩ := createPte0_mirrored h hs hva hT hroot' ht hn hfree hrun
      exact ⟨s₂, t0, hs₂, hm.mono (fun _ _ _ hP => hP) fun _ hW => hW.1, hrest⟩
  · rw [hw] at hrun
    exact .inr ⟨t0, ht, hrun⟩

end

end Pmap

end RiscvMos
