import RiscvMos.Pmap.Supply
import RiscvMos.Pmap.SelfMap

/-!
At most how many free pages a call takes, whatever is mapped, and that it gets on when
there are so many.
-/

namespace RiscvMos.Pmap

variable {D : Type} {s s' : Pmap D} {n a b : Nat}

/-- From `s` the call takes at most `n` pages, and returns 0 if there are so many. -/
def Spends (n : Nat) (s : Pmap D) (x : Except Halt (Reply D)) : Prop :=
  ∀ r s', x = .ok (r, s') → s.pageFreeList.length ≤ s'.pageFreeList.length + n ∧
    (n ≤ s.pageFreeList.length → r = 0)

/-- A self-map takes at most `a` pages. -/
def Costs (a : Nat) (self : Pmap D → Nat → Nat → Except Halt (Pmap D)) : Prop :=
  ∀ s va pa s', self s va pa = .ok s' → s.pageFreeList.length ≤ s'.pageFreeList.length + a

theorem Spends.mono {x : Except Halt (Reply D)} (h : Spends a s x) (le : a ≤ b) : Spends b s x := by
  intro r s' out
  obtain ⟨taken, enough⟩ := h r s' out
  exact ⟨by omega, fun many => enough (le.trans many)⟩

/-- A step before the call that takes at most `a` pages. -/
theorem Spends.after {x : Except Halt (Reply D)} (h : Spends b s' x)
    (before : s.pageFreeList.length ≤ s'.pageFreeList.length + a) : Spends (a + b) s x := by
  intro r t out
  obtain ⟨taken, enough⟩ := h r t out
  exact ⟨by omega, fun many => enough (by omega)⟩

theorem allocEntry_length {t : Nat} {i : Vpn} {perm q : Nat}
    (h : s.allocEntry t i perm = some (q, s')) :
    s.pageFreeList.length = s'.pageFreeList.length + 1 := by
  cases list : s.pageFreeList with
  | nil => cases (allocEntry_nil t i perm list).symm.trans h
  | cons p rest =>
    obtain ⟨s₁, alloc, free⟩ := allocEntry_cons t i perm list
    obtain ⟨-, rfl⟩ := Prod.mk.inj (Option.some.inj (alloc.symm.trans h))
    rw [free, List.length_cons]

theorem allocEntry_none {t : Nat} {i : Vpn} {perm : Nat} (h : s.allocEntry t i perm = none) :
    s.pageFreeList.length = 0 := by
  cases list : s.pageFreeList with
  | nil => rfl
  | cons p rest =>
    obtain ⟨s₁, alloc, -⟩ := allocEntry_cons t i perm list
    cases h.symm.trans alloc

theorem clearRef_length {p : Nat} (h : s.clearRef p = .ok s') :
    s.pageFreeList.length ≤ s'.pageFreeList.length := by
  unfold clearRef at h
  split at h
  · obtain rfl := Except.ok.inj h
    split
    · exact Nat.le_succ _
    · exact Nat.le_refl _
  · cases h

/-! ## The last level -/

theorem allocLeaf_spends (va perm : Nat) (s : Pmap D) (t0 : Nat) :
    Spends 1 s (allocLeaf va perm s t0) := by
  intro r s' out
  unfold allocLeaf at out
  split at out
  · rename_i failed
    obtain ⟨-, rfl⟩ := Prod.mk.inj (Except.ok.inj out)
    exact ⟨Nat.le_succ _, fun many => absurd (allocEntry_none failed) (by omega)⟩
  · rename_i q s₁ alloc
    obtain ⟨rfl, rfl⟩ := Prod.mk.inj (Except.ok.inj out)
    exact ⟨(allocEntry_length alloc).le, fun _ => rfl⟩

theorem replaceLeaf_spends (va perm : Nat) (s : Pmap D) (t0 : Nat) :
    Spends 1 s (replaceLeaf va perm s t0) := by
  intro r s' out
  unfold replaceLeaf at out
  dsimp only at out
  split at out
  · obtain ⟨s₁, clear, out⟩ := Except.bind_ok_iff.mp out
    exact (allocLeaf_spends va perm s₁ t0).after (a := 0) (clearRef_length clear) r s' out
  · exact allocLeaf_spends va perm s t0 r s' out

theorem mapAt_spends (va pa perm : Nat) (s : Pmap D) (t0 : Nat) :
    Spends 0 s (mapAt va pa perm s t0) := by
  intro r s' out
  obtain ⟨rfl, rfl⟩ := Prod.mk.inj (Except.ok.inj out)
  exact ⟨(congrArg List.length (mapLeaf_free va pa perm s t0)).ge, fun _ => rfl⟩

theorem remapLeaf_spends (va pa perm : Nat) (s : Pmap D) (t0 : Nat) :
    Spends 0 s (remapLeaf va pa perm s t0) := by
  intro r s' out
  unfold remapLeaf at out
  dsimp only at out
  split at out
  · split at out
    · obtain ⟨rfl, rfl⟩ := Prod.mk.inj (Except.ok.inj out)
      exact ⟨Nat.le_refl _, fun _ => rfl⟩
    · obtain ⟨s₁, clear, out⟩ := Except.bind_ok_iff.mp out
      exact (mapAt_spends va pa perm s₁ t0).after (a := 0) (clearRef_length clear) r s' out
  · exact mapAt_spends va pa perm s t0 r s' out

/-! ## The descent -/

section
variable {self self' : Pmap D → Nat → Nat → Except Halt (Pmap D)}
  {map found : Pmap D → Nat → Except Halt (Reply D)} {d : D} {va : Nat} {r : Int}

theorem createPte0_spends (costs : Costs a self) (last : ∀ s t0, Spends b s (map s t0))
    (t1 : Nat) : Spends (1 + a + b) s (createPte0 self map s t1 va) := by
  intro r s' out
  unfold createPte0 at out
  split at out
  · rename_i failed
    obtain ⟨-, rfl⟩ := Prod.mk.inj (Except.ok.inj out)
    exact ⟨Nat.le_add_right _ _, fun many => absurd (allocEntry_none failed) (by omega)⟩
  · rename_i t0 s₁ alloc
    obtain ⟨s₂, shown, out⟩ := Except.bind_ok_iff.mp out
    have taken := allocEntry_length alloc
    have cost := costs _ _ _ _ shown
    exact (last s₂ t0).after (a := 1 + a) (by omega) r s' out

theorem createPte1_spends (costs : Costs a self) (last : ∀ s t0, Spends b s (map s t0))
    (t2 : Nat) : Spends (1 + a + (1 + a + b)) s (createPte1 self map s t2 va) := by
  intro r s' out
  unfold createPte1 at out
  split at out
  · rename_i failed
    obtain ⟨-, rfl⟩ := Prod.mk.inj (Except.ok.inj out)
    exact ⟨Nat.le_add_right _ _, fun many => absurd (allocEntry_none failed) (by omega)⟩
  · rename_i t1 s₁ alloc
    obtain ⟨s₂, shown, out⟩ := Except.bind_ok_iff.mp out
    have taken := allocEntry_length alloc
    have cost := costs _ _ _ _ shown
    exact (createPte0_spends costs last t1).after (a := 1 + a) (by omega) r s' out

theorem pageAlloc_length {q : Nat} (h : s.pageAlloc = some (q, s')) :
    s.pageFreeList.length = s'.pageFreeList.length + 1 := by
  obtain ⟨rest, list, rfl⟩ := pageAlloc_eq_some h
  rw [list, List.length_cons]

theorem pageAlloc_none (h : s.pageAlloc = none) : s.pageFreeList.length = 0 := by
  unfold pageAlloc at h
  split at h
  · rename_i list
    rw [list]
    rfl
  · cases h

variable [DecidableEq D]

theorem createPte2_spends (costs : Costs a self) (last : ∀ s t0, Spends b s (map s t0)) :
    Spends (1 + a + (1 + a + (1 + a + b))) s (createPte2 self map s d va) := by
  intro r s' out
  unfold createPte2 at out
  split at out
  · rename_i failed
    obtain ⟨-, rfl⟩ := Prod.mk.inj (Except.ok.inj out)
    exact ⟨Nat.le_add_right _ _, fun many => absurd (pageAlloc_none failed) (by omega)⟩
  · rename_i pp s₁ alloc
    obtain ⟨s₂, shown, out⟩ := Except.bind_ok_iff.mp out
    have taken := pageAlloc_length alloc
    have cost := costs _ _ _ _ shown
    have before : s.pageFreeList.length ≤ s₂.pageFreeList.length + (1 + a) := by
      simp only [incRef, setPgdir] at cost
      omega
    exact (createPte1_spends costs last pp).after before r s' out

theorem descend_spends_live (costs : Costs a self) (last : ∀ s t0, Spends b s (map s t0))
    (there : ∀ s t0, Spends b s (found s t0)) (live : s.pgdir d ≠ 0) :
    Spends (2 * (1 + a) + b) s (descend self map found s d va) := by
  unfold descend
  rw [if_neg live]
  split
  · exact (createPte1_spends costs last _).mono (by omega)
  · exact (createPte0_spends costs last _).mono (by omega)
  · exact (there s _).mono (by omega)

theorem descend_spends (costs : Costs a self) (last : ∀ s t0, Spends b s (map s t0))
    (there : ∀ s t0, Spends b s (found s t0)) :
    Spends (3 * (1 + a) + b) s (descend self map found s d va) := by
  by_cases live : s.pgdir d = 0
  · unfold descend
    rw [if_pos live]
    exact (createPte2_spends costs last).mono (by omega)
  · exact (descend_spends_live costs last there live).mono (by omega)

theorem mapPage_spends (pa perm : Nat) : Spends 3 s (s.mapPage d va pa perm) := by
  unfold mapPage
  split
  · intro r s' out
    cases out
  split
  · intro r s' out
    cases out
  have free : Costs 0 (noSelf (D := D)) := by
    intro s va pa s' out
    obtain rfl := Except.ok.inj out
    exact Nat.le_refl _
  exact descend_spends free (mapAt_spends va pa perm) (remapLeaf_spends va pa perm)

theorem selfMap_costs : Costs 3 (selfMap d) := by
  intro s va pa s' out
  obtain ⟨⟨r, s₁⟩, mapped, out⟩ := Except.bind_ok_iff.mp out
  obtain rfl := Except.ok.inj out
  exact (mapPage_spends pa (pteR ||| pteU) r s₁ mapped).1

theorem allocPageUser_spends (perm : Nat) (live : s.pgdir d ≠ 0) :
    Spends 9 s (s.allocPageUser d va perm) := by
  unfold allocPageUser
  split
  · intro r s' out
    cases out
  exact descend_spends_live selfMap_costs (allocLeaf_spends va perm) (replaceLeaf_spends va perm)
    live

/-! ## Enough pages -/

omit [DecidableEq D] in
theorem createPte0_plenty
    (same : ∀ s va pa s', a ≤ s.pageFreeList.length → self s va pa = .ok s' →
      self' s va pa = .ok s') {t1 : Nat} (many : 1 + a ≤ s.pageFreeList.length)
    (out : createPte0 self map s t1 va = .ok (r, s')) :
    createPte0 self' map s t1 va = .ok (r, s') := by
  unfold createPte0 at out ⊢
  split at out
  · rename_i failed
    exact absurd (allocEntry_none failed) (by omega)
  · rename_i t0 s₁ alloc
    obtain ⟨s₂, shown, out⟩ := Except.bind_ok_iff.mp out
    have taken := allocEntry_length alloc
    exact Except.bind_ok_iff.mpr ⟨s₂, same _ _ _ _ (by omega) shown, out⟩

omit [DecidableEq D] in
theorem createPte1_plenty (costs : Costs a self)
    (same : ∀ s va pa s', a ≤ s.pageFreeList.length → self s va pa = .ok s' →
      self' s va pa = .ok s') {t2 : Nat} (many : 1 + a + (1 + a) ≤ s.pageFreeList.length)
    (out : createPte1 self map s t2 va = .ok (r, s')) :
    createPte1 self' map s t2 va = .ok (r, s') := by
  unfold createPte1 at out ⊢
  split at out
  · rename_i failed
    exact absurd (allocEntry_none failed) (by omega)
  · rename_i t1 s₁ alloc
    obtain ⟨s₂, shown, out⟩ := Except.bind_ok_iff.mp out
    have taken := allocEntry_length alloc
    have cost := costs _ _ _ _ shown
    exact Except.bind_ok_iff.mpr ⟨s₂, same _ _ _ _ (by omega) shown,
      createPte0_plenty same (by omega) out⟩

/-- A self-map that agrees where there are the pages that it takes gives the same call. -/
theorem descend_plenty (costs : Costs a self)
    (same : ∀ s va pa s', a ≤ s.pageFreeList.length → self s va pa = .ok s' →
      self' s va pa = .ok s') (live : s.pgdir d ≠ 0) (many : 2 * (1 + a) ≤ s.pageFreeList.length)
    (out : descend self map found s d va = .ok (r, s')) :
    descend self' map found s d va = .ok (r, s') := by
  unfold descend at out ⊢
  rw [if_neg live] at out ⊢
  split at out
  · exact createPte1_plenty costs same (by omega) out
  · exact createPte0_plenty same (by omega) out
  · exact out

theorem selfMapped_plenty (s : Pmap D) (va pa : Nat) (s' : Pmap D)
    (many : 3 ≤ s.pageFreeList.length) (out : selfMap d s va pa = .ok s') :
    selfMapped d s va pa = .ok s' := by
  obtain ⟨⟨r, s₁⟩, mapped, out⟩ := Except.bind_ok_iff.mp out
  obtain rfl := Except.ok.inj out
  obtain rfl := (mapPage_spends pa (pteR ||| pteU) r s₁ mapped).2 many
  exact Except.bind_ok_iff.mpr ⟨_, mapped, rfl⟩

/-- With 9 pages a call that returns has them all. -/
theorem allocPageUser_plenty {perm : Nat} (live : s.pgdir d ≠ 0)
    (many : 9 ≤ s.pageFreeList.length) (out : s.allocPageUser d va perm = .ok (r, s')) :
    r = 0 ∧ s.AllocsAll d va perm ∧ s.pageFreeList.length ≤ s'.pageFreeList.length + 9 := by
  obtain ⟨taken, enough⟩ := allocPageUser_spends perm live r s' out
  obtain rfl := enough many
  unfold allocPageUser at out
  split at out
  · cases out
  exact ⟨rfl, ⟨s', descend_plenty selfMap_costs selfMapped_plenty live (by omega) out⟩, taken⟩

end

end RiscvMos.Pmap
