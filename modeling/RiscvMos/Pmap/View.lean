import RiscvMos.Pmap.Calls

/-!
The address space a directory stands for: a map from pages to a physical page
and its permission bits. `get_pa`, `get_perm` and `is_mapped_page` read this
map, and a call changes it at its own address.
-/

namespace RiscvMos.Pmap

variable {D : Type}

/-- What the directory maps the page of `va` to. -/
def view (s : Pmap D) (d : D) (va : Nat) : Option (Nat × Nat) := s.ent (leafSlot d va)

section
variable {s : Pmap D} {d : D} {va : Nat}

theorem view_cases (s : Pmap D) (d : D) (hd : s.pgdir d ≠ 0) (hv : ¬ shared (vpn2 va)) :
    (∃ t0, s.walk (s.pgdir d >>> 12) va = .pte0 t0 ∧ s.view d va = entry (s.mem t0 (vpn0 va))) ∨
    ((∀ t0, s.walk (s.pgdir d >>> 12) va ≠ .pte0 t0) ∧ s.view d va = none) := by
  have hleaf : s.ent (.pte1 d (vpn2 va) (vpn1 va)) = none → s.view d va = none :=
    fun h => ent_child_none (x := .pte1 d (vpn2 va) (vpn1 va)) trivial h _
  rcases walk_cases s hd hv with ⟨t2, hw, ht, hn⟩ | ⟨t1, hw, ht, hn⟩ | ⟨t0, hw, ht⟩
  · exact .inr ⟨by simp [hw], hleaf (ent_child_none (x := .pte2 d (vpn2 va)) trivial hn _)⟩
  · exact .inr ⟨by simp [hw], hleaf hn⟩
  · exact .inl ⟨t0, hw, ent_leafSlot ht⟩

theorem pgdir_ne_zero_of_view {e : Nat × Nat} (h : s.view d va = some e) : s.pgdir d ≠ 0 := by
  intro hd
  have hroot : s.ent (.root d) = none := by simp [ent, ent.root, hd]
  have h2 := ent_child_none (x := .root d) trivial hroot (vpn2 va)
  have h1 := ent_child_none (x := .pte2 d (vpn2 va)) trivial h2 (vpn1 va)
  have h0 := ent_child_none (x := .pte1 d (vpn2 va) (vpn1 va)) trivial h1 (vpn0 va)
  rw [view] at h
  exact Option.some_ne_none e (h.symm.trans h0)

theorem getPa_eq (hd : s.pgdir d ≠ 0) (hv : ¬ shared (vpn2 va)) :
    s.getPa d va = ((s.view d va).map fun e => e.1 * 4096 ||| (va &&& pteOffset)).getD noAddr := by
  rw [getPa]
  rcases view_cases s d hd hv with ⟨t0, hw, he⟩ | ⟨hw, he⟩
  · rw [he, hw, entry]
    by_cases hval : valid (s.mem t0 (vpn0 va)) <;> simp [hval, pte2pa_eq]
  · rw [he]
    split
    · rename_i t0 h; exact absurd h (hw t0)
    · rfl

theorem getPerm_eq (hd : s.pgdir d ≠ 0) (hv : ¬ shared (vpn2 va)) :
    s.getPerm d va = ((s.view d va).map Prod.snd).getD noAddr := by
  rw [getPerm]
  rcases view_cases s d hd hv with ⟨t0, hw, he⟩ | ⟨hw, he⟩
  · rw [he, hw, entry]
    by_cases hval : valid (s.mem t0 (vpn0 va)) <;> simp [hval]
  · rw [he]
    split
    · rename_i t0 h; exact absurd h (hw t0)
    · rfl

theorem isMappedPage_eq (hv : ¬ shared (vpn2 va)) : s.isMappedPage d va = (s.view d va).isSome := by
  rw [isMappedPage]
  split
  · rename_i hd
    cases hview : s.view d va with
    | none => rfl
    | some e => exact absurd hd (pgdir_ne_zero_of_view hview)
  rename_i hd
  rcases view_cases s d hd hv with ⟨t0, hw, he⟩ | ⟨hw, he⟩
  · rw [he, hw, entry]
    by_cases hval : valid (s.mem t0 (vpn0 va)) <;> simp [hval]
  · rw [he]
    split
    · rename_i t0 h; exact absurd h (hw t0)
    · rfl

theorem page_or_offset (p va : Nat) : p * 4096 ||| (va &&& pteOffset) = p * 4096 + va % 4096 := by
  have hm : va &&& pteOffset = va % 2 ^ 12 := Nat.and_two_pow_sub_one_eq_mod va 12
  have hlt : va % 2 ^ 12 < 2 ^ 12 := Nat.mod_lt _ (by decide)
  have := Nat.shiftLeft_add_eq_or_of_lt hlt p
  rw [Nat.shiftLeft_eq] at this
  rw [hm]
  exact this.symm

theorem getPa_of_view {p perm : Nat} (hv : ¬ shared (vpn2 va)) (h : s.view d va = some (p, perm)) :
    s.getPa d va = p * 4096 + va % 4096 := by
  rw [getPa_eq (pgdir_ne_zero_of_view h) hv, h, Option.map_some, Option.getD_some, page_or_offset]

theorem getPerm_of_view {p perm : Nat} (hv : ¬ shared (vpn2 va))
    (h : s.view d va = some (p, perm)) : s.getPerm d va = perm := by
  rw [getPerm_eq (pgdir_ne_zero_of_view h) hv, h]
  rfl

/-- A mapped page, by what the three functions say of it. -/
theorem view_of_isMappedPage (hv : ¬ shared (vpn2 va)) (h : s.isMappedPage d va = true) :
    ∃ perm, s.view d va = some (s.getPa d va / 4096, perm) := by
  rw [isMappedPage_eq hv, Option.isSome_iff_exists] at h
  obtain ⟨⟨p, perm⟩, he⟩ := h
  refine ⟨perm, ?_⟩
  rw [he, getPa_of_view hv he]
  congr 2
  omega

theorem vpn2_lt_of_user (hva : va < ulim) : (vpn2 va).val < 2 := by
  rw [vpn2_val]
  simp only [ulim] at hva
  omega

theorem not_shared_of_lt {i : Vpn} (hi : i.val < 2) : ¬ shared i := by
  rintro (h | h) <;> rw [h] at hi <;> revert hi <;> decide

theorem not_shared_of_user (hva : va < ulim) : ¬ shared (vpn2 va) :=
  not_shared_of_lt (vpn2_lt_of_user hva)

theorem vpn2_ne_three_of_user (hva : va < ulim) : vpn2 va ≠ 3 := by
  intro h
  have := vpn2_lt_of_user hva
  rw [h] at this
  revert this
  decide

theorem leafSlot_inj {d d' : D} {va va' : Nat} (hva : va < 2 ^ 39) (hva' : va' < 2 ^ 39)
    (h : leafSlot d va = leafSlot d' va') : d = d' ∧ va / 4096 = va' / 4096 := by
  simp only [leafSlot, Slot.pte0.injEq, Fin.ext_iff, vpn0_val, vpn1_val, vpn2_val] at h
  obtain ⟨hd, h2, h1, h0⟩ := h
  exact ⟨hd, by omega⟩

end

/-- Every page below `ULIM` but the one of `va` in `d` is mapped as before, as
far as the three functions tell. -/
def SameElsewhere (d : D) (va : Nat) (s s' : Pmap D) : Prop :=
  ∀ d' va', va' < ulim → d' ≠ d ∨ va' / 4096 ≠ va / 4096 →
    s'.isMappedPage d' va' = s.isMappedPage d' va' ∧
    (s.pgdir d' ≠ 0 → s'.getPa d' va' = s.getPa d' va' ∧ s'.getPerm d' va' = s.getPerm d' va')

section
variable {M : Nat → Prop} {s s' : Pmap D} {d : D} {va : Nat}

theorem sameElsewhere_of_frame {C : Slot D → Prop} (h : Frame M C s s')
    (hC : ∀ d' va', va' < ulim → d' ≠ d ∨ va' / 4096 ≠ va / 4096 → ¬ C (leafSlot d' va')) :
    SameElsewhere d va s s' := by
  intro d' va' hva' hne
  have hv := not_shared_of_user hva'
  have hview : s'.view d' va' = s.view d' va' := h.ent_eq _ (hC d' va' hva' hne)
  refine ⟨by rw [isMappedPage_eq hv, isMappedPage_eq hv, hview], fun hd => ?_⟩
  have hd' : s'.pgdir d' ≠ 0 := by
    intro h0
    have hroot : s.tgt (.root d') = some (s.pgdir d' >>> 12) := by simp [tgt, ent, ent.root, hd]
    have := h.table (.root d') _ trivial hroot
    simp [tgt, ent, ent.root, h0] at this
  rw [getPa_eq hd hv, getPa_eq hd' hv, getPerm_eq hd hv, getPerm_eq hd' hv, hview]
  exact ⟨rfl, rfl⟩

/-- The slots of other user pages are neither on the way to `va` nor in the window. -/
theorem not_touched_of_user {d' : D} {va' : Nat} (hva : va < 2 ^ 39) (hva' : va' < ulim)
    (hne : leafSlot d' va' ≠ leafSlot d va) : ¬ Touched (OnPath d) d va (leafSlot d' va') := by
  rintro (h | h)
  · simp only [OnPath, reduceCtorEq, false_or] at h
    exact hne h
  · have := selfTouched_window hva h
    simp [InWindowSlot, vpn2_ne_three_of_user hva'] at this

/-- No user page is a page table. -/
def UserApart (s : Pmap D) : Prop :=
  ∀ d va, va < ulim → ∀ p, s.tgt (leafSlot d va) = some p → ¬ s.TablePage p

theorem UserApart.of_ent (hu : s.UserApart) (h : s'.ent = s.ent) : s'.UserApart := by
  intro d va hva p hp
  simp only [TablePage, tgt_eq_of_ent h] at hp ⊢
  exact hu d va hva p hp

/-- A call for `va` keeps user pages apart from the tables if the page it
leaves there is no table. -/
theorem UserApart.leaf (hu : s.UserApart) (hva : va < 2 ^ 39)
    (hf : Frame M (Touched (OnPath d) d va) s s')
    (hleaf : ∀ p, (vpn2 va).val < 2 → s'.tgt (leafSlot d va) = some p → ¬ s'.TablePage p) :
    s'.UserApart := by
  intro d' va' hva' p hp
  by_cases hslot : leafSlot d' va' = leafSlot d va
  · have hv : vpn2 va' = vpn2 va := by
      simp only [leafSlot, Slot.pte0.injEq] at hslot
      exact hslot.2.1
    rw [hslot] at hp
    exact hleaf p (hv ▸ vpn2_lt_of_user hva') hp
  · have hC := not_touched_of_user hva hva' hslot
    rw [hf.tgt_eq hC] at hp
    exact (hf.data _ p hC hp (hu d' va' hva' p hp)).2

variable [DecidableEq D] [Fintype D]

theorem allocPageUser_userApart (hs : Consistent M s) (hva : va < 2 ^ 39)
    (hv : ¬ shared (vpn2 va)) (hT : Apart (OnPath d) d va s) {perm : Nat} (hu : s.UserApart)
    (h : s.allocPageUser d va perm = .ok (0, s')) : s'.UserApart := by
  obtain ⟨-, hf, -, q, -, he, -, hafter, -⟩ := allocPageUser_spec hs hva hv hT h
  apply hu.leaf hva hf
  intro p _ hp
  rw [tgt, he, Option.map_some, Option.some_inj] at hp
  subst hp
  rintro ⟨y, hy, hyq⟩
  exact hafter y (by rintro rfl; exact hy) hyq

end

end RiscvMos.Pmap
