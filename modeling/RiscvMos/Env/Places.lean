import RiscvMos.Env.Translation
import RiscvMos.Pmap.Guard
import RiscvMos.Lib.CopyOnWrite

/-!
The user pages of all directories as slots: page `v` of directory `d` is at a
physical page, with its permission, and shows what that page holds. `Moves` is
what a call does to one of them, while the others show what they did.
-/

namespace RiscvMos.Pmap

variable {D : Type}

/-- A user page: a directory and a page number. -/
abbrev Place (D : Type) := D × Nat

def placeOf (d : D) (va : Nat) : Place D := (d, va / 4096)

/-- Where a user page is, and its permission. -/
def place (s : Pmap D) (x : Place D) : Option (Nat × Nat) :=
  if x.2 < ulim / 4096 then s.view x.1 (4096 * x.2) else none

/-- The user page `x` is at `v` now, and the others are and show what they did. -/
structure Moves (s s' : Pmap D) (x : Place D) (v : Option (Nat × Nat)) : Prop where
  here : s'.place x = v
  off : ∀ y, y ≠ x → s'.place y = s.place y
  data : ∀ y p perm, y ≠ x → s.place y = some (p, perm) → s'.mem p = s.mem p
  roots : ∀ d, s.pgdir d = 0 → s'.pgdir d = 0

/-- The user pages are and show what they did. -/
structure Stays (s s' : Pmap D) : Prop where
  place : ∀ x, s'.place x = s.place x
  data : ∀ x p perm, s.place x = some (p, perm) → s'.mem p = s.mem p
  roots : ∀ d, s.pgdir d = 0 → s'.pgdir d = 0

theorem Stays.refl (s : Pmap D) : Stays s s := ⟨fun _ => rfl, fun _ _ _ _ => rfl, fun _ h => h⟩

theorem Stays.trans {s s₁ s' : Pmap D} (h : Stays s s₁) (h' : Stays s₁ s') : Stays s s' := by
  refine ⟨fun x => (h'.place x).trans (h.place x), fun x p perm hx => ?_,
    fun d hd => h'.roots d (h.roots d hd)⟩
  rw [h'.data x p perm ((h.place x).trans hx), h.data x p perm hx]

theorem Stays.moves {s s' : Pmap D} (h : Stays s s') (x : Place D) : Moves s s' x (s.place x) :=
  ⟨h.place x, fun y _ => h.place y, fun y p perm _ here => h.data y p perm here, h.roots⟩

theorem Moves.stays {s s' : Pmap D} {x : Place D} {v : Option (Nat × Nat)} (h : Moves s s' x v)
    (same : s.place x = v) (data : ∀ p perm, s.place x = some (p, perm) → s'.mem p = s.mem p) :
    Stays s s' := by
  refine ⟨fun y => ?_, fun y p perm here => ?_, h.roots⟩
  · by_cases eq : y = x
    · rw [eq, h.here, same]
    · exact h.off y eq
  · by_cases eq : y = x
    · rw [eq] at here
      exact data p perm here
    · exact h.data y p perm eq here

section
variable {s s' : Pmap D} {d d' : D} {va va' p perm : Nat}

theorem place_lt {x : Place D} (h : s.place x = some (p, perm)) : x.2 < ulim / 4096 := by
  unfold place at h
  split at h
  · assumption
  · cases h

theorem place_of_view (hva : va < ulim) : s.place (placeOf d va) = s.view d va := by
  have small : va / 4096 < ulim / 4096 := by
    unfold ulim at hva ⊢
    omega
  have page : 4096 * (va / 4096) / 4096 = va / 4096 := Nat.mul_div_cancel_left _ (by decide)
  obtain ⟨same2, same1, same0⟩ := vpn_page page
  unfold place placeOf
  rw [if_pos small]
  unfold view leafSlot
  rw [same2, same1, same0]

/-- A place is its first address. -/
theorem place_view {x : Place D} (hx : x.2 < ulim / 4096) :
    4096 * x.2 < ulim ∧ placeOf x.1 (4096 * x.2) = x := by
  refine ⟨?_, Prod.ext rfl (Nat.mul_div_cancel_left _ (by decide))⟩
  unfold ulim at hx ⊢
  omega

theorem place_beyond {x : Place D} (hx : ¬ x.2 < ulim / 4096) : s.place x = none := by
  unfold place
  rw [if_neg hx]

theorem place_of_pgdir (zero : s.pgdir d = 0) (v : Nat) : s.place (d, v) = none := by
  by_cases low : v < ulim / 4096
  · unfold place view
    rw [if_pos low]
    exact ent_none_of_pgdir _ zero
  · exact place_beyond low

/-- The places are slots of the page tables. -/
theorem leafSlot_ne {x : Place D} (hx : x.2 < ulim / 4096) (hva : va < ulim)
    (off : x ≠ placeOf d va) : leafSlot x.1 (4096 * x.2) ≠ leafSlot d va := by
  obtain ⟨small, eq⟩ := place_view hx
  intro same
  obtain ⟨rfl, page⟩ :=
    leafSlot_inj (small.trans (by decide)) (hva.trans (by decide)) same
  apply off
  rw [← eq]
  exact Prod.ext rfl page

theorem tgt_of_place {x : Place D} (h : s.place x = some (p, perm)) :
    s.tgt (leafSlot x.1 (4096 * x.2)) = some p := by
  have small := place_lt h
  unfold place at h
  rw [if_pos small] at h
  exact tgt_eq_some.mpr ⟨perm, h⟩

theorem UserApart.place (hu : s.UserApart) {x : Place D} (h : s.place x = some (p, perm)) :
    ¬ s.TablePage p :=
  hu x.1 _ (place_view (place_lt h)).1 p (tgt_of_place h)

/-- A call that keeps the slots of all user pages. -/
theorem Frame.places {M : Nat → Prop} {C : Slot D → Prop} (hu : s.UserApart) (hf : Frame M C s s')
    (hC : ∀ d va, va < ulim → ¬ C (leafSlot d va)) :
    (∀ x, s'.place x = s.place x) ∧
      ∀ x p perm, s.place x = some (p, perm) → s'.mem p = s.mem p := by
  refine ⟨fun x => ?_, fun x p perm here => ?_⟩
  · by_cases hx : x.2 < ulim / 4096
    · unfold Pmap.place
      rw [if_pos hx, if_pos hx]
      exact hf.ent_eq _ (hC _ _ (place_view hx).1)
    · rw [place_beyond hx, place_beyond hx]
  · exact (hf.data _ p (hC _ _ (place_view (place_lt here)).1) (tgt_of_place here)
      (hu.place here)).1

/-- A call that keeps the slots of the other user pages. -/
theorem Moves.of_frame {M : Nat → Prop} {C : Slot D → Prop} (hu : s.UserApart) (hva : va < ulim)
    (hf : Frame M C s s') (roots : ∀ d, s.pgdir d = 0 → s'.pgdir d = 0)
    (hC : ∀ d' va', va' < ulim → leafSlot d' va' ≠ leafSlot d va → ¬ C (leafSlot d' va')) :
    Moves s s' (placeOf d va) (s'.view d va) := by
  refine ⟨place_of_view hva, fun y off => ?_, fun y p perm off here => ?_, roots⟩
  · by_cases hy : y.2 < ulim / 4096
    · unfold Pmap.place
      rw [if_pos hy, if_pos hy]
      exact hf.ent_eq _ (hC _ _ (place_view hy).1 (leafSlot_ne hy hva off))
    · rw [place_beyond hy, place_beyond hy]
  · have hy := place_lt here
    exact (hf.data _ p (hC _ _ (place_view hy).1 (leafSlot_ne hy hva off)) (tgt_of_place here)
      (hu.place here)).1

theorem Moves.of_touched {M : Nat → Prop} (hu : s.UserApart) (hva : va < ulim)
    (hd : s.pgdir d ≠ 0) (hf : Frame M (Touched (OnPath d) d va) s s') :
    Moves s s' (placeOf d va) (s'.view d va) := by
  have hlt : va < 2 ^ 39 := hva.trans (by decide)
  have roots := sameRoots_of_frame hf fun d' hd' => by
    rw [touched_root hlt hd']
    exact hd
  exact .of_frame hu hva hf (fun d' zero => (roots d').1.mpr zero) fun _ _ hva' ne =>
    not_touched_of_user hlt hva' ne

theorem Moves.of_stored [DecidableEq D] {M : Nat → Prop} {v : Option (Nat × Nat)}
    (hu : s.UserApart) (hva : va < ulim) (h : Stored M d va v s s') :
    Moves s s' (placeOf d va) v := by
  have moves := Moves.of_frame hu hva h.frame (fun d' zero => by rw [h.pgdir, zero])
    fun _ _ _ ne => ne
  have here : s'.view d va = v := by
    rw [view, h.ent, Function.update_self]
  rwa [here] at moves

/-- A store that keeps the slots, and the pages behind them. -/
theorem Stays.of_ent (hent : s'.ent = s.ent) (roots : s'.pgdir = s.pgdir)
    (data : ∀ x p perm, s.place x = some (p, perm) → s'.mem p = s.mem p) : Stays s s' := by
  refine ⟨fun x => ?_, data, fun d zero => by rw [roots, zero]⟩
  unfold Pmap.place view
  rw [hent]

/-- A store to a page that is no table. -/
theorem writePage_place (hp : ¬ s.TablePage p) (f : Vpn → Nat) (x : Place D) :
    (s.writePage p f).place x = s.place x := by
  unfold place view
  rw [writePage_ent hp]

variable [DecidableEq D] [Fintype D] {M : Nat → Prop} {pa : Nat} {r : Int}

omit [DecidableEq D] in
/-- A store to a shared root entry. -/
theorem Stays.setShared (hs : Consistent M s) (hu : s.UserApart) (hd : s.pgdir d ≠ 0) {i : Vpn}
    (hi : shared i) (w : Nat) : Stays s (s.setPte (s.pgdir d >>> 12) i w) := by
  refine .of_ent (ent_setShared hs.distinct hd hi w) rfl fun x p perm here => ?_
  apply setPte_mem_of_ne
  rintro rfl
  exact hu.place here ⟨.root d, trivial, by simp [tgt, ent, ent.root, hd]⟩

/-- The new page is zero, and at no other place. -/
theorem allocPageUser_moves (hs : Consistent M s) (hu : s.UserApart) (hva : va < ulim)
    (hd : s.pgdir d ≠ 0) (h : s.allocPageUser d va perm = .ok (0, s')) :
    ∃ q, Moves s s' (placeOf d va) (some (q, perm ||| pteV)) ∧ s'.mem q = (fun _ => 0) ∧
      ∀ y a, y ≠ placeOf d va → s.place y ≠ some (q, a) := by
  have hlt : va < 2 ^ 39 := hva.trans (by decide)
  obtain ⟨-, hf, -, q, -, hent, zero, fresh, -⟩ := allocPageUser_spec hs hlt
    (not_shared_of_user hva) (apart_of_ne s hlt (vpn2_ne_three_of_user hva)) h
  have moves := Moves.of_touched hu hva hd hf
  have here : s'.view d va = some (q, perm ||| pteV) := hent
  rw [here] at moves
  refine ⟨q, moves, zero, fun y a off there => ?_⟩
  rw [← moves.off y off] at there
  exact fresh _ (leafSlot_ne (place_lt there) hva off) (tgt_of_place there)

/-- An allocation that fails, where nothing was mapped. -/
theorem allocPageUser_stays (hs : Consistent M s) (hu : s.UserApart) (hva : va < ulim)
    (hd : s.pgdir d ≠ 0) (unmapped : s.view d va = none)
    (h : s.allocPageUser d va perm = .ok (r, s')) (hr : r ≠ 0) :
    Stays s s' := by
  have hlt : va < 2 ^ 39 := hva.trans (by decide)
  obtain ⟨-, hf, -, none_⟩ := allocPageUser_fail hs hlt (not_shared_of_user hva)
    (apart_of_ne s hlt (vpn2_ne_three_of_user hva)) unmapped h hr
  have moves := Moves.of_touched hu hva hd hf
  have here : s.place (placeOf d va) = none := by rw [place_of_view hva, unmapped]
  refine moves.stays (here.trans none_.symm) fun p a there => ?_
  rw [here] at there
  cases there

omit [Fintype D] in
/-- A page that is mapped again where it is only gets another permission. -/
theorem mapPageUser_remap (hu : s.UserApart) (hva : va < ulim) {perm₀ : Nat}
    (here : s.view d va = some (pa / 4096, perm₀))
    (h : s.mapPageUser d va pa perm = .ok (r, s')) : s'.mem (pa / 4096) = s.mem (pa / 4096) := by
  have hd := pgdir_ne_zero_of_view here
  have hv := not_shared_of_user hva
  have apart : ¬ s.TablePage (pa / 4096) := hu d va hva _ (tgt_eq_some.mpr ⟨perm₀, here⟩)
  unfold mapPageUser at h
  split at h
  · cases h
  split at h
  · cases h
  rename_i hpa
  have hlt := lt_of_mappablePa (not_not.mp hpa)
  rw [descend, if_neg hd] at h
  rcases walk_cases s hd hv with ⟨t2, -, -, hn⟩ | ⟨t1, -, -, hn⟩ | ⟨t0, hw, ht⟩
  · rw [view, leaf_none_of_pte1 (pte1_none_of_pte2 hn)] at here
    cases here
  · rw [view, leaf_none_of_pte1 hn] at here
    cases here
  · rw [hw] at h
    have leaf := ent_leafSlot ht
    rw [view, leaf, entry] at here
    split at here
    · rename_i hv0
      have page : ptePage (s.mem t0 (vpn0 va)) = pa / 4096 :=
        (Prod.mk.inj (Option.some.inj here)).1
      have same : pte2pa (s.mem t0 (vpn0 va)) = pte2pa (pa2pte pa) := by
        rw [pte2pa_eq, pte2pa_eq, page, ptePage_eq (pa2pte _), pa2pte_eq]
        omega
      simp only [remapLeaf, if_pos hv0, if_pos same] at h
      obtain ⟨-, rfl⟩ := Prod.mk.inj (Except.ok.inj h)
      apply setPte_mem_of_ne
      rintro rfl
      exact apart ⟨.pte1 d (vpn2 va) (vpn1 va), trivial, ht⟩
    · cases here

theorem mapPageUser_again (hs : Consistent M s) (hu : s.UserApart) (hva : va < ulim) {perm₀ : Nat}
    (here : s.view d va = some (pa / 4096, perm₀))
    (h : s.mapPageUser d va pa perm = .ok (r, s')) :
    Moves s s' (placeOf d va) (some (pa / 4096, perm ||| pteV)) ∧
      s'.mem (pa / 4096) = s.mem (pa / 4096) := by
  have there : s.ent (leafSlot d va) ≠ none := by
    intro none_
    rw [view, none_] at here
    cases here
  exact ⟨.of_stored hu hva (mapPageUser_mapped hs (not_shared_of_user hva) there h),
    mapPageUser_remap hu hva here h⟩

/-- A page that a place has, at another or the same one. -/
theorem mapPageUser_moves (hs : Consistent M s) (hu : s.UserApart) (hva : va < ulim)
    (hd : s.pgdir d ≠ 0) {x : Place D} {a : Nat} (src : s.place x = some (pa / 4096, a))
    (h : s.mapPageUser d va pa perm = .ok (0, s')) :
    Moves s s' (placeOf d va) (some (pa / 4096, perm ||| pteV)) ∧
      s'.mem (pa / 4096) = s.mem (pa / 4096) := by
  have hlt : va < 2 ^ 39 := hva.trans (by decide)
  obtain ⟨hf, hent, -⟩ := mapPageUser_spec hs hlt (not_shared_of_user hva)
    (apart_of_ne s hlt (vpn2_ne_three_of_user hva)) h
  have moves := Moves.of_touched hu hva hd hf
  have here : s'.view d va = some (pa / 4096, perm ||| pteV) := hent rfl
  rw [here] at moves
  refine ⟨moves, ?_⟩
  by_cases eq : x = placeOf d va
  · rw [eq, place_of_view hva] at src
    exact mapPageUser_remap hu hva src h
  · exact moves.data x _ a eq src

/-- A call that fails maps nothing. -/
theorem mapPageUser_stays (hs : Consistent M s) (hu : s.UserApart) (hva : va < ulim)
    (hd : s.pgdir d ≠ 0) (h : s.mapPageUser d va pa perm = .ok (r, s')) (hr : r ≠ 0) :
    Stays s s' := by
  have hlt : va < 2 ^ 39 := hva.trans (by decide)
  have hv := not_shared_of_user hva
  obtain ⟨hf, -, -, hfail, -⟩ := mapPageUser_spec hs hlt hv
    (apart_of_ne s hlt (vpn2_ne_three_of_user hva)) h
  have gone : s'.view d va = none := (hfail hr).2
  have none_ : s.view d va = none := by
    by_contra there
    have stored := mapPageUser_mapped hs hv there h
    rw [view, stored.ent, Function.update_self] at gone
    cases gone
  have moves := Moves.of_touched hu hva hd hf
  have here : s.place (placeOf d va) = none := by rw [place_of_view hva, none_]
  refine moves.stays (here.trans gone.symm) fun p a there => ?_
  rw [here] at there
  cases there

theorem unmapPage_moves (hs : Consistent M s) (hu : s.UserApart) (hva : va < ulim)
    (h : s.unmapPage d va = .ok (r, s')) : Moves s s' (placeOf d va) none := by
  have outside : ¬ (kernbase ≤ va ∧ va < kernbase + memorySize) := by
    unfold ulim at hva
    unfold kernbase
    omega
  obtain ⟨s₁, h₁, -, stored⟩ := unmapPage_ok (d := d) hs (not_shared_of_user hva) outside
  obtain ⟨-, rfl⟩ := Prod.mk.inj (Except.ok.inj (h₁.symm.trans h))
  exact .of_stored hu hva stored

/-- More permission for a mapped page. -/
theorem mapPage_moves (hs : Consistent M s) (hu : s.UserApart) (hva : va < ulim) {bits : Nat}
    (here : s.view d va = some (p, perm)) (hb : bits < 0x400)
    (h : s.mapPage d va (s.getPa d va) (s.getPerm d va ||| bits) = .ok (r, s')) :
    Moves s s' (placeOf d va) (some (p, perm ||| bits ||| pteV)) ∧ s'.mem p = s.mem p := by
  have hv := not_shared_of_user hva
  have hm : s.isMappedPage d va = true := by
    rw [isMappedPage_eq hv, here]
    rfl
  have apart : ¬ s.TablePage p := hu d va hva p (tgt_eq_some.mpr ⟨perm, here⟩)
  obtain ⟨t0, w, hw, hv0, rfl, hvw, page, bits'⟩ := mapPage_upgrade hm hb h
  have hd := pgdir_ne_zero_of_view here
  rcases walk_cases s hd hv with ⟨t2, no, -, -⟩ | ⟨t1, no, -, -⟩ | ⟨t, hwt, ht⟩
  · rw [hw] at no
    cases no
  · rw [hw] at no
    cases no
  · obtain rfl := Walk.pte0.inj (hw.symm.trans hwt)
    have leaf := ent_leafSlot ht
    rw [view, leaf, entry, if_pos hv0] at here
    obtain ⟨same, same'⟩ := Prod.mk.inj (Option.some.inj here)
    have entry' : entry w = some (p, perm ||| bits ||| pteV) := by
      rw [entry, if_pos hvw, page, bits', same, same']
    have old : s.ent (leafSlot d va) = some (p, perm) := by
      rw [leaf, entry, if_pos hv0, same, same']
    obtain ⟨-, hent⟩ :=
      permEntry_spec hs (x := .pte1 d (vpn2 va) (vpn1 va)) trivial ht id old entry'
    refine ⟨.of_stored hu hva (storeLeaf_frame hs ht hent rfl rfl), ?_⟩
    apply setPte_mem_of_ne
    rintro rfl
    exact apart ⟨.pte1 d (vpn2 va) (vpn1 va), trivial, ht⟩

end

end RiscvMos.Pmap
