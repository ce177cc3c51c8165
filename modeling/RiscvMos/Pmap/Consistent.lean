import RiscvMos.Lib.RefCount
import RiscvMos.Pmap.Slots

/-!
The reference-count invariant of physical memory, and what each elementary
store of `kern/pmap.c` does to it: point an empty entry at a fresh page, point
one at a page in use, empty an entry, change an entry's permission.
-/

namespace RiscvMos.Pmap

open RefCount (refs Counted)

variable {D : Type}

theorem distinct_of_ent {s s' : Pmap D} (hs : s.Distinct) (h : s'.ent = s.ent) : s'.Distinct := by
  intro x y p hx hy hxp hyp
  simp only [tgt, h] at hxp hyp
  exact hs hx hy hxp hyp

theorem page2pa_div (p : Nat) : page2pa p / 4096 = p := by
  rw [page2pa, Nat.shiftLeft_eq]; omega

theorem pageAlloc_eq_some {s s₁ : Pmap D} {q : Nat} (h : s.pageAlloc = some (q, s₁)) :
    ∃ rest, s.pageFreeList = q :: rest ∧
      s₁ = { s with pageFreeList := rest, mem := Function.update s.mem q fun _ => 0 } := by
  unfold pageAlloc at h
  split at h
  · cases h
  · rename_i pp rest hl
    obtain ⟨rfl, rfl⟩ := Prod.mk.inj (Option.some.inj h)
    exact ⟨rest, hl, rfl⟩

section
variable [DecidableEq D] {s s' : Pmap D}

theorem tgt_update {c : Slot D} {v : Option (Nat × Nat)}
    (h : s'.ent = Function.update s.ent c v) :
    s'.tgt = Function.update s.tgt c (v.map Prod.fst) := by
  funext y
  simp only [tgt, h]
  by_cases hy : y = c
  · subst hy; simp
  · simp [Function.update_of_ne hy, tgt]

/-- A table slot may only be pointed at a page no slot had. -/
theorem distinct_update {c : Slot D} {v : Option (Nat × Nat)} (hs : s.Distinct)
    (h : s'.ent = Function.update s.ent c v)
    (hc : c.IsTable → ∀ p, v.map Prod.fst = some p → ∀ y, s.tgt y ≠ some p) : s'.Distinct := by
  intro x y p hx hy hxp hyp
  rw [tgt_update h] at hxp hyp
  by_cases hxc : x = c <;> by_cases hyc : y = c
  · rw [hxc, hyc]
  · subst hxc
    rw [Function.update_self] at hxp
    rw [Function.update_of_ne hyc] at hyp
    exact absurd hyp (hc hx p hxp y)
  · subst hyc
    rw [Function.update_self] at hyp
    rw [Function.update_of_ne hxc] at hxp
    exact absurd hxp (hc hy p hyp x)
  · rw [Function.update_of_ne hxc] at hxp
    rw [Function.update_of_ne hyc] at hyp
    exact hs hx hy hxp hyp

end

variable [Fintype D]

/-- `M` are the pages `page_alloc` hands out. Every slot of a live directory
points into `M`, `pp_ref` counts those slots, the free list holds the pages
with no slot once each, and every table page has one slot of the tables above. -/
structure Consistent (M : Nat → Prop) (s : Pmap D) : Prop where
  counted : Counted M s.tgt s.ppRef s.pageFreeList
  small : ∀ p, M p → s.ppRef p < 65536
  distinct : s.Distinct
  aligned : ∀ d, s.pgdir d % 4096 = 0
  ram : ∀ p, M p → inRam p

variable {M : Nat → Prop} {s s' : Pmap D}

namespace Consistent

theorem lt_of_mem (hs : Consistent M s) {p : Nat} (hp : M p) : page2pa p < 2 ^ 56 := by
  have h := (hs.ram p hp).2
  rw [page2pa, Nat.shiftLeft_eq]
  omega

theorem mem_of_tgt (hs : Consistent M s) {x : Slot D} {p : Nat} (h : s.tgt x = some p) : M p :=
  hs.counted.tgt_sub x p h

end Consistent

/-- Zeroing a page from the free list changes no slot. -/
theorem pageAlloc_ent (hs : Consistent M s) {q : Nat} {s₁ : Pmap D}
    (h : s.pageAlloc = some (q, s₁)) : s₁.ent = s.ent := by
  obtain ⟨rest, hl, rfl⟩ := pageAlloc_eq_some h
  refine ent_congr (s := s) rfl fun x t _ ht => ?_
  have : t ≠ q := by
    rintro rfl
    exact hs.counted.tgt_ne_of_free (by simp [hl]) x ht
  simp [this]

/-- `s` with one reference to `p` given up. -/
def dropRef (s : Pmap D) (p : Nat) : Pmap D :=
  { s with
    ppRef := Function.update s.ppRef p (s.ppRef p - 1)
    pageFreeList := if s.ppRef p - 1 = 0 then p :: s.pageFreeList else s.pageFreeList }

/-- The decrement does not wrap for a page that some slot points at. -/
theorem clearRef_eq (hs : Consistent M s) {x : Slot D} {p : Nat} (h : s.tgt x = some p) :
    s.clearRef p = .ok (s.dropRef p) := by
  have hM := hs.mem_of_tgt h
  have hpos := hs.counted.ref_pos_of_tgt h
  have hlt := hs.small p hM
  have hr : (s.ppRef p + 65535) % 65536 = s.ppRef p - 1 := by omega
  rw [clearRef, if_pos (hs.ram p hM), hr]
  by_cases h0 : s.ppRef p - 1 = 0 <;> simp [dropRef, pageFree, h0]

variable [DecidableEq D]

/-- What `allocEntry` leaves: the slot holds a page that was on the free list
and is zero; every other page but the table is as it was. -/
structure Filled (s s' : Pmap D) (c : Slot D) (t : Nat) (i : Vpn) (q perm : Nat) : Prop where
  ent : s'.ent = Function.update s.ent c (some (q, perm ||| pteV))
  free : s.pageFreeList = q :: s'.pageFreeList
  zero : s'.mem q = fun _ => 0
  other : ∀ p, p ≠ q → p ≠ t → s'.mem p = s.mem p
  table : ∀ k, k ≠ i → s'.mem t k = s.mem t k
  pgdir : s'.pgdir = s.pgdir

theorem allocEntry_spec (hs : Consistent M s) {x : Slot D} {t : Nat} (hx : x.IsTable)
    (ht : s.tgt x = some t) {i : Vpn} (hi : ¬ x.leaves i) (hnone : s.ent (x.child i) = none)
    {perm : Nat} (hperm : perm < 0x400) {q : Nat} (h : s.allocEntry t i perm = some (q, s')) :
    Consistent M s' ∧ Filled s s' (x.child i) t i q perm := by
  unfold allocEntry at h
  cases ha : s.pageAlloc with
  | none => simp [ha] at h
  | some r =>
    obtain ⟨pp, s₁⟩ := r
    simp only [ha, Option.some_inj, Prod.mk.injEq] at h
    obtain ⟨rfl, rfl⟩ := h
    have hent₁ := pageAlloc_ent hs ha
    obtain ⟨rest, hl, rfl⟩ := pageAlloc_eq_some ha
    have hq : M pp := hs.counted.free_sub pp (by simp [hl])
    have hnot : ∀ y, s.tgt y ≠ some pp := hs.counted.tgt_ne_of_free (by simp [hl])
    have hqt : pp ≠ t := by rintro rfl; exact hnot x ht
    set s₁ : Pmap D := { s with pageFreeList := rest, mem := Function.update s.mem pp fun _ => 0 }
    have hd₁ : s₁.Distinct := distinct_of_ent hs.distinct hent₁
    have hw : entry (mkPte (page2pa pp) perm) = some (pp, perm ||| pteV) := by
      rw [entry_mkPte hperm (hs.lt_of_mem hq), page2pa_div]
    have hent : ((s₁.setPte t i (mkPte (page2pa pp) perm)).incRef pp).ent =
        Function.update s.ent (x.child i) (some (pp, perm ||| pteV)) := by
      rw [← hent₁, ← hw]
      refine ent_setPte hd₁ hx (by simp only [tgt, hent₁] at ht ⊢; exact ht) hi _ ?_ ?_
      · intro hc k
        rw [hent₁]; exact ent_child_none hc hnone k
      · intro _ e he
        obtain rfl := Option.some.inj (hw.symm.trans he)
        exact ⟨hqt, fun k => by simp [s₁]⟩
    have href : s.ppRef pp = 0 := (hs.counted.free_iff pp hq).mp (by simp [hl])
    refine ⟨⟨?_, ?_, ?_, hs.aligned, hs.ram⟩, ⟨hent, hl, ?_, ?_, ?_, rfl⟩⟩
    · have hc := hs.counted
      rw [hl] at hc
      have := hc.alloc (x := x.child i) (tgt_eq_none.mpr hnone)
      rw [tgt_update hent]
      simpa [incRef, setPte, s₁, href] using this
    · intro p hp
      by_cases hpq : p = pp
      · simp [hpq, incRef, setPte, s₁, href]
      · simpa [hpq, incRef, setPte, s₁] using hs.small p hp
    · exact distinct_update hs.distinct hent fun _ p hp => by
        obtain rfl := Option.some.inj hp; exact hnot
    · simp [incRef, setPte, s₁, hqt]
    · intro p hp hpt
      simp [incRef, setPte, s₁, hp, hpt]
    · intro k hk
      simp [incRef, setPte, s₁, hk, hqt.symm]

theorem clearEntry_spec (hs : Consistent M s) {x : Slot D} {t : Nat} (hx : x.IsTable)
    (ht : s.tgt x = some t) {i : Vpn} {p perm : Nat} (he : s.ent (x.child i) = some (p, perm))
    (hbelow : (x.child i).IsTable → ∀ k, s.ent ((x.child i).child k) = none) :
    Consistent M ((s.dropRef p).setPte t i 0) ∧
    ((s.dropRef p).setPte t i 0).ent = Function.update s.ent (x.child i) none := by
  have hi : ¬ x.leaves i := by
    intro hi; rw [ent_child_leaves s hi] at he; cases he
  have hc : s.tgt (x.child i) = some p := tgt_eq_some.mpr ⟨perm, he⟩
  have hent₁ : (s.dropRef p).ent = s.ent := ent_eq_of_mem rfl rfl
  have hent : ((s.dropRef p).setPte t i 0).ent = Function.update s.ent (x.child i) none := by
    rw [← hent₁, ← entry_zero]
    refine ent_setPte (distinct_of_ent hs.distinct hent₁) hx ?_ hi 0 ?_ ?_
    · rw [tgt, hent₁]; exact ht
    · intro hc k; rw [hent₁]; exact hbelow hc k
    · intro _ e he; simp at he
  refine ⟨⟨?_, ?_, ?_, hs.aligned, hs.ram⟩, hent⟩
  · rw [tgt_update hent]
    exact hs.counted.drop hc
  · intro y hy
    have := hs.small y hy
    by_cases hyp : y = p
    · subst hyp; simp [setPte, dropRef]; omega
    · simpa [setPte, dropRef, hyp] using this
  · exact distinct_update hs.distinct hent fun _ p hp => by cases hp

/-- Point an empty last-level entry at a page in use. The counter is right as
long as the page keeps fewer than 65536 references. -/
theorem shareEntry_spec (hs : Consistent M s) {x : Slot D} {t : Nat} (hx : x.IsTable)
    (ht : s.tgt x = some t) {i : Vpn} (hi : ¬ x.leaves i) (hleaf : ¬ (x.child i).IsTable)
    (hnone : s.ent (x.child i) = none) {pa perm : Nat} (hperm : perm < 0x400)
    (hpa : pa < 2 ^ 56) (hq : M (pa / 4096)) (hlive : pa / 4096 ∉ s.pageFreeList) :
    let s' := (s.setPte t i (mkPte pa perm)).incRef (pa / 4096)
    refs s'.tgt (pa / 4096) < 65536 → Consistent M s' := by
  intro s' hb
  have hent : s'.ent = Function.update s.ent (x.child i) (some (pa / 4096, perm ||| pteV)) := by
    rw [← entry_mkPte hperm hpa]
    exact ent_setPte hs.distinct hx ht hi _ (fun h => absurd h hleaf) (fun h => absurd h hleaf)
  have hsmall : s.ppRef (pa / 4096) < 65535 := by
    rw [tgt_update hent, Option.map_some, RefCount.refs_fill (tgt_eq_none.mpr hnone), if_pos rfl,
      ← hs.counted.count _ hq] at hb
    omega
  have hmod : (s.ppRef (pa / 4096) + 1) % 65536 = s.ppRef (pa / 4096) + 1 := by omega
  refine ⟨?_, ?_, ?_, hs.aligned, hs.ram⟩
  · rw [tgt_update hent]
    have := hs.counted.share (x := x.child i) (tgt_eq_none.mpr hnone) hq hlive
    simpa [s', incRef, setPte, hmod] using this
  · intro y hy
    have := hs.small y hy
    by_cases hyp : y = pa / 4096
    · subst hyp; simp [s', setPte, incRef]; omega
    · simpa [s', setPte, incRef, hyp] using this
  · exact distinct_update hs.distinct hent fun h => absurd h hleaf

/-- Change the permission of a last-level entry. -/
theorem permEntry_spec (hs : Consistent M s) {x : Slot D} {t : Nat} (hx : x.IsTable)
    (ht : s.tgt x = some t) {i : Vpn} (hleaf : ¬ (x.child i).IsTable) {p perm w perm' : Nat}
    (he : s.ent (x.child i) = some (p, perm)) (hw : entry w = some (p, perm')) :
    Consistent M (s.setPte t i w) ∧
    (s.setPte t i w).ent = Function.update s.ent (x.child i) (some (p, perm')) := by
  have hi : ¬ x.leaves i := by
    intro hi; rw [ent_child_leaves s hi] at he; cases he
  have hent : (s.setPte t i w).ent = Function.update s.ent (x.child i) (some (p, perm')) := by
    rw [← hw]
    exact ent_setPte hs.distinct hx ht hi _ (fun h => absurd h hleaf) (fun h => absurd h hleaf)
  refine ⟨⟨?_, hs.small, ?_, hs.aligned, hs.ram⟩, hent⟩
  · have : Function.update s.tgt (x.child i) (some p) = s.tgt := by
      rw [← show s.tgt (x.child i) = some p from tgt_eq_some.mpr ⟨perm, he⟩,
        Function.update_eq_self]
    rw [tgt_update hent, Option.map_some, this]
    exact hs.counted
  · exact distinct_update hs.distinct hent fun h => absurd h hleaf

end RiscvMos.Pmap
