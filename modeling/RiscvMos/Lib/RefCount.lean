import Mathlib.Data.Finset.Card
import Mathlib.Data.Fintype.Basic
import Mathlib.Logic.Function.Basic
import Mathlib.Data.List.Nodup

/-!
# Reference counting over a finite set of reference slots

Slots `X` point at objects `P`. An object carries a counter, and the objects
whose counter is zero wait on a free list. `Counted` says that the counters and
the list agree with the slots; each rule below moves one slot and the counter
and list with it.
-/

namespace RefCount

variable {X P : Type} [Fintype X] [DecidableEq P]

/-- How many slots point at `p`. -/
def refs (tgt : X → Option P) (p : P) : Nat :=
  (Finset.univ.filter fun x => tgt x = some p).card

theorem refs_pos_iff {tgt : X → Option P} {p : P} : 0 < refs tgt p ↔ ∃ x, tgt x = some p := by
  simp [refs, Finset.card_pos, Finset.Nonempty]

theorem refs_eq_zero_iff {tgt : X → Option P} {p : P} :
    refs tgt p = 0 ↔ ∀ x, tgt x ≠ some p := by
  simp [refs, Finset.card_eq_zero, Finset.filter_eq_empty_iff]

theorem refs_eq_card {tgt : X → Option P} {p : P} (A : Finset X) (h : ∀ x, tgt x = some p ↔ x ∈ A) :
    refs tgt p = A.card := by
  rw [refs]
  congr 1
  ext x
  simp [h]

/-- Counting along an injection that reaches every slot that matters. -/
theorem refs_eq_of_injective {Y : Type} [Fintype Y] {tgt : X → Option P} {p : P} {f : Y → X}
    (hf : Function.Injective f) (honly : ∀ x, tgt x = some p → ∃ y, f y = x) :
    refs tgt p = refs (fun y => tgt (f y)) p := by
  symm
  apply Finset.card_bij fun y _ => f y
  · intro y hy
    rw [Finset.mem_filter] at hy ⊢
    exact ⟨Finset.mem_univ _, hy.2⟩
  · intro y _ y' _ h
    exact hf h
  · intro x hx
    rw [Finset.mem_filter] at hx
    obtain ⟨y, rfl⟩ := honly x hx.2
    exact ⟨y, Finset.mem_filter.mpr ⟨Finset.mem_univ _, hx.2⟩, rfl⟩

/-- The only slot that points at an object of count one. -/
theorem eq_of_refs_one {tgt : X → Option P} {p : P} (h : refs tgt p = 1) {x y : X}
    (hx : tgt x = some p) (hy : tgt y = some p) : x = y := by
  obtain ⟨z, hz⟩ := Finset.card_eq_one.mp h
  have hx' : x ∈ Finset.univ.filter fun x => tgt x = some p := by simp [hx]
  have hy' : y ∈ Finset.univ.filter fun x => tgt x = some p := by simp [hy]
  rw [hz, Finset.mem_singleton] at hx' hy'
  rw [hx', hy']

/-- The references to `p` from slots with a property. -/
def refsOf (tgt : X → Option P) (own : X → Prop) [DecidablePred own] (p : P) : Nat :=
  (Finset.univ.filter fun x => own x ∧ tgt x = some p).card

/-- Emptying the slots with a property takes away their references. -/
theorem refs_add_refsOf {tgt tgt' : X → Option P} {own : X → Prop} [DecidablePred own]
    (hown : ∀ x, own x → tgt' x = none) (hoth : ∀ x, ¬ own x → tgt' x = tgt x) (p : P) :
    refs tgt' p + refsOf tgt own p = refs tgt p := by
  have hset : (Finset.univ.filter fun x => tgt' x = some p) =
      Finset.univ.filter fun x => ¬ own x ∧ tgt x = some p := by
    ext x
    by_cases hx : own x
    · simp [hx, hown x hx]
    · simp [hx, hoth x hx]
  have hsplit :=
    Finset.card_filter_add_card_filter_not (s := Finset.univ.filter fun x => tgt x = some p)
    (fun x => ¬ own x)
  simp only [Finset.filter_filter, not_not, and_comm (a := tgt _ = some p)] at hsplit
  rw [refs, refsOf, hset]
  exact hsplit

section
variable [DecidableEq X]

/-- At most the slots in `A` are new references to `p`. -/
theorem refs_le_of_off {tgt tgt' : X → Option P} {p : P} (A : Finset X)
    (h : ∀ x ∉ A, tgt' x = some p → tgt x = some p) : refs tgt' p ≤ refs tgt p + A.card := by
  have hsub : (Finset.univ.filter fun x => tgt' x = some p) ⊆
      (Finset.univ.filter fun x => tgt x = some p) ∪ A := by
    intro x hx
    rw [Finset.mem_filter] at hx
    by_cases hA : x ∈ A
    · simp [hA]
    · simp [h x hA hx.2]
  exact (Finset.card_le_card hsub).trans (Finset.card_union_le _ _)

/-- Filling an empty slot adds one reference to its object and no other. -/
theorem refs_fill {tgt : X → Option P} {x : X} (hx : tgt x = none) (q p : P) :
    refs (Function.update tgt x (some q)) p = refs tgt p + if p = q then 1 else 0 := by
  have hset : (Finset.univ.filter fun y => Function.update tgt x (some q) y = some p) =
      if p = q then insert x (Finset.univ.filter fun y => tgt y = some p)
      else Finset.univ.filter fun y => tgt y = some p := by
    ext y
    by_cases hy : y = x
    · subst hy
      by_cases hp : p = q
      · simp [hp]
      · simp [hx, hp, Ne.symm hp]
    · by_cases hp : p = q <;> simp [hy, hp]
  unfold refs
  rw [hset]
  by_cases hp : p = q
  · rw [if_pos hp, if_pos hp, Finset.card_insert_of_notMem]
    simp [hx]
  · rw [if_neg hp, if_neg hp, Nat.add_zero]

/-- Emptying a slot takes one reference from the object it pointed at. -/
theorem refs_empty {tgt : X → Option P} {x : X} {q : P} (hx : tgt x = some q) (p : P) :
    refs (Function.update tgt x none) p + (if p = q then 1 else 0) = refs tgt p := by
  have hnone : Function.update tgt x none x = none := Function.update_self ..
  have h := refs_fill hnone q p
  rw [Function.update_idem, ← hx, Function.update_eq_self] at h
  exact h.symm

end

/-- The counters `ref` and the list `free` agree with the slots, for the
objects in `M`; slots and list hold no other objects. -/
structure Counted (M : P → Prop) (tgt : X → Option P) (ref : P → Nat) (free : List P) : Prop where
  count : ∀ p, M p → ref p = refs tgt p
  free_iff : ∀ p, M p → (p ∈ free ↔ ref p = 0)
  nodup : free.Nodup
  free_sub : ∀ p ∈ free, M p
  tgt_sub : ∀ x p, tgt x = some p → M p

namespace Counted

variable {M : P → Prop} {tgt : X → Option P} {ref : P → Nat} {free : List P}

theorem not_free_of_tgt (h : Counted M tgt ref free) {x : X} {p : P} (hx : tgt x = some p) :
    p ∉ free := by
  have hM := h.tgt_sub x p hx
  rw [h.free_iff p hM, h.count p hM]
  exact (refs_pos_iff.mpr ⟨x, hx⟩).ne'

theorem tgt_ne_of_free (h : Counted M tgt ref free) {p : P} (hp : p ∈ free) (x : X) :
    tgt x ≠ some p := fun hx => h.not_free_of_tgt hx hp

theorem ref_pos_of_tgt (h : Counted M tgt ref free) {x : X} {p : P} (hx : tgt x = some p) :
    0 < ref p := by
  rw [h.count p (h.tgt_sub x p hx)]
  exact refs_pos_iff.mpr ⟨x, hx⟩

variable [DecidableEq X]

/-- Take the head of the free list and point an empty slot at it. -/
theorem alloc {q : P} (h : Counted M tgt ref (q :: free)) {x : X} (hx : tgt x = none) :
    Counted M (Function.update tgt x (some q)) (Function.update ref q (ref q + 1)) free := by
  have hq : M q := h.free_sub q (by simp)
  have hnd := List.nodup_cons.mp h.nodup
  refine ⟨?_, ?_, hnd.2, fun p hp => h.free_sub p (by simp [hp]), ?_⟩
  · intro p hp
    rw [refs_fill hx, ← h.count p hp]
    by_cases hpq : p = q
    · simp [hpq]
    · simp [hpq]
  · intro p hp
    by_cases hpq : p = q
    · subst hpq; simp [hnd.1]
    · rw [Function.update_of_ne hpq, ← h.free_iff p hp]; simp [hpq]
  · intro y p hy
    by_cases hyx : y = x
    · rw [hyx, Function.update_self, Option.some_inj] at hy; exact hy ▸ hq
    · exact h.tgt_sub y p (by rwa [Function.update_of_ne hyx] at hy)

/-- Point an empty slot at an object that is in use. -/
theorem share (h : Counted M tgt ref free) {x : X} (hx : tgt x = none) {q : P} (hq : M q)
    (hlive : q ∉ free) :
    Counted M (Function.update tgt x (some q)) (Function.update ref q (ref q + 1)) free := by
  refine ⟨?_, ?_, h.nodup, h.free_sub, ?_⟩
  · intro p hp
    rw [refs_fill hx, ← h.count p hp]
    by_cases hpq : p = q
    · simp [hpq]
    · simp [hpq]
  · intro p hp
    by_cases hpq : p = q
    · subst hpq; simp [hlive]
    · rw [Function.update_of_ne hpq]; exact h.free_iff p hp
  · intro y p hy
    by_cases hyx : y = x
    · rw [hyx, Function.update_self, Option.some_inj] at hy; exact hy ▸ hq
    · exact h.tgt_sub y p (by rwa [Function.update_of_ne hyx] at hy)

/-- Empty a slot; its object goes to the free list with its last reference. -/
theorem drop (h : Counted M tgt ref free) {x : X} {q : P} (hx : tgt x = some q) :
    Counted M (Function.update tgt x none) (Function.update ref q (ref q - 1))
      (if ref q - 1 = 0 then q :: free else free) := by
  have hM := h.tgt_sub x q hx
  have hpos := h.ref_pos_of_tgt hx
  have hnf := h.not_free_of_tgt hx
  refine ⟨?_, ?_, ?_, ?_, ?_⟩
  · intro p hp
    have hr := refs_empty hx p
    rw [← h.count p hp] at hr
    by_cases hpq : p = q
    · subst hpq; simp at hr ⊢; omega
    · simpa [hpq] using hr.symm
  · intro p hp
    by_cases hpq : p = q
    · subst hpq; by_cases h0 : ref p - 1 = 0 <;> simp [h0, hnf]
    · rw [Function.update_of_ne hpq, ← h.free_iff p hp]
      split <;> simp [hpq]
  · split
    · exact List.nodup_cons.mpr ⟨hnf, h.nodup⟩
    · exact h.nodup
  · intro p hp
    split at hp
    · rcases List.mem_cons.mp hp with rfl | hp
      · exact hM
      · exact h.free_sub p hp
    · exact h.free_sub p hp
  · intro y p hy
    by_cases hyx : y = x
    · simp [hyx] at hy
    · exact h.tgt_sub y p (by rwa [Function.update_of_ne hyx] at hy)

end Counted

end RefCount
