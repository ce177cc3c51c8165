import RiscvMos.Env.Ids
import Mathlib.Data.Finset.Card
import Mathlib.Data.List.Find
import Mathlib.Order.Interval.Finset.Nat

/-!
ASIDs over whole runs. `asid_bitmap` is two words of 32 bits in the source, and
its bits are those of the bitmap of `Env/Model.lean`; the bits that are set are
those of ASID 0 and of the envs off the free list.
-/

namespace RiscvMos

/-- `asid_bitmap[i >> 5] & (1 << (i & 31))`. -/
def asidMask (w : Nat → BitVec 32) (i : Nat) : BitVec 32 := w (i >>> 5) &&& 1#32 <<< (i &&& 31)

/-- `asid_alloc` on the words. -/
def asidAllocWords (w : Nat → BitVec 32) : Option (Nat × (Nat → BitVec 32)) :=
  match (List.range 64).find? fun i => asidMask w i == 0#32 with
  | none => none
  | some i => some (i, Function.update w (i >>> 5) (w (i >>> 5) ||| 1#32 <<< (i &&& 31)))

/-- `asid_free` on the words. -/
def asidFreeWords (w : Nat → BitVec 32) (i : Nat) : Nat → BitVec 32 :=
  Function.update w (i >>> 5) (w (i >>> 5) &&& ~~~(1#32 <<< (i &&& 31)))

def asidBit (w : Nat → BitVec 32) (i : Nat) : Bool := (w (i >>> 5)).getLsbD (i &&& 31)

section
variable {w : Nat → BitVec 32} {i j : Nat}

theorem and_31 (i : Nat) : i &&& 31 = i % 32 := Nat.and_two_pow_sub_one_eq_mod i 5

theorem and_31_lt (i : Nat) : i &&& 31 < 32 := by
  rw [and_31]
  exact Nat.mod_lt i (by decide)

theorem getLsbD_one_shiftLeft {n m : Nat} (hm : m < 32) :
    (1#32 <<< n).getLsbD m = decide (m = n) := by
  rw [BitVec.getLsbD_shiftLeft, BitVec.getLsbD_one]
  by_cases hmn : m = n
  · simp [hmn, hmn ▸ hm]
  · by_cases hlt : m < n
    · simp [hlt, hmn]
    · have hne : m - n ≠ 0 := by omega
      simp [hne, hmn]

theorem asid_index (h : j >>> 5 = i >>> 5) (h' : j &&& 31 = i &&& 31) : j = i := by
  rw [Nat.shiftRight_eq_div_pow, Nat.shiftRight_eq_div_pow] at h
  rw [and_31, and_31] at h'
  omega

theorem asidMask_eq_zero : asidMask w i = 0#32 ↔ asidBit w i = false := by
  constructor
  · intro h
    have hbit := congrArg (fun x => x.getLsbD (i &&& 31)) h
    simpa [asidMask, asidBit, getLsbD_one_shiftLeft (and_31_lt i), and_31_lt i] using hbit
  · intro h
    apply BitVec.eq_of_getLsbD_eq
    intro m hm
    rw [asidMask, BitVec.getLsbD_and, getLsbD_one_shiftLeft hm]
    by_cases hmi : m = i &&& 31
    · rw [hmi]
      have hfalse : (w (i >>> 5)).getLsbD (i &&& 31) = false := h
      rw [hfalse, Bool.false_and, BitVec.getLsbD_zero]
    · simp [hmi]

/-- A word whose bits are those of the old one but bit `i & 31`. -/
theorem asidBit_update {v : BitVec 32} {b : Bool}
    (h : ∀ m < 32, v.getLsbD m = if m = i &&& 31 then b else (w (i >>> 5)).getLsbD m) :
    asidBit (Function.update w (i >>> 5) v) j = Function.update (asidBit w) i b j := by
  by_cases hword : j >>> 5 = i >>> 5
  · rw [asidBit, hword, Function.update_self, h _ (and_31_lt j)]
    by_cases hbit : j &&& 31 = i &&& 31
    · rw [if_pos hbit, asid_index hword hbit, Function.update_self]
    · have hne : j ≠ i := by
        rintro rfl
        exact hbit rfl
      rw [if_neg hbit, Function.update_of_ne hne, asidBit, hword]
  · have hne : j ≠ i := by
      rintro rfl
      exact hword rfl
    rw [asidBit, Function.update_of_ne hword, Function.update_of_ne hne, asidBit]

theorem asidBit_set :
    asidBit (Function.update w (i >>> 5) (w (i >>> 5) ||| 1#32 <<< (i &&& 31))) j =
    Function.update (asidBit w) i true j := by
  apply asidBit_update
  intro m hm
  rw [BitVec.getLsbD_or, getLsbD_one_shiftLeft hm]
  by_cases hbit : m = i &&& 31 <;> simp [hbit]

theorem asidBit_free : asidBit (asidFreeWords w i) j = Function.update (asidBit w) i false j := by
  apply asidBit_update
  intro m hm
  rw [BitVec.getLsbD_and, BitVec.getLsbD_not, getLsbD_one_shiftLeft hm]
  by_cases hbit : m = i &&& 31 <;> simp [hbit, hm]

end

namespace Kernel

/-- `asid_bitmap` after `env_alloc`. -/
def allocWords (k : Kernel) (w : Nat → BitVec 32) : Nat → BitVec 32 :=
  if k.envFreeList = [] then w
  else match asidAllocWords w with
    | none => w
    | some (_, w') => w'

/-- The runs from `env_init`, with `asid_bitmap` as the source has it. -/
inductive AsidRun (s : Pmap EnvIdx) (base : Nat) : Kernel → (Nat → BitVec 32) → Prop where
  | init : AsidRun s base (envInit s base) fun j => if j = 0 then 1#32 else 0#32
  | alloc {k k' : Kernel} {w : Nat → BitVec 32} {parentId : Nat} {r : Except Int EnvIdx}
      (run : AsidRun s base k w) (h : k.envAlloc parentId = .ok (r, k')) :
        AsidRun s base k' (k.allocWords w)
  | free {k k' : Kernel} {w : Nat → BitVec 32} {e : EnvIdx} (run : AsidRun s base k w)
      (live : e ∉ k.envFreeList) (h : k.envFree e = .ok k') :
      AsidRun s base k' (asidFreeWords w (k.envs e).envAsid)
  | between {k k' : Kernel} {w : Nat → BitVec 32} (run : AsidRun s base k w) (h : Between k k') :
      AsidRun s base k' w

structure AsidInv (k : Kernel) (w : Nat → BitVec 32) : Prop where
  list : FreeInv k
  bits : ∀ i, i < 64 → asidBit w i = k.asidBitmap i
  range : ∀ e, e ∉ k.envFreeList → 1 ≤ (k.envs e).envAsid ∧ (k.envs e).envAsid < 64
  inj : ∀ e e', e ∉ k.envFreeList → e' ∉ k.envFreeList →
    (k.envs e).envAsid = (k.envs e').envAsid → e = e'
  held : ∀ i, i < 64 →
    (k.asidBitmap i = true ↔ i = 0 ∨ ∃ e, e ∉ k.envFreeList ∧ (k.envs e).envAsid = i)

/-- The envs off the free list. -/
def live (k : Kernel) : Finset EnvIdx := Finset.univ.filter fun e => e ∉ k.envFreeList

section
variable {k k' : Kernel} {w : Nat → BitVec 32} {e : EnvIdx} {parentId : Nat} {r : Except Int EnvIdx}

theorem envInit_asidInv (s : Pmap EnvIdx) (base : Nat) :
    AsidInv (envInit s base) fun j => if j = 0 then 1#32 else 0#32 := by
  have hlist : (envInit s base).envFreeList = List.finRange 1024 := by simp only [envInit]
  have hbits : (envInit s base).asidBitmap = fun i => i == 0 := by simp only [envInit]
  have hall : ∀ e, e ∈ (envInit s base).envFreeList := by
    intro e
    rw [hlist]
    exact List.mem_finRange e
  constructor
  · exact (envInit_idInv s base).free
  · rw [hbits]
    decide
  · exact fun e he => absurd (hall e) he
  · exact fun e _ he => absurd (hall e) he
  · intro i _
    rw [hbits]
    constructor
    · intro hi
      exact .inl (by simpa using hi)
    · intro hi
      cases hi with
      | inl hi => simpa using hi
      | inr hi =>
        obtain ⟨e, he, -⟩ := hi
        exact absurd (hall e) he

theorem asidAlloc_some {asid : Nat} (h : k.asidAlloc = some asid) :
    asid < 64 ∧ k.asidBitmap asid = false := by
  have hmem := List.mem_of_find?_eq_some h
  have hbit := List.find?_some h
  exact ⟨List.mem_range.mp hmem, by simpa using hbit⟩

/-- Both allocators find the same ASID. -/
theorem AsidInv.asidAllocWords (h : AsidInv k w) :
    asidAllocWords w = k.asidAlloc.map fun i =>
      (i, Function.update w (i >>> 5) (w (i >>> 5) ||| 1#32 <<< (i &&& 31))) := by
  have hfind : (List.range 64).find? (fun i => asidMask w i == 0#32) = k.asidAlloc := by
    apply List.find?_congr
    intro i hi
    have hbit := h.bits i (List.mem_range.mp hi)
    cases hb : k.asidBitmap i with
    | false =>
      rw [hb] at hbit
      simpa using asidMask_eq_zero.mpr hbit
    | true =>
      rw [hb] at hbit
      have hne : asidMask w i ≠ 0#32 := by
        intro hz
        rw [asidMask_eq_zero, hbit] at hz
        cases hz
      simpa using hne
  unfold RiscvMos.asidAllocWords
  rw [hfind]
  cases k.asidAlloc with
  | none => rfl
  | some i => rfl

/-- Only the free list, the bitmap and the ASIDs matter. -/
theorem AsidInv.congr (h : AsidInv k w) (hf : FreeInv k') (hlist : k'.envFreeList = k.envFreeList)
    (hbits : k'.asidBitmap = k.asidBitmap) (hasid : ∀ e, (k'.envs e).envAsid = (k.envs e).envAsid) :
    AsidInv k' w := by
  constructor
  · exact hf
  · rw [hbits]
    exact h.bits
  · intro e he
    rw [hlist] at he
    rw [hasid]
    exact h.range e he
  · intro e e' he he' heq
    rw [hlist] at he he'
    rw [hasid, hasid] at heq
    exact h.inj e e' he he' heq
  · intro i hi
    simp only [hbits, hlist, hasid]
    exact h.held i hi

theorem AsidInv.envFree (h : AsidInv k w) (he : e ∉ k.envFreeList) (hf : k.envFree e = .ok k') :
    AsidInv k' (asidFreeWords w (k.envs e).envAsid) := by
  have hlist := freeInv_envFree h.list he hf
  obtain ⟨s, q, rfl⟩ := envFree_ok hf
  have hasid : ∀ x, (Function.update k.envs e { k.envs e with envStatus := .free } x).envAsid =
      (k.envs x).envAsid := by
    intro x
    by_cases hx : x = e
    · simp [hx]
    · simp [hx]
  have hold : ∀ {x}, x ∉ e :: k.envFreeList → x ∉ k.envFreeList :=
    fun hx hm => hx (List.mem_cons_of_mem e hm)
  constructor
  · exact hlist
  · intro i hi
    rw [asidBit_free]
    by_cases hia : i = (k.envs e).envAsid
    · simp [hia]
    · simpa [hia] using h.bits i hi
  · intro x hx
    rw [hasid]
    exact h.range x (hold hx)
  · intro x x' hx hx' heq
    rw [hasid, hasid] at heq
    exact h.inj x x' (hold hx) (hold hx') heq
  · intro i hi
    simp only [hasid]
    by_cases hia : i = (k.envs e).envAsid
    · have hpos := (h.range e he).1
      rw [hia, Function.update_self]
      constructor
      · intro hc
        cases hc
      · rintro (h0 | ⟨x, hx, hxa⟩)
        · omega
        · have hxe := h.inj x e (hold hx) he hxa
          exact absurd (List.mem_cons.mpr (.inl hxe)) hx
    · rw [Function.update_of_ne hia, h.held i hi]
      apply or_congr_right
      constructor
      · rintro ⟨x, hx, hxa⟩
        refine ⟨x, ?_, hxa⟩
        intro hm
        cases hm with
        | head => exact hia hxa.symm
        | tail _ hm => exact hx hm
      · rintro ⟨x, hx, hxa⟩
        exact ⟨x, hold hx, hxa⟩

/-- The new env takes the ASID that `asid_alloc` found free. -/
theorem AsidInv.claim (h : AsidInv k w) {rest : List EnvIdx} {asid : Nat}
    (hl : k.envFreeList = e :: rest) (hasid : k.asidAlloc = some asid) (s : Pmap EnvIdx) :
    AsidInv { k.claimed e asid parentId with pmap := s, envFreeList := rest }
      (Function.update w (asid >>> 5) (w (asid >>> 5) ||| 1#32 <<< (asid &&& 31))) := by
  obtain ⟨hlt, hclear⟩ := asidAlloc_some hasid
  have hnd := h.list.1
  rw [hl] at hnd
  have hrest : e ∉ rest := (List.nodup_cons.mp hnd).1
  have hself : ((k.claimed e asid parentId).envs e).envAsid = asid := by rw [claimed_self]
  have hother : ∀ x, x ≠ e → ((k.claimed e asid parentId).envs x).envAsid = (k.envs x).envAsid := by
    intro x hx
    rw [claimed_other hx]
  have hold : ∀ x, x ≠ e → x ∉ rest → x ∉ k.envFreeList := by
    intro x hx hm hmem
    rw [hl] at hmem
    cases hmem with
    | head => exact hx rfl
    | tail _ hmem => exact hm hmem
  have hfresh : ∀ x, x ≠ e → x ∉ rest → (k.envs x).envAsid ≠ asid := by
    intro x hx hm hxa
    have hset := (h.held asid hlt).mpr (.inr ⟨x, hold x hx hm, hxa⟩)
    rw [hclear] at hset
    cases hset
  have hpos : asid ≠ 0 := by
    intro h0
    have hset := (h.held asid hlt).mpr (.inl h0)
    rw [hclear] at hset
    cases hset
  constructor
  · constructor
    · exact (List.nodup_cons.mp hnd).2
    · intro x hx
      have hxe : x ≠ e := by
        rintro rfl
        exact hrest hx
      show ((k.claimed e asid parentId).envs x).envStatus = .free
      rw [claimed_other hxe]
      exact h.list.2 x (by rw [hl]; exact List.mem_cons_of_mem e hx)
  · intro i hi
    rw [asidBit_set]
    show _ = Function.update k.asidBitmap asid true i
    by_cases hia : i = asid
    · simp [hia]
    · simpa [hia] using h.bits i hi
  · intro x hx
    show 1 ≤ ((k.claimed e asid parentId).envs x).envAsid ∧
      ((k.claimed e asid parentId).envs x).envAsid < 64
    by_cases hxe : x = e
    · rw [hxe, hself]
      omega
    · rw [hother x hxe]
      exact h.range x (hold x hxe hx)
  · intro x x' hx hx' heq
    change ((k.claimed e asid parentId).envs x).envAsid =
      ((k.claimed e asid parentId).envs x').envAsid at heq
    by_cases hxe : x = e
    · by_cases hxe' : x' = e
      · rw [hxe, hxe']
      · rw [hxe, hself, hother x' hxe'] at heq
        exact absurd heq.symm (hfresh x' hxe' hx')
    · by_cases hxe' : x' = e
      · rw [hxe', hself, hother x hxe] at heq
        exact absurd heq (hfresh x hxe hx)
      · rw [hother x hxe, hother x' hxe'] at heq
        exact h.inj x x' (hold x hxe hx) (hold x' hxe' hx') heq
  · intro i hi
    show Function.update k.asidBitmap asid true i = true ↔
      i = 0 ∨ ∃ x, x ∉ rest ∧ ((k.claimed e asid parentId).envs x).envAsid = i
    by_cases hia : i = asid
    · rw [hia, Function.update_self]
      simp only [true_iff]
      exact .inr ⟨e, hrest, hself⟩
    · rw [Function.update_of_ne hia, h.held i hi]
      apply or_congr_right
      constructor
      · rintro ⟨x, hx, hxa⟩
        have hxe : x ≠ e := by
          rintro rfl
          exact hx (by rw [hl]; exact List.mem_cons_self ..)
        refine ⟨x, ?_, by rw [hother x hxe, hxa]⟩
        intro hm
        exact hx (by rw [hl]; exact List.mem_cons_of_mem e hm)
      · rintro ⟨x, hx, hxa⟩
        have hxe : x ≠ e := by
          rintro rfl
          exact hia (hxa.symm.trans hself)
        exact ⟨x, hold x hxe hx, by rw [← hother x hxe, hxa]⟩

theorem AsidInv.envAlloc (h : AsidInv k w) (ha : k.envAlloc parentId = .ok (r, k')) :
    AsidInv k' (k.allocWords w) := by
  have hlist := freeInv_envAlloc h.list ha
  rcases envAlloc_cases ha with ⟨hl, rfl, rfl⟩ | ⟨e, rest, hl, hnone, rfl, rfl⟩ |
    ⟨e, rest, asid, k₁, hl, hasid, rfl, hvm, rfl⟩
  · rw [allocWords, if_pos hl]
    exact h
  · have hwords : k.allocWords w = w := by
      rw [allocWords, if_neg (by simp [hl]), h.asidAllocWords, hnone]
      rfl
    rw [hwords]
    apply h.congr hlist
    · rfl
    · rfl
    · intro x
      by_cases hx : x = e
      · simp [hx, named, setEnv]
      · rw [named_other hx]
  · obtain ⟨s, rfl⟩ := envSetupVm_ok hvm
    rw [allocWords, if_neg (by simp [hl]), h.asidAllocWords, hasid]
    exact h.claim hl hasid s

theorem AsidRun.inv {s : Pmap EnvIdx} {base : Nat} (run : AsidRun s base k w) : AsidInv k w := by
  induction run with
  | init => exact envInit_asidInv s base
  | alloc _ h ih => exact ih.envAlloc h
  | free _ live h ih => exact ih.envFree live h
  | between _ h ih =>
    apply ih.congr (freeInv_between ih.list h) h.list h.asids
    exact fun e => congrArg (fun p => p.2.1) (h.identity e)

theorem AsidInv.maps (h : AsidInv k w) : ∀ e ∈ k.live, (k.envs e).envAsid ∈ Finset.Icc 1 63 := by
  intro e he
  have := h.range e (Finset.mem_filter.mp he).2
  rw [Finset.mem_Icc]
  omega

theorem AsidInv.injOn (h : AsidInv k w) : Set.InjOn (fun e => (k.envs e).envAsid) k.live := by
  intro e he e' he' heq
  exact h.inj e e' (Finset.mem_filter.mp he).2 (Finset.mem_filter.mp he').2 heq

theorem AsidInv.card_le (h : AsidInv k w) : k.live.card ≤ 63 := by
  have hcard := Finset.card_le_card_of_injOn _ h.maps h.injOn
  rwa [Nat.card_Icc] at hcard

/-- All ASIDs are taken when 63 envs hold one each. -/
theorem AsidInv.asidAlloc_none (h : AsidInv k w) : k.asidAlloc = none ↔ k.live.card = 63 := by
  have hset : k.asidAlloc = none ↔ ∀ i, i < 64 → k.asidBitmap i = true := by
    unfold asidAlloc
    rw [List.find?_eq_none]
    simp
  rw [hset]
  constructor
  · intro hall
    apply Nat.le_antisymm h.card_le
    have hsub : Finset.Icc 1 63 ⊆ k.live.image fun e => (k.envs e).envAsid := by
      intro i hi
      rw [Finset.mem_Icc] at hi
      rcases (h.held i (by omega)).mp (hall i (by omega)) with h0 | ⟨e, he, hea⟩
      · omega
      · exact Finset.mem_image.mpr ⟨e, Finset.mem_filter.mpr ⟨Finset.mem_univ e, he⟩, hea⟩
    calc 63 = (Finset.Icc 1 63).card := by rw [Nat.card_Icc]
      _ ≤ (k.live.image fun e => (k.envs e).envAsid).card := Finset.card_le_card hsub
      _ ≤ k.live.card := Finset.card_image_le
  · intro hcard i hi
    rw [h.held i hi]
    by_cases h0 : i = 0
    · exact .inl h0
    right
    have hsurj := Finset.surjOn_of_injOn_of_card_le (fun e => (k.envs e).envAsid) h.maps h.injOn (by
      rw [hcard, Nat.card_Icc])
    have hmem : i ∈ (Finset.Icc 1 63 : Finset Nat) := Finset.mem_Icc.mpr (by omega)
    obtain ⟨e, he, hea⟩ := hsurj hmem
    exact ⟨e, (Finset.mem_filter.mp he).2, hea⟩

end

/-- Over any run from `env_init`, the bitmap and the env table stay in step. -/
theorem asids_exact {s : Pmap EnvIdx} {base : Nat} {k : Kernel} {w : Nat → BitVec 32}
    (run : AsidRun s base k w) :
    (∀ e, e ∉ k.envFreeList → 1 ≤ (k.envs e).envAsid ∧ (k.envs e).envAsid ≤ 63) ∧
    (∀ e e', e ∉ k.envFreeList → e' ∉ k.envFreeList →
      (k.envs e).envAsid = (k.envs e').envAsid → e = e') ∧
    (∀ i, i < 64 → (asidBit w i = true ↔ i = 0 ∨ ∃ e, e ∉ k.envFreeList ∧ (k.envs e).envAsid = i)) ∧
    (∀ parentId, (∃ r k', k.envAlloc parentId = .ok (.error r, k')) ↔ k.live.card = 63) ∧
    ∀ parentId r k', k.envAlloc parentId = .ok (.error r, k') →
      r = -eNoFreeEnv ∧ k.asidAlloc = none ∧ k'.envFreeList = k.envFreeList := by
  have h := run.inv
  -- with 1024 envs live there would be too few ASIDs
  have hne : k.envFreeList ≠ [] := by
    intro hl
    have hall : k.live = Finset.univ := by
      unfold live
      rw [hl]
      simp
    have hle := h.card_le
    rw [hall, Finset.card_univ, Fintype.card_fin] at hle
    omega
  refine ⟨?_, h.inj, ?_, ?_, ?_⟩
  · intro e he
    have := h.range e he
    omega
  · intro i hi
    rw [h.bits i hi]
    exact h.held i hi
  · intro parentId
    rw [← h.asidAlloc_none]
    constructor
    · rintro ⟨r, k', ha⟩
      rcases envAlloc_cases ha with ⟨hl, -, -⟩ | ⟨e, rest, -, hnone, -, -⟩ |
        ⟨e, rest, asid, k₁, -, -, hr, -, -⟩
      · exact absurd hl hne
      · exact hnone
      · cases hr
    · intro hnone
      cases hl : k.envFreeList with
      | nil => exact absurd hl hne
      | cons e rest =>
        refine ⟨-eNoFreeEnv, k.named e, ?_⟩
        rw [envAlloc_eq hl, hnone]
  · intro parentId r k' ha
    rcases envAlloc_cases ha with ⟨hl, -, -⟩ | ⟨e, rest, -, hnone, hr, rfl⟩ |
      ⟨e, rest, asid, k₁, -, -, hr, -, -⟩
    · exact absurd hl hne
    · exact ⟨Except.error.inj hr, hnone, rfl⟩
    · cases hr

/-- The ASID of the env that is freed goes to the new one. -/
theorem asids_exact_again : ∃ k w, AsidRun demoPmap 0x82000000 k w ∧ (k.envs 0).envId = 4096 ∧
    (k.envs 0).envAsid = 1 ∧ asidBit w 1 = true := by
  have hev : secondLife.toOption.any (fun a => decide
      (0 ∉ a.1.2.envFreeList ∧ 0 ∉ a.2.2.2.envFreeList ∧ (a.2.2.2.envs 0).envId = 4096 ∧
      (a.2.2.2.envs 0).envAsid = 1)) = true := by decide +kernel
  obtain ⟨⟨⟨r₁, k₁⟩, k₂, r₃, k₃⟩, hk, hlive₁, hlive₃, hnew, hasid⟩ := Option.exists_of_any hev
  obtain ⟨_, h₁, hk⟩ := Except.bind_ok_iff.mp (Except.ok_of_toOption hk)
  obtain ⟨_, h₂, hk⟩ := Except.bind_ok_iff.mp hk
  obtain ⟨_, h₃, hk⟩ := Except.bind_ok_iff.mp hk
  cases hk
  have first := (AsidRun.alloc .init h₁).between (started_between hlive₁)
  have run := (first.free hlive₁ h₂).alloc h₃
  refine ⟨k₃, _, run, hnew, hasid, ?_⟩
  exact ((asids_exact run).2.2.1 1 (by decide)).mpr (.inr ⟨0, hlive₃, hasid⟩)

end Kernel

end RiscvMos
