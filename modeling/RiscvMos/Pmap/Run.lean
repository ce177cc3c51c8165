import RiscvMos.Pmap.Destroy
import RiscvMos.Pmap.View

/-!
Sequences of calls on any number of directories. Physical memory stays
consistent over all of them.
-/

namespace RiscvMos.Pmap

open RefCount (refs)

variable {D : Type}

inductive Call (D : Type) where
  | allocPgdir (d : D)
  | allocPage (d : D) (va perm : Nat)
  | mapPage (d : D) (va pa perm : Nat)
  | allocPageUser (d : D) (va perm : Nat)
  | mapPageUser (d : D) (va pa perm : Nat)
  | unmapPage (d : D) (va : Nat)
  | destroyPgdir (d : D)

def Call.run [DecidableEq D] (s : Pmap D) : Call D → Except Halt (Reply D)
  | allocPgdir d => s.allocPgdir d
  | allocPage d va perm => s.allocPage d va perm
  | mapPage d va pa perm => s.mapPage d va pa perm
  | allocPageUser d va perm => s.allocPageUser d va perm
  | mapPageUser d va pa perm => s.mapPageUser d va pa perm
  | unmapPage d va => s.unmapPage d va
  | destroyPgdir d => s.destroyPgdir d

/-- User addresses, and those of the window. -/
def Addressable (va : Nat) : Prop := va < ulim ∨ InWindow va

/-- `pa` is what `get_pa` returns for a mapped page with an address in `V`, or
it lies in a page table. -/
def Source (V : Nat → Prop) (s : Pmap D) (pa : Nat) : Prop :=
  (∃ d va, V va ∧ s.isMappedPage d va = true ∧ pa = s.getPa d va) ∨ s.TablePage (pa / 4096)

/-- How the kernel makes the calls. `env_alloc` clears `env_pgdir` before
`alloc_pgdir`; a page fault in the window comes from an env whose root table
`env_setup_vm` has mapped at `[3][3][3]`. -/
def Call.Legal (s : Pmap D) : Call D → Prop
  | allocPgdir d => s.pgdir d = 0
  | allocPage _ va _ => Addressable va
  | mapPage _ va pa _ => Addressable va ∧ Source Addressable s pa
  | allocPageUser d va _ => va < ulim ∨ (InWindow va ∧ s.ent (.pte1 d 3 3) ≠ none)
  | mapPageUser _ va pa _ => va < ulim ∧ Source (· < ulim) s pa
  | unmapPage _ va => Addressable va
  | destroyPgdir _ => True

namespace Addressable

variable {va : Nat} (h : Addressable va)
include h

theorem lt : va < 2 ^ 39 := by
  rcases h with h | h
  · exact h.trans (by decide)
  · exact h.lt

theorem not_shared : ¬ shared (vpn2 va) := by
  rcases h with h | h
  · exact not_shared_of_user h
  · rw [h.vpn2_eq]; decide

theorem not_kernel : ¬ (kernbase ≤ va ∧ va < kernbase + memorySize) := by
  simp only [Addressable, InWindow, ulim, pageTable] at h
  simp only [kernbase, memorySize]
  omega

end Addressable

variable {s s' : Pmap D}

theorem Source.tgt {V : Nat → Prop} {pa : Nat} (hV : ∀ va, V va → ¬ shared (vpn2 va))
    (h : Source V s pa) :
    (∃ d va, V va ∧ s.tgt (leafSlot d va) = some (pa / 4096)) ∨ s.TablePage (pa / 4096) := by
  rcases h with ⟨d, va, hva, hm, rfl⟩ | h
  · obtain ⟨perm, he⟩ := view_of_isMappedPage (hV va hva) hm
    exact .inl ⟨d, va, hva, tgt_eq_some.mpr ⟨perm, he⟩⟩
  · exact .inr h

variable [Fintype D] {M : Nat → Prop}

theorem Source.mappable {V : Nat → Prop} {pa : Nat} (hs : Consistent M s)
    (hV : ∀ va, V va → ¬ shared (vpn2 va)) (h : Source V s pa) : mappablePa pa := by
  have hM : M (pa / 4096) := by
    rcases h.tgt hV with ⟨d', va', -, ht⟩ | ⟨x, -, ht⟩
    · exact hs.mem_of_tgt ht
    · exact hs.mem_of_tgt ht
  have hram := hs.ram _ hM
  left
  simp only [inRam, kernbase, memorySize] at *
  omega

variable [DecidableEq D]

/-- A legal call that returns 0 leaves memory consistent. -/
theorem Call.consistent (hs : Consistent M s) {c : Call D} (hl : c.Legal s)
    (h : c.run s = .ok (0, s')) (hrefs : ∀ p, refs s'.tgt p < 65536) : Consistent M s' := by
  cases c with
  | allocPgdir d => exact (allocPgdir_spec hs hl h).1
  | allocPage d va perm => exact (allocPage_spec hs hl.lt hl.not_shared h).1
  | mapPage d va pa perm =>
    obtain ⟨hva, hsrc⟩ := hl
    obtain ⟨-, -, -, -, hcons⟩ := mapPage_spec hs hva.lt hva.not_shared h
    refine hcons ?_ (hrefs _)
    rcases hsrc.tgt fun va hva => hva.not_shared with ⟨d', va', -, ht⟩ | ⟨x, -, ht⟩
    · exact ⟨_, ht⟩
    · exact ⟨x, ht⟩
  | allocPageUser d va perm =>
    rcases hl with hva | ⟨hva, htab⟩
    · have hlt : va < 2 ^ 39 := hva.trans (by decide)
      exact (allocPageUser_spec hs hlt (not_shared_of_user hva)
        (apart_of_ne s hlt (vpn2_ne_three_of_user hva)) h).1
    · exact (allocPageUser_spec hs hva.lt (by rw [hva.vpn2_eq]; decide)
        (apart_of_window hva htab) h).1
  | mapPageUser d va pa perm =>
    obtain ⟨hva, hsrc⟩ := hl
    have hlt : va < 2 ^ 39 := hva.trans (by decide)
    obtain ⟨-, -, -, -, hcons⟩ := mapPageUser_spec hs hlt (not_shared_of_user hva)
      (apart_of_ne s hlt (vpn2_ne_three_of_user hva)) h
    refine hcons ?_ (hrefs _)
    rcases hsrc.tgt fun va hva => not_shared_of_user hva with ⟨d', va', hva', ht⟩ | ⟨x, hx, ht⟩
    · -- a user page keeps its slot: the self-maps only touch the window
      refine ⟨_, ht, .inr fun hself => ?_⟩
      have := selfTouched_window hlt hself
      simp [InWindowSlot, vpn2_ne_three_of_user hva'] at this
    · exact ⟨x, ht, .inl hx⟩
  | unmapPage d va =>
    obtain ⟨s₁, h₁, hs₁, -⟩ := unmapPage_ok (d := d) hs hl.not_shared hl.not_kernel
    obtain ⟨-, rfl⟩ := Prod.mk.inj (Except.ok.inj (h₁.symm.trans h))
    exact hs₁
  | destroyPgdir d =>
    obtain ⟨s₁, h₁, hE, -⟩ := destroyPgdir_ok hs d
    obtain ⟨-, rfl⟩ := Prod.mk.inj (Except.ok.inj (h₁.symm.trans h))
    exact hE.consistent

/-- A sequence of legal calls, none of which fails and none of which gives a
page 65536 references. -/
inductive Run : Pmap D → List (Call D) → Pmap D → Prop where
  | nil (s : Pmap D) : Run s [] s
  | cons {s s₁ s' : Pmap D} {c : Call D} {cs : List (Call D)} (hl : c.Legal s)
      (h : c.run s = .ok (0, s₁)) (hrefs : ∀ p, refs s₁.tgt p < 65536) (hr : Run s₁ cs s') :
      Run s (c :: cs) s'

theorem run_consistent (hs : Consistent M s) {cs : List (Call D)} (h : Run s cs s') :
    Consistent M s' := by
  induction h with
  | nil s => exact hs
  | cons hl hc hrefs _ ih => exact ih (Call.consistent hs hl hc hrefs)

omit [DecidableEq D] in
theorem Consistent.refs_lt (hs : Consistent M s) (p : Nat) : refs s.tgt p < 65536 := by
  by_cases hp : M p
  · rw [← hs.counted.count p hp]
    exact hs.small p hp
  · have : refs s.tgt p = 0 := RefCount.refs_eq_zero_iff.mpr fun x hx => hp (hs.mem_of_tgt hx)
    omega

/-- Memory before the first env: no directories, every page free. -/
def boot (D : Type) (free : List Nat) : Pmap D :=
  { mem := fun _ _ => 0, ppRef := fun _ => 0, pageFreeList := free, pgdir := fun _ => 0 }

omit [DecidableEq D] [Fintype D] in
theorem noDirs_ent (hd : ∀ d, s.pgdir d = 0) (x : Slot D) : s.ent x = none := by
  induction x using Slot.child_induction with
  | hroot d => simp [ent, ent.root, hd d]
  | hchild x i hx ih => exact ent_child_none hx ih i

omit [DecidableEq D] in
/-- Without directories, memory is consistent if its free pages have no
references. -/
theorem noDirs_consistent (hd : ∀ d, s.pgdir d = 0) (hnd : s.pageFreeList.Nodup)
    (href : ∀ p ∈ s.pageFreeList, s.ppRef p = 0) (hram : ∀ p ∈ s.pageFreeList, inRam p) :
    Consistent (· ∈ s.pageFreeList) s := by
  have htgt : ∀ x, s.tgt x = none := fun x => tgt_eq_none.mpr (noDirs_ent hd x)
  have hrefs : ∀ p, refs s.tgt p = 0 := fun p =>
    RefCount.refs_eq_zero_iff.mpr fun x => by simp [htgt x]
  refine ⟨⟨fun p hp => ?_, fun p hp => ?_, hnd, fun p hp => hp, ?_⟩, ?_, ?_, ?_, hram⟩
  · rw [href p hp, hrefs]
  · exact ⟨fun _ => href p hp, fun _ => hp⟩
  · intro x p h
    rw [htgt] at h; cases h
  · intro p hp; simp [href p hp]
  · intro x y p _ _ h
    rw [htgt] at h; cases h
  · intro d; rw [hd d]

/-! Evaluating a call on a concrete state. -/

/-- The code a call returns, if it returns. -/
def Call.code (s : Pmap D) (c : Call D) : Option Int :=
  match c.run s with
  | .ok (r, _) => some r
  | .error _ => none

/-- The state a call leaves. -/
def Call.after (s : Pmap D) (c : Call D) : Pmap D :=
  match c.run s with
  | .ok (_, s') => s'
  | .error _ => s

omit [Fintype D] in
theorem Call.run_after {c : Call D} (h : c.code s = some 0) : c.run s = .ok (0, c.after s) := by
  unfold code at h
  unfold after
  cases hr : c.run s with
  | error e => simp [hr] at h
  | ok r =>
    rw [hr] at h
    obtain ⟨r, s'⟩ := r
    rw [Option.some.inj h]

def somePages : List Nat := List.range' 0x83000 32

theorem somePages_consistent : Consistent (· ∈ somePages) (boot EnvIdx somePages) :=
  noDirs_consistent (s := boot EnvIdx somePages) (fun _ => rfl) (by decide)
    (fun _ _ => rfl) (by decide)

/-- An empty directory. -/
def oneDir : Pmap EnvIdx := (Call.allocPgdir 0).after (boot EnvIdx somePages)

theorem oneDir_run : Call.run (boot EnvIdx somePages) (.allocPgdir 0) = .ok (0, oneDir) :=
  Call.run_after (by decide +kernel)

theorem oneDir_consistent : Consistent (· ∈ somePages) oneDir :=
  (allocPgdir_spec somePages_consistent rfl oneDir_run).1

/-- A directory with a page at `0x400000`. -/
def onePage : Pmap EnvIdx :=
  (Call.allocPageUser 0 0x400000 (pteR ||| pteW ||| pteU)).after oneDir

theorem onePage_run :
    Call.run oneDir (.allocPageUser 0 0x400000 (pteR ||| pteW ||| pteU)) = .ok (0, onePage) :=
  Call.run_after (by decide +kernel)

theorem onePage_consistent : Consistent (· ∈ somePages) onePage :=
  (allocPageUser_spec oneDir_consistent (by decide) (by decide)
    (apart_of_ne oneDir (by decide) (by decide)) onePage_run).1

theorem run_consistent_onePage : ∃ s', Run (boot EnvIdx somePages) [.allocPgdir 0,
    .allocPageUser 0 0x400000 (pteR ||| pteW ||| pteU), .unmapPage 0 0x400000, .destroyPgdir 0] s' ∧
    Consistent (· ∈ somePages) s' := by
  obtain ⟨s₁, h₁, hs₁, -⟩ : ∃ s', onePage.unmapPage 0 0x400000 = .ok (0, s') ∧
      Consistent (· ∈ somePages) s' ∧ Stored (· ∈ somePages) 0 0x400000 none onePage s' :=
    unmapPage_ok onePage_consistent (by decide) (by decide)
  obtain ⟨s₂, h₂, hE, -⟩ := destroyPgdir_ok hs₁ 0
  have hr : Run (boot EnvIdx somePages)
      [.allocPgdir 0, .allocPageUser 0 0x400000 (pteR ||| pteW ||| pteU), .unmapPage 0 0x400000,
        .destroyPgdir 0] s₂ :=
    .cons rfl oneDir_run oneDir_consistent.refs_lt <|
    .cons (.inl (by decide)) onePage_run onePage_consistent.refs_lt <|
    .cons (.inl (by decide)) h₁ hs₁.refs_lt <|
    .cons trivial h₂ hE.consistent.refs_lt <| .nil s₂
  exact ⟨s₂, hr, run_consistent somePages_consistent hr⟩

end RiscvMos.Pmap
