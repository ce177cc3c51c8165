import RiscvMos.Env.Fault
import RiscvMos.Pmap.Run
import RiscvMos.Pmap.Shared

/-!
What a page fault does to translations. Permission upgrades, the way into the
copy-on-write handler and demand paging of a free user address keep them. A load
fault on a mapped page falls through to demand paging, which puts another page
in its place; and so does demand paging behind the shared root entries.
-/

namespace RiscvMos.Pmap

variable {D : Type} [DecidableEq D]

/-- An env can take a page fault: its directory has its root, the shared entries
and the window's table for the root; no user page is a table, and no page of the
window is copy-on-write. -/
structure FaultReady [Fintype D] (M K1 K0 : Nat → Prop) (s : Pmap D) (d : D) : Prop where
  consistent : Consistent M s
  kernel : KernelHalf M K1 K0 s
  live : s.pgdir d ≠ 0
  entries : ∀ i, shared i → valid (s.mem (s.pgdir d >>> 12) i)
  window : s.ent (.pte1 d 3 3) ≠ none
  userApart : s.UserApart
  noCow : ∀ j k p perm, s.ent (.pte0 d 3 j k) = some (p, perm) → perm &&& pteCow = 0

section
variable [Fintype D] {M K1 K0 : Nat → Prop} {s s' : Pmap D} {d : D} {va : Nat}

omit [DecidableEq D] [Fintype D] in
theorem touched_root {d' : D} (hva : va < 2 ^ 39) (h : Touched (OnPath d) d va (.root d')) :
    d' = d := by
  rcases h with h | h
  · simpa [OnPath, leafSlot] using h
  · simpa [InWindowSlot] using selfTouched_window hva h

omit [DecidableEq D] [Fintype D] in
/-- With the window's table in place every address is apart from its self-maps. -/
theorem apart_of_pte1 (hw : s.ent (.pte1 d 3 3) ≠ none) (hva : va < 2 ^ 39) :
    Apart (OnPath d) d va s := by
  by_cases h3 : vpn2 va = 3
  · exact apart_of_window (inWindow_of_vpn2 hva h3) hw
  · exact apart_of_ne s hva h3

omit [DecidableEq D] in
theorem FaultReady.apart (hr : FaultReady M K1 K0 s d) (hva : va < 2 ^ 39) :
    Apart (OnPath d) d va s := apart_of_pte1 hr.window hva

/-- Demand paging of an address that is not mapped and not shared. -/
theorem demand_frame (hr : FaultReady M K1 K0 s d) (hva : va < 2 ^ 39) (hv : ¬ shared (vpn2 va))
    (hm : s.isMappedPage d va = false) {perm : Nat} {r : Int}
    (h : s.allocPageUser d va perm = .ok (r, s')) : Frame M (Touched (OnPath d) d va) s s' := by
  by_cases h0 : r = 0
  · subst h0
    exact (allocPageUser_spec hr.consistent hva hv (hr.apart hva) h).2.1
  · have hnone : s.ent (leafSlot d va) = none := by
      rw [isMappedPage_eq hv] at hm
      simpa [view] using hm
    exact (allocPageUser_fail hr.consistent hva hv (hr.apart hva) hnone h h0).2.1

theorem demand_kept (hr : FaultReady M K1 K0 s d) (hva : va < 2 ^ 39) (hv : ¬ shared (vpn2 va))
    (hm : s.isMappedPage d va = false) {perm : Nat} {r : Int}
    (h : s.allocPageUser d va perm = .ok (r, s')) : TranslationsKept s s' d va := by
  refine hr.kernel.translationsKept (demand_frame hr hva hv hm h) (fun d' hd' => ?_) fun hm' => ?_
  · rw [touched_root hva hd']
    exact hr.live
  · rw [hm] at hm'
    cases hm'

/-! ## The exception stack -/

omit [DecidableEq D] [Fintype D] in
theorem getPa_of_not_mapped (hd : s.pgdir d ≠ 0) (hm : s.isMappedPage d va = false) :
    s.getPa d va = noAddr := by
  cases hl : s.leafPte (s.pgdir d >>> 12) va with
  | none => rw [getPa_leafPte, hl]; rfl
  | some w =>
    rw [isMappedPage_leafPte.mpr ⟨hd, by rw [hl]; rfl⟩] at hm
    cases hm

omit [DecidableEq D] in
/-- Where the frame is stored: a user page, and so no table. -/
theorem storeFrame_eq {tf : Trapframe} (hs : Consistent M s) (hu : s.UserApart)
    (hd : s.pgdir d ≠ 0) (h : s.storeFrame d tf = .ok s') :
    s.isMappedPage d uxframe = true ∧ ∃ p, M p ∧ ¬ s.TablePage p ∧
      s.tgt (leafSlot d uxframe) = some p ∧ s' = s.writePage p (frameWords tf (s.mem p)) := by
  unfold storeFrame at h
  simp only at h
  split at h
  · rename_i hram
    obtain rfl := Except.ok.inj h
    have hux : uxframe < ulim := by decide
    have hm : s.isMappedPage d uxframe = true := by
      by_contra hm
      rw [getPa_of_not_mapped hd (by simpa using hm)] at hram
      revert hram
      decide
    obtain ⟨perm, hview⟩ := view_of_isMappedPage (not_shared_of_user hux) hm
    have htgt : s.tgt (leafSlot d uxframe) = some (s.getPa d uxframe / 4096) :=
      tgt_eq_some.mpr ⟨perm, hview⟩
    refine ⟨hm, s.getPa d uxframe / 4096, hs.mem_of_tgt htgt, hu d uxframe hux _ htgt, htgt, ?_⟩
    simp only [writePage, Nat.shiftRight_eq_div_pow]
  · cases h

/-- The exception stack before the frame is stored on it. -/
theorem enterCow_eq (hr : FaultReady M K1 K0 s d) {tf : Trapframe}
    (h : s.enterCow d tf = .ok s') :
    ∃ s₁ p, Consistent M s₁ ∧ s₁.UserApart ∧ Frame M (Touched (OnPath d) d uxframe) s s₁ ∧
      (s.isMappedPage d uxframe = true → s₁ = s) ∧ M p ∧ ¬ s₁.TablePage p ∧
      s₁.tgt (leafSlot d uxframe) = some p ∧ WindowBut (leafSlot d uxframe) s s₁ ∧
      s' = s₁.writePage p (frameWords tf (s₁.mem p)) := by
  have hux : uxframe < ulim := by decide
  have hlt : uxframe < 2 ^ 39 := by decide
  have hv := not_shared_of_user hux
  unfold enterCow at h
  split at h
  · rename_i hm
    obtain ⟨⟨r, s₁⟩, ha, h⟩ := Except.bind_ok_iff.mp h
    have hf := demand_frame hr hlt hv hm ha
    have hroots := sameRoots_of_frame hf fun d' hd' => by rw [touched_root hlt hd']; exact hr.live
    have hd₁ : s₁.pgdir d ≠ 0 := fun h0 => hr.live ((hroots d).1.mp h0)
    by_cases h0 : r = 0
    · subst h0
      obtain ⟨hs₁, -, hbut, -⟩ := allocPageUser_spec hr.consistent hlt hv (hr.apart hlt) ha
      have hu₁ := allocPageUser_userApart hr.consistent hlt hv (hr.apart hlt) hr.userApart ha
      obtain ⟨-, p, hM, hp, htgt, hs'⟩ := storeFrame_eq hs₁ hu₁ hd₁ h
      refine ⟨s₁, p, hs₁, hu₁, hf, fun hm' => ?_, hM, hp, htgt, hbut, hs'⟩
      rw [hm] at hm'
      cases hm'
    · -- without a page for the stack there is nothing to store to
      have hnone : s.ent (leafSlot d uxframe) = none := by
        rw [isMappedPage_eq hv] at hm
        simpa [view] using hm
      obtain ⟨-, -, -, hnone₁⟩ :=
        allocPageUser_fail hr.consistent hlt hv (hr.apart hlt) hnone ha h0
      have hm₁ : s₁.isMappedPage d uxframe = false := by
        rw [isMappedPage_eq hv, view, hnone₁]
        rfl
      simp only [storeFrame, getPa_of_not_mapped hd₁ hm₁] at h
      cases h
  · rename_i hm
    obtain ⟨-, p, hM, hp, htgt, hs'⟩ := storeFrame_eq hr.consistent hr.userApart hr.live h
    exact ⟨s, p, hr.consistent, hr.userApart, Frame.refl s, fun _ => rfl, hM, hp, htgt,
      fun x _ _ => .inl (.refl x s), hs'⟩

theorem enterCow_kept (hr : FaultReady M K1 K0 s d)
    (hm : s.isMappedPage d va = true) (hcow : s.getPerm d va &&& pteCow ≠ 0) {tf : Trapframe}
    (h : s.enterCow d tf = .ok s') : TranslationsKept s s' d va := by
  obtain ⟨s₁, p, hs₁, -, hf, hkeep, hM, hp, -, -, rfl⟩ := enterCow_eq hr h
  have hroots := sameRoots_of_frame hf fun d' hd' => by
    rw [touched_root (by decide) hd']
    exact hr.live
  have hk₁ := hr.kernel.of_frame hf hroots
  have hd₁ : ∀ d', s.pgdir d' ≠ 0 → s₁.pgdir d' ≠ 0 := fun d' hd' h0 => hd' ((hroots d').1.mp h0)
  have hleaf : ∀ d' va', s.pgdir d' ≠ 0 → shared (vpn2 va') →
      (s₁.writePage p (frameWords tf (s₁.mem p))).leafPte (s.pgdir d' >>> 12) va' =
        s.leafPte (s.pgdir d' >>> 12) va' := by
    intro d' va' hd' hv'
    rw [← hr.kernel.leafPte_frame hf hd' hv', ← (hroots d').2]
    refine writePage_leafPte hk₁ ?_ (fun h => hk₁.own1 p h hM) (fun h => hk₁.own0 p h hM) _
      (hd₁ d' hd') hv'
    rintro h
    exact hp ⟨.root d', trivial, by simp [tgt, ent, ent.root, hd₁ d' hd', h]⟩
  refine translationsKept_of_leafPte hroots (fun _ => ?_) fun d' va' hd' hv' => by
    rw [hleaf d' va' hd' hv']
  by_cases hv : shared (vpn2 va)
  · rw [getPa_leafPte, getPa_leafPte, show (s₁.writePage p _).pgdir d >>> 12 = _ from (hroots d).2,
      hleaf d va hr.live hv]
  · -- the page is none of those that the new tables are mapped over
    have hview : (s₁.writePage p (frameWords tf (s₁.mem p))).view d va = s.view d va := by
      rw [view, writePage_ent hp]
      by_cases hux : s.isMappedPage d uxframe = true
      · rw [hkeep hux]
        rfl
      refine hf.ent_eq _ ?_
      rintro (hpath | hself)
      · have hslot : leafSlot d va = leafSlot d uxframe := by simpa [OnPath, leafSlot] using hpath
        rw [isMappedPage_eq hv, view, hslot] at hm
        rw [isMappedPage_eq (by decide)] at hux
        exact hux hm
      · obtain ⟨perm, he⟩ := view_of_isMappedPage hv hm
        have hwin := selfTouched_window (by decide) hself
        have h3 : vpn2 va = 3 := by simpa [InWindowSlot] using hwin
        rw [getPerm_of_view hv he] at hcow
        rw [view, leafSlot, h3] at he
        exact hcow (hr.noCow _ _ _ _ he)
    have hd' : (s₁.writePage p (frameWords tf (s₁.mem p))).pgdir d ≠ 0 := hd₁ d hr.live
    rw [getPa_eq hr.live hv, getPa_eq hd' hv, hview]

/-! ## A page in the place of another -/

/-- The free list once a reference to `p` has been given up. -/
def freeAfterDrop (s : Pmap D) (p : Nat) : List Nat :=
  if (s.ppRef p + 65535) % 65536 = 0 then p :: s.pageFreeList else s.pageFreeList

/-- `alloc_page_user` over the mapped page `va` gets a page, and it is another
one, or one that user code could not reach there before. -/
def Replaces (s : Pmap D) (d : D) (va : Nat) : Prop :=
  inRam (s.getPa d va / 4096) ∧
  match s.freeAfterDrop (s.getPa d va / 4096) with
  | [] => False
  | q :: _ => q ≠ s.getPa d va / 4096 ∨ (shared (vpn2 va) ∧ s.getPerm d va &&& pteU = 0)

omit [DecidableEq D] [Fintype D] in
theorem leafPte_of_mem (hmem : s'.mem = s.mem) (r va : Nat) : s'.leafPte r va = s.leafPte r va := by
  simp only [leafPte, walk, hmem]

omit [DecidableEq D] [Fintype D] in
theorem translationsKept_of_mem (hmem : s'.mem = s.mem) (hp : s'.pgdir = s.pgdir) :
    TranslationsKept s s' d va := by
  have hleaf := leafPte_of_mem hmem
  refine translationsKept_of_leafPte (fun d' => ?_) (fun _ => ?_) fun d' va' _ _ => ?_
  · rw [hp]
    exact ⟨Iff.rfl, rfl⟩
  · rw [getPa_leafPte, getPa_leafPte, hp, hleaf]
  · rw [hleaf]

omit [DecidableEq D] [Fintype D] in
theorem TranslationsKept.congr {s₁ : Pmap D} (h : TranslationsKept s s₁ d va)
    (hmem : s'.mem = s₁.mem) (hp : s'.pgdir = s₁.pgdir) : TranslationsKept s s' d va := by
  have hpa : s'.getPa = s₁.getPa := by
    funext d' va'
    simp only [getPa, walk, hmem, hp]
  have hperm : s'.getPerm = s₁.getPerm := by
    funext d' va'
    simp only [getPerm, walk, hmem, hp]
  have hm : s'.isMappedPage = s₁.isMappedPage := by
    funext d' va'
    simp only [isMappedPage, walk, hmem, hp]
  refine ⟨?_, ?_, ?_⟩
  · rw [hpa]
    exact h.same
  · rw [hpa]
    exact h.kernel
  · rw [hm, hperm]
    exact h.noUser

omit [DecidableEq D] [Fintype D] in
/-- What demand paging does to the entry of a mapped page. -/
theorem replaceLeaf_eq (perm : Nat) {t0 : Nat} (hv : valid (s.mem t0 (vpn0 va)))
    (hram : inRam (ptePage (s.mem t0 (vpn0 va)))) :
    ∃ r s', replaceLeaf va perm s t0 = .ok (r, s') ∧ s'.pgdir = s.pgdir ∧
      (s.freeAfterDrop (ptePage (s.mem t0 (vpn0 va))) = [] → s'.mem = s.mem) ∧
      ∀ q rest, s.freeAfterDrop (ptePage (s.mem t0 (vpn0 va))) = q :: rest → r = 0 ∧
        s'.mem = ((s.writePage q fun _ => 0).setPte t0 (vpn0 va) (mkPte (page2pa q) perm)).mem := by
  unfold replaceLeaf clearRef freeAfterDrop
  simp only [if_pos hv, if_pos hram]
  by_cases h0 : (s.ppRef (ptePage (s.mem t0 (vpn0 va))) + 65535) % 65536 = 0
  · simp only [h0, if_true]
    refine ⟨0, _, rfl, rfl, fun h => (by cases h), fun q rest h => ?_⟩
    obtain ⟨rfl, -⟩ := List.cons.inj h
    exact ⟨rfl, rfl⟩
  · simp only [h0, if_false]
    cases hl : s.pageFreeList with
    | nil =>
      simp only [bind, Except.bind, allocLeaf, allocEntry, pageAlloc]
      exact ⟨_, _, rfl, rfl, fun _ => rfl, fun q rest h => by cases h⟩
    | cons q rest =>
      simp only [bind, Except.bind, allocLeaf, allocEntry, pageAlloc]
      refine ⟨0, _, rfl, rfl, fun h => (by cases h), fun q' rest' h => ?_⟩
      obtain ⟨rfl, -⟩ := List.cons.inj h
      exact ⟨rfl, rfl⟩

omit [DecidableEq D] [Fintype D] in
/-- The entry for `va` once page `q` is cleared and `w` stored in it: the walk
may have gone through `q`. -/
theorem leafPte_replaced {r t1 t0 q w : Nat} (hv2 : valid (s.mem r (vpn2 va)))
    (ht1 : ptePage (s.mem r (vpn2 va)) = t1) (hv1 : valid (s.mem t1 (vpn1 va)))
    (ht0 : ptePage (s.mem t1 (vpn1 va)) = t0) (hr : r ≠ t0) (h10 : t1 ≠ t0) (hw : valid w) :
    ((s.writePage q fun _ => 0).setPte t0 (vpn0 va) w).leafPte r va =
      if r = q ∨ t1 = q then none else some w := by
  have hmem : ∀ p, p ≠ t0 → ∀ k, ((s.writePage q fun _ => 0).setPte t0 (vpn0 va) w).mem p k =
      if p = q then 0 else s.mem p k := by
    intro p hp k
    rw [setPte_mem_of_ne _ _ _ hp, writePage]
    by_cases hq : p = q <;> simp [hq]
  have hleaf : ((s.writePage q fun _ => 0).setPte t0 (vpn0 va) w).mem t0 (vpn0 va) = w := by
    rw [setPte_mem, if_pos ⟨rfl, rfl⟩]
  unfold leafPte walk
  simp only [hmem r hr]
  by_cases hrq : r = q
  · simp [hrq]
  · simp only [hrq, if_false, hv2, if_true, ht1, hmem t1 h10, false_or]
    by_cases h1q : t1 = q
    · simp [h1q]
    · simp only [h1q, if_false, hv1, if_true, ht0, hleaf, hw]

omit [DecidableEq D] in
/-- The tables on the way to a mapped page. -/
theorem FaultReady.path (hr : FaultReady M K1 K0 s d) (hm : s.isMappedPage d va = true) :
    ∃ t1 t0, valid (s.mem (s.pgdir d >>> 12) (vpn2 va)) ∧
      ptePage (s.mem (s.pgdir d >>> 12) (vpn2 va)) = t1 ∧ valid (s.mem t1 (vpn1 va)) ∧
      ptePage (s.mem t1 (vpn1 va)) = t0 ∧ s.pgdir d >>> 12 ≠ t0 ∧ t1 ≠ t0 ∧
      (shared (vpn2 va) → K1 t1 ∧ K0 t0) ∧
      (¬ shared (vpn2 va) → s.tgt (.pte2 d (vpn2 va)) = some t1 ∧
        s.tgt (.pte1 d (vpn2 va) (vpn1 va)) = some t0) ∧
      s.walk (s.pgdir d >>> 12) va = .pte0 t0 ∧ valid (s.mem t0 (vpn0 va)) := by
  obtain ⟨hd, t0, hw, hv0, -⟩ := exists_leafPte hm
  have hroot : s.tgt (.root d) = some (s.pgdir d >>> 12) := by simp [tgt, ent, ent.root, hd]
  have hw' := hw
  unfold walk at hw'
  simp only at hw'
  split at hw'
  · rename_i hv2
    split at hw'
    · rename_i hv1
      obtain rfl := Walk.pte0.inj hw'
      by_cases hv : shared (vpn2 va)
      · have h1 := hr.kernel.table1 d _ hd hv hv2
        have h0 := hr.kernel.table0 _ _ h1 hv1
        refine ⟨_, _, hv2, rfl, hv1, rfl, ?_, ?_, fun _ => ⟨h1, h0⟩,
          fun hn => absurd hv hn, hw, hv0⟩
        · intro h
          apply hr.kernel.own0 _ h0
          rw [← h]
          exact hr.consistent.mem_of_tgt hroot
        · intro h
          rw [← h] at h0
          exact hr.kernel.levels _ h1 h0
      · have h2 : s.tgt (.pte2 d (vpn2 va)) = some _ := tgt_eq_some.mpr
          ⟨_, (ent_child_of (x := .root d) trivial hv hroot).trans (by rw [entry, if_pos hv2])⟩
        have h1 : s.tgt (.pte1 d (vpn2 va) (vpn1 va)) = some _ := tgt_eq_some.mpr
          ⟨_, (ent_child_of (x := .pte2 d (vpn2 va)) trivial id h2).trans
            (by rw [entry, if_pos hv1])⟩
        refine ⟨_, _, hv2, rfl, hv1, rfl, ?_, ?_, fun h => absurd h hv, fun _ => ⟨h2, h1⟩, hw, hv0⟩
        · intro h
          rw [← h] at h1
          cases hr.consistent.distinct (x := .root d) (y := .pte1 d _ _) trivial trivial hroot h1
        · intro h
          rw [← h] at h1
          cases hr.consistent.distinct (x := .pte2 d _) (y := .pte1 d _ _) trivial trivial h2 h1
    · cases hw'
  · cases hw'

omit [DecidableEq D] in
/-- The page that replaces a private page is no table. -/
theorem not_tablePage_of_freeAfterDrop (hs : Consistent M s) {p q : Nat} {rest : List Nat}
    (hp : s.tgt (leafSlot d va) = some p) (hq : s.freeAfterDrop p = q :: rest) :
    M q ∧ ¬ s.TablePage q := by
  have hM := hs.mem_of_tgt hp
  have hpos := hs.counted.ref_pos_of_tgt hp
  have hlt := hs.small p hM
  have hfree : q ∈ s.pageFreeList → M q ∧ ¬ s.TablePage q := by
    intro hmem
    refine ⟨hs.counted.free_sub q hmem, ?_⟩
    rintro ⟨y, -, hy⟩
    exact hs.counted.tgt_ne_of_free hmem y hy
  unfold freeAfterDrop at hq
  split at hq
  · obtain ⟨rfl, -⟩ := List.cons.inj hq
    refine ⟨hM, ?_⟩
    rintro ⟨y, hy, hyp⟩
    have h1 : RefCount.refs s.tgt p = 1 := by
      rw [← hs.counted.count p hM]
      omega
    rw [RefCount.eq_of_refs_one h1 hyp hp] at hy
    exact hy
  · exact hfree (by rw [hq]; exact List.mem_cons_self)

omit [DecidableEq D] [Fintype D] in
theorem ptePage_lt (w : Nat) : ptePage w < 2 ^ 44 := by
  rw [ptePage_eq]
  exact Nat.mod_lt _ (by decide)

omit [DecidableEq D] in
theorem lt_of_freeAfterDrop (hs : Consistent M s) {p q : Nat} {rest : List Nat} (hp : inRam p)
    (hq : s.freeAfterDrop p = q :: rest) : page2pa q < 2 ^ 56 := by
  have hram : inRam q := by
    unfold freeAfterDrop at hq
    split at hq
    · obtain ⟨rfl, -⟩ := List.cons.inj hq
      exact hp
    · exact hs.ram q (hs.counted.free_sub q (by rw [hq]; exact List.mem_cons_self))
  have := hram.2
  rw [page2pa, Nat.shiftLeft_eq]
  omega

omit [DecidableEq D] [Fintype D] in
/-- A page of the kernel half that user code can already reach may be cleared
and mapped anew. -/
theorem translationsKept_refill (hk : KernelHalf M K1 K0 s)
    (hroot : ∀ d, s.pgdir d ≠ 0 → M (s.pgdir d >>> 12)) {t0 w : Nat} {k : Vpn} (ht0 : K0 t0)
    (hv0 : valid (s.mem t0 k)) (hu : s.mem t0 k &&& pteU ≠ 0) (hvw : valid w)
    (hw : userPage w = userPage (s.mem t0 k)) (f : Vpn → Nat) (hv : shared (vpn2 va)) :
    TranslationsKept s ((s.writePage (ptePage (s.mem t0 k)) f).setPte t0 k w) d va := by
  obtain ⟨hM, hK1, hK0⟩ := hk.user t0 k ht0 hv0 hu
  have hmem : (s.writePage (ptePage (s.mem t0 k)) f).mem t0 = s.mem t0 := by
    have ht0p : t0 ≠ ptePage (s.mem t0 k) := by
      intro h
      rw [← h] at hK0
      exact hK0 ht0
    simp [writePage, ht0p]
  have hleaf : ∀ d' va', s.pgdir d' ≠ 0 → shared (vpn2 va') →
      (((s.writePage (ptePage (s.mem t0 k)) f).setPte t0 k w).leafPte (s.pgdir d' >>> 12) va').map
        userPage = (s.leafPte (s.pgdir d' >>> 12) va').map userPage := by
    intro d' va' hd' hv'
    rw [leafPte_setPte (by rw [hmem]; exact iff_of_true hvw hv0) (by rw [hmem]; exact hw)]
    rw [writePage_leafPte hk ?_ hK1 hK0 f hd' hv']
    intro h
    rw [← h] at hM
    exact hM (hroot d' hd')
  refine translationsKept_of_leafPte (.refl s) (fun hm => ?_) hleaf
  obtain ⟨hd, t, -, -, hl⟩ := exists_leafPte hm
  have h := hleaf d va hd hv
  rw [hl] at h
  obtain ⟨x, hx, hxe⟩ := Option.map_eq_some_iff.mp h
  rw [getPa_of_leafPte hl, getPa_of_leafPte hx, (Prod.mk.inj hxe).1]

omit [DecidableEq D] [Fintype D] in
theorem and_pteU {w : Nat} (h : w &&& pteU ≠ 0) : w &&& pteU = pteU := by
  have hbit := Nat.and_two_pow w 4
  change w &&& pteU = _ * pteU at hbit
  cases hb : w.testBit 4 with
  | true => simpa [hb] using hbit
  | false =>
    rw [hb] at hbit
    exact absurd (by simpa using hbit) h

theorem demandPerm_lt : demandPerm < 0x400 := by decide

/-- The entry of a demand-zero page. -/
theorem userPage_demand {q : Nat} (hlt : page2pa q < 2 ^ 56) :
    userPage (mkPte (page2pa q) demandPerm) = (q, pteU) := by
  apply Prod.ext
  · exact (ptePage_mkPte demandPerm_lt hlt).trans (page2pa_div q)
  · apply and_pteU
    rw [← pte2perm_and _ (by decide), pte2perm_mkPte demandPerm_lt]
    decide

omit [DecidableEq D] [Fintype D] in
/-- Another page at `va`, or the same page now accessible to user code, or a
table on the way that was cleared: the translation is lost. -/
theorem load_lost (hm : s.isMappedPage d va = true) {q : Nat} {C : Prop} [Decidable C]
    (hpg : s'.pgdir = s.pgdir) (hlt : page2pa q < 2 ^ 56)
    (hleaf : s'.leafPte (s'.pgdir d >>> 12) va =
      if C then none else some (mkPte (page2pa q) demandPerm))
    (hq : q ≠ s.getPa d va / 4096 ∨ (shared (vpn2 va) ∧ s.getPerm d va &&& pteU = 0)) :
    ¬ TranslationsKept s s' d va := by
  intro hkept
  have hsame := hkept.same hm
  obtain ⟨hd, t0, -, -, hl⟩ := exists_leafPte hm
  have hpa := getPa_of_leafPte hl
  obtain ⟨hpage, hbit⟩ := Prod.mk.inj (userPage_demand hlt)
  by_cases hC : C
  · rw [if_pos hC] at hleaf
    rw [getPa_leafPte s', hleaf, hpa] at hsame
    have := ptePage_lt (s.mem t0 (vpn0 va))
    simp only [Option.map_none, Option.getD_none, noAddr] at hsame
    omega
  · rw [if_neg hC] at hleaf
    rw [getPa_of_leafPte hleaf, hpage] at hsame
    rcases hq with hq | ⟨hv, hu⟩
    · omega
    · have hm' : s'.isMappedPage d va = true := by
        rw [isMappedPage_leafPte, hpg, ← hpg, hleaf]
        exact ⟨hpg ▸ hd, rfl⟩
      apply (hkept.noUser d va hv hm' ?_).2 hu
      rw [getPerm_of_leafPte hleaf, pte2perm_and _ (by decide), hbit]
      decide

/-- The page at `va` was freed, cleared and mapped again. -/
theorem load_refilled (hr : FaultReady M K1 K0 s d) (hva : va < 2 ^ 39)
    (hm : s.isMappedPage d va = true) {q : Nat} {rest : List Nat}
    (hq : s.freeAfterDrop (s.getPa d va / 4096) = q :: rest) (hq' : q = s.getPa d va / 4096)
    (hu : shared (vpn2 va) → s.getPerm d va &&& pteU ≠ 0) (hlt : page2pa q < 2 ^ 56)
    (h : s.allocPageUser d va demandPerm = .ok (0, s')) (hpg : s'.pgdir = s.pgdir)
    (hmem : ∀ t0, s.walk (s.pgdir d >>> 12) va = .pte0 t0 →
      s'.mem = ((s.writePage q fun _ => 0).setPte t0 (vpn0 va)
        (mkPte (page2pa q) demandPerm)).mem) : TranslationsKept s s' d va := by
  obtain ⟨t1, t0, hv2, ht1, hv1, ht0, hne, h10, hK, hP, hw, hv0⟩ := hr.path hm
  have hl : s.leafPte (s.pgdir d >>> 12) va = some (s.mem t0 (vpn0 va)) := by
    simp [leafPte, hw, hv0]
  have hpa := getPa_of_leafPte hl
  have hdiv : s.getPa d va / 4096 = ptePage (s.mem t0 (vpn0 va)) := by omega
  rw [hdiv] at hq hq'
  by_cases hv : shared (vpn2 va)
  · have hbit : s.mem t0 (vpn0 va) &&& pteU ≠ 0 := by
      rw [← pte2perm_and _ (by decide), ← getPerm_of_leafPte hl]
      exact hu hv
    have hpage : userPage (mkPte (page2pa q) demandPerm) = userPage (s.mem t0 (vpn0 va)) := by
      rw [userPage_demand hlt, userPage, and_pteU hbit, ← hq']
    have hkept := translationsKept_refill (d := d) hr.kernel
      (fun d' hd' => hr.consistent.mem_of_tgt (x := .root d') (by simp [tgt, ent, ent.root, hd']))
      (hK hv).2 hv0 hbit (valid_mkPte (page2pa q) demandPerm) hpage (fun _ => 0) hv
    rw [← hq'] at hkept
    exact hkept.congr (hmem t0 hw) hpg
  · have hf := (allocPageUser_spec hr.consistent hva hv (hr.apart hva) h).2.1
    have htgt : s.tgt (leafSlot d va) = some (ptePage (s.mem t0 (vpn0 va))) :=
      tgt_eq_some.mpr ⟨_, (ent_leafSlot (hP hv).2).trans (by rw [entry, if_pos hv0])⟩
    have hnt := (not_tablePage_of_freeAfterDrop hr.consistent htgt hq).2
    refine hr.kernel.translationsKept hf (fun d' hd' => ?_) fun _ => ?_
    · rw [touched_root hva hd']
      exact hr.live
    · have hpath : ¬ (s.pgdir d >>> 12 = q ∨ t1 = q) := by
        rintro (h | h)
        · exact hnt ⟨.root d, trivial, by simp [tgt, ent, ent.root, hr.live, h]⟩
        · exact hnt ⟨.pte2 d (vpn2 va), trivial, h ▸ (hP hv).1⟩
      have hleaf : s'.leafPte (s'.pgdir d >>> 12) va = some (mkPte (page2pa q) demandPerm) := by
        rw [leafPte_of_mem (hmem t0 hw), hpg]
        exact (leafPte_replaced hv2 ht1 hv1 ht0 hne h10 (valid_mkPte _ _)).trans (if_neg hpath)
      rw [getPa_of_leafPte hleaf, hpa, (Prod.mk.inj (userPage_demand hlt)).1, hq']

/-- A load fault on a mapped page. -/
theorem load_kept_iff (hr : FaultReady M K1 K0 s d) (hva : va < 2 ^ 39)
    (hm : s.isMappedPage d va = true) :
    (∀ r s', s.allocPageUser d va demandPerm = .ok (r, s') → TranslationsKept s s' d va) ↔
      ¬ s.Replaces d va := by
  obtain ⟨t1, t0, hv2, ht1, hv1, ht0, hne, h10, hK, hP, hw, hv0⟩ := hr.path hm
  have hl : s.leafPte (s.pgdir d >>> 12) va = some (s.mem t0 (vpn0 va)) := by
    simp [leafPte, hw, hv0]
  have hpa := getPa_of_leafPte hl
  have hdiv : ptePage (s.mem t0 (vpn0 va)) = s.getPa d va / 4096 := by omega
  have hcall : s.allocPageUser d va demandPerm = replaceLeaf va demandPerm s t0 := by
    rw [allocPageUser, if_neg (Nat.not_le.mpr demandPerm_lt), descend, if_neg hr.live, hw]
  by_cases hram : inRam (s.getPa d va / 4096)
  swap
  · -- `pa2page` of a device address halts
    refine iff_of_true (fun r s' h => ?_) fun h => hram h.1
    rw [hcall] at h
    simp only [replaceLeaf, if_pos hv0, clearRef, hdiv, if_neg hram] at h
    cases h
  obtain ⟨r, s', hrep, hpg, hnil, hcons⟩ := replaceLeaf_eq demandPerm hv0 (hdiv ▸ hram)
  rw [← hcall] at hrep
  have hone : (∀ r s', s.allocPageUser d va demandPerm = .ok (r, s') → TranslationsKept s s' d va) ↔
      TranslationsKept s s' d va := by
    refine ⟨fun h => h r s' hrep, fun h r₁ s₁ h₁ => ?_⟩
    obtain ⟨-, rfl⟩ := Prod.mk.inj (Except.ok.inj (hrep.symm.trans h₁))
    exact h
  rw [hone, Replaces]
  rw [hdiv] at hnil hcons
  cases hq : s.freeAfterDrop (s.getPa d va / 4096) with
  | nil => exact iff_of_true (translationsKept_of_mem (hnil hq) hpg) fun h => h.2
  | cons q rest =>
    obtain ⟨rfl, hmem⟩ := hcons q rest hq
    have hlt := lt_of_freeAfterDrop hr.consistent hram hq
    constructor
    · rintro hkept ⟨-, hother⟩
      refine load_lost (C := s.pgdir d >>> 12 = q ∨ t1 = q) hm hpg hlt ?_ hother hkept
      rw [leafPte_of_mem hmem, hpg]
      exact leafPte_replaced hv2 ht1 hv1 ht0 hne h10 (valid_mkPte _ _)
    · intro hno
      refine load_refilled hr hva hm hq ?_ (fun hv hu => ?_) hlt hrep hpg fun t hwt => ?_
      · by_contra h
        exact hno ⟨hram, .inl h⟩
      · exact hno ⟨hram, .inr ⟨hv, hu⟩⟩
      · obtain rfl := Walk.pte0.inj (hw.symm.trans hwt)
        exact hmem

end

end RiscvMos.Pmap
