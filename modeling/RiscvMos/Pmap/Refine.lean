import RiscvMos.Pmap.Run

/-!
`map_page_user`, `alloc_page_user` and `unmap_page` refine updates of an
abstract map from user pages to a physical page and its permission.
-/

namespace RiscvMos.Pmap

variable {D : Type} [DecidableEq D] [Fintype D] {M : Nat → Prop} {s : Pmap D}

/-- The calls on a user page act on the view as on a map. -/
theorem user_calls_refine_view (hs : Consistent M s) (d : D) (va perm : Nat) (hva : va < ulim) :
    (∀ pa s', s.mapPageUser d va pa perm = .ok (0, s') →
      s'.getPa d va = pa / 4096 * 4096 + va % 4096 ∧ s'.getPerm d va = perm ||| pteV ∧
      SameElsewhere d va s s') ∧
    (∀ s', s.allocPageUser d va perm = .ok (0, s') →
      ∃ q, s'.getPa d va = q * 4096 + va % 4096 ∧ s'.getPerm d va = perm ||| pteV ∧
        s'.mem q = (fun _ => 0) ∧ ¬ s.TablePage q ∧
        (∀ d' va', va' < ulim → d' ≠ d ∨ va' / 4096 ≠ va / 4096 → s.isMappedPage d' va' = true →
          s.getPa d' va' / 4096 ≠ q) ∧
        (∀ y, y ≠ leafSlot d va → s'.tgt y ≠ some q) ∧
        SameElsewhere d va s s') ∧
    ∃ s', s.unmapPage d va = .ok (0, s') ∧ s'.isMappedPage d va = false ∧
      SameElsewhere d va s s' := by
  have hlt : va < 2 ^ 39 := hva.trans (by decide)
  have hv := not_shared_of_user hva
  have hT := apart_of_ne (d := d) s hlt (vpn2_ne_three_of_user hva)
  have hslot : ∀ d' va', va' < ulim → d' ≠ d ∨ va' / 4096 ≠ va / 4096 →
      leafSlot d' va' ≠ leafSlot d va := by
    intro d' va' hva' hne h
    obtain ⟨rfl, hp⟩ := leafSlot_inj (hva'.trans (by decide)) hlt h
    exact hne.elim (fun h => h rfl) fun h => h hp
  have hC : ∀ d' va', va' < ulim → d' ≠ d ∨ va' / 4096 ≠ va / 4096 →
      ¬ Touched (OnPath d) d va (leafSlot d' va') :=
    fun d' va' hva' hne => not_touched_of_user hlt hva' (hslot d' va' hva' hne)
  refine ⟨?_, ?_, ?_⟩
  · intro pa s' h
    obtain ⟨hf, he, -⟩ := mapPageUser_spec hs hlt hv hT h
    exact ⟨getPa_of_view hv (he rfl), getPerm_of_view hv (he rfl), sameElsewhere_of_frame hf hC⟩
  · intro s' h
    obtain ⟨-, hf, -, q, -, he, hz, hafter, hbefore⟩ := allocPageUser_spec hs hlt hv hT h
    refine ⟨q, getPa_of_view hv he, getPerm_of_view hv he, hz, ?_, ?_, hafter,
      sameElsewhere_of_frame hf hC⟩
    · rintro ⟨y, hy, hyq⟩
      have hne : y ≠ leafSlot d va := by rintro rfl; exact hy
      exact (hbefore y hne hyq).1 hy
    · intro d' va' hva' hne hm hq
      obtain ⟨perm', hview⟩ := view_of_isMappedPage (not_shared_of_user hva') hm
      rw [hq] at hview
      have := (hbefore _ (hslot d' va' hva' hne) (tgt_eq_some.mpr ⟨perm', hview⟩)).2
      exact hC d' va' hva' hne (.inr this)
  · have hk : ¬ (kernbase ≤ va ∧ va < kernbase + memorySize) := by
      simp only [ulim, kernbase] at *
      omega
    obtain ⟨s', h, -, hst⟩ := unmapPage_ok (d := d) hs hv hk
    refine ⟨s', h, ?_, sameElsewhere_of_frame hst.frame ?_⟩
    · rw [isMappedPage_eq hv, view, hst.ent, Function.update_self]
      rfl
    · exact hslot

theorem user_calls_refine_view_onePage :
    (∃ s', onePage.mapPageUser 0 0x601000 0x83007000 pteR = .ok (0, s') ∧
      s'.getPa 0 0x601000 = 0x83007000) ∧
    ∃ s', onePage.unmapPage 0 0x400000 = .ok (0, s') ∧ s'.isMappedPage 0 0x400000 = false := by
  have h := user_calls_refine_view onePage_consistent 0
  refine ⟨⟨(Call.mapPageUser 0 0x601000 0x83007000 pteR).after onePage, ?_, ?_⟩, ?_⟩
  · exact Call.run_after (c := .mapPageUser 0 0x601000 0x83007000 pteR) (by decide +kernel)
  · exact ((h 0x601000 pteR (by decide)).1 _ _
      (Call.run_after (c := .mapPageUser 0 0x601000 0x83007000 pteR) (by decide +kernel))).1
  · obtain ⟨s', hr, hm, -⟩ := (h 0x400000 pteR (by decide)).2.2
    exact ⟨s', hr, hm⟩

/-! ## A page that something reached before

Neither the tables alone nor the window can be left out of what is said about
the page `alloc_page_user` returns. -/

/-- Table pages are distinct, are not user pages and are not free. -/
structure WellFormed (s : Pmap D) : Prop where
  distinct : s.Distinct
  userApart : s.UserApart
  free : ∀ p ∈ s.pageFreeList, ¬ s.TablePage p

omit [DecidableEq D] in
theorem Consistent.wellFormed (hs : Consistent M s) (hu : s.UserApart) : WellFormed s :=
  ⟨hs.distinct, hu, fun _ hp ⟨x, _, hx⟩ => hs.counted.tgt_ne_of_free hp x hx⟩

theorem onePage_userApart : onePage.UserApart := by
  refine allocPageUser_userApart oneDir_consistent (by decide) (by decide)
    (apart_of_ne oneDir (by decide) (by decide)) ?_ onePage_run
  obtain ⟨-, -, pp, hent, -⟩ := allocPgdir_spec somePages_consistent (d := 0) rfl oneDir_run
  intro d va _ p hp
  rw [tgt, hent, Function.update_of_ne (by simp), noDirs_ent fun _ => rfl] at hp
  cases hp

/-- `onePage` with the page at `0x400000` on the free list. -/
def freedTwice : Pmap EnvIdx :=
  { onePage with pageFreeList := onePage.getPa 0 0x400000 / 4096 :: onePage.pageFreeList }

theorem freedTwice_wellFormed : WellFormed freedTwice := by
  have hent : freedTwice.ent = onePage.ent := ent_eq_of_mem rfl rfl
  have htgt : freedTwice.tgt = onePage.tgt := by funext x; simp [tgt, hent]
  have htab : ∀ p, freedTwice.TablePage p ↔ onePage.TablePage p := by simp [TablePage, htgt]
  have hw := onePage_consistent.wellFormed onePage_userApart
  refine ⟨distinct_of_ent hw.distinct hent, ?_, ?_⟩
  · intro d va hva p hp
    rw [htab]
    exact hw.userApart d va hva p (by rwa [htgt] at hp)
  · intro p hp
    rw [htab]
    rcases List.mem_cons.mp hp with rfl | hp
    · have hm : onePage.isMappedPage 0 0x400000 = true := by decide +kernel
      obtain ⟨perm, hv⟩ := view_of_isMappedPage (by decide) hm
      exact hw.userApart 0 0x400000 (by decide) _ (tgt_eq_some.mpr ⟨perm, hv⟩)
    · exact hw.free p hp

/-- The window address where the table for `0x600000` will be mapped. -/
def tableWindow : Nat := selfVa0 0x600000

/-- `onePage` after a page fault at `tableWindow`. -/
def windowFault : Pmap EnvIdx :=
  (Call.allocPageUser 0 tableWindow (pteR ||| pteW ||| pteU)).after onePage

theorem windowFault_run :
    Call.run onePage (.allocPageUser 0 tableWindow (pteR ||| pteW ||| pteU)) =
      .ok (0, windowFault) :=
  Call.run_after (by decide +kernel)

theorem windowFault_apart : Apart (OnPath (0 : EnvIdx)) 0 tableWindow onePage := by
  refine apart_of_window (by decide) ?_
  rw [← Option.isSome_iff_ne_none]
  decide +kernel

/-- In a well-formed state `alloc_page_user` may return a page that another
user page maps; in a consistent one, a page that the window still maps. -/
theorem alloc_page_user_reached_before :
    (WellFormed freedTwice ∧ freedTwice.isMappedPage 0 0x400000 = true ∧
      ∃ s', freedTwice.allocPageUser 0 0x401000 pteR = .ok (0, s') ∧
        s'.getPa 0 0x401000 = freedTwice.getPa 0 0x400000) ∧
    (Consistent (· ∈ somePages) windowFault ∧ WellFormed windowFault ∧
      windowFault.isMappedPage 0 tableWindow = true ∧
      ∃ s', windowFault.allocPageUser 0 0x600000 pteR = .ok (0, s') ∧
        s'.getPa 0 0x600000 = windowFault.getPa 0 tableWindow) := by
  have hlt : tableWindow < 2 ^ 39 := by decide
  have hv : ¬ shared (vpn2 tableWindow) := by decide
  have hs := (allocPageUser_spec onePage_consistent hlt hv windowFault_apart windowFault_run).1
  have hu := allocPageUser_userApart onePage_consistent hlt hv windowFault_apart onePage_userApart
    windowFault_run
  refine ⟨⟨freedTwice_wellFormed, by decide +kernel, _,
    Call.run_after (c := .allocPageUser 0 0x401000 pteR) (by decide +kernel), by decide +kernel⟩,
    hs, hs.wellFormed hu, by decide +kernel, _,
    Call.run_after (c := .allocPageUser 0 0x600000 pteR) (by decide +kernel), by decide +kernel⟩

end RiscvMos.Pmap
