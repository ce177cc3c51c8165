import RiscvMos.Env.Ids
import RiscvMos.Pmap.Exhausted
import RiscvMos.Pmap.Guard

/-!
What `sys_mem_alloc`, `sys_mem_map` and `sys_mem_unmap` return, and which
mappings below `UTOP` they change.
-/

namespace RiscvMos.Pmap

variable {D : Type} {s s' : Pmap D} {d : D} {va : Nat}

/-- The page of `va` in `d` is mapped as before, as far as the three functions tell. -/
def SameAt (s s' : Pmap D) (d : D) (va : Nat) : Prop :=
  s'.isMappedPage d va = s.isMappedPage d va ∧
    (s.isMappedPage d va = true → s'.getPa d va = s.getPa d va ∧ s'.getPerm d va = s.getPerm d va)

theorem sameAt_of_view (hva : va < ulim) (h : s'.view d va = s.view d va) : SameAt s s' d va := by
  have hv := not_shared_of_user hva
  constructor
  · rw [isMappedPage_eq hv, isMappedPage_eq hv, h]
  intro hm
  obtain ⟨⟨p, perm⟩, he⟩ := Option.ne_none_iff_exists'.mp ((mapped_iff hv).mp hm)
  have he' := h.trans he
  rw [getPa_of_view hv he', getPa_of_view hv he, getPerm_of_view hv he', getPerm_of_view hv he]
  exact ⟨rfl, rfl⟩

variable [DecidableEq D] [Fintype D] {M : Nat → Prop}

/-! ## The `_user` calls return -/

section
variable {n : Nat} {map : Pmap D → Nat → Except Halt (Reply D)}

theorem createPte2_returns (hs : Consistent M s) (hmap : Needs n map) (hva : va < ulim)
    (hd : s.pgdir d = 0) :
    ∃ r s', createPte2 (selfMap d) map s d va = .ok (r, s') := by
  have hlt : va < 2 ^ 39 := hva.trans (by decide)
  have hw := selfVa2_inWindow hlt
  unfold createPte2
  cases ha : s.pageAlloc with
  | none => exact ⟨_, s, rfl⟩
  | some e =>
    obtain ⟨q, s₀⟩ := e
    obtain ⟨rest, hl, -⟩ := pageAlloc_eq_some ha
    obtain ⟨hs₁, hent₁, href₁, -⟩ := newRoot_spec hs hd ha
    have hq : inRam q := hs.ram q (hs.counted.free_sub q (by simp [hl]))
    have htgt₁ : ((s₀.setPgdir d (page2pa q)).incRef q).tgt (.root d) = some q := by
      rw [tgt, hent₁, Function.update_self]
      rfl
    obtain ⟨-, s₂, -, h₂, -⟩ := selfMap_free (d := d) hs₁ hw (vpn2 va) hq
    obtain ⟨hs₂, hf₂, -⟩ := selfMap_spec hs₁ hw ⟨.root d, trivial, by rw [pteAddr_div]; exact htgt₁⟩
      (by rw [pteAddr_div, href₁]) h₂
    have htgt₂ := hf₂.table (.root d) _ trivial htgt₁
    have hroot₂ : s₂.pgdir d ≠ 0 := by
      intro h0
      simp [tgt, ent, ent.root, h0] at htgt₂
    have hnone : s₂.ent (.pte2 d (vpn2 va)) = none := by
      have hoff : ¬ OnPath d (selfVa2 va) (.pte2 d (vpn2 va)) := by
        intro hpath
        have := hw.onPath hpath
        simp [InWindowSlot, vpn2_ne_three_of_user hva] at this
      rw [hf₂.ent_eq _ hoff, hent₁, Function.update_of_ne (by simp)]
      exact ent_child_none (x := .root d) trivial (by simp [ent, ent.root, hd]) _
    obtain ⟨r, s', h, -⟩ :=
      createPte1_out hs₂ hmap hlt (not_shared_of_user hva) hroot₂ (vpn2_ne_three_of_user hva)
      htgt₂ hnone
    exact ⟨r, s', Except.bind_ok_iff.mpr ⟨s₂, h₂, h⟩⟩

/-- A call at a user address returns if it returns from an existing table. -/
theorem descend_returns {found : Pmap D → Nat → Except Halt (Reply D)} (hs : Consistent M s)
    (hmap : Needs n map)
    (hva : va < ulim) (hfound : ∀ t0, s.tgt (.pte1 d (vpn2 va) (vpn1 va)) = some t0 →
      ∃ r s', found s t0 = .ok (r, s')) :
    ∃ r s', descend (selfMap d) map found s d va = .ok (r, s') := by
  have hlt : va < 2 ^ 39 := hva.trans (by decide)
  have hv := not_shared_of_user hva
  unfold descend
  by_cases hd : s.pgdir d = 0
  · rw [if_pos hd]
    exact createPte2_returns hs hmap hva hd
  rw [if_neg hd]
  rcases walk_cases s hd hv with ⟨t2, hw, ht, hn⟩ | ⟨t1, hw, ht, hn⟩ | ⟨t0, hw, ht⟩ <;> rw [hw]
  · obtain ⟨r, s', h, -⟩ := createPte1_out hs hmap hlt hv hd (vpn2_ne_three_of_user hva) ht hn
    exact ⟨r, s', h⟩
  · have hoff : ¬ OnPath d (selfVa0 va) (.pte1 d (vpn2 va) (vpn1 va)) := by
      intro hpath
      have := (selfVa0_inWindow hlt).onPath hpath
      simp [InWindowSlot, vpn2_ne_three_of_user hva] at this
    obtain ⟨r, s', h, -⟩ := createPte0_out hs hmap hlt hd hoff ht hn
    exact ⟨r, s', h⟩
  · exact hfound t0 ht

end

section
variable {perm : Nat} {r : Int}

theorem allocPageUser_returns (hs : Consistent M s) (hva : va < ulim) (hperm : perm < 0x400) :
    ∃ r s', s.allocPageUser d va perm = .ok (r, s') := by
  unfold allocPageUser
  rw [if_neg (by omega)]
  apply descend_returns hs (allocLeaf_needs va perm) hva
  intro t0 ht
  have hleaf : s.ent (leafSlot d va) = _ := ent_leafSlot ht
  have hret : ∀ s : Pmap D, ∃ r s', allocLeaf va perm s t0 = .ok (r, s') := by
    intro s
    rcases allocLeaf_needs va perm s t0 with ⟨-, s', h⟩ | ⟨-, h⟩
    · exact ⟨0, s', h⟩
    · exact ⟨_, s, h⟩
  unfold replaceLeaf
  dsimp only
  split
  · rename_i hvalid
    rw [entry, if_pos hvalid] at hleaf
    obtain ⟨r, s', h⟩ := hret (s.dropRef (ptePage (s.mem t0 (vpn0 va))))
    exact ⟨r, s', Except.bind_ok_iff.mpr ⟨_, clearRef_eq hs (tgt_eq_some.mpr ⟨_, hleaf⟩), h⟩⟩
  · exact hret s

/-- A failed `alloc_page_user` leaves the user mappings. -/
theorem allocPageUser_kept (hs : Consistent M s) (hva : va < ulim)
    (h : s.allocPageUser d va perm = .ok (r, s'))
    (hr : r ≠ 0) {d' : D} {va' : Nat} (hva' : va' < ulim) : s'.view d' va' = s.view d' va' := by
  have hlt : va < 2 ^ 39 := hva.trans (by decide)
  have hv := not_shared_of_user hva
  by_cases hm : s.missing d va = 0
  · have hcode := allocPageUser_codes h
    unfold allocPageUser at h
    split at h
    · cases h
    obtain ⟨t0, ht, hfound⟩ :=
      descend_found (selfMap d) (allocLeaf va perm) (replaceLeaf va perm) hv hm
    rw [hfound] at h
    have hleaf : s.ent (leafSlot d va) = _ := ent_leafSlot ht
    have hfail : ∀ s₁ : Pmap D, allocLeaf va perm s₁ t0 = .ok (r, s') → s' = s₁ := by
      intro s₁ h₁
      rcases allocLeaf_needs va perm s₁ t0 with ⟨-, s₂, h₂⟩ | ⟨-, h₂⟩
      · exact absurd (Prod.mk.inj (Except.ok.inj (h₁.symm.trans h₂))).1 hr
      · exact (Prod.mk.inj (Except.ok.inj (h₁.symm.trans h₂))).2
    unfold replaceLeaf at h
    dsimp only at h
    split at h
    · rename_i hvalid
      rw [entry, if_pos hvalid] at hleaf
      rw [clearRef_eq hs (tgt_eq_some.mpr ⟨_, hleaf⟩)] at h
      rw [view, view, hfail _ h]
      exact congrFun (ent_eq_of_mem rfl rfl) _
    · rw [hfail s h]
  · obtain ⟨-, hf, -, hnone⟩ :=
      allocPageUser_fail hs hlt hv (apart_of_ne s hlt (vpn2_ne_three_of_user hva))
      (view_of_missing hv hm) h hr
    by_cases hslot : leafSlot d' va' = leafSlot d va
    · rw [view, view, hslot, hnone]
      exact (view_of_missing hv hm).symm
    · exact hf.ent_eq _ (not_touched_of_user hlt hva' hslot)

/-- A failed `map_page_user` leaves the user mappings. -/
theorem mapPageUser_kept (hs : Consistent M s) (hva : va < ulim) {pa : Nat}
    (h : s.mapPageUser d va pa perm = .ok (r, s'))
    (hr : r ≠ 0) {d' : D} {va' : Nat} (hva' : va' < ulim) : s'.view d' va' = s.view d' va' := by
  have hlt : va < 2 ^ 39 := hva.trans (by decide)
  have hv := not_shared_of_user hva
  obtain ⟨hf, -, -, hfail, -⟩ :=
    mapPageUser_spec hs hlt hv (apart_of_ne s hlt (vpn2_ne_three_of_user hva)) h
  have hnone := (hfail hr).2
  by_cases hslot : leafSlot d' va' = leafSlot d va
  · rw [view, view, hslot, hnone]
    by_contra hne
    have hst := mapPageUser_mapped hs hv (Ne.symm hne) h
    rw [hst.ent, Function.update_self] at hnone
    cases hnone
  · exact hf.ent_eq _ (not_touched_of_user hlt hva' hslot)

end

end RiscvMos.Pmap

namespace RiscvMos.Kernel

open Pmap

inductive MemCall where
  | sysMemAlloc (envid va perm : Nat)
  | sysMemMap (srcid srcva dstid dstva perm : Nat)
  | sysMemUnmap (envid va : Nat)

namespace MemCall

def exec (k : Kernel) : MemCall → Except Halt (Int × Kernel)
  | sysMemAlloc envid va perm => k.sysMemAlloc envid va perm
  | sysMemMap srcid srcva dstid dstva perm => k.sysMemMap srcid srcva dstid dstva perm
  | sysMemUnmap envid va => k.sysMemUnmap envid va

/-- The permission, a `u_int` below. -/
def perm : MemCall → Nat
  | sysMemAlloc _ _ perm | sysMemMap _ _ _ _ perm => uInt perm
  | sysMemUnmap .. => 0

/-- An address lies outside `[UTEMP, UTOP)`. -/
def Illegal : MemCall → Prop
  | sysMemAlloc _ va _ | sysMemUnmap _ va => isIllegalVa va
  | sysMemMap _ srcva _ dstva _ => isIllegalVa srcva ∨ isIllegalVa dstva

/-- `curenv` may name the env. -/
def Names (k : Kernel) (cur : EnvIdx) (envid : Nat) (e : EnvIdx) : Prop :=
  k.envid2env cur envid (k.envs cur).envId = .ok e

/-- A lookup fails. -/
def BadEnv (k : Kernel) (cur : EnvIdx) : MemCall → Prop
  | sysMemAlloc envid _ _ | sysMemUnmap envid _ => ∀ e, ¬ Names k cur envid e
  | sysMemMap srcid _ dstid _ _ => (∀ e, ¬ Names k cur srcid e) ∨ ∀ e, ¬ Names k cur dstid e

/-- `srcva` is unmapped in `srcid`. -/
def Unmapped (k : Kernel) (cur : EnvIdx) : MemCall → Prop
  | sysMemMap srcid srcva _ _ _ =>
    ∃ src, Names k cur srcid src ∧ k.pmap.isMappedPage src srcva = false
  | _ => False

/-- One of the checks fails, all of which come before `perm` is looked at. -/
def Refused (k : Kernel) (cur : EnvIdx) (c : MemCall) : Prop :=
  c.Illegal ∨ c.BadEnv k cur ∨ c.Unmapped k cur

/-- The mapping at `va` of `e` is `v`, and every other one below `UTOP` is as before. -/
structure Sets (k k' : Kernel) (e : EnvIdx) (va : Nat) (v : Option (Nat × Nat)) : Prop where
  here : k'.pmap.view e va = v
  elsewhere : ∀ e' va', va' < utop → e' ≠ e ∨ va' / 4096 ≠ va / 4096 → SameAt k.pmap k'.pmap e' va'

/-- What the comments say of a call that returns 0. -/
def Done (k k' : Kernel) (cur : EnvIdx) : MemCall → Prop
  | sysMemAlloc envid va perm =>
    ∃ e q, Names k cur envid e ∧ Sets k k' e va (some (q, uInt perm ||| pteV)) ∧
      k'.pmap.mem q = (fun _ => 0) ∧ ∀ y, y ≠ leafSlot e va → k'.pmap.tgt y ≠ some q
  | sysMemMap srcid srcva dstid dstva perm =>
    ∃ src dst, Names k cur srcid src ∧ Names k cur dstid dst ∧
      k.pmap.isMappedPage src srcva = true ∧
      Sets k k' dst dstva (some (k.pmap.getPa src srcva / 4096, uInt perm ||| pteV))
  | sysMemUnmap envid va => ∃ e, Names k cur envid e ∧ Sets k k' e va none

/-- The codes and their causes, in the order in which the calls look for them. -/
structure Contract (k k' : Kernel) (cur : EnvIdx) (c : MemCall) (r : Int) : Prop where
  inval : r = -eInval ↔ c.Illegal ∨ (¬ c.BadEnv k cur ∧ c.Unmapped k cur)
  badEnv : r = -eBadEnv ↔ ¬ c.Illegal ∧ c.BadEnv k cur
  other : r = -eInval ∨ r = -eBadEnv ∨ r = 0 ∨ r = -eNoMem
  done : r = 0 → c.Done k k' cur
  failed : r ≠ 0 → ∀ e va, va < utop → SameAt k.pmap k'.pmap e va
  frame : k' = { k with pmap := k'.pmap }

end MemCall

variable {k k' : Kernel} {M : Nat → Prop} {cur : EnvIdx}

theorem names_or (k : Kernel) (cur : EnvIdx) (envid : Nat) :
    (∃ e, MemCall.Names k cur envid e) ∨
      ((∀ e, ¬ MemCall.Names k cur envid e) ∧
        ∀ f, k.withEnv cur envid (k.envs cur).envId f = .ok (-eBadEnv, k)) := by
  cases he : k.envid2env cur envid (k.envs cur).envId with
  | ok e => exact .inl ⟨e, he⟩
  | error x =>
    right
    constructor
    · intro e h
      rw [MemCall.Names, he] at h
      cases h
    · intro f
      unfold withEnv
      rw [he, envid2env_error he]

theorem withEnv_names {envid : Nat} {e : EnvIdx} (h : MemCall.Names k cur envid e)
    (f : EnvIdx → Except Halt (Int × Kernel)) : k.withEnv cur envid (k.envs cur).envId f = f e := by
  unfold withEnv
  rw [h]

theorem byCurenv_eq (hcur : k.curenv = some cur) (f : EnvIdx → Except Halt (Int × Kernel)) :
    k.byCurenv f = f cur := by
  unfold byCurenv
  rw [hcur]

/-- A call that changes nothing. -/
theorem contract_refused {c : MemCall} {r : Int}
    (hinval : r = -eInval ↔ c.Illegal ∨ (¬ c.BadEnv k cur ∧ c.Unmapped k cur))
    (hbad : r = -eBadEnv ↔ ¬ c.Illegal ∧ c.BadEnv k cur) (hr : r = -eInval ∨ r = -eBadEnv) :
    c.Contract k k cur r := by
  have hne : r ≠ 0 := by
    rcases hr with rfl | rfl <;> decide
  refine ⟨hinval, hbad, ?_, fun h => absurd h hne, fun _ _ _ hva => sameAt_of_view hva rfl, rfl⟩
  rcases hr with h | h
  · exact .inl h
  · exact .inr (.inl h)

theorem contract_illegal {c : MemCall} (h : c.Illegal) : c.Contract k k cur (-eInval) := by
  apply contract_refused _ _ (.inl rfl)
  · exact iff_of_true rfl (.inl h)
  · exact iff_of_false (by decide) fun bad => bad.1 h

theorem contract_badEnv {c : MemCall} (hlegal : ¬ c.Illegal) (h : c.BadEnv k cur) :
    c.Contract k k cur (-eBadEnv) := by
  apply contract_refused _ _ (.inr rfl)
  · exact iff_of_false (by decide) fun inval => inval.elim hlegal fun inval => inval.1 h
  · exact iff_of_true rfl ⟨hlegal, h⟩

theorem contract_unmapped {c : MemCall} (hname : ¬ c.BadEnv k cur) (h : c.Unmapped k cur) :
    c.Contract k k cur (-eInval) := by
  apply contract_refused _ _ (.inl rfl)
  · exact iff_of_true rfl (.inr ⟨hname, h⟩)
  · exact iff_of_false (by decide) fun bad => hname bad.2

/-- A call that has passed the checks. -/
theorem contract_passed {c : MemCall} {r : Int} {s : Pmap EnvIdx} (hlegal : ¬ c.Illegal)
    (hname : ¬ c.BadEnv k cur)
    (hmapped : ¬ c.Unmapped k cur) (hr : r = 0 ∨ r = -eNoMem)
    (hdone : r = 0 → c.Done k { k with pmap := s } cur)
    (hfailed : r ≠ 0 → ∀ e va, va < utop → s.view e va = k.pmap.view e va) :
    c.Contract k { k with pmap := s } cur r := by
  have hinval : r ≠ -eInval := by
    rcases hr with rfl | rfl <;> decide
  have hbad : r ≠ -eBadEnv := by
    rcases hr with rfl | rfl <;> decide
  refine ⟨iff_of_false hinval ?_, iff_of_false hbad fun h => hname h.2,
    .inr (.inr hr), hdone, ?_, rfl⟩
  · rintro (h | ⟨-, h⟩)
    · exact hlegal h
    · exact hmapped h
  · intro hne e va hva
    exact sameAt_of_view hva (hfailed hne e va hva)

/-- The mappings a call at a user address leaves alone. -/
theorem sets_of_frame {e : EnvIdx} {va : Nat} {s : Pmap EnvIdx} {v : Option (Nat × Nat)}
    (hva : va < ulim)
    (hf : Frame M (Touched (OnPath e) e va) k.pmap s) (hv : s.view e va = v) :
    MemCall.Sets k { k with pmap := s } e va v := by
  refine ⟨hv, fun e' va' hva' hne => sameAt_of_view hva' (hf.ent_eq _ ?_)⟩
  have hlt : va < 2 ^ 39 := hva.trans (by decide)
  have hlt' : va' < 2 ^ 39 := Nat.lt_trans hva' (by decide)
  apply not_touched_of_user hlt hva'
  intro hslot
  obtain ⟨rfl, hpage⟩ := leafSlot_inj hlt' hlt hslot
  rcases hne with h | h
  · exact h rfl
  · exact h hpage

theorem sysMemAlloc_contract (hs : Consistent M k.pmap) (hcur : k.curenv = some cur)
    (envid va perm : Nat)
    (hperm : (MemCall.sysMemAlloc envid va perm).Refused k cur ∨ uInt perm < 0x400) :
    ∃ r k', k.sysMemAlloc envid va perm = .ok (r, k') ∧
    (MemCall.sysMemAlloc envid va perm).Contract k k' cur r := by
  unfold sysMemAlloc
  by_cases hill : isIllegalVa va
  · rw [if_pos hill]
    exact ⟨_, k, rfl, contract_illegal hill⟩
  rw [if_neg hill, byCurenv_eq hcur]
  have hva := lt_ulim_of_not_illegal hill
  rcases names_or k cur envid with ⟨e, he⟩ | ⟨hno, hwith⟩
  · rw [withEnv_names he]
    have hbits : uInt perm < 0x400 := by
      rcases hperm with (h | h | h) | h
      · exact absurd h hill
      · exact absurd he (h e)
      · exact h.elim
      · exact h
    obtain ⟨r, s, h⟩ := allocPageUser_returns (d := e) hs hva hbits
    refine ⟨r, { k with pmap := s }, Except.bind_ok_iff.mpr ⟨(r, s), h, rfl⟩, ?_⟩
    apply contract_passed (c := .sysMemAlloc envid va perm) hill (fun h => h e he) id
      (allocPageUser_codes h)
    · rintro rfl
      obtain ⟨-, hf, -, q, -, hent, hzero, hfresh, -⟩ :=
        allocPageUser_spec hs (hva.trans (by decide))
        (not_shared_of_user hva)
        (apart_of_ne k.pmap (hva.trans (by decide)) (vpn2_ne_three_of_user hva)) h
      exact ⟨e, q, he, sets_of_frame hva hf hent, hzero, hfresh⟩
    · intro hr e' va' hva'
      exact allocPageUser_kept hs hva h hr hva'
  · rw [hwith]
    exact ⟨_, k, rfl, contract_badEnv hill hno⟩

theorem sysMemMap_contract (hs : Consistent M k.pmap) (hcur : k.curenv = some cur)
    (srcid srcva dstid dstva perm : Nat)
    (hperm : (MemCall.sysMemMap srcid srcva dstid dstva perm).Refused k cur ∨
      uInt perm < 0x400) :
    ∃ r k', k.sysMemMap srcid srcva dstid dstva perm = .ok (r, k') ∧
      (MemCall.sysMemMap srcid srcva dstid dstva perm).Contract k k' cur r := by
  unfold sysMemMap
  by_cases hill : isIllegalVa srcva ∨ isIllegalVa dstva
  · rw [if_pos hill]
    exact ⟨_, k, rfl, contract_illegal hill⟩
  rw [if_neg hill, byCurenv_eq hcur]
  have hva := lt_ulim_of_not_illegal (not_or.mp hill).1
  have hdva := lt_ulim_of_not_illegal (not_or.mp hill).2
  rcases names_or k cur srcid with ⟨src, hsrc⟩ | ⟨hno, hwith⟩
  · rw [withEnv_names hsrc]
    rcases names_or k cur dstid with ⟨dst, hdst⟩ | ⟨hno, hwith⟩
    · rw [withEnv_names hdst]
      have hname : ¬ (MemCall.sysMemMap srcid srcva dstid dstva perm).BadEnv k cur := by
        rintro (h | h)
        · exact h src hsrc
        · exact h dst hdst
      by_cases hm : k.pmap.isMappedPage src srcva = false
      · rw [if_pos hm]
        exact ⟨_, k, rfl, contract_unmapped hname ⟨src, hsrc, hm⟩⟩
      · rw [if_neg hm]
        have hm' : k.pmap.isMappedPage src srcva = true := by simpa using hm
        have hpa : mappablePa (k.pmap.getPa src srcva) :=
          Source.mappable hs (V := (· < ulim)) (fun va hva => not_shared_of_user hva)
            (.inl ⟨src, srcva, hva, hm', rfl⟩)
        have hpassed : ¬ (MemCall.sysMemMap srcid srcva dstid dstva perm).Unmapped k cur := by
          rintro ⟨src', hsrc', hm''⟩
          obtain rfl := Except.ok.inj (hsrc.symm.trans hsrc')
          exact hm hm''
        have hbits : uInt perm < 0x400 := by
          rcases hperm with (h | h | h) | h
          · exact absurd h hill
          · exact absurd h hname
          · exact absurd h hpassed
          · exact h
        obtain ⟨r, s, h, -, -⟩ := mapPageUser_code (d := dst) hs hdva hbits hpa
        refine ⟨r, { k with pmap := s }, Except.bind_ok_iff.mpr ⟨(r, s), h, rfl⟩, ?_⟩
        apply contract_passed (c := .sysMemMap srcid srcva dstid dstva perm) hill hname hpassed
          (mapPageUser_codes h)
        · rintro rfl
          obtain ⟨hf, hent, -⟩ :=
            mapPageUser_spec hs (hdva.trans (by decide)) (not_shared_of_user hdva)
            (apart_of_ne k.pmap (hdva.trans (by decide)) (vpn2_ne_three_of_user hdva)) h
          exact ⟨src, dst, hsrc, hdst, hm', sets_of_frame hdva hf (hent rfl)⟩
        · intro hr e' va' hva'
          exact mapPageUser_kept hs hdva h hr hva'
    · rw [hwith]
      exact ⟨_, k, rfl, contract_badEnv hill (.inr hno)⟩
  · rw [hwith]
    exact ⟨_, k, rfl, contract_badEnv hill (.inl hno)⟩

theorem sysMemUnmap_contract (hs : Consistent M k.pmap) (hcur : k.curenv = some cur)
    (envid va : Nat) :
    ∃ r k', k.sysMemUnmap envid va = .ok (r, k') ∧
    (MemCall.sysMemUnmap envid va).Contract k k' cur r := by
  unfold sysMemUnmap
  by_cases hill : isIllegalVa va
  · rw [if_pos hill]
    exact ⟨_, k, rfl, contract_illegal hill⟩
  rw [if_neg hill, byCurenv_eq hcur]
  have hva := lt_ulim_of_not_illegal hill
  rcases names_or k cur envid with ⟨e, he⟩ | ⟨hno, hwith⟩
  · rw [withEnv_names he]
    obtain ⟨s, h, -, hst⟩ :=
      unmapPage_ok (d := e) hs (not_shared_of_user hva) (Addressable.not_kernel (.inl hva))
    refine ⟨0, { k with pmap := s }, Except.bind_ok_iff.mpr ⟨(0, s), h, rfl⟩, ?_⟩
    apply contract_passed (c := .sysMemUnmap envid va) hill (fun h => h e he) id (.inl rfl)
    · intro _
      refine ⟨e, he, sets_of_frame hva (hst.frame.mono ?_) ?_⟩
      · rintro x rfl
        exact .inl (.inr (.inr (.inr rfl)))
      · rw [view, hst.ent, Function.update_self]
    · intro h0
      exact absurd rfl h0
  · rw [hwith]
    exact ⟨_, k, rfl, contract_badEnv hill hno⟩

/-- The three calls return, with the code that their comments give and the
mappings it stands for. A call that is not refused before has a permission with
no bit above the ten. -/
theorem mem_calls_contract (hs : Consistent M k.pmap) (hcur : k.curenv = some cur) (c : MemCall)
    (hperm : c.Refused k cur ∨ c.perm < 0x400) :
    ∃ r k', c.exec k = .ok (r, k') ∧ c.Contract k k' cur r := by
  cases c with
  | sysMemAlloc envid va perm => exact sysMemAlloc_contract hs hcur envid va perm hperm
  | sysMemMap srcid srcva dstid dstva perm =>
    exact sysMemMap_contract hs hcur srcid srcva dstid dstva perm hperm
  | sysMemUnmap envid va => exact sysMemUnmap_contract hs hcur envid va

/-- The first env, with a page at `0x400000`. -/
def mappedEnv : Kernel := { envInit onePage 0x82000000 with curenv := some 0 }

theorem mem_calls_contract_mappedEnv :
    ∃ r k', (MemCall.sysMemMap 0 0x400000 0 0x401000 0x100000004).exec mappedEnv = .ok (r, k') ∧
    (MemCall.sysMemMap 0 0x400000 0 0x401000 0x100000004).Contract mappedEnv k' 0 r :=
  mem_calls_contract (k := mappedEnv) onePage_consistent rfl _ (.inr (by decide))

/-- `sys_mem_map` of an unmapped address to an id of no env returns
`-E_BAD_ENV`: the ids are looked up first. -/
theorem sys_mem_map_looks_up_first :
    ((MemCall.sysMemMap 0 0x500000 0x3000 0x401000 0).exec mappedEnv).toOption.map Prod.fst =
    some (-eBadEnv) ∧
    (MemCall.sysMemMap 0 0x500000 0x3000 0x401000 0).Unmapped mappedEnv 0 := by
  exact ⟨by decide +kernel, 0, rfl, by decide +kernel⟩

end RiscvMos.Kernel
