import RiscvMos.Pmap.Refine
import RiscvMos.User.PipeClosed

/-!
The descriptors of `User/Descriptors.lean` in the kernel's memory: what
`sys_mem_map` and `sys_mem_unmap` do at the addresses of descriptors, and the
number that `pp_ref` counts for a page that is mapped there only.
-/

namespace RiscvMos.Pmap

variable {M : Nat → Prop} {s s' : Pmap EnvIdx} {e c : EnvIdx} {sd sd' : Side} {i j : FdIdx}

/-- The pages at the descriptors of an env. -/
def fdTable (s : Pmap EnvIdx) (e : EnvIdx) : FdTable :=
  fun sd i => (s.view e (sd.addr i)).map Prod.fst

theorem addr_lt (sd : Side) (i : FdIdx) : sd.addr i < ulim := by
  cases sd with
  | fd =>
    simp only [Side.addr, ulim]
    omega
  | data =>
    simp only [Side.addr, ulim]
    omega

/-- Descriptors have pages of their own. -/
theorem addr_inj (h : sd.addr i / 4096 = sd'.addr j / 4096) : sd = sd' ∧ i = j := by
  have hi := i.isLt
  have hj := j.isLt
  cases sd with
  | fd =>
    cases sd' with
    | fd =>
      simp only [Side.addr] at h
      exact ⟨rfl, Fin.ext (by omega)⟩
    | data =>
      simp only [Side.addr] at h
      omega
  | data =>
    cases sd' with
    | fd =>
      simp only [Side.addr] at h
      omega
    | data =>
      simp only [Side.addr] at h
      exact ⟨rfl, Fin.ext (by omega)⟩

theorem leafSlot_addr_inj (h : leafSlot e (sd.addr i) = leafSlot c (sd'.addr j)) :
    e = c ∧ sd = sd' ∧ i = j := by
  obtain ⟨he, hpage⟩ :=
    leafSlot_inj ((addr_lt sd i).trans (by decide)) ((addr_lt sd' j).trans (by decide)) h
  exact ⟨he, addr_inj hpage⟩

/-- A call that changes one entry, among those of descriptors. -/
theorem fdTable_update {v : Option (Nat × Nat)} (hown : s'.view c (sd.addr i) = v)
    (hother : ∀ d va, va < ulim → leafSlot d va ≠ leafSlot c (sd.addr i) →
      s'.view d va = s.view d va) :
    s'.fdTable = Function.update s.fdTable c ((s.fdTable c).set sd i (v.map Prod.fst)) := by
  funext d
  by_cases hd : d = c
  · subst hd
    rw [Function.update_self]
    funext sd' j
    rw [FdTable.set_apply]
    split
    · rename_i hx
      rw [hx.1, hx.2, fdTable, hown]
    · rename_i hx
      rw [fdTable, fdTable, hother d _ (addr_lt sd' j)]
      intro heq
      obtain ⟨-, hsd, hj⟩ := leafSlot_addr_inj heq
      exact hx ⟨hsd, hj⟩
  · rw [Function.update_of_ne hd]
    funext sd' j
    rw [fdTable, fdTable, hother d _ (addr_lt sd' j)]
    intro heq
    exact hd (leafSlot_addr_inj heq).1

theorem unmapPage_fdTable (hs : Consistent M s) : ∃ s', s.unmapPage e (sd.addr i) = .ok (0, s') ∧
    s'.fdTable = Function.update s.fdTable e ((s.fdTable e).set sd i none) := by
  have hlt := addr_lt sd i
  have hk : ¬ (kernbase ≤ sd.addr i ∧ sd.addr i < kernbase + memorySize) := by
    simp only [ulim, kernbase] at *
    omega
  obtain ⟨s', h, -, hst⟩ := unmapPage_ok (d := e) hs (not_shared_of_user hlt) hk
  refine ⟨s', h, ?_⟩
  apply fdTable_update (v := none)
  · rw [view, hst.ent, Function.update_self]
  · intro d va _ hne
    rw [view, view, hst.ent, Function.update_of_ne hne]

/-- A call that maps a page of one descriptor at another; if it finds no memory
nothing is mapped there. -/
theorem mapPageUser_fdTable (hs : Consistent M s) {q perm : Nat} {r : Int}
    (hq : s.fdTable e sd i = some q)
    (h : s.mapPageUser c (sd'.addr j) (s.getPa e (sd.addr i)) perm = .ok (r, s')) :
    s'.fdTable =
    Function.update s.fdTable c ((s.fdTable c).set sd' j (if r = 0 then some q else none)) := by
  have hlt := addr_lt sd' j
  have hlt39 : sd'.addr j < 2 ^ 39 := hlt.trans (by decide)
  obtain ⟨⟨q', perm'⟩, hview, rfl⟩ := Option.map_eq_some_iff.mp hq
  obtain ⟨hf, hok, -, hfail, -⟩ := mapPageUser_spec hs hlt39 (not_shared_of_user hlt)
    (apart_of_ne s hlt39 (vpn2_ne_three_of_user hlt)) h
  have hother : ∀ d va, va < ulim → leafSlot d va ≠ leafSlot c (sd'.addr j) →
      s'.view d va = s.view d va :=
    fun d va hva hne => hf.ent_eq _ (not_touched_of_user hlt39 hva hne)
  by_cases hr : r = 0
  · rw [if_pos hr]
    have hpa : s.getPa e (sd.addr i) / 4096 = q' := by
      rw [getPa_of_view (not_shared_of_user (addr_lt sd i)) hview]
      omega
    have hent := hok hr
    rw [hpa] at hent
    exact fdTable_update hent hother
  · rw [if_neg hr]
    exact fdTable_update (hfail hr).2 hother

/-- `pp_ref` of a page that is mapped at descriptors only. -/
theorem ppRef_eq_refs (hs : Consistent M s) {q : Nat} (hM : M q)
    (honly : ∀ x, s.tgt x = some q → ∃ e, ∃ sd : Side, ∃ i : FdIdx, x = leafSlot e (sd.addr i))
    (proc : EnvIdx → Proc EnvIdx) : s.ppRef q = Procs.refs ⟨s.fdTable, proc⟩ q := by
  have hinj : Function.Injective
      fun x : EnvIdx × Side × FdIdx => leafSlot x.1 (x.2.1.addr x.2.2) := by
    intro x y hxy
    obtain ⟨h1, h2, h3⟩ := leafSlot_addr_inj hxy
    exact Prod.ext h1 (Prod.ext h2 h3)
  have hreach : ∀ x, s.tgt x = some q →
      ∃ y : EnvIdx × Side × FdIdx, leafSlot y.1 (y.2.1.addr y.2.2) = x := by
    intro x hx
    obtain ⟨e, sd, i, rfl⟩ := honly x hx
    exact ⟨(e, sd, i), rfl⟩
  rw [hs.counted.count q hM, RefCount.refs_eq_of_injective hinj hreach]
  rfl

end RiscvMos.Pmap
