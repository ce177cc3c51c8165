import RiscvMos.Pmap.Supply

/-!
The kernel half and the `PENVS` window: the part of every address space that
lies behind the shared root entries, in tables of `base_pgdir`. No slot leads
there, so what a call does to it is read off the memory of those tables.
-/

namespace RiscvMos.Pmap

variable {D : Type}

/-- The last-level entry for `va` in the tables under root page `r`. -/
def leafPte (s : Pmap D) (r va : Nat) : Option Nat :=
  match s.walk r va with
  | .pte0 t0 => if valid (s.mem t0 (vpn0 va)) then some (s.mem t0 (vpn0 va)) else none
  | _ => none

section
variable {s s' : Pmap D} {d : D} {va : Nat}

theorem walk_page {r va' : Nat} (page : va' / 4096 = va / 4096) : s.walk r va' = s.walk r va := by
  obtain ⟨same2, same1, -⟩ := vpn_page page
  unfold walk
  rw [same2, same1]

theorem leafPte_page {r va' : Nat} (page : va' / 4096 = va / 4096) :
    s.leafPte r va' = s.leafPte r va := by
  obtain ⟨-, -, same0⟩ := vpn_page page
  unfold leafPte
  rw [walk_page page, same0]

theorem isMappedPage_page {va' : Nat} (page : va' / 4096 = va / 4096) :
    s.isMappedPage d va' = s.isMappedPage d va := by
  obtain ⟨-, -, same0⟩ := vpn_page page
  unfold isMappedPage
  rw [walk_page page, same0]

theorem getPa_leafPte (s : Pmap D) (d : D) (va : Nat) : s.getPa d va =
    ((s.leafPte (s.pgdir d >>> 12) va).map fun w => pte2pa w |||
      (va &&& pteOffset)).getD noAddr := by
  unfold getPa leafPte
  cases s.walk (s.pgdir d >>> 12) va with
  | pte0 t0 => by_cases h : valid (s.mem t0 (vpn0 va)) <;> simp [h]
  | _ => rfl

theorem getPerm_leafPte (s : Pmap D) (d : D) (va : Nat) :
    s.getPerm d va = ((s.leafPte (s.pgdir d >>> 12) va).map pte2perm).getD noAddr := by
  unfold getPerm leafPte
  cases s.walk (s.pgdir d >>> 12) va with
  | pte0 t0 => by_cases h : valid (s.mem t0 (vpn0 va)) <;> simp [h]
  | _ => rfl

theorem isMappedPage_leafPte : s.isMappedPage d va = true ↔
    s.pgdir d ≠ 0 ∧ (s.leafPte (s.pgdir d >>> 12) va).isSome = true := by
  unfold isMappedPage leafPte
  by_cases hd : s.pgdir d = 0
  · simp [hd]
  · cases s.walk (s.pgdir d >>> 12) va with
    | pte0 t0 => by_cases h : valid (s.mem t0 (vpn0 va)) <;> simp [hd, h]
    | _ => simp

/-- A mapped page has an entry. -/
theorem exists_leafPte (h : s.isMappedPage d va = true) : s.pgdir d ≠ 0 ∧
    ∃ t0, s.walk (s.pgdir d >>> 12) va = .pte0 t0 ∧ valid (s.mem t0 (vpn0 va)) ∧
      s.leafPte (s.pgdir d >>> 12) va = some (s.mem t0 (vpn0 va)) := by
  obtain ⟨hd, h⟩ := isMappedPage_leafPte.mp h
  refine ⟨hd, ?_⟩
  unfold leafPte at h ⊢
  cases hw : s.walk (s.pgdir d >>> 12) va with
  | pte0 t0 =>
    by_cases hv : valid (s.mem t0 (vpn0 va))
    · exact ⟨t0, rfl, hv, by simp [hv]⟩
    · simp [hw, hv] at h
  | noPte1 t2 => simp [hw] at h
  | noPte0 t1 => simp [hw] at h

theorem getPa_of_leafPte {w : Nat} (h : s.leafPte (s.pgdir d >>> 12) va = some w) :
    s.getPa d va = ptePage w * 4096 + va % 4096 := by
  rw [getPa_leafPte, h, Option.map_some, Option.getD_some, pte2pa_eq, page_or_offset]

theorem getPerm_of_leafPte {w : Nat} (h : s.leafPte (s.pgdir d >>> 12) va = some w) :
    s.getPerm d va = pte2perm w := by
  rw [getPerm_leafPte, h]
  rfl

/-- The slot of an entry that is not behind a shared root entry. -/
theorem ent_of_leafPte (hd : s.pgdir d ≠ 0) (hv : ¬ shared (vpn2 va)) {pte : Nat}
    (h : s.leafPte (s.pgdir d >>> 12) va = some pte) :
    s.ent (leafSlot d va) = some (ptePage pte, pte2perm pte) := by
  have hm : s.isMappedPage d va = true := isMappedPage_leafPte.mpr ⟨hd, by rw [h]; rfl⟩
  obtain ⟨-, t0, hw, hv0, hl⟩ := exists_leafPte hm
  obtain rfl := Option.some.inj (hl.symm.trans h)
  rcases view_cases s d hd hv with ⟨t, hn, he⟩ | ⟨hn, -⟩
  · obtain rfl := Walk.pte0.inj (hw.symm.trans hn)
    rw [view, entry, if_pos hv0] at he
    exact he
  · exact absurd hw (hn t0)

/-! ## What a fault keeps -/

/-- The page at `va` in `d` is where it was, and so is everything behind the
shared root entries, where nothing has become accessible to user code. -/
structure TranslationsKept (s s' : Pmap D) (d : D) (va : Nat) : Prop where
  same : s.isMappedPage d va = true → s'.getPa d va = s.getPa d va
  kernel : ∀ d' va', shared (vpn2 va') → s.isMappedPage d' va' = true →
    s'.getPa d' va' = s.getPa d' va'
  noUser : ∀ d' va', shared (vpn2 va') → s'.isMappedPage d' va' = true →
    s'.getPerm d' va' &&& pteU ≠ 0 →
    s.isMappedPage d' va' = true ∧ s.getPerm d' va' &&& pteU ≠ 0

/-- The directory variables of `s'` point where those of `s` do. -/
def SameRoots (s s' : Pmap D) : Prop :=
  ∀ d, (s'.pgdir d = 0 ↔ s.pgdir d = 0) ∧ s'.pgdir d >>> 12 = s.pgdir d >>> 12

theorem SameRoots.refl (s : Pmap D) : SameRoots s s := fun _ => ⟨Iff.rfl, rfl⟩

/-- The calls on a directory that has its root move no root. -/
theorem sameRoots_of_frame {M : Nat → Prop} {C : Slot D → Prop} (hf : Frame M C s s')
    (hC : ∀ d, C (.root d) → s.pgdir d ≠ 0) : SameRoots s s' := by
  intro d
  by_cases hd : s.pgdir d = 0
  · have hn : ¬ C (.root d) := fun h => hC d h hd
    have hent := hf.ent_eq (.root d) hn
    have hd' : s'.pgdir d = 0 := by
      by_contra hne
      simp [ent, ent.root, hd, hne] at hent
    rw [hd, hd']
    exact ⟨Iff.rfl, rfl⟩
  · have hroot : s.tgt (.root d) = some (s.pgdir d >>> 12) := by simp [tgt, ent, ent.root, hd]
    have hroot' := hf.table (.root d) _ trivial hroot
    have hd' : s'.pgdir d ≠ 0 := by
      intro h0
      simp [tgt, ent, ent.root, h0] at hroot'
    simp only [tgt, ent, ent.root, hd', if_false, Option.map_some, Option.some_inj] at hroot'
    exact ⟨iff_of_false hd' hd, hroot'⟩

/-- What matters of an entry here: its page and its user bit. -/
def userPage (w : Nat) : Nat × Nat := (ptePage w, w &&& pteU)

/-- Bits of the permission field are read off the word or off the field. -/
theorem pte2perm_and (w : Nat) {b : Nat} (hb : 0x3ff &&& b = b) : pte2perm w &&& b = w &&& b := by
  rw [pte2perm, Nat.and_assoc, hb]

/-- It is enough that the entries behind the shared root entries agree in page
and user bit. -/
theorem translationsKept_of_leafPte (hr : SameRoots s s')
    (hsame : s.isMappedPage d va = true → s'.getPa d va = s.getPa d va)
    (hleaf : ∀ d' va', s.pgdir d' ≠ 0 → shared (vpn2 va') →
      (s'.leafPte (s.pgdir d' >>> 12) va').map userPage =
        (s.leafPte (s.pgdir d' >>> 12) va').map userPage) :
    TranslationsKept s s' d va := by
  refine ⟨hsame, fun d' va' hv hm => ?_, fun d' va' hv hm hu => ?_⟩
  · obtain ⟨hd, t0, -, -, hl⟩ := exists_leafPte hm
    have h := hleaf d' va' hd hv
    rw [hl] at h
    obtain ⟨x, hx, hxe⟩ := Option.map_eq_some_iff.mp h
    rw [← (hr d').2] at hx
    rw [getPa_of_leafPte hl, getPa_of_leafPte hx, (Prod.mk.inj hxe).1]
  · obtain ⟨hd', t0, -, -, hl⟩ := exists_leafPte hm
    have hd : s.pgdir d' ≠ 0 := fun h => hd' ((hr d').1.mpr h)
    have h := hleaf d' va' hd hv
    rw [← (hr d').2, hl, (hr d').2] at h
    obtain ⟨x, hx, hxe⟩ := Option.map_eq_some_iff.mp h.symm
    refine ⟨isMappedPage_leafPte.mpr ⟨hd, by rw [hx]; rfl⟩, ?_⟩
    rw [getPerm_of_leafPte hx, pte2perm_and _ (by decide), (Prod.mk.inj hxe).2,
      ← pte2perm_and _ (by decide), ← getPerm_of_leafPte hl]
    exact hu

/-! ## Changing the permission of a mapped page -/

/-- A store that keeps the page and the validity of a word changes no walk. -/
theorem walk_setPte {t : Nat} {i : Vpn} {w : Nat} (hv : valid w ↔ valid (s.mem t i))
    (hp : ptePage w = ptePage (s.mem t i)) (r va : Nat) :
    (s.setPte t i w).walk r va = s.walk r va := by
  have hval : ∀ p k, valid ((s.setPte t i w).mem p k) ↔ valid (s.mem p k) := by
    intro p k
    rw [setPte_mem]
    split
    · rename_i h; rw [h.1, h.2]; exact hv
    · rfl
  have hpage : ∀ p k, ptePage ((s.setPte t i w).mem p k) = ptePage (s.mem p k) := by
    intro p k
    rw [setPte_mem]
    split
    · rename_i h; rw [h.1, h.2]; exact hp
    · rfl
  simp only [walk, hval, hpage]

theorem leafPte_setPte {t : Nat} {i : Vpn} {w : Nat} (hv : valid w ↔ valid (s.mem t i))
    (hp : userPage w = userPage (s.mem t i)) (r va : Nat) :
    ((s.setPte t i w).leafPte r va).map userPage = (s.leafPte r va).map userPage := by
  unfold leafPte
  rw [walk_setPte hv (Prod.mk.inj hp).1]
  cases s.walk r va with
  | pte0 t0 =>
    simp only [setPte_mem]
    split
    · rename_i h
      by_cases hval : valid (s.mem t i)
      · simp [hv.mpr hval, hval, h, hp]
      · have hw : ¬ valid w := fun hw => hval (hv.mp hw)
        simp [hw, hval, h]
    · rfl
  | _ => rfl

/-- Giving a mapped page other bits, but the same user bit, keeps every
translation. -/
theorem translationsKept_setPte {t : Nat} {i : Vpn} {w : Nat} (hv : valid w ↔ valid (s.mem t i))
    (hp : userPage w = userPage (s.mem t i)) : TranslationsKept s (s.setPte t i w) d va := by
  have hleaf := leafPte_setPte (s := s) hv hp
  refine translationsKept_of_leafPte (.refl s) (fun hm => ?_) fun d' va' _ _ => hleaf _ va'
  obtain ⟨-, t0, -, -, hl⟩ := exists_leafPte hm
  have h := hleaf (s.pgdir d >>> 12) va
  rw [hl] at h
  obtain ⟨x, hx, hxe⟩ := Option.map_eq_some_iff.mp h
  rw [getPa_of_leafPte hl, getPa_of_leafPte hx, (Prod.mk.inj hxe).1]

theorem or_bits_lt (w : Nat) {bits : Nat} (hb : bits < 0x400) : pte2perm w ||| bits < 0x400 := by
  refine Nat.or_lt_two_pow (n := 10) ?_ hb
  exact Nat.lt_of_le_of_lt Nat.and_le_right (by decide)

end

section
variable [DecidableEq D] {s s' : Pmap D} {d : D} {va : Nat}

/-- `map_page` of a mapped page to where it is only adds permission bits. -/
theorem mapPage_upgrade (hm : s.isMappedPage d va = true) {bits : Nat} {r : Int}
    (hb : bits < 0x400)
    (h : s.mapPage d va (s.getPa d va) (s.getPerm d va ||| bits) = .ok (r, s')) :
    ∃ t0 w, s.walk (s.pgdir d >>> 12) va = .pte0 t0 ∧ valid (s.mem t0 (vpn0 va)) ∧
      s' = s.setPte t0 (vpn0 va) w ∧ valid w ∧ ptePage w = ptePage (s.mem t0 (vpn0 va)) ∧
      pte2perm w = pte2perm (s.mem t0 (vpn0 va)) ||| bits ||| pteV := by
  obtain ⟨hd, t0, hw, hv, hl⟩ := exists_leafPte hm
  rw [getPerm_of_leafPte hl, getPa_of_leafPte hl] at h
  have hperm := or_bits_lt (s.mem t0 (vpn0 va)) hb
  unfold mapPage at h
  rw [if_neg (by omega)] at h
  split at h
  · cases h
  rename_i hpa
  have hlt := lt_of_mappablePa (not_not.mp hpa)
  have hdiv : (ptePage (s.mem t0 (vpn0 va)) * 4096 + va % 4096) / 4096 =
      ptePage (s.mem t0 (vpn0 va)) := by omega
  have hsame : pte2pa (s.mem t0 (vpn0 va)) =
      pte2pa (pa2pte (ptePage (s.mem t0 (vpn0 va)) * 4096 + va % 4096)) := by
    rw [pte2pa_eq, pte2pa_eq, ptePage_eq (pa2pte _), pa2pte_eq, hdiv]
    have : ptePage (s.mem t0 (vpn0 va)) < 2 ^ 44 := by
      rw [ptePage_eq]; exact Nat.mod_lt _ (by decide)
    omega
  rw [descend, if_neg hd, hw] at h
  simp only [remapLeaf, if_pos hv, if_pos hsame] at h
  obtain ⟨-, rfl⟩ := Prod.mk.inj (Except.ok.inj h)
  refine ⟨t0, _, hw, hv, rfl, valid_mkPte _ _, ?_, pte2perm_mkPte hperm⟩
  rw [ptePage_mkPte hperm hlt, hdiv]

theorem translationsKept_upgrade (hm : s.isMappedPage d va = true) {bits : Nat} {r : Int}
    (hb : bits < 0x400) (hbu : bits &&& pteU = 0)
    (h : s.mapPage d va (s.getPa d va) (s.getPerm d va ||| bits) = .ok (r, s')) :
    TranslationsKept s s' d va := by
  obtain ⟨t0, w, -, hv, rfl, hvw, hp, hperm⟩ := mapPage_upgrade hm hb h
  apply translationsKept_setPte
  · exact iff_of_true hvw hv
  apply Prod.ext
  · exact hp
  · show w &&& pteU = s.mem t0 (vpn0 va) &&& pteU
    rw [← pte2perm_and w (by decide), hperm, Nat.and_or_distrib_right,
      Nat.and_or_distrib_right, hbu, pte2perm_and _ (by decide)]
    simp [pteV, pteU]

end

/-! ## The shared root entries -/

/-- A store to a shared root entry changes no slot. -/
theorem ent_setShared {s : Pmap D} {d : D} (hs : s.Distinct) (hd : s.pgdir d ≠ 0) {i : Vpn}
    (hi : shared i) (w : Nat) : (s.setPte (s.pgdir d >>> 12) i w).ent = s.ent := by
  have hroot : s.tgt (.root d) = some (s.pgdir d >>> 12) := by simp [tgt, ent, ent.root, hd]
  funext z
  induction z using Slot.child_induction with
  | hroot d' => rfl
  | hchild y k hy ih =>
    by_cases hk : y.leaves k
    · rw [ent_child_leaves _ hk, ent_child_leaves _ hk]
    rw [ent_child _ hy hk, ent_child _ hy hk, ih]
    cases he : s.ent y with
    | none => rfl
    | some e =>
      have hne : ¬ (e.1 = s.pgdir d >>> 12 ∧ k = i) := by
        rintro ⟨ht, rfl⟩
        obtain rfl := hs (y := .root d) hy trivial (by simp [tgt, he, ht]) hroot
        exact hk hi
      simp only [Option.bind_some, setPte_mem, if_neg hne]

theorem Consistent.setShared [Fintype D] {M : Nat → Prop} {s : Pmap D} {d : D} (hs : Consistent M s)
    (hd : s.pgdir d ≠ 0) {i : Vpn} (hi : shared i) (w : Nat) :
    Consistent M (s.setPte (s.pgdir d >>> 12) i w) := by
  have hent := ent_setShared hs.distinct hd hi w
  refine ⟨?_, hs.small, distinct_of_ent hs.distinct hent, hs.aligned, hs.ram⟩
  rw [tgt_eq_of_ent hent]
  exact hs.counted

/-! ## The tables of the kernel half -/

/-- Behind the shared root entries are level-1 tables in `K1` and level-0 tables
in `K0`; none of them was handed out to an env, and what user code can read
there is no table. -/
structure KernelHalf (M K1 K0 : Nat → Prop) (s : Pmap D) : Prop where
  table1 : ∀ d i, s.pgdir d ≠ 0 → shared i → valid (s.mem (s.pgdir d >>> 12) i) →
    K1 (ptePage (s.mem (s.pgdir d >>> 12) i))
  table0 : ∀ t j, K1 t → valid (s.mem t j) → K0 (ptePage (s.mem t j))
  user : ∀ t i, K0 t → valid (s.mem t i) → s.mem t i &&& pteU ≠ 0 →
    ¬ M (ptePage (s.mem t i)) ∧ ¬ K1 (ptePage (s.mem t i)) ∧ ¬ K0 (ptePage (s.mem t i))
  levels : ∀ t, K1 t → ¬ K0 t
  own1 : ∀ t, K1 t → ¬ M t
  own0 : ∀ t, K0 t → ¬ M t

section
variable {M K1 K0 : Nat → Prop} {s s' : Pmap D} {d : D} {va : Nat}

/-- The walk behind a shared root entry. -/
theorem KernelHalf.walk_cases (hk : KernelHalf M K1 K0 s) (hd : s.pgdir d ≠ 0)
    (hv : shared (vpn2 va)) :
    (¬ valid (s.mem (s.pgdir d >>> 12) (vpn2 va)) ∧
      s.walk (s.pgdir d >>> 12) va = .noPte1 (s.pgdir d >>> 12)) ∨
    ∃ t1, valid (s.mem (s.pgdir d >>> 12) (vpn2 va)) ∧
      ptePage (s.mem (s.pgdir d >>> 12) (vpn2 va)) = t1 ∧ K1 t1 ∧
      ((¬ valid (s.mem t1 (vpn1 va)) ∧ s.walk (s.pgdir d >>> 12) va = .noPte0 t1) ∨
        ∃ t0, valid (s.mem t1 (vpn1 va)) ∧ ptePage (s.mem t1 (vpn1 va)) = t0 ∧ K0 t0 ∧
          s.walk (s.pgdir d >>> 12) va = .pte0 t0) := by
  by_cases hv2 : valid (s.mem (s.pgdir d >>> 12) (vpn2 va))
  · right
    have h1 := hk.table1 d _ hd hv hv2
    refine ⟨_, hv2, rfl, h1, ?_⟩
    by_cases hv1 : valid (s.mem (ptePage (s.mem (s.pgdir d >>> 12) (vpn2 va))) (vpn1 va))
    · right
      exact ⟨_, hv1, rfl, hk.table0 _ _ h1 hv1, by simp only [walk, hv2, hv1, if_true]⟩
    · left
      exact ⟨hv1, by simp only [walk, hv2, hv1, if_true, if_false]⟩
  · left
    exact ⟨hv2, by simp only [walk, hv2, if_false]⟩

theorem KernelHalf.table_of_walk (hk : KernelHalf M K1 K0 s) (hd : s.pgdir d ≠ 0)
    (hv : shared (vpn2 va)) {t0 : Nat} (h : s.walk (s.pgdir d >>> 12) va = .pte0 t0) : K0 t0 := by
  rcases hk.walk_cases hd hv with ⟨-, hw⟩ | ⟨t1, -, -, -, ⟨-, hw⟩ | ⟨t, -, -, hK, hw⟩⟩
  · cases h.symm.trans hw
  · cases h.symm.trans hw
  · rw [Walk.pte0.inj (h.symm.trans hw)]
    exact hK

/-- The table of an entry behind a shared root entry. -/
theorem KernelHalf.leaf (hk : KernelHalf M K1 K0 s) (hd : s.pgdir d ≠ 0) (hv : shared (vpn2 va))
    {pte : Nat} (h : s.leafPte (s.pgdir d >>> 12) va = some pte) :
    ∃ t0, K0 t0 ∧ valid (s.mem t0 (vpn0 va)) ∧ pte = s.mem t0 (vpn0 va) := by
  have hm : s.isMappedPage d va = true := isMappedPage_leafPte.mpr ⟨hd, by rw [h]; rfl⟩
  obtain ⟨-, t0, hw, hv0, hl⟩ := exists_leafPte hm
  exact ⟨t0, hk.table_of_walk hd hv hw, hv0, Option.some.inj (h.symm.trans hl)⟩

/-- A call that stays with the slots leaves the kernel half alone. -/
theorem KernelHalf.leafPte_frame {C : Slot D → Prop} (hk : KernelHalf M K1 K0 s)
    (hf : Frame M C s s') (hd : s.pgdir d ≠ 0) (hv : shared (vpn2 va)) :
    s'.leafPte (s.pgdir d >>> 12) va = s.leafPte (s.pgdir d >>> 12) va := by
  have hroot : s.tgt (.root d) = some (s.pgdir d >>> 12) := by simp [tgt, ent, ent.root, hd]
  have h2 := hf.sharedEntry d _ _ hroot hv
  have hwalk : s'.walk (s.pgdir d >>> 12) va = s.walk (s.pgdir d >>> 12) va := by
    rcases hk.walk_cases hd hv with ⟨hv2, hw⟩ | ⟨t1, hv2, rfl, h1, -⟩
    · rw [hw]
      simp only [walk, h2, hv2, if_false]
    · simp only [walk, h2, hf.kernel _ (hk.own1 _ h1)]
  unfold leafPte
  rw [hwalk]
  rcases hk.walk_cases hd hv with ⟨-, hw⟩ | ⟨t1, -, -, h1, ⟨-, hw⟩ | ⟨t0, -, -, h0, hw⟩⟩
  · rw [hw]
  · rw [hw]
  · simp only [hw, hf.kernel _ (hk.own0 _ h0)]

theorem KernelHalf.of_frame {C : Slot D → Prop} (hk : KernelHalf M K1 K0 s) (hf : Frame M C s s')
    (hr : SameRoots s s') : KernelHalf M K1 K0 s' := by
  have hmem1 : ∀ t, K1 t → s'.mem t = s.mem t := fun t h => hf.kernel t (hk.own1 t h)
  have hmem0 : ∀ t, K0 t → s'.mem t = s.mem t := fun t h => hf.kernel t (hk.own0 t h)
  refine ⟨fun d i hd hi hv => ?_, fun t j ht hv => ?_, fun t i ht hv hu => ?_, hk.levels, hk.own1,
    hk.own0⟩
  · have hd₀ : s.pgdir d ≠ 0 := fun h => hd ((hr d).1.mpr h)
    have hroot : s.tgt (.root d) = some (s.pgdir d >>> 12) := by simp [tgt, ent, ent.root, hd₀]
    rw [(hr d).2, hf.sharedEntry d _ i hroot hi] at hv ⊢
    exact hk.table1 d i hd₀ hi hv
  · rw [hmem1 t ht] at hv ⊢
    exact hk.table0 t j ht hv
  · rw [hmem0 t ht] at hv hu ⊢
    exact hk.user t i ht hv hu

/-- A call on a live directory that keeps the page at `va` where it is keeps
the translations. -/
theorem KernelHalf.translationsKept {C : Slot D → Prop} (hk : KernelHalf M K1 K0 s)
    (hf : Frame M C s s') (hC : ∀ d, C (.root d) → s.pgdir d ≠ 0)
    (hsame : s.isMappedPage d va = true → s'.getPa d va = s.getPa d va) :
    TranslationsKept s s' d va :=
  translationsKept_of_leafPte (sameRoots_of_frame hf hC) hsame
    fun _ _ hd hv => by rw [hk.leafPte_frame hf hd hv]

end

/-! ## Stores to data pages -/

/-- A store to a data page. -/
def writePage (s : Pmap D) (p : Nat) (f : Vpn → Nat) : Pmap D :=
  { s with mem := Function.update s.mem p f }

section
variable {M K1 K0 : Nat → Prop} {s : Pmap D} {d : D} {va : Nat}

theorem writePage_ent {p : Nat} (hp : ¬ s.TablePage p) (f : Vpn → Nat) :
    (s.writePage p f).ent = s.ent := by
  refine ent_congr rfl fun x t hx ht => ?_
  have hne : t ≠ p := by
    rintro rfl
    exact hp ⟨x, hx, ht⟩
  simp [writePage, hne]

/-- A store to a page that is no table does not reach the kernel half. -/
theorem writePage_leafPte (hk : KernelHalf M K1 K0 s) {p : Nat} (hroot : s.pgdir d >>> 12 ≠ p)
    (h1 : ¬ K1 p) (h0 : ¬ K0 p) (f : Vpn → Nat) (hd : s.pgdir d ≠ 0) (hv : shared (vpn2 va)) :
    (s.writePage p f).leafPte (s.pgdir d >>> 12) va = s.leafPte (s.pgdir d >>> 12) va := by
  have hmem : ∀ t, t ≠ p → (s.writePage p f).mem t = s.mem t := by
    intro t ht
    simp [writePage, ht]
  have hne1 : ∀ t, K1 t → t ≠ p := by
    rintro t ht rfl
    exact h1 ht
  have hne0 : ∀ t, K0 t → t ≠ p := by
    rintro t ht rfl
    exact h0 ht
  have hwalk : (s.writePage p f).walk (s.pgdir d >>> 12) va = s.walk (s.pgdir d >>> 12) va := by
    rcases hk.walk_cases hd hv with ⟨hv2, hw⟩ | ⟨t1, -, rfl, ht1, -⟩
    · rw [hw]
      simp only [walk, hmem _ hroot, hv2, if_false]
    · simp only [walk, hmem _ hroot, hmem _ (hne1 _ ht1)]
  unfold leafPte
  rw [hwalk]
  rcases hk.walk_cases hd hv with ⟨-, hw⟩ | ⟨t1, -, -, -, ⟨-, hw⟩ | ⟨t0, -, -, ht0, hw⟩⟩
  · rw [hw]
  · rw [hw]
  · simp only [hw, hmem _ (hne0 _ ht0)]

end

end RiscvMos.Pmap
