import RiscvMos.Env.Sched

/-!
The lives of envs: `env_alloc` gives an env an id and an ASID, and `env_free`
ends its life. Runs are sequences of the two and of steps of the rest of the
kernel, which leaves ids, ASIDs and the free list alone. `mkenvid` counts; as
long as its counter fits, an id is never given twice.
-/

namespace RiscvMos

/-- What `env_alloc` gives an env. -/
def Env.identity (v : Env) : Nat × Nat × Nat := (v.envId, v.envAsid, v.envParentId)

namespace Kernel

/-- What the rest of the kernel leaves alone. -/
structure Between (k k' : Kernel) : Prop where
  identity : ∀ e, (k'.envs e).identity = (k.envs e).identity
  asids : k'.asidBitmap = k.asidBitmap
  last : k'.lastEnvid = k.lastEnvid
  list : k'.envFreeList = k.envFreeList
  free : ∀ e ∈ k.envFreeList, (k'.envs e).envStatus = (k.envs e).envStatus

/-- How often `env_alloc` calls `mkenvid`. -/
def mkenvidCalls (k : Kernel) : Nat := if k.envFreeList = [] then 0 else 1

/-- The id of the env that `env_alloc` returned. -/
def newId (k' : Kernel) : Except Int EnvIdx → List Nat
  | .error _ => []
  | .ok e => [(k'.envs e).envId]

/-- A run with `n` calls of `mkenvid` in which `ids` are the ids of the new
envs, in order. -/
inductive Lives (k : Kernel) : Nat → List Nat → Kernel → Prop where
  | refl : Lives k 0 [] k
  | alloc {n : Nat} {ids : List Nat} {k₁ k' : Kernel} {parentId : Nat} {r : Except Int EnvIdx}
      (run : Lives k n ids k₁) (h : k₁.envAlloc parentId = .ok (r, k')) :
      Lives k (n + k₁.mkenvidCalls) (ids ++ k'.newId r) k'
  | free {n : Nat} {ids : List Nat} {k₁ k' : Kernel} {e : EnvIdx} (run : Lives k n ids k₁)
      (live : e ∉ k₁.envFreeList) (h : k₁.envFree e = .ok k') : Lives k n ids k'
  | between {n : Nat} {ids : List Nat} {k₁ k' : Kernel} (run : Lives k n ids k₁)
    (h : Between k₁ k') :
      Lives k n ids k'

/-- The first env of the free list, with a new id and the memory of nobody. -/
def named (k : Kernel) (e : EnvIdx) : Kernel :=
  { k with pmap := k.pmap.setPgdir e 0, lastEnvid := uInt (k.lastEnvid + 1) }.setEnv
    e { k.envs e with
    envUserTlbModEntry := 0, envRuns := 0, envId := mkenvid (uInt (k.lastEnvid + 1)) e }

/-- What `env_alloc` has done when it comes to `env_setup_vm`. -/
def claimed (k : Kernel) (e : EnvIdx) (asid parentId : Nat) : Kernel :=
  { k.named e with asidBitmap := Function.update k.asidBitmap asid true }.setEnv e
    { (k.named e).envs e with envAsid := asid, envParentId := parentId }

section
variable {k k' k'' : Kernel} {e x : EnvIdx} {parentId : Nat} {r : Except Int EnvIdx}

theorem envAlloc_eq {rest : List EnvIdx} (h : k.envFreeList = e :: rest) :
    k.envAlloc parentId =
      match k.asidAlloc with
      | none => .ok (.error (-eNoFreeEnv), k.named e)
      | some asid =>
        (k.claimed e asid parentId).envSetupVm e >>= fun k₁ =>
          .ok (.ok e, { k₁ with envFreeList := rest }) := by
  unfold envAlloc
  split
  · rename_i hl
    rw [h] at hl
    cases hl
  · rename_i e' rest' hl
    rw [h] at hl
    cases hl
    rfl

/-- The three ways out of `env_alloc`. -/
theorem envAlloc_cases (h : k.envAlloc parentId = .ok (r, k')) :
    (k.envFreeList = [] ∧ r = .error (-eNoFreeEnv) ∧ k' = k) ∨
    (∃ e rest, k.envFreeList = e :: rest ∧ k.asidAlloc = none ∧ r = .error (-eNoFreeEnv) ∧
      k' = k.named e) ∨
    (∃ e rest asid k₁, k.envFreeList = e :: rest ∧ k.asidAlloc = some asid ∧ r = .ok e ∧
      (k.claimed e asid parentId).envSetupVm e = .ok k₁ ∧
      k' = { k₁ with envFreeList := rest }) := by
  cases hl : k.envFreeList with
  | nil =>
    unfold envAlloc at h
    rw [hl] at h
    obtain ⟨rfl, rfl⟩ := Prod.mk.inj (Except.ok.inj h)
    exact .inl ⟨rfl, rfl, rfl⟩
  | cons e rest =>
  rw [envAlloc_eq hl] at h
  cases ha : k.asidAlloc with
  | none =>
    rw [ha] at h
    obtain ⟨rfl, rfl⟩ := Prod.mk.inj (Except.ok.inj h)
    exact .inr (.inl ⟨e, rest, rfl, rfl, rfl, rfl⟩)
  | some asid =>
    rw [ha] at h
    obtain ⟨k₁, hk₁, h⟩ := Except.bind_ok_iff.mp h
    obtain ⟨rfl, rfl⟩ := Prod.mk.inj (Except.ok.inj h)
    exact .inr (.inr ⟨e, rest, asid, k₁, rfl, rfl, rfl, hk₁, rfl⟩)

/-- `env_setup_vm` changes memory only. -/
theorem envSetupVm_ok (h : k.envSetupVm e = .ok k') : ∃ s, k' = { k with pmap := s } := by
  obtain ⟨⟨_, s₁⟩, -, h⟩ := Except.bind_ok_iff.mp h
  obtain ⟨⟨_, s₂⟩, -, h⟩ := Except.bind_ok_iff.mp h
  exact ⟨_, (Except.ok.inj h).symm⟩

/-- What `env_free` leaves of the env table. -/
theorem envFree_ok (h : k.envFree e = .ok k') :
    ∃ s q, k' = { k with
      envs := Function.update k.envs e { k.envs e with envStatus := .free }
      asidBitmap := Function.update k.asidBitmap (k.envs e).envAsid false
      envFreeList := e :: k.envFreeList, pmap := s, envSchedList := q } := by
  obtain ⟨⟨_, s⟩, -, h⟩ := Except.bind_ok_iff.mp h
  dsimp only at h
  unfold schedRemove at h
  split at h
  · cases h
  · rename_i q _
    exact ⟨s, q, (Except.ok.inj h).symm⟩

theorem identity_id (h : (k'.envs x).identity = (k.envs x).identity) :
    (k'.envs x).envId = (k.envs x).envId :=
  congrArg Prod.fst h

theorem named_other (hx : x ≠ e) : (k.named e).envs x = k.envs x := by simp [named, setEnv, hx]

theorem claimed_other {asid : Nat} (hx : x ≠ e) :
    (k.claimed e asid parentId).envs x = k.envs x := by
  simp [claimed, setEnv, hx, named_other]

theorem claimed_self {asid : Nat} :
    (k.claimed e asid parentId).envs e = { k.envs e with
      envUserTlbModEntry := 0, envRuns := 0, envId := mkenvid (uInt (k.lastEnvid + 1)) e
      envAsid := asid, envParentId := parentId } := by
  simp [claimed, named, setEnv]

/-- `env_alloc`, as the run of ids sees it: it stops before `mkenvid`, or gives
the next id to the first free env, which stays on the list or leaves it. -/
theorem envAlloc_id (h : k.envAlloc parentId = .ok (r, k')) :
    (k.mkenvidCalls = 0 ∧ (∃ i, r = .error i) ∧ k' = k) ∨
    ∃ e rest, k.mkenvidCalls = 1 ∧ k.envFreeList = e :: rest ∧
    k'.lastEnvid = uInt (k.lastEnvid + 1) ∧
      (k'.envs e).envId = mkenvid (uInt (k.lastEnvid + 1)) e ∧
      (k'.envs e).envStatus = (k.envs e).envStatus ∧
      (∀ x, x ≠ e → k'.envs x = k.envs x) ∧
      ((∃ i, r = .error i) ∧ k'.envFreeList = k.envFreeList ∨
        r = .ok e ∧ k'.envFreeList = rest) := by
  rcases envAlloc_cases h with ⟨hl, rfl, rfl⟩ | ⟨e, rest, hl, -, rfl, rfl⟩ |
    ⟨e, rest, asid, k₁, hl, -, rfl, hvm, rfl⟩
  · exact .inl ⟨by simp [mkenvidCalls, hl], ⟨_, rfl⟩, rfl⟩
  · refine .inr ⟨e, rest, by simp [mkenvidCalls, hl], hl,
      rfl, by simp [named, setEnv], by simp [named, setEnv], ?_, ?_⟩
    · exact fun x hx => named_other hx
    · exact .inl ⟨⟨_, rfl⟩, rfl⟩
  · obtain ⟨s, rfl⟩ := envSetupVm_ok hvm
    refine .inr ⟨e, rest, by simp [mkenvidCalls, hl], hl, rfl, ?_, ?_, ?_, .inr ⟨rfl, rfl⟩⟩
    · show ((k.claimed e asid parentId).envs e).envId = _
      rw [claimed_self]
    · show ((k.claimed e asid parentId).envs e).envStatus = _
      rw [claimed_self]
    · exact fun x hx => claimed_other hx

theorem between_setEnv {v : Env} (hid : v.identity = (k.envs e).identity)
    (hfree : e ∉ k.envFreeList) :
    Between k (k.setEnv e v) := by
  constructor
  · intro x
    by_cases hx : x = e
    · subst hx
      simp [setEnv, hid]
    · simp [setEnv, hx]
  · rfl
  · rfl
  · rfl
  · intro x hx
    have hne : x ≠ e := by
      rintro rfl
      exact hfree hx
    simp [setEnv, hne]

theorem freeInv_between (hk : FreeInv k) (h : Between k k') : FreeInv k' := by
  constructor
  · rw [h.list]
    exact hk.1
  · intro x hx
    rw [h.list] at hx
    rw [h.free x hx]
    exact hk.2 x hx

theorem freeInv_envAlloc (hk : FreeInv k) (h : k.envAlloc parentId = .ok (r, k')) : FreeInv k' := by
  rcases envAlloc_id h with ⟨-, -, rfl⟩ | ⟨e, rest, -, hl, -, -, hst, hoth, hend⟩
  · exact hk
  have hstatus : ∀ x, (k'.envs x).envStatus = (k.envs x).envStatus := by
    intro x
    by_cases hx : x = e
    · rw [hx, hst]
    · rw [hoth x hx]
  have hsub : k'.envFreeList <:+ k.envFreeList := by
    rcases hend with ⟨-, hf⟩ | ⟨-, hf⟩
    · exact hf ▸ List.suffix_refl _
    · rw [hf, hl]
      exact List.suffix_cons e rest
  constructor
  · exact hk.1.sublist hsub.sublist
  · intro x hx
    rw [hstatus]
    exact hk.2 x (hsub.subset hx)

theorem freeInv_envFree (hk : FreeInv k) (he : e ∉ k.envFreeList) (h : k.envFree e = .ok k') :
    FreeInv k' := by
  obtain ⟨s, q, rfl⟩ := envFree_ok h
  constructor
  · exact List.nodup_cons.mpr ⟨he, hk.1⟩
  · intro x hx
    by_cases hxe : x = e
    · simp [hxe]
    · have hmem : x ∈ k.envFreeList := by
        cases hx with
        | head => exact absurd rfl hxe
        | tail _ hx => exact hx
      simpa [hxe] using hk.2 x hmem

end

end Kernel

end RiscvMos
