import RiscvMos.Env.Lives
import RiscvMos.Env.Reach

/-!
Env ids over whole runs. An id is a count of `mkenvid` over the index of the
env; counts grow, so ids are never given twice, and the index finds the env.
-/

namespace RiscvMos.Kernel

theorem mkenvid_eq {i : Nat} (hi : i < 2 ^ 21) (e : EnvIdx) : mkenvid i e = 2048 * i + e.val := by
  have he : e.val < 2 ^ 11 := e.isLt.trans (by decide)
  have hu : uInt (i <<< 11) = i <<< 11 := by
    rw [uInt, Nat.shiftLeft_eq]
    omega
  rw [mkenvid, hu, ← Nat.shiftLeft_add_eq_or_of_lt he, Nat.shiftLeft_eq]
  omega

/-- After `n` calls of `mkenvid`. -/
structure IdInv (n : Nat) (k : Kernel) : Prop where
  last : k.lastEnvid = n
  free : FreeInv k
  id : ∀ e, (k.envs e).envId = 0 ∨ ∃ i, 1 ≤ i ∧ i ≤ n ∧ (k.envs e).envId = 2048 * i + e.val
  live : ∀ e, e ∉ k.envFreeList → (k.envs e).envId ≠ 0

/-- The envs that have the id, if any, are free. -/
def Dead (k : Kernel) (id : Nat) : Prop := ∀ x, (k.envs x).envId = id → x ∈ k.envFreeList

section
variable {k k' k₁ k₂ : Kernel} {e cur : EnvIdx} {n m parentId id : Nat} {r : Except Int EnvIdx}
    {ids : List Nat}

theorem envInit_idInv (s : Pmap EnvIdx) (base : Nat) : IdInv 0 (envInit s base) := by
  have hlist : (envInit s base).envFreeList = List.finRange 1024 := by simp only [envInit]
  have henvs : (envInit s base).envs = fun _ => zeroEnv := by simp only [envInit]
  constructor
  · rfl
  · constructor
    · rw [hlist]
      exact List.nodup_finRange 1024
    · intro e _
      rw [henvs]
      rfl
  · intro e
    rw [henvs]
    exact .inl rfl
  · intro e he
    rw [hlist] at he
    exact absurd (List.mem_finRange e) he

theorem IdInv.id_lt (h : IdInv n k) (e : EnvIdx) : (k.envs e).envId < 2048 * (n + 1) := by
  rcases h.id e with h0 | ⟨i, -, hi, hid⟩
  · omega
  · have := e.isLt
    omega

theorem IdInv.between (h : IdInv n k) (hb : Between k k') : IdInv n k' := by
  have hid : ∀ e, (k'.envs e).envId = (k.envs e).envId := fun e => identity_id (hb.identity e)
  constructor
  · rw [hb.last]
    exact h.last
  · exact freeInv_between h.free hb
  · intro e
    rw [hid]
    exact h.id e
  · intro e he
    rw [hb.list] at he
    rw [hid]
    exact h.live e he

theorem IdInv.envFree (h : IdInv n k) (he : e ∉ k.envFreeList) (hf : k.envFree e = .ok k') :
    IdInv n k' := by
  have hfree := freeInv_envFree h.free he hf
  obtain ⟨s, q, rfl⟩ := envFree_ok hf
  have hid : ∀ x, (Function.update k.envs e { k.envs e with envStatus := .free } x).envId =
      (k.envs x).envId := by
    intro x
    by_cases hx : x = e
    · simp [hx]
    · simp [hx]
  constructor
  · exact h.last
  · exact hfree
  · intro x
    rw [hid]
    exact h.id x
  · intro x hx
    rw [hid]
    exact h.live x fun hm => hx (List.mem_cons_of_mem e hm)

/-- `env_alloc` gives no id but the next one. -/
theorem IdInv.envAlloc (h : IdInv n k) (hn : n + k.mkenvidCalls < 2 ^ 21)
    (ha : k.envAlloc parentId = .ok (r, k')) :
    IdInv (n + k.mkenvidCalls) k' ∧
    (∀ x, (k'.envs x).envId = (k.envs x).envId ∧ (x ∈ k.envFreeList → x ∈ k'.envFreeList) ∨
      2048 * (n + 1) ≤ (k'.envs x).envId) ∧
    ∀ id ∈ k'.newId r, 2048 * (n + 1) ≤ id ∧ id < 2048 * (n + k.mkenvidCalls + 1) := by
  have hfree := freeInv_envAlloc h.free ha
  rcases envAlloc_id ha with ⟨hc, ⟨i, rfl⟩, rfl⟩ | ⟨e, rest, hc, hl, hlast, hid, -, hoth, hend⟩
  · rw [hc]
    exact ⟨h, fun x => .inl ⟨rfl, fun hx => hx⟩, fun id hid => by cases hid⟩
  rw [hc] at hn ⊢
  have hnext : uInt (k.lastEnvid + 1) = n + 1 := by
    rw [h.last, uInt]
    omega
  rw [hnext] at hlast hid
  rw [mkenvid_eq hn] at hid
  have hlt := e.isLt
  refine ⟨⟨hlast, hfree, ?_, ?_⟩, ?_, ?_⟩
  · intro x
    by_cases hx : x = e
    · subst hx
      exact .inr ⟨n + 1, by omega, by omega, hid⟩
    · rw [hoth x hx]
      rcases h.id x with h0 | ⟨i, hi, hin, hix⟩
      · exact .inl h0
      · exact .inr ⟨i, hi, by omega, hix⟩
  · intro x hx
    by_cases hxe : x = e
    · subst hxe
      omega
    · rw [hoth x hxe]
      apply h.live
      intro hm
      apply hx
      rcases hend with ⟨-, hf⟩ | ⟨-, hf⟩
      · rw [hf]
        exact hm
      · rw [hl] at hm
        rw [hf]
        exact (List.mem_cons.mp hm).resolve_left hxe
  · intro x
    by_cases hx : x = e
    · subst hx
      right
      omega
    · refine .inl ⟨by rw [hoth x hx], ?_⟩
      intro hm
      rcases hend with ⟨-, hf⟩ | ⟨-, hf⟩
      · rw [hf]
        exact hm
      · rw [hl] at hm
        rw [hf]
        exact (List.mem_cons.mp hm).resolve_left hx
  · intro id hm
    rcases hend with ⟨⟨i, rfl⟩, -⟩ | ⟨rfl, -⟩
    · cases hm
    · obtain rfl := List.mem_singleton.mp hm
      omega

/-- Over a run ids grow. -/
theorem Lives.ids_grow (run : Lives k m ids k') (h : IdInv n k) (hn : n + m < 2 ^ 21) :
    IdInv (n + m) k' ∧ ids.Pairwise (· < ·) ∧
    ∀ id ∈ ids, 2048 * (n + 1) ≤ id ∧ id < 2048 * (n + m + 1) := by
  induction run with
  | refl => exact ⟨h, .nil, by simp⟩
  | free _ live hf ih =>
    obtain ⟨hinv, hids⟩ := ih hn
    exact ⟨hinv.envFree live hf, hids⟩
  | between _ hb ih =>
    obtain ⟨hinv, hids⟩ := ih hn
    exact ⟨hinv.between hb, hids⟩
  | @alloc m ids k₁ k' _ r _ ha ih =>
    obtain ⟨hinv, hpair, hrange⟩ := ih (by omega)
    have hnew := hinv.envAlloc (by omega) ha
    rw [Nat.add_assoc] at hnew
    obtain ⟨hinv', -, hnew⟩ := hnew
    refine ⟨hinv', ?_, ?_⟩
    · apply List.pairwise_append.mpr
      refine ⟨hpair, ?_, ?_⟩
      · cases r with
        | error i => exact .nil
        | ok e => exact List.pairwise_singleton _ _
      · intro a ha b hb
        have := (hrange a ha).2
        have := (hnew b hb).1
        omega
    · intro id hid
      cases List.mem_append.mp hid with
      | inl hid =>
        have := hrange id hid
        omega
      | inr hid =>
        have := hnew id hid
        omega

/-- A dead id stays dead: the counter is past it. -/
theorem Lives.dead (run : Lives k m ids k') (h : IdInv n k) (hn : n + m < 2 ^ 21)
    (hid : id < 2048 * (n + 1)) (hd : Dead k id) : Dead k' id := by
  induction run with
  | refl => exact hd
  | between _ hb ih =>
    intro x hx
    rw [identity_id (hb.identity x)] at hx
    rw [hb.list]
    exact ih hn x hx
  | @free _ _ _ k' e _ _ hf ih =>
    intro x hx
    obtain ⟨s, q, rfl⟩ := envFree_ok hf
    by_cases hxe : x = e
    · simp [hxe]
    · apply List.mem_cons_of_mem
      apply ih hn
      simpa [hxe] using hx
  | alloc run ha ih =>
    intro x hx
    have hinv := (run.ids_grow h (by omega)).1
    obtain ⟨-, hx', -⟩ := hinv.envAlloc (by omega) ha
    rcases hx' x with ⟨hsame, hmem⟩ | hge
    · exact hmem (ih (by omega) x (hsame.symm.trans hx))
    · omega

theorem envid2env_dead (hf : FreeInv k) (hd : Dead k (uInt id)) (h0 : uInt id ≠ 0)
    (checkperm : Nat) :
    k.envid2env cur id checkperm = .error (-eBadEnv) := by
  unfold envid2env
  dsimp only
  rw [if_neg h0, if_pos]
  by_cases hid : (k.envs ⟨uInt id % 1024, Nat.mod_lt _ (by decide)⟩).envId = uInt id
  · exact .inl (hf.2 _ (hd _ hid))
  · exact .inr hid

/-- The id of an env has its index in it. -/
theorem IdInv.index (h : IdInv n k) (h0 : (k.envs e).envId ≠ 0) :
    (k.envs e).envId % 1024 = e.val := by
  have := e.isLt
  rcases h.id e with hz | ⟨i, -, -, hid⟩
  · exact absurd hz h0
  · omega

/-- `envid2env` without the check of permission. -/
theorem IdInv.envid2env_iff (h : IdInv n k) (h0 : uInt id ≠ 0) :
    k.envid2env cur id 0 = .ok e ↔ (k.envs e).envStatus ≠ .free ∧ (k.envs e).envId = uInt id := by
  unfold envid2env
  dsimp only
  rw [if_neg h0]
  constructor
  · intro he
    split at he
    · cases he
    rename_i hok
    rw [if_neg (by simp)] at he
    obtain rfl := Except.ok.inj he
    rw [not_or, not_not] at hok
    exact hok
  · rintro ⟨hst, hid⟩
    have hidx : (⟨uInt id % 1024, Nat.mod_lt _ (by decide)⟩ : EnvIdx) = e := by
      apply Fin.ext
      rw [← hid]
      exact h.index (by rw [hid]; exact h0)
    rw [hidx, if_neg (by rw [not_or, not_not]; exact ⟨hst, hid⟩), if_neg (by simp)]

theorem envid2env_error {checkperm : Nat} {x : Int} (h : k.envid2env cur id checkperm = .error x) :
    x = -eBadEnv := by
  unfold envid2env at h
  dsimp only at h
  split at h
  · cases h
  split at h
  · exact (Except.error.inj h).symm
  split at h
  · exact (Except.error.inj h).symm
  · cases h

end

/-- Over any run from `env_init` with fewer than `2 ^ 21 - 1` calls of `mkenvid`,
ids name envs. -/
theorem ids_name_envs {s : Pmap EnvIdx} {base n : Nat} {ids : List Nat} {k : Kernel}
    (run : Lives (envInit s base) n ids k) (hn : n < 2 ^ 21 - 1) :
    ids.Nodup ∧ 0 ∉ ids ∧
    (∀ cur id, uInt id ≠ 0 →
      (∀ e, k.envid2env cur id 0 = .ok e ↔
        (k.envs e).envStatus ≠ .free ∧ (k.envs e).envId = uInt id) ∧
      (∀ e, k.envid2env cur id 0 = .ok e → e.val = uInt id % 1024) ∧
      ((¬ ∃ e, (k.envs e).envStatus ≠ .free ∧ (k.envs e).envId = uInt id) →
        k.envid2env cur id 0 = .error (-eBadEnv))) ∧
    ∀ e k₁ m ids' k₂, e ∉ k.envFreeList → k.envFree e = .ok k₁ → Lives k₁ m ids' k₂ →
    n + m < 2 ^ 21 - 1 →
      ∀ cur checkperm, k₂.envid2env cur (k.envs e).envId checkperm = .error (-eBadEnv) := by
  obtain ⟨hinv, hpair, hrange⟩ := run.ids_grow (envInit_idInv s base) (by omega)
  rw [Nat.zero_add] at hinv
  refine ⟨?_, ?_, ?_, ?_⟩
  · exact hpair.imp fun h => Nat.ne_of_lt h
  · intro h0
    have := (hrange 0 h0).1
    omega
  · intro cur id h0
    refine ⟨fun e => hinv.envid2env_iff h0, ?_, ?_⟩
    · intro e he
      obtain ⟨-, hid⟩ := (hinv.envid2env_iff h0).mp he
      rw [← hid]
      exact (hinv.index (by rw [hid]; exact h0)).symm
    · intro hno
      cases he : k.envid2env cur id 0 with
      | error x => rw [envid2env_error he]
      | ok e => exact absurd ⟨e, (hinv.envid2env_iff h0).mp he⟩ hno
  · intro e k₁ m ids' k₂ hlive hf run' hm cur checkperm
    have hinv₁ := hinv.envFree hlive hf
    have hlt := hinv.id_lt e
    have hid : uInt (k.envs e).envId = (k.envs e).envId := by
      rw [uInt]
      omega
    have hdead : Dead k₁ (k.envs e).envId := by
      obtain ⟨q, t, rfl⟩ := envFree_ok hf
      intro x hx
      by_cases hxe : x = e
      · simp [hxe]
      · exfalso
        have hx' : (k.envs x).envId = (k.envs e).envId := by simpa [hxe] using hx
        have he := hinv.index (hinv.live e hlive)
        have hxi := hinv.index (e := x) (by rw [hx']; exact hinv.live e hlive)
        rw [hx', he] at hxi
        exact hxe (Fin.ext hxi.symm)
    apply envid2env_dead
    · exact (run'.ids_grow hinv₁ (by omega)).1.free
    · rw [hid]
      exact run'.dead hinv₁ (by omega) hlt hdead
    · rw [hid]
      exact hinv.live e hlive

/-- `e->env_status = ENV_RUNNABLE`, and `TAILQ_INSERT_TAIL`. -/
def started (k : Kernel) (e : EnvIdx) : Kernel := (k.setStatus e .runnable).schedInsertTail e

theorem started_between {k : Kernel} {e : EnvIdx} (h : e ∉ k.envFreeList) :
    Between k (k.started e) := by
  have set : Between k (k.setStatus e .runnable) := between_setEnv rfl h
  exact ⟨set.identity, set.asids, set.last, set.list, set.free⟩

/-- The first env after boot runs and is freed, and its place is taken again. -/
def secondLife :
    Except Halt ((Except Int EnvIdx × Kernel) × Kernel × Except Int EnvIdx × Kernel) := do
  let first ← (envInit demoPmap 0x82000000).envAlloc 0
  let k ← (first.2.started 0).envFree 0
  let second ← k.envAlloc 0
  .ok (first, k, second)

/-- The new env has another id, and the old id finds it no more. -/
theorem ids_name_envs_again : ∃ k, Lives (envInit demoPmap 0x82000000) 2 [2048, 4096] k ∧
    [2048, 4096].Nodup ∧ (∀ cur, k.envid2env cur 4096 0 = .ok 0) ∧
    ∀ cur checkperm, k.envid2env cur 2048 checkperm = .error (-eBadEnv) := by
  have hev : secondLife.toOption.any (fun a => decide
      (a.1.2.newId a.1.1 = [2048] ∧ 0 ∉ a.1.2.envFreeList ∧ (a.1.2.envs 0).envId = 2048 ∧
      a.2.1.mkenvidCalls = 1 ∧ a.2.2.2.newId a.2.2.1 = [4096] ∧ 0 ∉ a.2.2.2.envFreeList ∧
      (a.2.2.2.envs 0).envId = 4096)) = true := by decide +kernel
  obtain ⟨⟨⟨r₁, k₁⟩, k₂, r₃, k₃⟩, hk, hid₁, hlive₁, hold, hcalls, hid₃, hlive₃, hnew⟩ :=
    Option.exists_of_any hev
  obtain ⟨_, h₁, hk⟩ := Except.bind_ok_iff.mp (Except.ok_of_toOption hk)
  obtain ⟨_, h₂, hk⟩ := Except.bind_ok_iff.mp hk
  obtain ⟨_, h₃, hk⟩ := Except.bind_ok_iff.mp hk
  cases hk
  have hfirst : (envInit demoPmap 0x82000000).mkenvidCalls = 1 := by decide +kernel
  have one := (Lives.alloc .refl h₁).between (started_between hlive₁)
  rw [hid₁, hfirst] at one
  have next : Lives k₂ 1 [4096] (k₃.started 0) := by
    have run := (Lives.alloc (.refl) h₃).between (started_between hlive₃)
    rwa [hid₃, hcalls] at run
  have run : Lives (envInit demoPmap 0x82000000) 2 [2048, 4096] (k₃.started 0) := by
    have run := ((one.free hlive₁ h₂).alloc h₃).between (started_between hlive₃)
    rwa [hid₃, hcalls] at run
  refine ⟨k₃.started 0, run, (ids_name_envs run (by decide)).1, fun cur => ?_,
    fun cur checkperm => ?_⟩
  · have runs : ((k₃.started 0).envs 0).envStatus ≠ .free := by
      simp [started, setStatus, setEnv, schedInsertTail]
    have same : ((k₃.started 0).envs 0).envId = 4096 := by
      simpa [started, setStatus, setEnv, schedInsertTail] using hnew
    exact (((ids_name_envs run (by decide)).2.2.1 cur 4096 (by decide)).1 0).mpr ⟨runs, same⟩
  · have dead := (ids_name_envs one (by decide)).2.2.2 0 k₂ 1 [4096] _ hlive₁ h₂ next (by decide)
      cur checkperm
    have same : ((k₁.started 0).envs 0).envId = 2048 := by
      simpa [started, setStatus, setEnv, schedInsertTail] using hold
    rwa [same] at dead

end RiscvMos.Kernel
