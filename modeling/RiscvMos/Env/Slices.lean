import RiscvMos.Env.Sched
import RiscvMos.Pmap.Run
import RiscvMos.Lib.RoundRobin

/-!
`schedule` over whole runs of timer ticks and yields: the envs it passes to
`env_run` are those of a weighted round robin, with the priorities as weights.
-/

namespace RiscvMos.Kernel

open RoundRobin (Rotation serve slices)

/-- The envs that a sequence of calls of `schedule` passes to `env_run`. -/
def picks (k : Kernel) : List Bool → Except Halt (List EnvIdx)
  | [] => .ok []
  | y :: ys => do
    let k ← k.schedule y
    let rest ← k.picks ys
    .ok (k.curenv.toList ++ rest)

/-- The state after a sequence of calls of `schedule`. -/
def schedules (k : Kernel) (ys : List Bool) : Except Halt Kernel := ys.foldlM schedule k

/-- The next call picks the head of the list. -/
def Switches (k : Kernel) (yield : Bool) : Prop := k.curenv = none ∨ yield = true ∨ k.count = 1

/-- The queue, `curenv` and `count` of `k` are those of the rotation. -/
structure Rotates (weight : EnvIdx → Nat) (k : Kernel) (s : Rotation EnvIdx) : Prop where
  list : k.envSchedList.IsQueue s.queue
  runnable : ∀ e ∈ s.queue, (k.envs e).envStatus = .runnable
  pri : ∀ e, (k.envs e).envPri = weight e
  pos : ∀ e ∈ s.queue, 1 ≤ weight e
  cur : k.curenv = s.left.bind fun _ => s.queue.head?
  count : ∀ n, s.left = some n → k.count = n ∧ 1 ≤ n ∧ s.queue ≠ []

section
variable {weight : EnvIdx → Nat} {k k' : Kernel} {s s' : Rotation EnvIdx} {y : Bool}

/-- What `env_run` leaves of the scheduler's state. -/
theorem envRun_ok {e : EnvIdx} (h : (k.envs e).envStatus = .runnable) :
    ∃ k', k.envRun e = .ok k' ∧ k'.envSchedList = k.envSchedList ∧ k'.curenv = some e ∧
    k'.count = k.count ∧
      ∀ x, (k'.envs x).envStatus = (k.envs x).envStatus ∧
      (k'.envs x).envPri = (k.envs x).envPri := by
  unfold envRun
  rw [if_neg (by simp [h])]
  refine ⟨_, rfl, rfl, rfl, rfl, ?_⟩
  intro x
  by_cases hx : x = e
  · subst hx
    simp [setRootEntry, setEnv]
  · simp [setRootEntry, setEnv, hx]

/-- `schedule` where it picks the head of the list. -/
theorem schedFirst_rotates {q : List EnvIdx} (hq : k.envSchedList.IsQueue q)
    (hrun : ∀ e ∈ q, (k.envs e).envStatus = .runnable) (hpri : ∀ e, (k.envs e).envPri = weight e)
    (hpos : ∀ e ∈ q, 1 ≤ weight e) :
    match serve weight q with
    | none => ∃ h, k.schedFirst = .error h
    | some s' => ∃ k', k.schedFirst = .ok k' ∧ Rotates weight k' s' := by
  have hfirst := hq.first_eq
  cases q with
  | nil =>
    refine ⟨.panic "schedule: no runnable envs", ?_⟩
    unfold schedFirst
    rw [hfirst]
    rfl
  | cons e rest =>
    have he : ({ k with count := (k.envs e).envPri }.envs e).envStatus = .runnable :=
      hrun e (by simp)
    obtain ⟨k', hk', hlist, hcur, hcount, hsame⟩ := envRun_ok he
    refine ⟨k', ?_, ?_⟩
    · unfold schedFirst
      rw [hfirst]
      exact hk'
    · constructor
      · rw [hlist]
        exact hq
      · intro x hx
        rw [(hsame x).1]
        exact hrun x hx
      · intro x
        rw [(hsame x).2]
        exact hpri x
      · exact hpos
      · rw [hcur]
        rfl
      · intro n hn
        obtain rfl := Option.some.inj hn
        refine ⟨?_, hpos e (by simp), by simp⟩
        rw [hcount]
        exact congrArg Nat.cast (hpri e)

/-- The running env goes to the tail. -/
theorem schedRequeue_rotates {e : EnvIdx} {rest : List EnvIdx}
    (hq : k.envSchedList.IsQueue (e :: rest)) (hrun : (k.envs e).envStatus = .runnable) :
    ∃ q, k.schedRequeue e = .ok { k with envSchedList := q } ∧ q.IsQueue (rest ++ [e]) := by
  obtain ⟨q, hrem, hq'⟩ := hq.remove (List.mem_cons_self ..)
  rw [List.erase_cons_head] at hq'
  have hrem' : k.schedRemove e = .ok { k with envSchedList := q } := by simp [schedRemove, hrem]
  refine ⟨q.insertTail e, ?_, hq'.insertTail (List.nodup_cons.mp hq.2).1⟩
  unfold schedRequeue
  rw [hrem']
  simp [bind, Except.bind, hrun, schedInsertTail]

/-! The branches of `schedule`. -/

theorem schedule_none (h : k.curenv = none) :
    k.schedule y = schedFirst { k with count := k.count - 1 } := by
  cases k with
  | mk envs list free cur count asids last pmap base =>
    subst h
    rfl

theorem schedule_switch {e : EnvIdx} (h : k.curenv = some e) (hsw : y = true ∨ k.count - 1 = 0) :
    k.schedule y = (schedRequeue { k with count := k.count - 1 } e >>= schedFirst) := by
  cases k with
  | mk envs list free cur count asids last pmap base =>
    subst h
    unfold schedule
    dsimp only
    rw [if_pos]
    cases hsw with
    | inl hy => exact .inl hy
    | inr hz => exact .inr (.inl hz)

theorem schedule_stay {e : EnvIdx} (h : k.curenv = some e) (hsw : ¬ (y = true ∨ k.count - 1 = 0))
    (hrun : (k.envs e).envStatus = .runnable) :
    k.schedule y = envRun { k with count := k.count - 1 } e := by
  cases k with
  | mk envs list free cur count asids last pmap base =>
    subst h
    unfold schedule
    dsimp only
    rw [if_neg]
    intro h
    rcases h with h | h | h
    · exact hsw (.inl h)
    · exact hsw (.inr h)
    · exact h hrun

/-- One call of `schedule` is one step of the rotation. -/
theorem schedule_rotates (h : Rotates weight k s) (y : Bool) :
    match s.step weight y with
    | none => ∃ x, k.schedule y = .error x
    | some s' => ∃ k', k.schedule y = .ok k' ∧ Rotates weight k' s' := by
  obtain ⟨q, left⟩ := s
  cases left with
  | none =>
    have hcur : k.curenv = none := h.cur
    rw [schedule_none hcur]
    exact schedFirst_rotates (k := { k with count := k.count - 1 }) h.list h.runnable h.pri h.pos
  | some n =>
    obtain ⟨hcount, hn, hne⟩ := h.count n rfl
    cases q with
    | nil => exact absurd rfl hne
    | cons e rest =>
      have hcur : k.curenv = some e := h.cur
      have hrun : (k.envs e).envStatus = .runnable := h.runnable e (by simp)
      have hzero : y = true ∨ k.count - 1 = 0 ↔ y = true ∨ n = 1 := or_congr_right (by omega)
      by_cases hsw : y = true ∨ n = 1
      · obtain ⟨q', hreq, hq'⟩ :=
          schedRequeue_rotates (k := { k with count := k.count - 1 }) h.list hrun
        have hmem : ∀ x, x ∈ rest ++ [e] → x ∈ e :: rest := by
          intro x hx
          simpa [or_comm] using hx
        simp only [Rotation.step]
        rw [if_pos hsw, schedule_switch hcur (hzero.mpr hsw), hreq]
        apply schedFirst_rotates hq'
        · exact fun x hx => h.runnable x (hmem x hx)
        · exact h.pri
        · exact fun x hx => h.pos x (hmem x hx)
      · obtain ⟨k', hk', hlist, hcur', hcount', hsame⟩ :=
          envRun_ok (k := { k with count := k.count - 1 }) hrun
        simp only [Rotation.step]
        rw [if_neg hsw, schedule_stay hcur (fun h => hsw (hzero.mp h)) hrun]
        refine ⟨k', hk', ?_⟩
        constructor
        · rw [hlist]
          exact h.list
        · intro x hx
          rw [(hsame x).1]
          exact h.runnable x hx
        · intro x
          rw [(hsame x).2]
          exact h.pri x
        · exact h.pos
        · rw [hcur']
          rfl
        · intro m hm
          obtain rfl := Option.some.inj hm
          refine ⟨?_, by omega, by simp⟩
          rw [hcount']
          simp only
          omega

theorem picks_rotates (h : Rotates weight k s) (ys : List Bool) :
    (k.picks ys).toOption = s.trace weight ys := by
  induction ys generalizing k s with
  | nil => rfl
  | cons y ys ih =>
    have hstep := schedule_rotates h y
    unfold picks Rotation.trace
    cases hs : s.step weight y with
    | none =>
      rw [hs] at hstep
      obtain ⟨x, hx⟩ := hstep
      rw [hx]
      rfl
    | some s' =>
      rw [hs] at hstep
      obtain ⟨k', hk', h'⟩ := hstep
      have hrun : k'.curenv = s'.queue.head? := by
        have hleft := h'.cur
        cases hl : s'.left with
        | none => exact absurd hl (Rotation.step_left hs)
        | some n =>
          rw [hl] at hleft
          exact hleft
      rw [hk']
      simp only [bind, Except.bind, ← ih h', hrun]
      cases k'.picks ys with
      | error x => rfl
      | ok t => rfl

theorem schedules_rotates (h : Rotates weight k s) {ys : List Bool} (hk : k.schedules ys = .ok k') :
    ∃ s', Rotates weight k' s' ∧ s'.queue.Perm s.queue := by
  induction ys generalizing k s with
  | nil =>
    obtain rfl := Except.ok.inj hk
    exact ⟨s, h, .refl _⟩
  | cons y ys ih =>
    unfold schedules at hk
    rw [List.foldlM_cons] at hk
    obtain ⟨k₁, hk₁, hk⟩ := Except.bind_ok_iff.mp hk
    have hstep := schedule_rotates h y
    rw [hk₁] at hstep
    cases hs : s.step weight y with
    | none =>
      rw [hs] at hstep
      obtain ⟨x, hx⟩ := hstep
      cases hx
    | some s₁ =>
      rw [hs] at hstep
      obtain ⟨k₂, hk₂, h₁⟩ := hstep
      obtain rfl := Except.ok.inj hk₂
      obtain ⟨s', h', hp⟩ := ih h₁ hk
      exact ⟨s', h', hp.trans (Rotation.step_perm hs)⟩

theorem Rotates.switch (h : Rotates weight k s) (hsw : k.Switches y) :
    ∃ q, q.Perm s.queue ∧ s.step weight y = serve weight q := by
  obtain ⟨q, left⟩ := s
  cases left with
  | none => exact ⟨q, .refl _, rfl⟩
  | some n =>
    obtain ⟨hcount, hn, hne⟩ := h.count n rfl
    cases q with
    | nil => exact absurd rfl hne
    | cons e rest =>
      have hcur : k.curenv = some e := h.cur
      refine ⟨rest ++ [e], List.perm_append_singleton e rest, if_pos ?_⟩
      rcases hsw with hc | hy | hone
      · rw [hcur] at hc
        cases hc
      · exact .inl hy
      · right
        omega

/-- Without yields, a round from a switch on gives every env its slices. -/
theorem Rotates.round (h : Rotates weight k s) (hsw : k.Switches y) {l : List EnvIdx}
    (hl : s.queue.Perm l) {e : EnvIdx} (he : e ∈ l) :
    ∃ t, k.picks (y :: List.replicate ((l.map weight).sum - 1) false) = .ok t ∧
    t.count e = weight e := by
  obtain ⟨q, hq, hstep⟩ := h.switch hsw
  have hql : q.Perm l := hq.trans hl
  have hmem : e ∈ q := hql.mem_iff.mpr he
  have hne : q ≠ [] := List.ne_nil_of_mem hmem
  have hpos : ∀ x ∈ q, 1 ≤ weight x := fun x hx => h.pos x (hq.mem_iff.mp hx)
  have htrace := Rotation.trace_round hne hpos hstep
  rw [(hql.map weight).sum_nat, ← picks_rotates h] at htrace
  have hnd : q.Nodup := hq.nodup_iff.mpr h.list.2
  cases hpicks : k.picks (y :: List.replicate ((l.map weight).sum - 1) false) with
  | error x =>
    rw [hpicks] at htrace
    cases htrace
  | ok t =>
    rw [hpicks] at htrace
    obtain rfl := Option.some.inj htrace
    exact ⟨_, rfl, RoundRobin.count_slices hnd hmem⟩

theorem Rotates.yield_alone (h : Rotates weight k s) {e : EnvIdx} (hcur : k.curenv = some e)
    (hk : k.schedule true = .ok k') (hagain : k'.curenv = some e) : s.queue = [e] := by
  have hstep := schedule_rotates h true
  rw [hk] at hstep
  obtain ⟨q, left⟩ := s
  cases left with
  | none =>
    have hnone : k.curenv = none := h.cur
    rw [hnone] at hcur
    cases hcur
  | some n =>
    cases q with
    | nil => exact absurd rfl (h.count n rfl).2.2
    | cons x rest =>
      have hx : k.curenv = some x := h.cur
      obtain rfl := Option.some.inj (hx.symm.trans hcur)
      cases rest with
      | nil => rfl
      | cons z rest =>
        have hz : (Rotation.mk (x :: z :: rest) (some n)).step weight true =
            some ⟨z :: (rest ++ [x]), some (weight z)⟩ := by
          simp [Rotation.step, serve]
        rw [hz] at hstep
        obtain ⟨k₁, hk₁, h₁⟩ := hstep
        obtain rfl := Except.ok.inj hk₁
        have hzx : z = x := Option.some.inj (h₁.cur.symm.trans hagain)
        have hnd := (List.nodup_cons.mp h.list.2).1
        rw [hzx] at hnd
        exact absurd (List.mem_cons_self ..) hnd

end

/-- `schedule` is a weighted round robin over `env_sched_list`. -/
theorem schedule_weighted_round_robin {k : Kernel} {l : List EnvIdx} (hq : k.envSchedList.IsQueue l)
    (hrun : ∀ e ∈ l, (k.envs e).envStatus = .runnable) (hpri : ∀ e ∈ l, 1 ≤ (k.envs e).envPri)
    (hcur : k.curenv = none) (ys : List Bool) :
    (k.picks ys).toOption = (Rotation.mk l none).trace (fun e => (k.envs e).envPri) ys ∧
    (l ≠ [] → ∃ t, k.picks ys = .ok t ∧ t.length = ys.length) ∧
    ∀ k', k.schedules ys = .ok k' →
      (∀ y, k'.Switches y → ∀ e ∈ l, ∃ t,
        k'.picks (y :: List.replicate ((l.map fun e => (k.envs e).envPri).sum - 1) false) = .ok t ∧
          t.count e = (k.envs e).envPri) ∧
      ∀ e k'', k'.curenv = some e → k'.schedule true = .ok k'' → k''.curenv = some e → l = [e] := by
  have h : Rotates (fun e => (k.envs e).envPri) k ⟨l, none⟩ := by
    constructor
    · exact hq
    · exact hrun
    · exact fun _ => rfl
    · exact hpri
    · exact hcur
    · intro n hn
      cases hn
  have htrace := picks_rotates h ys
  refine ⟨htrace, ?_, ?_⟩
  · intro hne
    obtain ⟨t, ht, hlen⟩ := Rotation.trace_length (s := ⟨l, none⟩) hne ys
    rw [ht] at htrace
    cases hpicks : k.picks ys with
    | error x =>
      rw [hpicks] at htrace
      cases htrace
    | ok t' =>
      rw [hpicks] at htrace
      obtain rfl := Option.some.inj htrace
      exact ⟨t', rfl, hlen⟩
  · intro k' hk'
    obtain ⟨s', h', hperm⟩ := schedules_rotates h hk'
    constructor
    · intro y hsw e he
      exact h'.round hsw hperm he
    · intro e k'' hce hk'' hagain
      have halone := h'.yield_alone hce hk'' hagain
      rw [halone] at hperm
      exact (List.singleton_perm.mp hperm).symm

/-- Two runnable envs of priorities 1 and 2. -/
def twoRunnable : Kernel :=
  let k := envInit (Pmap.boot EnvIdx []) 0
  let k := k.setEnv 0 { zeroEnv with envStatus := .runnable, envPri := 1 }
  let k := k.setEnv 1 { zeroEnv with envStatus := .runnable, envPri := 2 }
  (k.schedInsertTail 0).schedInsertTail 1

theorem twoRunnable_isQueue : twoRunnable.envSchedList.IsQueue [0, 1] :=
  (Tailq.init_isQueue.insertTail (a := 0) (by simp)).insertTail (by decide)

theorem twoRunnable_round_robin :
    (twoRunnable.picks [false, false, false, false, true, true, false]).toOption =
      some [0, 1, 1, 0, 1, 0, 1] := by
  have h :=
    (schedule_weighted_round_robin twoRunnable_isQueue (by decide +kernel) (by decide +kernel) rfl
    [false, false, false, false, true, true, false]).1
  rw [h]
  decide +kernel

end RiscvMos.Kernel
