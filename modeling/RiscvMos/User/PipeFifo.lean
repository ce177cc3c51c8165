import RiscvMos.User.Pipe

/-!
A pipe is first in, first out: the invariant counts the bytes that went in and
came out, and ties the two positions to the counts, also between a position's
increment and its reset.
-/

namespace RiscvMos.User

/-- Position `pos` stands for the count `c` when its owner is at `pc`: it may
be 32 between the increment and the reset. -/
def Pc.At : Pc → Nat → Nat → Prop
  | .ifEnd, pos, c => 0 < c ∧ pos = (c - 1) % 32 + 1
  | .reset, pos, c => pos = 32 ∧ c % 32 = 0
  | _, pos, c => pos = c % 32

/-- How far `wbuf` has moved at `pc` in round `i`. -/
def Pc.moved : Pc → Nat → Nat
  | .ifEnd, i | .reset, i | .next, i => i + 1
  | _, i => i

/-- While both ends are open, `w` bytes have been put into the ring. -/
structure Flows (s : PipeState) (w : Nat) : Prop where
  le : s.stored.length ≤ w
  room : w < s.stored.length + 32
  rpos : s.reader.pc.At s.pipe.pRpos s.stored.length
  wpos : s.writer.pc.At s.pipe.pWpos w
  ring : Ring.Holds 32 s.pipe.pBuf s.passed s.stored.length w
  rest : ∀ j, s.writer.ptr ≤ j → j < s.writer.n →
    s.passed[w + (j - s.writer.ptr)]? = some (s.writer.vbuf j)
  length : s.passed.length = w + (s.writer.n - s.writer.ptr)
  nonempty : s.reader.pc = .move → s.stored.length < w
  unfull : s.writer.pc = .move → w + 1 < s.stored.length + 32
  ptr : s.writer.ptr = if s.writer.pc = .out then s.writer.n else s.writer.pc.moved s.writer.i
  round : s.writer.pc ≠ .out → s.writer.pc ≠ .forTest → s.writer.i < s.writer.n
  bound : s.writer.i ≤ s.writer.n

/-- A closed reader stores no more. -/
structure Fifo (s : PipeState) : Prop where
  prefix_passed : s.stored <+: s.passed
  flows : s.readOpen = true → ∃ w, Flows s w
  still : s.readOpen = false → s.reader.pc = .out

section
variable {s s' : PipeState} {w : Nat} {closed : Bool}

/-- The empty test: `p_wpos` and `p_rpos` differ when a byte is left, and are
equal when none is, but for a `p_wpos` of 32. -/
theorem Flows.isEmpty_iff (h : Flows s w) (hpc : s.reader.pc = .whileTest)
    (hset : ¬ (s.pipe.pWpos = by2pipe ∧ s.pipe.pRpos = 0)) :
    s.pipe.isEmpty ↔ s.stored.length = w := by
  have hr := h.rpos
  have hw := h.wpos
  have hle := h.le
  have hroom := h.room
  rw [hpc] at hr
  simp only [Pc.At] at hr
  simp only [by2pipe] at hset
  unfold Pipe.isEmpty
  cases hpc' : s.writer.pc <;> simp only [hpc', Pc.At] at hw <;> omega

/-- The full test is right also when `p_rpos` is 32. -/
theorem Flows.isFull_iff (h : Flows s w) (hpc : s.writer.pc = .whileTest) :
    s.pipe.isFull ↔ w + 1 = s.stored.length + 32 := by
  have hr := h.rpos
  have hw := h.wpos
  have hle := h.le
  have hroom := h.room
  rw [hpc] at hw
  simp only [Pc.At] at hw
  unfold Pipe.isFull uInt by2pipe
  cases hpc' : s.reader.pc <;> simp only [hpc', Pc.At] at hr <;> omega

/-- A step that moves the reader's control only. -/
theorem Flows.reader (h : Flows s w) (r : Reader) (hr : r.pc.At s.pipe.pRpos s.stored.length)
    (hm : r.pc = .move → s.stored.length < w) : Flows { s with reader := r } w :=
  { h with rpos := hr, nonempty := hm }

/-- The statement that takes a byte. -/
theorem Flows.copy (h : Flows s w) (hpc : s.reader.pc = .move) (hp : s.stored <+: s.passed) :
    Flows (s.readStep closed) w ∧ (s.readStep closed).stored <+: s.passed := by
  have hlt := h.nonempty hpc
  have hr := h.rpos
  have hle := h.le
  have hroom := h.room
  rw [hpc] at hr
  simp only [Pc.At] at hr
  obtain ⟨hbyte, hring⟩ := h.ring.take hlt
  rw [← hr] at hbyte
  unfold PipeState.readStep
  rw [hpc]
  constructor
  · refine ⟨?_, ?_, ?_, h.wpos, ?_, h.rest, h.length, by simp, ?_, h.ptr, h.round, h.bound⟩
    · simp only [List.length_append, List.length_singleton]
      omega
    · simp only [List.length_append, List.length_singleton]
      omega
    · simp only [List.length_append, List.length_singleton, Pc.At, uInt]
      omega
    · simpa only [List.length_append, List.length_singleton] using hring
    · intro hm
      have := h.unfull hm
      simp only [List.length_append, List.length_singleton]
      omega
  · obtain ⟨t, ht⟩ := hp
    have hb : t[0]? = some (s.pipe.pBuf s.pipe.pRpos) := by
      rw [← hbyte, ← ht, List.getElem?_append_right (Nat.le_refl _), Nat.sub_self]
    cases t with
    | nil => cases hb
    | cons b t =>
      obtain rfl := Option.some.inj hb
      exact ⟨t, by simp [← ht]⟩

/-- A step of `pipe_read`. -/
theorem Flows.read (h : Flows s w) (hp : s.stored <+: s.passed)
    (hP : TestsSettled s (.read closed)) :
    Flows (s.readStep closed) w ∧ (s.readStep closed).stored <+: s.passed := by
  have hr := h.rpos
  cases hpc : s.reader.pc with
  | move => exact h.copy hpc hp
  | out =>
    rw [PipeState.readStep, hpc]
    exact ⟨h, hp⟩
  | forTest =>
    rw [PipeState.readStep, hpc]
    rw [hpc] at hr
    refine ⟨h.reader _ ?_ ?_, hp⟩
    · dsimp only
      split <;> exact hr
    · dsimp only
      split <;> simp
  | whileTest =>
    have hiff := h.isEmpty_iff hpc fun hset => hP ⟨hpc, hset⟩
    have hle := h.le
    rw [PipeState.readStep, hpc]
    rw [hpc] at hr
    refine ⟨h.reader _ ?_ ?_, hp⟩
    · dsimp only
      split <;> exact hr
    · dsimp only
      intro hm
      have hne : ¬ s.pipe.isEmpty := by
        intro he
        rw [if_pos he] at hm
        cases hm
      rw [hiff] at hne
      omega
  | ifClosed =>
    rw [PipeState.readStep, hpc]
    rw [hpc] at hr
    refine ⟨h.reader _ ?_ ?_, hp⟩
    · dsimp only
      split <;> exact hr
    · dsimp only
      split <;> simp
  | yield =>
    rw [PipeState.readStep, hpc]
    rw [hpc] at hr
    exact ⟨h.reader _ hr (by simp), hp⟩
  | ifEnd =>
    rw [PipeState.readStep, hpc]
    rw [hpc] at hr
    simp only [Pc.At] at hr
    refine ⟨h.reader _ ?_ ?_, hp⟩
    · unfold by2pipe
      dsimp only
      split <;> simp only [Pc.At] <;> omega
    · dsimp only
      split <;> simp
  | reset =>
    rw [PipeState.readStep, hpc]
    rw [hpc] at hr
    exact ⟨{ h with rpos := hr.2.symm, nonempty := by simp }, hp⟩
  | next =>
    rw [PipeState.readStep, hpc]
    rw [hpc] at hr
    exact ⟨h.reader _ hr (by simp), hp⟩

/-- A step that moves the writer's control only. -/
theorem Flows.writer (h : Flows s w) (pc : Pc) (i : Nat) (hw : pc.At s.pipe.pWpos w)
    (hm : pc = .move → w + 1 < s.stored.length + 32)
    (hptr : s.writer.ptr = if pc = .out then s.writer.n else pc.moved i)
    (hround : pc ≠ .out → pc ≠ .forTest → i < s.writer.n) (hbound : i ≤ s.writer.n) :
    Flows { s with writer.pc := pc, writer.i := i } w :=
  { h with wpos := hw, unfull := hm, ptr := hptr, round := hround, bound := hbound }

/-- The statement that puts a byte. -/
theorem Flows.put (h : Flows s w) (hpc : s.writer.pc = .move) :
    Flows (s.writeStep closed) (w + 1) := by
  have hroom := h.unfull hpc
  have hw := h.wpos
  have hle := h.le
  have hlt : s.writer.ptr < s.writer.n := by
    rw [h.ptr, hpc]
    exact h.round (by simp [hpc]) (by simp [hpc])
  have hbyte := h.rest s.writer.ptr (Nat.le_refl _) hlt
  rw [Nat.sub_self, Nat.add_zero] at hbyte
  have hring := h.ring.put (by omega) hbyte
  rw [hpc] at hw
  simp only [Pc.At] at hw
  unfold PipeState.writeStep
  rw [hpc]
  refine ⟨by dsimp only; omega, by dsimp only; omega, h.rpos, ?_, ?_, ?_, ?_, ?_, by simp,
    ?_, ?_, h.bound⟩
  · simp only [Pc.At, uInt]
    omega
  · rw [← hw] at hring
    exact hring
  · intro j hj hjn
    dsimp only at hj hjn ⊢
    rw [← h.rest j (by omega) hjn]
    congr 1
    omega
  · have := h.length
    dsimp only
    omega
  · intro hm
    have := h.nonempty hm
    dsimp only
    omega
  · have hptr := h.ptr
    rw [hpc] at hptr
    simpa [Pc.moved] using hptr
  · intro _ _
    exact h.round (by simp [hpc]) (by simp [hpc])

/-- A step of `pipe_write`, while the reader is there. -/
theorem Flows.write (h : Flows s w) : ∃ w', Flows (s.writeStep false) w' := by
  have hw := h.wpos
  have hptr := h.ptr
  have hround := h.round
  have hbound := h.bound
  cases hpc : s.writer.pc with
  | move => exact ⟨w + 1, h.put hpc⟩
  | out =>
    rw [PipeState.writeStep, hpc]
    exact ⟨w, h⟩
  | forTest =>
    rw [PipeState.writeStep, hpc]
    rw [hpc] at hw hptr
    simp only [reduceCtorEq, if_false, Pc.moved] at hptr
    by_cases hlt : s.writer.i < s.writer.n
    · simp only [hlt, if_true]
      exact ⟨w, h.writer .whileTest _ hw (by simp) hptr (fun _ _ => hlt) hbound⟩
    · simp only [hlt, if_false]
      have hn : s.writer.ptr = s.writer.n := by omega
      exact ⟨w, h.writer .out _ hw (by simp) hn (by simp) hbound⟩
  | whileTest =>
    have hiff := h.isFull_iff hpc
    have hroom := h.room
    have hlt := hround (by simp [hpc]) (by simp [hpc])
    rw [PipeState.writeStep, hpc]
    rw [hpc] at hw hptr
    by_cases hfull : s.pipe.isFull
    · simp only [hfull, if_true]
      exact ⟨w, h.writer .ifClosed _ hw (by simp) hptr (fun _ _ => hlt) hbound⟩
    · simp only [hfull, if_false]
      rw [hiff] at hfull
      exact ⟨w, h.writer .move _ hw (fun _ => by omega) hptr (fun _ _ => hlt) hbound⟩
  | ifClosed =>
    have hlt := hround (by simp [hpc]) (by simp [hpc])
    rw [PipeState.writeStep, hpc]
    rw [hpc] at hw hptr
    exact ⟨w, h.writer .yield _ hw (by simp) hptr (fun _ _ => hlt) hbound⟩
  | yield =>
    have hlt := hround (by simp [hpc]) (by simp [hpc])
    rw [PipeState.writeStep, hpc]
    rw [hpc] at hw hptr
    exact ⟨w, h.writer .whileTest _ hw (by simp) hptr (fun _ _ => hlt) hbound⟩
  | ifEnd =>
    have hlt := hround (by simp [hpc]) (by simp [hpc])
    rw [PipeState.writeStep, hpc]
    rw [hpc] at hw hptr
    simp only [Pc.At] at hw
    by_cases hend : s.pipe.pWpos = by2pipe
    · simp only [hend, if_true]
      unfold by2pipe at hend
      refine ⟨w, h.writer .reset _ ?_ (by simp) hptr (fun _ _ => hlt) hbound⟩
      simp only [Pc.At]
      omega
    · simp only [hend, if_false]
      unfold by2pipe at hend
      refine ⟨w, h.writer .next _ ?_ (by simp) hptr (fun _ _ => hlt) hbound⟩
      simp only [Pc.At]
      omega
  | reset =>
    have hlt := hround (by simp [hpc]) (by simp [hpc])
    rw [PipeState.writeStep, hpc]
    rw [hpc] at hw hptr
    exact ⟨w, { h with wpos := hw.2.symm, unfull := by simp, ptr := hptr, round := fun _ _ => hlt }⟩
  | next =>
    have hlt := hround (by simp [hpc]) (by simp [hpc])
    rw [PipeState.writeStep, hpc]
    rw [hpc] at hw hptr
    exact ⟨w, h.writer .forTest _ hw (by simp) hptr (by simp) hlt⟩

/-- A call to `pipe_write` passes its bytes. -/
theorem Flows.call (h : Flows s w) (hpc : s.writer.pc = .out) (vbuf : Nat → UInt8) (n : Nat) :
    Flows { s with
      writer := ⟨.forTest, 0, n, vbuf, 0⟩
      passed := s.passed ++ (List.range n).map vbuf } w := by
  have hw := h.wpos
  have hptr := h.ptr
  have hlen := h.length
  rw [hpc] at hw
  rw [hpc, if_pos rfl] at hptr
  rw [hptr, Nat.sub_self, Nat.add_zero] at hlen
  refine ⟨h.le, h.room, h.rpos, hw, h.ring.append _, ?_, ?_, h.nonempty, by simp,
    rfl, by simp, Nat.zero_le n⟩
  · intro j _ hj
    dsimp only at hj ⊢
    rw [List.getElem?_append_right (by omega), hlen]
    simp [hj]
  · simp [hlen]

end

/-! ## Runs -/

theorem Fifo.read {s : PipeState} (h : Fifo s) {closed : Bool}
    (hP : TestsSettled s (.read closed)) :
    Fifo (s.readStep closed) := by
  have hkeep : (s.readStep closed).readOpen = s.readOpen ∧
      (s.readStep closed).passed = s.passed := by
    unfold PipeState.readStep
    split <;> exact ⟨rfl, rfl⟩
  cases hopen : s.readOpen with
  | false =>
    have hout : s.readStep closed = s := by rw [PipeState.readStep, h.still hopen]
    rw [hout]
    exact h
  | true =>
    obtain ⟨w, hw⟩ := h.flows hopen
    obtain ⟨hw', hp⟩ := hw.read h.prefix_passed hP
    refine ⟨hkeep.2 ▸ hp, fun _ => ⟨w, hw'⟩, fun hcl => ?_⟩
    rw [hkeep.1, hopen] at hcl
    cases hcl

theorem Fifo.write {s : PipeState} (h : Fifo s) {closed : Bool}
    (hcl : closed = true → s.readOpen = false) :
    Fifo (s.writeStep closed) := by
  have hkeep : (s.writeStep closed).readOpen = s.readOpen ∧ (s.writeStep closed).passed = s.passed ∧
      (s.writeStep closed).stored = s.stored ∧ (s.writeStep closed).reader = s.reader := by
    unfold PipeState.writeStep
    split <;> exact ⟨rfl, rfl, rfl, rfl⟩
  obtain ⟨hopen, hpassed, hstored, hreader⟩ := hkeep
  constructor
  · rw [hpassed, hstored]
    exact h.prefix_passed
  · intro ho
    rw [hopen] at ho
    obtain ⟨w, hw⟩ := h.flows ho
    have hf : closed = false := by
      cases closed with
      | false => rfl
      | true => rw [hcl rfl] at ho; cases ho
    subst hf
    exact hw.write
  · intro ho
    rw [hopen] at ho
    rw [hreader]
    exact h.still ho

theorem Fifo.step {s s' : PipeState} {a : PipeAct} (h : Fifo s) (hP : TestsSettled s a)
    (hs : s.step a = some s') : Fifo s' := by
  cases a with
  | pipeRead n =>
    obtain ⟨⟨hpc, hopen⟩, hs⟩ := Option.ite_none_right_eq_some.mp hs
    obtain rfl := Option.some.inj hs
    obtain ⟨w, hw⟩ := h.flows hopen
    have hr := hw.rpos
    rw [hpc] at hr
    refine ⟨h.prefix_passed, fun _ => ⟨w, hw.reader _ hr (by simp)⟩, fun hcl => ?_⟩
    rw [hopen] at hcl
    cases hcl
  | pipeWrite vbuf n =>
    obtain ⟨⟨hpc, -⟩, hs⟩ := Option.ite_none_right_eq_some.mp hs
    obtain rfl := Option.some.inj hs
    refine ⟨h.prefix_passed.trans (List.prefix_append _ _), fun hopen => ?_, h.still⟩
    obtain ⟨w, hw⟩ := h.flows hopen
    exact ⟨w, hw.call hpc vbuf n⟩
  | closeRead =>
    obtain ⟨hpc, hs⟩ := Option.ite_none_right_eq_some.mp hs
    obtain rfl := Option.some.inj hs
    exact ⟨h.prefix_passed, by simp, fun _ => hpc⟩
  | closeWrite =>
    obtain ⟨-, hs⟩ := Option.ite_none_right_eq_some.mp hs
    obtain rfl := Option.some.inj hs
    refine ⟨h.prefix_passed, fun hopen => ?_, h.still⟩
    obtain ⟨w, hw⟩ := h.flows hopen
    exact ⟨w, { hw with }⟩
  | read closed =>
    obtain ⟨-, hs⟩ := Option.ite_none_right_eq_some.mp hs
    obtain rfl := Option.some.inj hs
    exact h.read hP
  | write closed =>
    obtain ⟨hcl, hs⟩ := Option.ite_none_right_eq_some.mp hs
    obtain rfl := Option.some.inj hs
    exact h.write hcl

theorem created_fifo : Fifo .created := by
  refine ⟨List.prefix_refl [], fun _ => ⟨0, ?_⟩, by simp [PipeState.created]⟩
  constructor <;> simp [PipeState.created, Pc.At, Ring.Holds]

/-- What the reader has stored is a prefix of what was passed to `pipe_write`. -/
theorem pipe_first_in_first_out {s : PipeState} (h : PipeRun TestsSettled s) :
    s.stored <+: s.passed := by
  have hfifo : Fifo s := by
    induction h with
    | start => exact created_fifo
    | step _ hP hs ih => exact ih.step hP hs
  exact hfifo.prefix_passed

/-! Running a list of steps. -/

section
variable (P : PipeState → PipeAct → Prop) [∀ s a, Decidable (P s a)]

/-- The last state, if every step can be taken and meets `P`. -/
def PipeState.exec (s : PipeState) : List PipeAct → Option PipeState
  | [] => some s
  | a :: as => if P s a then (s.step a).bind fun s' => s'.exec as else none

variable {P}

theorem PipeRun.exec {s s' : PipeState} {as : List PipeAct} (h : PipeRun P s)
    (hs : s.exec P as = some s') : PipeRun P s' := by
  induction as generalizing s with
  | nil => exact Option.some.inj hs ▸ h
  | cons a as ih =>
    obtain ⟨hP, hs⟩ := Option.ite_none_right_eq_some.mp hs
    obtain ⟨s₁, h₁, hs⟩ := Option.bind_eq_some_iff.mp hs
    exact ih (.step h hP h₁) hs

end

instance (s : PipeState) : (a : PipeAct) → Decidable (TestsSettled s a)
  | .read _ => inferInstanceAs (Decidable (¬ _))
  | .pipeRead _ | .pipeWrite .. | .closeRead | .closeWrite | .write _ => .isTrue trivial

def ascending (k : Nat) : UInt8 := k.toUInt8 + 1

/-- The reader starts on an empty pipe, and gets both bytes. -/
def twoBytes : List PipeAct :=
  [.pipeRead 2] ++ .replicate 4 (.read false) ++ [.pipeWrite ascending 2] ++ .replicate 11
    (.write false) ++
    .replicate 9 (.read false)

theorem pipe_first_in_first_out_twoBytes : ∃ s, PipeRun TestsSettled s ∧ s.stored = [1, 2] ∧
    s.stored <+: s.passed := by
  have hrun : ((PipeState.created.exec TestsSettled twoBytes).map fun s => s.stored) =
      some [1, 2] := by
    decide +kernel
  obtain ⟨s, hs, hstored⟩ := Option.map_eq_some_iff.mp hrun
  have h : PipeRun TestsSettled s := PipeRun.start.exec hs
  exact ⟨s, h, hstored, pipe_first_in_first_out h⟩

/-- The writer is switched out before it resets `p_wpos`, and the reader goes
on from the start of the buffer. -/
def racyRun : List PipeAct :=
  [.pipeWrite ascending 32, .pipeRead 33] ++ .replicate 155 (.write false) ++ .replicate 155
    (.read false) ++
    .replicate 3 (.write false) ++ .replicate 9 (.read false)

theorem pipe_reads_stale_byte : ∃ s, PipeRun (fun _ _ => True) s ∧ ¬ s.stored <+: s.passed := by
  have hrun : ((PipeState.created.exec (fun _ _ => True) racyRun).map fun s =>
      (s.stored.length, s.passed.length)) = some (33, 32) := by decide +kernel
  obtain ⟨s, hs, hlen⟩ := Option.map_eq_some_iff.mp hrun
  obtain ⟨hstored, hpassed⟩ := Prod.mk.inj hlen
  refine ⟨s, PipeRun.start.exec hs, fun hp => ?_⟩
  have hle := hp.length_le
  omega

end RiscvMos.User
