import RiscvMos.User.Pipe

/-!
A call of `pipe_read` of `user/lib/pipe.c` while no other env touches the pipe: what it
returns, and how often it yields. `_pipe_is_closed` compares two reference counts, read
between two equal values of `env_runs`.
-/

namespace RiscvMos.User

/-- `pageref(fd)` and `pageref(p)`. -/
structure PageRefs where
  fd : Nat
  pipe : Nat

/-- `_pipe_is_closed`, with the values that `env->env_runs` has at its reads, and those at the
reads that come after the call. -/
def pipeIsClosed (refs : PageRefs) : Nat → (Nat → Nat) → Option (Bool × (Nat → Nat))
  | 0, _ => none
  | fuel + 1, runs =>
    if runs 0 ≠ runs 1 then pipeIsClosed refs fuel fun k => runs (k + 2)
    else some (refs.fd == refs.pipe, fun k => runs (k + 2))

namespace PipeState

/-- The rest of a call of `pipe_read` by itself: the result, the state behind it, and the number of
calls of `syscall_yield`. -/
def pipeRead (refs : PageRefs) : Nat → (Nat → Nat) → PipeState → Option (Nat × PipeState × Nat)
  | 0, _, _ => none
  | fuel + 1, runs, s =>
    match s.reader.pc with
    | .out => none
    | .forTest =>
      if s.reader.i < s.reader.n then pipeRead refs fuel runs (s.readStep false)
      else some (s.reader.n, s.readStep false, 0)
    | .ifClosed =>
      match pipeIsClosed refs fuel runs with
      | none => none
      | some (true, _) => some (s.reader.i, s.readStep true, 0)
      | some (false, runs) => pipeRead refs fuel runs (s.readStep false)
    | .yield =>
      (pipeRead refs fuel runs (s.readStep false)).map fun r => (r.1, r.2.1, r.2.2 + 1)
    | .whileTest | .move | .ifEnd | .reset | .next => pipeRead refs fuel runs (s.readStep false)

/-- The reader is at the head of its loop with `i` bytes of `n`. -/
def reading (s : PipeState) (n i : Nat) : PipeState := { s with reader := ⟨.forTest, i, n⟩ }

end PipeState

namespace Pipe

/-- Between two calls the positions are in the buffer. -/
structure Rests (p : Pipe) : Prop where
  rpos : p.pRpos < by2pipe
  wpos : p.pWpos < by2pipe

/-- The number of bytes that wait. -/
def waiting (p : Pipe) : Nat := (p.pWpos + by2pipe - p.pRpos) % by2pipe

/-- The bytes that wait, the oldest first. -/
def bytes (p : Pipe) : List UInt8 :=
  (List.range p.waiting).map fun j => p.pBuf ((p.pRpos + j) % by2pipe)

/-- The pipe with the oldest bytes taken. -/
def drop (p : Pipe) (j : Nat) : Pipe := { p with pRpos := (p.pRpos + j) % by2pipe }

end Pipe

/-- A call for `n` bytes takes what waits, and returns without a yield. -/
def ReadsAtOnce (refs : PageRefs) (runs : Nat → Nat) (s : PipeState) (n : Nat) : Prop :=
  ∃ fuel s', (s.reading n 0).pipeRead refs fuel runs = some (min n s.pipe.waiting, s', 0) ∧
    s'.stored = s.stored ++ s.pipe.bytes.take n ∧ s'.pipe = s.pipe.drop (min n s.pipe.waiting)

/-- Two reads of `env_runs` that belong together find the same value. -/
def Settles (runs : Nat → Nat) : Prop := ∃ j, runs (2 * j) = runs (2 * j + 1)

namespace PipeState

variable {refs : PageRefs} {fuel n i : Nat} {runs : Nat → Nat} {s s' : PipeState}
    {r : Nat × PipeState × Nat}

theorem pipeIsClosed_answer {c : Bool} {rest : Nat → Nat}
    (h : pipeIsClosed refs fuel runs = some (c, rest)) :
    Settles runs ∧ c = (refs.fd == refs.pipe) := by
  induction fuel generalizing runs with
  | zero => cases h
  | succ fuel ih =>
    unfold pipeIsClosed at h
    by_cases moved : runs 0 ≠ runs 1
    · rw [if_pos moved] at h
      obtain ⟨⟨j, same⟩, answer⟩ := ih h
      exact ⟨⟨j + 1, same⟩, answer⟩
    · rw [if_neg moved] at h
      injection h with h
      injection h with answer
      exact ⟨⟨0, not_not.mp moved⟩, answer.symm⟩

theorem pipeIsClosed_settles (h : Settles runs) :
    ∃ fuel rest, pipeIsClosed refs fuel runs = some (refs.fd == refs.pipe, rest) := by
  obtain ⟨j, same⟩ := h
  induction j generalizing runs with
  | zero => exact ⟨1, _, if_neg (not_not.mpr same)⟩
  | succ j ih =>
    by_cases moved : runs 0 ≠ runs 1
    · obtain ⟨fuel, rest, answer⟩ := @ih (fun k => runs (k + 2)) same
      exact ⟨fuel + 1, rest, (if_pos moved).trans answer⟩
    · exact ⟨1, _, if_neg moved⟩

theorem pipeIsClosed_mono {a : Bool × (Nat → Nat)} (h : pipeIsClosed refs fuel runs = some a) :
    pipeIsClosed refs (fuel + 1) runs = some a := by
  induction fuel generalizing runs with
  | zero => cases h
  | succ fuel ih =>
    unfold pipeIsClosed at h ⊢
    by_cases moved : runs 0 ≠ runs 1
    · rw [if_pos moved] at h ⊢
      exact ih h
    · rw [if_neg moved] at h ⊢
      exact h

theorem pipeRead_mono (h : s.pipeRead refs fuel runs = some r) :
    s.pipeRead refs (fuel + 1) runs = some r := by
  induction fuel generalizing runs s r with
  | zero => cases h
  | succ fuel ih =>
    unfold pipeRead at h ⊢
    cases pc : s.reader.pc with
    | out => simp only [pc] at h; cases h
    | forTest =>
      simp only [pc] at h ⊢
      by_cases more : s.reader.i < s.reader.n
      · rw [if_pos more] at h ⊢
        exact ih h
      · rw [if_neg more] at h ⊢
        exact h
    | ifClosed =>
      simp only [pc] at h ⊢
      cases answer : pipeIsClosed refs fuel runs with
      | none =>
        rw [answer] at h
        cases h
      | some a =>
        rw [answer] at h
        rw [pipeIsClosed_mono answer]
        cases a with
        | mk c runs =>
          cases c with
          | true => exact h
          | false => exact ih h
    | yield =>
      simp only [pc] at h ⊢
      obtain ⟨r', rest, same⟩ := Option.map_eq_some_iff.mp h
      rw [ih rest, ← same]
      rfl
    | whileTest | move | ifEnd | reset | next =>
      simp only [pc] at h ⊢
      exact ih h

/-- The call in one state goes on as the one in the other. -/
def Leads (refs : PageRefs) (runs : Nat → Nat) (s s' : PipeState) : Prop :=
  ∃ m, ∀ fuel, s.pipeRead refs (fuel + m) runs = s'.pipeRead refs fuel runs

theorem Leads.refl (s : PipeState) : Leads refs runs s s := ⟨0, fun _ => rfl⟩

theorem Leads.trans {s'' : PipeState} (h : Leads refs runs s s') (h' : Leads refs runs s' s'') :
    Leads refs runs s s'' := by
  obtain ⟨m, same⟩ := h
  obtain ⟨m', same'⟩ := h'
  refine ⟨m' + m, fun fuel => ?_⟩
  rw [← Nat.add_assoc, same, same']

/-- The state with the first `j` bytes read. -/
def read (s : PipeState) (j : Nat) : PipeState :=
  { s with pipe := s.pipe.drop j, stored := s.stored ++ s.pipe.bytes.take j }

theorem drop_waiting {p : Pipe} (h : p.Rests) {j : Nat} (hj : j ≤ p.waiting) :
    (p.drop j).waiting = p.waiting - j := by
  obtain ⟨r, w⟩ := h
  simp only [Pipe.waiting, Pipe.drop, by2pipe] at *
  omega

theorem drop_rests {p : Pipe} (h : p.Rests) (j : Nat) : (p.drop j).Rests :=
  ⟨Nat.mod_lt _ (by decide), h.wpos⟩

theorem drop_drop (p : Pipe) (j k : Nat) : (p.drop j).drop k = p.drop (j + k) := by
  unfold Pipe.drop
  rw [Nat.mod_add_mod, Nat.add_assoc]

theorem isEmpty_iff {p : Pipe} (h : p.Rests) : p.isEmpty ↔ p.waiting = 0 := by
  obtain ⟨r, w⟩ := h
  simp only [Pipe.isEmpty, Pipe.waiting, by2pipe] at *
  omega

theorem bytes_take {p : Pipe} {j : Nat} (hj : j < p.waiting) :
    p.bytes.take (j + 1) = p.bytes.take j ++ [p.pBuf ((p.pRpos + j) % by2pipe)] := by
  unfold Pipe.bytes
  rw [List.take_add_one, List.getElem?_map, List.getElem?_range hj]
  rfl

/-- A turn of the loop that finds a byte. -/
theorem reading_leads (h : s.pipe.Rests) (more : i < n) (some_ : s.pipe.waiting ≠ 0) :
    Leads refs runs (s.reading n i)
      (reading { s with
        pipe := s.pipe.drop 1
        stored := s.stored ++ [s.pipe.pBuf s.pipe.pRpos] } n (i + 1)) := by
  have full : ¬s.pipe.isEmpty := fun empty => some_ ((isEmpty_iff h).mp empty)
  have small : uInt (s.pipe.pRpos + 1) = s.pipe.pRpos + 1 := by
    have low := h.rpos
    unfold by2pipe at low
    exact Nat.mod_eq_of_lt (by omega)
  by_cases last : s.pipe.pRpos + 1 = by2pipe
  · have top : uInt by2pipe = by2pipe := rfl
    refine ⟨6, fun fuel => ?_⟩
    simp [pipeRead, reading, readStep, more, full, top, last, Pipe.drop]
  · have inside : (s.pipe.pRpos + 1) % by2pipe = s.pipe.pRpos + 1 := by
      have low := h.rpos
      exact Nat.mod_eq_of_lt (by omega)
    refine ⟨5, fun fuel => ?_⟩
    simp [pipeRead, reading, readStep, more, full, small, last, Pipe.drop, inside]

theorem reading_read (h : s.pipe.Rests) {j : Nat} (some_ : j ≤ s.pipe.waiting) (few : j ≤ n) :
    Leads refs runs (s.reading n 0) ((s.read j).reading n j) := by
  induction j with
  | zero =>
    have same : s.read 0 = s := by
      have place : s.pipe.pRpos % by2pipe = s.pipe.pRpos := Nat.mod_eq_of_lt h.rpos
      simp [read, Pipe.drop, place]
    rw [same]
    exact .refl _
  | succ j ih =>
    have left : (s.read j).pipe.waiting ≠ 0 := by
      change (s.pipe.drop j).waiting ≠ 0
      rw [drop_waiting h (Nat.le_of_succ_le some_)]
      omega
    have turn := @reading_leads refs n j runs (s.read j) (drop_rests h j) few left
    have next : { s.read j with
        pipe := (s.read j).pipe.drop 1
        stored := (s.read j).stored ++ [(s.read j).pipe.pBuf (s.read j).pipe.pRpos] } =
          s.read (j + 1) := by
      unfold read
      rw [bytes_take some_, ← List.append_assoc, drop_drop]
      rfl
    rw [next] at turn
    exact (ih (Nat.le_of_succ_le some_) (Nat.le_of_succ_le few)).trans turn

/-- All that was asked for is there. -/
theorem reads_enough (h : s.pipe.Rests) (enough : n ≤ s.pipe.waiting) :
    ReadsAtOnce refs runs s n := by
  obtain ⟨m, leads⟩ := @reading_read refs n runs s h n enough (Nat.le_refl n)
  have least : min n s.pipe.waiting = n := Nat.min_eq_left enough
  refine ⟨1 + m, ((s.read n).reading n n).readStep false, ?_, rfl, ?_⟩
  · rw [leads, least]
    simp [pipeRead, reading]
  · rw [least]
    rfl

/-- The pipe is empty before the call has all it wants: it ends, or yields, as
`_pipe_is_closed` says. -/
theorem reading_empty (h : s.pipe.Rests) (empty : s.pipe.waiting = 0) (more : i < n) :
    (s.reading n i).pipeRead refs (fuel + 3) runs =
      match pipeIsClosed refs fuel runs with
      | none => none
      | some (true, _) => some (i, { s with reader := ⟨.out, i, n⟩ }, 0)
      | some (false, runs) => pipeRead refs fuel runs { s with reader := ⟨.yield, i, n⟩ } := by
  have none_ : s.pipe.isEmpty := (isEmpty_iff h).mpr empty
  simp [pipeRead, reading, readStep, more, none_]

/-- A call that yields does not return at once. -/
theorem yield_counts (pc : s.reader.pc = .yield) (h : s.pipeRead refs fuel runs = some r) :
    0 < r.2.2 := by
  cases fuel with
  | zero => cases h
  | succ fuel =>
    unfold pipeRead at h
    simp only [pc] at h
    obtain ⟨r', -, same⟩ := Option.map_eq_some_iff.mp h
    rw [← same]
    exact Nat.succ_pos _

theorem pipeRead_more (h : s.pipeRead refs fuel runs = some r) (m : Nat) :
    s.pipeRead refs (fuel + m) runs = some r := by
  induction m with
  | zero => exact h
  | succ m ih => exact pipeRead_mono ih

/-- Less is there than was asked for. -/
theorem reads_short (h : s.pipe.Rests) (short : s.pipe.waiting < n) :
    ReadsAtOnce refs runs s n ↔ refs.fd = refs.pipe ∧ Settles runs := by
  obtain ⟨m, leads⟩ :=
    @reading_read refs n runs s h s.pipe.waiting (Nat.le_refl _) (Nat.le_of_lt short)
  have least : min n s.pipe.waiting = s.pipe.waiting := Nat.min_eq_right (Nat.le_of_lt short)
  have empty : (s.read s.pipe.waiting).pipe.waiting = 0 := by
    change (s.pipe.drop s.pipe.waiting).waiting = 0
    rw [drop_waiting h (Nat.le_refl _), Nat.sub_self]
  have rests : (s.read s.pipe.waiting).pipe.Rests := drop_rests h _
  constructor
  · rintro ⟨fuel, s', run, -⟩
    have more := pipeRead_more run (m + 3)
    have place : fuel + (m + 3) = fuel + 3 + m := by omega
    rw [place, leads, reading_empty rests empty short] at more
    cases answer : pipeIsClosed refs fuel runs with
    | none =>
      rw [answer] at more
      cases more
    | some a =>
      cases a with
      | mk c rest =>
        obtain ⟨settles, same⟩ := pipeIsClosed_answer answer
        rw [answer] at more
        cases c with
        | true => exact ⟨eq_of_beq same.symm, settles⟩
        | false =>
          have yields : 0 < 0 :=
            yield_counts (s := { s.read s.pipe.waiting with reader := _ }) rfl more
          exact absurd yields (Nat.lt_irrefl 0)
  · rintro ⟨closed, settles⟩
    obtain ⟨fuel, rest, answer⟩ := @pipeIsClosed_settles refs runs settles
    refine ⟨fuel + 3 + m,
      { s.read s.pipe.waiting with reader := ⟨.out, s.pipe.waiting, n⟩ }, ?_, ?_, ?_⟩
    · rw [leads, reading_empty rests empty short, answer, closed, beq_self_eq_true, least]
    · have all : s.pipe.bytes.take n = s.pipe.bytes.take s.pipe.waiting := by
        have count : s.pipe.bytes.length = s.pipe.waiting := by
          unfold Pipe.bytes
          rw [List.length_map, List.length_range]
        rw [List.take_of_length_le (by omega), List.take_of_length_le (by omega)]
      rw [all]
      rfl
    · rw [least]
      rfl

/-- A read returns at once exactly when all that was asked for is there, or the pipe is closed. -/
theorem pipeRead_atOnce_iff (h : s.pipe.Rests) :
    ReadsAtOnce refs runs s n ↔ n ≤ s.pipe.waiting ∨ refs.fd = refs.pipe ∧ Settles runs := by
  by_cases enough : n ≤ s.pipe.waiting
  · exact iff_of_true (reads_enough h enough) (.inl enough)
  · rw [reads_short h (Nat.lt_of_not_le enough)]
    exact (or_iff_right enough).symm

/-- One byte waits. -/
def oneByte : PipeState := { PipeState.created with pipe := ⟨0, 1, fun _ => 7⟩ }

theorem oneByte_rests : oneByte.pipe.Rests := ⟨by decide, by decide⟩

/-- The write end is open, and one byte is there of two. -/
theorem pipeRead_waits : ¬ReadsAtOnce ⟨1, 2⟩ (fun _ => 1) oneByte 2 := by
  rw [reads_short oneByte_rests (by decide)]
  rintro ⟨closed, -⟩
  exact absurd closed (by decide)

theorem pipeRead_atOnce_one :
    ReadsAtOnce ⟨1, 2⟩ (fun _ => 1) oneByte 1 ↔
    1 ≤ oneByte.pipe.waiting ∨ 1 = 2 ∧ Settles fun _ => 1 :=
  pipeRead_atOnce_iff oneByte_rests

end PipeState

end RiscvMos.User
