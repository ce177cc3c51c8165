import Mathlib.Algebra.Order.Ring.Nat
import Mathlib.Logic.Relation
import Mathlib.Logic.Function.Basic

namespace RiscvMos

def queueSize : Nat := 1024

namespace Virtio

/-- The driver's three descriptor chains; each has one request buffer. -/
inductive Chain
  | read
  | write
  | flush
  deriving DecidableEq, Repr

/-- The index in `desc` of the chain's first descriptor. -/
def Chain.head : Chain → Nat
  | .read => 0
  | .write => 3
  | .flush => 6

/-- The chain that starts at a descriptor. -/
def chainAt (head : Nat) : Option Chain :=
  [Chain.read, .write, .flush].find? fun c => c.head == head

@[simp] theorem chainAt_head (c : Chain) : chainAt c.head = some c := by
  cases c <;> rfl

structure VirtioBlkReq where
  type : Nat
  sector : Nat
  data : Nat → Nat
  status : Nat

/-- What the device writes through the descriptors flagged `VIRTQ_DESC_F_WRITE`:
the data of a read and the status of every request. -/
structure Answer (σ : Type) where
  data : Nat → Nat
  status : Nat
  disk : σ

/-- The device: what it does for a request, from what its disk holds. -/
abbrev Device (σ : Type) := VirtioBlkReq → σ → Answer σ

/-- The rings and the buffers. `posted` and `consumed` count the entries made
available and used since the start; no step of the driver reads them. -/
structure State (σ : Type) where
  availIdx : Nat
  ring : Nat → Nat
  usedIdx : Nat
  buffer : Chain → VirtioBlkReq
  disk : σ
  posted : Nat
  consumed : Nat

variable {σ : Type}

/-- The state `virtio_init` leaves. -/
def init (disk : σ) : State σ where
  availIdx := 0
  ring := fun _ => 0
  usedIdx := 0
  buffer := fun
    | .read => ⟨0, 0, fun _ => 0, 0⟩
    | .write => ⟨1, 0, fun _ => 0, 0⟩
    | .flush => ⟨4, 0, fun _ => 0, 0⟩
  disk := disk
  posted := 0
  consumed := 0

/-- The part of the three calls before the wait: `status = -1` is stored in a
`u8`, `avail->idx++` in a `le16`. -/
def State.post (q : State σ) (c : Chain) (sector : Nat) : State σ :=
  { q with
    buffer := Function.update q.buffer c { q.buffer c with sector := sector, status := 255 }
    ring := Function.update q.ring (q.availIdx &&& (queueSize - 1)) c.head
    availIdx := (q.availIdx + 1) % 2 ^ 16
    posted := q.posted + 1 }

inductive Call
  | readSector (sector : Nat)
  | writeSector (sector : Nat)
  | flush

def readSector (q : State σ) (sector : Nat) : State σ := q.post .read sector

def writeSector (q : State σ) (sector : Nat) : State σ := q.post .write sector

def flush (q : State σ) : State σ := q.post .flush 0

def Call.chain : Call → Chain
  | .readSector _ => .read
  | .writeSector _ => .write
  | .flush => .flush

def Call.sector : Call → Nat
  | .readSector n => n
  | .writeSector n => n
  | .flush => 0

def State.call (q : State σ) : Call → State σ
  | .readSector n => readSector q n
  | .writeSector n => writeSector q n
  | .flush => Virtio.flush q

theorem State.call_eq (q : State σ) (r : Call) : q.call r = q.post r.chain r.sector := by
  cases r <;> rfl

/-- The loop `while (used->idx < avail->idx)` is left. -/
def State.Returned (q : State σ) : Prop := ¬ q.usedIdx < q.availIdx

/-- A request with the device's answer in it. -/
def VirtioBlkReq.answered (b : VirtioBlkReq) (a : Answer σ) : VirtioBlkReq :=
  { b with data := if b.type = 0 then a.data else b.data, status := a.status }

/-- The device uses the next available entry. -/
def State.complete (dev : Device σ) (q : State σ) : State σ :=
  let used := { q with usedIdx := (q.usedIdx + 1) % 2 ^ 16, consumed := q.consumed + 1 }
  match chainAt (q.ring (q.consumed % queueSize)) with
  | none => used
  | some c =>
    let a := dev (q.buffer c) q.disk
    { used with buffer := Function.update q.buffer c ((q.buffer c).answered a), disk := a.disk }

/-- The device works at any time, as long as an entry is left. -/
inductive Works (dev : Device σ) : State σ → State σ → Prop
  | complete (q : State σ) (left : q.consumed < q.posted) : Works dev q (q.complete dev)

/-- The states between two calls. The kernel fills the write buffer before a
call; the device may still be working. -/
inductive Run (dev : Device σ) : State σ → Prop
  | init (disk : σ) : Run dev (init disk)
  | fill {q : State σ} (data : Nat → Nat) : Run dev q → Run dev
      { q with buffer := Function.update q.buffer .write { q.buffer .write with data := data } }
  | works {q t : State σ} : Run dev q → Works dev q t → Run dev t
  | call {q t : State σ} (r : Call) : Run dev q → Relation.ReflTransGen (Works dev) (q.call r) t →
      t.Returned → Run dev t

/-- The device has completed the request which the call `r` made from `q`, and the
buffer and the disk hold its answer to this request. -/
structure Served (dev : Device σ) (q : State σ) (r : Call) (t : State σ) : Prop where
  completed : q.posted < t.consumed
  answer : ∃ b d, b.sector = r.sector ∧ t.buffer r.chain = b.answered (dev b d) ∧
    t.disk = (dev b d).disk

/-- The two indices count the entries modulo 2^16. -/
structure Valid (q : State σ) : Prop where
  avail : q.availIdx = q.posted % 2 ^ 16
  used : q.usedIdx = q.consumed % 2 ^ 16
  order : q.consumed ≤ q.posted

@[simp] theorem complete_availIdx (dev : Device σ) (q : State σ) :
    (q.complete dev).availIdx = q.availIdx := by
  unfold State.complete; split <;> rfl

@[simp] theorem complete_ring (dev : Device σ) (q : State σ) : (q.complete dev).ring = q.ring := by
  unfold State.complete; split <;> rfl

@[simp] theorem complete_usedIdx (dev : Device σ) (q : State σ) :
    (q.complete dev).usedIdx = (q.usedIdx + 1) % 2 ^ 16 := by
  unfold State.complete; split <;> rfl

@[simp] theorem complete_posted (dev : Device σ) (q : State σ) :
    (q.complete dev).posted = q.posted := by
  unfold State.complete; split <;> rfl

@[simp] theorem complete_consumed (dev : Device σ) (q : State σ) :
    (q.complete dev).consumed = q.consumed + 1 := by
  unfold State.complete; split <;> rfl

@[simp] theorem complete_sector (dev : Device σ) (q : State σ) (c : Chain) :
    ((q.complete dev).buffer c).sector = (q.buffer c).sector := by
  unfold State.complete
  split
  · rfl
  · rename_i c' _
    by_cases h : c = c'
    · subst h; simp [VirtioBlkReq.answered]
    · simp [Function.update_of_ne h]

theorem complete_answer (dev : Device σ) (q : State σ) (c : Chain)
    (h : q.ring (q.consumed % queueSize) = c.head) :
    (q.complete dev).buffer c = (q.buffer c).answered (dev (q.buffer c) q.disk) ∧
      (q.complete dev).disk = (dev (q.buffer c) q.disk).disk := by
  simp [State.complete, h]

theorem works_valid {dev : Device σ} {q t : State σ} (h : Works dev q t)
    (valid : Valid q) : Valid t := by
  cases h with
  | complete left =>
    have used := valid.used
    constructor
    · simpa using valid.avail
    · rw [complete_usedIdx, complete_consumed]
      omega
    · rw [complete_consumed, complete_posted]
      exact left

theorem post_valid {q : State σ} (valid : Valid q) (c : Chain) (n : Nat) : Valid (q.post c n) := by
  have avail := valid.avail
  have order := valid.order
  constructor
  · simp only [State.post]
    omega
  · exact valid.used
  · simp only [State.post]
    omega

theorem waits_valid {dev : Device σ} {q t : State σ} (h : Relation.ReflTransGen (Works dev) q t)
    (valid : Valid q) : Valid t := by
  induction h with
  | refl => exact valid
  | tail _ step ih => exact works_valid step ih

theorem run_valid {dev : Device σ} {q : State σ} (h : Run dev q) : Valid q := by
  induction h with
  | init disk => exact ⟨rfl, rfl, Nat.le_refl _⟩
  | fill data _ ih => exact ⟨ih.avail, ih.used, ih.order⟩
  | works _ step ih => exact works_valid step ih
  | call r _ waits _ ih =>
    rw [State.call_eq] at waits
    exact waits_valid waits (post_valid ih _ _)

/-- What holds during the wait of a call made from `q`: its entry is in the ring,
and once it is used, the buffer holds the answer to it. -/
structure Waiting (dev : Device σ) (q : State σ) (r : Call) (t : State σ) : Prop where
  posted : t.posted = q.posted + 1
  consumed : t.consumed ≤ t.posted
  entry : t.ring (q.posted % queueSize) = r.chain.head
  sector : (t.buffer r.chain).sector = r.sector
  answer : q.posted < t.consumed → Served dev q r t

theorem post_waiting (dev : Device σ) {q : State σ} (valid : Valid q) (r : Call) :
    Waiting dev q r (q.post r.chain r.sector) := by
  have order := valid.order
  constructor
  · rfl
  · simp only [State.post]
    omega
  · have slot : q.availIdx &&& (queueSize - 1) = q.posted % queueSize := by
      have mask : queueSize - 1 = 2 ^ 10 - 1 := rfl
      rw [mask, Nat.and_two_pow_sub_one_eq_mod, valid.avail]
      simp only [queueSize]
      omega
    simp [State.post, slot]
  · simp [State.post]
  · intro used
    simp only [State.post] at used
    omega

theorem works_waiting {dev : Device σ} {q t u : State σ} {r : Call} (h : Works dev t u)
    (w : Waiting dev q r t) : Waiting dev q r u := by
  cases h with
  | complete left =>
    have posted := w.posted
    constructor
    · simpa using posted
    · rw [complete_consumed, complete_posted]
      exact left
    · simpa using w.entry
    · simpa using w.sector
    · intro used
      rw [complete_consumed] at used
      -- the entry used is this call's own: it is the last one posted
      have own : t.consumed = q.posted := by omega
      have entry := w.entry
      rw [← own] at entry
      have answer := complete_answer dev t r.chain entry
      exact ⟨by simpa using used, t.buffer r.chain, t.disk, w.sector, answer⟩

theorem waits_waiting {dev : Device σ} {q t u : State σ} {r : Call}
    (h : Relation.ReflTransGen (Works dev) t u) (w : Waiting dev q r t) : Waiting dev q r u := by
  induction h with
  | refl => exact w
  | tail _ step ih => exact works_waiting step ih

/-- The device may use as many of the entries that are left as it likes. -/
theorem works_to (dev : Device σ) (q : State σ) (n : Nat) (h : n ≤ q.posted - q.consumed) :
    ∃ t, Relation.ReflTransGen (Works dev) q t ∧ t.consumed = q.consumed + n ∧
    t.posted = q.posted := by
  induction n with
  | zero => exact ⟨q, .refl, rfl, rfl⟩
  | succ n ih =>
    obtain ⟨t, waits, used, posted⟩ := ih (by omega)
    refine ⟨t.complete dev, waits.tail (.complete t (by omega)), ?_, by simpa using posted⟩
    rw [complete_consumed, used]
    omega

/-- Once the loop is left, no entry is left unused, if fewer are left when the
call starts than the new available index counts since its last wrap. -/
theorem returned_completed {dev : Device σ} {q t : State σ} {r : Call} (valid : Valid q)
    (few : q.posted - q.consumed < (q.availIdx + 1) % 2 ^ 16) (later : q.consumed ≤ t.consumed)
    (w : Waiting dev q r t) (vt : Valid t) (ret : t.Returned) : q.posted < t.consumed := by
  have avail := valid.avail
  have order := valid.order
  have tavail := vt.avail
  have tused := vt.used
  have posted := w.posted
  simp only [State.Returned] at ret
  omega

theorem waits_consumed {dev : Device σ} {q t : State σ}
    (h : Relation.ReflTransGen (Works dev) q t) :
    q.consumed ≤ t.consumed := by
  induction h with
  | refl => exact Nat.le_refl _
  | tail _ step ih =>
    cases step with
    | complete left =>
      rw [complete_consumed]
      exact Nat.le_succ_of_le ih

/-- Otherwise the device may stop right before the used index wraps, and the loop
is left with the call's own entry unused. -/
theorem returned_early {dev : Device σ} {q : State σ} (valid : Valid q) (r : Call)
    (many : (q.availIdx + 1) % 2 ^ 16 ≤ q.posted - q.consumed) :
    ∃ t, Relation.ReflTransGen (Works dev) (q.call r) t ∧ t.Returned ∧ t.consumed ≤ q.posted := by
  have avail := valid.avail
  have order := valid.order
  have vp := post_valid valid r.chain r.sector
  have posted : (q.post r.chain r.sector).posted = q.posted + 1 := rfl
  have consumed : (q.post r.chain r.sector).consumed = q.consumed := rfl
  rw [State.call_eq]
  obtain ⟨t, waits, used, tposted⟩ := works_to dev (q.post r.chain r.sector)
    (q.posted - (q.posted + 1) % 2 ^ 16 - q.consumed) (by omega)
  have vt := waits_valid waits vp
  refine ⟨t, waits, ?_, by omega⟩
  have tavail := vt.avail
  have tused := vt.used
  simp only [State.Returned]
  omega

/-- For any number of earlier requests, a call waits for its own request exactly
when fewer requests are outstanding than the 16-bit index says after the post. -/
theorem waits_iff (dev : Device σ) {q : State σ} (h : Run dev q) (r : Call) :
    (∀ t, Relation.ReflTransGen (Works dev) (q.call r) t → t.Returned → Served dev q r t) ↔
      q.posted - q.consumed < (q.availIdx + 1) % 2 ^ 16 := by
  have valid := run_valid h
  constructor
  · intro served
    apply Nat.lt_of_not_le
    intro many
    obtain ⟨t, waits, ret, early⟩ := @returned_early _ dev _ valid r many
    have late := (served t waits ret).completed
    omega
  · intro few t waits ret
    rw [State.call_eq] at waits
    have w := waits_waiting waits (post_waiting dev valid r)
    have vt := waits_valid waits (post_valid valid _ _)
    have later : (q.post r.chain r.sector).consumed ≤ t.consumed := waits_consumed waits
    exact w.answer (returned_completed valid few later w vt ret)

/-- A device that answers every request with status 0 and zero data. -/
def zeroDisk : Device Unit := fun _ _ => ⟨fun _ => 0, 0, ()⟩

theorem waits_iff_first :
    Run zeroDisk (init ()) ∧
      ((∀ t, Relation.ReflTransGen (Works zeroDisk) ((init ()).call (.readSector 8)) t →
        t.Returned →
          Served zeroDisk (init ()) (.readSector 8) t) ↔
        (init ()).posted - (init ()).consumed < ((init ()).availIdx + 1) % 2 ^ 16) :=
  ⟨.init (), waits_iff zeroDisk (.init ()) (.readSector 8)⟩

/-- Any number of requests can be made, each used by the device before the next. -/
theorem run_many (dev : Device σ) (disk : σ) (n : Nat) :
    ∃ q, Run dev q ∧ q.posted = n ∧ q.consumed = n := by
  induction n with
  | zero => exact ⟨init disk, .init disk, rfl, rfl⟩
  | succ n ih =>
    obtain ⟨q, run, posted, consumed⟩ := ih
    have valid := post_valid (run_valid run) .flush 0
    have left : (q.post .flush 0).consumed < (q.post .flush 0).posted := by
      simp only [State.post]
      omega
    have step : Works dev (q.post .flush 0) ((q.post .flush 0).complete dev) := .complete _ left
    have vt := works_valid step valid
    have tposted : ((q.post .flush 0).complete dev).posted = n + 1 := by
      rw [complete_posted]
      simp only [State.post]
      omega
    have tconsumed : ((q.post .flush 0).complete dev).consumed = n + 1 := by
      rw [complete_consumed]
      simp only [State.post]
      omega
    have ret : ((q.post .flush 0).complete dev).Returned := by
      have tavail := vt.avail
      have tused := vt.used
      simp only [State.Returned]
      omega
    exact ⟨_, .call .flush run (.single step) ret, tposted, tconsumed⟩

/-- After 65535 requests that the device has completed, the next read returns
while the device still has its request to do. -/
theorem wrapped_read_returns_early :
    ∃ q, Run zeroDisk q ∧ q.posted = 65535 ∧ q.consumed = 65535 ∧
      ¬ ∀ t, Relation.ReflTransGen (Works zeroDisk) (q.call (.readSector 8)) t → t.Returned →
        Served zeroDisk q (.readSector 8) t := by
  obtain ⟨q, run, posted, consumed⟩ := run_many zeroDisk () 65535
  refine ⟨q, run, posted, consumed, ?_⟩
  intro served
  have avail := (run_valid run).avail
  have ret : (q.call (.readSector 8)).Returned := by
    simp only [State.Returned, State.call, readSector, State.post]
    omega
  have late : q.posted < (q.call (.readSector 8)).consumed := (served _ .refl ret).completed
  have same : (q.call (.readSector 8)).consumed = q.consumed := rfl
  omega

end Virtio
end RiscvMos
