import RiscvMos.Env.Copies
import RiscvMos.Env.Restored

/-!
How a system call returns: `do_syscall` on the saved frame, to which
`sys_read_sector` may copy bytes of the disk.
-/

namespace RiscvMos

def kstackTop : Nat := 0x81000000

/-- `(struct Trapframe *)KSTACKTOP - 1`. -/
def frameAddr : Nat := kstackTop - 320

/-- The byte is one of the saved frame. -/
def InFrame (pa : Nat) : Prop := frameAddr ≤ pa ∧ pa < kstackTop

instance (pa : Nat) : Decidable (InFrame pa) := inferInstanceAs (Decidable (_ ∧ _))

/-- The register that the byte is saved for. -/
def wordAt (pa : Nat) : Fin 40 := Fin.ofNat 40 ((pa - frameAddr) / 8)

namespace Trapframe

def byte (tf : Trapframe) (pa : Nat) : Nat := (tf (wordAt pa) >>> (8 * (pa % 8))) % 256

/-- A byte that is stored in memory, and the saved frame. -/
def storeByte (tf : Trapframe) (pa b : Nat) : Trapframe :=
  if InFrame pa then tf.set (wordAt pa) (setByte (tf (wordAt pa)) (pa % 8) b) else tf

def storeAll (tf : Trapframe) (ws : List (Nat × Nat)) : Trapframe :=
  ws.foldl (fun tf w => tf.storeByte w.1 w.2) tf

end Trapframe

namespace Machine

/-- Where `sys_read_sector` copies the sector, if that is the call. -/
def sectorDest (m : Machine) : List (Nat × Nat × Nat) :=
  if sysno m.kstack = 18 then
    match m.kernel.curenv with
    | none => []
    | some c =>
      match m.kernel.sectorPieces c (m.kstack 11) with
      | .error _ => []
      | .ok (_, ps) => ps
  else []

/-- The bytes it stores. -/
def sectorStores (m : Machine) (dev : Devices) : List (Nat × Nat) :=
  match dev.disk (m.kstack 12) with
  | none => []
  | some data =>
    m.sectorDest.flatMap fun p => (List.range p.2.2).map fun i =>
      (uLong (p.1 + i), data (p.2.1 + i))

/-- `int sysno` is a number of the table. -/
def Valid (m : Machine) : Prop := 0 ≤ sysno m.kstack ∧ sysno m.kstack < maxSysno

instance (m : Machine) : Decidable m.Valid := inferInstanceAs (Decidable (_ ∧ _))

/-- `tf->sepc += 4`. -/
def advance (m : Machine) : Machine :=
  { m with kstack := m.kstack.set Trapframe.sepc (uLong (m.kstack Trapframe.sepc + 4)) }

/-- `func(arg1, arg2, arg3, arg4, arg5)`. -/
def func (m : Machine) (dev : Devices) : Except Halt Outcome := do
  let tf := m.kstack
  let (r, m') ← m.advance.call dev (sysno tf).toNat (tf 11) (tf 12) (tf 13) (tf 14) (tf 15)
  .ok (r, { m' with kstack := m'.kstack.storeAll (m.sectorStores dev) })

/-- The frame with which `do_syscall` returns, unless the call leaves through `env_run`. -/
def syscallFrame (m : Machine) (dev : Devices) : Except Halt (Option Trapframe) :=
  if m.Valid then do
    match ← m.func dev with
    | (some r, m) => .ok (some (m.kstack.set 10 (intToULong r)))
    | (none, _) => .ok none
  else .ok (some (m.kstack.set 10 (intToULong (-eNoSys))))

/-- The call is `sys_set_trapframe` on the caller, with the frame `f`. -/
def OwnFrame (m : Machine) (f : Trapframe) : Prop :=
  sysno m.kstack = 11 ∧ ∃ c pa, m.kernel.curenv = some c ∧
    m.kernel.setTrapframe c (m.kstack 11) (m.kstack 12) = .ok (c, pa) ∧
      (inRam (pa >>> 12) ∧ inRam ((pa + 319) >>> 12)) ∧ f = Kernel.trapframeAt m.kernel.pmap pa

/-- The return protocol, from the frame of the `ecall` to `f`; `free` is where `sepc` may be
another. -/
structure Protocol (m : Machine) (dev : Devices) (f : Trapframe) (free : Prop) : Prop where
  sepc : ¬free → f Trapframe.sepc = uLong (m.kstack Trapframe.sepc + 4)
  result : m.Valid → ∀ r m', m.func dev = .ok (some r, m') → f 10 = intToULong r
  noSys : ¬m.Valid → f 10 = intToULong (-eNoSys)
  others : (¬∃ g, m.OwnFrame g) → ∀ i, i ≠ 10 → i ≠ Trapframe.sepc → f i = m.kstack i

/-- No byte of the sector goes to the saved frame, apart from `a0`. -/
def Spares (m : Machine) : Prop :=
  ∀ p ∈ m.sectorDest, ∀ i < p.2.2, InFrame (uLong (p.1 + i)) → wordAt (uLong (p.1 + i)) = 10

end Machine

namespace Trapframe

variable {tf : Trapframe} {ws : List (Nat × Nat)}

theorem storeAll_other {i : Fin 40} (h : ∀ w ∈ ws, InFrame w.1 → wordAt w.1 ≠ i) :
    tf.storeAll ws i = tf i := by
  induction ws generalizing tf with
  | nil => rfl
  | cons w ws ih =>
    have first : tf.storeByte w.1 w.2 i = tf i := by
      unfold storeByte
      by_cases inside : InFrame w.1
      · rw [if_pos inside, set_other _ _ (Ne.symm (h w List.mem_cons_self inside))]
      · rw [if_neg inside]
    exact (ih fun w hw => h w (List.mem_cons_of_mem _ hw)).trans first

theorem byte_storeByte {pa x b : Nat} (hx : InFrame x) (hb : b < 256) :
    (tf.storeByte pa b).byte x = if x = pa then b else tf.byte x := by
  unfold storeByte
  by_cases inside : InFrame pa
  · rw [if_pos inside]
    unfold byte
    have index : wordAt x = wordAt pa ↔ x / 8 = pa / 8 := by
      have place : ∀ x, (wordAt x).val = (x - frameAddr) / 8 % 40 := fun _ => rfl
      have start : frameAddr = 0x80fffec0 ∧ kstackTop = 0x81000000 := by decide
      rw [Fin.ext_iff, place, place]
      unfold InFrame at hx inside
      omega
    by_cases word : wordAt x = wordAt pa
    · have near := index.mp word
      have last : x % 8 = pa % 8 ↔ x = pa := by omega
      rw [word, set_same, setByte_digit _ hb]
      simp only [last]
    · have far := index.not.mp word
      rw [set_other _ _ word, if_neg (by rintro rfl; exact far rfl)]
  · rw [if_neg inside, if_neg (by rintro rfl; exact inside hx)]

/-- Where one byte is stored everywhere, it stays. -/
theorem byte_storeAll {x b : Nat} (hx : InFrame x) (hb : b < 256) (all : ∀ w ∈ ws, w.2 = b)
    (hit : tf.byte x = b ∨ ∃ w ∈ ws, w.1 = x) : (tf.storeAll ws).byte x = b := by
  induction ws generalizing tf with
  | nil =>
    cases hit with
    | inl there => exact there
    | inr none_ =>
      obtain ⟨w, hw, -⟩ := none_
      cases hw
  | cons w ws ih =>
    have stored : (tf.storeByte w.1 b).byte x = if x = w.1 then b else tf.byte x :=
      byte_storeByte hx hb
    rw [← all w List.mem_cons_self] at stored
    apply ih fun w hw => all w (List.mem_cons_of_mem _ hw)
    by_cases here : x = w.1
    · left
      rw [stored, if_pos here]
      exact all w List.mem_cons_self
    · rw [stored, if_neg here]
      refine hit.imp_right ?_
      rintro ⟨v, hv, at_⟩
      rcases List.mem_cons.mp hv with rfl | hv
      · exact absurd at_.symm here
      · exact ⟨v, hv, at_⟩

end Trapframe

namespace Machine

section
variable {m m' : Machine} {dev : Devices} {r : Int} {f : Trapframe}

theorem plain_kstack {x : Except Halt (Int × Kernel)} (hm : m.plain x = .ok (some r, m')) :
    m'.kstack = m.kstack := by
  obtain ⟨_, k, -, -, rfl⟩ := plain_ok hm
  rfl

theorem onUser_kstack {g : EnvIdx → Ran} (hm : m.onUser g = .ok (some r, m')) :
    m'.kstack = m.kstack := by
  obtain ⟨c, hm⟩ := onUser_ok hm
  exact plain_kstack hm

theorem sysEnvDestroy_kstack {envid : Nat} (hm : m.sysEnvDestroy envid = .ok (some r, m')) :
    m'.kstack = m.kstack := by
  obtain ⟨_, k, -, ⟨leaves, -⟩ | ⟨-, rfl⟩⟩ := sysEnvDestroy_ok hm
  · cases leaves
  · rfl

theorem sysExofork_kstack (hm : m.sysExofork = .ok (some r, m')) : m'.kstack = m.kstack := by
  obtain ⟨_, k, -, -, rfl | ⟨e, rfl⟩⟩ := sysExofork_ok hm
  · rfl
  · rfl

theorem sysIpcRecv_kstack {dstva : Nat} (hm : m.sysIpcRecv dstva = .ok (some r, m')) :
    m'.kstack = m.kstack := by
  obtain ⟨_, k, -, ⟨-, rfl⟩ | ⟨leaves, -⟩⟩ := sysIpcRecv_ok hm
  · rfl
  · cases leaves

theorem sysSetTrapframe_kstack {envid tf : Nat}
    (hm : m.sysSetTrapframe envid tf = .ok (some r, m')) :
    m'.kstack = m.kstack ∨ ∃ c pa, m.kernel.curenv = some c ∧
    m.kernel.setTrapframe c envid tf = .ok (c, pa) ∧
      (inRam (pa >>> 12) ∧ inRam ((pa + 319) >>> 12)) ∧
      m'.kstack = Kernel.trapframeAt m.kernel.pmap pa := by
  rcases sysSetTrapframe_ok hm with rfl | ⟨c, e, pa, cur, target, ram, ⟨own, rfl⟩ | rfl⟩
  · exact .inl rfl
  · subst own
    exact .inr ⟨e, pa, cur, target, ram, rfl⟩
  · exact .inl rfl

/-- A handler that returns leaves the saved frame as it is, row by row of the table, except where
`sys_set_trapframe` sets that of the caller. -/
theorem call_kstack {n a₁ a₂ a₃ a₄ a₅ : Nat} (hm : m.call dev n a₁ a₂ a₃ a₄ a₅ = .ok (some r, m')) :
    m'.kstack = m.kstack ∨ n = 11 ∧ ∃ c pa, m.kernel.curenv = some c ∧
    m.kernel.setTrapframe c a₁ a₂ = .ok (c, pa) ∧
      (inRam (pa >>> 12) ∧ inRam ((pa + 319) >>> 12)) ∧
      m'.kstack = Kernel.trapframeAt m.kernel.pmap pa := by
  have same (r' : Int) (h : (.ok (some r', m) : Except Halt Outcome) = .ok (some r, m')) :
      m'.kstack = m.kstack := by
    obtain ⟨-, rfl⟩ := Prod.mk.inj (Except.ok.inj h)
    rfl
  unfold call at hm
  dsimp only at hm
  split at hm
  · exact .inl (same _ hm)
  · exact .inl (onUser_kstack hm)
  · exact .inl (plain_kstack hm)
  · obtain ⟨_, -, hm⟩ := Except.bind_ok_iff.mp hm
    cases hm
  · exact .inl (sysEnvDestroy_kstack hm)
  · exact .inl (plain_kstack hm)
  · exact .inl (plain_kstack hm)
  · exact .inl (plain_kstack hm)
  · exact .inl (plain_kstack hm)
  · exact .inl (sysExofork_kstack hm)
  · exact .inl (plain_kstack hm)
  · exact (sysSetTrapframe_kstack hm).imp_right fun own => ⟨rfl, own⟩
  · exact .inl (onUser_kstack hm)
  · exact .inl (plain_kstack hm)
  · exact .inl (sysIpcRecv_kstack hm)
  · exact .inl (same _ hm)
  · exact .inl (same _ hm)
  · exact .inl (same _ hm)
  · exact .inl (onUser_kstack hm)
  · exact .inl (onUser_kstack hm)
  · split at hm
    · exact .inl (same _ hm)
    · cases hm
  · cases hm

/-- No other call stores a sector. -/
theorem sectorStores_other (h : sysno m.kstack ≠ 18) : m.sectorStores dev = [] := by
  unfold sectorStores sectorDest
  rw [if_neg h]
  cases dev.disk (m.kstack 12) with
  | none => rfl
  | some data => rfl

/-- What the handler leaves of the saved frame. -/
theorem func_kstack (hm : m.func dev = .ok (some r, m')) :
    m'.kstack = m.advance.kstack.storeAll (m.sectorStores dev) ∨ m.OwnFrame m'.kstack := by
  obtain ⟨⟨_, m₁⟩, ran, hm⟩ := Except.bind_ok_iff.mp hm
  obtain ⟨rfl, rfl⟩ := Prod.mk.inj (Except.ok.inj hm)
  rcases call_kstack ran with same | ⟨number, c, pa, cur, target, ram, own⟩
  · left
    dsimp only
    rw [same]
  · right
    have eleven : sysno m.kstack = 11 := by omega
    have none_ : m.sectorStores dev = [] := sectorStores_other (by omega)
    refine ⟨eleven, c, pa, cur, target, ram, ?_⟩
    dsimp only
    rw [none_, own]
    rfl

theorem storeAll_spares (h : m.Spares) (tf : Trapframe) {i : Fin 40} (hi : i ≠ 10) :
    tf.storeAll (m.sectorStores dev) i = tf i := by
  apply Trapframe.storeAll_other
  intro w hw inside
  unfold sectorStores at hw
  cases data : dev.disk (m.kstack 12) with
  | none =>
    rw [data] at hw
    cases hw
  | some data' =>
    rw [data] at hw
    obtain ⟨p, hp, hw⟩ := List.mem_flatMap.mp hw
    obtain ⟨j, hj, rfl⟩ := List.mem_map.mp hw
    rw [h p hp j (List.mem_range.mp hj) inside]
    exact hi.symm

theorem advance_other {i : Fin 40} (h : i ≠ Trapframe.sepc) : m.advance.kstack i = m.kstack i :=
  Trapframe.set_other _ _ h

theorem advance_sepc : m.advance.kstack Trapframe.sepc = uLong (m.kstack Trapframe.sepc + 4) :=
  Trapframe.set_same m.kstack Trapframe.sepc _

/-- A disk full of one byte. -/
def fullOf (b : Nat) : Devices := ⟨0, fun _ => some fun _ => b, true, true, 0⟩

theorem func_of_call {n : Nat} (hn : (sysno m.kstack).toNat = n)
    (ran : m.advance.call dev n (m.kstack 11) (m.kstack 12)
    (m.kstack 13) (m.kstack 14) (m.kstack 15) = .ok (some r, m')) :
    m.func dev = .ok (some r, { m' with kstack := m'.kstack.storeAll (m.sectorStores dev) }) := by
  unfold func
  dsimp only
  rw [hn, ran]
  rfl

/-- `sys_read_sector` returns. -/
theorem func_readSector {b : Nat} (h : m.sectorDest ≠ []) :
    ∃ m', m.func (fullOf b) = .ok (some 0, m') ∧
    m'.kstack = m.advance.kstack.storeAll (m.sectorStores (fullOf b)) := by
  have number : sysno m.kstack = 18 := by
    by_contra other
    exact h (if_neg other)
  obtain ⟨c, cur⟩ : ∃ c, m.kernel.curenv = some c := by
    cases cur : m.kernel.curenv with
    | some c => exact ⟨c, rfl⟩
    | none =>
      rw [sectorDest, if_pos number, cur] at h
      exact absurd rfl h
  obtain ⟨⟨k, ps⟩, pieces⟩ : ∃ out, m.kernel.sectorPieces c (m.kstack 11) = .ok out := by
    cases pieces : m.kernel.sectorPieces c (m.kstack 11) with
    | ok out => exact ⟨out, rfl⟩
    | error e =>
      rw [sectorDest, if_pos number, cur] at h
      dsimp only at h
      rw [pieces] at h
      exact absurd rfl h
  have index : (sysno m.kstack).toNat = 18 := by omega
  have cur' : m.advance.kernel.curenv = some c := cur
  have pieces' : m.advance.kernel.sectorPieces c (m.kstack 11) = .ok (k, ps) := pieces
  obtain ⟨k', ran⟩ :
    ∃ k', m.advance.call (fullOf b) 18 (m.kstack 11) (m.kstack 12) (m.kstack 13) (m.kstack 14)
      (m.kstack 15) = .ok (some 0, { m.advance with kernel := k' }) := by
    unfold call onUser Kernel.sysReadSector
    dsimp only
    rw [cur']
    dsimp only
    rw [pieces']
    exact ⟨_, rfl⟩
  exact ⟨_, func_of_call index ran, rfl⟩

/-- A byte of the disk gets into a register of the saved frame. -/
theorem exists_storeAll (h : ¬m.Spares) :
    ∃ b i, i ≠ 10 ∧ m.advance.kstack.storeAll (m.sectorStores (fullOf b)) i ≠
    m.advance.kstack i := by
  obtain ⟨p, hp, j, hj, inside, word⟩ : ∃ p ∈ m.sectorDest, ∃ j < p.2.2, InFrame (uLong (p.1 + j)) ∧
      wordAt (uLong (p.1 + j)) ≠ 10 := by
    by_contra none_
    apply h
    intro p hp j hj inside
    by_contra word
    exact none_ ⟨p, hp, j, hj, inside, word⟩
  generalize place : uLong (p.1 + j) = x at inside word
  obtain ⟨b, small, other⟩ : ∃ b < 256, b ≠ m.advance.kstack.byte x := by
    by_cases zero : m.advance.kstack.byte x = 0
    · exact ⟨1, by decide, by omega⟩
    · exact ⟨0, by decide, Ne.symm zero⟩
  have stores : m.sectorStores (fullOf b) =
      m.sectorDest.flatMap fun p => (List.range p.2.2).map fun i => (uLong (p.1 + i), b) := rfl
  have stored : (m.advance.kstack.storeAll (m.sectorStores (fullOf b))).byte x = b := by
    apply Trapframe.byte_storeAll inside small
    · intro w hw
      rw [stores] at hw
      obtain ⟨q, -, hw⟩ := List.mem_flatMap.mp hw
      obtain ⟨i, -, rfl⟩ := List.mem_map.mp hw
      rfl
    · right
      refine ⟨(x, b), ?_, rfl⟩
      rw [stores, ← place]
      exact List.mem_flatMap.mpr ⟨p, hp, List.mem_map.mpr ⟨j, List.mem_range.mpr hj, rfl⟩⟩
  refine ⟨b, wordAt x, word, fun same => other ?_⟩
  rw [← stored, Trapframe.byte, same]
  rfl

theorem OwnFrame.valid (h : m.OwnFrame f) : m.Valid := by
  have number := h.1
  unfold Valid maxSysno
  omega

/-- `sys_set_trapframe` on the caller returns with the frame. -/
theorem OwnFrame.returns (h : m.OwnFrame f) (dev : Devices) :
    ∃ m', (∃ r, m.func dev = .ok (some r, m')) ∧ m'.kstack = f := by
  obtain ⟨number, c, pa, cur, target, ram, rfl⟩ := h
  have index : (sysno m.kstack).toNat = 11 := by omega
  have cur' : m.advance.kernel.curenv = some c := cur
  have target' : m.advance.kernel.setTrapframe c (m.kstack 11) (m.kstack 12) = .ok (c, pa) := target
  have none_ : m.sectorStores dev = [] := sectorStores_other (by omega)
  obtain ⟨r, ran⟩ : ∃ r, m.advance.call dev 11 (m.kstack 11) (m.kstack 12) (m.kstack 13)
    (m.kstack 14) (m.kstack 15) =
      .ok (some r, { m.advance with kstack := Kernel.trapframeAt m.kernel.pmap pa }) := by
    unfold call sysSetTrapframe
    dsimp only
    rw [cur']
    dsimp only
    rw [target']
    dsimp only
    rw [if_pos ram, if_pos rfl]
    exact ⟨_, rfl⟩
  refine ⟨_, ⟨r, func_of_call index ran⟩, ?_⟩
  rw [none_]
  rfl

theorem syscallFrame_valid (valid : m.Valid) :
    m.syscallFrame dev = .ok (some f) ↔
    ∃ r m', m.func dev = .ok (some r, m') ∧ f = m'.kstack.set 10 (intToULong r) := by
  unfold syscallFrame
  rw [if_pos valid]
  constructor
  · intro run
    obtain ⟨⟨o, m'⟩, ran, run⟩ := Except.bind_ok_iff.mp run
    cases o with
    | none => cases run
    | some r =>
      obtain rfl := Option.some.inj (Except.ok.inj run)
      exact ⟨r, m', ran, rfl⟩
  · rintro ⟨r, m', ran, rfl⟩
    rw [ran]
    rfl

/-- The next instruction is another. -/
theorem next_ne (n : Nat) : n ≠ uLong (n + 4) := by
  unfold uLong
  omega

theorem protocol_of_spares (valid : m.Valid) (spares : m.Spares)
    (run : m.syscallFrame dev = .ok (some f)) :
    m.Protocol dev f (∃ g, m.OwnFrame g) := by
  obtain ⟨r, m', ran, rfl⟩ := (syscallFrame_valid valid).mp run
  have kept (own : ¬∃ g, m.OwnFrame g) {i : Fin 40} (hi : i ≠ 10) :
      m'.kstack.set 10 (intToULong r) i = m.advance.kstack i := by
    rw [Trapframe.set_other _ _ hi]
    rcases func_kstack ran with same | own'
    · rw [same, storeAll_spares spares _ hi]
    · exact absurd ⟨_, own'⟩ own
  refine ⟨fun own => ?_, fun _ r' m'' ran' => ?_, fun invalid => absurd valid invalid,
    fun own i hi other => ?_⟩
  · exact (kept own (by decide)).trans advance_sepc
  · cases ran.symm.trans ran'
    exact Trapframe.set_same _ _ _
  · exact (kept own hi).trans (advance_other other)

theorem not_protocol_of_invalid (invalid : ¬m.Valid) :
    ∃ f, (∀ dev, m.syscallFrame dev = .ok (some f)) ∧ f Trapframe.sepc = m.kstack Trapframe.sepc :=
  ⟨_, fun _ => if_neg invalid, Trapframe.set_other _ _ (by decide)⟩

/-- A call that returns keeps to the protocol, whatever the devices answer, if and only if
its number is one of the table and no byte of a sector goes to the saved frame; and if
`sepc` counts for `sys_set_trapframe` on the caller, the frame has the next one. -/
theorem syscall_protocol_iff (m : Machine) :
    ((∀ dev f, m.syscallFrame dev = .ok (some f) → m.Protocol dev f (∃ g, m.OwnFrame g)) ↔
      m.Valid ∧ m.Spares) ∧
      ((∀ dev f, m.syscallFrame dev = .ok (some f) → m.Protocol dev f False) ↔
        (m.Valid ∧ m.Spares) ∧ ∀ g, m.OwnFrame g →
        g Trapframe.sepc = uLong (m.kstack Trapframe.sepc + 4)) := by
  have needed (all : ∀ dev f, m.syscallFrame dev = .ok (some f) →
      m.Protocol dev f (∃ g, m.OwnFrame g)) :
      m.Valid ∧ m.Spares := by
    have valid : m.Valid := by
      by_contra invalid
      obtain ⟨f, run, stays⟩ := not_protocol_of_invalid invalid
      have next := (all (fullOf 0) f (run _)).sepc fun own => own.elim fun g h => invalid h.valid
      exact next_ne _ (stays.symm.trans next)
    refine ⟨valid, ?_⟩
    by_contra hits
    obtain ⟨b, i, hi, changed⟩ := exists_storeAll hits
    have some_ : m.sectorDest ≠ [] := by
      intro none_
      apply hits
      intro p hp
      rw [none_] at hp
      cases hp
    obtain ⟨m', ran, frame⟩ := func_readSector (b := b) some_
    have protocol := all (fullOf b) _ ((syscallFrame_valid valid).mpr ⟨0, m', ran, rfl⟩)
    have own : ¬∃ g, m.OwnFrame g := by
      rintro ⟨g, eleven, -⟩
      exact some_ (if_neg (by omega))
    apply changed
    rw [← frame, ← Trapframe.set_other m'.kstack (intToULong 0) hi]
    by_cases counter : i = Trapframe.sepc
    · rw [counter, protocol.sepc own, advance_sepc]
    · rw [protocol.others own i hi counter, advance_other counter]
  refine ⟨⟨needed, fun ok dev f run => protocol_of_spares ok.1 ok.2 run⟩, ?_, ?_⟩
  · intro all
    have ok := needed fun dev f run =>
      ⟨fun _ => (all dev f run).sepc not_false, (all dev f run).result, (all dev f run).noSys,
        (all dev f run).others⟩
    refine ⟨ok, fun g own => ?_⟩
    obtain ⟨m', ⟨r, ran⟩, rfl⟩ := own.returns (fullOf 0)
    have next := (all (fullOf 0) _ ((syscallFrame_valid ok.1).mpr ⟨r, m', ran, rfl⟩)).sepc not_false
    rwa [Trapframe.set_other _ _ (by decide)] at next
  · rintro ⟨⟨valid, spares⟩, own⟩ dev f run
    have rest := protocol_of_spares valid spares run
    refine ⟨fun _ => ?_, rest.result, rest.noSys, rest.others⟩
    by_cases mine : ∃ g, m.OwnFrame g
    · obtain ⟨r, m', ran, rfl⟩ := (syscallFrame_valid valid).mp run
      rw [Trapframe.set_other _ _ (by decide)]
      rcases func_kstack ran with same | own'
      · obtain ⟨g, mine⟩ := mine
        obtain ⟨m₁, ⟨r', ran'⟩, rfl⟩ := mine.returns dev
        cases ran.symm.trans ran'
        exact own _ mine
      · exact own _ own'
    · exact rest.sepc mine

/-- The frame is the one that `ret_from_exception` restores. -/
theorem syscallFrame_restored (none_ : m.sectorStores dev = [])
    (run : m.syscallFrame dev = .ok (some f)) :
    ∃ m', m.doSyscall dev = .ok m' ∧ m'.kstack = f ∧ m'.restored = some f := by
  by_cases valid : m.Valid
  · obtain ⟨r, m', ran, rfl⟩ := (syscallFrame_valid valid).mp run
    obtain ⟨⟨o, m₁⟩, called, ran⟩ := Except.bind_ok_iff.mp ran
    rw [none_] at ran
    obtain ⟨rfl, rfl⟩ := Prod.mk.inj (Except.ok.inj ran)
    unfold Valid at valid
    unfold doSyscall
    dsimp only
    rw [if_neg (by omega)]
    have called' : ({ m with
        kstack := m.kstack.set Trapframe.sepc (uLong (m.kstack Trapframe.sepc + 4)) } : Machine).call
          dev (sysno m.kstack).toNat (m.kstack 11) (m.kstack 12) (m.kstack 13) (m.kstack 14)
          (m.kstack 15) = .ok (some r, m₁) := called
    rw [called']
    exact ⟨_, rfl, rfl, rfl⟩
  · have same := Option.some.inj (Except.ok.inj ((if_neg valid).symm.trans run))
    unfold Valid at valid
    unfold doSyscall
    dsimp only
    rw [if_pos (by omega), same]
    exact ⟨_, rfl, rfl, rfl⟩

end

/-- An `ecall` at `0x400000` with the number `MAX_SYSNO`. -/
def noCall : Trapframe := fun i => if i = Trapframe.sepc then 0x400000 else if i = 10 then 21 else 0

/-- The `ecall` is made again, with the code as its number, and again. -/
theorem syscall_repeats :
    ∃ f, ({ booted with kstack := noCall } : Machine).syscallFrame noDevices = .ok (some f) ∧
    f Trapframe.sepc = noCall Trapframe.sepc ∧
    (∀ free, ¬free → ¬({ booted with kstack := noCall } : Machine).Protocol noDevices f free) ∧
    ({ booted with kstack := f } : Machine).syscallFrame noDevices = .ok (some f) := by
  have bad : ¬({ booted with kstack := noCall } : Machine).Valid := by decide
  have again :
      ¬({ booted with kstack := noCall.set 10 (intToULong (-eNoSys)) } : Machine).Valid := by decide
  refine ⟨_, if_neg bad, rfl, fun free busy protocol => absurd (protocol.sepc busy) (by decide), ?_⟩
  rw [syscallFrame, if_neg again]
  have same : (noCall.set 10 (intToULong (-eNoSys))).set 10 (intToULong (-eNoSys)) =
      noCall.set 10 (intToULong (-eNoSys)) :=
    Function.update_idem ..
  rw [same]

end Machine

end RiscvMos
