import RiscvMos.User.CowFault
import RiscvMos.User.ForkProgress

/-!
The steps of `cow_entry` one by one: what its stores leave of the exception stack and of
the other pages, and what its system calls do to the places of its env.
-/

namespace RiscvMos

/-- The exception stack after the store. -/
def Push.store (x : Push) (f : Vpn → Nat) : Vpn → Nat :=
  Function.update f ⟨x.i, Nat.lt_trans x.i.isLt (by decide)⟩ x.w

def stored (xs : List Push) (f : Vpn → Nat) : Vpn → Nat := xs.foldl (fun f x => x.store f) f

namespace Machine

open Pmap Forks

/-- The place of the exception stack. -/
def uxplace (c : EnvIdx) : Place EnvIdx := placeOf c uxframe

/-- The env runs its handler. -/
structure Serving (M K1 K0 : Nat → Prop) (c : EnvIdx) (m : Machine) : Prop where
  secure : Kernel.Secure M K1 K0 (fun _ _ => True) m.kernel
  current : m.kernel.curenv = some c

/-- Page `p` of the exception stack has `g` of what it had, and the other pages that are
mapped, but for those in `W`, have what they had. -/
structure Stacked (c : EnvIdx) (p : Nat) (W : Nat → Prop) (g : (Vpn → Nat) → Vpn → Nat)
    (s s' : Pmap EnvIdx) : Prop where
  here : ∃ a, s'.place (uxplace c) = some (p, a)
  off : ∀ y, y ≠ uxplace c → s'.place y = s.place y
  stack : s'.mem p = g (s.mem p)
  data : ∀ y r b, s.place y = some (r, b) → r ≠ p → ¬ W r → s'.mem r = s.mem r
  refs : s'.ppRef = s.ppRef

section
variable {M K1 K0 : Nat → Prop} {c : EnvIdx} {m m' : Machine} {s s₁ s' : Pmap EnvIdx} {p a : Nat}
    {W : Nat → Prop} {f g : (Vpn → Nat) → Vpn → Nat}

theorem Stacked.refl (here : s.place (uxplace c) = some (p, a)) : Stacked c p W id s s :=
  ⟨⟨a, here⟩, fun _ _ => rfl, rfl, fun _ _ _ _ _ _ => rfl, rfl⟩

theorem Stacked.trans (here : s.place (uxplace c) = some (p, a)) (h : Stacked c p W f s s₁)
    (h' : Stacked c p W g s₁ s') : Stacked c p W (fun x => g (f x)) s s' := by
  refine ⟨h'.here, fun y ne => (h'.off y ne).trans (h.off y ne), ?_, fun y r b there ne off => ?_,
    h'.refs.trans h.refs⟩
  · rw [h'.stack, h.stack]
  · have other : y ≠ uxplace c := by
      rintro rfl
      exact ne (Prod.mk.inj (Option.some.inj (there.symm.trans here))).1
    rw [h'.data y r b ((h.off y other).trans there) ne off, h.data y r b there ne off]

theorem Serving.live (h : Serving M K1 K0 c m) : m.kernel.pmap.pgdir c ≠ 0 :=
  (h.secure.live c (h.secure.cur c h.current).1).1

theorem Serving.consistent (h : Serving M K1 K0 c m) : Consistent M m.kernel.pmap :=
  h.secure.guarded.consistent

theorem Serving.userApart (h : Serving M K1 K0 c m) : m.kernel.pmap.UserApart :=
  h.secure.guarded.userApart

/-! ## The stack -/

theorem uxword_lt (x : Push) : uxword x.i < ulim := by
  have := x.i.isLt
  unfold uxword uxstacktop utop ulim
  omega

theorem uxword_place (x : Push) : placeOf c (uxword x.i) = uxplace c := by
  have := x.i.isLt
  unfold uxplace placeOf uxword uxframe uxstacktop utop ulim
  congr 1
  omega

theorem uxword_idx (x : Push) :
    wordIdx (uxword x.i) = ⟨x.i, Nat.lt_trans x.i.isLt (by decide)⟩ := by
  have := x.i.isLt
  apply Fin.ext
  unfold wordIdx uxword uxstacktop utop ulim
  simp only
  rw [show 0x1FF = 2 ^ 9 - 1 from rfl, Nat.and_two_pow_sub_one_eq_mod, Nat.shiftRight_eq_div_pow]
  omega

theorem access_store (current : m.kernel.curenv = some c) {va w r : Nat} {tf : Trapframe}
    (goes : m.kernel.pmap.translate c .store va = some r) :
    m.access .store va w tf =
      .ok { m with kernel := { m.kernel with pmap := m.kernel.pmap.storeWord r va w } } := by
  simp only [Machine.access, Kernel.access, current, goes]
  rfl

theorem access_fault (current : m.kernel.curenv = some c) {va w : Nat} {tf : Trapframe}
    (faults : m.kernel.pmap.translate c .store va = none)
    (out : m.access .store va w tf = .ok m') :
    ∃ up s, m.kernel.pmap.handleFault c .store va tf = .ok (up, s) ∧
      m.kernel.access .store va w tf = .ok { m.kernel with pmap := s } ∧
      m'.kernel = { m.kernel with pmap := s } := by
  simp only [Machine.access, current, faults] at out
  obtain ⟨⟨r, k⟩, handled, out⟩ := Except.bind_ok_iff.mp out
  obtain rfl := Except.ok.inj out
  have taken : m.kernel.access .store va w tf = .ok k := by
    simp only [Kernel.access, current, faults]
    exact Except.bind_ok_iff.mpr ⟨_, handled, rfl⟩
  obtain ⟨c', up, s, current', handled, rfl⟩ := Kernel.handleException_ok handled
  obtain rfl := Option.some.inj (current.symm.trans current')
  exact ⟨up, s, handled, taken, rfl⟩

/-- The store goes to the page of the exception stack. -/
theorem Serving.stores (h : Serving M K1 K0 c m) (x : Push)
    (here : m.kernel.pmap.place (uxplace c) = some (p, a)) {r : Nat}
    (goes : m.kernel.pmap.translate c .store (uxword x.i) = some r)
    (out : m.access .store (uxword x.i) x.w x.regs = .ok m') :
    permits a .store ∧ Serving M K1 K0 c m' ∧
      Stacked c p W x.store m.kernel.pmap m'.kernel.pmap := by
  obtain ⟨perm, there, permitted⟩ := translate_place h.live (uxword_lt x) goes
  rw [uxword_place] at there
  obtain ⟨rfl, rfl⟩ := Prod.mk.inj (Option.some.inj (there.symm.trans here))
  rw [access_store h.current goes] at out
  obtain rfl := Except.ok.inj out
  have apart : ¬ m.kernel.pmap.TablePage r := h.userApart.place here
  have same := writePage_place apart
    (Function.update (m.kernel.pmap.mem r) (wordIdx (uxword x.i)) x.w)
  refine ⟨permitted, ⟨h.secure.store h.current goes x.w, h.current⟩, ⟨perm, (same _).trans here⟩,
    fun y _ => same y, ?_, fun y q b _ ne _ => Function.update_of_ne ne _ _, rfl⟩
  show Function.update m.kernel.pmap.mem r _ r = _
  rw [Function.update_self, uxword_idx]
  rfl

/-- More permission for the exception stack, if it may be had. -/
theorem Serving.upgrades (h : Serving M K1 K0 c m) (x : Push)
    (here : m.kernel.pmap.place (uxplace c) = some (p, a))
    (faults : m.kernel.pmap.translate c .store (uxword x.i) = none)
    (out : m.access .store (uxword x.i) x.w x.regs = .ok m') :
    (∀ y, m'.kernel.pmap.place y = m.kernel.pmap.place y) ∨
      a &&& pteCow = 0 ∧ Serving M K1 K0 c m' ∧ Stacked c p W id m.kernel.pmap m'.kernel.pmap := by
  have hva := uxword_lt x
  have hv := not_shared_of_user hva
  have at_ : m.kernel.pmap.view c (uxword x.i) = some (p, a) := by
    rw [← place_of_view hva, uxword_place]
    exact here
  have mapped : m.kernel.pmap.isMappedPage c (uxword x.i) = true := by
    rw [isMappedPage_eq hv, at_]
    rfl
  have apart : ¬ m.kernel.pmap.TablePage p := h.userApart.place here
  obtain ⟨up, s, handled, taken, same⟩ := access_fault h.current faults out
  rw [same]
  unfold handleFault at handled
  split at handled
  · cases handled
  rw [if_neg (by decide), getPerm_of_view hv at_] at handled
  split at handled
  · obtain ⟨s₁, enter, handled⟩ := Except.bind_ok_iff.mp handled
    obtain ⟨-, rfl⟩ := Prod.mk.inj (Except.ok.inj handled)
    have there : m.kernel.pmap.isMappedPage c uxframe = true := by
      rw [isMappedPage_eq (by decide), ← place_of_view (by decide)]
      exact congrArg Option.isSome here
    unfold enterCow at enter
    rw [there, if_neg (by decide)] at enter
    obtain ⟨-, r, -, no, -, rfl⟩ := storeFrame_eq h.consistent h.userApart h.live enter
    exact .inl (writePage_place no _)
  · rename_i noCow
    rw [not_not] at noCow
    rw [if_pos rfl] at handled
    obtain ⟨⟨r, s₁⟩, map, handled⟩ := Except.bind_ok_iff.mp handled
    obtain ⟨-, rfl⟩ := Prod.mk.inj (Except.ok.inj handled)
    rw [← getPerm_of_view hv at_] at map
    obtain ⟨moves, data⟩ := mapPage_moves h.consistent h.userApart hva at_ (by decide) map
    obtain ⟨t0, w, -, -, rfl, -⟩ := mapPage_upgrade mapped (by decide) map
    rw [uxword_place] at moves
    have careful : ∀ e, m.kernel.curenv = some e →
        Kernel.Careful (fun _ _ => True) m.kernel e (.access .store (uxword x.i) x.w x.regs) := by
      intro e he _ _ _
      obtain rfl := Option.some.inj (he.symm.trans h.current)
      refine ⟨fun _ _ _ _ => ⟨hv, ?_, trivial⟩, fun isLoad => absurd isLoad (by decide),
        fun _ => hv⟩
      rw [getPa_of_view hv at_, show (p * 4096 + uxword x.i % 4096) / 4096 = p by omega]
      exact apart
    refine .inr ⟨noCow, ⟨?_, ?_⟩, ⟨_, moves.here⟩, moves.off, data, fun y r b there ne _ => ?_, rfl⟩
    · rw [same]
      exact (h.secure.access careful taken).granted
    · rw [same]
      exact h.current
    · by_cases eq : y = uxplace c
      · rw [eq] at there
        exact absurd (Prod.mk.inj (Option.some.inj (there.symm.trans here))).1 ne
      · exact moves.data y r b eq there

/-- A store of the handler that goes on. -/
theorem Serving.push (h : Serving M K1 K0 c m) {x : Push}
    (here : m.kernel.pmap.place (uxplace c) = some (p, a)) (out : m.push c x = some m') :
    (permits a .store ∨ a &&& pteCow = 0) ∧ Serving M K1 K0 c m' ∧
      Stacked c p W x.store m.kernel.pmap m'.kernel.pmap := by
  unfold Machine.push at out
  split at out
  · rename_i r goes
    obtain ⟨permitted, after⟩ := h.stores x here goes (Except.ok_of_toOption out)
    exact ⟨.inl permitted, after⟩
  · rename_i faults
    obtain ⟨m₁, first, out⟩ := Option.bind_eq_some_iff.mp out
    obtain ⟨r, goes, out⟩ := Option.bind_eq_some_iff.mp out
    rcases h.upgrades x here faults (Except.ok_of_toOption first) with same | ⟨noCow, h₁, upgraded⟩
    · have hva := uxword_lt x
      have there : m₁.kernel.pmap.place (placeOf c (uxword x.i)) = some (p, a) := by
        rw [same, uxword_place]
        exact here
      have live : m₁.kernel.pmap.pgdir c ≠ 0 :=
        pgdir_ne_zero_of_view ((place_of_view hva).symm.trans there)
      obtain ⟨perm, there', permitted⟩ := translate_place live hva goes
      obtain ⟨-, rfl⟩ := Prod.mk.inj (Option.some.inj (there'.symm.trans there))
      have goes' := place_translate hva ((uxword_place x).symm ▸ here) permitted
      cases faults.symm.trans goes'
    · obtain ⟨a', here₁⟩ := upgraded.here
      obtain ⟨-, h₂, after⟩ := h₁.stores x here₁ goes (Except.ok_of_toOption out)
      exact ⟨.inr noCow, h₂, upgraded.trans here after⟩

theorem Serving.pushes (h : Serving M K1 K0 c m) {xs : List Push}
    (here : m.kernel.pmap.place (uxplace c) = some (p, a)) (out : m.pushes c xs = some m') :
    Serving M K1 K0 c m' ∧ Stacked c p W (stored xs) m.kernel.pmap m'.kernel.pmap := by
  induction xs generalizing m a with
  | nil =>
    obtain rfl := Option.some.inj out
    exact ⟨h, .refl here⟩
  | cons x xs ih =>
    unfold Machine.pushes at out
    rw [List.foldlM_cons] at out
    obtain ⟨m₁, first, out⟩ := Option.bind_eq_some_iff.mp out
    obtain ⟨-, h₁, pushed⟩ := h.push here first
    obtain ⟨a₁, here₁⟩ := pushed.here
    obtain ⟨h', rest⟩ := ih h₁ here₁ out
    exact ⟨h', Stacked.trans (f := x.store) (g := stored xs) here pushed rest⟩

/-! ## System calls -/

variable {dev : Devices} {regs : Trapframe} {no arg1 arg2 arg3 arg4 arg5 : Nat}

/-- The machine in which the system call runs. -/
def entered (m : Machine) (tf : Trapframe) : Machine :=
  { m with kstack := tf.set Trapframe.sepc (uLong (tf Trapframe.sepc + 4)) }

theorem sysno_small {tf : Trapframe} (at_ : tf 10 = no) (small : no < 21) : sysno tf = no := by
  unfold sysno uIntToInt uInt
  rw [at_]
  have : no % 2 ^ 32 = no := Nat.mod_eq_of_lt (by omega)
  simp only [this]
  split <;> omega

/-- The way back from a system call. -/
def back (m : Machine) (r : Int) : Machine :=
  { m with kstack := m.kstack.set 10 (intToULong r) }.ret

theorem back_result (r : Int) : (m.back r).result = uIntToInt (uInt (intToULong r)) := by
  show uIntToInt (uInt ((m.kstack.set 10 (intToULong r)) 10)) = _
  rw [Trapframe.set_same]

theorem ecall_eq (small : no < 21) : m.ecall dev regs no arg1 arg2 arg3 arg4 arg5 =
    (((m.entered (regs.args no arg1 arg2 arg3 arg4 arg5)).call dev no arg1 arg2 arg3 arg4
      arg5).toOption.map fun o => o.1.elim o.2 o.2.back) := by
  have number : sysno (regs.args no arg1 arg2 arg3 arg4 arg5) = no := sysno_small rfl small
  unfold ecall doSyscall
  dsimp only
  rw [number, if_neg (by unfold maxSysno; omega), Int.toNat_natCast]
  show (((m.entered _).call dev no arg1 arg2 arg3 arg4 arg5) >>= _).toOption = _
  generalize (m.entered _).call dev no arg1 arg2 arg3 arg4 arg5 = x
  cases x with
  | error e => rfl
  | ok o =>
    obtain ⟨r, m₁⟩ := o
    cases r <;> rfl

/-- A system call that touches no frame. -/
theorem ecall_plain (small : no < 21) {f : Kernel → Except Halt (Int × Kernel)}
    (plain : ∀ m : Machine, m.call dev no arg1 arg2 arg3 arg4 arg5 = m.plain (f m.kernel)) :
    m.ecall dev regs no arg1 arg2 arg3 arg4 arg5 = (f m.kernel).toOption.map fun x =>
      ({ m.entered (regs.args no arg1 arg2 arg3 arg4 arg5) with kernel := x.2 }.back x.1) := by
  rw [ecall_eq small, plain]
  show ((f m.kernel >>= _).toOption).map _ = _
  cases f m.kernel <;> rfl

/-- It returns `r`, and the kernel is `k`. -/
theorem ecall_plain_some (small : no < 21) {f : Kernel → Except Halt (Int × Kernel)}
    (plain : ∀ m : Machine, m.call dev no arg1 arg2 arg3 arg4 arg5 = m.plain (f m.kernel))
    (out : m.ecall dev regs no arg1 arg2 arg3 arg4 arg5 = some m') :
    ∃ r, f m.kernel = .ok (r, m'.kernel) ∧ m'.result = uIntToInt (uInt (intToULong r)) := by
  rw [ecall_plain small plain] at out
  obtain ⟨⟨r, k⟩, called, rfl⟩ := Option.map_eq_some_iff.mp out
  exact ⟨r, Except.ok_of_toOption called, back_result r⟩

theorem result_zero : uIntToInt (uInt (intToULong 0)) = 0 := by decide

theorem result_noMem : uIntToInt (uInt (intToULong (-eNoMem))) < 0 := by decide

theorem result_inval : uIntToInt (uInt (intToULong (-eInval))) < 0 := by decide

/-- `syscall_mem_alloc(0, UCOW, perm)`: an empty page, at no other place. -/
theorem Serving.allocs (h : Serving M K1 K0 c m) {perm : Nat} (small : perm < 0x400)
    (out : m.ecall dev regs 6 0 ucow perm 0 0 = some m') (done : ¬ m'.result < 0) :
    Serving M K1 K0 c m' ∧ ∃ q,
      Moves m.kernel.pmap m'.kernel.pmap (c, ucowPage) (some (q, perm ||| pteV)) ∧
      (∀ y b, y ≠ (c, ucowPage) → m.kernel.pmap.place y ≠ some (q, b)) ∧
      m'.kernel.pmap.ppRef q = 1 := by
  have hva : ucow < ulim := by decide
  have hlt : ucow < 2 ^ 39 := by decide
  have hv := not_shared_of_user hva
  have hT := apart_of_ne (d := c) m.kernel.pmap hlt (vpn2_ne_three_of_user hva)
  obtain ⟨r, called, result⟩ := ecall_plain_some (by decide)
    (f := fun k => k.sysMemAlloc 0 ucow perm) (fun _ => rfl) out
  rw [Kernel.sysMemAlloc_self h.current (by decide)] at called
  obtain ⟨s, alloc, same⟩ := Kernel.liftPmap_ok called
  rw [show uInt perm = perm from Nat.mod_eq_of_lt (small.trans (by decide))] at alloc
  rcases allocPageUser_codes alloc with rfl | rfl
  · obtain ⟨q, moves, -, fresh⟩ := allocPageUser_moves h.consistent h.userApart hva h.live alloc
    obtain ⟨hs, hf, -, q', hM, hent, -, alone, -⟩ :=
      allocPageUser_spec h.consistent hlt hv hT alloc
    have here := moves.here
    rw [place_of_view hva] at here
    obtain ⟨rfl, -⟩ := Prod.mk.inj (Option.some.inj (here.symm.trans hent))
    have refs : s.ppRef q = 1 := by
      rw [hs.counted.count q hM,
        RefCount.refs_eq_card {leafSlot c ucow} (fun y => ?_), Finset.card_singleton]
      rw [Finset.mem_singleton]
      constructor
      · intro there
        by_contra ne
        exact alone y ne there
      · rintro rfl
        exact tgt_eq_some.mpr ⟨_, hent⟩
    rw [same]
    refine ⟨⟨?_, ?_⟩, q, moves, fresh, refs⟩
    · rw [same]
      exact h.secure.step (h.secure.guarded.alloc hlt h.live hv hT (fun _ _ _ _ => trivial)
        (fun window => absurd window (vpn2_ne_three_of_user hva)) (fun _ _ _ => trivial) alloc)
        (.of_touched hlt h.live hf)
    · rw [same]
      exact h.current
  · rw [result] at done
    exact absurd result_noMem done

/-- `syscall_mem_map(0, UCOW, 0, va, perm)`. -/
theorem Serving.maps (h : Serving M K1 K0 c m) {va perm q b : Nat} (small : perm < 0x400)
    (copy : m.kernel.pmap.place (c, ucowPage) = some (q, b)) (refs : m.kernel.pmap.ppRef q < 65535)
    (out : m.ecall dev regs 7 0 ucow 0 va perm = some m') (done : ¬ m'.result < 0) :
    ¬ isIllegalVa va ∧ Serving M K1 K0 c m' ∧
      Moves m.kernel.pmap m'.kernel.pmap (placeOf c va) (some (q, perm ||| pteV)) ∧
      m'.kernel.pmap.mem q = m.kernel.pmap.mem q := by
  have hva : ucow < ulim := by decide
  have hv := not_shared_of_user hva
  have copy' : m.kernel.pmap.view c ucow = some (q, b) := by
    rw [← place_of_view hva]
    exact copy
  have pa : m.kernel.pmap.getPa c ucow / 4096 = q := by
    rw [getPa_of_view hv copy']
    unfold ucow
    omega
  obtain ⟨r, called, result⟩ := ecall_plain_some (by decide)
    (f := fun k => k.sysMemMap 0 ucow 0 va perm) (fun _ => rfl) out
  by_cases legal : isIllegalVa va
  · unfold Kernel.sysMemMap at called
    rw [if_pos (.inr legal)] at called
    obtain ⟨rfl, -⟩ := Prod.mk.inj (Except.ok.inj called)
    rw [result] at done
    exact absurd result_inval done
  have careful : ∀ e, m.kernel.curenv = some e →
      Kernel.Careful (fun _ _ => True) m.kernel e (.sysMemMap 0 ucow 0 va perm) := by
    intro e he src hsrc _
    obtain rfl := Option.some.inj (he.symm.trans h.current)
    obtain rfl := Except.ok.inj hsrc
    rw [pa]
    exact refs
  have secure := (h.secure.sysMemMap careful called).granted
  have mapped : m.kernel.pmap.isMappedPage c ucow = true := by
    rw [isMappedPage_eq hv, copy']
    rfl
  rw [Kernel.sysMemMap_self h.current (by decide) legal mapped] at called
  obtain ⟨s, map, same⟩ := Kernel.liftPmap_ok called
  rw [show uInt perm = perm from Nat.mod_eq_of_lt (small.trans (by decide))] at map
  rcases mapPageUser_codes map with rfl | rfl
  · have src : m.kernel.pmap.place (c, ucowPage) =
        some (m.kernel.pmap.getPa c ucow / 4096, b) := by
      rw [pa]
      exact copy
    obtain ⟨moves, data⟩ := mapPageUser_moves h.consistent h.userApart
      (Kernel.lt_ulim_of_not_illegal legal) h.live src map
    rw [pa] at moves data
    refine ⟨legal, ⟨secure, ?_⟩, ?_⟩
    · rw [same]
      exact h.current
    · rw [same]
      exact ⟨moves, data⟩
  · rw [result] at done
    exact absurd result_noMem done

/-- `syscall_mem_unmap(0, UCOW)`. -/
theorem Serving.unmaps (h : Serving M K1 K0 c m)
    (out : m.ecall dev regs 8 0 ucow 0 0 0 = some m') :
    Serving M K1 K0 c m' ∧ Moves m.kernel.pmap m'.kernel.pmap (c, ucowPage) none := by
  obtain ⟨r, called, -⟩ := ecall_plain_some (by decide)
    (f := fun k => k.sysMemUnmap 0 ucow) (fun _ => rfl) out
  have secure := (h.secure.sysMemUnmap called).granted
  rw [Kernel.sysMemUnmap_self h.current (by decide)] at called
  obtain ⟨s, unmap, same⟩ := Kernel.liftPmap_ok called
  have moves := unmapPage_moves h.consistent h.userApart (show ucow < ulim by decide) unmap
  refine ⟨⟨secure, ?_⟩, ?_⟩
  · rw [same]
    exact h.current
  · rw [same]
    exact moves

/-! ## The way back -/

/-- The frame that the handler was entered with, on page `p`. -/
def frameOn (s : Pmap EnvIdx) (p : Nat) : Trapframe :=
  fun i => s.mem p ⟨472 + i, by have := i.isLt; omega⟩

theorem word_bytes (w n : Nat) :
    (List.range n).foldl (fun v j => v + w / 256 ^ j % 256 * 256 ^ j) 0 = w % 256 ^ n := by
  induction n with
  | zero => simp [Nat.mod_one]
  | succ n ih =>
    rw [List.range_succ, List.foldl_append, ih, Nat.pow_succ, Nat.mod_mul, Nat.mul_comm (256 ^ n)]
    rfl

theorem trapframeAt_page (ram : inRam p) (words : ∀ i, frameOn s p i < 2 ^ 64) :
    Kernel.trapframeAt s (p * 4096 + 3776) = frameOn s p := by
  funext i
  have small := i.isLt
  have low : p < 0x84000 := ram.2
  unfold Kernel.trapframeAt
  rw [List.foldl_ext (g := fun v j => v + frameOn s p i / 256 ^ j % 256 * 256 ^ j)]
  · rw [word_bytes]
    exact Nat.mod_eq_of_lt (words i)
  · intro v j hj
    have := List.mem_range.mp hj
    have addr : uLong (p * 4096 + 3776 + (8 * i + j)) = p * 4096 + 3776 + (8 * i + j) :=
      Nat.mod_eq_of_lt (by omega)
    have page : (p * 4096 + 3776 + (8 * i.val + j)) / 4096 = p := by omega
    have word : (p * 4096 + 3776 + (8 * i.val + j)) % 4096 / 8 = 472 + i := by omega
    have byte : (p * 4096 + 3776 + (8 * i.val + j)) % 8 = j := by omega
    rw [addr]
    unfold Pmap.byteAt frameOn
    simp only [page, word, byte]
    rw [Nat.shiftRight_eq_div_pow, Nat.pow_mul]

/-- `syscall_set_trapframe(0, tf)`: the frame of the stack, but for `a0`. -/
theorem Serving.returns (h : Serving M K1 K0 c m) (dev : Devices) (regs : Trapframe)
    (here : m.kernel.pmap.place (uxplace c) = some (p, a))
    (words : ∀ i, frameOn m.kernel.pmap p i < 2 ^ 64) :
    ∃ m', m.ecall dev regs 11 0 (uxframe + 8) 0 0 0 = some m' ∧ m'.kernel = m.kernel ∧
      m'.restored = some ((frameOn m.kernel.pmap p).set 10
        (intToULong (uIntToInt (uInt (frameOn m.kernel.pmap p 10))))) := by
  have hva : uxframe + 8 < ulim := by decide
  have hv := not_shared_of_user hva
  have view : m.kernel.pmap.view c (uxframe + 8) = some (p, a) := by
    rw [← place_of_view hva]
    exact here
  have pa : m.kernel.pmap.getPa c (uxframe + 8) = p * 4096 + 3776 := getPa_of_view hv view
  have ram : inRam p := h.consistent.ram p (h.consistent.mem_of_tgt (tgt_of_place here))
  have target : m.kernel.setTrapframe c 0 (uxframe + 8) = .ok (c, p * 4096 + 3776) := by
    unfold Kernel.setTrapframe
    rw [if_neg (by decide), pa]
    rfl
  have inside : inRam ((p * 4096 + 3776) >>> 12) ∧ inRam ((p * 4096 + 3776 + 319) >>> 12) := by
    rw [Nat.shiftRight_eq_div_pow, Nat.shiftRight_eq_div_pow,
      show (p * 4096 + 3776) / 2 ^ 12 = p by omega,
      show (p * 4096 + 3776 + 319) / 2 ^ 12 = p by omega]
    exact ⟨ram, ram⟩
  have frame := trapframeAt_page ram words
  have called : (m.entered (regs.args 11 0 (uxframe + 8) 0 0 0)).call dev 11 0 (uxframe + 8) 0 0 0 =
      .ok (some (uIntToInt (uInt (frameOn m.kernel.pmap p 10))),
        { m with kstack := frameOn m.kernel.pmap p }) := by
    show (m.entered _).sysSetTrapframe 0 (uxframe + 8) = _
    unfold sysSetTrapframe entered
    dsimp only
    rw [h.current]
    dsimp only
    rw [target]
    dsimp only
    rw [if_pos inside, if_pos rfl, frame]
  rw [ecall_eq (by decide), called]
  exact ⟨_, rfl, rfl, rfl⟩

end

end Machine

end RiscvMos
