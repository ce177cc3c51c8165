import RiscvMos.User.CowCopy

/-!
What `cow_entry` has done when it comes to its `syscall_set_trapframe`. The frame comes back
from the exception stack, but for `a0`, which `do_syscall` sets to the `int` that
`sys_set_trapframe` returns.
-/

namespace RiscvMos

/-- The exception stack when word `n` of `memcpy` comes up. -/
def CowCode.stack (code : CowCode) (f : Vpn → Nat) (n : Nat) : Vpn → Nat :=
  code.words (stored (code.prologue :: code.looked) f) (n + 1)

theorem stored_above (xs : List Push) (f : Vpn → Nat) {i : Vpn} (high : 471 ≤ i.val) :
    stored xs f i = f i := by
  induction xs generalizing f with
  | nil => rfl
  | cons x xs ih =>
    refine (ih _).trans (Function.update_of_ne ?_ _ _)
    rintro rfl
    have := x.i.isLt
    exact absurd high (Nat.not_le.mpr this)

theorem words_above (code : CowCode) (f : Vpn → Nat) (n : Nat) {i : Vpn} (high : 471 ≤ i.val) :
    code.words f n i = f i := by
  induction n with
  | zero => rfl
  | succ n ih => exact (stored_above _ _ high).trans ih

namespace Machine

open Pmap Forks

/-- The handler runs, and has the frame on page `p`. -/
structure Handling (M K1 K0 : Nat → Prop) (c : EnvIdx) (p : Nat) (tf : Trapframe) (m : Machine) :
    Prop extends Serving M K1 K0 c m where
  here : ∃ a, m.kernel.pmap.place (uxplace c) = some (p, a)
  frame : frameOn m.kernel.pmap p = tf

section
variable {M K1 K0 : Nat → Prop} {c : EnvIdx} {m m' : Machine} {s s' : Pmap EnvIdx} {dev : Devices}
    {code : CowCode} {tf : Trapframe} {W : Nat → Prop} {va p q r a b d n : Nat}

theorem Handling.stacked (h : Handling M K1 K0 c p tf m) (serving : Serving M K1 K0 c m')
    {g : (Vpn → Nat) → Vpn → Nat} (above : ∀ f (i : Vpn), 471 ≤ i.val → g f i = f i)
    (stacked : Stacked c p W g m.kernel.pmap m'.kernel.pmap) : Handling M K1 K0 c p tf m' := by
  refine ⟨serving, stacked.here, ?_⟩
  rw [← h.frame]
  funext i
  unfold frameOn
  rw [stacked.stack]
  exact above _ _ (by simp only; omega)

theorem Handling.pushes (h : Handling M K1 K0 c p tf m) {xs : List Push}
    (out : m.pushes c xs = some m') :
    Handling M K1 K0 c p tf m' ∧
      Stacked c p (fun _ => False) (stored xs) m.kernel.pmap m'.kernel.pmap := by
  obtain ⟨a, here⟩ := h.here
  obtain ⟨serving, stacked⟩ := h.toServing.pushes here out
  exact ⟨h.stacked serving (fun f i high => stored_above xs f high) stacked, stacked⟩

/-- A call that changes another place. -/
theorem Handling.moves (h : Handling M K1 K0 c p tf m) (serving : Serving M K1 K0 c m')
    {x : Place EnvIdx} {v : Option (Nat × Nat)} (off : uxplace c ≠ x)
    (moves : Moves m.kernel.pmap m'.kernel.pmap x v) :
    Handling M K1 K0 c p tf m' ∧ m'.kernel.pmap.mem p = m.kernel.pmap.mem p := by
  obtain ⟨a, here⟩ := h.here
  have data := moves.data _ p a off here
  refine ⟨⟨serving, ⟨a, (moves.off _ off).trans here⟩, ?_⟩, data⟩
  rw [← h.frame]
  funext i
  unfold frameOn
  rw [data]

theorem uxplace_ne_ucow : uxplace c ≠ (c, ucowPage) :=
  fun eq => absurd (Prod.mk.inj eq).2 (by decide)

theorem Handling.load (h : Handling M K1 K0 c p tf m)
    (out : m.loadWord c (uxframe + 8 + 8 * Trapframe.stval) = some va) :
    va = tf Trapframe.stval := by
  obtain ⟨r, goes, out⟩ := Option.bind_eq_some_iff.mp out
  obtain rfl := Option.some.inj out
  obtain ⟨perm, there, -⟩ := translate_place h.live (by decide) goes
  obtain ⟨a, here⟩ := h.here
  obtain ⟨rfl, -⟩ := Prod.mk.inj (Option.some.inj (there.symm.trans here))
  rw [← h.frame]
  rfl

theorem ownPerm_store (perm : Nat) : permits (ownPerm perm ||| pteV) .store := by
  have bits : ownPerm perm ||| pteV =
      perm &&& uIntNot pteCow ||| (pteR ||| pteW ||| pteU ||| pteV) := by
    unfold ownPerm
    rw [Nat.or_assoc]
  have set {bit : Nat} (small : (pteR ||| pteW ||| pteU ||| pteV) &&& bit ≠ 0) :
      (ownPerm perm ||| pteV) &&& bit ≠ 0 := by
    rw [bits, Nat.and_or_distrib_right]
    intro zero
    exact small (Nat.or_eq_zero_iff.mp zero).2
  exact ⟨set (by decide), set (by decide), set (by decide)⟩

theorem ownPerm_lt {perm : Nat} (small : perm < 0x400) : ownPerm perm < 0x400 := by
  have masked : perm &&& uIntNot pteCow < 2 ^ 10 := Nat.lt_of_le_of_lt Nat.and_le_left small
  exact Nat.or_lt_two_pow masked (by decide)

/-- The copy is there, and not filled yet. -/
structure Fresh (M K1 K0 : Nat → Prop) (c : EnvIdx) (p q : Nat) (code : CowCode) (tf : Trapframe)
    (m m' : Machine) : Prop extends Handling M K1 K0 c p tf m' where
  copy : ∃ b, m'.kernel.pmap.place (c, ucowPage) = some (q, b)
  apart : p ≠ q
  ref : m'.kernel.pmap.ppRef q = 1
  off : ∀ y, y ≠ uxplace c → y ≠ (c, ucowPage) → m'.kernel.pmap.place y = m.kernel.pmap.place y
  stack : m'.kernel.pmap.mem p = stored (code.prologue :: code.looked) (m.kernel.pmap.mem p)
  data : ∀ y r d, y ≠ uxplace c → y ≠ (c, ucowPage) → m.kernel.pmap.place y = some (r, d) →
    r ≠ q ∧ (r ≠ p → m'.kernel.pmap.mem r = m.kernel.pmap.mem r)

/-- Up to the first system call. -/
theorem Handling.fresh (h : Handling M K1 K0 c p tf m) {m₁ m₂ : Machine} {perm : Nat}
    (small : perm < 0x400) (prologue : m.push c code.prologue = some m₁)
    (looked : m₁.pushes c code.looked = some m₂)
    (alloc : m₂.ecall dev (code.regs 0) 6 0 ucow perm 0 0 = some m') (done : ¬ m'.result < 0) :
    Handling M K1 K0 c p tf m₁ ∧ ∃ q, Fresh M K1 K0 c p q code tf m m' := by
  obtain ⟨a, here⟩ := h.here
  obtain ⟨-, serving₁, stacked₁⟩ := h.push (W := fun _ => False) here prologue
  have h₁ := h.stacked serving₁ (fun f i high => stored_above [code.prologue] f high) stacked₁
  obtain ⟨h₂, stacked₂⟩ := h₁.pushes looked
  have before := Stacked.trans (f := code.prologue.store) here stacked₁ stacked₂
  obtain ⟨serving, q, moves, fresh, ref⟩ := h₂.allocs small alloc done
  obtain ⟨h', kept⟩ := h₂.moves serving uxplace_ne_ucow moves
  obtain ⟨a₂, here₂⟩ := h₂.here
  refine ⟨h₁, q, h', ⟨_, moves.here⟩, ?_, ref, fun y ny nc => ?_, ?_, fun y r d ny nc there => ?_⟩
  · rintro rfl
    exact fresh _ a₂ uxplace_ne_ucow here₂
  · exact (moves.off y nc).trans (before.off y ny)
  · rw [kept, before.stack]
    rfl
  · have there₂ := (before.off y ny).trans there
    refine ⟨?_, fun stack => ?_⟩
    · rintro rfl
      exact fresh y d nc there₂
    · rw [moves.data y r d nc there₂, before.data y r d there stack id]

/-- `memcpy`, and the stores up to the second system call. -/
theorem Fresh.filled (h : Fresh M K1 K0 c p q code tf m m') {m₁ m₂ : Machine}
    (copying : m'.copyWords c code va 1024 = some m₁) (copied : m₁.pushes c code.copied = some m₂) :
    Handling M K1 K0 c p tf m₂ ∧ (∃ b, m₂.kernel.pmap.place (c, ucowPage) = some (q, b)) ∧
      m₂.kernel.pmap.ppRef q = 1 ∧
      (va < ulim → placeOf c va ≠ uxplace c → placeOf c va ≠ (c, ucowPage) →
        ∀ r d, m.kernel.pmap.place (placeOf c va) = some (r, d) →
        ∀ k < 1024, wordOf (m₂.kernel.pmap.mem q) k =
          wordOf (if r = p then code.stack (m.kernel.pmap.mem p) k
            else m.kernel.pmap.mem r) k) := by
  obtain ⟨a, here⟩ := h.here
  obtain ⟨b, copy⟩ := h.copy
  obtain ⟨serving₁, stacked₁⟩ := h.toServing.copies here copy h.apart le_rfl copying
  have h₁ := h.stacked serving₁ (fun f i high => words_above code f 1024 high) stacked₁
  have copy₁ := (stacked₁.off _ uxplace_ne_ucow.symm).trans copy
  obtain ⟨h₂, stacked₂⟩ := h₁.pushes copied
  refine ⟨h₂, ⟨b, (stacked₂.off _ uxplace_ne_ucow.symm).trans copy₁⟩, ?_,
    fun hva ny nc r d there k lt => ?_⟩
  · rw [stacked₂.refs, stacked₁.refs, h.ref]
  obtain ⟨ne, data⟩ := h.data _ r d ny nc there
  have there' := (h.off _ ny nc).trans there
  rw [stacked₂.data _ q b copy₁ h.apart.symm id,
    h.toServing.copied here copy h.apart hva there' ne le_rfl copying lt]
  unfold seen
  split
  · rw [h.stack]
    rfl
  · rename_i stack
    rw [data stack]

/-- What `cow_entry` does for the store at `va`, if it comes to its end. -/
structure Served (M K1 K0 : Nat → Prop) (c : EnvIdx) (p : Nat) (code : CowCode) (tf : Trapframe)
    (va : Nat) (m m' : Machine) : Prop extends Serving M K1 K0 c m' where
  legal : ¬ isIllegalVa va
  restored : m'.restored = some (tf.set 10 (intToULong (uIntToInt (uInt (tf 10)))))
  free : m'.kernel.pmap.place (c, ucowPage) = none
  page : va / 4096 ≠ ucowPage → ∀ r d, m.kernel.pmap.place (placeOf c va) = some (r, d) →
    ∃ q perm, m'.kernel.pmap.place (placeOf c va) = some (q, perm) ∧ permits perm .store ∧
      ∀ k < 1024, wordOf (m'.kernel.pmap.mem q) k =
        wordOf (if r = p then code.stack (m.kernel.pmap.mem p) k else m.kernel.pmap.mem r) k

theorem cowEntry_some (out : m.cowEntry dev c code = some m') :
    ∃ m₁ va pte m₂ m₃ m₄ m₅ m₆ m₇ m₈ m₉, m.push c code.prologue = some m₁ ∧
      m₁.loadWord c (m.kstack 10 + 8 * Trapframe.stval) = some va ∧
      m₁.pushes c code.looked = some m₂ ∧
      m₂.ecall dev (code.regs 0) 6 0 ucow (ownPerm (pte &&& ptePerm)) 0 0 = some m₃ ∧
      ¬ m₃.result < 0 ∧ m₃.copyWords c code va 1024 = some m₄ ∧
      m₄.pushes c code.copied = some m₅ ∧
      m₅.ecall dev (code.regs 1) 7 0 ucow 0 va (ownPerm (pte &&& ptePerm)) = some m₆ ∧
      ¬ m₆.result < 0 ∧ m₆.pushes c code.mapped = some m₇ ∧
      m₇.ecall dev (code.regs 2) 8 0 ucow 0 0 0 = some m₈ ∧
      m₈.pushes c code.unmapped = some m₉ ∧
      m₉.ecall dev (code.regs 3) 11 0 (m.kstack 10) 0 0 0 = some m' := by
  unfold Machine.cowEntry at out
  obtain ⟨m₁, prologue, out⟩ := Option.bind_eq_some_iff.mp out
  obtain ⟨va, load, out⟩ := Option.bind_eq_some_iff.mp out
  obtain ⟨pte, -, out⟩ := Option.bind_eq_some_iff.mp out
  dsimp only at out
  split at out
  · cases out
  obtain ⟨m₂, looked, out⟩ := Option.bind_eq_some_iff.mp out
  obtain ⟨m₃, alloc, out⟩ := Option.bind_eq_some_iff.mp out
  split at out
  · cases out
  rename_i allocated
  obtain ⟨m₄, copying, out⟩ := Option.bind_eq_some_iff.mp out
  obtain ⟨m₅, copied, out⟩ := Option.bind_eq_some_iff.mp out
  obtain ⟨m₆, map, out⟩ := Option.bind_eq_some_iff.mp out
  split at out
  · cases out
  rename_i done
  obtain ⟨m₇, mapped, out⟩ := Option.bind_eq_some_iff.mp out
  obtain ⟨m₈, unmap, out⟩ := Option.bind_eq_some_iff.mp out
  obtain ⟨m₉, unmapped, out⟩ := Option.bind_eq_some_iff.mp out
  exact ⟨m₁, va, pte, m₂, m₃, m₄, m₅, m₆, m₇, m₈, m₉, prologue, load, looked, alloc, allocated,
    copying, copied, map, done, mapped, unmap, unmapped, out⟩

theorem Handling.serves (h : Handling M K1 K0 c p tf m) (words : ∀ i, tf i < 2 ^ 64)
    (given : m.kstack 10 = uxframe + 8) (off : placeOf c (tf Trapframe.stval) ≠ uxplace c)
    (out : m.cowEntry dev c code = some m') :
    Served M K1 K0 c p code tf (tf Trapframe.stval) m m' := by
  obtain ⟨m₁, va, pte, m₂, m₃, m₄, m₅, m₆, m₇, m₈, m₉, prologue, load, looked, alloc, allocated,
    copying, copied, map, done, mapped, unmap, unmapped, out⟩ := cowEntry_some out
  rw [given] at load out
  have small : ownPerm (pte &&& ptePerm) < 0x400 :=
    ownPerm_lt (Nat.lt_of_le_of_lt Nat.and_le_right (by decide))
  obtain ⟨h₁, q, h₃⟩ := h.fresh small prologue looked alloc allocated
  obtain rfl := h₁.load load
  obtain ⟨h₅, ⟨b, copy₅⟩, ref₅, data₅⟩ := h₃.filled copying copied
  -- the copy at its place
  obtain ⟨legal, serving₆, moves₆, kept₆⟩ := h₅.maps small copy₅ (by rw [ref₅]; decide) map done
  obtain ⟨h₆, -⟩ := h₅.moves serving₆ off.symm moves₆
  obtain ⟨h₇, stacked₇⟩ := h₆.pushes mapped
  obtain ⟨serving₈, moves₈⟩ := h₇.unmaps unmap
  obtain ⟨h₈, -⟩ := h₇.moves serving₈ uxplace_ne_ucow moves₈
  obtain ⟨h₉, stacked₉⟩ := h₈.pushes unmapped
  -- and back
  obtain ⟨a₉, here₉⟩ := h₉.here
  obtain ⟨m'', back, same, restored⟩ := h₉.returns dev (code.regs 3) here₉
    (by rw [h₉.frame]; exact words)
  obtain rfl := Option.some.inj (back.symm.trans out)
  rw [h₉.frame] at restored
  refine ⟨⟨?_, ?_⟩, legal, restored, ?_, fun apart r d there => ?_⟩
  · rw [same]
    exact h₉.secure
  · rw [same]
    exact h₉.current
  · rw [same]
    exact (stacked₉.off _ uxplace_ne_ucow.symm).trans moves₈.here
  have other : placeOf c (tf Trapframe.stval) ≠ (c, ucowPage) := fun eq =>
    apart (Prod.mk.inj eq).2
  have ne : q ≠ p := h₃.apart.symm
  have there₇ := (stacked₇.off _ off).trans moves₆.here
  have there₈ := (moves₈.off _ other).trans there₇
  refine ⟨q, _, ?_, ownPerm_store (pte &&& ptePerm), fun k lt => ?_⟩
  · rw [same]
    exact (stacked₉.off _ off).trans there₈
  have data : m''.kernel.pmap.mem q = m₅.kernel.pmap.mem q := by
    rw [same, stacked₉.data _ q _ there₈ ne id, moves₈.data _ q _ other there₇,
      stacked₇.data _ q _ moves₆.here ne id, kept₆]
  rw [data]
  exact data₅ (Kernel.lt_ulim_of_not_illegal legal) off other r d there k lt

end

end Machine

end RiscvMos
