import RiscvMos.User.CowTransparent
import RiscvMos.Env.MemCalls
import RiscvMos.Pmap.Spend

/-!
How `cow_entry` gets to its end: its stores go to a stack that it can store to, and its
calls find their pages.
-/

namespace RiscvMos.Machine

open Pmap Forks

section
variable {M K1 K0 : Nat → Prop} {c : EnvIdx} {m m' : Machine} {s s₁ s' : Pmap EnvIdx}
    {code : CowCode} {tf : Trapframe} {va p q r n cow : Nat}

/-- Only pages that are no tables have changed. -/
structure SameEntries (s s' : Pmap EnvIdx) : Prop where
  ent : s'.ent = s.ent
  free : s'.pageFreeList = s.pageFreeList
  refs : s'.ppRef = s.ppRef

theorem SameEntries.trans (h : SameEntries s s₁) (h' : SameEntries s₁ s') : SameEntries s s' :=
  ⟨h'.ent.trans h.ent, h'.free.trans h.free, h'.refs.trans h.refs⟩

theorem SameEntries.place (h : SameEntries s s') (y : Place EnvIdx) : s'.place y = s.place y := by
  unfold Pmap.place view
  rw [h.ent]

theorem SameEntries.mirrored (h : SameEntries s s') (mirrored : Mirrored c s) : Mirrored c s' :=
  mirrored.of_ent fun x _ => congrFun h.ent x

/-- The handler can store to its stack. -/
structure Able (M K1 K0 : Nat → Prop) (c : EnvIdx) (p : Nat) (tf : Trapframe) (m : Machine) : Prop
    extends Handling M K1 K0 c p tf m where
  stack : ∃ a, m.kernel.pmap.place (uxplace c) = some (p, a) ∧ permits a .store

theorem Able.of_place (h : Able M K1 K0 c p tf m) (handling : Handling M K1 K0 c p tf m')
    (same : m'.kernel.pmap.place (uxplace c) = m.kernel.pmap.place (uxplace c)) :
    Able M K1 K0 c p tf m' := by
  obtain ⟨a, here, permitted⟩ := h.stack
  exact ⟨handling, a, same.trans here, permitted⟩

theorem Able.push (h : Able M K1 K0 c p tf m) (x : Push) :
    ∃ m', m.push c x = some m' ∧ Able M K1 K0 c p tf m' ∧
      SameEntries m.kernel.pmap m'.kernel.pmap := by
  obtain ⟨a, here, permitted⟩ := h.stack
  have goes := place_translate (uxword_lt x) ((uxword_place x).symm ▸ here) permitted
  have apart : ¬ m.kernel.pmap.TablePage p := h.userApart.place here
  have out : m.push c x = some { m with kernel := { m.kernel with
      pmap := m.kernel.pmap.storeWord p (uxword x.i) x.w } } := by
    unfold Machine.push
    dsimp only
    rw [goes]
    dsimp only
    rw [access_store h.current goes]
    rfl
  have kept : SameEntries m.kernel.pmap (m.kernel.pmap.storeWord p (uxword x.i) x.w) :=
    ⟨writePage_ent apart _, rfl, rfl⟩
  obtain ⟨-, serving, stacked⟩ := h.toServing.push (W := fun _ => False) here out
  have handling := h.stacked serving (fun f i high => stored_above [x] f high) stacked
  exact ⟨_, out, h.of_place handling (kept.place _), kept⟩

theorem Able.pushes (h : Able M K1 K0 c p tf m) (xs : List Push) :
    ∃ m', m.pushes c xs = some m' ∧ Able M K1 K0 c p tf m' ∧
      SameEntries m.kernel.pmap m'.kernel.pmap := by
  induction xs generalizing m with
  | nil => exact ⟨m, rfl, h, rfl, rfl, rfl⟩
  | cons x xs ih =>
    obtain ⟨m₁, first, h₁, kept₁⟩ := h.push x
    obtain ⟨m', rest, h', kept⟩ := ih h₁
    refine ⟨m', ?_, h', kept₁.trans kept⟩
    unfold Machine.pushes
    rw [List.foldlM_cons, first]
    exact rest

theorem permits_load {perm : Nat} (h : permits perm .store) : permits perm .load := ⟨h.1, h.2.1⟩

theorem Able.load (h : Able M K1 K0 c p tf m) :
    m.loadWord c (uxframe + 8 + 8 * Trapframe.stval) = some (tf Trapframe.stval) := by
  obtain ⟨a, here, permitted⟩ := h.stack
  have goes : m.kernel.pmap.translate c .load (uxframe + 8 + 8 * Trapframe.stval) = some p :=
    place_translate (by decide) here (permits_load permitted)
  have out : m.loadWord c (uxframe + 8 + 8 * Trapframe.stval) =
      some (m.kernel.pmap.mem p (wordIdx (uxframe + 8 + 8 * Trapframe.stval))) := by
    unfold Machine.loadWord
    rw [goes]
    rfl
  rw [out, h.toHandling.load out]

theorem SameEntries.pages (h : SameEntries s s') (pages : CopyPages s c va r q) :
    CopyPages s' c va r q := by
  obtain ⟨a, src, reads⟩ := pages.src
  obtain ⟨b, dst, writes⟩ := pages.dst
  refine ⟨pages.user, ⟨a, (h.place _).trans src, reads⟩, ⟨b, (h.place _).trans dst, writes⟩, ?_,
    pages.ne⟩
  rintro ⟨x, table, leads⟩
  exact pages.apart ⟨x, table, by rw [← leads, tgt_eq_of_ent h.ent]⟩

theorem Able.copies (h : Able M K1 K0 c p tf m) (code : CowCode)
    (pages : CopyPages m.kernel.pmap c va r q) (ne : p ≠ q) (le : n ≤ 1024) :
    ∃ m', m.copyWords c code va n = some m' ∧ Able M K1 K0 c p tf m' ∧
      SameEntries m.kernel.pmap m'.kernel.pmap := by
  induction n with
  | zero => exact ⟨m, rfl, h, rfl, rfl, rfl⟩
  | succ n ih =>
    obtain ⟨m₁, before, h₁, kept₁⟩ := ih (Nat.le_of_succ_le le)
    obtain ⟨m₂, pushed, h₂, kept₂⟩ := h₁.pushes (code.word n)
    have kept := kept₁.trans kept₂
    have word := (kept.pages pages).word le
    generalize copyHalf _ _ n = w at word
    have out : m.copyWords c code va (n + 1) = some { m₂ with kernel := { m₂.kernel with
        pmap := m₂.kernel.pmap.setPte q (wordIdx (ucow + 4 * n)) w } } := by
      unfold copyWords
      rw [before, Option.bind_eq_bind, Option.bind_some, pushed, Option.bind_eq_bind,
        Option.bind_some, word]
      rfl
    have written : SameEntries m.kernel.pmap
        (m₂.kernel.pmap.setPte q (wordIdx (ucow + 4 * n)) w) :=
      kept.trans ⟨writePage_ent (kept.pages pages).apart _, rfl, rfl⟩
    obtain ⟨a, here, -⟩ := h.stack
    obtain ⟨b, copy, -⟩ := pages.dst
    obtain ⟨serving, stacked⟩ := h.toServing.copies here copy ne le out
    have handling := h.stacked serving (fun f i high => words_above code f (n + 1) high) stacked
    exact ⟨_, out, h.of_place handling (written.place _), written⟩

/-! ## System calls -/

theorem ecall_plain_ok (dev : Devices) (regs : Trapframe) (no arg1 arg2 arg3 arg4 arg5 : Nat)
    (small : no < 21) {f : Kernel → Except Halt (Int × Kernel)}
    (plain : ∀ m : Machine, m.call dev no arg1 arg2 arg3 arg4 arg5 = m.plain (f m.kernel))
    {r : Int} {k : Kernel} (called : f m.kernel = .ok (r, k)) :
    ∃ m', m.ecall dev regs no arg1 arg2 arg3 arg4 arg5 = some m' ∧
      m'.result = uIntToInt (uInt (intToULong r)) := by
  rw [ecall_plain small plain, called]
  exact ⟨_, rfl, back_result r⟩

theorem liftPmap_of {k : Kernel} {x : Except Halt (Reply EnvIdx)} {r : Int}
    (h : x = .ok (r, s)) : k.liftPmap x = .ok (r, { k with pmap := s }) :=
  Except.bind_ok_iff.mpr ⟨_, h, rfl⟩

variable (dev : Devices) (regs : Trapframe) {perm : Nat}

theorem Able.alloc (h : Able M K1 K0 c p tf m) (small : perm < 0x400)
    (many : 9 ≤ m.kernel.pmap.pageFreeList.length) :
    ∃ m', m.ecall dev regs 6 0 ucow perm 0 0 = some m' ∧ ¬ m'.result < 0 ∧
      Able M K1 K0 c p tf m' ∧ ∃ q, p ≠ q ∧ m'.kernel.pmap.ppRef q = 1 ∧
      Moves m.kernel.pmap m'.kernel.pmap (c, ucowPage) (some (q, perm ||| pteV)) ∧
      ∀ y b, y ≠ (c, ucowPage) → m.kernel.pmap.place y ≠ some (q, b) := by
  have hva : ucow < ulim := by decide
  obtain ⟨r, s, alloc⟩ := allocPageUser_returns (d := c) h.consistent hva small
  obtain ⟨rfl, -, -⟩ := allocPageUser_plenty h.live many alloc
  have called : m.kernel.sysMemAlloc 0 ucow perm = .ok (0, { m.kernel with pmap := s }) := by
    rw [Kernel.sysMemAlloc_self h.current (by decide),
      show uInt perm = perm from Nat.mod_eq_of_lt (small.trans (by decide))]
    exact liftPmap_of alloc
  obtain ⟨m', out, result⟩ := ecall_plain_ok dev regs 6 0 ucow perm 0 0 (by decide)
    (f := fun k => k.sysMemAlloc 0 ucow perm) (fun _ => rfl) called
  have done : ¬ m'.result < 0 := by
    rw [result, result_zero]
    decide
  obtain ⟨serving, q, moves, fresh, ref⟩ := h.toServing.allocs small out done
  obtain ⟨handling, -⟩ := h.moves serving uxplace_ne_ucow moves
  refine ⟨m', out, done, h.of_place handling (moves.off _ uxplace_ne_ucow), q, ?_, ref, moves,
    fresh⟩
  rintro rfl
  obtain ⟨a, here, -⟩ := h.stack
  exact fresh _ a uxplace_ne_ucow here

theorem mappablePa_inRam {pa : Nat} (h : inRam (pa / 4096)) : mappablePa pa := by
  left
  unfold inRam kernbase memorySize at *
  omega

theorem Able.map (h : Able M K1 K0 c p tf m) (small : perm < 0x400) (legal : ¬ isIllegalVa va)
    (off : placeOf c va ≠ uxplace c) {b d : Nat}
    (copy : m.kernel.pmap.place (c, ucowPage) = some (q, b)) (ref : m.kernel.pmap.ppRef q = 1)
    (there : m.kernel.pmap.place (placeOf c va) = some (r, d)) :
    ∃ m', m.ecall dev regs 7 0 ucow 0 va perm = some m' ∧ ¬ m'.result < 0 ∧
      Able M K1 K0 c p tf m' := by
  have hva := Kernel.lt_ulim_of_not_illegal legal
  have hv := not_shared_of_user hva
  obtain ⟨mapped, pa⟩ := getPa_page (show ucow < ulim by decide) copy
  have ram : inRam q := h.consistent.ram q (h.consistent.mem_of_tgt (tgt_of_place copy))
  obtain ⟨r', s, map, enough, -⟩ := mapPageUser_code (d := c) h.consistent hva small
    (mappablePa_inRam (pa ▸ ram))
  have found : m.kernel.pmap.missing c va = 0 := by
    refine missing_of_view hv ?_
    rw [← place_of_view hva, there]
    exact Option.some_ne_none _
  have none_ : m.kernel.pmap.pagesNeeded c va = 0 := by
    simp only [pagesNeeded, found]
  obtain rfl := enough.mpr (none_ ▸ Nat.zero_le _)
  have called : m.kernel.sysMemMap 0 ucow 0 va perm = .ok (0, { m.kernel with pmap := s }) := by
    rw [Kernel.sysMemMap_self h.current (by decide) legal mapped,
      show uInt perm = perm from Nat.mod_eq_of_lt (small.trans (by decide))]
    exact liftPmap_of map
  obtain ⟨m', out, result⟩ := ecall_plain_ok dev regs 7 0 ucow 0 va perm (by decide)
    (f := fun k => k.sysMemMap 0 ucow 0 va perm) (fun _ => rfl) called
  have done : ¬ m'.result < 0 := by
    rw [result, result_zero]
    decide
  obtain ⟨-, serving, moves, -⟩ :=
    h.toServing.maps small copy (by rw [ref]; decide) out done
  obtain ⟨handling, -⟩ := h.moves serving off.symm moves
  exact ⟨m', out, done, h.of_place handling (moves.off _ off.symm)⟩

theorem Able.unmap (h : Able M K1 K0 c p tf m) :
    ∃ m', m.ecall dev regs 8 0 ucow 0 0 0 = some m' ∧ Able M K1 K0 c p tf m' := by
  obtain ⟨s, unmap, -⟩ := unmapPage_ok (d := c) h.consistent
    (not_shared_of_user (show ucow < ulim by decide)) (by decide)
  have called : m.kernel.sysMemUnmap 0 ucow = .ok (0, { m.kernel with pmap := s }) := by
    rw [Kernel.sysMemUnmap_self h.current (by decide)]
    exact liftPmap_of unmap
  obtain ⟨m', out, -⟩ := ecall_plain_ok dev regs 8 0 ucow 0 0 0 (by decide)
    (f := fun k => k.sysMemUnmap 0 ucow) (fun _ => rfl) called
  obtain ⟨serving, moves⟩ := h.toServing.unmaps out
  obtain ⟨handling, -⟩ := h.moves serving uxplace_ne_ucow moves
  exact ⟨m', out, h.of_place handling (moves.off _ uxplace_ne_ucow)⟩

theorem Able.returns (h : Able M K1 K0 c p tf m) (words : ∀ i, tf i < 2 ^ 64) :
    ∃ m', m.ecall dev regs 11 0 (uxframe + 8) 0 0 0 = some m' := by
  obtain ⟨a, here, -⟩ := h.stack
  obtain ⟨m', out, -⟩ := h.toServing.returns dev regs here (by
    rw [h.frame]
    exact words)
  exact ⟨m', out⟩

/-- Where the page can be read and 9 pages are free, `cow_entry` comes to its end. -/
theorem Able.cowEntry (h : Able M K1 K0 c p tf m) (code : CowCode) (words : ∀ i, tf i < 2 ^ 64)
    (given : m.kstack 10 = uxframe + 8) (mirrored : Mirrored c m.kernel.pmap)
    (many : 9 ≤ m.kernel.pmap.pageFreeList.length) (legal : ¬ isIllegalVa (tf Trapframe.stval))
    (off : placeOf c (tf Trapframe.stval) ≠ uxplace c)
    (apart : placeOf c (tf Trapframe.stval) ≠ (c, ucowPage)) {d : Nat}
    (there : m.kernel.pmap.place (placeOf c (tf Trapframe.stval)) = some (r, d))
    (cow : d &&& pteCow ≠ 0) (read : permits d .load) : ∃ m', m.cowEntry dev c code = some m' := by
  have hva := Kernel.lt_ulim_of_not_illegal legal
  obtain ⟨m₁, prologue, h₁, kept₁⟩ := h.push code.prologue
  have load := h₁.load
  have there₁ := (kept₁.place _).trans there
  obtain ⟨pte, shown, rfl⟩ := pt0_place ((kept₁.mirrored mirrored).agrees h₁.live) hva there₁
  have small : ownPerm (pte &&& ptePerm) < 0x400 :=
    ownPerm_lt (Nat.lt_of_le_of_lt Nat.and_le_right (by decide))
  obtain ⟨m₂, looked, h₂, kept₂⟩ := h₁.pushes code.looked
  have kept := kept₁.trans kept₂
  obtain ⟨m₃, alloc, done₃, h₃, q, ne, ref, moves, fresh⟩ :=
    h₂.alloc dev (code.regs 0) small (kept.free ▸ many)
  have there₂ := (kept.place _).trans there
  have there₃ := (moves.off _ apart).trans there₂
  have pages : CopyPages m₃.kernel.pmap c (tf Trapframe.stval) r q := by
    refine ⟨hva, ⟨_, there₃, read⟩, ⟨_, moves.here, ownPerm_store _⟩,
      h₃.userApart.place moves.here, ?_⟩
    rintro rfl
    exact fresh _ _ apart there₂
  obtain ⟨m₄, copying, h₄, kept₄⟩ := h₃.copies code pages ne le_rfl
  obtain ⟨m₅, copied, h₅, kept₅⟩ := h₄.pushes code.copied
  have kept := kept₄.trans kept₅
  obtain ⟨m₆, map, done₆, h₆⟩ := h₅.map dev (code.regs 1) small legal off
    ((kept.place _).trans moves.here) ((congrFun kept.refs q).trans ref)
    ((kept.place _).trans there₃)
  obtain ⟨m₇, mapped, h₇, -⟩ := h₆.pushes code.mapped
  obtain ⟨m₈, unmap, h₈⟩ := h₇.unmap dev (code.regs 2)
  obtain ⟨m₉, unmapped, h₉, -⟩ := h₈.pushes code.unmapped
  obtain ⟨m', returns⟩ := h₉.returns dev (code.regs 3) words
  refine ⟨m', ?_⟩
  simp only [Machine.cowEntry, Option.bind_eq_bind, given, prologue, load, shown, looked, alloc,
    copying, copied, map, mapped, unmap, unmapped, returns, Option.bind_some, if_neg cow,
    if_neg done₃, if_neg done₆]

/-! ## The way in -/

theorem storeFrame_of (hs : Consistent M s) {a : Nat} (here : s.place (uxplace c) = some (p, a)) :
    s.storeFrame c tf = .ok (s.writePage p (frameWords tf (s.mem p))) := by
  obtain ⟨-, page⟩ := getPa_page (show uxframe < ulim by decide) here
  have ram : inRam p := hs.ram p (hs.mem_of_tgt (tgt_of_place here))
  have shifted : s.getPa c uxframe >>> 12 = p := by
    rw [Nat.shiftRight_eq_div_pow]
    exact page
  unfold storeFrame
  dsimp only
  rw [shifted, if_pos ram]
  rfl

/-- With 18 pages, 9 are left, and the stack is there. -/
theorem enterCow_some (hr : FaultReady M K1 K0 s c) (mirrored : Mirrored c s)
    (many : 18 ≤ s.pageFreeList.length)
    (stack : s.isMappedPage c uxframe = true → permits (s.getPerm c uxframe) .store) :
    ∃ s', s.enterCow c tf = .ok s' ∧ Mirrored c s' ∧ 9 ≤ s'.pageFreeList.length ∧
      ∃ p a, s'.place (uxplace c) = some (p, a) ∧ permits a .store := by
  have hva : uxframe < ulim := by decide
  have hlt : uxframe < 2 ^ 39 := by decide
  have hv := not_shared_of_user hva
  -- the frame goes to no table
  have pushed {m : Pmap EnvIdx} {p a : Nat} (hs : Consistent M m) (hu : m.UserApart)
      (mirrored : Mirrored c m) (here : m.place (uxplace c) = some (p, a)) :
      m.storeFrame c tf = .ok (m.writePage p (frameWords tf (m.mem p))) ∧
        Mirrored c (m.writePage p (frameWords tf (m.mem p))) ∧
        (m.writePage p (frameWords tf (m.mem p))).place (uxplace c) = some (p, a) := by
    have apart : ¬ m.TablePage p := hu.place here
    exact ⟨storeFrame_of hs here,
      mirrored.of_ent fun x _ => congrFun (writePage_ent apart _) x,
      (writePage_place apart _ _).trans here⟩
  unfold Pmap.enterCow
  split
  · obtain ⟨r, m, alloc⟩ :=
      allocPageUser_returns (d := c) hr.consistent hva (show demandPerm < 0x400 by decide)
    obtain ⟨rfl, allocs, taken⟩ := allocPageUser_plenty hr.live (by omega) alloc
    obtain ⟨q, moves, -⟩ := allocPageUser_moves hr.consistent hr.userApart hva hr.live alloc
    have viewed : Viewed M c s := ⟨hr.consistent, hr.userApart, hr.live, mirrored⟩
    have step : MapStep s (.allocPageUser c uxframe demandPerm) m := .allocPageUser hva allocs alloc
    have counts : MapOp.Counts s (.allocPageUser c uxframe demandPerm) := trivial
    obtain ⟨hs, hu, -, mirrored'⟩ := viewed.step counts step
    obtain ⟨store, mirrored'', here⟩ := pushed hs hu mirrored' moves.here
    exact ⟨_, Except.bind_ok_iff.mpr ⟨_, alloc, store⟩, mirrored'', by
      show 9 ≤ m.pageFreeList.length
      omega, q, _, here, by decide⟩
  · rename_i mapped
    have mapped : s.isMappedPage c uxframe = true := by simpa using mapped
    obtain ⟨a, view⟩ := view_of_isMappedPage hv mapped
    have permitted := stack mapped
    rw [getPerm_of_view hv view] at permitted
    obtain ⟨store, mirrored', here⟩ :=
      pushed hr.consistent hr.userApart mirrored ((place_of_view hva).trans view)
    exact ⟨_, store, mirrored', by
      show 9 ≤ s.pageFreeList.length
      omega, _, a, here, permitted⟩

/-- The handler is `cow_entry`, the window shows the tables, the page can be read, the
exception stack can be stored to if it is there, and 18 pages are free. -/
structure Roomy (c : EnvIdx) (cow : Nat) (tf : Trapframe) (k : Kernel) : Prop where
  entry : (k.envs c).envUserTlbModEntry = cow
  mirrored : Mirrored c k.pmap
  legal : ¬ isIllegalVa (tf Trapframe.stval)
  apart : tf Trapframe.stval / 4096 ≠ ucow / 4096
  read : permits (k.pmap.getPerm c (tf Trapframe.stval)) .load
  stack : k.pmap.isMappedPage c uxframe = true → permits (k.pmap.getPerm c uxframe) .store
  many : 18 ≤ k.pmap.pageFreeList.length

theorem Faults.comesBack (h : Faults M K1 K0 c tf m) (room : Roomy c cow tf m.kernel) :
    ∃ m', m.cowFault dev cow code tf = some m' := by
  have hva := Kernel.lt_ulim_of_not_illegal room.legal
  have hv := not_shared_of_user hva
  have range : ¬ (tf Trapframe.stval < 0x3000 ∨ 0x200000000 ≤ tf Trapframe.stval) := by
    have legal := room.legal
    unfold isIllegalVa utemp utop ulim at legal
    omega
  obtain ⟨s, enter, mirrored, many, p', a', here', permitted⟩ :=
    enterCow_some (h.secure.faultReady h.current) room.mirrored room.many room.stack
  have handled : m.kernel.handleException .store (tf Trapframe.stval) tf =
      .ok (.entry cow, { m.kernel with pmap := s }) := by
    unfold Kernel.handleException
    split
    · rename_i none_
      cases h.current.symm.trans none_
    rename_i e he
    obtain rfl := Option.some.inj (h.current.symm.trans he)
    refine Except.bind_ok_iff.mpr ⟨(true, s), ?_, ?_⟩
    · unfold handleFault
      rw [if_neg range, if_pos h.mapped, if_neg (by decide), if_pos h.cow]
      exact Except.bind_ok_iff.mpr ⟨s, enter, rfl⟩
    · rw [← room.entry]
      rfl
  obtain ⟨p, entered, handling⟩ := h.enters handled
  have stack : s.place (uxplace c) = some (p, a') := by
    obtain ⟨a, here⟩ := entered.here
    obtain ⟨rfl, -⟩ := Prod.mk.inj (Option.some.inj (here.symm.trans here'))
    exact here'
  have able := Able.mk handling ⟨a', stack, permitted⟩
  have off := h.off entered fun a here =>
    .inl ((Prod.mk.inj (Option.some.inj (here.symm.trans here'))).2 ▸ permitted)
  obtain ⟨d, view⟩ := view_of_isMappedPage hv h.mapped
  have there := (entered.off _ off).trans ((place_of_view hva).trans view)
  have bit := h.cow
  have read := room.read
  rw [getPerm_of_view hv view] at bit read
  have apart : placeOf c (tf Trapframe.stval) ≠ (c, ucowPage) := fun eq =>
    room.apart (Prod.mk.inj eq).2
  obtain ⟨m', out⟩ := able.cowEntry dev code h.words rfl mirrored many room.legal off apart there
    bit read
  refine ⟨m', Option.bind_eq_some_iff.mpr ⟨c, h.current, Option.bind_eq_some_iff.mpr
    ⟨(.entry cow, { m.kernel with pmap := s }), ?_, ?_⟩⟩⟩
  · rw [handled]
    rfl
  · exact (if_pos rfl).trans out

end

end RiscvMos.Machine
