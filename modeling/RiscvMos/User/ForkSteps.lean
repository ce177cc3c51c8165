import RiscvMos.User.ForkAccess

/-!
The steps of `fork` and `duppage`. While a page that becomes copy-on-write is
only in the child's table without `PTE_W`, the parent still writes it; what the
child will see is the page at the call for the parent.
-/

namespace RiscvMos.Forks

open Pmap CopyOnWrite

section
variable {M K1 K0 : Nat → Prop} {s s' : Forks} {c : EnvIdx} {m : Pmap EnvIdx} {k : Kernel}
    {child vpn perm : Nat}

/-! ## The rest of the kernel -/

/-- The kernel may change the env table, and what user code does not see of memory. -/
theorem Inv.kernel (h : Inv M K1 K0 s) (secure : Kernel.Secure M K1 K0 (fun _ _ => True) k)
    (stays : Stays s.kernel.pmap k.pmap) (list : k.envFreeList = s.kernel.envFreeList)
    (status : ∀ e, s.prog e = .born → (k.envs e).envStatus ≠ .runnable)
    (current : ∀ c, k.curenv = some c → (k.envs c).envStatus = .runnable) :
    Inv M K1 K0 { s with kernel := k } ∧
      Forks.memories { s with kernel := k } = s.memories := by
  refine ⟨⟨secure, h.exclusive.congr stays.place fun _ _ alias_ => alias_,
    h.library.congr stays.place, fun x p perm there => h.cow x p perm ((stays.place x).symm.trans
      there), fun x p perm there => h.stack x p perm ((stays.place x).symm.trans there),
    fun e => (h.locals e).congr (fun v => stays.place _) (fun _ _ _ _ p a _ _ there =>
      stays.data _ p a there) fun _ _ _ => stays.place _, h.children, ?_,
    fun e born => ⟨status e born, (h.born e born).2⟩, current, ?_, ?_⟩, ?_⟩
  · rw [list]
    exact h.childBorn
  · rw [list]
    exact h.free
  · rw [list]
    exact fun e he => stays.roots e (h.freed e he)
  · refine contents_same (fun y => cell_congr (stays.place y) Iff.rfl) fun y p there => ?_
    obtain ⟨-, -, -, perm, shown, -⟩ := cell_place there
    exact stays.data y p perm shown

theorem Inv.schedule (h : Inv M K1 K0 s) {yield : Bool} (hx : s.kernel.schedule yield = .ok k) :
    Inv M K1 K0 { s with kernel := k } ∧
      Forks.memories { s with kernel := k } = s.memories := by
  obtain ⟨stays, status, list, current⟩ := h.secure.schedule_stays hx
  refine h.kernel (h.secure.schedule hx) stays list (fun e born => ?_) current
  rw [status]
  exact (h.born e born).1

theorem Inv.tlbModEntry (h : Inv M K1 K0 s) {envid func : Nat} {r : Int}
    (hx : Machine.sysSetTlbModEntry s.kernel envid func = .ok (r, k)) :
    Inv M K1 K0 { s with kernel := k } ∧
      Forks.memories { s with kernel := k } = s.memories := by
  obtain ⟨envs, rfl, status⟩ := Kernel.sysSetTlbModEntry_ok hx
  refine h.kernel (h.secure.sched rfl rfl status h.secure.cur) (.refl _) rfl (fun e born => ?_)
    fun e current => ?_
  · show (envs e).envStatus ≠ _
    rw [status]
    exact (h.born e born).1
  · show (envs e).envStatus = _
    rw [status]
    exact h.current e current

/-! ## `duppage` -/

theorem shift_page (v : Nat) : v <<< 12 / 4096 = v ∧ (v <<< 12) >>> 12 = v := by
  rw [Nat.shiftLeft_eq, Nat.shiftRight_eq_div_pow]
  omega

theorem shift_lt {v : Nat} (low : v < walkedPages) : v <<< 12 < ulim := by
  rw [Nat.shiftLeft_eq]
  unfold walkedPages ustacktop utop at low
  unfold ulim at low ⊢
  omega

theorem placeOf_shift (v : Nat) : placeOf c (v <<< 12) = (c, v) := by
  rw [placeOf, (shift_page v).1]

/-- What the kernel says of a page of the walk. -/
theorem view_shift {p a : Nat} (low : vpn < walkedPages) (shown : m.place (c, vpn) = some (p, a)) :
    m.view c (vpn <<< 12) = some (p, a) ∧ m.getPa c (vpn <<< 12) / 4096 = p := by
  have view : m.view c (vpn <<< 12) = some (p, a) := by
    rw [← place_of_view (shift_lt low), placeOf_shift]
    exact shown
  refine ⟨view, ?_⟩
  rw [getPa_of_view (not_shared_of_user (shift_lt low)) view, Nat.shiftLeft_eq]
  omega

/-- The kernel and `fork` mean the same env by a child's id. -/
theorem envx_of_named {e : EnvIdx} {checkperm : Nat} (named : uInt child ≠ 0)
    (he : k.envid2env c child checkperm = .ok e) : envx child = e := by
  apply Fin.ext
  rw [← Kernel.envid2env_index named he, uInt, Nat.mod_mod_of_dvd _ (by decide : 1024 ∣ 2 ^ 32)]
  rfl

/-- The program goes on in the loop of `fork`. -/
theorem Inv.goes (h : Inv M K1 K0 s) (current : s.kernel.curenv = some c)
    (user : s.handler c = none) {prog : Prog} (runs : prog ≠ .born)
    (same : ∀ a, prog.child = some a → (s.prog c).child = some a)
    (lends : prog.lends = (s.prog c).lends) (walked : Walked s.kernel.pmap c prog) :
    Inv M K1 K0 (s.setProg c prog) ∧ (s.setProg c prog).memories = s.memories := by
  rw [setProg_self]
  exact h.stays current h.secure (.refl _) runs same (fun _ hm => hm) lends
    ⟨walked, (h.locals c).handled, fun hd va perm hh => absurd (hh.symm.trans user) (by rintro ⟨⟩)⟩

/-- `is_mapped` of the next page. -/
theorem Inv.walk (h : Inv M K1 K0 s) (current : s.kernel.curenv = some c)
    (at_ : s.prog c = .walking child vpn) (user : s.handler c = none)
    (agrees : SelfMapAgrees s.kernel.pmap c) (low : vpn < walkedPages) {cow : Nat}
    (out : s.forkStep cow c (.walking child vpn) = some s') :
    Inv M K1 K0 s' ∧ s'.memories = s.memories := by
  have here := h.locals c
  have hva := shift_lt low
  have out := (if_pos low).symm.trans out
  obtain ⟨mapped, look, out⟩ := Option.bind_eq_some_iff.mp out
  obtain rfl := Option.some.inj out
  obtain rfl := Option.some.inj ((agrees.isMapped _ hva).symm.trans look)
  have handled := here.handled
  rw [user] at handled
  have ahead := here.ahead child
  rw [at_] at ahead
  have same (a : Nat) (ha : some child = some a) : (s.prog c).child = some a := by
    rw [at_]
    exact ha
  have lends : none = (s.prog c).lends := by
    rw [at_]
    rfl
  by_cases there : s.kernel.pmap.isMappedPage c (vpn <<< 12) = true
  · rw [if_pos there]
    rw [isMappedPage_eq (not_shared_of_user hva), ← place_of_view hva, placeOf_shift] at there
    obtain ⟨⟨p, a⟩, shown⟩ := Option.isSome_iff_exists.mp there
    refine h.goes current user (by rintro ⟨⟩) same lends
      ⟨fun e v he hv => ?_, fun e v eq => ?_, ?_, ?_⟩
    · obtain rfl := Option.some.inj he
      exact ahead v rfl hv
    · obtain ⟨rfl, rfl⟩ := Prog.called.inj eq
      refine ⟨low, ?_, p, a, shown⟩
      rintro rfl
      cases handled.symm.trans shown
    · rintro v perm ⟨⟩
    · rintro e v perm ⟨⟩
  · rw [if_neg there]
    exact h.goes current user (by rintro ⟨⟩) same lends
      (.loop fun v hv => ahead v rfl (Nat.le_of_succ_le hv))

/-- `pt0[vpn] & PTE_PERM`. -/
theorem Inv.look (h : Inv M K1 K0 s) (current : s.kernel.curenv = some c)
    (at_ : s.prog c = .called child vpn) (user : s.handler c = none)
    (agrees : SelfMapAgrees s.kernel.pmap c) {cow : Nat}
    (out : s.forkStep cow c (.called child vpn) = some s') :
    Inv M K1 K0 s' ∧ s'.memories = s.memories := by
  have here := h.locals c
  obtain ⟨low, ne, p, a, shown⟩ := here.called child vpn at_
  obtain ⟨pte, look, out⟩ := Option.bind_eq_some_iff.mp out
  obtain rfl := Option.some.inj out
  rw [← placeOf_shift] at shown
  obtain ⟨pte', look', rfl⟩ := pt0_place agrees (shift_lt low) shown
  rw [(shift_page vpn).2] at look'
  obtain rfl := Option.some.inj (look.symm.trans look')
  rw [placeOf_shift] at shown
  have ahead := here.ahead child
  rw [at_] at ahead
  refine h.goes current user (by rintro ⟨⟩) (fun e he => ?_) ?_
    ⟨fun e v he hv => ?_, ?_, fun v perm eq => ?_, ?_⟩
  · rw [at_]
    exact he
  · rw [at_]
    rfl
  · obtain rfl := Option.some.inj he
    exact ahead v rfl hv
  · rintro e v ⟨⟩
  · obtain ⟨rfl, rfl⟩ := Prod.mk.inj (Option.some.inj eq)
    exact ⟨low, ne, Nat.lt_of_le_of_lt Nat.and_le_right (by decide), p, _, shown, .refl _⟩
  · rintro e v perm ⟨⟩

/-- A call of `duppage` that maps page `vpn` in the child. -/
theorem Inv.maps (h : Inv M K1 K0 s) (current : s.kernel.curenv = some c)
    (parent : (s.prog c).child = some child) (small : perm < 0x400) {p a : Nat}
    (counts : s.kernel.pmap.ppRef p < 65535) (low : vpn < walkedPages)
    (shown : s.place (c, vpn) = some (p, a))
    (hx : s.kernel.sysMemMap 0 (vpn <<< 12) child (vpn <<< 12) perm = .ok (0, k)) :
    ∃ m, k = { s.kernel with pmap := m } ∧ Kernel.Secure M K1 K0 (fun _ _ => True) k ∧
      ¬ isIllegalVa (vpn <<< 12) ∧
      Moves s.kernel.pmap m (envx child, vpn) (some (p, perm ||| pteV)) ∧
      m.mem p = s.kernel.pmap.mem p := by
  have hva := shift_lt low
  obtain ⟨-, pa⟩ := view_shift (m := s.kernel.pmap) low shown
  have careful : ∀ e, s.kernel.curenv = some e → Kernel.Careful (fun _ _ => True) s.kernel e
      (.sysMemMap 0 (vpn <<< 12) child (vpn <<< 12) perm) := by
    intro e he src hsrc _
    obtain rfl := Option.some.inj (he.symm.trans current)
    obtain rfl := Except.ok.inj hsrc
    rw [pa]
    exact counts
  have secure := (h.secure.sysMemMap careful hx).granted
  obtain ⟨c', src, dst, m, hc', hsrc, hdst, legal, -, -, map, rfl⟩ := Kernel.sysMemMap_zero hx
  obtain rfl := Option.some.inj (hc'.symm.trans current)
  obtain rfl := Except.ok.inj hsrc
  obtain ⟨named, -, -⟩ := h.childBorn c' child parent
  obtain rfl := envx_of_named named hdst
  have live := Kernel.envid2env_live h.secure current hdst
  have uint : uInt perm = perm := Nat.mod_eq_of_lt (small.trans (by decide))
  rw [uint] at map
  have src : s.kernel.pmap.place (c', vpn) =
      some (s.kernel.pmap.getPa c' (vpn <<< 12) / 4096, a) := by
    rw [pa]
    exact shown
  obtain ⟨moves, data⟩ := mapPageUser_moves h.secure.guarded.consistent
    h.secure.guarded.userApart hva live src map
  rw [pa, placeOf_shift] at moves
  rw [pa] at data
  exact ⟨m, rfl, secure, legal, moves, data⟩

/-- A page of an env in `duppage` is its own to write, or nobody's. -/
theorem Inv.own_page (h : Inv M K1 K0 s) (current : s.kernel.curenv = some c)
    (user : s.handler c = none) {y : Place EnvIdx} {p a b : Nat}
    (shown : s.place (c, vpn) = some (p, a)) (there : s.place y = some (p, b)) (writes : Writes b) :
    y = (c, vpn) := by
  refine (h.sole there writes shown ?_).symm
  rintro (⟨va, mapped, same, -⟩ | ⟨lends, -⟩)
  · rw [← show c = y.1 from same, user] at mapped
    cases mapped
  · exact h.not_lent current rfl ⟨y.1, lends⟩

/-- The child gets a page, and the parent goes on. -/
theorem Inv.dup (h : Inv M K1 K0 s) (current : s.kernel.curenv = some c)
    (at_ : s.prog c = .looked child vpn perm) (user : s.handler c = none)
    (secure : Kernel.Secure M K1 K0 (fun _ _ => True) { s.kernel with pmap := m }) {p a : Nat}
    {perm' : Nat} (moves : Moves s.kernel.pmap m (envx child, vpn) (some (p, perm' ||| pteV)))
    (shown : s.place (c, vpn) = some (p, a)) (library : Library perm' ↔ Library perm)
    (bits : SameBits perm a) (cow : perm' &&& pteCow ≠ 0 → ¬ Library perm') (ro : ¬ Writes perm')
    (low : vpn < walkedPages) (ne : vpn ≠ ucowPage) {prog : Prog} (runs : prog ≠ .born)
    (same : prog.child = some child) (walked : Walked m c prog)
    (lends : Writes perm → prog.lends = some (envx child, vpn)) :
    Inv M K1 K0 (s.moved c m prog (s.handler c)) := by
  have here := h.locals c
  have parent : (s.prog c).child = some child := by
    rw [at_]
    rfl
  have other := h.child_ne current parent
  have idle (x y : Place EnvIdx) (alias_ : s.Alias x y) : x.1 ≠ c := by
    rintro rfl
    rcases alias_ with ⟨va, mapped, -⟩ | ⟨lends, -⟩
    · rw [user] at mapped
      cases mapped
    · rw [at_] at lends
      cases lends
  have handled := here.handled
  rw [user] at handled
  refine h.moved current secure (h.step moves (.inr ⟨child, parent, rfl⟩))
    (.inr ⟨child, parent, rfl, ne⟩) runs (fun e he => ?_) (fun x y _ _ alias_ => ?_)
    (fun q b new => ?_) ⟨walked, ?_, fun hd va perm hh =>
      absurd (hh.symm.trans user) (by rintro ⟨⟩)⟩
  · rw [parent, ← same, he]
  · unfold Alias
    rw [moved_handler_of_ne (idle x y alias_), moved_prog_of_ne (idle x y alias_)]
    exact alias_
  · obtain ⟨rfl, rfl⟩ := Prod.mk.inj (Option.some.inj new)
    refine ⟨⟨fun bit => ⟨?_, low⟩, fun high => absurd high (Nat.not_le_of_lt low)⟩,
      fun y d _ there => ⟨fun w => ?_, fun w => .inr ?_, ?_⟩⟩
    · rw [or_pteV_and _ (by decide)] at bit
      rw [library_or_pteV]
      exact cow bit
    · exact absurd ((writes_or_pteV _).mp w) ro
    · obtain rfl := h.own_page current user shown there w
      obtain ⟨-, rfl⟩ := Prod.mk.inj (Option.some.inj (there.symm.trans shown))
      rw [moved_prog]
      exact ⟨lends (bits.writes.mpr w), rfl⟩
    · rw [library_or_pteV, library, bits.libraries]
      exact ⟨fun l => h.library _ y _ a d shown l there,
        fun l => h.library y _ _ d a there l shown⟩
  · rw [user]
    exact (moves.off _ fun eq => other (Prod.mk.inj eq).1.symm).trans handled

/-- The child gets a page that becomes copy-on-write; the parent still writes it. -/
theorem Inv.lends (h : Inv M K1 K0 s) (current : s.kernel.curenv = some c)
    (at_ : s.prog c = .looked child vpn perm) (user : s.handler c = none)
    (counts : ∀ x p perm, s.place x = some (p, perm) → s.kernel.pmap.ppRef p < 65535)
    (writes : Writes perm)
    (hx : s.kernel.sysMemMap 0 (vpn <<< 12) child (vpn <<< 12) (lentPerm perm) = .ok (0, k)) :
    Inv M K1 K0 (setProg { s with kernel := k } c (.lent child vpn perm)) ∧
      (setProg { s with kernel := k } c (.lent child vpn perm)).memories = s.memories := by
  have here := h.locals c
  have parent : (s.prog c).child = some child := by
    rw [at_]
    rfl
  have other := h.child_ne current parent
  obtain ⟨low, ne, small, p, a, shown, bits⟩ := here.page vpn perm (by rw [at_]; rfl)
  have ahead := here.ahead child
  rw [at_] at ahead
  obtain ⟨smaller, ro, -, lib⟩ := lentPerm_bits small
  obtain ⟨m, rfl, secure, legal, moves, -⟩ :=
    h.maps current parent smaller (counts _ p a shown) low shown hx
  have own : m.place (c, vpn) = s.kernel.pmap.place (c, vpn) :=
    moves.off _ fun eq => other (Prod.mk.inj eq).1.symm
  have library : Library (lentPerm perm) ↔ Library perm := by
    unfold Library
    rw [lib]
  have walked : Walked m c (.lent child vpn perm) := by
    refine ⟨fun e v he hv => ?_, ?_, fun v b eq => ?_, fun e v b eq => ?_⟩
    · obtain rfl := Option.some.inj he
      rw [moves.off _ fun eq => Nat.ne_of_gt hv (Prod.mk.inj eq).2]
      exact ahead v rfl (Nat.le_of_lt hv)
    · rintro e v ⟨⟩
    · obtain ⟨rfl, rfl⟩ := Prod.mk.inj (Option.some.inj eq)
      exact ⟨low, ne, small, p, a, own.trans shown, bits⟩
    · obtain ⟨rfl, rfl, rfl⟩ := Prog.lent.inj eq
      refine ⟨writes, legal, p, a, _, own.trans shown, moves.here, ?_⟩
      rw [or_pteV_and _ (by decide)]
      exact ro
  rw [setProg_moved]
  refine ⟨h.dup current at_ user secure moves shown library bits
    (fun _ => library.not.mpr writes.not_library) (fun w => w.2.1 ro) low ne (by rintro ⟨⟩) rfl
    walked fun _ => rfl, ?_⟩
  -- the child has nothing of its own there yet
  have before : s.memories (envx child, vpn) = fun _ => 0 := by
    refine memories_zero fun _ _ _ q b there => ?_
    cases (ahead vpn rfl le_rfl).symm.trans there
  have lent : (s.moved c m (.lent child vpn perm) (s.handler c)).Lent (envx child, vpn) :=
    ⟨c, by rw [moved_prog]; rfl⟩
  refine memories_same moves.off (fun y off => lent_moved_off (x := (envx child, vpn)) ?_ ?_ off)
    (cells_data moves.data) (x := (envx child, vpn)) ?_
  · rw [at_]
    rintro z ⟨⟩
  · rintro z ⟨⟩
    rfl
  · rw [before]
    exact memories_zero fun _ _ unlent => absurd lent unlent

/-- The child gets a page that nobody writes, or that is to share. -/
theorem Inv.shares (h : Inv M K1 K0 s) (current : s.kernel.curenv = some c)
    (at_ : s.prog c = .looked child vpn perm) (user : s.handler c = none)
    (counts : ∀ x p perm, s.place x = some (p, perm) → s.kernel.pmap.ppRef p < 65535)
    (writes : ¬ Writes perm)
    (hx : s.kernel.sysMemMap 0 (vpn <<< 12) child (vpn <<< 12) perm = .ok (0, k)) :
    Inv M K1 K0 (setProg { s with kernel := k } c (.walking child (vpn + 1))) ∧
      (setProg { s with kernel := k } c (.walking child (vpn + 1))).memories =
        if Library perm then s.memories else
          Function.update s.memories (envx child, vpn) (s.memories (c, vpn)) := by
  have here := h.locals c
  have parent : (s.prog c).child = some child := by
    rw [at_]
    rfl
  obtain ⟨low, ne, small, p, a, shown, bits⟩ := here.page vpn perm (by rw [at_]; rfl)
  have ahead := here.ahead child
  rw [at_] at ahead
  obtain ⟨m, rfl, secure, -, moves, data⟩ :=
    h.maps current parent small (counts _ p a shown) low shown hx
  have walked : Walked m c (.walking child (vpn + 1)) := .loop fun v hv => by
    rw [moves.off _ fun eq => Nat.ne_of_gt (Nat.lt_of_succ_le hv) (Prod.mk.inj eq).2]
    exact ahead v rfl (Nat.le_of_succ_le hv)
  have cow (bit : perm &&& pteCow ≠ 0) : ¬ Library perm := by
    rw [bits.cow] at bit
    rw [bits.libraries]
    exact (h.cow _ p a shown bit).1
  rw [setProg_moved]
  refine ⟨h.dup current at_ user secure moves shown Iff.rfl bits cow writes low ne (by rintro ⟨⟩)
    rfl walked fun w => absurd w writes, ?_⟩
  have lends : (Prog.walking child (vpn + 1)).lends = (s.prog c).lends := by
    rw [at_]
    rfl
  split
  · rename_i library
    refine memories_same moves.off (fun y _ => lent_moved lends y) (cells_data moves.data)
      (x := (envx child, vpn)) ?_
    rw [memories_zero, memories_zero]
    · intro _ _ _ q b there
      cases (ahead vpn rfl le_rfl).symm.trans there
    · intro _ _ _ q b there
      obtain ⟨-, rfl⟩ := Prod.mk.inj (Option.some.inj (moves.here.symm.trans there))
      rwa [library_or_pteV]
  · rename_i own
    refine memories_update moves.off (fun y _ => lent_moved lends y) (cells_data moves.data) ?_
    rw [memories_of low ne (h.not_lent current rfl) shown (bits.libraries.not.mp own)]
    refine (memories_of low ne (h.not_lent_child parent rfl) moves.here ?_).trans data
    rwa [library_or_pteV]

/-- The call of `duppage` for the child. -/
theorem Inv.looked (h : Inv M K1 K0 s) (current : s.kernel.curenv = some c)
    (at_ : s.prog c = .looked child vpn perm) (user : s.handler c = none)
    (counts : ∀ x p perm, s.place x = some (p, perm) → s.kernel.pmap.ppRef p < 65535)
    (succeeds : ∃ k, s.kernel.sysMemMap 0 (vpn <<< 12) child (vpn <<< 12)
      (if Writes perm then lentPerm perm else perm) = .ok (0, k)) {cow : Nat}
    (out : s.forkStep cow c (.looked child vpn perm) = some s') :
    Inv M K1 K0 s' ∧ s'.memories = if Writes perm ∨ Library perm then s.memories else
      Function.update s.memories (envx child, vpn) (s.memories (c, vpn)) := by
  obtain ⟨k, done⟩ := succeeds
  by_cases writes : Writes perm
  · rw [if_pos writes] at done
    rw [if_pos (.inl writes)]
    have out := (if_pos writes).symm.trans out
    obtain ⟨⟨r, s₁⟩, hcall, out⟩ := Option.bind_eq_some_iff.mp out
    obtain rfl := Option.some.inj out
    obtain ⟨k', hx, rfl⟩ := call_some.mp hcall
    obtain ⟨rfl, rfl⟩ := Prod.mk.inj (Except.ok.inj (done.symm.trans hx))
    exact h.lends current at_ user counts writes hx
  · rw [if_neg writes] at done
    have out := (if_neg writes).symm.trans out
    obtain ⟨⟨r, s₁⟩, hcall, out⟩ := Option.bind_eq_some_iff.mp out
    obtain rfl := Option.some.inj out
    obtain ⟨k', hx, rfl⟩ := call_some.mp hcall
    obtain ⟨rfl, rfl⟩ := Prod.mk.inj (Except.ok.inj (done.symm.trans hx))
    simp only [writes, false_or]
    exact h.shares current at_ user counts writes hx

/-- The second call of `duppage` gives the parent's place its own page again. -/
theorem Inv.remaps (h : Inv M K1 K0 s) (current : s.kernel.curenv = some c) {p a : Nat}
    (low : vpn < walkedPages) (small : perm < 0x400) (shown : s.place (c, vpn) = some (p, a))
    (counts : s.kernel.pmap.ppRef p < 65535) (legal : ¬ isIllegalVa (vpn <<< 12)) {r : Int}
    (hx : s.kernel.sysMemMap 0 (vpn <<< 12) 0 (vpn <<< 12) perm = .ok (r, k)) :
    ∃ m, k = { s.kernel with pmap := m } ∧ Kernel.Secure M K1 K0 (fun _ _ => True) k ∧
      Moves s.kernel.pmap m (c, vpn) (some (p, perm ||| pteV)) ∧
      m.mem p = s.kernel.pmap.mem p := by
  have hva := shift_lt low
  obtain ⟨view, pa⟩ := view_shift (m := s.kernel.pmap) low shown
  have mapped : s.kernel.pmap.isMappedPage c (vpn <<< 12) = true := by
    rw [isMappedPage_eq (not_shared_of_user hva), view]
    rfl
  have careful : ∀ e, s.kernel.curenv = some e → Kernel.Careful (fun _ _ => True) s.kernel e
      (.sysMemMap 0 (vpn <<< 12) 0 (vpn <<< 12) perm) := by
    intro e he src hsrc _
    obtain rfl := Option.some.inj (he.symm.trans current)
    obtain rfl := Except.ok.inj hsrc
    rw [pa]
    exact counts
  have secure := (h.secure.sysMemMap careful hx).granted
  rw [Kernel.sysMemMap_self current legal legal mapped] at hx
  obtain ⟨m, map, rfl⟩ := Kernel.liftPmap_ok hx
  have uint : uInt perm = perm := Nat.mod_eq_of_lt (small.trans (by decide))
  rw [uint] at map
  obtain ⟨moves, data⟩ := mapPageUser_again h.secure.guarded.consistent
    h.secure.guarded.userApart hva (by rw [pa]; exact view) map
  rw [pa, placeOf_shift] at moves
  rw [pa] at data
  exact ⟨m, rfl, secure, moves, data⟩

/-- The page of the parent is no longer one to write: the loop has passed it. -/
theorem Inv.passes (h : Inv M K1 K0 s) (current : s.kernel.curenv = some c)
    (at_ : s.prog c = .lent child vpn perm) (user : s.handler c = none)
    (secure : Kernel.Secure M K1 K0 (fun _ _ => True) { s.kernel with pmap := m }) {p a perm' : Nat}
    (moves : Moves s.kernel.pmap m (c, vpn) (some (p, perm')))
    (shown : s.place (c, vpn) = some (p, a)) (low : vpn < walkedPages) (ne : vpn ≠ ucowPage)
    (notLib : ¬ Library a) (notLib' : ¬ Library perm') (ro : ¬ Writes perm') :
    Inv M K1 K0 (s.moved c m (.walking child (vpn + 1)) (s.handler c)) := by
  have here := h.locals c
  have parent : (s.prog c).child = some child := by
    rw [at_]
    rfl
  have other := h.child_ne current parent
  have handled := here.handled
  rw [user] at handled
  have ahead := here.ahead child
  rw [at_] at ahead
  have walked : Walked m c (.walking child (vpn + 1)) := .loop fun v hv => by
    rw [moves.off _ fun eq => other (Prod.mk.inj eq).1]
    exact ahead v rfl (Nat.lt_of_succ_le hv)
  refine h.moved current secure (h.step moves (.inl rfl)) (.inl rfl) (by rintro ⟨⟩)
    (fun e he => ?_) (fun x y offx _ alias_ => ?_) (fun q d new => ?_) ⟨walked, ?_,
      fun hd va perm hh => absurd (hh.symm.trans user) (by rintro ⟨⟩)⟩
  · rw [parent]
    exact he
  · have off : x.1 ≠ c := by
      intro eq
      rcases alias_ with ⟨va, mapped, -⟩ | ⟨lends, same⟩
      · rw [eq, user] at mapped
        cases mapped
      · rw [eq, at_] at lends
        obtain rfl := Option.some.inj lends
        exact offx (Prod.ext eq same.symm)
    unfold Alias
    rw [moved_handler_of_ne off, moved_prog_of_ne off]
    exact alias_
  · obtain ⟨rfl, rfl⟩ := Prod.mk.inj (Option.some.inj new)
    refine ⟨⟨fun _ => ⟨notLib', low⟩, fun high => absurd high (Nat.not_le_of_lt low)⟩,
      fun y d off there => ⟨fun w => absurd w ro, fun w => ?_, ?_⟩⟩
    · exact absurd (h.own_page current user shown there w) off
    · exact ⟨fun l => absurd l notLib', fun l => absurd (h.library y _ _ d a there l shown) notLib⟩
  · rw [user]
    exact (moves.off _ fun eq => ne (Prod.mk.inj eq).2.symm).trans handled

/-- The call of `duppage` for the parent: from here on the child has the page too. -/
theorem Inv.lent (h : Inv M K1 K0 s) (current : s.kernel.curenv = some c)
    (at_ : s.prog c = .lent child vpn perm) (user : s.handler c = none)
    (counts : ∀ x p perm, s.place x = some (p, perm) → s.kernel.pmap.ppRef p < 65535) {cow : Nat}
    (out : s.forkStep cow c (.lent child vpn perm) = some s') :
    Inv M K1 K0 s' ∧
      s'.memories = Function.update s.memories (envx child, vpn) (s.memories (c, vpn)) := by
  have here := h.locals c
  have parent : (s.prog c).child = some child := by
    rw [at_]
    rfl
  have other := h.child_ne current parent
  obtain ⟨low, ne, small, q, a', seen, bits⟩ := here.page vpn perm (by rw [at_]; rfl)
  obtain ⟨writes, legal, p, a, b, shown, lent, -⟩ := here.lent child vpn perm at_
  obtain ⟨rfl, rfl⟩ := Prod.mk.inj (Option.some.inj (seen.symm.trans shown))
  obtain ⟨smaller, ro, -, lib⟩ := lentPerm_bits small
  obtain ⟨⟨r, s₁⟩, hcall, out⟩ := Option.bind_eq_some_iff.mp out
  obtain rfl := Option.some.inj out
  obtain ⟨k, hx, rfl⟩ := call_some.mp hcall
  obtain ⟨m, rfl, secure, moves, data⟩ :=
    h.remaps current low smaller shown (counts _ q a' shown) legal hx
  have notLib_a : ¬ Library a' := bits.libraries.not.mp writes.not_library
  have notLib' : ¬ Library (lentPerm perm ||| pteV) := by
    rw [library_or_pteV]
    unfold Library
    rw [lib]
    exact writes.not_library
  have ro' : ¬ Writes (lentPerm perm ||| pteV) := fun w => ((writes_or_pteV _).mp w).2.1 ro
  rw [setProg_moved]
  refine ⟨h.passes current at_ user secure moves shown low ne notLib_a notLib' ro', ?_⟩
  have lends (y : Place EnvIdx) (off : y ≠ (envx child, vpn)) :
      (s.moved c m (.walking child (vpn + 1)) (s.handler c)).Lent y ↔ s.Lent y := by
    refine lent_moved_off (fun z lends => ?_) (by rintro z ⟨⟩) off
    rw [at_] at lends
    exact (Option.some.inj lends).symm
  refine contents_update (fun y off => ?_) (fun y q' _ there => ?_) ?_
  · by_cases eq : y = (c, vpn)
    · rw [eq]
      exact cell_perm shown moves.here (iff_of_false notLib' notLib_a)
        (lends _ (by rw [← eq]; exact off))
    · exact cell_congr (moves.off y eq) (lends y off)
  · obtain ⟨-, -, -, d, there, -⟩ := cell_place there
    by_cases eq : y = (c, vpn)
    · rw [eq] at there
      obtain ⟨rfl, -⟩ := Prod.mk.inj (Option.some.inj (there.symm.trans shown))
      exact data
    · exact moves.data y q' d eq there
  · rw [memories_of low ne (h.not_lent current rfl) shown notLib_a]
    have given : (s.moved c m (.walking child (vpn + 1)) (s.handler c)).place (envx child, vpn) =
        some (q, b) := (moves.off _ fun eq => other (Prod.mk.inj eq).1).trans lent
    refine (memories_of low ne (h.not_lent_child parent rfl) given fun l => ?_).trans data
    exact notLib_a (h.library _ _ q b a' lent l shown)

/-! ## The two ends of `fork` -/

/-- An env that nobody is making begins to run. -/
theorem Inv.wakes (h : Inv M K1 K0 s) {e : EnvIdx} (born : s.prog e = .born)
    (alone : ∀ c a, (s.prog c).child = some a → envx a ≠ e) :
    Inv M K1 K0 (s.setProg e .running) ∧ (s.setProg e .running).memories = s.memories := by
  have child {x : EnvIdx} {a : Nat} (ha : ((s.setProg e .running).prog x).child = some a) :
      (s.prog x).child = some a := by
    by_cases eq : x = e
    · rw [eq, setProg_prog] at ha
      cases ha
    · rwa [setProg_prog_of_ne eq] at ha
  have lends (x : EnvIdx) : ((s.setProg e .running).prog x).lends = (s.prog x).lends := by
    by_cases eq : x = e
    · rw [eq, setProg_prog, born]
      rfl
    · rw [setProg_prog_of_ne eq]
  refine ⟨⟨h.secure, h.exclusive.congr (fun _ => rfl) fun x y alias_ => ?_, h.library, h.cow,
    h.stack, fun x => ?_, fun c c' a b ha hb => h.children c c' a b (child ha) (child hb),
    fun c a ha => ?_, fun x hx => ?_, h.current, h.free, h.freed⟩,
    contents_same (fun y => cell_congr rfl (exists_congr fun x => ?_)) fun _ _ _ => rfl⟩
  · refine alias_.imp id fun ⟨l, page⟩ => ⟨?_, page⟩
    rw [lends]
    exact l
  · by_cases eq : x = e
    · have idle := (h.born e born).2
      have handled := (h.locals e).handled
      rw [eq, setProg_prog]
      show Local _ _ _ (s.handler e)
      rw [idle] at handled ⊢
      exact ⟨.idle rfl, handled, (by rintro _ _ _ ⟨⟩)⟩
    · rw [setProg_prog_of_ne eq]
      exact h.locals x
  · obtain ⟨named, isBorn, notFree⟩ := h.childBorn c a (child ha)
    exact ⟨named, (setProg_prog_of_ne (alone c a (child ha))).trans isBorn, notFree⟩
  · by_cases eq : x = e
    · rw [eq, setProg_prog] at hx
      cases hx
    · rw [setProg_prog_of_ne eq] at hx
      exact h.born x hx
  · rw [lends]

/-- The end of the loop: `cow_entry` is the handler of the child. -/
theorem Inv.ends (h : Inv M K1 K0 s) (current : s.kernel.curenv = some c)
    (at_ : s.prog c = .walking child vpn) (user : s.handler c = none) {cow : Nat}
    (high : ¬ vpn < walkedPages) (out : s.forkStep cow c (.walking child vpn) = some s') :
    Inv M K1 K0 s' ∧ s'.memories = s.memories := by
  have out := (if_neg high).symm.trans out
  obtain ⟨⟨r, s₁⟩, hcall, out⟩ := Option.bind_eq_some_iff.mp out
  obtain rfl := Option.some.inj out
  obtain ⟨k, entry, rfl⟩ := call_some.mp hcall
  obtain ⟨inv, same⟩ := h.tlbModEntry entry
  have current' : k.curenv = some c := by
    obtain ⟨envs, rfl, -⟩ := Kernel.sysSetTlbModEntry_ok entry
    exact current
  have next : Inv M K1 K0 (setProg { s with kernel := k } c (.finishing child)) ∧
      (setProg { s with kernel := k } c (.finishing child)).memories =
        Forks.memories { s with kernel := k } := by
    refine inv.goes current' user (by rintro ⟨⟩) (fun a ha => ?_) ?_
      ⟨(by rintro _ _ _ ⟨⟩), (by rintro _ _ ⟨⟩), (by rintro _ _ ⟨⟩), (by rintro _ _ _ ⟨⟩)⟩
    · show (s.prog c).child = _
      rw [at_]
      exact ha
    · show _ = (s.prog c).lends
      rw [at_]
      rfl
  exact ⟨next.1, next.2.trans same⟩

/-- The child may run. -/
theorem Inv.finish (h : Inv M K1 K0 s) (current : s.kernel.curenv = some c)
    (at_ : s.prog c = .finishing child) (user : s.handler c = none) {cow : Nat}
    (out : s.forkStep cow c (.finishing child) = some s') :
    Inv M K1 K0 s' ∧ s'.memories = s.memories := by
  have parent : (s.prog c).child = some child := by
    rw [at_]
    rfl
  obtain ⟨⟨r, s₁⟩, hcall, out⟩ := Option.bind_eq_some_iff.mp out
  obtain ⟨k, status, rfl⟩ := call_some.mp hcall
  obtain rfl := Option.some.inj out
  -- the parent is done
  obtain ⟨done, same⟩ : Inv M K1 K0 (s.setProg c .running) ∧
      (s.setProg c .running).memories = s.memories :=
    h.goes current user (by rintro ⟨⟩) (by rintro _ ⟨⟩) (by rw [at_]; rfl) (.idle rfl)
  rcases Kernel.sysSetEnvStatus_wakes status with ⟨rfl, fails⟩ | ⟨rfl, c', e, q, hc', he, rfl⟩
  · rw [if_neg fails]
    exact ⟨done, same⟩
  rw [if_pos rfl]
  obtain rfl := Option.some.inj (hc'.symm.trans current)
  obtain ⟨named, isBorn, -⟩ := h.childBorn c' child parent
  have other := h.child_ne current parent
  obtain rfl := envx_of_named named he
  have born : (s.setProg c' .running).prog (envx child) = .born :=
    (setProg_prog_of_ne other).trans isBorn
  have alone (x : EnvIdx) (a : Nat) (ha : ((s.setProg c' .running).prog x).child = some a) :
      envx a ≠ envx child := by
    intro eq
    by_cases own : x = c'
    · rw [own, setProg_prog] at ha
      cases ha
    · rw [setProg_prog_of_ne own] at ha
      exact own (h.children x c' a child ha parent eq)
  obtain ⟨inv, same'⟩ := done.wakes born alone
  have swap (k : Kernel) :
      (setProg { s with kernel := k } (envx child) .running).setProg c' .running =
        { kernel := k
          prog := ((s.setProg c' .running).setProg (envx child) .running).prog
          handler := s.handler } := by
    unfold setProg
    rw [Function.update_comm other]
  rw [swap]
  have next := inv.kernel (h.secure.wake current he q) (.refl _) rfl (fun x hx => ?_) fun x hx => ?_
  · exact ⟨next.1, next.2.trans (same'.trans same)⟩
  · have ne : x ≠ envx child := by
      rintro rfl
      cases setProg_prog.symm.trans hx
    rw [Kernel.setStatus, Kernel.setEnv_envs, Function.update_of_ne ne]
    exact (done.born x ((setProg_prog_of_ne ne).symm.trans hx)).1
  · by_cases eq : x = envx child
    · rw [Kernel.setStatus, Kernel.setEnv_envs, eq, Function.update_self]
    · rw [Kernel.setStatus, Kernel.setEnv_envs, Function.update_of_ne eq]
      exact h.current x hx

end

end RiscvMos.Forks
