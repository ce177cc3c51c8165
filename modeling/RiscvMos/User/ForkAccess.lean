import RiscvMos.User.CowEntry

/-!
Accesses of user code. A store that the hardware makes goes to the env's own
memory, if it goes to memory that is the env's own at all; a page fault changes
nothing that an env sees.
-/

namespace RiscvMos.Pmap

variable {M K1 K0 : Nat → Prop} {s s' : Pmap EnvIdx} {c : EnvIdx} {tf : Trapframe}

/-- The page of the exception stack was there, or is new, and has the frame. -/
theorem enterCow_store (hr : FaultReady M K1 K0 s c) (h : s.enterCow c tf = .ok s') :
    ∃ m q a, (m = s ∧ s.place (placeOf c uxframe) = some (q, a) ∨
        Moves s m (placeOf c uxframe) (some (q, a)) ∧ a = demandPerm ||| pteV ∧
          s.place (placeOf c uxframe) = none ∧
          ∀ y b, y ≠ placeOf c uxframe → s.place y ≠ some (q, b)) ∧
      ¬ m.TablePage q ∧ s' = m.writePage q (frameWords tf (m.mem q)) := by
  have hva : uxframe < ulim := by decide
  have hlt : uxframe < 2 ^ 39 := by decide
  have hv := not_shared_of_user hva
  have hs := hr.consistent
  have hu := hr.userApart
  unfold Pmap.enterCow at h
  split at h
  · rename_i unmapped
    have none_ : s.view c uxframe = none := by
      rw [isMappedPage_eq hv] at unmapped
      simpa using unmapped
    obtain ⟨⟨r, m⟩, alloc, h⟩ := Except.bind_ok_iff.mp h
    by_cases zero : r = 0
    · subst zero
      obtain ⟨q, moves, -, fresh⟩ := allocPageUser_moves hs hu hva hr.live alloc
      obtain ⟨hs₁, -⟩ := allocPageUser_spec hs hlt hv (hr.apart hlt) alloc
      have hu₁ := allocPageUser_userApart hs hlt hv (hr.apart hlt) hu alloc
      have here := moves.here
      rw [place_of_view hva] at here
      obtain ⟨-, p, -, no, tgt, rfl⟩ := storeFrame_eq hs₁ hu₁ (pgdir_ne_zero_of_view here) h
      obtain rfl : q = p := Option.some.inj ((tgt_eq_some.mpr ⟨_, here⟩).symm.trans tgt)
      exact ⟨m, q, _, .inr ⟨moves, rfl, (place_of_view hva).trans none_, fresh⟩, no, rfl⟩
    · -- without a page for the stack there is nothing to store to
      obtain ⟨-, hf, -, none₁⟩ := allocPageUser_fail hs hlt hv (hr.apart hlt) none_ alloc zero
      have roots := sameRoots_of_frame hf fun d' hd' => by
        rw [touched_root hlt hd']
        exact hr.live
      have live : m.pgdir c ≠ 0 := fun zero => hr.live ((roots c).1.mp zero)
      have unmapped₁ : m.isMappedPage c uxframe = false := by
        rw [isMappedPage_eq hv, view, none₁]
        rfl
      simp only [storeFrame, getPa_of_not_mapped live unmapped₁] at h
      cases h
  · obtain ⟨-, p, -, no, tgt, rfl⟩ := storeFrame_eq hs hu hr.live h
    obtain ⟨a, here⟩ := tgt_eq_some.mp tgt
    exact ⟨s, p, a, .inl ⟨rfl, (place_of_view hva).trans here⟩, no, rfl⟩

/-- Only the page of the exception stack changes, if no other place has it. -/
theorem enterCow_moves (hr : FaultReady M K1 K0 s c)
    (alone : ∀ q a, s.place (placeOf c uxframe) = some (q, a) →
      ∀ y b, y ≠ placeOf c uxframe → s.place y ≠ some (q, b))
    (h : s.enterCow c tf = .ok s') :
    ∃ q a, Moves s s' (placeOf c uxframe) (some (q, a)) ∧
      (∀ y b, y ≠ placeOf c uxframe → s.place y ≠ some (q, b)) ∧
      (a = demandPerm ||| pteV ∨ s.place (placeOf c uxframe) = some (q, a)) := by
  obtain ⟨m, q, a, page, no, rfl⟩ := enterCow_store hr h
  have pushed (moves : Moves s m (placeOf c uxframe) (some (q, a)))
      (free : ∀ y b, y ≠ placeOf c uxframe → s.place y ≠ some (q, b)) {f : Vpn → Nat} :
      Moves s (m.writePage q f) (placeOf c uxframe) (some (q, a)) := by
    refine ⟨(writePage_place no f _).trans moves.here,
      fun y ne => (writePage_place no f y).trans (moves.off y ne), fun y p b ne there => ?_,
      moves.roots⟩
    have ne' : p ≠ q := by
      rintro rfl
      exact free y b ne there
    exact (Function.update_of_ne ne' _ _).trans (moves.data y p b ne there)
  rcases page with ⟨rfl, here⟩ | ⟨moves, perm, -, fresh⟩
  · have free := alone q a here
    have moves := (Stays.refl m).moves (placeOf c uxframe)
    rw [here] at moves
    exact ⟨q, a, pushed moves free, free, .inr here⟩
  · exact ⟨q, a, pushed moves fresh, fresh, .inl perm⟩

end RiscvMos.Pmap

namespace RiscvMos.Forks

open Pmap CopyOnWrite

section
variable {M K1 K0 : Nat → Prop} {s s' : Forks} {c : EnvIdx} {m : Pmap EnvIdx}
    {handler : Option Handler} {va w : Nat}

theorem writes_or_library {perm : Nat} (user : perm &&& pteU ≠ 0) (write : perm &&& pteW ≠ 0) :
    Writes perm ∨ Library perm := by
  by_cases library : perm &&& pteLibrary = 0
  · exact .inl ⟨user, write, library⟩
  · exact .inr library

theorem meaning_store (memory : Place EnvIdx → Vpn → Nat) (tf : Trapframe) :
    s.meaning c memory (.access .store va w tf) =
      if s.kernel.pmap.translate c .store va ≠ none ∧ s.Private c va then
        Function.update memory (placeOf c va)
          (Function.update (memory (placeOf c va)) (wordIdx va) w)
      else memory :=
  rfl

theorem private_iff {p a : Nat} (hva : va < ulim) (at_ : s.place (placeOf c va) = some (p, a)) :
    s.Private c va ↔ va / 4096 < walkedPages ∧ va / 4096 ≠ ucowPage ∧ ¬ Library a := by
  have at_ := (place_of_view hva).symm.trans at_
  unfold Private Library
  rw [getPerm_of_view (not_shared_of_user hva) at_, not_not]

/-- A store that the hardware makes. -/
theorem Inv.access_store (h : Inv M K1 K0 s) (current : s.kernel.curenv = some c)
    (proper : s.Proper c .store va) {p : Nat}
    (goes : s.kernel.pmap.translate c .store va = some p) {tf : Trapframe} :
    let s' := { s with kernel := { s.kernel with pmap := s.kernel.pmap.storeWord p va w } }
    Inv M K1 K0 s' ∧ s'.memories = s.meaning c s.memories (.access .store va w tf) := by
  have here := h.locals c
  have live := h.live current
  obtain ⟨hva, where_⟩ := proper.store rfl
  obtain ⟨a, at_, user, -, write⟩ := translate_place live hva goes
  have open_ := writes_or_library user write
  have secure := h.secure.store current goes w
  have apart : ¬ s.kernel.pmap.TablePage p := h.secure.guarded.userApart.place at_
  have same := writePage_place apart (Function.update (s.kernel.pmap.mem p) (wordIdx va) w)
  -- no alias of the page is seen by an env
  have alone (y : Place EnvIdx) (alias_ : s.Alias (placeOf c va) y) : s.Lent y := by
    rcases alias_ with ⟨va', mapped, -, page⟩ | ⟨lends, -⟩
    · rcases where_ with none_ | high
      · rw [placeOf, none_] at mapped
        cases mapped
      · have handled := here.handled
        rw [show s.handler c = some (.mapped va') from mapped] at handled
        have low := handled.2.1
        have ucow_low : ucowPage < walkedPages := by decide
        simp only [placeOf] at page
        omega
    · exact ⟨c, lends⟩
  have private_ := private_iff hva at_
  constructor
  · have inv := h.stored current (x := placeOf c va) rfl at_ open_ secure
      (fun _ hm => hm) ?_
    · rw [← moved_self] at inv
      exact inv
    refine here.congr (fun v => same _) (fun va' perm n v q b copying hv there => ?_)
      fun e v _ => same _
    refine Function.update_of_ne ?_ _ _
    rintro rfl
    have high : walkedPages ≤ va / 4096 := by
      rcases where_ with none_ | high
      · rw [none_] at copying
        cases copying
      · exact high
    have eq := h.sole at_ (h.stack _ _ _ at_ high) there fun alias_ =>
      h.not_lent current rfl (alone _ alias_)
    have page : v = va / 4096 := (Prod.mk.inj eq).2
    have handled := here.handled
    rw [copying] at handled
    obtain ⟨-, -, p, -, cow, -⟩ := handled
    obtain ⟨perm', shown, bit⟩ := cow.page
    have low : va' / 4096 < walkedPages := (h.cow _ p perm' shown bit).2
    have ucow_low : ucowPage < walkedPages := by decide
    omega
  · have cells : ∀ y, Forks.cell { s with kernel := { s.kernel with
        pmap := s.kernel.pmap.storeWord p va w } } y = s.cell y := fun y =>
      cell_congr (same y) Iff.rfl
    have only : ∀ y, s.cell y = some p → y = placeOf c va ∧ s.Private c va := by
      intro y there
      obtain ⟨low, ne, unlent, b, shown, no⟩ := cell_place there
      have notLib : ¬ Library a := fun library => no (h.library _ y p a b at_ library shown)
      obtain rfl := h.sole at_ (open_.resolve_right notLib) shown fun alias_ =>
        unlent (alone y alias_)
      exact ⟨rfl, private_.mpr ⟨low, ne, notLib⟩⟩
    have mem : (s.kernel.pmap.storeWord p va w).mem = Function.update s.kernel.pmap.mem p
        (Function.update (s.kernel.pmap.mem p) (wordIdx va) w) := rfl
    have goes' : s.kernel.pmap.translate c .store va ≠ none := by
      rw [goes]
      exact Option.some_ne_none p
    rw [meaning_store]
    by_cases own : s.Private c va
    · rw [if_pos ⟨goes', own⟩]
      obtain ⟨low, ne, notLib⟩ := private_.mp own
      have cell := cell_of low ne (h.not_lent current rfl) at_ notLib
      have shown : s.memories (placeOf c va) = s.kernel.pmap.mem p := contents_of cell
      rw [shown]
      unfold memories
      rw [funext cells]
      exact contents_store cell fun y there => (only y there).1
    · rw [if_neg fun both => own both.2]
      refine contents_same cells fun y q there => ?_
      refine Function.update_of_ne ?_ _ _
      rintro rfl
      exact own (only y there).2

/-! ## Page faults -/

theorem access_faults {cow : Nat} {cause : Fault} {tf : Trapframe}
    (current : s.kernel.curenv = some c)
    (faults : s.kernel.pmap.translate c cause va = none)
    (out : s.access cow c cause va w tf = some s') :
    ∃ up m, s.kernel.pmap.handleFault c cause va tf = .ok (up, m) ∧
      s.kernel.access cause va w tf = .ok { s.kernel with pmap := m } ∧
      s' = s.moved c m (s.prog c) (if up = true then some (.entered va) else s.handler c) := by
  unfold Forks.access at out
  rw [faults] at out
  obtain ⟨⟨resume, k⟩, hex, out⟩ := Option.bind_eq_some_iff.mp out
  have hex' : s.kernel.handleException cause va tf = .ok (resume, k) := by
    cases done : s.kernel.handleException cause va tf with
    | error e =>
      rw [done] at hex
      cases hex
    | ok a =>
      rw [done] at hex
      rw [Option.some.inj hex]
  have taken : s.kernel.access cause va w tf = .ok k := by
    unfold Kernel.access
    split
    · rename_i none_
      cases current.symm.trans none_
    · rename_i e he
      obtain rfl := Option.some.inj (he.symm.trans current)
      rw [faults]
      exact Except.bind_ok_iff.mpr ⟨_, hex', rfl⟩
  unfold Kernel.handleException at hex'
  split at hex'
  · cases hex'
  rename_i e he
  obtain rfl := Option.some.inj (he.symm.trans current)
  obtain ⟨⟨up, m⟩, hf, hex'⟩ := Except.bind_ok_iff.mp hex'
  obtain ⟨rfl, rfl⟩ := Prod.mk.inj (Except.ok.inj hex')
  refine ⟨up, m, hf, taken, ?_⟩
  cases up with
  | false =>
    obtain rfl := Option.some.inj out
    exact moved_self
  | true =>
    have out : (if (s.kernel.envs e).envUserTlbModEntry = cow then
        some (setHandler { s with kernel := { s.kernel with pmap := m } } e (some (.entered va)))
      else none) = some s' := out
    split at out
    · obtain rfl := Option.some.inj out
      exact setHandler_moved
    · cases out

/-- Bits that are none of `duppage`'s. -/
theorem sameBits_or {perm bits : Nat} (user : bits &&& pteU = 0) (write : bits &&& pteW = 0)
    (library : bits &&& pteLibrary = 0) (cow : bits &&& pteCow = 0) :
    SameBits (perm ||| bits ||| pteV) perm := by
  have same {b : Nat} (hv : pteV &&& b = 0) (hb : bits &&& b = 0) :
      (perm ||| bits ||| pteV) &&& b = perm &&& b := by
    rw [or_pteV_and _ hv, Nat.and_or_distrib_right, hb, Nat.or_zero]
  exact ⟨same (by decide) user, same (by decide) write, same (by decide) library,
    same (by decide) cow⟩

/-- A page that `cow_entry` is not about changes its permission at most. -/
theorem Handled.keep {m' : Pmap EnvIdx} (h : Handled m c handler)
    (own : m'.place (c, ucowPage) = m.place (c, ucowPage))
    (cows : ∀ v p a, v ≠ ucowPage → m.place (c, v) = some (p, a) → a &&& pteCow ≠ 0 →
      m'.mem p = m.mem p ∧ ∃ a', m'.place (c, v) = some (p, a') ∧ a' &&& pteCow ≠ 0)
    (copy : ∀ q a, m.place (c, ucowPage) = some (q, a) → m'.mem q = m.mem q) :
    Handled m' c handler := by
  have cowAt {va p : Nat} (cow : CowAt m c va p) : CowAt m' c va p := by
    obtain ⟨a, page, bit⟩ := cow.page
    obtain ⟨-, a', page', bit'⟩ := cows _ p a cow.apart page bit
    exact ⟨cow.user, cow.apart, a', page', bit'⟩
  cases handler with
  | none => exact own.trans h
  | some hd =>
    cases hd with
    | entered va =>
      obtain ⟨free, p, cow⟩ := h
      exact ⟨own.trans free, p, cowAt cow⟩
    | looked va perm =>
      obtain ⟨free, ok, p, cow⟩ := h
      exact ⟨own.trans free, ok, p, cowAt cow⟩
    | copying va perm n =>
      obtain ⟨ok, le, p, q, cow, at_, copied⟩ := h
      refine ⟨ok, le, p, q, cowAt cow, own.trans at_, fun i => ?_⟩
      obtain ⟨a, page, bit⟩ := cow.page
      rw [copy q _ at_, (cows _ p a cow.apart page bit).1]
      exact copied i
    | mapped va => exact h
    | panicked => trivial

theorem cell_perm {y : Place EnvIdx} {p a a' : Nat} (here : s.place y = some (p, a))
    (here' : s'.place y = some (p, a')) (library : Library a' ↔ Library a)
    (lent : s'.Lent y ↔ s.Lent y) : s'.cell y = s.cell y := by
  unfold cell
  rw [here, here']
  simp only [lent, library]

/-- More permission for a page of the env. -/
theorem Inv.fault_kept (h : Inv M K1 K0 s) (current : s.kernel.curenv = some c)
    (secure : Kernel.Secure M K1 K0 (fun _ _ => True) { s.kernel with pmap := m })
    {p a a' : Nat} (at_ : s.place (placeOf c va) = some (p, a)) (bits : SameBits a' a)
    (moves : Moves s.kernel.pmap m (placeOf c va) (some (p, a')))
    (data : m.mem p = s.kernel.pmap.mem p) (ne : va / 4096 ≠ ucowPage) :
    Inv M K1 K0 (s.moved c m (s.prog c) (s.handler c)) ∧
      (s.moved c m (s.prog c) (s.handler c)).memories = s.memories := by
  have here := h.locals c
  have other {v : Nat} (off : v ≠ va / 4096) : m.place (c, v) = s.kernel.pmap.place (c, v) :=
    moves.off _ fun eq => off (Prod.mk.inj eq).2
  have aliases (x y : Place EnvIdx) (alias_ : s.Alias x y) :
      (s.moved c m (s.prog c) (s.handler c)).Alias x y := alias_.moved (fun _ hm => hm) rfl
  have mem {y : Place EnvIdx} {q b : Nat} (there : s.place y = some (q, b)) :
      m.mem q = s.kernel.pmap.mem q := by
    by_cases eq : y = placeOf c va
    · rw [eq] at there
      obtain ⟨rfl, -⟩ := Prod.mk.inj (Option.some.inj (there.symm.trans at_))
      exact data
    · exact moves.data y q b eq there
  refine ⟨h.moved current secure (h.step moves (.inl rfl)) (.inl rfl) (h.not_born current)
    (fun _ ha => ha) (fun x y _ _ => aliases x y) (fun q b new => ?_) ⟨?_, ?_, here.apart⟩, ?_⟩
  · obtain ⟨rfl, rfl⟩ := Prod.mk.inj (Option.some.inj new)
    exact h.fits at_ bits aliases
  · refine here.toWalked.keep (fun v q b _ there => ?_) fun e v he => ?_
    · by_cases eq : v = va / 4096
      · subst eq
        obtain ⟨rfl, rfl⟩ := Prod.mk.inj (Option.some.inj (there.symm.trans at_))
        exact ⟨q, a', moves.here, fun _ _ => ⟨rfl, bits⟩⟩
      · exact ⟨q, b, (other eq).trans there, fun _ _ => ⟨rfl, .refl b⟩⟩
    · exact moves.off _ fun eq => h.child_ne current he (Prod.mk.inj eq).1
  · refine here.handled.keep (other ne.symm) (fun v q b _ there bit => ⟨mem there, ?_⟩)
      fun q b there => mem there
    by_cases eq : v = va / 4096
    · subst eq
      obtain ⟨rfl, rfl⟩ := Prod.mk.inj (Option.some.inj (there.symm.trans at_))
      exact ⟨a', moves.here, by rwa [bits.cow]⟩
    · exact ⟨b, (other eq).trans there, bit⟩
  · refine contents_same (fun y => ?_) fun y q there => ?_
    · by_cases eq : y = placeOf c va
      · rw [eq]
        exact cell_perm at_ moves.here bits.libraries (lent_moved rfl _)
      · exact cell_congr (moves.off y eq) (lent_moved rfl y)
    · obtain ⟨-, -, -, b, shown, -⟩ := cell_place there
      exact mem shown

/-- A page of zeros where there was none. -/
theorem Inv.fault_demand (h : Inv M K1 K0 s) (current : s.kernel.curenv = some c)
    (secure : Kernel.Secure M K1 K0 (fun _ _ => True) { s.kernel with pmap := m })
    (hva : va < ulim) (free : s.place (placeOf c va) = none) (ne : va / 4096 ≠ ucowPage) {r : Int}
    (alloc : s.kernel.pmap.allocPageUser c va demandPerm = .ok (r, m)) :
    Inv M K1 K0 (s.moved c m (s.prog c) (s.handler c)) ∧
      (s.moved c m (s.prog c) (s.handler c)).memories = s.memories := by
  have here := h.locals c
  have hs := h.secure.guarded.consistent
  have hu := h.secure.guarded.userApart
  have live := h.live current
  have walked (off : ∀ v, v ≠ va / 4096 → m.place (c, v) = s.kernel.pmap.place (c, v))
      (child : ∀ a v, (s.prog c).child = some a →
        m.place (envx a, v) = s.kernel.pmap.place (envx a, v))
      (data : ∀ v p b, v ≠ va / 4096 → s.kernel.pmap.place (c, v) = some (p, b) →
        m.mem p = s.kernel.pmap.mem p) : Local m c (s.prog c) (s.handler c) := by
    have there {v p b : Nat} (at_ : s.kernel.pmap.place (c, v) = some (p, b)) : v ≠ va / 4096 := by
      rintro rfl
      cases free.symm.trans at_
    refine ⟨here.toWalked.keep (fun v p b _ at_ => ⟨p, b, (off v (there at_)).trans at_,
      fun _ _ => ⟨rfl, .refl b⟩⟩) child, here.handled.keep (off _ ne.symm)
      (fun v p b _ at_ bit => ⟨data v p b (there at_) at_, b, (off v (there at_)).trans at_, bit⟩)
      fun q b at_ => data _ q b (there at_) at_, here.apart⟩
  by_cases zero : r = 0
  · subst zero
    obtain ⟨q, moves, blank, fresh⟩ := allocPageUser_moves hs hu hva live alloc
    refine ⟨h.moved current secure (h.step moves (.inl rfl)) (.inl rfl) (h.not_born current)
      (fun _ ha => ha) (fun x y _ _ alias_ => alias_.moved (fun _ hm => hm) rfl)
      (fun q' b new => ?_)
      (walked (fun v off => ?_) (fun a v ha => ?_) fun v p b off at_ => ?_), ?_⟩
    · obtain ⟨rfl, rfl⟩ := Prod.mk.inj (Option.some.inj new)
      exact ⟨⟨fun bit => absurd (by decide) bit, fun _ => by decide⟩,
        fun y b off there => absurd there (fresh y b off)⟩
    · exact moves.off _ fun eq => off (Prod.mk.inj eq).2
    · exact moves.off _ fun eq => h.child_ne current ha (Prod.mk.inj eq).1
    · exact moves.data _ p b (fun eq => off (Prod.mk.inj eq).2) at_
    · refine memories_same moves.off (fun y _ => lent_moved rfl y) (fun y p off there => ?_)
        (x := placeOf c va) ?_
      · obtain ⟨-, -, -, b, shown, -⟩ := cell_place there
        exact moves.data y p b off shown
      · have before : s.memories (placeOf c va) = fun _ => 0 := by
          refine memories_zero fun _ _ _ p b there => ?_
          cases free.symm.trans there
        rw [before]
        by_cases shown : va / 4096 < walkedPages
        · exact (memories_of shown ne (fun l => h.not_lent current rfl ((lent_moved rfl _).mp l))
            moves.here (by decide)).trans blank
        · exact memories_zero fun low => absurd low shown
  · have unmapped : s.kernel.pmap.view c va = none := (place_of_view hva).symm.trans free
    have stays := allocPageUser_stays hs hu hva live unmapped alloc zero
    exact h.stays current secure stays (h.not_born current) (fun _ ha => ha) (fun _ hm => hm) rfl
      (walked (fun v _ => stays.place _) (fun a v _ => stays.place _)
        fun v p b _ at_ => stays.data _ p b at_)

/-- The way into `cow_entry`. -/
theorem Inv.fault_cow (h : Inv M K1 K0 s) (current : s.kernel.curenv = some c)
    (secure : Kernel.Secure M K1 K0 (fun _ _ => True) { s.kernel with pmap := m })
    {p a : Nat} (hva : va < ulim) (ne : va / 4096 ≠ ucowPage)
    (at_ : s.place (placeOf c va) = some (p, a)) (bit : a &&& pteCow ≠ 0)
    (user : s.handler c = none) (page : ∀ perm, (s.prog c).page ≠ some (va / 4096, perm))
    {tf : Trapframe} (enter : s.kernel.pmap.enterCow c tf = .ok m) :
    Inv M K1 K0 (s.moved c m (s.prog c) (some (.entered va))) ∧
      (s.moved c m (s.prog c) (some (.entered va))).memories = s.memories := by
  have here := h.locals c
  have high : walkedPages ≤ uxframe / 4096 := by decide
  have notMapped (va' : Nat) : s.handler c ≠ some (.mapped va') := by
    rw [user]
    rintro ⟨⟩
  have alone (q b : Nat) (stack : s.place (placeOf c uxframe) = some (q, b)) (y : Place EnvIdx)
      (d : Nat) (off : y ≠ placeOf c uxframe) : s.place y ≠ some (q, d) := by
    intro there
    refine off (h.sole stack (h.stack _ q b stack high) there
      (not_alias notMapped fun perm hp => ?_))
    exact absurd (here.page _ _ hp).1 (Nat.not_lt_of_le high)
  obtain ⟨q, b, moves, fresh, perm⟩ := enterCow_moves (h.secure.faultReady current) alone enter
  have low : va / 4096 < walkedPages := (h.cow _ p a at_ bit).2
  have off {v : Nat} (lt : v < walkedPages) : m.place (c, v) = s.kernel.pmap.place (c, v) := by
    refine moves.off _ fun eq => ?_
    have : v = uxframe / 4096 := (Prod.mk.inj eq).2
    omega
  have hidden : (placeOf c uxframe).2 < walkedPages → (placeOf c uxframe).2 = ucowPage :=
    fun low => absurd low (Nat.not_lt_of_le high)
  refine ⟨h.moved current secure (h.step moves (.inl rfl)) (.inl rfl) (h.not_born current)
    (fun _ ha => ha)
    (fun x y _ _ alias_ => alias_.moved (fun va' hm => absurd hm (notMapped va')) rfl)
    (fun q' b' new => ?_) ⟨?_, ⟨?_, p, hva, ne, a, (off low).trans at_, bit⟩,
      fun hd va' perm at' fault => ?_⟩, memories_hidden moves rfl hidden⟩
  · obtain ⟨rfl, rfl⟩ := Prod.mk.inj (Option.some.inj new)
    refine ⟨?_, fun y d ne there => absurd there (fresh y d ne)⟩
    rcases perm with rfl | old
    · exact ⟨fun bit => absurd (by decide) bit, fun _ => by decide⟩
    · exact h.holds old
  · refine here.toWalked.off moves.off (fun _ _ => ?_)
      (fun perm hp => absurd (here.page _ _ hp).1 (Nat.not_lt_of_le high))
      fun a ha => h.child_ne current ha
    have there : m.place (c, uxframe / 4096) = _ := moves.here
    rw [there]
    exact Option.some_ne_none _
  · have handled := here.handled
    rw [user] at handled
    exact (off (by decide)).trans handled
  · obtain rfl := Option.some.inj at'
    obtain rfl := Option.some.inj fault
    exact page perm

/-- A page fault. -/
theorem Inv.access_fault (h : Inv M K1 K0 s) (current : s.kernel.curenv = some c) {cow : Nat}
    {cause : Fault} {tf : Trapframe} (proper : s.Proper c cause va)
    (faults : s.kernel.pmap.translate c cause va = none)
    (out : s.access cow c cause va w tf = some s') :
    Inv M K1 K0 s' ∧ s'.memories = s.memories := by
  obtain ⟨up, m, handle, taken, rfl⟩ := access_faults current faults out
  obtain ⟨hva, ne, mapped⟩ := proper.fault faults
  have hv := not_shared_of_user hva
  have hs := h.secure.guarded.consistent
  have hu := h.secure.guarded.userApart
  have careful : ∀ e, s.kernel.curenv = some e →
      Kernel.Careful (fun _ _ => True) s.kernel e (.access cause va w tf) := by
    intro e he _ _ _
    obtain rfl := Option.some.inj (he.symm.trans current)
    refine ⟨fun isStore there noCow _ => ?_, fun isLoad there _ => ?_, fun _ => hv⟩
    · rcases mapped there with isFetch | ⟨-, bit, -⟩
      · rw [isFetch] at isStore
        cases isStore
      · exact absurd noCow bit
    · rcases mapped there with isFetch | ⟨isStore, -⟩
      · rw [isFetch] at isLoad
        cases isLoad
      · rw [isStore] at isLoad
        cases isLoad
  have secure := (h.secure.access careful taken).granted
  unfold handleFault at handle
  split at handle
  · cases handle
  by_cases there : s.kernel.pmap.isMappedPage c va = true
  · rw [if_pos there] at handle
    obtain ⟨⟨p, a⟩, at_⟩ := Option.isSome_iff_exists.mp ((isMappedPage_eq hv).symm.trans there)
    have at' : s.place (placeOf c va) = some (p, a) := (place_of_view hva).trans at_
    by_cases isFetch : cause = .fetch
    · rw [if_pos isFetch] at handle
      obtain ⟨⟨r, m'⟩, map, handle⟩ := Except.bind_ok_iff.mp handle
      obtain ⟨rfl, rfl⟩ := Prod.mk.inj (Except.ok.inj handle)
      obtain ⟨moves, data⟩ := mapPage_moves hs hu hva at_ (by decide) map
      exact h.fault_kept current secure at'
        (sameBits_or (by decide) (by decide) (by decide) (by decide)) moves data ne
    · obtain ⟨-, bit, user, page⟩ := (mapped there).resolve_left isFetch
      rw [if_neg isFetch, if_pos bit] at handle
      obtain ⟨m', enter, handle⟩ := Except.bind_ok_iff.mp handle
      obtain ⟨rfl, rfl⟩ := Prod.mk.inj (Except.ok.inj handle)
      rw [getPerm_of_view hv at_] at bit
      exact h.fault_cow current secure hva ne at' bit user page enter
  · rw [if_neg there] at handle
    obtain ⟨⟨r, m'⟩, alloc, handle⟩ := Except.bind_ok_iff.mp handle
    obtain ⟨rfl, rfl⟩ := Prod.mk.inj (Except.ok.inj handle)
    have free : s.place (placeOf c va) = none := by
      refine (place_of_view hva).trans ?_
      rw [isMappedPage_eq hv] at there
      simpa using there
    exact h.fault_demand current secure hva free ne alloc

/-- An access of user code. -/
theorem Inv.access (h : Inv M K1 K0 s) (current : s.kernel.curenv = some c) {cow : Nat}
    {cause : Fault} {tf : Trapframe} (proper : s.Proper c cause va)
    (out : s.access cow c cause va w tf = some s') :
    Inv M K1 K0 s' ∧ s'.memories = s.meaning c s.memories (.access cause va w tf) := by
  cases goes : s.kernel.pmap.translate c cause va with
  | none =>
    obtain ⟨inv, same⟩ := h.access_fault current proper goes out
    refine ⟨inv, same.trans ?_⟩
    cases cause with
    | store =>
      rw [meaning_store, goes]
      exact (if_neg fun both => both.1 rfl).symm
    | _ => rfl
  | some p =>
    unfold Forks.access at out
    rw [goes] at out
    obtain rfl := Option.some.inj out
    cases cause with
    | store => exact h.access_store current proper goes
    | _ => exact ⟨h, rfl⟩

end

end RiscvMos.Forks
