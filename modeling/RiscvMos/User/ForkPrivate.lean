import RiscvMos.User.ForkMemory
import RiscvMos.Env.ForkCalls

/-!
What a step of one env keeps of the invariant, where it changes a single place
of memory; and of the memories, where at most what that place shows changes.
-/

namespace RiscvMos.Forks

open Pmap CopyOnWrite

/-! ## Permission bits -/

theorem lentPerm_bits {perm : Nat} (small : perm < 0x400) : lentPerm perm < 0x400 ∧
    lentPerm perm &&& pteW = 0 ∧ lentPerm perm &&& pteU = perm &&& pteU ∧
    lentPerm perm &&& pteLibrary = perm &&& pteLibrary := by
  have all : ∀ perm : Fin 0x400, lentPerm perm < 0x400 ∧
      lentPerm perm &&& pteW = 0 ∧ lentPerm perm &&& pteU = perm &&& pteU ∧
      lentPerm perm &&& pteLibrary = perm &&& pteLibrary := by decide +kernel
  exact all ⟨perm, small⟩

theorem ownPerm_bits {perm : Nat} (small : perm < 0x400) (private_ : perm &&& pteLibrary = 0) :
    OwnPerm (ownPerm perm) := by
  have all : ∀ perm : Fin 0x400, perm.val &&& pteLibrary = 0 → ownPerm perm < 0x400 ∧
      (ownPerm perm &&& pteU ≠ 0 ∧ ownPerm perm &&& pteW ≠ 0 ∧
        ownPerm perm &&& pteLibrary = 0) ∧ ownPerm perm &&& pteCow = 0 := by decide +kernel
  obtain ⟨small', writes, cow⟩ := all ⟨perm, small⟩ private_
  exact ⟨small', writes, cow⟩

theorem writes_or_pteV (perm : Nat) : Writes (perm ||| pteV) ↔ Writes perm := by
  unfold Writes
  rw [or_pteV_and perm (b := pteU) (by decide), or_pteV_and perm (b := pteW) (by decide),
    or_pteV_and perm (b := pteLibrary) (by decide)]

theorem library_or_pteV (perm : Nat) : Library (perm ||| pteV) ↔ Library perm := by
  unfold Library
  rw [or_pteV_and perm (b := pteLibrary) (by decide)]

theorem Writes.not_library {perm : Nat} (h : Writes perm) : ¬ Library perm := not_not.mpr h.2.2

theorem SameBits.refl (a : Nat) : SameBits a a := ⟨rfl, rfl, rfl, rfl⟩

theorem SameBits.symm {a b : Nat} (h : SameBits a b) : SameBits b a :=
  ⟨h.user.symm, h.write.symm, h.library.symm, h.cow.symm⟩

theorem SameBits.trans {a b e : Nat} (h : SameBits a b) (h' : SameBits b e) : SameBits a e :=
  ⟨h.user.trans h'.user, h.write.trans h'.write, h.library.trans h'.library, h.cow.trans h'.cow⟩

theorem SameBits.writes {a b : Nat} (h : SameBits a b) : Writes a ↔ Writes b := by
  unfold Writes
  rw [h.user, h.write, h.library]

theorem SameBits.libraries {a b : Nat} (h : SameBits a b) : Library a ↔ Library b := by
  unfold Library
  rw [h.library]

/-! ## What a step of one env leaves -/

variable {M K1 K0 : Nat → Prop} {s s' : Forks} {c : EnvIdx} {m : Pmap EnvIdx} {x₀ : Place EnvIdx}
    {v₀ : Option (Nat × Nat)} {prog : Prog} {handler : Option Handler}

/-- `c` has changed memory to `m` and gone on. -/
def moved (s : Forks) (c : EnvIdx) (m : Pmap EnvIdx) (prog : Prog) (handler : Option Handler) :
    Forks where
  kernel := { s.kernel with pmap := m }
  prog := Function.update s.prog c prog
  handler := Function.update s.handler c handler

theorem moved_prog : (s.moved c m prog handler).prog c = prog := Function.update_self _ _ _

theorem moved_prog_of_ne {e : EnvIdx} (ne : e ≠ c) :
    (s.moved c m prog handler).prog e = s.prog e :=
  Function.update_of_ne ne _ _

theorem moved_handler : (s.moved c m prog handler).handler c = handler := Function.update_self _ _ _

theorem moved_handler_of_ne {e : EnvIdx} (ne : e ≠ c) :
    (s.moved c m prog handler).handler e = s.handler e :=
  Function.update_of_ne ne _ _

theorem setProg_prog : (s.setProg c prog).prog c = prog := Function.update_self _ _ _

theorem setProg_prog_of_ne {e : EnvIdx} (ne : e ≠ c) : (s.setProg c prog).prog e = s.prog e :=
  Function.update_of_ne ne _ _

theorem setProg_moved : { s with kernel := { s.kernel with pmap := m } }.setProg c prog =
    s.moved c m prog (s.handler c) := by
  unfold moved setProg
  rw [Function.update_eq_self]

theorem setHandler_moved :
    { s with kernel := { s.kernel with pmap := m } }.setHandler c handler =
      s.moved c m (s.prog c) handler := by
  unfold moved setHandler
  rw [Function.update_eq_self]

theorem setProg_self : s.setProg c prog = s.moved c s.kernel.pmap prog (s.handler c) :=
  setProg_moved

theorem setHandler_self : s.setHandler c handler = s.moved c s.kernel.pmap (s.prog c) handler :=
  setHandler_moved

theorem moved_self : { s with kernel := { s.kernel with pmap := m } } =
    s.moved c m (s.prog c) (s.handler c) := by
  unfold moved
  rw [Function.update_eq_self, Function.update_eq_self]

theorem Inv.not_born (h : Inv M K1 K0 s) (current : s.kernel.curenv = some c) :
    s.prog c ≠ .born :=
  fun born => (h.born c born).1 (h.current c current)

theorem Inv.child_ne (h : Inv M K1 K0 s) (current : s.kernel.curenv = some c) {e : EnvIdx}
    {a : Nat} (child : (s.prog e).child = some a) : envx a ≠ c := by
  rintro rfl
  exact h.not_born current (h.childBorn e a child).2.1

/-- A page is lent to a child, by the `duppage` that is about it. -/
theorem child_of_lends {x : Place EnvIdx} (lends : prog.lends = some x) :
    ∃ a, prog.child = some a ∧ x.1 = envx a ∧ ∃ perm, prog.page = some (x.2, perm) := by
  cases prog with
  | lent child vpn perm =>
    obtain rfl := Option.some.inj lends
    exact ⟨child, rfl, rfl, perm, rfl⟩
  | _ => cases lends

theorem Local.congr {m' : Pmap EnvIdx} (h : Local m c prog handler)
    (own : ∀ v, m'.place (c, v) = m.place (c, v))
    (data : ∀ va perm n v p a, handler = some (.copying va perm n) →
      v = va / 4096 ∨ v = ucowPage → m.place (c, v) = some (p, a) → m'.mem p = m.mem p)
    (child : ∀ a v, prog.child = some a → m'.place (envx a, v) = m.place (envx a, v)) :
    Local m' c prog handler := by
  have cowAt {va p : Nat} (cow : CowAt m c va p) : CowAt m' c va p :=
    ⟨cow.user, cow.apart, by rw [placeOf, own]; exact cow.page⟩
  refine ⟨⟨fun a v ha hv => ?_, fun a vpn hp => ?_, fun vpn perm hp => ?_,
    fun a vpn perm hp => ?_⟩, ?_, h.apart⟩
  · rw [child a v ha]
    exact h.ahead a v ha hv
  · rw [own]
    exact h.called a vpn hp
  · rw [own]
    exact h.page vpn perm hp
  · rw [own, child a vpn (by rw [hp]; rfl)]
    exact h.lent a vpn perm hp
  · have done := h.handled
    cases handler with
    | none => exact (own _).trans done
    | some hd =>
      cases hd with
      | entered va =>
        obtain ⟨none_, p, cow⟩ := done
        exact ⟨(own _).trans none_, p, cowAt cow⟩
      | looked va perm =>
        obtain ⟨none_, ok, p, cow⟩ := done
        exact ⟨(own _).trans none_, ok, p, cowAt cow⟩
      | copying va perm n =>
        obtain ⟨ok, le, p, q, cow, copy, words⟩ := done
        refine ⟨ok, le, p, q, cowAt cow, (own _).trans copy, fun i => ?_⟩
        obtain ⟨a, page, -⟩ := cow.page
        rw [data va perm n _ p a rfl (.inl rfl) page,
          data va perm n _ q _ rfl (.inr rfl) copy]
        exact words i
      | mapped va => exact done
      | panicked => trivial

/-- An env that is not in `fork`. -/
theorem Walked.idle (child : prog.child = none) : Walked m c prog := by
  cases prog with
  | born | running | setting | forking =>
    exact ⟨(by rintro _ _ ⟨⟩), (by rintro _ _ ⟨⟩), (by rintro _ _ ⟨⟩), (by rintro _ _ _ ⟨⟩)⟩
  | _ => cases child

/-- An env before page `vpn`, of which its child has nothing from there on. -/
theorem Walked.loop {child vpn : Nat} (empty : ∀ v, vpn ≤ v → m.place (envx child, v) = none) :
    Walked m c (.walking child vpn) := by
  refine ⟨fun e v he hv => ?_, (by rintro _ _ ⟨⟩), (by rintro _ _ ⟨⟩), (by rintro _ _ _ ⟨⟩)⟩
  obtain rfl := Option.some.inj he
  exact empty v hv

/-- An env that has not run yet. -/
theorem Local.of_born (unmapped : m.place (c, ucowPage) = none) : Local m c .born none :=
  ⟨.idle rfl, unmapped, (by rintro _ _ _ ⟨⟩)⟩

/-- What a place may hold. -/
def Holds (x : Place EnvIdx) (perm : Nat) : Prop :=
  (perm &&& pteCow ≠ 0 → ¬ Library perm ∧ x.2 < walkedPages) ∧ (walkedPages ≤ x.2 → Writes perm)

theorem Inv.holds (h : Inv M K1 K0 s) {x : Place EnvIdx} {p perm : Nat}
    (here : s.place x = some (p, perm)) : Holds x perm :=
  ⟨h.cow x p perm here, h.stack x p perm here⟩

/-- `p` may be at `x` after the step. -/
def Fits (s s' : Forks) (x : Place EnvIdx) (p a : Nat) : Prop :=
  Holds x a ∧ ∀ y b, y ≠ x → s.place y = some (p, b) →
    (Writes a → s'.Alias x y) ∧ (Writes b → s'.Alias y x) ∧ (Library a ↔ Library b)

/-- What stays at its place fits. -/
theorem Inv.fits (h : Inv M K1 K0 s) {x : Place EnvIdx} {p a a' : Nat}
    (here : s.place x = some (p, a)) (bits : SameBits a' a)
    (aliases : ∀ x y, s.Alias x y → s'.Alias x y) : Fits s s' x p a' := by
  refine ⟨⟨fun cow => ?_, fun hx => ?_⟩, fun y b ne there => ⟨fun w => ?_, fun w => ?_, ?_⟩⟩
  · rw [bits.cow] at cow
    rw [bits.libraries]
    exact h.cow x p a here cow
  · rw [bits.writes]
    exact h.stack x p a here hx
  · exact aliases x y ((h.exclusive x y p a b here (bits.writes.mp w) there).resolve_left ne)
  · exact aliases y x ((h.exclusive y x p b a there w here).resolve_left ne.symm)
  · rw [bits.libraries]
    exact ⟨fun l => h.library x y p a b here l there, fun l => h.library y x p b a there l here⟩

/-- A step of `c` that leaves `m`, with `x` at `v`. -/
structure Step (s : Forks) (c : EnvIdx) (m : Pmap EnvIdx) (x : Place EnvIdx)
    (v : Option (Nat × Nat)) : Prop where
  here : m.place x = v
  off : ∀ y, y ≠ x → m.place y = s.place y
  roots : ∀ d, s.kernel.pmap.pgdir d = 0 → m.pgdir d = 0
  copies : ∀ e, e ≠ c → ∀ va perm n w p b, s.handler e = some (.copying va perm n) →
    w = va / 4096 ∨ w = ucowPage → s.place (e, w) = some (p, b) → m.mem p = s.kernel.pmap.mem p

/-- A step of the running env, from what it keeps. -/
theorem Inv.moved (h : Inv M K1 K0 s) (current : s.kernel.curenv = some c)
    (secure : Kernel.Secure M K1 K0 (fun _ _ => True) { s.kernel with pmap := m })
    (step : Step s c m x₀ v₀)
    (of_env : x₀.1 = c ∨ ∃ a, (s.prog c).child = some a ∧ x₀.1 = envx a ∧ x₀.2 ≠ ucowPage)
    (runs : prog ≠ .born) (child : ∀ a, prog.child = some a → (s.prog c).child = some a)
    (aliases : ∀ x y, x ≠ x₀ → y ≠ x₀ → s.Alias x y → (s.moved c m prog handler).Alias x y)
    (fits : ∀ p a, v₀ = some (p, a) → Fits s (s.moved c m prog handler) x₀ p a)
    (here : Local m c prog handler) : Inv M K1 K0 (s.moved c m prog handler) := by
  have childs {e : EnvIdx} {a : Nat}
      (ha : ((s.moved c m prog handler).prog e).child = some a) : (s.prog e).child = some a := by
    by_cases eq : e = c
    · rw [eq, moved_prog] at ha
      rw [eq]
      exact child a ha
    · rwa [moved_prog_of_ne eq] at ha
  have born {e : EnvIdx} (hb : (s.moved c m prog handler).prog e = .born) :
      e ≠ c ∧ s.prog e = .born := by
    have ne : e ≠ c := by
      rintro rfl
      exact runs (moved_prog.symm.trans hb)
    exact ⟨ne, (moved_prog_of_ne ne).symm.trans hb⟩
  have holds {x : Place EnvIdx} {p perm : Nat} (there : m.place x = some (p, perm)) :
      Holds x perm := by
    by_cases eq : x = x₀
    · rw [eq] at there ⊢
      exact (fits p perm (step.here.symm.trans there)).1
    · exact h.holds ((step.off x eq).symm.trans there)
  refine ⟨secure, ?_, ?_, fun x p perm there => (holds there).1, fun x p perm there =>
    (holds there).2, fun e => ?_, fun e e' a b ha hb => h.children e e' a b (childs ha) (childs hb),
    fun e a ha => ?_, fun e hb => ?_, h.current, h.free, fun e he => ?_⟩
  · refine h.exclusive.place step.off aliases fun p a y b at_ off there => ?_
    obtain ⟨w, w', -⟩ := (fits p a (step.here.symm.trans at_)).2 y b off there
    exact ⟨w, w'⟩
  · refine h.library.place step.off fun p a y b at_ off there => ?_
    exact ((fits p a (step.here.symm.trans at_)).2 y b off there).2.2
  · by_cases eq : e = c
    · rw [eq, moved_prog, moved_handler]
      exact here
    rw [moved_prog_of_ne eq, moved_handler_of_ne eq]
    have old := h.locals e
    have data : ∀ va perm n w p b, s.handler e = some (.copying va perm n) →
        w = va / 4096 ∨ w = ucowPage → s.place (e, w) = some (p, b) →
        m.mem p = s.kernel.pmap.mem p :=
      step.copies e eq
    rcases of_env with own | ⟨a, ha, of_child, ne⟩
    · refine old.congr (fun v => step.off _ ?_) data fun a v ha => step.off _ ?_
      · rintro rfl
        exact eq own
      · rintro rfl
        exact h.child_ne current ha own
    · by_cases eq' : e = envx a
      · subst eq'
        have isBorn := (h.childBorn c a ha).2.1
        have idle := (h.born _ isBorn).2
        rw [isBorn, idle] at old ⊢
        refine .of_born ((step.off _ ?_).trans old.handled)
        rintro rfl
        exact ne rfl
      · refine old.congr (fun v => step.off _ ?_) data fun b v hb => step.off _ ?_
        · rintro rfl
          exact eq' of_child
        · rintro rfl
          exact eq (h.children e c b a hb ha of_child)
  · have ha' := childs ha
    obtain ⟨named, isBorn, notFree⟩ := h.childBorn e a ha'
    exact ⟨named, (moved_prog_of_ne (h.child_ne current ha')).trans isBorn, notFree⟩
  · obtain ⟨ne, hb'⟩ := born hb
    obtain ⟨idle, no⟩ := h.born e hb'
    exact ⟨idle, (moved_handler_of_ne ne).trans no⟩
  · exact step.roots e (h.freed e he)

/-- A call for one place. -/
theorem Inv.step (h : Inv M K1 K0 s) (moves : Moves s.kernel.pmap m x₀ v₀)
    (of_env : x₀.1 = c ∨ ∃ a, (s.prog c).child = some a ∧ x₀.1 = envx a) :
    Step s c m x₀ v₀ := by
  refine ⟨moves.here, moves.off, moves.roots, fun e ne va perm n w p b copying _ there =>
    moves.data _ p b ?_ there⟩
  rintro rfl
  rcases of_env with own | ⟨a, ha, of_child⟩
  · exact ne own
  · have isBorn := (h.childBorn c a ha).2.1
    rw [← of_child] at isBorn
    have idle := (h.born _ isBorn).2
    rw [copying] at idle
    cases idle

/-! ## The memories -/

theorem cell_congr {y : Place EnvIdx} (place : s'.place y = s.place y)
    (lent : s'.Lent y ↔ s.Lent y) : s'.cell y = s.cell y := by
  unfold cell
  rw [place]
  simp only [lent]

theorem cell_place {y : Place EnvIdx} {p : Nat} (here : s.cell y = some p) :
    y.2 < walkedPages ∧ y.2 ≠ ucowPage ∧ ¬ s.Lent y ∧
      ∃ perm, s.place y = some (p, perm) ∧ ¬ Library perm := by
  unfold cell at here
  split at here
  · rename_i shown
    split at here
    · rename_i q perm there
      split at here
      · cases here
      · rename_i no
        obtain rfl := Option.some.inj here
        exact ⟨shown.1, shown.2.1, shown.2.2, perm, there, no⟩
    · cases here
  · cases here

theorem cell_of {y : Place EnvIdx} {p perm : Nat} (low : y.2 < walkedPages) (ne : y.2 ≠ ucowPage)
    (lent : ¬ s.Lent y) (here : s.place y = some (p, perm)) (no : ¬ Library perm) :
    s.cell y = some p := by
  unfold cell
  rw [if_pos ⟨low, ne, lent⟩, here]
  exact if_neg no

theorem memories_of {y : Place EnvIdx} {p perm : Nat} (low : y.2 < walkedPages)
    (ne : y.2 ≠ ucowPage) (lent : ¬ s.Lent y) (here : s.place y = some (p, perm))
    (no : ¬ Library perm) : s.memories y = s.kernel.pmap.mem p :=
  contents_of (cell_of low ne lent here no)

/-- What a place does not show for itself is zero. -/
theorem memories_zero {y : Place EnvIdx} (hidden : y.2 < walkedPages → y.2 ≠ ucowPage →
    ¬ s.Lent y → ∀ p perm, s.place y = some (p, perm) → Library perm) :
    s.memories y = fun _ => 0 := by
  apply contents_blank
  by_contra there
  obtain ⟨p, here⟩ := Option.ne_none_iff_exists'.mp there
  obtain ⟨low, ne, lent, perm, here, no⟩ := cell_place here
  exact no (hidden low ne lent p perm here)

/-- Only what `x` shows may change. -/
theorem memories_update {x : Place EnvIdx} (place : ∀ y, y ≠ x → s'.place y = s.place y)
    (lent : ∀ y, y ≠ x → (s'.Lent y ↔ s.Lent y))
    (data : ∀ y p, y ≠ x → s.cell y = some p → s'.kernel.pmap.mem p = s.kernel.pmap.mem p)
    {w : Vpn → Nat} (here : s'.memories x = w) :
    s'.memories = Function.update s.memories x w :=
  contents_update (fun y ne => cell_congr (place y ne) (lent y ne)) data here

theorem memories_same {x : Place EnvIdx} (place : ∀ y, y ≠ x → s'.place y = s.place y)
    (lent : ∀ y, y ≠ x → (s'.Lent y ↔ s.Lent y))
    (data : ∀ y p, y ≠ x → s.cell y = some p → s'.kernel.pmap.mem p = s.kernel.pmap.mem p)
    (here : s'.memories x = s.memories x) : s'.memories = s.memories := by
  rw [memories_update place lent data here, Function.update_eq_self]

theorem lent_moved (same : prog.lends = (s.prog c).lends) (y : Place EnvIdx) :
    (s.moved c m prog handler).Lent y ↔ s.Lent y := by
  refine exists_congr fun e => ?_
  by_cases eq : e = c
  · rw [eq, moved_prog, same]
  · rw [moved_prog_of_ne eq]

/-- Where nothing else than `x` is lent before and after, the rest is as it was. -/
theorem lent_moved_off {x y : Place EnvIdx} (before : ∀ z, (s.prog c).lends = some z → z = x)
    (after : ∀ z, prog.lends = some z → z = x) (off : y ≠ x) :
    (s.moved c m prog handler).Lent y ↔ s.Lent y := by
  refine exists_congr fun e => ?_
  by_cases eq : e = c
  · rw [eq, moved_prog]
    exact ⟨fun lends => absurd (after y lends) off, fun lends => absurd (before y lends) off⟩
  · rw [moved_prog_of_ne eq]

/-- A child has no page that is lent once its parent lends none. -/
theorem Inv.not_lent_child (h : Inv M K1 K0 s) {child v : Nat}
    (parent : (s.prog c).child = some child) (none_ : prog.lends = none) :
    ¬ (s.moved c m prog handler).Lent (envx child, v) := by
  rintro ⟨e, lends⟩
  by_cases eq : e = c
  · rw [eq, moved_prog, none_] at lends
    cases lends
  · rw [moved_prog_of_ne eq] at lends
    obtain ⟨a, ha, same, -⟩ := child_of_lends lends
    exact eq (h.children e c a child ha parent same.symm)

/-- What other places show of their own stays. -/
theorem cells_data (data : ∀ y p perm, y ≠ x₀ → s.place y = some (p, perm) →
      m.mem p = s.kernel.pmap.mem p) (y : Place EnvIdx) (p : Nat) (off : y ≠ x₀)
    (there : s.cell y = some p) : m.mem p = s.kernel.pmap.mem p := by
  obtain ⟨-, -, -, perm, shown, -⟩ := cell_place there
  exact data y p perm off shown

/-! ## Steps that are of one env alone -/

theorem Alias.moved {x y : Place EnvIdx} (h : s.Alias x y)
    (mapped : ∀ va, s.handler c = some (.mapped va) → handler = some (.mapped va))
    (lends : prog.lends = (s.prog c).lends) : (s.moved c m prog handler).Alias x y := by
  by_cases eq : x.1 = c
  · rcases h with ⟨va, here, rest⟩ | ⟨lent, page⟩
    · refine .inl ⟨va, ?_, rest⟩
      rw [eq] at here ⊢
      rw [moved_handler]
      exact mapped va here
    · refine .inr ⟨?_, page⟩
      rw [eq] at lent ⊢
      rw [moved_prog, lends]
      exact lent
  · unfold Alias
    rw [moved_handler_of_ne eq, moved_prog_of_ne eq]
    exact h

/-- The pages stay where they are, and what they show. -/
theorem Inv.stays (h : Inv M K1 K0 s) (current : s.kernel.curenv = some c)
    (secure : Kernel.Secure M K1 K0 (fun _ _ => True) { s.kernel with pmap := m })
    (stays : Stays s.kernel.pmap m) (runs : prog ≠ .born)
    (child : ∀ a, prog.child = some a → (s.prog c).child = some a)
    (mapped : ∀ va, s.handler c = some (.mapped va) → handler = some (.mapped va))
    (lends : prog.lends = (s.prog c).lends) (here : Local m c prog handler) :
    Inv M K1 K0 (s.moved c m prog handler) ∧
      (s.moved c m prog handler).memories = s.memories := by
  have aliases (x y : Place EnvIdx) (alias_ : s.Alias x y) :
      (s.moved c m prog handler).Alias x y := alias_.moved mapped lends
  refine ⟨h.moved current secure (h.step (stays.moves (c, 0)) (.inl rfl)) (.inl rfl) runs child
    (fun x y _ _ => aliases x y) (fun p a there => h.fits there (.refl a) aliases) here, ?_⟩
  refine contents_same (fun y => cell_congr (stays.place y) (lent_moved lends y))
    fun y p there => ?_
  obtain ⟨-, -, -, perm, there, -⟩ := cell_place there
  exact stays.data y p perm there

end RiscvMos.Forks
