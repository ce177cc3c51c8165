import RiscvMos.User.CowServed

/-!
Whether an env can tell that its store was a copy-on-write fault.
-/

namespace RiscvMos.Machine

open Pmap Forks

section
variable {M K1 K0 : Nat → Prop} {c : EnvIdx} {m m' : Machine} {s s' : Pmap EnvIdx} {dev : Devices}
    {code : CowCode} {tf : Trapframe} {p cow : Nat}

/-- The frame is on the exception stack, which is what it was above its words, or new. -/
structure Entered (c : EnvIdx) (p : Nat) (tf : Trapframe) (s s' : Pmap EnvIdx) : Prop where
  here : ∃ a, s'.place (uxplace c) = some (p, a)
  off : ∀ y, y ≠ uxplace c → s'.place y = s.place y
  data : ∀ y r b, y ≠ uxplace c → s.place y = some (r, b) → r ≠ p → s'.mem r = s.mem r
  frame : ∃ old, s'.mem p = frameWords tf old
  old : s'.place (uxplace c) = s.place (uxplace c) ∧ s'.mem p = frameWords tf (s.mem p) ∨
    s.place (uxplace c) = none ∧ ∀ y b, y ≠ uxplace c → s.place y ≠ some (p, b)

theorem enterCow_entered (hr : FaultReady M K1 K0 s c) (h : s.enterCow c tf = .ok s') :
    ∃ p, Entered c p tf s s' := by
  obtain ⟨m, q, a, page, no, rfl⟩ := enterCow_store hr h
  have same := writePage_place no (frameWords tf (m.mem q))
  have data {r : Nat} (ne : r ≠ q) : (m.writePage q (frameWords tf (m.mem q))).mem r = m.mem r :=
    Function.update_of_ne ne _ _
  have frame : (m.writePage q (frameWords tf (m.mem q))).mem q = frameWords tf (m.mem q) :=
    Function.update_self _ _ _
  rcases page with ⟨rfl, here⟩ | ⟨moves, -, none_, fresh⟩
  · exact ⟨q, ⟨a, (same _).trans here⟩, fun y _ => same y, fun _ _ _ _ _ ne => data ne,
      ⟨_, frame⟩, .inl ⟨same _, frame⟩⟩
  · exact ⟨q, ⟨a, (same _).trans moves.here⟩, fun y ne => (same y).trans (moves.off y ne),
      fun y r b off there ne => (data ne).trans (moves.data y r b off there),
      ⟨_, frame⟩, .inr ⟨none_, fresh⟩⟩

/-- A store at `tf`'s `stval` faults on a copy-on-write page. -/
structure Faults (M K1 K0 : Nat → Prop) (c : EnvIdx) (tf : Trapframe) (m : Machine) : Prop
    extends Serving M K1 K0 c m where
  words : ∀ i, tf i < 2 ^ 64
  refused : m.kernel.pmap.translate c .store (tf Trapframe.stval) = none
  mapped : m.kernel.pmap.isMappedPage c (tf Trapframe.stval) = true
  cow : m.kernel.pmap.getPerm c (tf Trapframe.stval) &&& pteCow ≠ 0

theorem cowFault_some (current : m.kernel.curenv = some c)
    (out : m.cowFault dev cow code tf = some m') :
    ∃ k, m.kernel.handleException .store (tf Trapframe.stval) tf = .ok (.entry cow, k) ∧
      ({ m with kernel := k, kstack := resume tf (.entry cow) }.ret).cowEntry dev c code =
        some m' := by
  obtain ⟨c', current', out⟩ := Option.bind_eq_some_iff.mp out
  obtain rfl := Option.some.inj (current.symm.trans current')
  obtain ⟨⟨r, k⟩, handled, rest⟩ := Option.bind_eq_some_iff.mp out
  cases r with
  | retry => cases rest
  | entry pc =>
    dsimp only at rest
    split at rest
    · rename_i eq
      rw [eq] at handled rest
      exact ⟨k, Except.ok_of_toOption handled, rest⟩
    · cases rest

theorem frameOn_frame {old : Vpn → Nat} (frame : s.mem p = frameWords tf old) :
    frameOn s p = tf := by
  funext i
  have word : ¬ 472 + i.val < 471 ∧ ¬ 472 + i.val = 471 := by omega
  unfold frameOn
  rw [frame]
  unfold frameWords
  rw [if_neg word.1, if_neg word.2]
  exact congrArg tf (Fin.ext (Nat.add_sub_cancel_left 472 i.val))

theorem Faults.enters (h : Faults M K1 K0 c tf m) {k : Kernel} {r : Resume}
    (handled : m.kernel.handleException .store (tf Trapframe.stval) tf = .ok (r, k)) :
    ∃ p, Entered c p tf m.kernel.pmap k.pmap ∧
      Handling M K1 K0 c p tf ({ m with kernel := k, kstack := resume tf r }.ret) := by
  have careful : ∀ e, m.kernel.curenv = some e → Kernel.Careful (fun _ _ => True) m.kernel e
      (.access .store (tf Trapframe.stval) 0 tf) := by
    intro e he _ _ _
    obtain rfl := Option.some.inj (he.symm.trans h.current)
    refine ⟨fun _ _ noCow => absurd noCow h.cow, fun isLoad => absurd isLoad (by decide),
      fun unmapped => absurd (h.mapped.symm.trans unmapped) (by decide)⟩
  have taken : m.kernel.access .store (tf Trapframe.stval) 0 tf = .ok k := by
    simp only [Kernel.access, h.current, h.refused]
    exact Except.bind_ok_iff.mpr ⟨_, handled, rfl⟩
  have secure := (h.secure.access careful taken).granted
  obtain ⟨c', up, s, current, fault, rfl⟩ := Kernel.handleException_ok handled
  obtain rfl := Option.some.inj (h.current.symm.trans current)
  unfold handleFault at fault
  split at fault
  · cases fault
  rw [if_pos h.mapped, if_neg (by decide), if_pos h.cow] at fault
  obtain ⟨s₁, enter, fault⟩ := Except.bind_ok_iff.mp fault
  obtain ⟨-, rfl⟩ := Prod.mk.inj (Except.ok.inj fault)
  obtain ⟨p, entered⟩ := enterCow_entered (h.secure.faultReady h.current) enter
  refine ⟨p, entered, ⟨secure, h.current⟩, entered.here, ?_⟩
  obtain ⟨old, frame⟩ := entered.frame
  exact frameOn_frame frame

/-- The store is not to the exception stack itself, where the handler would fault. -/
theorem Faults.off (h : Faults M K1 K0 c tf m) (entered : Entered c p tf m.kernel.pmap s')
    (stack : ∀ a, s'.place (uxplace c) = some (p, a) → permits a .store ∨ a &&& pteCow = 0) :
    placeOf c (tf Trapframe.stval) ≠ uxplace c := by
  intro eq
  have hva : tf Trapframe.stval < ulim := by
    have page : tf Trapframe.stval / 4096 = uxframe / 4096 := (Prod.mk.inj eq).2
    unfold uxframe uxstacktop utop ulim at page
    unfold ulim
    omega
  have hv := not_shared_of_user hva
  obtain ⟨a, view⟩ := view_of_isMappedPage hv h.mapped
  have there := (place_of_view hva).trans view
  rw [eq] at there
  rcases entered.old with ⟨same, -⟩ | ⟨none_, -⟩
  · obtain ⟨a', here⟩ := entered.here
    obtain ⟨-, rfl⟩ := Prod.mk.inj (Option.some.inj ((here.symm.trans same).trans there))
    rcases stack a' here with permitted | noCow
    · have goes := place_translate hva (eq ▸ there) permitted
      cases h.refused.symm.trans goes
    · exact h.cow (by rw [getPerm_of_view hv view, noCow])
  · cases none_.symm.trans there

/-- The env goes on with its context, and has its page for itself. -/
structure Transparent (c : EnvIdx) (tf : Trapframe) (m m' : Machine) : Prop where
  current : m'.kernel.curenv = some c
  context : ∃ f, m'.restored = some f ∧ (∀ i : Fin 40, i.val < 32 → f i = tf i) ∧
    f Trapframe.sepc = tf Trapframe.sepc ∧ f Trapframe.sscratch = tf Trapframe.sscratch
  page : ∃ q, m'.kernel.pmap.translate c .store (tf Trapframe.stval) = some q ∧
    m'.kernel.pmap.mem q =
      m.kernel.pmap.mem (m.kernel.pmap.getPa c (tf Trapframe.stval) / 4096)
  free : m'.kernel.pmap.isMappedPage c ucow = false

/-- `a0` is an `int`, the page is not at `UCOW`, and if it is the exception stack too, then the
frame and the stores of the handler have left each word as it was when it is copied. -/
structure Unseen (c : EnvIdx) (code : CowCode) (tf : Trapframe) (s : Pmap EnvIdx) : Prop where
  register : tf 10 < 2 ^ 31 ∨ 2 ^ 64 - 2 ^ 31 ≤ tf 10
  apart : tf Trapframe.stval / 4096 ≠ ucow / 4096
  stack : let page := s.getPa c (tf Trapframe.stval) / 4096
    s.isMappedPage c uxframe = true → s.getPa c uxframe / 4096 = page →
    ∀ n < 1024, wordOf (code.stack (frameWords tf (s.mem page)) n) n = wordOf (s.mem page) n

theorem int_register {w : Nat} (small : w < 2 ^ 64) :
    intToULong (uIntToInt (uInt w)) = w ↔ w < 2 ^ 31 ∨ 2 ^ 64 - 2 ^ 31 ≤ w := by
  unfold intToULong uIntToInt uInt
  split <;> omega

theorem getPa_page {va r a : Nat} (hva : va < ulim) (here : s.place (placeOf c va) = some (r, a)) :
    s.isMappedPage c va = true ∧ s.getPa c va / 4096 = r := by
  have hv := not_shared_of_user hva
  have view := (place_of_view hva).symm.trans here
  rw [isMappedPage_eq hv, getPa_of_view hv view, view]
  exact ⟨rfl, by omega⟩

/-- The words that the copy has got are the words that the page had. -/
theorem Entered.words (h : Entered c p tf s s') (code : CowCode) {va r a : Nat}
    (off : placeOf c va ≠ uxplace c) (there : s.place (placeOf c va) = some (r, a)) :
    (∀ n < 1024, wordOf (if r = p then code.stack (s'.mem p) n else s'.mem r) n =
      wordOf (s.mem r) n) ↔
    (s.isMappedPage c uxframe = true → s.getPa c uxframe / 4096 = r →
      ∀ n < 1024, wordOf (code.stack (frameWords tf (s.mem r)) n) n = wordOf (s.mem r) n) := by
  have hux : uxframe < ulim := by decide
  by_cases eq : r = p
  · subst eq
    rcases h.old with ⟨same, frame⟩ | ⟨-, fresh⟩
    · obtain ⟨b, here⟩ := h.here
      obtain ⟨mapped, page⟩ := getPa_page hux (same.symm.trans here)
      rw [frame]
      simp only [if_pos trivial]
      exact ⟨fun all _ _ => all, fun all => all mapped page⟩
    · exact absurd there (fresh _ a off)
  · have data := h.data _ r a off there eq
    simp only [if_neg eq, data]
    refine iff_of_true (fun _ _ => trivial) fun mapped page => ?_
    rw [isMappedPage_eq (by decide)] at mapped
    obtain ⟨⟨q, b⟩, view⟩ := Option.isSome_iff_exists.mp mapped
    have here := (place_of_view hux).trans view
    obtain rfl := page.symm.trans (getPa_page hux here).2
    rcases h.old with ⟨same, -⟩ | ⟨none_, -⟩
    · obtain ⟨b', here'⟩ := h.here
      exact absurd (Prod.mk.inj (Option.some.inj (here.symm.trans (same.symm.trans here')))).1 eq
    · cases none_.symm.trans here

/-- The handler has the frame, and comes to its end. -/
theorem Faults.served (h : Faults M K1 K0 c tf m) (out : m.cowFault dev cow code tf = some m') :
    ∃ p m₁, Entered c p tf m.kernel.pmap m₁.kernel.pmap ∧
      placeOf c (tf Trapframe.stval) ≠ uxplace c ∧
      Served M K1 K0 c p code tf (tf Trapframe.stval) m₁ m' := by
  obtain ⟨k, handled, out⟩ := cowFault_some h.current out
  obtain ⟨p, entered, handling⟩ := h.enters handled
  obtain ⟨m₁, -, -, -, -, -, -, -, -, -, -, prologue, -⟩ := cowEntry_some out
  have off := h.off entered fun a here => (handling.push (W := fun _ => False) here prologue).1
  exact ⟨p, _, entered, off, handling.serves h.words rfl off out⟩

/-- A run that comes back is transparent to the env or not. -/
theorem Faults.transparent (h : Faults M K1 K0 c tf m)
    (out : m.cowFault dev cow code tf = some m') :
    Transparent c tf m m' ↔ Unseen c code tf m.kernel.pmap := by
  obtain ⟨p, m₁, entered, off, served⟩ := h.served out
  have hva := Kernel.lt_ulim_of_not_illegal served.legal
  obtain ⟨a, view⟩ := view_of_isMappedPage (not_shared_of_user hva) h.mapped
  have there := (place_of_view hva).trans view
  have there₁ := (entered.off _ off).trans there
  have words := entered.words code off there
  have live := served.live
  constructor
  · rintro ⟨-, ⟨f, restored, regs, -, -⟩, ⟨q, goes, page⟩, -⟩
    obtain rfl := Option.some.inj (restored.symm.trans served.restored)
    obtain ⟨b, here, -⟩ := translate_place live hva goes
    have apart : tf Trapframe.stval / 4096 ≠ ucowPage := by
      intro eq
      have same : placeOf c (tf Trapframe.stval) = (c, ucowPage) := congrArg (Prod.mk c) eq
      rw [same, served.free] at here
      cases here
    obtain ⟨q', b', here', -, data⟩ := served.page apart _ a there₁
    obtain ⟨rfl, -⟩ := Prod.mk.inj (Option.some.inj (here.symm.trans here'))
    refine ⟨(int_register (h.words 10)).mp ?_, apart, words.mp fun n lt => ?_⟩
    · have register := regs 10 (by decide)
      rwa [Trapframe.set_same] at register
    · rw [← data n lt, page]
  · rintro ⟨register, apart, stack⟩
    obtain ⟨q, b, here, permitted, data⟩ := served.page apart _ a there₁
    refine ⟨served.current, ⟨_, served.restored, fun i _ => ?_, rfl, rfl⟩,
      ⟨q, place_translate hva here permitted, eq_of_wordOf fun n lt => ?_⟩, ?_⟩
    · rw [(int_register (h.words 10)).mpr register]
      exact congrFun (Function.update_eq_self 10 tf) i
    · rw [data n lt]
      exact words.mpr stack n lt
    · rw [isMappedPage_eq (by decide), ← place_of_view (show ucow < ulim by decide)]
      exact congrArg Option.isSome served.free

end

end RiscvMos.Machine
