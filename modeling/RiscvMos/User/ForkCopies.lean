import RiscvMos.User.ForkRuns

/-!
`fork` copies memory: a page of the child is, once the loop of `fork` has passed it,
what the page of the parent was when the loop began, unless the parent stored to it
in between. Nothing that other envs do matters.
-/

namespace RiscvMos

/-- The page that the loop of `fork` is at, and after the loop the first that it leaves. -/
def Prog.vpn : Prog → Nat
  | .walking _ vpn | .called _ vpn | .looked _ vpn _ | .lent _ vpn _ => vpn
  | .finishing _ => Forks.walkedPages
  | .born | .running | .setting | .forking => 0

namespace Forks

open Pmap CopyOnWrite

/-- Steps of a run during which `c` is in the loop of `fork` for `child`, or after it
before `child` may run, and does not store to its page `v`. -/
inductive Forking (cow : Nat) (c : EnvIdx) (child v : Nat) (s₁ : Forks) : Forks → Prop where
  | start (enters : s₁.prog c = .walking child 0) : Forking cow c child v s₁ s₁
  | step {s s' : Forks} {d : EnvIdx} {a : ForkAct} (h : Forking cow c child v s₁ s)
      (current : s.kernel.curenv = some d) (allowed : s.Allowed d a)
      (out : s.exec cow a = some s')
      (quiet : d = c → ∀ va w tf, a = .access .store va w tf → va / 4096 ≠ v)
      (still : (s'.prog c).child = some child) : Forking cow c child v s₁ s'

section
variable {M K1 K0 : Nat → Prop} {s s' s₁ : Forks} {c d : EnvIdx} {cow child v : Nat}

/-! ## What a step leaves -/

theorem call_prog {f : Kernel → Except Halt (Int × Kernel)} {r : Int}
    (hx : s.call f = some (r, s')) : s'.prog = s.prog := by
  obtain ⟨k, -, rfl⟩ := call_some.mp hx
  rfl

theorem cowEntry_prog {hd : Handler} (out : s.cowEntry c hd = some s') : s'.prog = s.prog := by
  cases hd with
  | entered va =>
    obtain ⟨pte, -, out⟩ := Option.bind_eq_some_iff.mp out
    obtain rfl := Option.some.inj out
    rfl
  | looked va perm =>
    obtain ⟨⟨r, s₁⟩, hcall, out⟩ := Option.bind_eq_some_iff.mp out
    obtain rfl := Option.some.inj out
    exact show s₁.prog = s.prog from call_prog hcall
  | copying va perm n =>
    by_cases lt : n < 1024
    · have out := (if_pos lt).symm.trans out
      obtain ⟨m, -, out⟩ := Option.bind_eq_some_iff.mp out
      obtain rfl := Option.some.inj out
      rfl
    · have out := (if_neg lt).symm.trans out
      obtain ⟨⟨r, s₁⟩, hcall, out⟩ := Option.bind_eq_some_iff.mp out
      obtain rfl := Option.some.inj out
      exact show s₁.prog = s.prog from call_prog hcall
  | mapped va =>
    obtain ⟨⟨r, s₁⟩, hcall, out⟩ := Option.bind_eq_some_iff.mp out
    obtain rfl := Option.some.inj out
    exact show s₁.prog = s.prog from call_prog hcall
  | panicked => cases out

theorem access_prog {cause : Fault} {va w : Nat} {tf : Trapframe}
    (out : s.access cow c cause va w tf = some s') : s'.prog = s.prog := by
  unfold Forks.access at out
  split at out
  · obtain rfl := Option.some.inj out
    split <;> rfl
  · obtain ⟨⟨resume, k⟩, -, out⟩ := Option.bind_eq_some_iff.mp out
    cases resume with
    | retry =>
      obtain rfl := Option.some.inj out
      rfl
    | entry pc =>
      dsimp only at out
      split at out
      · obtain rfl := Option.some.inj out
        rfl
      · cases out

/-- Another env goes on in `fork`: it may make the env, and let it run. -/
theorem forkStep_prog_other (ne : c ≠ d) {prog : Prog} (out : s.forkStep cow d prog = some s') :
    s'.prog c = s.prog c ∨ s'.prog c = .running ∨ s'.prog c = .born := by
  cases prog with
  | born | running => cases out
  | setting =>
    obtain ⟨⟨r, s₁⟩, hcall, out⟩ := Option.bind_eq_some_iff.mp out
    obtain rfl := Option.some.inj out
    exact .inl ((setProg_prog_of_ne ne).trans (congrFun (call_prog hcall) c))
  | forking =>
    obtain ⟨⟨r, s₁⟩, hcall, out⟩ := Option.bind_eq_some_iff.mp out
    obtain rfl := Option.some.inj out
    rw [setProg_prog_of_ne ne, ← call_prog hcall]
    unfold bear
    split
    · rename_i e _
      by_cases eq : c = e
      · rw [eq]
        exact .inr (.inr (Function.update_self _ _ _))
      · exact .inl (Function.update_of_ne eq _ _)
    · exact .inl rfl
  | walking child vpn =>
    by_cases low : vpn < walkedPages
    · have out := (if_pos low).symm.trans out
      obtain ⟨mapped, -, out⟩ := Option.bind_eq_some_iff.mp out
      obtain rfl := Option.some.inj out
      exact .inl (setProg_prog_of_ne ne)
    · have out := (if_neg low).symm.trans out
      obtain ⟨⟨r, s₁⟩, hcall, out⟩ := Option.bind_eq_some_iff.mp out
      obtain rfl := Option.some.inj out
      exact .inl ((setProg_prog_of_ne ne).trans (congrFun (call_prog hcall) c))
  | called child vpn =>
    obtain ⟨pte, -, out⟩ := Option.bind_eq_some_iff.mp out
    obtain rfl := Option.some.inj out
    exact .inl (setProg_prog_of_ne ne)
  | looked child vpn perm =>
    by_cases writes : Writes perm
    · have out := (if_pos writes).symm.trans out
      obtain ⟨⟨r, s₁⟩, hcall, out⟩ := Option.bind_eq_some_iff.mp out
      obtain rfl := Option.some.inj out
      exact .inl ((setProg_prog_of_ne ne).trans (congrFun (call_prog hcall) c))
    · have out := (if_neg writes).symm.trans out
      obtain ⟨⟨r, s₁⟩, hcall, out⟩ := Option.bind_eq_some_iff.mp out
      obtain rfl := Option.some.inj out
      exact .inl ((setProg_prog_of_ne ne).trans (congrFun (call_prog hcall) c))
  | lent child vpn perm =>
    obtain ⟨⟨r, s₁⟩, hcall, out⟩ := Option.bind_eq_some_iff.mp out
    obtain rfl := Option.some.inj out
    exact .inl ((setProg_prog_of_ne ne).trans (congrFun (call_prog hcall) c))
  | finishing child =>
    obtain ⟨⟨r, s₁⟩, hcall, out⟩ := Option.bind_eq_some_iff.mp out
    obtain rfl := Option.some.inj out
    rw [setProg_prog_of_ne ne, ← call_prog hcall]
    split
    · by_cases eq : c = envx child
      · rw [eq, setProg_prog]
        exact .inr (.inl rfl)
      · exact .inl (setProg_prog_of_ne eq)
    · exact .inl rfl

/-- A step of another env: `c` stays in `fork` where it is, if it is in it. -/
theorem exec_prog_other (current : s.kernel.curenv = some d) (ne : c ≠ d) {a : ForkAct}
    (out : s.exec cow a = some s') (still : (s'.prog c).child = some child) :
    s'.prog c = s.prog c := by
  unfold Forks.exec at out
  obtain ⟨d', hd, out⟩ := Option.bind_eq_some_iff.mp out
  obtain rfl := Option.some.inj (current.symm.trans hd)
  cases a with
  | access cause va w tf => exact congrFun (access_prog out) c
  | fork =>
    dsimp only at out
    split at out
    · obtain rfl := Option.some.inj out
      exact setProg_prog_of_ne ne
    · cases out
  | next =>
    dsimp only at out
    split at out
    · exact congrFun (cowEntry_prog out) c
    · rcases forkStep_prog_other ne out with same | running | born
      · exact same
      · rw [running] at still
        cases still
      · rw [born] at still
        cases still
  | sysYield | tick =>
    obtain ⟨⟨r, s₁⟩, hcall, out⟩ := Option.bind_eq_some_iff.mp out
    obtain rfl := Option.some.inj out
    exact congrFun (call_prog hcall) c

/-- An access changes at most the page that it stores to. -/
theorem meaning_access {m : Place EnvIdx → Vpn → Nat} {x : Place EnvIdx} {cause : Fault}
    {va w : Nat} {tf : Trapframe} (off : cause = .store → x ≠ placeOf c va) :
    s.meaning c m (.access cause va w tf) x = m x := by
  cases cause with
  | store =>
    rw [meaning_store]
    split
    · exact Function.update_of_ne (off rfl) _ _
    · rfl
  | _ => rfl

/-- A step changes memory of the env that makes it, and of one that it makes. -/
theorem meaning_off {m : Place EnvIdx → Vpn → Nat} {x : Place EnvIdx} {a : ForkAct}
    (own : x.1 ≠ d) (others : ∀ a, (s.prog d).child = some a → x.1 ≠ envx a) :
    s.meaning d m a x = m x := by
  cases a with
  | access cause va w tf => exact meaning_access fun _ eq => own (congrArg Prod.fst eq)
  | next =>
    unfold meaning
    cases user : s.handler d with
    | some hd => rfl
    | none =>
      cases at_ : s.prog d with
      | looked child vpn perm =>
        dsimp only
        split
        · rfl
        · refine Function.update_of_ne (fun eq => ?_) _ _
          exact others child (by rw [at_]; rfl) (congrArg Prod.fst eq)
      | lent child vpn perm =>
        refine Function.update_of_ne (fun eq => ?_) _ _
        exact others child (by rw [at_]; rfl) (congrArg Prod.fst eq)
      | _ => rfl
  | _ => rfl

/-! ## The loop -/

/-- The pages that the loop has passed are copied. -/
structure Copies (s₁ s : Forks) (c : EnvIdx) (child v : Nat) : Prop where
  loop : (s.prog c).child = some child
  parent : s.memories (c, v) = s₁.memories (c, v)
  child : v < (s.prog c).vpn → s.memories (envx child, v) = s₁.memories (c, v)

/-- Neither memory changes, and the loop stays at its page. -/
theorem Copies.same (h : Copies s₁ s c child v) (loop : (s'.prog c).child = some child)
    (vpn : (s'.prog c).vpn = (s.prog c).vpn) (parent : s'.memories (c, v) = s.memories (c, v))
    (same : s'.memories (envx child, v) = s.memories (envx child, v)) :
    Copies s₁ s' c child v := by
  refine ⟨loop, parent.trans h.parent, fun low => same.trans (h.child ?_)⟩
  rwa [← vpn]

/-- The loop passes a page. -/
theorem Copies.pass (h : Copies s₁ s c child v) (loop : (s'.prog c).child = some child)
    (vpn : (s'.prog c).vpn = (s.prog c).vpn + 1) (other : envx child ≠ c)
    (off : ∀ x, x ≠ (envx child, (s.prog c).vpn) → s'.memories x = s.memories x)
    (here : s'.memories (envx child, (s.prog c).vpn) = s.memories (c, (s.prog c).vpn)) :
    Copies s₁ s' c child v := by
  refine ⟨loop, (off _ fun eq => other (congrArg Prod.fst eq).symm).trans h.parent, fun low => ?_⟩
  by_cases eq : v = (s.prog c).vpn
  · rw [eq, here, ← eq]
    exact h.parent
  · rw [off _ fun same => eq (congrArg Prod.snd same)]
    exact h.child (by omega)

/-- The loop looks at a page, or ends. -/
theorem Copies.walking {vpn : Nat} (h : Inv M K1 K0 s) (copies : Copies s₁ s c child v)
    (current : s.kernel.curenv = some c) (agrees : SelfMapAgrees s.kernel.pmap c)
    (at_ : s.prog c = .walking child vpn)
    (out : s.forkStep cow c (.walking child vpn) = some s') (same : s'.memories = s.memories)
    (still : (s'.prog c).child = some child) : Copies s₁ s' c child v := by
  have other := h.child_ne current copies.loop
  by_cases low : vpn < walkedPages
  · have out := (if_pos low).symm.trans out
    obtain ⟨mapped, look, out⟩ := Option.bind_eq_some_iff.mp out
    obtain rfl := Option.some.inj out
    obtain rfl := Option.some.inj ((agrees.isMapped _ (shift_lt low)).symm.trans look)
    by_cases there : s.kernel.pmap.isMappedPage c (vpn <<< 12) = true
    · rw [if_pos there] at same still ⊢
      refine copies.same still ?_ (by rw [same]) (by rw [same])
      rw [setProg_prog, at_]
      rfl
    · rw [if_neg there] at same still ⊢
      refine copies.pass still ?_ other (fun x _ => by rw [same]) ?_
      · rw [setProg_prog, at_]
        rfl
      -- neither of them has the page
      rw [isMappedPage_eq (not_shared_of_user (shift_lt low)), ← place_of_view (shift_lt low),
        placeOf_shift] at there
      rw [same, at_, memories_zero, memories_zero]
      · intro _ _ _ p perm shown
        exact absurd (by rw [show s.kernel.pmap.place (c, vpn) = _ from shown]; rfl) there
      · intro _ _ _ p perm shown
        have ahead := (h.locals c).ahead child vpn copies.loop (by rw [at_]; exact le_rfl)
        cases ahead.symm.trans shown
  · have out := (if_neg low).symm.trans out
    obtain ⟨⟨r, s₂⟩, hcall, out⟩ := Option.bind_eq_some_iff.mp out
    obtain rfl := Option.some.inj out
    refine ⟨still, ?_, fun passed => ?_⟩
    · rw [same]
      exact copies.parent
    · rw [same]
      rw [setProg_prog] at passed
      refine copies.child ?_
      rw [at_]
      exact Nat.lt_of_lt_of_le passed (Nat.le_of_not_lt low)

/-- `duppage` shares a page with the child, or begins to make it copy-on-write. -/
theorem Copies.looked {vpn perm : Nat} (h : Inv M K1 K0 s) (copies : Copies s₁ s c child v)
    (current : s.kernel.curenv = some c) (user : s.handler c = none)
    (at_ : s.prog c = .looked child vpn perm)
    (out : s.forkStep cow c (.looked child vpn perm) = some s')
    (same : s'.memories = s.meaning c s.memories .next)
    (still : (s'.prog c).child = some child) : Copies s₁ s' c child v := by
  have other := h.child_ne current copies.loop
  unfold meaning at same
  rw [user, at_] at same
  dsimp only at same
  by_cases writes : Writes perm
  · have out := (if_pos writes).symm.trans out
    obtain ⟨⟨r, s₂⟩, hcall, out⟩ := Option.bind_eq_some_iff.mp out
    obtain rfl := Option.some.inj out
    rw [if_pos (.inl writes)] at same
    refine copies.same still ?_ (by rw [same]) (by rw [same])
    rw [setProg_prog, at_]
    rfl
  · have out := (if_neg writes).symm.trans out
    obtain ⟨⟨r, s₂⟩, hcall, out⟩ := Option.bind_eq_some_iff.mp out
    obtain rfl := Option.some.inj out
    have vpn_eq : ((s₂.setProg c (.walking child (vpn + 1))).prog c).vpn = (s.prog c).vpn + 1 := by
      rw [setProg_prog, at_]
      rfl
    by_cases library : Library perm
    · rw [if_pos (.inr library)] at same
      refine copies.pass still vpn_eq other (fun x _ => by rw [same]) ?_
      -- a page to share is nobody's own
      obtain ⟨-, -, -, p, a, shown, bits⟩ := (h.locals c).page vpn perm (by rw [at_]; rfl)
      rw [same, at_, memories_zero, memories_zero]
      · intro _ _ _ q b there
        obtain ⟨-, rfl⟩ := Prod.mk.inj (Option.some.inj (shown.symm.trans there))
        exact bits.libraries.mp library
      · intro _ _ _ q b there
        have ahead := (h.locals c).ahead child vpn copies.loop (by rw [at_]; exact le_rfl)
        cases ahead.symm.trans there
    · rw [if_neg (not_or.mpr ⟨writes, library⟩)] at same
      refine copies.pass still vpn_eq other (fun x off => ?_) ?_
      · rw [same]
        rw [at_] at off
        exact Function.update_of_ne off _ _
      · rw [same, at_]
        exact Function.update_self _ _ _

/-- The parent's own step in the loop. -/
theorem Copies.forkStep (h : Inv M K1 K0 s) (copies : Copies s₁ s c child v)
    (current : s.kernel.curenv = some c) (user : s.handler c = none)
    (agrees : SelfMapAgrees s.kernel.pmap c) (out : s.forkStep cow c (s.prog c) = some s')
    (same : s'.memories = s.meaning c s.memories .next)
    (still : (s'.prog c).child = some child) : Copies s₁ s' c child v := by
  have loop := copies.loop
  cases at_ : s.prog c with
  | born | running | setting | forking =>
    rw [at_] at loop
    cases loop
  | walking child' vpn =>
    rw [at_] at loop out
    obtain rfl := Option.some.inj loop
    refine copies.walking h current agrees at_ out ?_ still
    rw [same]
    unfold meaning
    rw [user, at_]
  | called child' vpn =>
    rw [at_] at out
    unfold meaning at same
    rw [user, at_] at same
    obtain ⟨pte, -, out⟩ := Option.bind_eq_some_iff.mp out
    obtain rfl := Option.some.inj out
    refine copies.same still ?_ (by rw [same]) (by rw [same])
    rw [setProg_prog, at_]
    rfl
  | looked child' vpn perm =>
    rw [at_] at loop out
    obtain rfl := Option.some.inj loop
    exact copies.looked h current user at_ out same still
  | lent child' vpn perm =>
    rw [at_] at loop out
    obtain rfl := Option.some.inj loop
    unfold meaning at same
    rw [user, at_] at same
    obtain ⟨⟨r, s₂⟩, hcall, out⟩ := Option.bind_eq_some_iff.mp out
    obtain rfl := Option.some.inj out
    dsimp only at same
    refine copies.pass still ?_ (h.child_ne current copies.loop) (fun x off => ?_) ?_
    · rw [setProg_prog, at_]
      rfl
    · rw [same]
      rw [at_] at off
      exact Function.update_of_ne off _ _
    · rw [same, at_]
      exact Function.update_self _ _ _
  | finishing child' =>
    rw [at_] at out
    obtain ⟨⟨r, s₂⟩, hcall, out⟩ := Option.bind_eq_some_iff.mp out
    obtain rfl := Option.some.inj out
    rw [setProg_prog] at still
    cases still

theorem Copies.exec (h : Inv M K1 K0 s) (copies : Copies s₁ s c child v)
    (current : s.kernel.curenv = some d) {a : ForkAct} (allowed : s.Allowed d a)
    (out : s.exec cow a = some s')
    (quiet : d = c → ∀ va w tf, a = .access .store va w tf → va / 4096 ≠ v)
    (still : (s'.prog c).child = some child) : Copies s₁ s' c child v := by
  obtain ⟨-, same⟩ := h.exec current allowed out
  have other := h.child_ne current copies.loop
  by_cases own : d = c
  · have stay (prog : s'.prog = s.prog) (memory : s'.memories (c, v) = s.memories (c, v))
        (memory' : s'.memories (envx child, v) = s.memories (envx child, v)) :
        Copies s₁ s' c child v :=
      copies.same still (by rw [prog]) memory memory'
    unfold Forks.exec at out
    obtain ⟨d', hd, out⟩ := Option.bind_eq_some_iff.mp out
    obtain rfl := Option.some.inj (current.symm.trans hd)
    obtain rfl := own
    cases a with
    | access cause va w tf =>
      refine stay (access_prog out) ?_ ?_
      · rw [same]
        refine meaning_access fun store eq => ?_
        obtain rfl := store
        exact quiet rfl va w tf rfl (congrArg Prod.snd eq).symm
      · rw [same]
        exact meaning_access fun _ eq => other (congrArg Prod.fst eq)
    | fork =>
      dsimp only at out
      split at out
      · rename_i at_ _
        have loop := copies.loop
        rw [at_] at loop
        cases loop
      · cases out
    | next =>
      dsimp only at out
      cases user : s.handler d with
      | none =>
        rw [user] at out
        exact copies.forkStep h current user allowed.1 out same still
      | some hd =>
        rw [user] at out
        unfold meaning at same
        rw [user] at same
        exact stay (cowEntry_prog out) (by rw [same]) (by rw [same])
    | sysYield | tick =>
      obtain ⟨⟨r, s₁⟩, hcall, out⟩ := Option.bind_eq_some_iff.mp out
      obtain rfl := Option.some.inj out
      exact stay (call_prog hcall) (congrFun same _) (congrFun same _)
  · have prog := exec_prog_other current (Ne.symm own) out still
    refine copies.same still (by rw [prog]) ?_ ?_
    · rw [same]
      refine meaning_off (Ne.symm own) fun a ha eq => ?_
      have born := (h.childBorn d a ha).2.1
      rw [← show c = envx a from eq] at born
      have loop := copies.loop
      rw [born] at loop
      cases loop
    · rw [same]
      exact meaning_off other fun a ha eq => own (h.children d c a child ha copies.loop eq.symm)

theorem Forking.loop (run : Forking cow c child v s₁ s) : (s.prog c).child = some child := by
  cases run with
  | start enters =>
    rw [enters]
    rfl
  | step _ _ _ _ _ still => exact still

theorem Forking.copies (h₁ : Inv M K1 K0 s₁) (run : Forking cow c child v s₁ s) :
    Inv M K1 K0 s ∧ Copies s₁ s c child v := by
  induction run with
  | start enters =>
    refine ⟨h₁, by rw [enters]; rfl, rfl, fun low => ?_⟩
    rw [enters] at low
    exact absurd low (Nat.not_lt_zero v)
  | step _ current allowed out quiet still ih =>
    obtain ⟨inv, copies⟩ := ih
    exact ⟨(inv.exec current allowed out).1, copies.exec inv current allowed out quiet still⟩

/-- What the loop has not passed is not there, or is not the child's yet. -/
theorem Inv.not_passed (h : Inv M K1 K0 s) (loop : (s.prog c).child = some child)
    (ahead : (s.prog c).vpn ≤ v) : s.memories (envx child, v) = fun _ => 0 := by
  have empty (later : (s.prog c).Ahead v) : s.place (envx child, v) = none :=
    (h.locals c).ahead child v loop later
  refine memories_zero fun low _ unlent p perm there => ?_
  cases at_ : s.prog c with
  | born | running | setting | forking =>
    rw [at_] at loop
    cases loop
  | finishing child' =>
    rw [at_] at ahead
    exact absurd low (Nat.not_lt_of_le ahead)
  | lent child' vpn perm' =>
    rw [at_] at ahead loop empty
    obtain rfl := Option.some.inj loop
    rcases Nat.lt_or_eq_of_le ahead with later | rfl
    · cases (empty later).symm.trans there
    · exact absurd ⟨c, by rw [at_]; rfl⟩ unlent
  | walking child' vpn | called child' vpn | looked child' vpn perm' =>
    rw [at_] at ahead empty
    cases (empty ahead).symm.trans there

end

/-- While `c` is in the loop of `fork`, what its child has of page `v` is what `c` had
when the loop began, once the loop has passed the page, and nothing before; after the
loop, that is so of every page below `USTACKTOP`. `c` must not store to the page; the
other envs may do anything, and the scheduler too. -/
theorem fork_copies {M K1 K0 : Nat → Prop} {cow child v : Nat} {c : EnvIdx} {s₀ s₁ s : Forks}
    {m : Place EnvIdx → Vpn → Nat} (h₀ : Unforked M K1 K0 s₀) (run : Run cow s₀ s₁ m)
    (forking : Forking cow c child v s₁ s) :
    (s.memories (envx child, v) = if v < (s.prog c).vpn then m (c, v) else fun _ => 0) ∧
      (s.prog c = .finishing child → v < walkedPages →
        s.memories (envx child, v) = m (c, v)) := by
  obtain ⟨inv₁, rfl⟩ := run.inv h₀.inv
  obtain ⟨inv, copies⟩ := forking.copies inv₁
  refine ⟨?_, fun done low => copies.child (by rw [done]; exact low)⟩
  split
  · rename_i passed
    exact copies.child passed
  · rename_i ahead
    exact inv.not_passed copies.loop (Nat.le_of_not_lt ahead)

theorem forking_keeps : Keeps entryAddr 0 (Forking entryAddr 0 2049 0x400 loneLoop) :=
  fun _ _ run current allowed out same =>
    run.step current allowed out (by rintro _ _ _ _ ⟨⟩) (same.trans run.loop)

/-- At the end of the loop the child has the 7 that env 0 stored. -/
theorem fork_copies_walked : ∃ s m, Run entryAddr loneEnv loneLoop m ∧
    Forking entryAddr 0 2049 0x400 loneLoop s ∧ s.prog 0 = .finishing 2049 ∧
    s.memories (envx 2049, 0x400) = m (0, 0x400) ∧ m (0, 0x400) 0 = 7 := by
  have enters := lone_enters
  obtain ⟨m, run⟩ := enters.holds
  have forking := (lone_loop forking_keeps ⟨.start (by decide +kernel), enters.inv,
    enters.mirrored, enters.current⟩).holds
  have finishing : loneFinishing.prog 0 = .finishing 2049 := by decide +kernel
  have copied := (fork_copies loneEnv_unforked run forking).2 finishing (by decide)
  refine ⟨_, m, run, forking, finishing, copied, ?_⟩
  rw [← (run.inv loneEnv_unforked.inv).2]
  decide +kernel

end Forks

end RiscvMos
