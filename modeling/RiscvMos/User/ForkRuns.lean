import RiscvMos.User.ForkProgress

/-!
Memory that `fork` shares is as good as memory of one's own: in every run of
envs that fork, take copy-on-write faults and are switched at any step, each of
them sees what a memory of its own would hold.
-/

namespace RiscvMos.Forks

open Pmap CopyOnWrite

section
variable {M K1 K0 : Nat → Prop} {s s' : Forks} {c e : EnvIdx} {k : Kernel} {child : Nat}

/-! ## A new env -/

/-- `sys_exofork` makes an env that is not in anybody's way. -/
theorem Inv.newborn (h : Inv M K1 K0 s) (current : s.kernel.curenv = some c)
    (secure : Kernel.Secure M K1 K0 (fun _ _ => True) k) (new : Kernel.NewEnv s.kernel k e)
    (status : (k.envs e).envStatus = .notRunnable) :
    Inv M K1 K0 (({ s with kernel := k }.setProg e .born).setHandler e none) ∧
      (({ s with kernel := k }.setProg e .born).setHandler e none).memories = s.memories := by
  have free : e ∈ s.kernel.envFreeList := by
    rw [new.list]
    exact List.mem_cons_self
  have zero := h.freed e free
  have nodup := h.free
  rw [new.list, List.nodup_cons] at nodup
  have still {x : EnvIdx} (hx : x ∈ k.envFreeList) : x ∈ s.kernel.envFreeList := by
    rw [new.list]
    exact List.mem_cons_of_mem e hx
  have empty (v : Nat) : s.kernel.pmap.place (e, v) = none := place_of_pgdir zero v
  have prog_self : (({ s with kernel := k }.setProg e .born).setHandler e none).prog e = .born :=
    Function.update_self _ _ _
  have handler_self :
      (({ s with kernel := k }.setProg e .born).setHandler e none).handler e = none :=
    Function.update_self _ _ _
  have prog_other {x : EnvIdx} (ne : x ≠ e) :
      (({ s with kernel := k }.setProg e .born).setHandler e none).prog x = s.prog x :=
    Function.update_of_ne ne _ _
  have handler_other {x : EnvIdx} (ne : x ≠ e) :
      (({ s with kernel := k }.setProg e .born).setHandler e none).handler x = s.handler x :=
    Function.update_of_ne ne _ _
  have child {x : EnvIdx} {a : Nat}
      (ha : ((({ s with kernel := k }.setProg e .born).setHandler e none).prog x).child = some a) :
      x ≠ e ∧ (s.prog x).child = some a := by
    have ne : x ≠ e := by
      rintro rfl
      rw [prog_self] at ha
      cases ha
    rw [prog_other ne] at ha
    exact ⟨ne, ha⟩
  have running : c ≠ e := by
    rintro rfl
    exact h.live current zero
  -- a directory without pages lends none
  have lends : (s.prog e).lends = none := by
    cases prog : s.prog e with
    | lent a vpn perm =>
      obtain ⟨-, -, p, b, -, shown, -⟩ := (h.locals e).lent a vpn perm prog
      cases (empty vpn).symm.trans shown
    | _ => rfl
  have lent (y : Place EnvIdx) :
      (({ s with kernel := k }.setProg e .born).setHandler e none).Lent y ↔ s.Lent y := by
    refine exists_congr fun x => ?_
    by_cases eq : x = e
    · rw [eq, prog_self, lends]
      rfl
    · rw [prog_other eq]
  refine ⟨⟨secure, fun x y p a b hx hw hy => ?_, h.library.congr new.place,
    fun x p perm there => h.cow x p perm ((new.place x).symm.trans there),
    fun x p perm there => h.stack x p perm ((new.place x).symm.trans there), fun x => ?_,
    fun x x' a b ha hb => h.children x x' a b (child ha).2 (child hb).2, fun x a ha => ?_,
    fun x hx => ?_, fun x hx => ?_, nodup.2, fun x hx => ?_⟩, ?_⟩
  · have hx := (new.place x).symm.trans hx
    have ne : x.1 ≠ e := by
      intro eq
      have none_ := empty x.2
      rw [← eq] at none_
      cases none_.symm.trans hx
    refine (h.exclusive x y p a b hx hw ((new.place y).symm.trans hy)).imp id fun alias_ => ?_
    unfold Alias
    rw [prog_other ne, handler_other ne]
    exact alias_
  · by_cases eq : x = e
    · rw [eq, prog_self, handler_self]
      exact .of_born ((new.place _).trans (empty _))
    · rw [prog_other eq, handler_other eq]
      exact (h.locals x).congr (fun v => new.place _)
        (fun _ _ _ _ p a _ _ there => new.data _ p a there) fun _ _ _ => new.place _
  · obtain ⟨named, isBorn, notFree⟩ := h.childBorn x a (child ha).2
    have ne : envx a ≠ e := by
      rintro eq
      exact notFree (eq ▸ free)
    exact ⟨named, (prog_other ne).trans isBorn, fun hx => notFree (still hx)⟩
  · by_cases eq : x = e
    · rw [eq]
      exact ⟨fun runs => absurd (status.symm.trans runs) (by rintro ⟨⟩), handler_self⟩
    · rw [prog_other eq] at hx
      obtain ⟨idle, no⟩ := h.born x hx
      refine ⟨fun runs => idle ?_, (handler_other eq).trans no⟩
      rw [← new.others x eq]
      exact runs
  · obtain rfl := Option.some.inj ((new.cur.trans current).symm.trans hx)
    show (k.envs c).envStatus = _
    rw [new.others c running]
    exact h.current c current
  · exact new.roots x (fun eq => nodup.1 (eq ▸ hx)) (h.freed x (still hx))
  · refine contents_same (fun y => cell_congr (new.place y) (lent y)) fun y p there => ?_
    obtain ⟨-, -, -, perm, there, -⟩ := cell_place there
    exact new.data y p perm there

/-- The parent of a new env enters the loop of `fork`. -/
theorem Inv.enters (h : Inv M K1 K0 s) (at_ : s.prog c = .forking) (user : s.handler c = none)
    (named : uInt child ≠ 0) (born : s.prog (envx child) = .born)
    (alone : ∀ x a, (s.prog x).child = some a → envx a ≠ envx child)
    (notFree : envx child ∉ s.kernel.envFreeList)
    (empty : ∀ v, s.place (envx child, v) = none) :
    Inv M K1 K0 (s.setProg c (.walking child 0)) ∧
      (s.setProg c (.walking child 0)).memories = s.memories := by
  have other : envx child ≠ c := by
    rintro eq
    rw [eq, at_] at born
    cases born
  have children {x : EnvIdx} {a : Nat}
      (ha : ((s.setProg c (.walking child 0)).prog x).child = some a) :
      x = c ∧ a = child ∨ x ≠ c ∧ (s.prog x).child = some a := by
    by_cases eq : x = c
    · rw [eq, setProg_prog] at ha
      exact .inl ⟨eq, (Option.some.inj ha).symm⟩
    · rw [setProg_prog_of_ne eq] at ha
      exact .inr ⟨eq, ha⟩
  have lends (x : EnvIdx) : ((s.setProg c (.walking child 0)).prog x).lends = (s.prog x).lends := by
    by_cases eq : x = c
    · rw [eq, setProg_prog, at_]
      rfl
    · rw [setProg_prog_of_ne eq]
  refine ⟨⟨h.secure, h.exclusive.congr (fun _ => rfl) fun x y alias_ => ?_, h.library, h.cow,
    h.stack, fun x => ?_, fun x x' a b ha hb same => ?_, fun x a ha => ?_, fun x hx => ?_,
    h.current, h.free, h.freed⟩,
    contents_same (fun y => cell_congr rfl (exists_congr fun x => ?_)) fun _ _ _ => rfl⟩
  · refine alias_.imp id fun ⟨l, page⟩ => ⟨?_, page⟩
    rw [lends]
    exact l
  · by_cases eq : x = c
    · have handled := (h.locals c).handled
      rw [eq, setProg_prog]
      exact ⟨.loop fun v _ => empty v, handled,
        fun hd va perm hh => absurd (hh.symm.trans user) (by rintro ⟨⟩)⟩
    · rw [setProg_prog_of_ne eq]
      exact h.locals x
  · rcases children ha with ⟨rfl, rfl⟩ | ⟨-, child₁⟩
    · rcases children hb with ⟨rfl, -⟩ | ⟨-, child₂⟩
      · rfl
      · exact absurd same.symm (alone x' b child₂)
    · rcases children hb with ⟨-, rfl⟩ | ⟨-, child₂⟩
      · exact absurd same (alone x a child₁)
      · exact h.children x x' a b child₁ child₂ same
  · rcases children ha with ⟨-, rfl⟩ | ⟨-, ha⟩
    · exact ⟨named, (setProg_prog_of_ne other).trans born, notFree⟩
    · obtain ⟨named, isBorn, notFree⟩ := h.childBorn x a ha
      refine ⟨named, (setProg_prog_of_ne ?_).trans isBorn, notFree⟩
      rintro eq
      rw [eq, at_] at isBorn
      cases isBorn
  · have ne : x ≠ c := by
      rintro rfl
      cases setProg_prog.symm.trans hx
    exact h.born x ((setProg_prog_of_ne ne).symm.trans hx)
  · rw [lends]

/-- What `sys_exofork` returns names the env that it made. -/
theorem intToUInt_uIntToInt {n : Nat} (lt : n < 2 ^ 32) : intToUInt (uIntToInt n) = n := by
  unfold intToUInt uIntToInt
  split <;> omega

/-- `fork` up to its first system call. -/
theorem Inv.fork (h : Inv M K1 K0 s) (current : s.kernel.curenv = some c)
    (at_ : s.prog c = .running) (user : s.handler c = none) {cow : Nat} :
    Inv M K1 K0 (s.fork cow c) ∧ (s.fork cow c).memories = s.memories := by
  unfold Forks.fork
  split <;>
  exact h.goes current user (by rintro ⟨⟩) (by rintro _ ⟨⟩) (by rw [at_]; rfl) (.idle rfl)

/-- `cow_entry` becomes the handler of the parent. -/
theorem Inv.setting (h : Inv M K1 K0 s) (current : s.kernel.curenv = some c)
    (at_ : s.prog c = .setting) (user : s.handler c = none) {cow : Nat}
    (out : s.forkStep cow c .setting = some s') :
    Inv M K1 K0 s' ∧ s'.memories = s.memories := by
  obtain ⟨⟨r, s₁⟩, hcall, out⟩ := Option.bind_eq_some_iff.mp out
  obtain rfl := Option.some.inj out
  obtain ⟨k, entry, rfl⟩ := call_some.mp hcall
  obtain ⟨inv, same⟩ := h.tlbModEntry entry
  have current' : k.curenv = some c := by
    obtain ⟨envs, rfl, -⟩ := Kernel.sysSetTlbModEntry_ok entry
    exact current
  have goes (prog : Prog) (runs : prog ≠ .born) (child : prog.child = none)
      (lends : prog.lends = none) :
      Inv M K1 K0 (setProg { s with kernel := k } c prog) ∧
        (setProg { s with kernel := k } c prog).memories = s.memories := by
    have next : Inv M K1 K0 (setProg { s with kernel := k } c prog) ∧
        (setProg { s with kernel := k } c prog).memories =
          Forks.memories { s with kernel := k } := by
      refine inv.goes current' user runs (by rw [child]; rintro _ ⟨⟩) ?_ (.idle child)
      show _ = (s.prog c).lends
      rw [lends, at_]
      rfl
    exact ⟨next.1, next.2.trans same⟩
  split
  · exact goes _ (by rintro ⟨⟩) rfl rfl
  · exact goes _ (by rintro ⟨⟩) rfl rfl

/-- The call of `sys_exofork`: the parent enters the loop. -/
theorem Inv.forking (h : Inv M K1 K0 s) (current : s.kernel.curenv = some c)
    (at_ : s.prog c = .forking) (user : s.handler c = none) {cow : Nat}
    (room : s.kernel.envFreeList ≠ []) (asids : s.kernel.asidAlloc ≠ none)
    (pages : 3 ≤ s.kernel.pmap.pageFreeList.length)
    (out : s.forkStep cow c .forking = some s') :
    Inv M K1 K0 s' ∧ s'.memories = s.memories := by
  obtain ⟨⟨r, s₂⟩, hcall, out⟩ := Option.bind_eq_some_iff.mp out
  obtain rfl := Option.some.inj out
  obtain ⟨k, hx, rfl⟩ := call_some.mp hcall
  obtain ⟨e, rest, list⟩ := List.exists_cons_of_ne_nil room
  have free : e ∈ s.kernel.envFreeList := by
    rw [list]
    exact List.mem_cons_self
  have zero := h.freed e free
  obtain ⟨secure, new, status, rfl⟩ := h.secure.sysExofork list zero asids pages hx
  have other : c ≠ e := by
    rintro rfl
    exact h.live current zero
  obtain ⟨h₂, mem₂⟩ := h.newborn current secure new status
  rw [bear_new new, intToUInt_uIntToInt new.id.1]
  set s₂ := (({ s with kernel := k }.setProg e .born).setHandler e none)
  have at₂ : s₂.prog c = .forking := (Function.update_of_ne other _ _).trans at_
  have user₂ : s₂.handler c = none := (Function.update_of_ne other _ _).trans user
  have current₂ : s₂.kernel.curenv = some c := new.cur.trans current
  split
  · have next : Inv M K1 K0 (s₂.setProg c .running) ∧
        (s₂.setProg c .running).memories = s₂.memories :=
      h₂.goes current₂ user₂ (by rintro ⟨⟩) (by rintro _ ⟨⟩) (by rw [at₂]; rfl) (.idle rfl)
    exact ⟨next.1, next.2.trans mem₂⟩
  rename_i named
  have index : envx (k.envs e).envId = e := Fin.ext new.id.2
  have nodup := h.free
  rw [list, List.nodup_cons] at nodup
  have next : Inv M K1 K0 (s₂.setProg c (.walking (k.envs e).envId 0)) ∧
      (s₂.setProg c (.walking (k.envs e).envId 0)).memories = s₂.memories := by
    refine h₂.enters at₂ user₂ ?_ ?_ (fun x a ha => ?_) ?_ fun v => ?_
    · rw [uInt, Nat.mod_eq_of_lt new.id.1]
      exact named
    · rw [index]
      exact Function.update_self _ _ _
    · have ne : x ≠ e := by
        rintro rfl
        have born : s₂.prog x = .born := Function.update_self _ _ _
        rw [born] at ha
        cases ha
      rw [index]
      rintro eq
      have old : s.prog x = s₂.prog x := (Function.update_of_ne ne _ _).symm
      rw [← old] at ha
      exact (h.childBorn x a ha).2.2 (eq ▸ free)
    · rw [index]
      obtain ⟨-, rest'⟩ := List.cons.inj (list.symm.trans new.list)
      exact fun hx => nodup.1 (rest' ▸ hx)
    · rw [index]
      exact (new.place _).trans (place_of_pgdir zero v)
  exact ⟨next.1, next.2.trans mem₂⟩

/-! ## Steps -/

/-- A step of `fork` or `duppage`. -/
theorem Inv.forkStep (h : Inv M K1 K0 s) (current : s.kernel.curenv = some c)
    (user : s.handler c = none) (allowed : s.Allowed c .next) {cow : Nat}
    (out : s.forkStep cow c (s.prog c) = some s') :
    Inv M K1 K0 s' ∧ s'.memories = s.meaning c s.memories .next := by
  obtain ⟨agrees, counts, succeeds⟩ := allowed
  have succeeds := succeeds user
  unfold meaning
  rw [user]
  cases at_ : s.prog c with
  | born =>
    rw [at_] at out
    cases out
  | running =>
    rw [at_] at out
    cases out
  | setting =>
    rw [at_] at out
    exact h.setting current at_ user out
  | forking =>
    rw [at_] at out succeeds
    obtain ⟨room, asids, pages⟩ := succeeds
    exact h.forking current at_ user room asids pages out
  | walking child vpn =>
    rw [at_] at out
    by_cases low : vpn < walkedPages
    · exact h.walk current at_ user agrees low out
    · exact h.ends current at_ user low out
  | called child vpn =>
    rw [at_] at out
    exact h.look current at_ user agrees out
  | looked child vpn perm =>
    rw [at_] at out succeeds
    exact h.looked current at_ user counts succeeds out
  | lent child vpn perm =>
    rw [at_] at out
    exact h.lent current at_ user counts out
  | finishing child =>
    rw [at_] at out
    exact h.finish current at_ user out

theorem Inv.exec (h : Inv M K1 K0 s) (current : s.kernel.curenv = some c) {cow : Nat} {a : ForkAct}
    (allowed : s.Allowed c a) (out : s.exec cow a = some s') :
    Inv M K1 K0 s' ∧ s'.memories = s.meaning c s.memories a := by
  unfold Forks.exec at out
  obtain ⟨c', hc, out⟩ := Option.bind_eq_some_iff.mp out
  obtain rfl := Option.some.inj (current.symm.trans hc)
  cases a with
  | access cause va w tf => exact h.access current allowed out
  | fork =>
    dsimp only at out
    split at out
    · rename_i at_ user
      obtain rfl := Option.some.inj out
      exact h.fork current at_ user
    · cases out
  | next =>
    dsimp only at out
    cases user : s.handler c with
    | none =>
      rw [user] at out
      exact h.forkStep current user allowed out
    | some hd =>
      rw [user] at out
      obtain ⟨inv, same⟩ := h.cowEntry current user allowed.1 allowed.2.1 out
      refine ⟨inv, same.trans ?_⟩
      unfold meaning
      rw [user]
  | sysYield | tick =>
    obtain ⟨⟨r, s₁⟩, hcall, out⟩ := Option.bind_eq_some_iff.mp out
    obtain rfl := Option.some.inj out
    obtain ⟨k, hx, rfl⟩ := call_some.mp hcall
    obtain ⟨k', schedule, hx⟩ := Except.bind_ok_iff.mp hx
    obtain ⟨-, rfl⟩ := Prod.mk.inj (Except.ok.inj hx)
    exact h.schedule schedule

theorem exec_access (current : s.kernel.curenv = some c) {cow : Nat} {cause : Fault} {va w : Nat}
    {tf : Trapframe} : s.exec cow (.access cause va w tf) = s.access cow c cause va w tf := by
  unfold Forks.exec
  rw [current]
  rfl

/-! ## Runs -/

/-- No page is at two places, and no env is in `fork` or `cow_entry`. -/
structure Unforked (M K1 K0 : Nat → Prop) (s : Forks) : Prop where
  secure : Kernel.Secure M K1 K0 (fun _ _ => True) s.kernel
  alone : ∀ x y p a b, s.place x = some (p, a) → s.place y = some (p, b) → y = x
  cow : ∀ x p perm, s.place x = some (p, perm) → perm &&& pteCow = 0
  stack : ∀ x p perm, s.place x = some (p, perm) → walkedPages ≤ x.2 → Writes perm
  ucow : ∀ c, s.place (c, ucowPage) = none
  prog : ∀ c, s.prog c = .running
  handler : ∀ c, s.handler c = none
  current : ∀ c, s.kernel.curenv = some c → (s.kernel.envs c).envStatus = .runnable
  free : s.kernel.envFreeList.Nodup
  freed : ∀ e ∈ s.kernel.envFreeList, s.kernel.pmap.pgdir e = 0

theorem Unforked.inv (h : Unforked M K1 K0 s) : Inv M K1 K0 s := by
  have no_child {x : EnvIdx} {a : Nat} (ha : (s.prog x).child = some a) : False := by
    rw [h.prog] at ha
    cases ha
  refine ⟨h.secure, fun x y p a b hx _ hy => .inl (h.alone x y p a b hx hy),
    fun x y p a b hx l hy => ?_, fun x p perm there bit => absurd (h.cow x p perm there) bit,
    h.stack, fun c => ?_, fun _ _ _ _ ha => (no_child ha).elim, fun _ _ ha => (no_child ha).elim,
    fun e born => ?_, h.current, h.free, h.freed⟩
  · obtain rfl := h.alone x y p a b hx hy
    obtain ⟨-, rfl⟩ := Prod.mk.inj (Option.some.inj (hx.symm.trans hy))
    exact l
  · rw [h.prog, h.handler]
    exact ⟨.idle rfl, h.ucow c, (by rintro _ _ _ ⟨⟩)⟩
  · cases (h.prog e).symm.trans born

theorem Run.inv {cow : Nat} {s₀ : Forks} {m : Place EnvIdx → Vpn → Nat} (h₀ : Inv M K1 K0 s₀)
    (run : Run cow s₀ s m) : Inv M K1 K0 s ∧ s.memories = m := by
  induction run with
  | start => exact ⟨h₀, rfl⟩
  | step _ current allowed out ih =>
    obtain ⟨inv, same⟩ := ih
    rw [← same]
    exact inv.exec current allowed out

/-- What an env reads of its own is in its memory. -/
theorem Inv.reads (h : Inv M K1 K0 s) (current : s.kernel.curenv = some c) {cause : Fault}
    {va p : Nat} (goes : s.kernel.pmap.translate c cause va = some p) (own : s.Private c va) :
    s.kernel.pmap.mem p = s.memories (placeOf c va) := by
  have hva : va < ulim := by
    have low := own.1
    unfold walkedPages ustacktop utop ulim pageSize at low
    unfold ulim
    omega
  obtain ⟨a, at_, -⟩ := translate_place (h.live current) hva goes
  obtain ⟨low, ne, no⟩ := (private_iff hva at_).mp own
  exact (memories_of low ne (h.not_lent current rfl) at_ no).symm

end

/-- Envs that fork have a memory each: in every run of them, in which any env may be
switched away at any step of `fork`, `duppage` and `cow_entry`, what an env reads of a
page that is not `PTE_LIBRARY` is what separate memories would hold, where a store is
to the memory of the env that makes it and `duppage` copies a page. -/
theorem fork_private {M K1 K0 : Nat → Prop} {cow : Nat} {s₀ s : Forks}
    {m : Place EnvIdx → Vpn → Nat} (h₀ : Unforked M K1 K0 s₀) (run : Run cow s₀ s m) :
    s.memories = m ∧ ∀ c cause va p, s.kernel.curenv = some c →
      s.kernel.pmap.translate c cause va = some p → s.Private c va →
      s.kernel.pmap.mem p (wordIdx va) = m (placeOf c va) (wordIdx va) := by
  obtain ⟨inv, same⟩ := run.inv h₀.inv
  refine ⟨same, fun c cause va p current goes own => ?_⟩
  rw [← same, inv.reads current goes own]

/-- Env 0 runs, and the others are free. -/
def loneEnv : Forks where
  kernel := { Kernel.runningEnv with
    envFreeList := (List.finRange 1024).tail
    envSchedList := Tailq.init.insertHead 0 }
  prog := fun _ => .running
  handler := fun _ => none

theorem loneEnv_empty (x : Place EnvIdx) : loneEnv.place x = none := by
  by_cases low : x.2 < ulim / 4096
  · obtain ⟨hva, same⟩ := place_view low
    rw [← same, Forks.place, place_of_view hva]
    cases leaf : loneEnv.kernel.pmap.view x.1 (4096 * x.2) with
    | none => rfl
    | some v => exact absurd (Kernel.oneEnvPmap_leaf leaf).1 (vpn2_ne_three_of_user hva)
  · exact place_beyond low

theorem loneEnv_unforked :
    Unforked (· ∈ somePages) Kernel.kernelPte1 Kernel.kernelPte0 loneEnv := by
  have empty := loneEnv_empty
  have secure := Kernel.runningEnv_secure.granted
  have list : loneEnv.kernel.envFreeList = (List.finRange 1024).tail := by
    simp only [loneEnv]
  have nodup := List.nodup_finRange 1024
  have others : ∀ e : EnvIdx, e ≠ 0 → loneEnv.kernel.pmap.pgdir e = 0 := by decide +kernel
  refine ⟨secure.envs rfl rfl secure.live secure.cur,
    fun x y p a b hx _ => absurd ((empty x).symm.trans hx) (by rintro ⟨⟩),
    fun x p a hx => absurd ((empty x).symm.trans hx) (by rintro ⟨⟩),
    fun x p a hx => absurd ((empty x).symm.trans hx) (by rintro ⟨⟩), fun c => empty _,
    fun _ => rfl, fun _ => rfl, fun c hc => ?_, ?_, fun e he => ?_⟩
  · obtain rfl := Option.some.inj hc
    decide +kernel
  · rw [list]
    exact nodup.tail
  · refine others e ?_
    rintro rfl
    rw [list, List.finRange_succ, List.tail_cons] at he
    rw [List.finRange_succ, List.nodup_cons] at nodup
    exact nodup.1 he

theorem oneEnv_mirrored : Mirrored 0 Kernel.oneEnvPmap := by
  have fresh : Mirrored 0 Kernel.oneEnvWindow :=
    newDir_mirrored (noDirs_consistent (s := Kernel.noEnvs) (fun _ => rfl) (by decide)
      (fun _ _ => rfl) (by decide)) rfl Kernel.oneEnvDir_run Kernel.oneEnvWindow_run
  exact fresh.of_ent fun x _ => congrFun Kernel.oneEnvPmap_spec.2 x

/-- Where the program of env 0 has `cow_entry`. -/
def entryAddr : Nat := 0x401000

def after (s : Forks) (a : ForkAct) : Forks := (s.exec entryAddr a).getD s

theorem exec_after {s : Forks} {a : ForkAct} (goes : (s.exec entryAddr a).isSome = true) :
    s.exec entryAddr a = some (s.after a) := by
  obtain ⟨s', out⟩ := Option.isSome_iff_exists.mp goes
  unfold after
  rw [out]
  rfl

theorem served_iff {x : Except Halt (Int × Kernel)} :
    x.toOption.map Prod.fst = some 0 ↔ ∃ k, x = .ok (0, k) := by
  cases x with
  | error e => simp [Except.toOption]
  | ok a => simp [Except.toOption, Prod.ext_iff]

instance (k : Kernel) : (prog : Prog) → Decidable (Serves k prog)
  | .forking => inferInstanceAs (Decidable (_ ∧ _ ∧ _))
  | .looked _ _ _ => decidable_of_iff _ served_iff
  | .born | .running | .setting | .walking _ _ | .called _ _ | .lent _ _ _ | .finishing _ =>
    inferInstanceAs (Decidable True)

/-- The next step goes, and finds the pages for its tables. -/
def Goes (s : Forks) : Prop :=
  (s.exec entryAddr .next).isSome = true ∧ Serves s.kernel (s.prog 0) ∧ s.Tabled 0 ∧
    (∀ p ∈ somePages, s.kernel.pmap.ppRef p < 65535) ∧ (s.after .next).kernel.curenv = some 0

instance (s : Forks) : Decidable (Goes s) := inferInstanceAs (Decidable (_ ∧ _))

/-- `P` holds of a state in which env 0 runs; its window shows its tables. -/
structure Lone (P : Forks → Prop) (s : Forks) : Prop where
  holds : P s
  inv : Inv (· ∈ somePages) Kernel.kernelPte1 Kernel.kernelPte0 s
  mirrored : Mirrored 0 s.kernel.pmap
  current : s.kernel.curenv = some 0

/-- A page that user code sees is one of those that there are. -/
theorem Inv.counts {s : Forks} (h : Inv (· ∈ somePages) Kernel.kernelPte1 Kernel.kernelPte0 s)
    (refs : ∀ p ∈ somePages, s.kernel.pmap.ppRef p < 65535) (x : Place EnvIdx) (p perm : Nat)
    (there : s.place x = some (p, perm)) : s.kernel.pmap.ppRef p < 65535 :=
  refs p (h.secure.guarded.consistent.mem_of_tgt (tgt_of_place there))

theorem Lone.allowed {P : Forks → Prop} {s : Forks} (h : Lone P s)
    (refs : ∀ p ∈ somePages, s.kernel.pmap.ppRef p < 65535) (serves : Serves s.kernel (s.prog 0)) :
    s.Allowed 0 .next :=
  ⟨h.mirrored.agrees (h.inv.live h.current), h.inv.counts refs, fun _ => serves⟩

theorem Lone.next {P : Forks → Prop} {s : Forks} (h : Lone P s) (goes : Goes s)
    (step : s.Allowed 0 .next → s.exec entryAddr .next = some (s.after .next) →
      P (s.after .next)) : Lone P (s.after .next) := by
  obtain ⟨some_, serves, tabled, refs, still⟩ := goes
  have allowed := h.allowed refs serves
  have out := exec_after some_
  exact ⟨step allowed out, (h.inv.exec h.current allowed out).1,
    h.inv.next_mirrored h.current h.mirrored allowed tabled out, still⟩

/-- A store of `w` to `0x400000`. -/
def store (w : Nat) : ForkAct := .access .store 0x400000 w fun _ => 0

/-- The store goes, or faults and gets a page at `v`. -/
def Stores (s : Forks) (w v : Nat) : Prop :=
  (s.exec entryAddr (store w)).isSome = true ∧ s.handler 0 = none ∧ (s.prog 0).page = none ∧
    s.kernel.pmap.ent (.pte1 0 3 3) ≠ none ∧
    (s.kernel.pmap.translate 0 .store 0x400000 = none →
      (s.kernel.pmap.isMappedPage 0 0x400000 = true →
        s.kernel.pmap.getPerm 0 0x400000 &&& pteCow ≠ 0) ∧
      s.kernel.pmap.faultGives 0 .store 0x400000 = some (v, demandPerm) ∧
        s.kernel.pmap.AllocsAll 0 v demandPerm) ∧
    (s.after (store w)).kernel.curenv = some 0

instance (s : Forks) (w v : Nat) : Decidable (Stores s w v) :=
  inferInstanceAs (Decidable (_ ∧ _ ∧ _ ∧ _ ∧ (_ → _) ∧ _))

theorem Lone.store {P : Forks → Prop} {s : Forks} {w v : Nat} (h : Lone P s) (goes : Stores s w v)
    (step : s.Allowed 0 (store w) →
      s.exec entryAddr (Forks.store w) = some (s.after (Forks.store w)) →
      P (s.after (Forks.store w))) : Lone P (s.after (Forks.store w)) := by
  obtain ⟨some_, idle, free, set, gives, still⟩ := goes
  have hva : 0x400000 < ulim := by decide
  have allowed : s.Allowed 0 (Forks.store w) := by
    refine ⟨fun _ => ⟨hva, .inl idle⟩, fun faults => ⟨hva, by decide, fun there => ?_⟩⟩
    refine .inr ⟨rfl, (gives faults).1 there, idle, fun perm about => ?_⟩
    cases free.symm.trans about
  have out := exec_after some_
  have access := (exec_access h.current).symm.trans out
  exact ⟨step allowed out, (h.inv.exec h.current allowed out).1,
    h.inv.access_mirrored h.current h.mirrored hva set
      (fun faults => ⟨v, demandPerm, (gives faults).2⟩) access, still⟩

/-- Env 0 has page `0x400`, and no other one below `ULIM`. -/
def OnlyPage (m : Pmap EnvIdx) : Prop :=
  m.ent (.pte2 0 1) = none ∧ (∀ j : Vpn, j ≠ 2 → m.ent (.pte1 0 0 j) = none) ∧
    ∀ k : Vpn, k ≠ 0 → m.ent (.pte0 0 0 2 k) = none

instance (m : Pmap EnvIdx) : Decidable (OnlyPage m) := inferInstanceAs (Decidable (_ ∧ _))

theorem OnlyPage.empty {m : Pmap EnvIdx} (h : OnlyPage m) {v : Nat} (ne : v ≠ 0x400) :
    m.place (0, v) = none := by
  obtain ⟨half, tables, pages⟩ := h
  by_cases low : v < ulim / 4096
  · obtain ⟨hva, -⟩ := place_view (x := ((0, v) : Place EnvIdx)) low
    unfold Pmap.place
    rw [if_pos low]
    have two : (vpn2 (4096 * v)).val < 2 := vpn2_lt_of_user hva
    by_cases first : vpn2 (4096 * v) = 0
    · by_cases table : vpn1 (4096 * v) = 2
      · have page : vpn0 (4096 * v) ≠ 0 := by
          intro zero
          simp only [Fin.ext_iff, vpn0_val, vpn1_val, vpn2_val] at first table zero
          unfold ulim at hva
          have : 4096 * v / 1073741824 % 512 = 0 := first
          have : 4096 * v / 2097152 % 512 = 2 := table
          have : 4096 * v / 4096 % 512 = 0 := zero
          omega
        have none_ := pages _ page
        rwa [← first, ← table] at none_
      · have none_ := tables _ table
        rw [← first] at none_
        exact ent_child_none (x := .pte1 0 (vpn2 (4096 * v)) (vpn1 (4096 * v))) trivial none_ _
    · have one : vpn2 (4096 * v) = 1 := by
        apply Fin.ext
        have zero : (vpn2 (4096 * v)).val ≠ 0 := fun eq => first (Fin.ext eq)
        show (vpn2 (4096 * v)).val = 1
        omega
      rw [← one] at half
      have none_ := ent_child_none (x := .pte2 0 (vpn2 (4096 * v))) trivial half (vpn1 (4096 * v))
      exact ent_child_none (x := .pte1 0 (vpn2 (4096 * v)) (vpn1 (4096 * v))) trivial none_ _
  · exact place_beyond low

theorem Keeps.inv {P : Forks → Prop} (keeps : Keeps entryAddr 0 P) :
    Keeps entryAddr 0 fun s =>
      P s ∧ Inv (· ∈ somePages) Kernel.kernelPte1 Kernel.kernelPte0 s :=
  fun s s' ⟨holds, inv⟩ current allowed out same =>
    ⟨keeps s s' holds current allowed out same, (inv.exec current allowed out).1⟩

theorem Lone.walk {P : Forks → Prop} {s : Forks} {child a b : Nat} (keeps : Keeps entryAddr 0 P)
    (h : Lone P s) (at_ : s.prog 0 = .walking child a) (user : s.handler 0 = none)
    (refs : ∀ p ∈ somePages, s.kernel.pmap.ppRef p < 65535) (only : OnlyPage s.kernel.pmap)
    (low : b ≤ walkedPages) (le : a ≤ b) (ne : ∀ v, a ≤ v → v < b → v ≠ 0x400) :
    Lone P (s.setProg 0 (.walking child b)) := by
  have same : s.setProg 0 (.walking child a) = s := by
    unfold setProg
    rw [← at_, Function.update_eq_self]
  have start : P (s.setProg 0 (.walking child a)) ∧
      Inv (· ∈ somePages) Kernel.kernelPte1 Kernel.kernelPte0 (s.setProg 0 (.walking child a)) := by
    rw [same]
    exact ⟨h.holds, h.inv⟩
  obtain ⟨holds, inv⟩ := walk_unmapped keeps.inv h.current user
    (h.mirrored.agrees (h.inv.live h.current)) (h.inv.counts refs) start low le
    fun v ha hb => only.empty (ne v ha hb)
  exact ⟨holds, inv, h.mirrored, h.current⟩

theorem Lone.copy {P : Forks → Prop} {s : Forks} {va perm p q : Nat}
    (keeps : Keeps entryAddr 0 P) (h : Lone P s)
    (refs : ∀ p ∈ somePages, s.kernel.pmap.ppRef p < 65535)
    (pages : CopyPages s.kernel.pmap 0 va p q) (at_ : s.handler 0 = some (.copying va perm 0)) :
    Lone P (s.copying 0 va perm q 1024 (s.kernel.pmap.mem p)) := by
  obtain ⟨holds, inv⟩ := copy_page keeps.inv h.current (h.inv.live h.current) h.mirrored
    (h.inv.counts refs) pages at_ ⟨h.holds, h.inv⟩
  exact ⟨holds, inv, h.mirrored.of_ent fun x _ => congrFun (writePage_ent pages.apart _) x,
    h.current⟩

/-! Env 0 stores 7 to its page and forks; then it stores 9, and lets its child run. -/

def loneForking : Forks := (((loneEnv.after (store 7)).after (store 7)).after .fork).after .next
def loneLoop : Forks := loneForking.after .next
def lonePage : Forks := loneLoop.setProg 0 (.walking 2049 0x400)
def loneLent : Forks := ((lonePage.after .next).after .next).after .next
def lonePassed : Forks := loneLent.after .next
def loneEnd : Forks := lonePassed.setProg 0 (.walking 2049 walkedPages)
def loneFinishing : Forks := loneEnd.after .next
def loneFault : Forks := (loneFinishing.after .next).after (store 9)
def loneCopying : Forks := (loneFault.after .next).after .next
def loneCopied : Forks :=
  loneCopying.copying 0 0x400000 23 0x83012 1024 (loneCopying.kernel.pmap.mem 0x83006)
def loneStored : Forks := ((loneCopied.after .next).after .next).after (store 9)

/-- The loop of `fork` is at its end, and has shared the page. -/
theorem lone_loop {P : Forks → Prop} (keeps : Keeps entryAddr 0 P) (h : Lone P loneLoop) :
    Lone P loneFinishing := by
  have step {s : Forks} (h : Lone P s) (goes : Goes s)
      (child : ((s.after .next).prog 0).child = (s.prog 0).child) : Lone P (s.after .next) :=
    h.next goes fun allowed out => keeps _ _ h.holds h.current allowed out child
  have page : Lone P lonePage := h.walk keeps (a := 0) (by decide +kernel)
    (by decide +kernel) (by decide +kernel) (by decide +kernel) (by decide) (by decide)
    fun v _ lt eq => absurd eq (Nat.ne_of_lt lt)
  have called := step page (by decide +kernel) (by decide +kernel)
  have looked := step called (by decide +kernel) (by decide +kernel)
  have lent := step looked (by decide +kernel) (by decide +kernel)
  have passed := step lent (by decide +kernel) (by decide +kernel)
  have end_ : Lone P loneEnd := passed.walk keeps (a := 0x401) (by decide +kernel)
    (by decide +kernel) (by decide +kernel) (by decide +kernel) le_rfl (by decide)
    fun v ge _ eq => absurd eq (Nat.ne_of_gt ge)
  exact step end_ (by decide +kernel) (by decide +kernel)

/-- Env 0 comes to `s`. -/
def Comes (s : Forks) : Prop := ∃ m, Run entryAddr loneEnv s m

theorem Comes.step {s s' : Forks} {c : EnvIdx} {a : ForkAct} (h : Comes s)
    (current : s.kernel.curenv = some c) (allowed : s.Allowed c a)
    (out : s.exec entryAddr a = some s') : Comes s' := by
  obtain ⟨m, run⟩ := h
  exact ⟨_, run.step current allowed out⟩

theorem comes_keeps : Keeps entryAddr 0 Comes :=
  fun _ _ h current allowed out _ => h.step current allowed out

theorem Lone.goes {s : Forks} (h : Lone Comes s) (goes : Goes s) : Lone Comes (s.after .next) :=
  h.next goes fun allowed out => h.holds.step h.current allowed out

theorem Lone.stores {s : Forks} {w : Nat} (v : Nat) (h : Lone Comes s) (goes : Stores s w v) :
    Lone Comes (s.after (Forks.store w)) :=
  h.store goes fun allowed out => h.holds.step h.current allowed out

theorem lone_enters : Lone Comes loneLoop := by
  have start : Lone Comes loneEnv :=
    ⟨⟨_, .start⟩, loneEnv_unforked.inv, oneEnv_mirrored, rfl⟩
  have faulted := start.stores (w := 7) 0x400000 (by decide +kernel)
  have stored := faulted.stores (w := 7) 0x400000 (by decide +kernel)
  have calls : Lone Comes (((loneEnv.after (store 7)).after (store 7)).after .fork) := by
    have allowed : Allowed ((loneEnv.after (store 7)).after (store 7)) 0 .fork := trivial
    have out : Forks.exec entryAddr ((loneEnv.after (store 7)).after (store 7)) .fork = some _ :=
      exec_fork stored.current (by decide +kernel) (by decide +kernel)
    have next := exec_after (s := (loneEnv.after (store 7)).after (store 7)) (a := .fork)
      (by rw [out]; rfl)
    rw [Option.some.inj (next.symm.trans out)]
    exact ⟨stored.holds.step stored.current allowed out,
      (stored.inv.exec stored.current allowed out).1, stored.mirrored, stored.current⟩
  have sets := calls.goes (by decide +kernel)
  exact sets.goes (by decide +kernel)

/-- Env 0 has forked, and later has its page for itself again. -/
theorem lone_stores : Lone Comes (loneFinishing.after .next) ∧ Lone Comes loneStored := by
  have finishing := lone_loop comes_keeps lone_enters
  have forked := finishing.goes (by decide +kernel)
  have fault := forked.stores (w := 9) uxframe (by decide +kernel)
  have entered := fault.goes (by decide +kernel)
  have copying : Lone Comes loneCopying := entered.goes (by decide +kernel)
  have src : loneCopying.kernel.pmap.place (0, 0x400) = some (0x83006, 0x113) := by decide +kernel
  have dst : loneCopying.kernel.pmap.place (0, ucowPage) = some (0x83012, 0x17) := by
    decide +kernel
  have apart := copying.inv.secure.guarded.userApart.place dst
  have copied : Lone Comes loneCopied := copying.copy comes_keeps (by decide +kernel)
    ⟨by decide, ⟨_, src, by decide⟩, ⟨_, dst, by decide⟩, apart, by decide⟩ (by decide +kernel)
  have mapped := copied.goes (by decide +kernel)
  have alone := mapped.goes (by decide +kernel)
  exact ⟨forked, alone.stores 0x400000 (by decide +kernel)⟩

/-- The child still has what env 0 had when it forked. -/
theorem fork_private_store : ∃ s m, Run entryAddr loneEnv s m ∧ s.kernel.curenv = some 1 ∧
    s.memories = m ∧ m (0, 0x400) 0 = 9 ∧ m (1, 0x400) 0 = 7 ∧
    ∀ c cause va p, s.kernel.curenv = some c →
      s.kernel.pmap.translate c cause va = some p → s.Private c va →
      s.kernel.pmap.mem p (wordIdx va) = m (placeOf c va) (wordIdx va) := by
  have stored := lone_stores.2
  have out := exec_after (s := loneStored) (a := .sysYield) (by decide +kernel)
  obtain ⟨m, run⟩ := stored.holds.step stored.current
    (show Allowed loneStored 0 .sysYield from trivial) out
  obtain ⟨same, reads⟩ := fork_private loneEnv_unforked run
  refine ⟨_, m, run, by decide +kernel, same, ?_, ?_, reads⟩
  · rw [← same]
    decide +kernel
  · rw [← same]
    decide +kernel

end RiscvMos.Forks
