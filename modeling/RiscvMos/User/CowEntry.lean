import RiscvMos.User.ForkPrivate

/-!
The steps of `cow_entry`: none of them changes what an env has for itself.
-/

namespace RiscvMos.Forks

open Pmap CopyOnWrite

section
variable {M K1 K0 : Nat → Prop} {s s' : Forks} {c : EnvIdx} {m : Pmap EnvIdx}
    {handler : Option Handler}

theorem call_some {f : Kernel → Except Halt (Int × Kernel)} {r : Int} :
    s.call f = some (r, s') ↔ ∃ k, f s.kernel = .ok (r, k) ∧ s' = { s with kernel := k } := by
  unfold call
  constructor
  · intro h
    obtain ⟨⟨r', k⟩, hk, h⟩ := Option.bind_eq_some_iff.mp h
    obtain ⟨rfl, rfl⟩ := Prod.mk.inj (Option.some.inj h)
    cases hx : f s.kernel with
    | error e =>
      rw [hx] at hk
      cases hk
    | ok a =>
      rw [hx] at hk
      obtain rfl := Option.some.inj hk
      exact ⟨k, rfl, rfl⟩
  · rintro ⟨k, hk, rfl⟩
    rw [hk]
    rfl

theorem Inv.live (h : Inv M K1 K0 s) (current : s.kernel.curenv = some c) :
    s.kernel.pmap.pgdir c ≠ 0 :=
  (h.secure.live c (h.secure.cur c current).1).1

/-- A copying env has neither a page that another one writes nor one that is to share. -/
theorem Inv.copies_apart (h : Inv M K1 K0 s) {x : Place EnvIdx} {p a : Nat} (own : x.1 = c)
    (here : s.place x = some (p, a)) (open_ : Writes a ∨ Library a) {e : EnvIdx} (ne : e ≠ c)
    {va perm n w q b : Nat} (copying : s.handler e = some (.copying va perm n))
    (at_ : w = va / 4096 ∨ w = ucowPage) (there : s.place (e, w) = some (q, b)) : q ≠ p := by
  rintro rfl
  have handled := (h.locals e).handled
  rw [copying] at handled
  obtain ⟨ok, -, p', q', cow, copy, -⟩ := handled
  rcases open_ with writes | library
  · rcases h.exclusive x (e, w) q a b here writes there with eq | alias_
    · rw [← eq] at own
      exact ne own
    · rcases alias_ with ⟨-, -, same, -⟩ | ⟨lends, -⟩
      · exact ne (same.trans own)
      · obtain ⟨child, ha, of_child, -⟩ := child_of_lends lends
        obtain rfl : e = envx child := of_child
        have isBorn := (h.childBorn x.1 child ha).2.1
        rw [(h.born _ isBorn).2] at copying
        cases copying
  · have shared := h.library x (e, w) q a b here library there
    rcases at_ with rfl | rfl
    · obtain ⟨perm', page, bit⟩ := cow.page
      obtain ⟨-, rfl⟩ := Prod.mk.inj (Option.some.inj (there.symm.trans page))
      exact (h.cow _ q b there bit).1 shared
    · obtain ⟨-, rfl⟩ := Prod.mk.inj (Option.some.inj (there.symm.trans copy))
      rw [library_or_pteV] at shared
      exact ok.writes.not_library shared

/-- A page that an env writes is at a single place, but for the alias. -/
theorem Inv.sole (h : Inv M K1 K0 s) {x y : Place EnvIdx} {p a b : Nat}
    (here : s.place x = some (p, a)) (writes : Writes a) (there : s.place y = some (p, b))
    (apart : ¬ s.Alias x y) : y = x :=
  (h.exclusive x y p a b here writes there).resolve_right apart

theorem not_alias {x y : Place EnvIdx} (mapped : ∀ va, s.handler x.1 ≠ some (.mapped va))
    (page : ∀ perm, (s.prog x.1).page ≠ some (x.2, perm)) : ¬ s.Alias x y := by
  rintro (⟨va, at_, -⟩ | ⟨lends, same⟩)
  · exact mapped va at_
  · obtain ⟨-, -, -, perm, about⟩ := child_of_lends lends
    rw [same] at about
    exact page perm about

theorem pt0_place {va p perm : Nat} (agrees : SelfMapAgrees m c) (hva : va < ulim)
    (here : m.place (placeOf c va) = some (p, perm)) :
    ∃ pte, m.pt0 c (va >>> 12) = some pte ∧ pte &&& ptePerm = perm := by
  rw [place_of_view hva] at here
  have hv := not_shared_of_user hva
  have mapped : m.isMappedPage c va = true := by
    rw [isMappedPage_eq hv, here]
    rfl
  obtain ⟨hd, t0, -, -, hl⟩ := exists_leafPte mapped
  have leaf := ent_of_leafPte hd hv hl
  obtain ⟨-, rfl⟩ := Prod.mk.inj (Option.some.inj (here.symm.trans leaf))
  exact ⟨_, (agrees.pt0 va hva mapped).trans hl, rfl⟩

/-- What a page of a place lets user code do. -/
theorem translate_place {cause : Fault} {va p : Nat} (hd : m.pgdir c ≠ 0) (hva : va < ulim)
    (h : m.translate c cause va = some p) :
    ∃ perm, m.place (placeOf c va) = some (p, perm) ∧ permits perm cause := by
  rw [place_of_view hva]
  have hv := not_shared_of_user hva
  unfold Pmap.translate at h
  split at h
  · split at h
    · rename_i pte hl
      split at h
      · rename_i ok
        obtain rfl := Option.some.inj h
        exact ⟨pte2perm pte, ent_of_leafPte hd hv hl, (permits_perm pte cause).mpr ok⟩
      · cases h
    · cases h
  · cases h

/-- The env keeps its pages, and the page that `duppage` is about as it is. -/
theorem Walked.keep {m' : Pmap EnvIdx} {prog : Prog} (h : Walked m c prog)
    (kept : ∀ v p a, v ≠ ucowPage → m.place (c, v) = some (p, a) →
      ∃ p' a', m'.place (c, v) = some (p', a') ∧
        ∀ perm, prog.page = some (v, perm) → p' = p ∧ SameBits a' a)
    (child : ∀ a v, prog.child = some a → m'.place (envx a, v) = m.place (envx a, v)) :
    Walked m' c prog := by
  refine ⟨fun a v ha hv => ?_, fun a vpn hp => ?_, fun vpn perm hp => ?_, fun a vpn perm hp => ?_⟩
  · rw [child a v ha]
    exact h.ahead a v ha hv
  · obtain ⟨low, ne, p, b, there⟩ := h.called a vpn hp
    obtain ⟨p', b', there', -⟩ := kept vpn p b ne there
    exact ⟨low, ne, p', b', there'⟩
  · obtain ⟨low, ne, small, p, b, there, bits⟩ := h.page vpn perm hp
    obtain ⟨p', b', there', same⟩ := kept vpn p b ne there
    exact ⟨low, ne, small, p', b', there', bits.trans ((same perm hp).2.symm)⟩
  · have hp' : prog.page = some (vpn, perm) := by
      rw [hp]
      rfl
    obtain ⟨writes, legal, p, b, d, there, lent, ro⟩ := h.lent a vpn perm hp
    obtain ⟨p', b', there', same⟩ := kept vpn p b (h.page vpn perm hp').2.1 there
    obtain ⟨rfl, -⟩ := same perm hp'
    refine ⟨writes, legal, _, b', d, there', ?_, ro⟩
    rw [child a vpn (by rw [hp]; rfl)]
    exact lent

/-- Only one page of the env changes, and `duppage` is not about it. -/
theorem Walked.off {m' : Pmap EnvIdx} {prog : Prog} {v₀ : Nat} (h : Walked m c prog)
    (off : ∀ y, y ≠ (c, v₀) → m'.place y = m.place y)
    (kept : v₀ ≠ ucowPage → m.place (c, v₀) ≠ none → m'.place (c, v₀) ≠ none)
    (page : ∀ perm, prog.page ≠ some (v₀, perm)) (child : ∀ a, prog.child = some a → envx a ≠ c) :
    Walked m' c prog := by
  refine h.keep (fun v p a ne there => ?_) fun a v ha => off _ fun eq => ?_
  · by_cases eq : v = v₀
    · rw [eq] at ne there ⊢
      obtain ⟨⟨p', a'⟩, there'⟩ := Option.ne_none_iff_exists'.mp
        (kept ne (by rw [there]; exact Option.some_ne_none _))
      exact ⟨p', a', there', fun perm hp => absurd hp (page perm)⟩
    · refine ⟨p, a, (off _ fun same => eq (Prod.mk.inj same).2).trans there, fun perm hp => ?_⟩
      exact ⟨rfl, .refl a⟩
  · exact child a ha (Prod.mk.inj eq).1

/-! ## The steps -/

/-- `pt0[va >> VPN0_SHIFT]`. -/
theorem Inv.cow_entered (h : Inv M K1 K0 s) (current : s.kernel.curenv = some c) {va : Nat}
    (at_ : s.handler c = some (.entered va)) (agrees : SelfMapAgrees s.kernel.pmap c)
    (out : s.cowEntry c (.entered va) = some s') : Inv M K1 K0 s' ∧ s'.memories = s.memories := by
  have here := h.locals c
  have handled := here.handled
  rw [at_] at handled
  obtain ⟨free, p, cow⟩ := handled
  obtain ⟨perm, page, bit⟩ := cow.page
  obtain ⟨pte, load, rfl⟩ := pt0_place agrees cow.user page
  obtain ⟨pte', load', out⟩ := Option.bind_eq_some_iff.mp out
  obtain rfl := Option.some.inj (load.symm.trans load')
  obtain rfl := Option.some.inj out
  rw [if_neg bit]
  rw [setHandler_self]
  refine h.stays current h.secure (.refl _) (h.not_born current) (fun _ ha => ha)
    (fun va' mapped => absurd (mapped.symm.trans at_) (by rintro ⟨⟩)) rfl
    ⟨here.toWalked, ⟨free, ?_, p, cow⟩, fun hd va' perm at' fault => ?_⟩
  · refine ownPerm_bits (Nat.lt_of_le_of_lt Nat.and_le_right (by decide)) ?_
    by_contra library
    exact (h.cow _ p _ page bit).1 library
  · obtain rfl := Option.some.inj at'
    exact here.apart _ va' perm at_ fault

/-- A place that is not the env's own memory may change as it likes. -/
theorem memories_hidden {x : Place EnvIdx} {v : Option (Nat × Nat)}
    {prog : Prog} (moves : Moves s.kernel.pmap m x v) (lends : prog.lends = (s.prog c).lends)
    (hidden : x.2 < walkedPages → x.2 = ucowPage) :
    (s.moved c m prog handler).memories = s.memories := by
  refine memories_same moves.off (fun y _ => lent_moved lends y) (fun y p ne there => ?_)
    (x := x) ?_
  · obtain ⟨-, -, -, perm, there, -⟩ := cell_place there
    exact moves.data y p perm ne there
  · rw [memories_zero, memories_zero]
    · exact fun low ne => absurd (hidden low) ne
    · exact fun low ne => absurd (hidden low) ne

/-- A call that failed leaves the env in `user_panic`. -/
theorem Inv.cow_panicked (h : Inv M K1 K0 s) (current : s.kernel.curenv = some c)
    (secure : Kernel.Secure M K1 K0 (fun _ _ => True) { s.kernel with pmap := m })
    (stays : Stays s.kernel.pmap m) (mapped : ∀ va, s.handler c ≠ some (.mapped va)) :
    Inv M K1 K0 (s.moved c m (s.prog c) (some .panicked)) ∧
      (s.moved c m (s.prog c) (some .panicked)).memories = s.memories := by
  refine h.stays current secure stays (h.not_born current) (fun _ ha => ha)
    (fun va hm => absurd hm (mapped va)) rfl ⟨?_, trivial, fun hd va' perm at' fault => ?_⟩
  · exact (h.locals c).toWalked.keep (fun v p a _ there => ⟨p, a, (stays.place _).trans there,
      fun perm _ => ⟨rfl, .refl a⟩⟩) fun a v _ => stays.place _
  · obtain rfl := Option.some.inj at'
    cases fault

/-- `syscall_mem_alloc(0, UCOW, perm)`. -/
theorem Inv.cow_looked (h : Inv M K1 K0 s) (current : s.kernel.curenv = some c) {va perm : Nat}
    (at_ : s.handler c = some (.looked va perm))
    (out : s.cowEntry c (.looked va perm) = some s') :
    Inv M K1 K0 s' ∧ s'.memories = s.memories := by
  have here := h.locals c
  have handled := here.handled
  rw [at_] at handled
  obtain ⟨free, own, p, cow⟩ := handled
  have hs := h.secure.guarded.consistent
  have hu := h.secure.guarded.userApart
  have live := h.live current
  have hva : ucow < ulim := by decide
  have free' : s.kernel.pmap.view c ucow = none := by
    rw [← place_of_view hva]
    exact free
  have mapped (va' : Nat) : s.handler c ≠ some (.mapped va') := by
    rw [at_]
    rintro ⟨⟩
  obtain ⟨⟨r, s₁⟩, hcall, out⟩ := Option.bind_eq_some_iff.mp out
  obtain rfl := Option.some.inj out
  obtain ⟨k, hx, rfl⟩ := call_some.mp hcall
  have careful : ∀ e, s.kernel.curenv = some e →
      Kernel.Careful (fun _ _ => True) s.kernel e (.sysMemAlloc 0 ucow perm) := by
    intro e he e' he' hm
    obtain rfl := Option.some.inj (he.symm.trans current)
    obtain rfl := Except.ok.inj he'
    rw [isMappedPage_eq (not_shared_of_user hva), free'] at hm
    cases hm
  have secure := (h.secure.sysMemAlloc careful hx).granted
  rw [Kernel.sysMemAlloc_self current (by decide)] at hx
  obtain ⟨m, alloc, rfl⟩ := Kernel.liftPmap_ok hx
  have small : uInt perm = perm := Nat.mod_eq_of_lt (own.small.trans (by decide))
  rw [small] at alloc
  rw [setHandler_moved]
  rcases allocPageUser_codes alloc with rfl | rfl
  · obtain ⟨q, moves, -, fresh⟩ := allocPageUser_moves hs hu hva live alloc
    rw [if_neg (by decide)]
    refine ⟨h.moved current secure (h.step moves (.inl rfl)) (.inl rfl) (h.not_born current)
      (fun _ ha => ha)
      (fun x y _ _ alias_ => alias_.moved (fun va' hm => absurd hm (mapped va')) rfl)
      (fun q' a new => ?_) ?_, memories_hidden moves rfl fun _ => rfl⟩
    · obtain ⟨rfl, rfl⟩ := Prod.mk.inj (Option.some.inj new)
      refine ⟨⟨fun bit => ?_, fun high => ?_⟩, fun y b ne there => absurd there (fresh y b ne)⟩
      · rw [or_pteV_and _ (by decide)] at bit
        exact absurd own.cow bit
      · exact absurd high (by decide : ¬ walkedPages ≤ ucowPage)
    · have others {w : Nat} (ne : w ≠ ucowPage) : m.place (c, w) = s.kernel.pmap.place (c, w) :=
        moves.off _ fun eq => ne (Prod.mk.inj eq).2
      refine ⟨here.toWalked.off moves.off (fun ne => absurd rfl ne) (fun perm hp => ?_)
        fun a ha => h.child_ne current ha, ⟨own, Nat.zero_le _, p, q, ⟨cow.user, cow.apart, ?_⟩,
        moves.here, fun i => ⟨fun lt => absurd lt (Nat.not_lt_zero _),
          fun lt => absurd lt (Nat.not_lt_zero _)⟩⟩, fun hd va' perm at' fault => ?_⟩
      · exact (here.page _ _ hp).2.1 rfl
      · rw [placeOf, others cow.apart]
        exact cow.page
      · obtain rfl := Option.some.inj at'
        exact here.apart _ va' perm at_ fault
  · rw [if_pos (by decide)]
    have stays := allocPageUser_stays hs hu hva live free' alloc (by decide)
    exact h.cow_panicked current secure stays mapped

/-- A store to a page of the running env, which keeps the places. -/
theorem Inv.stored (h : Inv M K1 K0 s) (current : s.kernel.curenv = some c) {x : Place EnvIdx}
    {p a : Nat} (own : x.1 = c) (here : s.place x = some (p, a)) (open_ : Writes a ∨ Library a)
    {f : Vpn → Nat} (secure : Kernel.Secure M K1 K0 (fun _ _ => True)
      { s.kernel with pmap := s.kernel.pmap.writePage p f })
    (mapped : ∀ va, s.handler c = some (.mapped va) → handler = some (.mapped va))
    (after : Local (s.kernel.pmap.writePage p f) c (s.prog c) handler) :
    Inv M K1 K0 (s.moved c (s.kernel.pmap.writePage p f) (s.prog c) handler) := by
  have apart : ¬ s.kernel.pmap.TablePage p := h.secure.guarded.userApart.place here
  have same : ∀ y, (s.kernel.pmap.writePage p f).place y = s.kernel.pmap.place y :=
    writePage_place apart f
  have step : Step s c (s.kernel.pmap.writePage p f) x (s.place x) :=
    ⟨same x, fun y _ => same y, fun _ zero => zero, fun e ne va perm n w q b copying at_ there =>
      Function.update_of_ne (h.copies_apart own here open_ ne copying at_ there) _ _⟩
  exact h.moved current secure step (.inl own) (h.not_born current) (fun _ ha => ha)
    (fun y z _ _ alias_ => alias_.moved mapped rfl)
    (fun q b there => h.fits there (.refl b) fun y z alias_ => alias_.moved mapped rfl) after

theorem copyHalf_even (dst src : Nat) {n : Nat} (even : n % 2 = 0) :
    copyHalf dst src n % 2 ^ 32 = src % 2 ^ 32 ∧ copyHalf dst src n / 2 ^ 32 = dst / 2 ^ 32 := by
  unfold copyHalf
  rw [if_pos even]
  omega

theorem copyHalf_odd (dst src : Nat) {n : Nat} (odd : ¬ n % 2 = 0) :
    copyHalf dst src n % 2 ^ 32 = dst % 2 ^ 32 ∧ copyHalf dst src n / 2 ^ 32 = src / 2 ^ 32 := by
  unfold copyHalf
  rw [if_neg odd]
  omega

theorem wordIdx_page {base n : Nat} (hn : n < 1024) :
    (wordIdx (4096 * base + 4 * n)).val = n / 2 := by
  unfold wordIdx
  simp only
  rw [Nat.and_comm, show 0x1FF = 2 ^ 9 - 1 from rfl, Nat.and_comm, Nat.and_two_pow_sub_one_eq_mod,
    Nat.shiftRight_eq_div_pow]
  omega

theorem Copied.next {p q n : Nat} {i₀ : Vpn} (h : Copied m p q n) (ne : p ≠ q)
    (hi : i₀.val = n / 2) :
    Copied (m.setPte q i₀ (copyHalf (m.mem q i₀) (m.mem p i₀) n)) p q (n + 1) := by
  intro i
  obtain ⟨low, high⟩ := h i
  rw [setPte_mem_of_ne _ _ _ ne]
  by_cases eq : i = i₀
  · subst eq
    rw [setPte_mem, if_pos ⟨rfl, rfl⟩]
    by_cases even : n % 2 = 0
    · obtain ⟨low', -⟩ := copyHalf_even (m.mem q i) (m.mem p i) even
      exact ⟨fun _ => low', fun lt => by omega⟩
    · obtain ⟨low', high'⟩ := copyHalf_odd (m.mem q i) (m.mem p i) even
      exact ⟨fun _ => low'.trans (low (by omega)), fun _ => high'⟩
  · have off : i.val ≠ n / 2 := fun same => eq (Fin.ext (same.trans hi.symm))
    rw [setPte_mem, if_neg fun both => eq both.2]
    exact ⟨fun lt => low (by omega), fun lt => high (by omega)⟩

theorem Copied.whole {p q n : Nat} (h : Copied m p q n) (all : 1024 ≤ n) : m.mem q = m.mem p := by
  funext i
  obtain ⟨low, high⟩ := h i
  have := i.isLt
  have same := low (by omega)
  have same' := high (by omega)
  omega

/-- A word of `memcpy((void *)UCOW, …, PAGE_SIZE)`. -/
theorem Inv.cow_copying (h : Inv M K1 K0 s) (current : s.kernel.curenv = some c)
    {va perm n : Nat} (at_ : s.handler c = some (.copying va perm n)) (lt : n < 1024)
    (out : s.cowEntry c (.copying va perm n) = some s') :
    Inv M K1 K0 s' ∧ s'.memories = s.memories := by
  have here := h.locals c
  have handled := here.handled
  rw [at_] at handled
  obtain ⟨own, le, p, q, cow, copy, copied⟩ := handled
  obtain ⟨a, page, bit⟩ := cow.page
  have live := h.live current
  have user := cow.user
  have out := (if_pos lt).symm.trans out
  obtain ⟨m, word, out⟩ := Option.bind_eq_some_iff.mp out
  obtain rfl := Option.some.inj out
  obtain ⟨p', load, word⟩ := Option.bind_eq_some_iff.mp word
  obtain ⟨q', store, word⟩ := Option.bind_eq_some_iff.mp word
  have from_page : (va / 4096 * 4096 + 4 * n) / 4096 = va / 4096 := by omega
  have from_lt : va / 4096 * 4096 + 4 * n < ulim := by
    unfold ulim at user ⊢
    omega
  have to_page : (ucow + 4 * n) / 4096 = ucowPage := by
    unfold ucowPage ucow
    omega
  have to_lt : ucow + 4 * n < ulim := by
    unfold ucow ulim
    omega
  obtain ⟨perm', there, -⟩ := translate_place live from_lt load
  rw [placeOf, from_page] at there
  obtain ⟨rfl, -⟩ := Prod.mk.inj (Option.some.inj (there.symm.trans page))
  obtain ⟨perm', there, -⟩ := translate_place live to_lt store
  rw [placeOf, to_page] at there
  obtain ⟨rfl, -⟩ := Prod.mk.inj (Option.some.inj (there.symm.trans copy))
  have writes := (writes_or_pteV perm).mpr own.writes
  have alone (y : Place EnvIdx) : ¬ s.Alias (c, ucowPage) y := by
    refine not_alias (fun va' mapped => ?_) fun perm hp => (here.page _ _ hp).2.1 rfl
    rw [at_] at mapped
    cases mapped
  have ne : p' ≠ q' := by
    rintro rfl
    exact cow.apart (Prod.mk.inj (h.sole copy writes page (alone _))).2
  have to_ : ucow + 4 * n = 4096 * ucowPage + 4 * n := by
    unfold ucowPage ucow
    omega
  have to_idx : (wordIdx (ucow + 4 * n)).val = n / 2 := by
    rw [to_, wordIdx_page lt]
  have idx : wordIdx (va / 4096 * 4096 + 4 * n) = wordIdx (ucow + 4 * n) := by
    apply Fin.ext
    rw [to_idx, Nat.mul_comm, wordIdx_page lt]
  rw [idx] at word
  obtain rfl := Option.some.inj word
  have next := copied.next ne to_idx
  generalize copyHalf (s.kernel.pmap.mem q' (wordIdx (ucow + 4 * n)))
    (s.kernel.pmap.mem p' (wordIdx (ucow + 4 * n))) n = w at next ⊢
  have secure := h.secure.store current store w
  have apart : ¬ s.kernel.pmap.TablePage q' := h.secure.guarded.userApart.place copy
  have same (y : Place EnvIdx) :=
    writePage_place apart (Function.update (s.kernel.pmap.mem q') (wordIdx (ucow + 4 * n)) w) y
  rw [setHandler_moved]
  refine ⟨h.stored current (x := (c, ucowPage)) rfl copy (.inl writes) secure (fun va' mapped => ?_)
    ⟨?_, ⟨own, lt, p', q', ⟨cow.user, cow.apart, a, (same _).trans page, bit⟩,
      (same _).trans copy, next⟩, fun hd va' perm at' fault => ?_⟩, ?_⟩
  · rw [at_] at mapped
    cases mapped
  · exact here.toWalked.keep (fun v p a _ there => ⟨p, a, (same _).trans there,
      fun perm _ => ⟨rfl, .refl a⟩⟩) fun a v _ => same _
  · obtain rfl := Option.some.inj at'
    exact here.apart _ va' perm at_ fault
  · refine contents_same (fun y => cell_congr (same y) (lent_moved rfl y)) fun y r there => ?_
    obtain ⟨-, notUcow, -, perm', shown, -⟩ := cell_place there
    refine Function.update_of_ne ?_ _ _
    rintro rfl
    have eq := h.sole copy writes shown (alone y)
    exact notUcow (by rw [eq])

/-- The memory of an env that runs is not lent by its parent. -/
theorem Inv.not_lent (h : Inv M K1 K0 s) (current : s.kernel.curenv = some c) {x : Place EnvIdx}
    (own : x.1 = c) : ¬ s.Lent x := by
  rintro ⟨e, lends⟩
  obtain ⟨a, ha, of_child, -⟩ := child_of_lends lends
  exact h.child_ne current ha (of_child.symm.trans own)

/-- `syscall_mem_map(0, UCOW, 0, va, perm)`. -/
theorem Inv.cow_copied (h : Inv M K1 K0 s) (current : s.kernel.curenv = some c)
    (counts : ∀ x p perm, s.place x = some (p, perm) → s.kernel.pmap.ppRef p < 65535)
    {va perm n : Nat} (at_ : s.handler c = some (.copying va perm n)) (all : ¬ n < 1024)
    (out : s.cowEntry c (.copying va perm n) = some s') :
    Inv M K1 K0 s' ∧ s'.memories = s.memories := by
  have here := h.locals c
  have handled := here.handled
  rw [at_] at handled
  obtain ⟨own, -, p, q, cow, copy, copied⟩ := handled
  obtain ⟨a, page, bit⟩ := cow.page
  have hs := h.secure.guarded.consistent
  have hu := h.secure.guarded.userApart
  have live := h.live current
  have hva : ucow < ulim := by decide
  have notMapped (va' : Nat) : s.handler c ≠ some (.mapped va') := by
    rw [at_]
    rintro ⟨⟩
  have copy' : s.kernel.pmap.view c ucow = some (q, perm ||| pteV) := by
    rw [← place_of_view hva]
    exact copy
  have out := (if_neg all).symm.trans out
  obtain ⟨⟨r, s₁⟩, hcall, out⟩ := Option.bind_eq_some_iff.mp out
  obtain rfl := Option.some.inj out
  obtain ⟨k, hx, rfl⟩ := call_some.mp hcall
  have pa : s.kernel.pmap.getPa c ucow / 4096 = q := by
    rw [getPa_of_view (not_shared_of_user hva) copy']
    unfold ucow
    omega
  have careful : ∀ e, s.kernel.curenv = some e →
      Kernel.Careful (fun _ _ => True) s.kernel e (.sysMemMap 0 ucow 0 va perm) := by
    intro e he src hsrc _
    obtain rfl := Option.some.inj (he.symm.trans current)
    obtain rfl := Except.ok.inj hsrc
    rw [pa]
    exact counts _ q _ copy
  have secure := (h.secure.sysMemMap careful hx).granted
  by_cases legal : isIllegalVa va
  · unfold Kernel.sysMemMap at hx
    rw [if_pos (.inr legal)] at hx
    obtain ⟨rfl, rfl⟩ := Prod.mk.inj (Except.ok.inj hx)
    have panicked := h.cow_panicked current (m := s.kernel.pmap) h.secure (.refl _) notMapped
    rw [← setHandler_moved] at panicked
    exact panicked
  have mapped : s.kernel.pmap.isMappedPage c ucow = true := by
    rw [isMappedPage_eq (not_shared_of_user hva), copy']
    rfl
  rw [Kernel.sysMemMap_self current (by decide) legal mapped] at hx
  obtain ⟨m, map, rfl⟩ := Kernel.liftPmap_ok hx
  have small : uInt perm = perm := Nat.mod_eq_of_lt (own.small.trans (by decide))
  rw [small] at map
  rw [setHandler_moved]
  rcases mapPageUser_codes map with rfl | rfl
  · rw [if_neg (by decide)]
    have src : s.kernel.pmap.place (c, ucowPage) =
        some (s.kernel.pmap.getPa c ucow / 4096, perm ||| pteV) := by
      rw [pa]
      exact copy
    obtain ⟨moves, data⟩ := mapPageUser_moves hs hu cow.user live src map
    rw [pa] at moves data
    obtain ⟨notLib, low⟩ := h.cow _ p a page bit
    have writes := (writes_or_pteV perm).mpr own.writes
    have alone (y : Place EnvIdx) : ¬ s.Alias (c, ucowPage) y :=
      not_alias notMapped fun perm hp => (here.page _ _ hp).2.1 rfl
    have new : (s.moved c m (s.prog c) (some (.mapped va))).handler c = some (.mapped va) :=
      moved_handler
    refine ⟨h.moved current secure (h.step moves (.inl rfl)) (.inl rfl) (h.not_born current)
      (fun _ ha => ha)
      (fun x y _ _ alias_ => alias_.moved (fun va' hm => absurd hm (notMapped va')) rfl)
      (fun q' a' at' => ?_) ⟨?_, ⟨cow.user, low, cow.apart⟩, fun hd va' perm at' fault => ?_⟩, ?_⟩
    · obtain ⟨rfl, rfl⟩ := Prod.mk.inj (Option.some.inj at')
      refine ⟨⟨fun cow => ?_, fun high => absurd high (Nat.not_le_of_lt low)⟩,
        fun y b _ there => ?_⟩
      · rw [or_pteV_and _ (by decide)] at cow
        exact absurd own.cow cow
      · obtain rfl := h.sole copy writes there (alone y)
        obtain ⟨-, rfl⟩ := Prod.mk.inj (Option.some.inj (copy.symm.trans there))
        exact ⟨fun _ => .inl ⟨va, new, rfl, .inl ⟨rfl, rfl⟩⟩,
          fun _ => .inl ⟨va, new, rfl, .inr ⟨rfl, rfl⟩⟩, Iff.rfl⟩
    · refine here.toWalked.off moves.off (fun _ _ => ?_)
        (fun perm' => here.apart _ va perm' at_ rfl) fun a ha => h.child_ne current ha
      have there : m.place (c, va / 4096) = _ := moves.here
      rw [there]
      exact Option.some_ne_none _
    · obtain rfl := Option.some.inj at'
      cases fault
    · refine memories_same moves.off (fun y _ => lent_moved rfl y) (fun y p' ne there => ?_)
        (x := placeOf c va) ?_
      · obtain ⟨-, -, -, perm', shown, -⟩ := cell_place there
        exact moves.data y p' perm' ne shown
      · have unlent := h.not_lent current (x := placeOf c va) rfl
        rw [memories_of low cow.apart unlent page notLib,
          memories_of low cow.apart (fun l => unlent ((lent_moved rfl _).mp l)) moves.here
            writes.not_library]
        exact data.trans (copied.whole (Nat.not_lt.mp all))
  · rw [if_pos (by decide)]
    exact h.cow_panicked current secure (mapPageUser_stays hs hu cow.user live map (by decide))
      notMapped

/-- `syscall_mem_unmap(0, UCOW)`. -/
theorem Inv.cow_mapped (h : Inv M K1 K0 s) (current : s.kernel.curenv = some c) {va : Nat}
    (out : s.cowEntry c (.mapped va) = some s') : Inv M K1 K0 s' ∧ s'.memories = s.memories := by
  have here := h.locals c
  have hva : ucow < ulim := by decide
  obtain ⟨⟨r, s₁⟩, hcall, out⟩ := Option.bind_eq_some_iff.mp out
  obtain rfl := Option.some.inj out
  obtain ⟨k, hx, rfl⟩ := call_some.mp hcall
  have secure := (h.secure.sysMemUnmap hx).granted
  rw [Kernel.sysMemUnmap_self current (by decide)] at hx
  obtain ⟨m, unmap, rfl⟩ := Kernel.liftPmap_ok hx
  have moves := unmapPage_moves h.secure.guarded.consistent h.secure.guarded.userApart hva unmap
  rw [setHandler_moved]
  refine ⟨h.moved current secure (h.step moves (.inl rfl)) (.inl rfl) (h.not_born current)
    (fun _ ha => ha) (fun x y offx offy alias_ => ?_) (fun q a new => by cases new)
    ⟨?_, moves.here, fun hd va' perm at' => by cases at'⟩, memories_hidden moves rfl fun _ => rfl⟩
  · by_cases eq : x.1 = c
    · rcases alias_ with ⟨va', -, same, ⟨-, page⟩ | ⟨page, -⟩⟩ | lends
      · exact absurd (Prod.ext (same.trans eq) page) offy
      · exact absurd (Prod.ext eq page) offx
      · refine .inr ?_
        rw [eq] at lends ⊢
        rw [moved_prog]
        exact lends
    · unfold Alias
      rw [moved_handler_of_ne eq, moved_prog_of_ne eq]
      exact alias_
  · exact here.toWalked.off moves.off (fun ne => absurd rfl ne)
      (fun perm hp => (here.page _ _ hp).2.1 rfl) fun a ha => h.child_ne current ha

/-- A step of `cow_entry`. -/
theorem Inv.cowEntry (h : Inv M K1 K0 s) (current : s.kernel.curenv = some c) {hd : Handler}
    (at_ : s.handler c = some hd) (agrees : SelfMapAgrees s.kernel.pmap c)
    (counts : ∀ x p perm, s.place x = some (p, perm) → s.kernel.pmap.ppRef p < 65535)
    (out : s.cowEntry c hd = some s') : Inv M K1 K0 s' ∧ s'.memories = s.memories := by
  cases hd with
  | entered va => exact h.cow_entered current at_ agrees out
  | looked va perm => exact h.cow_looked current at_ out
  | copying va perm n =>
    by_cases lt : n < 1024
    · exact h.cow_copying current at_ lt out
    · exact h.cow_copied current counts at_ lt out
  | mapped va => exact h.cow_mapped current out
  | panicked => cases out

end

end RiscvMos.Forks
