import RiscvMos.Env.Copies
import RiscvMos.Env.Elf
import RiscvMos.Env.MemCalls

/-!
`load_icode` of `kern/env.c`. An address space shows an image if every page of
the image is mapped, each to a frame of its own that holds its bytes; a call of
the mapper then does to the address space what a visit does to the image.
-/

namespace RiscvMos

open PageImage Elf

namespace Pmap

section
variable {D : Type} [DecidableEq D]

def loadIcodeMapper (binary : Binary) (e : D) : Mapper (Pmap D) := fun s c =>
  andThen (if s.isMappedPage e c.va = false then s.allocPageUser e c.va c.perm
    else .ok (0, s)) fun s =>
    let pa := s.getPa e c.va
    match c.src with
    | none => .ok (0, s)
    | some src => .ok (0, s.copyTo pa (fun i => binary i) src c.len)

/-- `load_icode`: the new `env_tf.sepc`, and the state. -/
def loadIcode (s : Pmap D) (e : D) (binary : Binary) (size : Nat) : Except Halt (Nat × Pmap D) :=
  if elfFrom64 binary size = false then .error (.panic "bad elf at %x")
  else do
    let (r, s) ← loadSegs (loadIcodeMapper binary e) (phdrs binary) s
    if r ≠ 0 then
      .error (.panic
        "'elf_load_seg_64(ph, binary + ph->p_offset, load_icode_mapper, e)' returned %d")
    else .ok (eEntry binary, s)

end

section
variable {D : Type} {s s' : Pmap D} {e : D} {I : Image (Fin 256)} {va p q perm : Nat}

/-- The address space of `e` shows the image: its pages are mapped, each to a
frame that no other page of the image has. -/
structure Shows (I : Image (Fin 256)) (e : D) (s : Pmap D) : Prop where
  low : ∀ p, (I p).isSome → 4096 * p < ulim
  page : ∀ p f, I p = some f → ∃ q perm, s.view e (4096 * p) = some (q, perm) ∧
    ∀ o < 4096, s.byteAt (4096 * q + o) = f o
  apart : ∀ p p' q, (I p).isSome → (I p').isSome → s.tgt (leafSlot e (4096 * p)) = some q →
    s.tgt (leafSlot e (4096 * p')) = some q → p = p'

theorem leafSlot_page (e : D) (va : Nat) : leafSlot e (4096 * (va / 4096)) = leafSlot e va := by
  have page : 4096 * (va / 4096) / 4096 = va / 4096 := by omega
  obtain ⟨same2, same1, same0⟩ := vpn_page page
  unfold leafSlot
  rw [same2, same1, same0]

theorem byteAt_of_mem {q o : Nat} (h : s'.mem q = s.mem q) (ho : o < 4096) :
    s'.byteAt (4096 * q + o) = s.byteAt (4096 * q + o) := by
  have page : (4096 * q + o) / 4096 = q := by omega
  unfold byteAt
  rw [page, h]

theorem byteAt_zero {q o : Nat} (h : s.mem q = fun _ => 0) (ho : o < 4096) :
    s.byteAt (4096 * q + o) = 0 := by
  have page : (4096 * q + o) / 4096 = q := by omega
  unfold byteAt
  rw [page, h]
  simp

namespace Shows

theorem empty (e : D) (s : Pmap D) : Shows (fun _ => none) e s :=
  ⟨fun _ h => by simp at h, fun _ _ h => by simp at h, fun _ _ _ h => by simp at h⟩

/-- What the image has at an address is what the env has there. -/
theorem byteAt (h : Shows I e s) {b : Fin 256} (hb : I.byteAt 4096 va = some b) :
    s.isMappedPage e va = true ∧ s.byteAt (s.getPa e va) = b := by
  obtain ⟨f, hf, rfl⟩ := Option.map_eq_some_iff.mp hb
  obtain ⟨q, perm, view, bytes⟩ := h.page _ f hf
  have low := h.low (va / 4096) (by rw [hf]; rfl)
  have hva : va < ulim := by
    simp only [ulim] at low ⊢
    omega
  have view : s.view e va = some (q, perm) := by
    rw [Pmap.view, ← leafSlot_page]
    exact view
  constructor
  · rw [isMappedPage_eq (not_shared_of_user hva), view]
    rfl
  · rw [getPa_of_view (not_shared_of_user hva) view, Nat.mul_comm]
    exact bytes _ (Nat.mod_lt _ (by decide))

/-- A step that leaves the slots of the image alone. -/
theorem frame {M : Nat → Prop} {C : Slot D → Prop} (h : Shows I e s) (hu : s.UserApart)
    (hf : Frame M C s s')
    (other : ∀ p, (I p).isSome → ¬ C (leafSlot e (4096 * p))) : Shows I e s' := by
  constructor
  · exact h.low
  · intro p f hp
    have some : (I p).isSome := by rw [hp]; rfl
    obtain ⟨q, perm, view, bytes⟩ := h.page p f hp
    refine ⟨q, perm, (hf.ent_eq _ (other p some)).trans view, ?_⟩
    intro o ho
    have tgt : s.tgt (leafSlot e (4096 * p)) = .some q := tgt_eq_some.mpr ⟨perm, view⟩
    have data := hf.data _ q (other p some) tgt (hu e _ (h.low p some) q tgt)
    rw [byteAt_of_mem data.1 ho]
    exact bytes o ho
  · intro p p' q hp hp' htgt htgt'
    rw [hf.tgt_eq (other p hp)] at htgt
    rw [hf.tgt_eq (other p' hp')] at htgt'
    exact h.apart p p' q hp hp' htgt htgt'

/-- The image without one page. -/
theorem erase (h : Shows I e s) (p : Nat) : Shows (Function.update I p none) e s := by
  have sub : ∀ p', (Function.update I p none p').isSome → p' ≠ p ∧ (I p').isSome := by
    intro p' some
    by_cases same : p' = p
    · rw [same, Function.update_self] at some
      cases some
    · rw [Function.update_of_ne same] at some
      exact ⟨same, some⟩
  constructor
  · intro p' some
    exact h.low p' (sub p' some).2
  · intro p' f hp
    have other := (sub p' (by rw [hp]; rfl)).1
    rw [Function.update_of_ne other] at hp
    exact h.page p' f hp
  · intro p₁ p₂ q h₁ h₂
    exact h.apart p₁ p₂ q (sub p₁ h₁).2 (sub p₂ h₂).2

/-- The image with a page that has a frame of its own. -/
theorem insert {f : Nat → Fin 256} (h : Shows (Function.update I p none) e s)
    (low : 4096 * p < ulim)
    (view : s.view e (4096 * p) = some (q, perm))
    (bytes : ∀ o < 4096, s.byteAt (4096 * q + o) = f o)
    (own : ∀ p', p' ≠ p → (I p').isSome → s.tgt (leafSlot e (4096 * p')) ≠ some q) :
    Shows (Function.update I p (some f)) e s := by
  have tgt : s.tgt (leafSlot e (4096 * p)) = some q := tgt_eq_some.mpr ⟨perm, view⟩
  have rest : ∀ p', p' ≠ p →
      Function.update I p none p' = I p' ∧ Function.update I p (some f) p' = I p' :=
    fun p' other => ⟨Function.update_of_ne other .., Function.update_of_ne other ..⟩
  constructor
  · intro p' some
    by_cases same : p' = p
    · rw [same]
      exact low
    · rw [(rest p' same).2, ← (rest p' same).1] at some
      exact h.low p' some
  · intro p' f' hp
    by_cases same : p' = p
    · subst same
      rw [Function.update_self] at hp
      obtain rfl := Option.some.inj hp
      exact ⟨q, perm, view, bytes⟩
    · rw [(rest p' same).2, ← (rest p' same).1] at hp
      exact h.page p' f' hp
  · intro p₁ p₂ q' some₁ some₂ tgt₁ tgt₂
    by_cases first : p₁ = p <;> by_cases second : p₂ = p
    · rw [first, second]
    · subst first
      obtain rfl := Option.some.inj (tgt.symm.trans tgt₁)
      rw [(rest p₂ second).2] at some₂
      exact absurd tgt₂ (own p₂ second some₂)
    · subst second
      obtain rfl := Option.some.inj (tgt.symm.trans tgt₂)
      rw [(rest p₁ first).2] at some₁
      exact absurd tgt₁ (own p₁ first some₁)
    · rw [(rest p₁ first).2, ← (rest p₁ first).1] at some₁
      rw [(rest p₂ second).2, ← (rest p₂ second).1] at some₂
      exact h.apart p₁ p₂ q' some₁ some₂ tgt₁ tgt₂

end Shows

end

section
variable {D : Type} [DecidableEq D] [Fintype D] {M : Nat → Prop} {s s' : Pmap D} {e : D}
    {I : Image (Fin 256)}
  {va perm : Nat}

omit [DecidableEq D] [Fintype D] in
/-- The slots of other pages are not touched. -/
theorem page_not_touched {p : Nat} {d : D} (hva : va < ulim) (low : 4096 * p < ulim)
    (h : e ≠ d ∨ p ≠ va / 4096) :
    ¬ Touched (OnPath d) d va (leafSlot e (4096 * p)) := by
  have hlt : va < 2 ^ 39 := hva.trans (by decide)
  apply not_touched_of_user hlt low
  intro same
  obtain ⟨dir, page⟩ := leafSlot_inj (low.trans (by decide)) hlt same
  cases h with
  | inl other => exact other dir
  | inr other =>
    apply other
    rw [← page]
    omega

/-- A fresh page shows zeros. -/
theorem Shows.alloc (hs : Consistent M s) (hu : s.UserApart) (h : Shows I e s) (hva : va < ulim)
    (ha : s.allocPageUser e va perm = .ok (0, s')) :
    Shows (Function.update I (va / 4096) (some fun _ => 0)) e s' := by
  have hlt : va < 2 ^ 39 := hva.trans (by decide)
  obtain ⟨-, hf, -, q, -, hent, hzero, hfresh, -⟩ :=
    allocPageUser_spec hs hlt (not_shared_of_user hva)
    (apart_of_ne s hlt (vpn2_ne_three_of_user hva)) ha
  have view : s'.view e (4096 * (va / 4096)) = some (q, perm ||| pteV) := by
    rw [Pmap.view, leafSlot_page]
    exact hent
  have tgt : s'.tgt (leafSlot e (4096 * (va / 4096))) = some q := tgt_eq_some.mpr ⟨_, view⟩
  have low : 4096 * (va / 4096) < ulim := Nat.lt_of_le_of_lt (Nat.mul_div_le va 4096) hva
  have other : ∀ p, (Function.update I (va / 4096) none p).isSome → p ≠ va / 4096 := by
    rintro p some rfl
    rw [Function.update_self] at some
    cases some
  apply ((h.erase (va / 4096)).frame hu hf _).insert low view
  · intro o ho
    exact byteAt_zero hzero ho
  · intro p hp some
    apply hfresh
    rw [← leafSlot_page e va]
    intro same
    obtain ⟨-, page⟩ := leafSlot_inj ((h.low p some).trans (by decide)) (low.trans (by decide)) same
    omega
  · intro p some
    exact page_not_touched hva ((h.erase _).low p some) (.inr (other p some))

omit [DecidableEq D] in
theorem copyTo_consistent (hs : Consistent M s) {pa off n : Nat} {data : Nat → Nat}
    (hn : ∀ i < n, ¬ s.TablePage (uLong (pa + i) / 4096)) :
    Consistent M (s.copyTo pa data off n) := by
  induction n with
  | zero => exact hs
  | succ n ih =>
    have before : ∀ i < n, ¬ s.TablePage (uLong (pa + i) / 4096) := fun i hi => hn i (by omega)
    have spaces := @copyTo_sameSpaces _ _ _ off _ data before
    rw [copyTo_succ]
    apply Consistent.of_ent (ih before)
    apply (storeByte_sameSpaces _).ent
    rw [spaces.tablePage]
    exact hn n (by omega)

omit [DecidableEq D] [Fintype D] in
/-- A step that changes bytes only, and those of other frames. -/
theorem Shows.sameSpaces (h : Shows I e s) (hsame : SameSpaces s s') (bytes : ∀ p q, (I p).isSome →
    s.tgt (leafSlot e (4096 * p)) = some q →
    ∀ o < 4096, s'.byteAt (4096 * q + o) = s.byteAt (4096 * q + o)) :
    Shows I e s' := by
  have tgt := tgt_eq_of_ent hsame.ent
  constructor
  · exact h.low
  · intro p f hp
    obtain ⟨q, perm, view, here⟩ := h.page p f hp
    refine ⟨q, perm, (hsame.view e _).trans view, ?_⟩
    intro o ho
    rw [bytes p q (by rw [hp]; rfl) (tgt_eq_some.mpr ⟨perm, view⟩) o ho]
    exact here o ho
  · intro p p' q hp hp' htgt htgt'
    rw [tgt] at htgt htgt'
    exact h.apart p p' q hp hp' htgt htgt'

omit [DecidableEq D] in
/-- A copy to a frame of the image stores bytes in its page. -/
theorem Shows.write (hs : Consistent M s) (hu : s.UserApart) (h : Shows I e s) {binary : Binary}
    {c : MapperCall}
    {src q : Nat} {f : Nat → Fin 256} (hp : I (c.va / 4096) = some f) (hsrc : c.src = some src)
    (page : c.va % 4096 + c.len ≤ 4096) (view : s.view e c.va = some (q, perm)) :
    Consistent M (s.copyTo (q * 4096 + c.va % 4096) (fun i => binary i) src c.len) ∧
      SameSpaces s (s.copyTo (q * 4096 + c.va % 4096) (fun i => binary i) src c.len) ∧
      Shows (Function.update I (c.va / 4096) (some ((c.visit binary).put 4096 f))) e
        (s.copyTo (q * 4096 + c.va % 4096) (fun i => binary i) src c.len) := by
  have some : (I (c.va / 4096)).isSome := by rw [hp]; rfl
  have low := h.low _ some
  have hva : c.va < ulim := by
    simp only [ulim] at low ⊢
    omega
  have tgt : s.tgt (leafSlot e c.va) = .some q := tgt_eq_some.mpr ⟨perm, view⟩
  have tgt' : s.tgt (leafSlot e (4096 * (c.va / 4096))) = .some q := by rw [leafSlot_page, tgt]
  have ram : q < 0x84000 := (hs.ram q (hs.mem_of_tgt tgt)).2
  have frame : ∀ i < c.len, ¬ s.TablePage (uLong (q * 4096 + c.va % 4096 + i) / 4096) := by
    intro i hi
    have place : uLong (q * 4096 + c.va % 4096 + i) / 4096 = q := by
      unfold uLong
      omega
    rw [place]
    exact hu e _ hva q tgt
  have spaces := @copyTo_sameSpaces _ _ _ src _ (fun i => (binary i : Nat)) frame
  have copied := @byteAt_copyTo _ s (q * 4096 + c.va % 4096) src c.len (fun i => (binary i : Nat))
    (by omega) (fun i _ => (binary _).isLt)
  refine ⟨copyTo_consistent hs frame, spaces, ?_⟩
  apply ((h.erase (c.va / 4096)).sameSpaces spaces _).insert low
  · rw [spaces.view, Pmap.view, leafSlot_page]
    exact view
  · intro o ho
    obtain ⟨q', perm', view', bytes⟩ := h.page _ f hp
    obtain rfl := Option.some.inj (tgt'.symm.trans (tgt_eq_some.mpr ⟨perm', view'⟩))
    have covers : (c.visit binary).Covers (4096 * (c.va / 4096) + o) ↔
        q * 4096 + c.va % 4096 ≤ 4096 * q + o ∧ 4096 * q + o < q * 4096 + c.va % 4096 + c.len := by
      unfold Visit.Covers MapperCall.visit
      rw [hsrc]
      dsimp only [Option.isSome]
      rw [if_pos rfl]
      omega
    have index : 4096 * q + o - (q * 4096 + c.va % 4096) =
        4096 * (c.va / 4096) + o - c.va := by omega
    rw [copied]
    unfold Visit.put
    show _ = ((if (c.visit binary).Covers (4096 * (c.va / 4096) + o) then _ else _ : Fin 256) : Nat)
    by_cases inside : (c.visit binary).Covers (4096 * (c.va / 4096) + o)
    · rw [if_pos inside, if_pos (covers.mp inside), index]
      show _ = ((binary (c.src.getD 0 + (4096 * (c.va / 4096) + o - c.va)) : Fin 256) : Nat)
      rw [hsrc]
      rfl
    · rw [if_neg inside, if_neg (covers.not.mp inside)]
      exact bytes o ho
  · intro p other hsome htgt
    rw [tgt_eq_of_ent spaces.ent] at htgt
    exact other (h.apart p _ q hsome some htgt tgt')
  · intro p q' hsome htgt o ho
    have other : q' ≠ q := by
      rintro rfl
      by_cases same : p = c.va / 4096
      · rw [same, Function.update_self] at hsome
        cases hsome
      · rw [Function.update_of_ne same] at hsome
        exact same (h.apart p _ q' hsome some htgt tgt')
    rw [copied, if_neg]
    omega

/-! ## The mapper of the kernel -/

/-- The env's pages are those of the image. -/
structure Loading (M : Nat → Prop) (I : Image (Fin 256)) (e : D) (s : Pmap D) : Prop where
  consistent : Consistent M s
  userApart : s.UserApart
  shows : Shows I e s
  rest : ∀ va, va < ulim → I (va / 4096) = none → s.isMappedPage e va = false

variable {binary : Binary} {c : MapperCall} {r : Int}

theorem put_of_null (h : c.src = none) (f : Nat → Fin 256) : (c.visit binary).put 4096 f = f := by
  funext o
  apply if_neg
  intro covers
  unfold Visit.Covers MapperCall.visit at covers
  rw [h] at covers
  exact absurd covers.2 (Nat.not_lt.mpr covers.1)

/-- The page for a call is there. -/
theorem Loading.page (h : Loading M I e s) (hc : c.Fits) :
    ∃ r s' f, (if s.isMappedPage e c.va = false then
      s.allocPageUser e c.va c.perm else .ok (0, s)) = .ok (r, s') ∧ (r = 0 ∨ r = -eNoMem) ∧
    (r = 0 → Loading M (Function.update I (c.va / 4096) (some f)) e s' ∧
      f = (I (c.va / 4096)).getD fun _ => 0) := by
  have hva := hc.va
  have hv := not_shared_of_user hva
  by_cases there : I (c.va / 4096) = none
  · rw [if_pos (h.rest c.va hva there), there]
    obtain ⟨r, s', alloc⟩ := allocPageUser_returns (d := e) h.consistent hva hc.perm
    refine ⟨r, s', fun _ => 0, alloc, allocPageUser_codes alloc, ?_⟩
    rintro rfl
    have hlt : c.va < 2 ^ 39 := hva.trans (by decide)
    obtain ⟨cons, hf, -⟩ :=
      allocPageUser_spec h.consistent hlt hv (apart_of_ne s hlt (vpn2_ne_three_of_user hva)) alloc
    refine ⟨⟨cons, allocPageUser_userApart h.consistent hlt hv
      (apart_of_ne s hlt (vpn2_ne_three_of_user hva))
      h.userApart alloc, h.shows.alloc h.consistent h.userApart hva alloc, ?_⟩, rfl⟩
    intro va hva' empty
    have other : va / 4096 ≠ c.va / 4096 := by
      intro same
      rw [same, Function.update_self] at empty
      cases empty
    rw [Function.update_of_ne other] at empty
    have kept : s'.view e va = s.view e va := by
      apply hf.ent_eq
      rw [← leafSlot_page]
      exact page_not_touched hva (Nat.lt_of_le_of_lt (Nat.mul_div_le va 4096) hva') (.inr other)
    rw [isMappedPage_eq (not_shared_of_user hva'), kept,
      ← isMappedPage_eq (not_shared_of_user hva')]
    exact h.rest va hva' empty
  · obtain ⟨f, hf⟩ := Option.ne_none_iff_exists'.mp there
    obtain ⟨q, perm, view, -⟩ := h.shows.page _ f hf
    have mapped : s.isMappedPage e c.va = true := by
      rw [isMappedPage_eq hv, Pmap.view, ← leafSlot_page]
      rw [Pmap.view] at view
      rw [view]
      rfl
    rw [if_neg (by rw [mapped]; decide), hf]
    refine ⟨0, s, f, rfl, .inl rfl, fun _ => ⟨?_, rfl⟩⟩
    rw [← hf, Function.update_eq_self]
    exact h

/-- One call, as a visit that keeps the page. -/
theorem Loading.step (h : Loading M I e s) (hc : c.Fits) :
    ∃ r s', loadIcodeMapper binary e s c = .ok (r, s') ∧
    (r = 0 ∨ r = -eNoMem) ∧ (r = 0 → Loading M (keep 4096 I (c.visit binary)) e s') := by
  obtain ⟨r, s₁, f, paged, codes, loading⟩ := h.page hc
  unfold loadIcodeMapper
  rw [paged]
  rcases codes with rfl | rfl
  · obtain ⟨loading, rfl⟩ := loading rfl
    rw [andThen_ok]
    have after : keep 4096 I (c.visit binary) = Function.update
        (Function.update I (c.va / 4096) (some ((I (c.va / 4096)).getD fun _ => 0))) (c.va / 4096)
        (some ((c.visit binary).put 4096 ((I (c.va / 4096)).getD fun _ => 0))) := by
      rw [Function.update_idem]
      rfl
    rw [after]
    cases hsrc : c.src with
    | none =>
      refine ⟨0, s₁, rfl, .inl rfl, fun _ => ?_⟩
      rw [put_of_null hsrc, Function.update_idem]
      exact loading
    | some src =>
      obtain ⟨q, perm, view, -⟩ := loading.shows.page (c.va / 4096) _ (Function.update_self ..)
      have view : s₁.view e c.va = some (q, perm) := by
        rw [Pmap.view, ← leafSlot_page]
        exact view
      have place := getPa_of_view (not_shared_of_user hc.va) view
      obtain ⟨cons, spaces, shows⟩ :=
        @Shows.write _ _ _ _ _ _ _ loading.consistent loading.userApart
        loading.shows binary _ _ _ _
        (Function.update_self ..) hsrc (hc.page src hsrc) view
      refine ⟨0, _, rfl, .inl rfl, fun _ => ?_⟩
      rw [place]
      refine ⟨cons, spaces.userApart loading.userApart, shows, ?_⟩
      intro va hva empty
      have other : va / 4096 ≠ c.va / 4096 := by
        intro same
        rw [same, Function.update_self] at empty
        cases empty
      rw [spaces.isMappedPage hva]
      apply loading.rest va hva
      rw [Function.update_of_ne other] at empty
      exact empty
  · exact ⟨_, s₁, andThen_stop (by decide) _, .inr rfl, fun h => absurd h (by decide)⟩

/-- All calls, as visits that keep the pages. -/
theorem Loading.run (h : Loading M I e s) {cs : List MapperCall} (hc : ∀ c ∈ cs, c.Fits) :
    ∃ r s', runCalls (loadIcodeMapper binary e) cs s = .ok (r, s') ∧ (r = 0 ∨ r = -eNoMem) ∧
      (r = 0 → Loading M ((cs.map (MapperCall.visit binary)).foldl (keep 4096) I) e s') := by
  induction cs generalizing I s with
  | nil => exact ⟨0, s, rfl, .inl rfl, fun _ => h⟩
  | cons c cs ih =>
    obtain ⟨r, s₁, step, codes, loading⟩ :=
      @Loading.step _ _ _ _ _ _ _ binary _ h (hc c List.mem_cons_self)
    rw [runCalls, step]
    by_cases ok : r = 0
    · subst ok
      rw [andThen_ok]
      exact ih (loading rfl) fun c' hc' => hc c' (List.mem_cons_of_mem c hc')
    · exact ⟨r, s₁, andThen_stop ok _, codes, fun h => absurd h ok⟩

/-- No page below `ULIM` is mapped. -/
def NoUserPage (e : D) (s : Pmap D) : Prop := ∀ va < ulim, s.isMappedPage e va = false

/-- No allocation fails on the way. -/
def LoadSupplied (binary : Binary) (e : D) (s : Pmap D) : Prop :=
  ∀ s', loadSegs (loadIcodeMapper binary e) (phdrs binary) s ≠ .ok (-eNoMem, s')

/-- Every address of every segment is mapped, and holds its byte of the file,
or 0 behind the file part. -/
def Loaded (binary : Binary) (e : D) (s : Pmap D) : Prop :=
  ∀ ph ∈ loads (phdrs binary), ∀ j < ph.pMemsz, s.isMappedPage e (ph.pVaddr + j) = true ∧
    s.byteAt (s.getPa e (ph.pVaddr + j)) =
      if j < ph.pFilesz then (binary (ph.pOffset + j) : Nat) else 0

/-- What the loop over the segments leaves. -/
theorem loadSegs_loading (hs : Consistent M s) (hu : s.UserApart) (fresh : NoUserPage e s)
    (wf : SegmentsApart (phdrs binary))
    (low : ∀ ph ∈ loads (phdrs binary), ∀ p, ph.Visits p → 4096 * p < ulim)
    (supplied : LoadSupplied binary e s) :
    ∃ s', loadSegs (loadIcodeMapper binary e) (phdrs binary) s = .ok (0, s') ∧
      Loading M ((visits binary (phdrs binary)).foldl (keep 4096) fun _ => none) e s' := by
  have start : Loading M (fun _ => none) e s :=
    ⟨hs, hu, Shows.empty e s, fun va hva _ => fresh va hva⟩
  obtain ⟨r, s', run, codes, loading⟩ :=
    @Loading.run _ _ _ _ _ _ _ binary start _ fun c hc => loadCalls_fits wf low hc
  rw [← loadSegs_eq] at run
  rcases codes with rfl | rfl
  · exact ⟨s', run, loading rfl⟩
  · exact absurd run (supplied s')

omit [DecidableEq D] in
/-- The image of a file is loaded where the last page of every segment is visited. -/
theorem loaded_iff (wf : SegmentsApart (phdrs binary))
    (low : ∀ ph ∈ loads (phdrs binary), ph.pVaddr + ph.pMemsz ≤ ulim)
    (h : Loading M ((visits binary (phdrs binary)).foldl (keep 4096) fun _ => none) e s) :
    Loaded binary e s ↔ LastVisited (phdrs binary) := by
  constructor
  · intro loaded ph hph pos
    have there := (loaded ph hph (ph.pMemsz - 1) (by omega)).1
    have place : ph.pVaddr + (ph.pMemsz - 1) = ph.pVaddr + ph.pMemsz - 1 := by omega
    rw [place] at there
    rw [← @keep_present _ binary wf]
    by_contra missing
    have hva : ph.pVaddr + ph.pMemsz - 1 < ulim := by
      have := low ph hph
      omega
    rw [h.rest _ hva (by simpa using missing)] at there
    cases there
  · intro last ph hph j hj
    have visited : ∃ ph' ∈ loads (phdrs binary), ph'.Visits ((ph.pVaddr + j) / 4096) := by
      cases Phdr.visits_or_last hj with
      | inl own => exact ⟨ph, hph, own⟩
      | inr same =>
        rw [same]
        exact last ph hph (by omega)
    by_cases file : j < ph.pFilesz
    · rw [if_pos file]
      exact h.shows.byteAt (keep_file wf hph file)
    · rw [if_neg file]
      exact h.shows.byteAt (keep_zero wf hph (by omega) hj visited)

/-- `load_icode` on a fresh env: it returns, and the image is right if the last
page of every segment is visited by some walk. -/
theorem load_icode_iff (hs : Consistent M s) (hu : s.UserApart)
    (fresh : NoUserPage e s) {size : Nat}
    (valid : elfFrom64 binary size = true) (wf : SegmentsApart (phdrs binary))
    (low : ∀ ph ∈ loads (phdrs binary), ph.pVaddr + ph.pMemsz ≤ ulim)
    (supplied : LoadSupplied binary e s) :
    ∃ s', s.loadIcode e binary size = .ok (eEntry binary, s') ∧
      (Loaded binary e s' ↔ LastVisited (phdrs binary)) := by
  obtain ⟨s', run, loading⟩ := loadSegs_loading hs hu fresh wf
    (fun ph hph _ visits => Phdr.visits_low (low ph hph) visits) supplied
  refine ⟨s', ?_, loaded_iff wf low loading⟩
  unfold loadIcode
  rw [if_neg (by rw [valid]; decide), run]
  rfl

end

/-! ## A file with one segment, and an env with an empty directory -/

/-- A file with one segment: its headers, and then the byte 7. -/
def smallBytes (vaddr filesz memsz : Nat) : List Nat :=
  [0x7f, 0x45, 0x4c, 0x46] ++ List.replicate 12 0 ++ Bytes.le 8 2 ++ Bytes.le 8 vaddr ++
    Bytes.le 8 64 ++
    List.replicate 14 0 ++ Bytes.le 2 56 ++ Bytes.le 8 1 ++
    Bytes.le 4 ptLoad ++ Bytes.le 4 (pfR + pfW) ++ Bytes.le 8 120 ++ Bytes.le 8 vaddr ++
    Bytes.le 8 vaddr ++
    Bytes.le 8 filesz ++ Bytes.le 8 memsz ++ Bytes.le 8 1 ++ [7]

def smallElf (vaddr filesz memsz : Nat) : Binary :=
  fun i => ⟨(smallBytes vaddr filesz memsz).getD i 0 % 256, Nat.mod_lt _ (by decide)⟩

theorem oneDir_ent {x : Slot EnvIdx} (h : x ≠ .root 0) : oneDir.ent x = none := by
  obtain ⟨-, -, pp, hent, -⟩ := allocPgdir_spec somePages_consistent rfl oneDir_run
  rw [hent, Function.update_of_ne h]
  exact noDirs_ent (fun _ => rfl) x

theorem oneDir_userApart : oneDir.UserApart := by
  intro d va hva p htgt
  rw [tgt, oneDir_ent (by simp)] at htgt
  cases htgt

theorem oneDir_noUserPage (e : EnvIdx) : NoUserPage e oneDir := by
  intro va hva
  rw [isMappedPage_eq (not_shared_of_user hva), view, oneDir_ent (by simp)]
  rfl

theorem smallElf_segmentsApart {vaddr filesz memsz : Nat}
    (h : phdrs (smallElf vaddr filesz memsz) = [⟨1, 6, 120, vaddr, filesz, memsz⟩])
    (size : filesz ≤ memsz) :
    loads (phdrs (smallElf vaddr filesz memsz)) = [⟨1, 6, 120, vaddr, filesz, memsz⟩] ∧
      SegmentsApart (phdrs (smallElf vaddr filesz memsz)) := by
  have only : loads (phdrs (smallElf vaddr filesz memsz)) =
      [⟨1, 6, 120, vaddr, filesz, memsz⟩] := by
    rw [h]
    rfl
  refine ⟨only, ?_, ?_⟩
  · intro ph hph
    rw [only, List.mem_singleton] at hph
    rw [hph]
    exact size
  · rw [only]
    exact List.pairwise_singleton ..

/-- A load that was evaluated. -/
theorem supplied_of_code {σ : Type} {x : Except Halt (Int × σ)}
    (h : (x.toOption.any fun r => r.1 = 0) = true) (s' : σ) :
    x ≠ .ok (-eNoMem, s') := by
  intro run
  rw [run] at h
  have code : decide (-eNoMem = 0) = true := h
  exact absurd code (by decide)

theorem load_icode_iff_small : ∃ s', oneDir.loadIcode 0 (smallElf 0x400ffe 1 2) 121 =
      .ok (eEntry (smallElf 0x400ffe 1 2), s') ∧
    (Loaded (smallElf 0x400ffe 1 2) 0 s' ↔ LastVisited (phdrs (smallElf 0x400ffe 1 2))) := by
  obtain ⟨only, wf⟩ := @smallElf_segmentsApart 0x400ffe 1 2 (by decide) (by decide)
  apply load_icode_iff oneDir_consistent oneDir_userApart (oneDir_noUserPage 0) (by decide) wf
  · rw [only]
    decide
  · apply supplied_of_code
    decide +kernel

/-- The byte at `0x401000` of a segment from `0x400ffe` to `0x401001` has no page. -/
theorem last_page_missing : SegmentsApart (phdrs (smallElf 0x400ffe 1 3)) ∧
    ∃ s', oneDir.loadIcode 0 (smallElf 0x400ffe 1 3) 121 =
    .ok (eEntry (smallElf 0x400ffe 1 3), s') ∧
      s'.isMappedPage 0 0x401000 = false ∧ ¬ Loaded (smallElf 0x400ffe 1 3) 0 s' := by
  obtain ⟨only, wf⟩ := @smallElf_segmentsApart 0x400ffe 1 3 (by decide) (by decide)
  obtain ⟨s', run, loading⟩ :=
    @loadSegs_loading _ _ _ _ _ _ (smallElf 0x400ffe 1 3) oneDir_consistent oneDir_userApart
    (oneDir_noUserPage 0) wf (by
      rw [only]
      intro ph hph p visits
      rw [List.mem_singleton.mp hph] at visits
      exact Phdr.visits_low (by decide) visits) (by
      apply supplied_of_code
      decide +kernel)
  have missing : s'.isMappedPage 0 0x401000 = false := by
    apply loading.rest _ (by decide)
    rw [← Option.not_isSome_iff_eq_none, keep_present wf, only]
    intro ⟨ph, hph, visits⟩
    rw [List.mem_singleton.mp hph] at visits
    revert visits
    decide
  refine ⟨wf, s', ?_, missing, ?_⟩
  · unfold loadIcode
    rw [if_neg (by decide), run]
    rfl
  · intro loaded
    have there := (loaded _ (by rw [only]; exact List.mem_singleton_self _) 2 (by decide)).1
    rw [missing] at there
    cases there

end Pmap

end RiscvMos
