import RiscvMos.User.Descriptors
import RiscvMos.Lib.Except
import Mathlib.Data.Finset.Card
import Mathlib.Tactic.ByContra

/-!
When `_pipe_is_closed` is right. It compares the number of places where the
`struct Fd` of one end is mapped with that of the pipe's page, so it goes wrong
when a `struct Fd` is mapped somewhere without the pipe. `close` and `dup` take
the two pages in the safe order; `fork` and `spawn` go by address, and come to
the `struct Fd` first.
-/

namespace RiscvMos

namespace FdTable

theorem set_apply (t : FdTable) (sd sd' : Side) (i j : FdIdx) (v : Option Nat) :
    t.set sd i v sd' j = if sd' = sd ∧ j = i then v else t sd' j := by
  unfold set
  by_cases hs : sd' = sd
  · subst hs
    by_cases hj : j = i
    · subst hj
      simp
    · simp [hj]
  · simp [hs]

/-- Every end is mapped with the pipe. -/
def Paired (p : PipePages) (t : FdTable) : Prop := ∀ i, p.End (t .fd i) → t .data i = some p.buf

/-- The pages of the pipe are where they belong. -/
def Sorted (p : PipePages) (t : FdTable) : Prop := ∀ i, t .fd i ≠ some p.buf ∧ ¬ p.End (t .data i)

end FdTable

theorem PipePages.not_end_none (p : PipePages) : ¬ p.End none := by
  simp [PipePages.End]

/-- The table stays paired through the calls, whichever of them fails. -/
def Safe (p : PipePages) : FdTable → List OwnCall → Prop
  | t, [] => t.Paired p
  | t, .unmap sd i :: rest => t.Paired p ∧ Safe p (t.set sd i none) rest
  | t, .map sd old new :: rest => t.Paired p ∧
    match t sd old with
    | none => sd = .data → Safe p t rest
    | some q => Safe p (t.set sd new (some q)) rest ∧ (t.set sd new none).Paired p
  | t, .destroy :: _ => t.Paired p

namespace FdTable

section
variable {p : PipePages} {t : FdTable} {i : FdIdx}

theorem Paired.unmapFd (h : t.Paired p) (i : FdIdx) : (t.set .fd i none).Paired p := by
  intro j hj
  rw [set_apply] at hj ⊢
  by_cases hji : j = i
  · simp [hji, p.not_end_none] at hj
  · simp only [hji, and_false, if_false, reduceCtorEq] at hj ⊢
    exact h j hj

/-- The data of a descriptor that is no end is free to change. -/
theorem Paired.setData (h : t.Paired p) (hi : ¬ p.End (t .fd i)) (v : Option Nat) :
    (t.set .data i v).Paired p := by
  intro j hj
  rw [set_apply] at hj ⊢
  simp only [reduceCtorEq, false_and, if_false] at hj
  by_cases hji : j = i
  · subst hji
    exact absurd hj hi
  · simp only [hji, and_false, if_false]
    exact h j hj

/-- An end is mapped where the pipe already is. -/
theorem Paired.setFd (h : t.Paired p) {v : Option Nat} (hv : p.End v → t .data i = some p.buf) :
    (t.set .fd i v).Paired p := by
  intro j hj
  rw [set_apply] at hj ⊢
  simp only [reduceCtorEq, false_and, if_false]
  by_cases hji : j = i
  · subst hji
    simp only [and_self, if_true] at hj
    exact hv hj
  · simp only [hji, and_false, if_false] at hj
    exact h j hj

theorem not_end_unmapFd : ¬ p.End (t.set .fd i none .fd i) := by
  rw [set_apply, if_pos ⟨rfl, rfl⟩]
  exact p.not_end_none

theorem Safe.paired {rest : List OwnCall} (h : Safe p t rest) : t.Paired p := by
  cases rest with
  | nil => exact h
  | cons c rest =>
    cases c with
    | unmap sd i => exact h.1
    | map sd old new => exact h.1
    | destroy => exact h

theorem safe_dupCleanup (h : t.Paired p) (new : FdIdx) : Safe p t (dupCleanup new) := by
  refine ⟨h, h.unmapFd new, ?_⟩
  exact (h.unmapFd new).setData not_end_unmapFd none

/-- The table after `close(i)`. -/
structure Closed (p : PipePages) (i : FdIdx) (t t' : FdTable) : Prop where
  paired : t'.Paired p
  gone : ¬ p.End (t' .fd i)
  same : ∀ sd j, j ≠ i → t' sd j = t sd j

/-- Any unmapping of a descriptor that is no end is safe. -/
theorem safe_closeOther {rest : List OwnCall} (sides : List Side) (h : t.Paired p)
    (hi : ¬ p.End (t .fd i))
    (hrest : ∀ t', Closed p i t t' → Safe p t' rest) : Safe p t (closeCalls i sides ++ rest) := by
  induction sides generalizing t with
  | nil => exact hrest t ⟨h, hi, fun _ _ _ => rfl⟩
  | cons sd sides ih =>
    have hsame : ∀ sd' j, j ≠ i → t.set sd i none sd' j = t sd' j := by
      intro sd' j hj
      rw [set_apply, if_neg fun hc => hj hc.2]
    have hrest' : ∀ t', Closed p i (t.set sd i none) t' → Safe p t' rest := by
      intro t' hc
      exact hrest t' ⟨hc.paired, hc.gone, fun sd' j hj => (hc.same sd' j hj).trans (hsame sd' j hj)⟩
    refine ⟨h, ?_⟩
    cases sd with
    | fd => exact ih (h.unmapFd i) not_end_unmapFd hrest'
    | data =>
      apply ih (h.setData hi none) _ hrest'
      rw [set_apply, if_neg (by simp)]
      exact hi

/-- `close` of any descriptor. -/
theorem safe_close {rest : List OwnCall} {sides : List Side} (h : t.Paired p)
    (hc : Closes p t i sides)
    (hrest : ∀ t', Closed p i t t' → Safe p t' rest) : Safe p t (closeCalls i sides ++ rest) := by
  by_cases hi : p.End (t .fd i)
  · -- `pipe_close` unmaps the `struct Fd` first
    rw [hc.2 hi]
    refine ⟨h, ?_⟩
    apply safe_closeOther [.data, .fd] (h.unmapFd i) not_end_unmapFd
    intro t' hc'
    apply hrest t'
    refine ⟨hc'.paired, hc'.gone, fun sd j hj => ?_⟩
    rw [hc'.same sd j hj, set_apply, if_neg fun hn => hj hn.2]
  · exact safe_closeOther sides h hi hrest

/-- `dup` maps the data first. -/
theorem safe_dup {old new : FdIdx} {sides : List Side} (h : t.Paired p)
    (hc : Closes p t new sides) :
    Safe p t (closeCalls new sides ++ [.map .data old new, .map .fd old new]) := by
  apply safe_close h hc
  intro t₁ hcl
  refine ⟨hcl.paired, ?_⟩
  cases hd : t₁ .data old with
  | none =>
    refine fun _ => ⟨hcl.paired, ?_⟩
    cases hf : t₁ .fd old with
    | none => exact fun hne => absurd hne (by simp)
    | some q =>
      refine ⟨hcl.paired.setFd fun hq => ?_, hcl.paired.unmapFd new⟩
      rw [← hf] at hq
      rw [hcl.paired old hq] at hd
      cases hd
  | some d =>
    have hpaired := hcl.paired.setData hcl.gone (some d)
    refine ⟨⟨hpaired, ?_⟩, hcl.paired.setData hcl.gone none⟩
    have hfd : t₁.set .data new (some d) .fd old = t₁ .fd old := by
      rw [set_apply, if_neg (by simp)]
    rw [hfd]
    cases hf : t₁ .fd old with
    | none => exact fun hne => absurd hne (by simp)
    | some q =>
      refine ⟨hpaired.setFd fun hq => ?_, hpaired.unmapFd new⟩
      rw [← hf] at hq
      rw [set_apply, if_pos ⟨rfl, rfl⟩, ← hd]
      exact hcl.paired old hq

/-- `close_all`, and the end. -/
theorem safe_exit {sides : FdIdx → List Side} {l : List FdIdx} (hl : l.Nodup) (h : t.Paired p)
    (hc : ∀ i ∈ l, Closes p t i (sides i)) :
    Safe p t (l.flatMap (fun i => closeCalls i (sides i)) ++ [.destroy]) := by
  induction l generalizing t with
  | nil => exact h
  | cons i l ih =>
    obtain ⟨hi, hl⟩ := List.nodup_cons.mp hl
    rw [List.flatMap_cons, List.append_assoc]
    apply safe_close h (hc i (by simp))
    intro t' hcl
    apply ih hl hcl.paired
    intro j hj
    have hne : j ≠ i := by
      rintro rfl
      exact hi hj
    have hsame : t' .fd j = t .fd j := hcl.same .fd j hne
    unfold Closes
    rw [hsame]
    exact hc j (by simp [hj])

end

end FdTable

namespace Procs

variable {E : Type} [DecidableEq E] {p : PipePages} {s s' : Procs E}

/-- In no call of `fork` does the mapping of the pipe's page fail. -/
def ForkMaps (p : PipePages) (s : Procs E) : FdAct E → Prop
  | .syscall e ok => ∀ c i rest, s.proc e = .running (.share c false ((.data, i) :: rest)) →
    s.table e .data i = some p.buf → ok = true
  | _ => True

/-- No child of a `fork` or `spawn` that goes on has an end without the pipe. -/
def NoneHalf (p : PipePages) (s : Procs E) : Prop :=
  ∀ c e, s.proc c = .child e → (s.table c).Paired p

/-- The child has the pipe for each end, or is about to get it. -/
structure Catching (p : PipePages) (parent child : FdTable) (rest : List (Side × FdIdx)) :
    Prop where
  ends : ∀ i, p.End (child .fd i) →
    child .data i = some p.buf ∨ ((.data, i) ∈ rest ∧ parent .data i = some p.buf)
  still : ∀ x ∈ rest, child x.1 x.2 = none

structure Inv (p : PipePages) (s : Procs E) : Prop where
  sorted : ∀ e, (s.table e).Sorted p
  free : ∀ e, s.proc e = .free → s.table e = .empty
  own : ∀ e rest, s.proc e = .running (.own rest) → Safe p (s.table e) rest
  share : ∀ e c sp rest, s.proc e = .running (.share c sp rest) → (s.table e).Paired p ∧
    s.proc c = .child e ∧ rest <:+ shareWalk ∧ Catching p (s.table e) (s.table c) rest
  kill : ∀ e c, s.proc e = .running (.kill c) → (s.table e).Paired p ∧ s.proc c = .child e

section
variable {e c : E} {t : FdTable} {w w₀ : Work E}

@[simp] theorem setTable_proc : (s.setTable e t).proc = s.proc := rfl

@[simp] theorem setTable_table : (s.setTable e t).table = Function.update s.table e t := rfl

@[simp] theorem setProc_table {x : Proc E} : (s.setProc e x).table = s.table := rfl

@[simp] theorem setProc_proc {x : Proc E} : (s.setProc e x).proc = Function.update s.proc e x := rfl

@[simp] theorem setWork_table : (s.setWork e w).table = s.table := rfl

@[simp] theorem setWork_proc : (s.setWork e w).proc = Function.update s.proc e (.running w) := rfl

theorem setTable_self : s.setTable e (s.table e) = s := by
  simp [setTable]

theorem setWork_self (h : s.proc e = .running w) : s.setWork e w = s := by
  simp [setWork, setProc, ← h]

omit [DecidableEq E] in
theorem idle_iff : s.idle e = true ↔ s.proc e = .running (.own []) := by
  unfold idle
  split
  · rename_i h
    simp [h]
  · rename_i h
    constructor
    · intro hf
      cases hf
    · intro hf
      exact absurd hf (by simpa using h)

/-- A running env changes its own table, and goes on with calls on it. -/
theorem Inv.run (h : Inv p s) (he : s.proc e = .running w₀) (ht : t.Sorted p) {rest : List OwnCall}
    (hs : Safe p t rest) : Inv p ((s.setTable e t).setWork e (.own rest)) := by
  -- an env that is being built is another one
  have hchild : ∀ x c, s.proc c = .child x → c ≠ e := by
    rintro x c hc rfl
    rw [he] at hc
    cases hc
  constructor
  · intro x
    by_cases hx : x = e
    · subst hx
      simpa using ht
    · simpa [hx] using h.sorted x
  · intro x hf
    by_cases hx : x = e
    · subst hx
      simp at hf
    · simpa [hx] using h.free x (by simpa [hx] using hf)
  · intro x r hr
    by_cases hx : x = e
    · subst hx
      simp only [setWork_proc, Function.update_self, Proc.running.injEq, Work.own.injEq] at hr
      subst hr
      simpa using hs
    · simpa [hx] using h.own x r (by simpa [hx] using hr)
  · intro x c sp r hr
    by_cases hx : x = e
    · subst hx
      simp at hr
    · obtain ⟨hp, hc, hsuf, hcatch⟩ := h.share x c sp r (by simpa [hx] using hr)
      have hce := hchild x c hc
      simpa [hx, hce] using ⟨hp, hc, hsuf, hcatch⟩
  · intro x c hr
    by_cases hx : x = e
    · subst hx
      simp at hr
    · obtain ⟨hp, hc⟩ := h.kill x c (by simpa [hx] using hr)
      have hce := hchild x c hc
      simpa [hx, hce] using ⟨hp, hc⟩

/-- The parent changes the table of its child, and goes on with the child. -/
theorem Inv.give (h : Inv p s) (he : s.proc e = .running w₀) (hpair : (s.table e).Paired p)
    (hc : s.proc c = .child e) (ht : t.Sorted p)
    (hown : ∀ rest, w ≠ .own rest)
    (hshare : ∀ c' sp rest, w = .share c' sp rest →
      c' = c ∧ rest <:+ shareWalk ∧ Catching p (s.table e) t rest)
    (hkill : ∀ c', w = .kill c' → c' = c) : Inv p ((s.setTable c t).setWork e w) := by
  have hce : c ≠ e := by
    rintro rfl
    rw [he] at hc
    cases hc
  have hone : ∀ x, s.proc c = .child x → x = e := by
    intro x hx
    rw [hc] at hx
    exact (Proc.child.inj hx).symm
  constructor
  · intro x
    by_cases hx : x = c
    · subst hx
      simpa using ht
    · simpa [hx] using h.sorted x
  · intro x hf
    by_cases hx : x = e
    · subst hx
      simp at hf
    · have hf' : s.proc x = .free := by simpa [hx] using hf
      have hxc : x ≠ c := by
        rintro rfl
        rw [hc] at hf'
        cases hf'
      simpa [hxc] using h.free x hf'
  · intro x r hr
    by_cases hx : x = e
    · subst hx
      simp only [setWork_proc, Function.update_self, Proc.running.injEq] at hr
      exact absurd hr (hown r)
    · have hr' : s.proc x = .running (.own r) := by simpa [hx] using hr
      have hxc : x ≠ c := by
        rintro rfl
        rw [hc] at hr'
        cases hr'
      simpa [hxc] using h.own x r hr'
  · intro x c' sp r hr
    by_cases hx : x = e
    · subst hx
      simp only [setWork_proc, Function.update_self, Proc.running.injEq] at hr
      obtain ⟨rfl, hsuf, hcatch⟩ := hshare c' sp r hr
      simpa [hce, hce.symm] using ⟨hpair, hc, hsuf, hcatch⟩
    · have hr' : s.proc x = .running (.share c' sp r) := by simpa [hx] using hr
      obtain ⟨hp, hc', hsuf, hcatch⟩ := h.share x c' sp r hr'
      have hxc : x ≠ c := by
        rintro rfl
        rw [hc] at hr'
        cases hr'
      have hcc : c' ≠ c := by
        rintro rfl
        exact hx (hone x hc')
      have hc'e : c' ≠ e := by
        rintro rfl
        rw [he] at hc'
        cases hc'
      simpa [hxc, hcc, hc'e] using ⟨hp, hc', hsuf, hcatch⟩
  · intro x c' hr
    by_cases hx : x = e
    · subst hx
      simp only [setWork_proc, Function.update_self, Proc.running.injEq] at hr
      obtain rfl := hkill c' hr
      simpa [hce, hce.symm] using ⟨hpair, hc⟩
    · have hr' : s.proc x = .running (.kill c') := by simpa [hx] using hr
      obtain ⟨hp, hc'⟩ := h.kill x c' hr'
      have hxc : x ≠ c := by
        rintro rfl
        rw [hc] at hr'
        cases hr'
      have hcc : c' ≠ c := by
        rintro rfl
        exact hx (hone x hc')
      have hc'e : c' ≠ e := by
        rintro rfl
        rw [he] at hc'
        cases hc'
      simpa [hxc, hcc, hc'e] using ⟨hp, hc'⟩

/-- `e` builds no env, and nobody builds `e`. -/
def Alone (s : Procs E) (e : E) : Prop :=
  ∀ x, (∀ sp rest, s.proc x ≠ .running (.share e sp rest)) ∧ s.proc x ≠ .running (.kill e)

/-- An env that nobody builds is created, started or destroyed. -/
theorem Inv.settle (h : Inv p s) (hc : Alone s c) (ht : t.Sorted p) {x : Proc E}
    (hfree : x = .free → t = .empty)
    (hrun : ∀ w, x = .running w → ∃ rest, w = .own rest ∧ Safe p t rest) :
    Inv p ((s.setTable c t).setProc c x) := by
  constructor
  · intro y
    by_cases hy : y = c
    · subst hy
      simpa using ht
    · simpa [hy] using h.sorted y
  · intro y hf
    by_cases hy : y = c
    · subst hy
      simpa using hfree (by simpa using hf)
    · simpa [hy] using h.free y (by simpa [hy] using hf)
  · intro y r hr
    by_cases hy : y = c
    · subst hy
      obtain ⟨rest, hw, hs⟩ := hrun _ (by simpa using hr)
      obtain rfl := Work.own.inj hw
      simpa using hs
    · simpa [hy] using h.own y r (by simpa [hy] using hr)
  · intro y c' sp r hr
    by_cases hy : y = c
    · subst hy
      obtain ⟨rest, hw, -⟩ := hrun _ (by simpa using hr)
      cases hw
    · have hr' : s.proc y = .running (.share c' sp r) := by simpa [hy] using hr
      have hcc : c' ≠ c := by
        rintro rfl
        exact (hc y).1 sp r hr'
      simpa [hy, hcc] using h.share y c' sp r hr'
  · intro y c' hr
    by_cases hy : y = c
    · subst hy
      obtain ⟨rest, hw, -⟩ := hrun _ (by simpa using hr)
      cases hw
    · have hr' : s.proc y = .running (.kill c') := by simpa [hy] using hr
      have hcc : c' ≠ c := by
        rintro rfl
        exact (hc y).2 hr'
      simpa [hy, hcc] using h.kill y c' hr'

theorem sorted_empty (p : PipePages) : FdTable.empty.Sorted p :=
  fun _ => ⟨by simp [FdTable.empty], p.not_end_none⟩

theorem paired_empty (p : PipePages) : FdTable.empty.Paired p :=
  fun _ hi => absurd hi p.not_end_none

omit [DecidableEq E] in
/-- An env that is no child is alone. -/
theorem Inv.alone (h : Inv p s) (hc : ∀ x, s.proc c ≠ .child x) : Alone s c := by
  intro x
  constructor
  · intro sp rest hx
    exact hc x (h.share x c sp rest hx).2.1
  · intro hx
    exact hc x (h.kill x c hx).2

theorem Inv.destroy (h : Inv p s) (hc : Alone s c) : Inv p (s.destroy c) := by
  apply h.settle hc (sorted_empty p)
  · intro _
    rfl
  · intro w hw
    cases hw

theorem Inv.work (h : Inv p s) (he : s.proc e = .running w₀) {rest : List OwnCall}
    (hs : Safe p (s.table e) rest) : Inv p (s.setWork e (.own rest)) := by
  have hrun := h.run he (h.sorted e) hs
  rwa [setTable_self] at hrun

/-- The parent is done with its child, whatever becomes of it. -/
theorem Inv.leave (h : Inv p s) (he : s.proc e = .running w₀) (hpair : (s.table e).Paired p)
    (hc : s.proc c = .child e) :
    Inv p (s.setWork e (.own [])) ∧ Alone (s.setWork e (.own [])) c := by
  refine ⟨h.work he hpair, fun x => ?_⟩
  by_cases hx : x = e
  · subst hx
    simp
  · have hne : ∀ y, s.proc c = .child y → y = e := by
      intro y hy
      rw [hc] at hy
      exact (Proc.child.inj hy).symm
    constructor
    · intro sp rest hr
      exact hx (hne x (h.share x c sp rest (by simpa [hx] using hr)).2.1)
    · intro hr
      exact hx (hne x (h.kill x c (by simpa [hx] using hr)).2)

theorem sorted_set {sd : Side} {i : FdIdx} {q : Nat} (ht : t.Sorted p)
    (hfd : sd = .fd → q ≠ p.buf) (hdata : sd = .data → ¬ p.End (some q)) :
    (t.set sd i (some q)).Sorted p := by
  intro j
  rw [FdTable.set_apply, FdTable.set_apply]
  constructor
  · split
    · rename_i hc
      intro hq
      exact hfd hc.1.symm (Option.some.inj hq)
    · exact (ht j).1
  · split
    · rename_i hc
      exact hdata hc.1.symm
    · exact (ht j).2

theorem sorted_unset {sd : Side} {i : FdIdx} (ht : t.Sorted p) : (t.set sd i none).Sorted p := by
  intro j
  rw [FdTable.set_apply, FdTable.set_apply]
  constructor
  · split
    · simp
    · exact (ht j).1
  · split
    · exact p.not_end_none
    · exact (ht j).2

/-- A page that is copied to the same side of another table. -/
theorem sorted_copy {t' : FdTable} {sd : Side} {i j : FdIdx} {q : Nat} (ht : t.Sorted p)
    (ht' : t'.Sorted p) (hq : t sd i = some q) : (t'.set sd j (some q)).Sorted p := by
  apply sorted_set ht'
  · rintro rfl rfl
    exact (ht i).1 hq
  · rintro rfl
    rw [← hq]
    exact (ht i).2

theorem Inv.ownCall (h : Inv p s) {call : OwnCall} {rest : List OwnCall}
    (he : s.proc e = .running (.own (call :: rest))) (ok : Bool) :
    Inv p (s.ownCall e ok rest call) := by
  have hs := h.own e _ he
  have hsort := h.sorted e
  cases call with
  | unmap sd i => exact h.run he (sorted_unset hsort) hs.2
  | map sd old new =>
    unfold Procs.ownCall
    dsimp only
    have hpair := FdTable.Safe.paired hs
    cases hq : s.table e sd old with
    | none =>
      cases sd with
      | data =>
        have hs' := hs.2
        rw [hq] at hs'
        exact h.work he (hs' rfl)
      | fd => exact h.work he (FdTable.safe_dupCleanup hpair new)
    | some q =>
      have hs' := hs.2
      rw [hq] at hs'
      cases ok with
      | true => exact h.run he (sorted_copy hsort hsort hq) hs'.1
      | false => exact h.run he (sorted_unset hsort) (FdTable.safe_dupCleanup hs'.2 new)
  | destroy =>
    apply h.destroy
    apply h.alone
    intro x hx
    rw [he] at hx
    cases hx

theorem shareWalk_nodup : shareWalk.Nodup := by decide

/-- The walk comes to the data of a descriptor after its `struct Fd`. -/
theorem data_after_fd {i : FdIdx} {rest : List (Side × FdIdx)}
    (h : (.fd, i) :: rest <:+ shareWalk) :
    (.data, i) ∈ rest := by
  obtain ⟨pre, hpre⟩ := h
  have hdata : (Side.fd, i) ∉ (List.finRange 32).map (Side.data, ·) := by simp
  have hmem : (Side.data, i) ∈ (List.finRange 32).map (Side.data, ·) := by simp
  rcases List.append_eq_append_iff.mp hpre with ⟨a, -, ha⟩ | ⟨a, -, ha⟩
  · cases a with
    | nil =>
      rw [List.nil_append] at ha
      exact absurd (ha ▸ List.mem_cons_self) hdata
    | cons y a =>
      rw [List.cons_append] at ha
      rw [(List.cons.inj ha).2]
      exact List.mem_append_right a hmem
  · exact absurd (ha ▸ List.mem_append_right a List.mem_cons_self) hdata

section
variable {parent child : FdTable} {rest : List (Side × FdIdx)} {x : Side × FdIdx}

/-- A page that the parent does not have. -/
theorem Catching.skip (h : Catching p parent child (x :: rest))
    (hx : parent x.1 x.2 ≠ some p.buf ∨ x.1 = .fd) :
    Catching p parent child rest := by
  constructor
  · intro i hi
    rcases h.ends i hi with hd | ⟨hmem, hpar⟩
    · exact .inl hd
    · rcases List.mem_cons.mp hmem with rfl | hmem
      · rcases hx with hx | hx
        · exact absurd hpar hx
        · cases hx
      · exact .inr ⟨hmem, hpar⟩
  · intro y hy
    exact h.still y (List.mem_cons_of_mem x hy)

/-- A page that the parent has, at the next place of the walk. -/
theorem Catching.give (h : Catching p parent child (x :: rest)) (hsuf : x :: rest <:+ shareWalk)
    (hpair : parent.Paired p) {q : Nat} (hq : parent x.1 x.2 = some q) :
    Catching p parent (child.set x.1 x.2 (some q)) rest := by
  have hnd := hsuf.sublist.nodup shareWalk_nodup
  obtain ⟨hx, -⟩ := List.nodup_cons.mp hnd
  obtain ⟨sd, i⟩ := x
  constructor
  · intro j hj
    rw [FdTable.set_apply] at hj ⊢
    cases sd with
    | fd =>
      simp only [reduceCtorEq, false_and, if_false]
      by_cases hji : j = i
      · subst hji
        simp only [and_self, if_true, ← hq] at hj
        exact .inr ⟨data_after_fd hsuf, hpair j hj⟩
      · simp only [hji, and_false, if_false] at hj
        exact (h.skip (.inr rfl)).ends j hj
    | data =>
      simp only [reduceCtorEq, false_and, if_false] at hj
      have hold := h.ends j hj
      by_cases hji : j = i
      · subst hji
        have hnone := h.still (.data, j) (by simp)
        rcases hold with hd | ⟨-, hpar⟩
        · rw [hnone] at hd
          cases hd
        · simp only [and_self, if_true]
          exact .inl (hq.symm.trans hpar)
      · simp only [hji, and_false, if_false]
        rcases hold with hd | ⟨hmem, hpar⟩
        · exact .inl hd
        · right
          rcases List.mem_cons.mp hmem with heq | hmem
          · exact absurd (Prod.mk.inj heq).2 hji
          · exact ⟨hmem, hpar⟩
  · intro y hy
    rw [FdTable.set_apply, if_neg]
    · exact h.still y (List.mem_cons_of_mem _ hy)
    · rintro ⟨h1, h2⟩
      exact hx (by rwa [← Prod.ext_iff.mpr ⟨h1, h2⟩])

/-- A child's table where nothing is mapped is left as it is. -/
theorem Catching.miss (h : Catching p parent child (x :: rest)) :
    child.set x.1 x.2 none = child := by
  funext sd j
  rw [FdTable.set_apply]
  split
  · rename_i hc
    rw [hc.1, hc.2]
    exact (h.still x (by simp)).symm
  · rfl

end

theorem Inv.shareCall (h : Inv p s) {sp : Bool} {x : Side × FdIdx} {rest : List (Side × FdIdx)}
    (he : s.proc e = .running (.share c sp (x :: rest))) {ok : Bool}
    (hok : ForkMaps p s (.syscall e ok)) :
    Inv p (s.shareCall e c sp ok rest x) := by
  obtain ⟨hpair, hc, hsuf, hcatch⟩ := h.share e c sp _ he
  have hsuf' : rest <:+ shareWalk := (List.suffix_cons x rest).trans hsuf
  have hgive : ∀ t : FdTable, t.Sorted p → Catching p (s.table e) t rest →
      Inv p ((s.setTable c t).setWork e (.share c sp rest)) := by
    intro t ht hcatch'
    apply h.give he hpair hc ht
    · simp
    · intro c' sp' rest' hw
      obtain ⟨rfl, -, rfl⟩ := Work.share.inj hw
      exact ⟨rfl, hsuf', hcatch'⟩
    · simp
  unfold Procs.shareCall
  cases hq : s.table e x.1 x.2 with
  | none =>
    have hinv := hgive _ (h.sorted c) (hcatch.skip (.inl (by rw [hq]; simp)))
    rwa [setTable_self] at hinv
  | some q =>
    cases ok with
    | true => exact hgive _ (sorted_copy (h.sorted e) (h.sorted c) hq) (hcatch.give hsuf hpair hq)
    | false =>
      rw [hcatch.miss]
      cases sp with
      | true =>
        apply h.give he hpair hc (h.sorted c)
        · simp
        · simp
        · intro c' hw
          exact (Work.kill.inj hw).symm
      | false =>
        apply hgive _ (h.sorted c)
        apply hcatch.skip
        -- only the pipe's page matters, and it is mapped
        obtain ⟨sd, i⟩ := x
        cases sd with
        | fd => exact .inr rfl
        | data =>
          left
          intro hbuf
          exact absurd (hok c i rest he hbuf) (by simp)

theorem Inv.syscall (h : Inv p s) (he : s.proc e = .running w) {ok : Bool}
    (hok : ForkMaps p s (.syscall e ok)) (hs : s.syscall e ok w = some s') : Inv p s' := by
  cases w with
  | own rest =>
    cases rest with
    | nil => cases hs
    | cons call rest =>
      obtain rfl := Option.some.inj hs
      exact h.ownCall he ok
  | share c sp rest =>
    cases rest with
    | cons x rest =>
      obtain rfl := Option.some.inj hs
      exact h.shareCall he hok
    | nil =>
      obtain rfl := Option.some.inj hs
      obtain ⟨hpair, hc, -, hcatch⟩ := h.share e c sp _ he
      obtain ⟨hinv, hal⟩ := h.leave he hpair hc
      have hce : c ≠ e := by
        rintro rfl
        rw [he] at hc
        cases hc
      -- the child has everything that the walk had to give
      have hchild : (s.table c).Paired p := by
        intro i hi
        rcases hcatch.ends i hi with hd | ⟨hmem, -⟩
        · exact hd
        · cases hmem
      have hstart :
          Inv p (((s.setWork e (.own [])).setTable c (s.table c)).setProc c
            (.running (.own []))) := by
        apply hinv.settle hal (h.sorted c)
        · simp
        · intro w hw
          exact ⟨[], (Proc.running.inj hw).symm, hchild⟩
      have hcomm : (s.setWork c (.own [])).setWork e (.own []) =
          ((s.setWork e (.own [])).setTable c (s.table c)).setProc c (.running (.own [])) := by
        simp [setWork, setProc, setTable, Function.update_comm hce]
      rw [hcomm]
      exact hstart
  | kill c =>
    obtain rfl := Option.some.inj hs
    obtain ⟨hpair, hc⟩ := h.kill e c he
    obtain ⟨hinv, hal⟩ := h.leave he hpair hc
    have hce : c ≠ e := by
      rintro rfl
      rw [he] at hc
      cases hc
    have hcomm : (s.destroy c).setWork e (.own []) = (s.setWork e (.own [])).destroy c := by
      simp [Procs.destroy, setWork, setProc, setTable, Function.update_comm hce]
    rw [hcomm]
    exact hinv.destroy hal

theorem Inv.fork (h : Inv p s) (he : s.proc e = .running (.own []))
    (hc : s.proc c = .free) (sp : Bool) :
    Inv p ((s.setProc c (.child e)).setWork e (.share c sp shareWalk)) := by
  have hempty := h.free c hc
  have hce : c ≠ e := by
    rintro rfl
    rw [he] at hc
    cases hc
  have hal : Alone s c := by
    apply h.alone
    intro x hx
    rw [hc] at hx
    cases hx
  have hchild : Inv p ((s.setTable c (s.table c)).setProc c (.child e)) := by
    apply h.settle hal (h.sorted c)
    · simp
    · simp
  rw [setTable_self] at hchild
  have hgive :
      Inv p (((s.setProc c (.child e)).setTable c (s.table c)).setWork e
        (.share c sp shareWalk)) := by
    have he' : (s.setProc c (.child e)).proc e = .running (.own []) := by simpa [hce.symm] using he
    apply hchild.give he'
    · exact h.own e [] he
    · simp
    · exact h.sorted c
    · simp
    · intro c' sp' rest hw
      obtain ⟨rfl, -, rfl⟩ := Work.share.inj hw
      refine ⟨rfl, List.suffix_refl _, ?_⟩
      rw [hempty]
      exact ⟨fun i hi => absurd hi p.not_end_none, fun _ _ => rfl⟩
    · simp
  have hself : (s.setProc c (.child e)).setTable c (s.table c) = s.setProc c (.child e) :=
    setTable_self (s := s.setProc c (.child e))
  rwa [hself] at hgive

theorem others_sorted {t' : FdTable} (h : Others p t t') (ht : t.Sorted p) : t'.Sorted p := by
  intro i
  obtain ⟨hend, hother⟩ := h i
  by_cases hi : p.End (t .fd i)
  · obtain ⟨hf, hd⟩ := hend hi
    rw [hf, hd]
    exact ht i
  · obtain ⟨-, hf, hd, -⟩ := hother hi
    exact ⟨hf, hd⟩

theorem others_paired {t' : FdTable} (h : Others p t t') (ht : t.Paired p) : t'.Paired p := by
  intro i hi'
  obtain ⟨hend, hother⟩ := h i
  by_cases hi : p.End (t .fd i)
  · rw [(hend hi).2]
    exact ht i hi
  · exact absurd hi' (hother hi).1

theorem Inv.exec (h : Inv p s) {a : FdAct E} (hok : ForkMaps p s a) (hs : s.exec p a = some s') :
    Inv p s' := by
  cases a with
  | close e i sides =>
    obtain ⟨⟨hidle, hc⟩, hs⟩ := Option.ite_none_right_eq_some.mp hs
    obtain rfl := Option.some.inj hs
    have he := idle_iff.mp hidle
    apply h.work he
    rw [← List.append_nil (closeCalls i sides)]
    exact FdTable.safe_close (h.own e [] he) hc fun _ hcl => hcl.paired
  | dup e old new sides =>
    obtain ⟨⟨hidle, -, hc⟩, hs⟩ := Option.ite_none_right_eq_some.mp hs
    obtain rfl := Option.some.inj hs
    have he := idle_iff.mp hidle
    exact h.work he (FdTable.safe_dup (h.own e [] he) hc)
  | exit e sides =>
    obtain ⟨⟨hidle, hc⟩, hs⟩ := Option.ite_none_right_eq_some.mp hs
    obtain rfl := Option.some.inj hs
    have he := idle_iff.mp hidle
    exact h.work he (FdTable.safe_exit (List.nodup_finRange 32) (h.own e [] he) fun i _ => hc i)
  | fork e c sp =>
    obtain ⟨⟨hidle, hfree⟩, hs⟩ := Option.ite_none_right_eq_some.mp hs
    obtain rfl := Option.some.inj hs
    apply h.fork (idle_iff.mp hidle)
    unfold isFree at hfree
    split at hfree
    · assumption
    · cases hfree
  | others e t =>
    obtain ⟨⟨hidle, ho⟩, hs⟩ := Option.ite_none_right_eq_some.mp hs
    obtain rfl := Option.some.inj hs
    have he := idle_iff.mp hidle
    have hsafe : Safe p t [] := others_paired ho (h.own e [] he)
    have hrun := h.run he (others_sorted ho (h.sorted e)) hsafe
    rwa [setWork_self (by simpa using he)] at hrun
  | syscall e ok =>
    unfold Procs.exec at hs
    dsimp only at hs
    split at hs
    · rename_i w he
      exact h.syscall he hok hs
    · cases hs

omit [DecidableEq E] in
theorem Fresh.inv {i j : FdIdx} (h : Fresh p s e i j) : Inv p s := by
  have hpair : ∀ x, (s.table x).Paired p := by
    intro x k hk
    rcases hk with hk | hk
    · obtain ⟨rfl, -, rfl⟩ := (h.rd x .fd k).mp hk
      exact (h.buf x .data k).mpr ⟨rfl, rfl, .inl rfl⟩
    · obtain ⟨rfl, -, rfl⟩ := (h.wr x .fd k).mp hk
      exact (h.buf x .data k).mpr ⟨rfl, rfl, .inr rfl⟩
  have hwork : ∀ x w, s.proc x = .running w → w = .own [] := by
    intro x w hx
    rcases h.idle x with hf | hr
    · rw [hx] at hf
      cases hf
    · rw [hx] at hr
      exact Proc.running.inj hr
  constructor
  · intro x k
    constructor
    · intro hb
      exact absurd ((h.buf x .fd k).mp hb).2.1 (by simp)
    · rintro (hb | hb)
      · exact absurd ((h.rd x .data k).mp hb).2.1 (by simp)
      · exact absurd ((h.wr x .data k).mp hb).2.1 (by simp)
  · exact h.free
  · intro x rest hx
    obtain rfl := Work.own.inj (hwork x _ hx)
    exact hpair x
  · intro x c sp rest hx
    cases hwork x _ hx
  · intro x c hx
    cases hwork x _ hx

theorem Run.inv {s₀ : Procs E} {i j : FdIdx} (h₀ : Fresh p s₀ e i j) (h : Run p (ForkMaps p) s₀ s) :
    Inv p s := by
  induction h with
  | start => exact h₀.inv
  | step run met step ih => exact ih.exec met step

omit [DecidableEq E] in
/-- Outside of a walk, every end is mapped with the pipe. -/
theorem Inv.paired (h : Inv p s) (hnone : NoneHalf p s) (x : E) : (s.table x).Paired p := by
  cases hx : s.proc x with
  | free =>
    rw [h.free x hx]
    exact paired_empty p
  | child y => exact hnone x y hx
  | running w =>
    cases w with
    | own rest => exact FdTable.Safe.paired (h.own x rest hx)
    | share c sp rest => exact (h.share x c sp rest hx).1
    | kill c => exact (h.kill x c hx).1

end

section
variable [Fintype E]

/-- The ends of a paired pipe are mapped no more often than the pipe. -/
theorem refs_ends_le (hsort : ∀ e, (s.table e).Sorted p) (hpair : ∀ e, (s.table e).Paired p) :
    s.refs p.rd + s.refs p.wr ≤ s.refs p.buf := by
  unfold refs
  rw [← Finset.card_union_of_disjoint]
  · -- each end goes to the data of its own descriptor
    apply Finset.card_le_card_of_injOn fun x => (x.1, Side.data, x.2.2)
    · rintro ⟨e, sd, i⟩ hx
      simp only [Finset.coe_union, Finset.coe_filter, Finset.mem_univ, true_and, Set.mem_union,
        Set.mem_ofPred_eq] at hx
      simp only [Finset.coe_filter, Finset.mem_univ, true_and, Set.mem_ofPred_eq]
      cases sd with
      | fd => exact hpair e i hx
      | data => exact absurd hx (hsort e i).2
    · rintro ⟨e, sd, i⟩ hx ⟨e', sd', i'⟩ hx' heq
      simp only [Finset.coe_union, Finset.coe_filter, Finset.mem_univ, true_and, Set.mem_union,
        Set.mem_ofPred_eq] at hx hx'
      obtain ⟨rfl, -, rfl⟩ : e = e' ∧ True ∧ i = i' := by simpa using heq
      cases sd with
      | data => exact absurd hx (hsort e i).2
      | fd =>
        cases sd' with
        | data => exact absurd hx' (hsort e i).2
        | fd => rfl
  · rw [Finset.disjoint_filter]
    intro x _ hrd hwr
    rw [hrd] at hwr
    exact p.rd_ne_wr (Option.some.inj hwr)

omit [DecidableEq E] in
theorem refs_pos_of_open {q : Nat} (h : s.Open q) : 0 < s.refs q := by
  obtain ⟨e, i, hi⟩ := h
  apply Finset.card_pos.mpr
  exact ⟨(e, .fd, i), by simpa using hi⟩

/-- A pipe is reported closed only when it is: in every run in which `fork` does
not run out of memory on it, when no `fork` or `spawn` is at it. -/
theorem pipe_closed_only_when_closed {s₀ : Procs E} {e₀ e : E} {i j k : FdIdx} {other : Nat}
    (h₀ : Fresh p s₀ e₀ i j) (h : Run p (ForkMaps p) s₀ s) (hnone : NoneHalf p s)
    (hfd : (s.table e .fd k = some p.rd ∧ other = p.wr) ∨
      (s.table e .fd k = some p.wr ∧ other = p.rd))
    (hopen : s.Open other) :
    s.pageref e .fd k < s.pageref e .data k ∧ s.pipeIsClosed e k = false := by
  have hinv := h.inv h₀
  have hle := refs_ends_le hinv.sorted (hinv.paired hnone)
  have hpos := refs_pos_of_open hopen
  have hend : p.End (s.table e .fd k) := by
    rcases hfd with ⟨hfd, -⟩ | ⟨hfd, -⟩
    · exact .inl hfd
    · exact .inr hfd
  have hbuf : s.pageref e .data k = s.refs p.buf := by
    unfold pageref
    rw [hinv.paired hnone e k hend]
  have hlt : s.pageref e .fd k < s.pageref e .data k := by
    rw [hbuf]
    unfold pageref
    rcases hfd with ⟨hfd, rfl⟩ | ⟨hfd, rfl⟩
    · rw [hfd]
      dsimp only
      omega
    · rw [hfd]
      dsimp only
      omega
  refine ⟨hlt, ?_⟩
  unfold pipeIsClosed
  simpa using Nat.ne_of_lt hlt

end

/-- One act after the other. -/
def play (p : PipePages) : List (FdAct E) → Procs E → Option (Procs E)
  | [], s => some s
  | a :: acts, s => (s.exec p a).bind (play p acts)

theorem run_of_play {ok : Procs E → FdAct E → Prop} {s₀ : Procs E} {acts : List (FdAct E)}
    (h : Run p ok s₀ s) (hok : ∀ a ∈ acts, ∀ s, ok s a) (hs : play p acts s = some s') :
    Run p ok s₀ s' := by
  induction acts generalizing s with
  | nil =>
    obtain rfl := Option.some.inj hs
    exact h
  | cons a acts ih =>
    obtain ⟨s₁, hstep, hs⟩ := Option.bind_eq_some_iff.mp hs
    exact ih (h.step (hok a (by simp) s) hstep) (fun b hb => hok b (by simp [hb])) hs

def threePages : PipePages := ⟨10, 11, 12, by decide, by decide, by decide⟩

/-- Env 0 has a new pipe at the descriptors 0 and 1. -/
def newPipe : Procs (Fin 3) :=
  { table := fun e sd i =>
      if e = 0 then
        match sd with
        | .fd => if i = 0 then some 10 else if i = 1 then some 11 else none
        | .data => if i = 0 ∨ i = 1 then some 12 else none
      else none
    proc := fun e => if e = 0 then .running (.own []) else .free }

theorem newPipe_fresh : Fresh threePages newPipe 0 0 1 := by
  constructor
  · decide
  · intro x
    by_cases hx : x = 0
    · right
      simp [newPipe, hx]
    · left
      simp [newPipe, hx]
  · intro x hx
    by_cases h0 : x = 0
    · simp [newPipe, h0] at hx
    · funext sd i
      simp [newPipe, h0, FdTable.empty]
  · decide
  · decide
  · decide
  · decide

/-- A child is forked, and keeps the write end only. -/
def writerActs : List (FdAct (Fin 3)) :=
  .fork 0 1 false :: List.replicate 65 (.syscall 0 true) ++
    .close 1 0 [.fd, .data, .fd] :: List.replicate 3 (.syscall 1 true)

/-- Another child is forked, and the walk has come to both descriptors. -/
def halfActs : List (FdAct (Fin 3)) :=
  writerActs ++ .fork 0 2 false :: List.replicate 2 (.syscall 0 true)

/-- The child that writes is not told that nobody reads. -/
theorem pipe_closed_only_when_closed_writer : ∃ s, Run threePages (ForkMaps threePages) newPipe s ∧
    s.table 1 .fd 1 = some threePages.wr ∧ s.Open threePages.rd ∧
    s.pageref 1 .fd 1 < s.pageref 1 .data 1 ∧
    s.pipeIsClosed 1 1 = false := by
  obtain ⟨s, hs, hwr, hrd, hnone⟩ : ∃ s, play threePages writerActs newPipe = some s ∧
      s.table 1 .fd 1 = some 11 ∧ s.table 0 .fd 0 = some 10 ∧ ∀ c e, s.proc c ≠ .child e := by
    have hall : ((play threePages writerActs newPipe).any fun s => decide
        (s.table 1 .fd 1 = some 11 ∧ s.table 0 .fd 0 = some 10 ∧ ∀ c e, s.proc c ≠ .child e)) =
        true := by
      decide +kernel
    exact Option.exists_of_any hall
  have hok : ∀ a ∈ writerActs, ∀ s, ForkMaps threePages s a := by
    intro a ha s
    simp only [writerActs, List.cons_append, List.mem_cons, List.mem_append,
      List.mem_replicate] at ha
    rcases ha with rfl | ⟨-, rfl⟩ | rfl | ⟨-, rfl⟩
    · trivial
    · exact fun _ _ _ _ _ => rfl
    · trivial
    · exact fun _ _ _ _ _ => rfl
  have hrun := run_of_play .start hok hs
  have hright :=
    pipe_closed_only_when_closed newPipe_fresh hrun (fun c e hc => absurd hc (hnone c e))
    (.inr ⟨hwr, rfl⟩) ⟨0, 0, hrd⟩
  exact ⟨s, hrun, hwr, ⟨0, 0, hrd⟩, hright⟩

/-- Env 0 forks its second child: it has mapped both descriptors, and the pipe
for neither. The first child asks whether the readers are gone. -/
theorem pipe_seems_closed_in_fork : ∃ s, Run threePages (fun _ _ => True) newPipe s ∧
    s.table 1 .fd 1 = some threePages.wr ∧ s.idle 1 = true ∧ s.Open threePages.rd ∧
    s.pipeIsClosed 1 1 = true := by
  obtain ⟨s, hs, hwr, hidle, hrd, hclosed⟩ : ∃ s, play threePages halfActs newPipe = some s ∧
      s.table 1 .fd 1 = some 11 ∧ s.idle 1 = true ∧ s.table 0 .fd 0 = some 10 ∧
      s.pipeIsClosed 1 1 = true := by
    have hall : ((play threePages halfActs newPipe).any fun s => decide (s.table 1 .fd 1 = some 11 ∧
        s.idle 1 = true ∧ s.table 0 .fd 0 = some 10 ∧ s.pipeIsClosed 1 1 = true)) = true := by
      decide +kernel
    exact Option.exists_of_any hall
  exact ⟨s, run_of_play .start (fun _ _ _ => trivial) hs, hwr, hidle, ⟨0, 0, hrd⟩, hclosed⟩

end Procs

end RiscvMos
