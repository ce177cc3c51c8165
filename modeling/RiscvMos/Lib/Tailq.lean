import Mathlib.Logic.Function.Basic
import Mathlib.Data.List.Nodup

/-!
# Tail queues

A doubly linked queue whose back links point at the forward pointer that leads
to a node, as in `sys/queue.h`. The operations are the pointer assignments of
the macros, in their order; `IsQueue q l` says that the pointers spell out the
list `l`.
-/

/-- A place that holds a forward pointer: the head, or a node's link. -/
inductive Link (α : Type) where
  | first
  | next (a : α)
  deriving DecidableEq, Repr

structure Tailq (α : Type) where
  /-- `tqh_first`. -/
  first : Option α
  /-- `tqh_last`. -/
  last : Link α
  /-- `tqe_next`. -/
  next : α → Option α
  /-- `tqe_prev`; `none` is NULL, in a node that was never inserted. -/
  prev : α → Option (Link α)

namespace Tailq

variable {α : Type}

/-- `TAILQ_INIT`, with zeroed nodes. -/
def init : Tailq α :=
  { first := none, last := .first, next := fun _ => none, prev := fun _ => none }

/-- The pointer held at a place. -/
def load (q : Tailq α) : Link α → Option α
  | .first => q.first
  | .next a => q.next a

section
variable [DecidableEq α]

def store (q : Tailq α) (p : Link α) (v : Option α) : Tailq α :=
  match p with
  | .first => { q with first := v }
  | .next a => { q with next := Function.update q.next a v }

/-- `TAILQ_INSERT_HEAD`. -/
def insertHead (q : Tailq α) (a : α) : Tailq α :=
  let q := q.store (.next a) q.first
  let q := match q.first with
    | some f => { q with prev := Function.update q.prev f (some (.next a)) }
    | none => { q with last := .next a }
  let q := q.store .first (some a)
  { q with prev := Function.update q.prev a (some .first) }

/-- `TAILQ_INSERT_TAIL`. -/
def insertTail (q : Tailq α) (a : α) : Tailq α :=
  let q := q.store (.next a) none
  let q := { q with prev := Function.update q.prev a (some q.last) }
  let q := q.store q.last (some a)
  { q with last := .next a }

/-- `TAILQ_REMOVE`; `none` is a store through NULL. -/
def remove (q : Tailq α) (a : α) : Option (Tailq α) :=
  match q.prev a with
  | none => none
  | some p =>
    let q := match q.next a with
      | some b => { q with prev := Function.update q.prev b (some p) }
      | none => { q with last := p }
    some (q.store p (q.next a))

end

/-- From place `p` on the pointers spell out `l`, to the end of the queue. -/
def Seg (q : Tailq α) : Link α → List α → Prop
  | p, [] => q.load p = none ∧ q.last = p
  | p, a :: l => q.load p = some a ∧ q.prev a = some p ∧ q.Seg (.next a) l

/-- The queue is acyclic and holds the elements of `l`, once each and in order. -/
def IsQueue (q : Tailq α) (l : List α) : Prop := q.Seg .first l ∧ l.Nodup

theorem init_isQueue : (init : Tailq α).IsQueue [] := ⟨⟨rfl, rfl⟩, List.nodup_nil⟩

theorem Seg.unique {q : Tailq α} {l l' : List α} {p : Link α} (h : q.Seg p l) (h' : q.Seg p l') :
    l = l' := by
  induction l generalizing p l' with
  | nil =>
    cases l' with
    | nil => rfl
    | cons b l' => cases h.1.symm.trans h'.1
  | cons a l ih =>
    cases l' with
    | nil => cases h.1.symm.trans h'.1
    | cons b l' =>
      obtain rfl := Option.some.inj (h.1.symm.trans h'.1)
      rw [ih h.2.2 h'.2.2]

theorem Seg.load_last {q : Tailq α} {l : List α} {p : Link α} (h : q.Seg p l) :
    q.load q.last = none := by
  induction l generalizing p with
  | nil => rw [h.2, h.1]
  | cons a l ih => exact ih h.2.2

/-- A segment depends on its own places and nodes only. -/
theorem Seg.congr {q q' : Tailq α} {l : List α} {p : Link α} (h : q.Seg p l)
    (hp : q'.load p = q.load p) (hnext : ∀ a ∈ l, q'.next a = q.next a)
    (hprev : ∀ a ∈ l, q'.prev a = q.prev a) (hlast : q'.last = q.last) : q'.Seg p l := by
  induction l generalizing p with
  | nil => exact ⟨hp.trans h.1, hlast.trans h.2⟩
  | cons a l ih =>
    refine ⟨hp.trans h.1, (hprev a (by simp)).trans h.2.1, ?_⟩
    exact ih h.2.2 (hnext a (by simp)) (fun b hb => hnext b (by simp [hb]))
      (fun b hb => hprev b (by simp [hb]))

/-- The links of a node lead to places and nodes of its segment, not to itself. -/
theorem Seg.node {q : Tailq α} {l : List α} {p : Link α} {a : α} (h : q.Seg p l) (hnd : l.Nodup)
    (hp : ∀ b ∈ l, p ≠ .next b) (ha : a ∈ l) :
    ∃ r, q.prev a = some r ∧ (r = p ∨ ∃ b ∈ l, r = .next b) ∧ r ≠ .next a ∧
      ∀ c, q.next a = some c → c ∈ l ∧ c ≠ a := by
  induction l generalizing p with
  | nil => simp at ha
  | cons d l ih =>
    obtain ⟨hload, hprev, hseg⟩ := h
    obtain ⟨hd, hnd⟩ := List.nodup_cons.mp hnd
    by_cases had : a = d
    · subst had
      refine ⟨p, hprev, .inl rfl, hp a (by simp), fun c hc => ?_⟩
      cases l with
      | nil => cases hseg.1.symm.trans hc
      | cons b l =>
        obtain rfl : b = c := Option.some.inj (hseg.1.symm.trans hc)
        exact ⟨by simp, fun h => hd (by simp [h])⟩
    · have ha : a ∈ l := by simpa [had] using ha
      have hp' : ∀ b ∈ l, Link.next d ≠ .next b := by
        intro b hb h; cases h; exact hd hb
      obtain ⟨r, hr, hrl, hra, hn⟩ := ih hseg hnd hp' ha
      refine ⟨r, hr, .inr ?_, hra, fun c hc => ⟨by simp [(hn c hc).1], (hn c hc).2⟩⟩
      rcases hrl with rfl | ⟨b, hb, rfl⟩
      · exact ⟨d, by simp, rfl⟩
      · exact ⟨b, by simp [hb], rfl⟩

theorem IsQueue.first_eq {q : Tailq α} {l : List α} (h : q.IsQueue l) : q.first = l.head? := by
  cases l with
  | nil => exact h.1.1
  | cons a l => exact h.1.1

section
variable [DecidableEq α] {q q' : Tailq α} {l : List α} {a : α}

theorem load_store (q : Tailq α) (p p' : Link α) (v : Option α) :
    (q.store p v).load p' = if p' = p then v else q.load p' := by
  cases p <;> cases p' <;> simp [store, load, Function.update_apply]

@[simp] theorem store_prev (q : Tailq α) (p : Link α) (v : Option α) :
    (q.store p v).prev = q.prev := by
  cases p <;> rfl

@[simp] theorem store_last (q : Tailq α) (p : Link α) (v : Option α) :
    (q.store p v).last = q.last := by
  cases p <;> rfl

theorem insertTail_load (q : Tailq α) (a : α) (p : Link α) :
    (q.insertTail a).load p =
      if p = q.last then some a else if p = .next a then none else q.load p := by
  have h : (q.insertTail a).load p =
      (((q.store (.next a) none).store q.last (some a)).load p) := by
    unfold insertTail
    cases hl : q.last <;> cases p <;> simp [hl, load, store]
  rw [h, load_store, load_store]

theorem insertTail_prev (q : Tailq α) (a : α) :
    (q.insertTail a).prev = Function.update q.prev a (some q.last) := by
  simp [insertTail]

theorem insertTail_last (q : Tailq α) (a : α) : (q.insertTail a).last = .next a := rfl

theorem Seg.insertTail {p : Link α} (h : q.Seg p l) (hp : p ≠ .next a) (ha : a ∉ l) :
    (q.insertTail a).Seg p (l ++ [a]) := by
  induction l generalizing p with
  | nil =>
    obtain ⟨hload, hlast⟩ := h
    refine ⟨?_, ?_, ?_, insertTail_last q a⟩
    · rw [insertTail_load, if_pos hlast.symm]
    · rw [insertTail_prev, Function.update_self, hlast]
    · rw [insertTail_load, if_neg (by rw [hlast]; exact hp.symm), if_pos rfl]
  | cons b l ih =>
    obtain ⟨hload, hprev, hseg⟩ := h
    have hb : b ≠ a := by rintro rfl; exact ha (by simp)
    have hpl : p ≠ q.last := by
      rintro rfl
      rw [hseg.load_last] at hload
      cases hload
    refine ⟨?_, ?_, ih hseg (by simp [hb]) fun h => ha (by simp [h])⟩
    · rw [insertTail_load, if_neg hpl, if_neg hp, hload]
    · rw [insertTail_prev, Function.update_of_ne hb, hprev]

theorem IsQueue.insertTail (h : q.IsQueue l) (ha : a ∉ l) : (q.insertTail a).IsQueue (l ++ [a]) :=
  ⟨h.1.insertTail (by simp) ha, List.Nodup.append h.2 (List.nodup_singleton a) (by simpa using ha)⟩

theorem IsQueue.insertHead (h : q.IsQueue l) (ha : a ∉ l) : (q.insertHead a).IsQueue (a :: l) := by
  refine ⟨?_, List.nodup_cons.mpr ⟨ha, h.2⟩⟩
  cases l with
  | nil =>
    have hfirst : q.first = none := h.1.1
    simp [Tailq.insertHead, Seg, load, store, hfirst]
  | cons f l =>
    obtain ⟨hfirst, -, hseg⟩ := h.1
    have hfa : f ≠ a := by rintro rfl; exact ha (by simp)
    have hnd := List.nodup_cons.mp h.2
    have hfirst : q.first = some f := hfirst
    refine ⟨by simp [Tailq.insertHead, load, store], by simp [Tailq.insertHead], ?_, ?_, ?_⟩
    · simp [Tailq.insertHead, load, store, hfirst]
    · simp [Tailq.insertHead, store, hfirst, hfa]
    · refine hseg.congr ?_ ?_ ?_ ?_
      · simp [Tailq.insertHead, load, store, hfirst, hfa]
      · intro b hb
        have hba : b ≠ a := by rintro rfl; exact ha (by simp [hb])
        simp [Tailq.insertHead, store, hfirst, hba]
      · intro b hb
        have hba : b ≠ a := by rintro rfl; exact ha (by simp [hb])
        have hbf : b ≠ f := by rintro rfl; exact hnd.1 hb
        simp [Tailq.insertHead, store, hfirst, hba, hbf]
      · simp [Tailq.insertHead, store, hfirst]

/-- What `TAILQ_REMOVE` does through the back link `p`. -/
theorem remove_eq {p : Link α} (hp : q.prev a = some p) (h : q.remove a = some q') :
    (∀ p', q'.load p' = if p' = p then q.next a else q.load p') ∧
    (∀ b, q'.prev b = if q.next a = some b then some p else q.prev b) ∧
    q'.last = if q.next a = none then p else q.last := by
  unfold remove at h
  rw [hp] at h
  obtain rfl := Option.some.inj h
  cases hn : q.next a with
  | none =>
    refine ⟨fun p' => ?_, fun b => by simp, by simp⟩
    rw [load_store]
    cases p' <;> simp [load, hn]
  | some c =>
    refine ⟨fun p' => ?_, fun b => ?_, by simp⟩
    · rw [load_store]
      cases p' <;> simp [load, hn]
    · by_cases hbc : b = c
      · simp [hbc]
      · simp [hbc, Ne.symm hbc]

theorem Seg.remove {p : Link α} (h : q.Seg p l) (hnd : l.Nodup) (hp : ∀ b ∈ l, p ≠ .next b)
    (ha : a ∈ l) : ∃ q', q.remove a = some q' ∧ q'.Seg p (l.erase a) := by
  induction l generalizing p with
  | nil => simp at ha
  | cons c l ih =>
    obtain ⟨hload, hprev, hseg⟩ := h
    obtain ⟨hc, hnd⟩ := List.nodup_cons.mp hnd
    by_cases hca : c = a
    · -- the node is the first of the segment: its predecessor is `p` itself
      subst hca
      have hq' : ∃ q', q.remove c = some q' := by simp [Tailq.remove, hprev]
      obtain ⟨q', hq'⟩ := hq'
      obtain ⟨hl, hpr, hla⟩ := remove_eq hprev hq'
      refine ⟨q', hq', ?_⟩
      rw [List.erase_cons_head]
      cases l with
      | nil =>
        have hnext : q.next c = none := hseg.1
        exact ⟨by rw [hl, if_pos rfl, hnext], by rw [hla, if_pos hnext]⟩
      | cons b l =>
        have hnext : q.next c = some b := hseg.1
        have hnd' := List.nodup_cons.mp hnd
        refine ⟨by rw [hl, if_pos rfl, hnext], by rw [hpr, if_pos hnext], ?_⟩
        refine hseg.2.2.congr ?_ ?_ ?_ ?_
        · rw [hl, if_neg (hp b (by simp)).symm]
        · intro d hd
          have := hl (.next d)
          rwa [if_neg (hp d (by simp [hd])).symm] at this
        · intro d hd
          have hbd : q.next c ≠ some d := by
            rw [hnext]; rintro h; cases h; exact hnd'.1 hd
          rw [hpr, if_neg hbd]
        · rw [hla, if_neg (by simp [hnext])]
    · -- the node is further on: this place and this node stay as they are
      have ha : a ∈ l := by simpa [Ne.symm hca] using ha
      have hp' : ∀ b ∈ l, Link.next c ≠ .next b := by
        intro b hb h; cases h; exact hc hb
      obtain ⟨q', hq', hs'⟩ := ih hseg hnd hp' ha
      refine ⟨q', hq', ?_⟩
      rw [List.erase_cons_tail (by simpa using hca)]
      obtain ⟨r, hr, hrl, -, hnl⟩ := hseg.node hnd hp' ha
      have hrp : r ≠ p := by
        rcases hrl with rfl | ⟨b, hb, rfl⟩
        · exact (hp c (by simp)).symm
        · exact (hp b (by simp [hb])).symm
      have hna : q.next a ≠ some c := fun h => hc (hnl c h).1
      obtain ⟨hl, hpr, -⟩ := remove_eq hr hq'
      exact ⟨by rw [hl, if_neg hrp.symm, hload], by rw [hpr, if_neg hna, hprev], hs'⟩

theorem IsQueue.remove (h : q.IsQueue l) (ha : a ∈ l) :
    ∃ q', q.remove a = some q' ∧ q'.IsQueue (l.erase a) := by
  obtain ⟨q', hq', hs⟩ := h.1.remove h.2 (by simp) ha
  exact ⟨q', hq', hs, h.2.erase a⟩

/-- The links of `a` agree with the queue around the place it was in: taking
`a` out once more changes nothing. -/
def Detached (q : Tailq α) (a : α) : Prop :=
  ∃ p, q.prev a = some p ∧ q.load p = q.next a ∧
    match q.next a with
    | some b => q.prev b = some p
    | none => q.last = p

omit [DecidableEq α] in
theorem load_inj (h : q'.load = q.load) : q'.first = q.first ∧ q'.next = q.next :=
  ⟨congrFun h .first, funext fun a => congrFun h (.next a)⟩

theorem Detached.remove (h : q.Detached a) : q.remove a = some q := by
  obtain ⟨p, hp, hload, hnext⟩ := h
  have hex : ∃ q', q.remove a = some q' := by simp [Tailq.remove, hp]
  obtain ⟨q', hq'⟩ := hex
  obtain ⟨hl, hpr, hla⟩ := remove_eq hp hq'
  have hsame : q'.load = q.load := by
    funext p'
    rw [hl]
    split
    · rename_i h; rw [h, hload]
    · rfl
  obtain ⟨h1, h2⟩ := load_inj hsame
  have h3 : q'.prev = q.prev := by
    funext b
    rw [hpr]
    split
    · rename_i h; rw [h] at hnext; exact hnext.symm
    · rfl
  have h4 : q'.last = q.last := by
    rw [hla]
    split
    · rename_i h; rw [h] at hnext; exact hnext.symm
    · rfl
  rw [hq']
  cases q; cases q'
  simp_all

/-- A node that was just taken out is detached. -/
theorem IsQueue.detached (hq : q.IsQueue l) (ha : a ∈ l) (h : q.remove a = some q') :
    q'.Detached a := by
  obtain ⟨p, hp, -, hne, hn⟩ := hq.1.node hq.2 (by simp) ha
  have hself : q.next a ≠ some a := fun h => (hn a h).2 rfl
  obtain ⟨hl, hpr, hla⟩ := remove_eq hp h
  have hnext : q'.next a = q.next a := by
    have := hl (.next a)
    rwa [if_neg hne.symm] at this
  refine ⟨p, by rw [hpr, if_neg hself, hp], by rw [hl, if_pos rfl, hnext], ?_⟩
  rw [hnext]
  cases hn : q.next a with
  | none => simp [hla, hn]
  | some b => simp [hpr, hn]

end

end Tailq
