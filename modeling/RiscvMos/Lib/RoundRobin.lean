import Mathlib.Data.List.Perm.Basic
import Mathlib.Data.List.Flatten
import Mathlib.Algebra.GroupWithZero.Nat

/-!
# Weighted round robin

The head of a queue runs for as many slices as its weight, or until it yields,
and then goes to the tail.
-/

namespace RoundRobin

variable {α : Type}

structure Rotation (α : Type) where
  queue : List α
  /-- The slices left to the head, with the one it is in; none before the first. -/
  left : Option Nat

variable (weight : α → Nat)

/-- The head starts its slices. -/
def serve : List α → Option (Rotation α)
  | [] => none
  | e :: rest => some ⟨e :: rest, some (weight e)⟩

def Rotation.step (s : Rotation α) (yield : Bool) : Option (Rotation α) :=
  match s.left, s.queue with
  | none, q => serve weight q
  | some _, [] => none
  | some n, e :: rest =>
    if yield = true ∨ n = 1 then serve weight (rest ++ [e]) else some ⟨e :: rest, some (n - 1)⟩

/-- The elements that run in the slices of a sequence of ticks and yields. -/
def Rotation.trace (s : Rotation α) : List Bool → Option (List α)
  | [] => some []
  | y :: ys =>
    match s.step weight y with
    | none => none
    | some s => (s.trace ys).map fun l => s.queue.head?.toList ++ l

/-- The turns of the elements of a list, one after the other. -/
def slices (l : List α) : List α := l.flatMap fun e => List.replicate (weight e) e

variable {weight}

theorem serve_queue {q : List α} {s : Rotation α} (h : serve weight q = some s) : s.queue = q := by
  cases q with
  | nil => cases h
  | cons e rest =>
    obtain rfl := Option.some.inj h
    rfl

theorem Rotation.step_perm {s s' : Rotation α} {y : Bool} (h : s.step weight y = some s') :
    s'.queue.Perm s.queue := by
  unfold step at h
  split at h
  · rw [serve_queue h]
  · cases h
  · rename_i n e rest _ hq
    split at h
    · rw [serve_queue h, hq]
      exact List.perm_append_singleton e rest
    · obtain rfl := Option.some.inj h
      rw [hq]

/-- After a step someone runs. -/
theorem Rotation.step_left {s s' : Rotation α} {y : Bool} (h : s.step weight y = some s') :
    s'.left ≠ none := by
  have hserve : ∀ {q : List α}, serve weight q = some s' → s'.left ≠ none := by
    intro q hq
    cases q with
    | nil => cases hq
    | cons e rest =>
      obtain rfl := Option.some.inj hq
      simp
  unfold step at h
  split at h
  · exact hserve h
  · cases h
  · split at h
    · exact hserve h
    · obtain rfl := Option.some.inj h
      simp

theorem Rotation.step_isSome {s : Rotation α} (hq : s.queue ≠ []) (y : Bool) :
    ∃ s', s.step weight y = some s' := by
  obtain ⟨q, left⟩ := s
  cases q with
  | nil => exact absurd rfl hq
  | cons e rest =>
    cases left with
    | none => exact ⟨_, rfl⟩
    | some n =>
      by_cases hsw : y = true ∨ n = 1
      · cases rest with
        | nil => exact ⟨_, if_pos hsw⟩
        | cons x rest => exact ⟨_, if_pos hsw⟩
      · exact ⟨_, if_neg hsw⟩

/-- With something in the queue, every slice is used. -/
theorem Rotation.trace_length {s : Rotation α} (hq : s.queue ≠ []) (ys : List Bool) :
    ∃ t, s.trace weight ys = some t ∧ t.length = ys.length := by
  induction ys generalizing s with
  | nil => exact ⟨[], rfl, rfl⟩
  | cons y ys ih =>
    obtain ⟨s', hs'⟩ := step_isSome hq y
    have hne : s'.queue ≠ [] := by
      intro h
      have hperm := step_perm hs'
      rw [h] at hperm
      exact hq (List.nil_perm.mp hperm)
    obtain ⟨t, ht, hlen⟩ := ih hne
    cases hhead : s'.queue with
    | nil => exact absurd hhead hne
    | cons e rest =>
      refine ⟨e :: t, ?_, by simp [hlen]⟩
      rw [trace, hs']
      simp [ht, hhead]

theorem Rotation.trace_keep (e : α) (rest : List α) {n m : Nat} (h : m < n) (ys : List Bool) :
    (Rotation.mk (e :: rest) (some n)).trace weight (List.replicate m false ++ ys) =
      ((Rotation.mk (e :: rest) (some (n - m))).trace weight ys).map (List.replicate m e ++ ·) := by
  induction m generalizing n with
  | zero => simp
  | succ m ih =>
    have hstep : (Rotation.mk (e :: rest) (some n)).step weight false =
        some ⟨e :: rest, some (n - 1)⟩ := by
      simp only [Rotation.step]
      rw [if_neg]
      simp only [Bool.false_eq_true, false_or]
      omega
    have hsub : n - 1 - m = n - (m + 1) := by omega
    simp only [List.replicate_succ, List.cons_append, Rotation.trace, hstep]
    rw [ih (by omega), hsub, Option.map_map]
    rfl

/-- The turns of the front of the queue, the first of which has begun. -/
theorem Rotation.trace_front (e : α) (front back : List α) (hpos : ∀ x ∈ e :: front, 1 ≤ weight x) :
    ((Rotation.mk (e :: (front ++ back)) (some (weight e))).trace weight
      (List.replicate (((e :: front).map weight).sum - 1) false)).map (e :: ·) =
      some (slices weight (e :: front)) := by
  induction front generalizing e back with
  | nil =>
    have he : 1 ≤ weight e := hpos e (by simp)
    have hlt : weight e - 1 < weight e := by omega
    have hkeep : (Rotation.mk (e :: back) (some (weight e))).trace weight
        (List.replicate (weight e - 1) false) =
        ((Rotation.mk (e :: back) (some (weight e - (weight e - 1)))).trace weight []).map
          (List.replicate (weight e - 1) e ++ ·) := by
      rw [← trace_keep e back hlt [], List.append_nil]
    simp only [List.nil_append, List.map_cons, List.map_nil, List.sum_cons, List.sum_nil,
      Nat.add_zero, hkeep]
    simp only [trace, Option.map_some, List.append_nil, slices, List.flatMap_cons, List.flatMap_nil]
    rw [← List.replicate_succ]
    congr 2
    omega
  | cons x front ih =>
    have he : 1 ≤ weight e := hpos e (by simp)
    have hx : 1 ≤ weight x := hpos x (by simp)
    have hsum : ((e :: x :: front).map weight).sum - 1 =
        (weight e - 1) + (((x :: front).map weight).sum - 1 + 1) := by
      simp only [List.map_cons, List.sum_cons]
      omega
    have hturn := ih x (back ++ [e]) fun y hy => hpos y (List.mem_cons_of_mem e hy)
    have hone : weight e - (weight e - 1) = 1 := by omega
    have hstep : (Rotation.mk (e :: (x :: front ++ back)) (some 1)).step weight false =
        some ⟨x :: (front ++ (back ++ [e])), some (weight x)⟩ := by
      simp [Rotation.step, serve]
    rw [hsum, List.replicate_add, trace_keep _ _ (by omega), hone,
      List.replicate_succ, trace, hstep]
    simp only [List.head?_cons, Option.toList_some, List.singleton_append]
    rw [hturn]
    simp only [Option.map_some, slices, List.flatMap_cons, ← List.cons_append,
      ← List.replicate_succ]
    congr 3
    omega

/-- A round that starts with a turn. -/
theorem Rotation.trace_round {s : Rotation α} {y : Bool} {q : List α} (hq : q ≠ [])
    (hpos : ∀ x ∈ q, 1 ≤ weight x) (hs : s.step weight y = serve weight q) :
    s.trace weight (y :: List.replicate ((q.map weight).sum - 1) false) =
    some (slices weight q) := by
  cases q with
  | nil => exact absurd rfl hq
  | cons e rest =>
    have hfront := trace_front e rest [] hpos
    rw [List.append_nil] at hfront
    rw [trace, hs]
    exact hfront

theorem count_slices [DecidableEq α] {l : List α} (hnd : l.Nodup) {e : α} (he : e ∈ l) :
    (slices weight l).count e = weight e := by
  induction l with
  | nil => cases he
  | cons x l ih =>
    obtain ⟨hx, hl⟩ := List.nodup_cons.mp hnd
    have hnone : ∀ y, y ∉ l → (slices weight l).count y = 0 := by
      intro y hy
      apply List.count_eq_zero_of_not_mem
      intro hmem
      obtain ⟨z, hz, hmem⟩ := List.mem_flatMap.mp hmem
      exact hy ((List.eq_of_mem_replicate hmem) ▸ hz)
    rw [slices, List.flatMap_cons, List.count_append, ← slices]
    cases List.mem_cons.mp he with
    | inl h =>
      subst h
      rw [hnone _ hx, List.count_replicate_self, Nat.add_zero]
    | inr h =>
      have hne : x ≠ e := fun hxe => hx (hxe ▸ h)
      rw [ih hl h, List.count_replicate, if_neg (by simpa using hne), Nat.zero_add]

end RoundRobin
