import RiscvMos.Pmap.Model
import Mathlib.Data.Fintype.Sigma
import Mathlib.Data.Fintype.Sum
import Mathlib.Tactic.DeriveFintype

/-!
The places that hold a reference to a page, and where each one points. A slot
is named by its path from a directory variable, not by its address; that a
table page is reached by one path only (`Distinct`) is what makes a store to a
table a change of exactly one slot.
-/

namespace RiscvMos

/-- A directory variable, or an entry of a table reached from it. -/
inductive Slot (D : Type) where
  | root (d : D)
  | pte2 (d : D) (i : Vpn)
  | pte1 (d : D) (i j : Vpn)
  | pte0 (d : D) (i j k : Vpn)
  deriving DecidableEq, Fintype

namespace Slot

variable {D : Type}

/-- Slots that point at a table: all but the last level. -/
def IsTable : Slot D → Prop
  | pte0 .. => False
  | _ => True

/-- Entry `i` of the table that slot `x` points at. -/
def child : Slot D → Vpn → Slot D
  | root d, i => pte2 d i
  | pte2 d i, j => pte1 d i j
  | pte1 d i j, k => pte0 d i j k
  | x, _ => x

/-- The root entries that lead out of the directory's own tables. -/
def leaves : Slot D → Vpn → Prop
  | root _, i => shared i
  | _, _ => False

/-- Every slot is a directory variable or an entry of a table. -/
theorem child_induction {P : Slot D → Prop} (hroot : ∀ d, P (root d))
    (hchild : ∀ x i, x.IsTable → P x → P (x.child i)) : ∀ x, P x := by
  have h2 : ∀ d i, P (pte2 d i) := fun d i => hchild (root d) i trivial (hroot d)
  have h1 : ∀ d i j, P (pte1 d i j) := fun d i j => hchild (pte2 d i) j trivial (h2 d i)
  intro x
  cases x with
  | root d => exact hroot d
  | pte2 d i => exact h2 d i
  | pte1 d i j => exact h1 d i j
  | pte0 d i j k => exact hchild (pte1 d i j) k trivial (h1 d i j)

theorem child_inj {x y : Slot D} {i j : Vpn} (hx : x.IsTable) (hy : y.IsTable)
    (h : x.child i = y.child j) : x = y ∧ i = j := by
  cases x <;> cases y <;> simp_all [child, IsTable]

theorem root_ne_child {x : Slot D} {i : Vpn} {d : D} (hx : x.IsTable) : root d ≠ x.child i := by
  cases x <;> simp_all [child, IsTable]

end Slot

/-- The page and the permission bits of an entry, if it is valid. -/
def entry (pte : Nat) : Option (Nat × Nat) :=
  if valid pte then some (ptePage pte, pte2perm pte) else none

@[simp] theorem entry_zero : entry 0 = none := by simp [entry]

theorem entry_mkPte {pa perm : Nat} (h : perm < 0x400) (hpa : pa < 2 ^ 56) :
    entry (mkPte pa perm) = some (pa / 4096, perm ||| pteV) := by
  rw [entry, if_pos (valid_mkPte _ _), ptePage_mkPte h hpa, pte2perm_mkPte h]

namespace Pmap

variable {D : Type}

/-- What slot `x` holds: a page and its permission bits (a directory variable
has none). The shared root entries and everything below them belong to
`base_pgdir`. -/
def ent (s : Pmap D) : Slot D → Option (Nat × Nat)
  | .root d => root d
  | .pte2 d i => table1 d i
  | .pte1 d i j => table0 d i j
  | .pte0 d i j k => (table0 d i j).bind fun e => entry (s.mem e.1 k)
where
  root (d : D) : Option (Nat × Nat) := if s.pgdir d = 0 then none else some (s.pgdir d >>> 12, 0)
  table1 (d : D) (i : Vpn) : Option (Nat × Nat) :=
    if shared i then none else (root d).bind fun e => entry (s.mem e.1 i)
  table0 (d : D) (i j : Vpn) : Option (Nat × Nat) :=
    (table1 d i).bind fun e => entry (s.mem e.1 j)

/-- The page slot `x` points at. -/
def tgt (s : Pmap D) (x : Slot D) : Option Nat := (s.ent x).map Prod.fst

/-- Each table page is reached by one path. -/
def Distinct (s : Pmap D) : Prop :=
  ∀ ⦃x y p⦄, x.IsTable → y.IsTable → s.tgt x = some p → s.tgt y = some p → x = y

theorem tgt_eq_some {s : Pmap D} {x : Slot D} {p : Nat} :
    s.tgt x = some p ↔ ∃ perm, s.ent x = some (p, perm) := by
  simp [tgt]

theorem tgt_eq_none {s : Pmap D} {x : Slot D} : s.tgt x = none ↔ s.ent x = none := by
  simp [tgt]

theorem tgt_eq_of_ent {s s' : Pmap D} (h : s'.ent = s.ent) : s'.tgt = s.tgt := by
  funext x
  rw [tgt, tgt, h]

theorem ent_child (s : Pmap D) {x : Slot D} {i : Vpn} (hx : x.IsTable) (hi : ¬ x.leaves i) :
    s.ent (x.child i) = (s.ent x).bind fun e => entry (s.mem e.1 i) := by
  cases x with
  | root d => exact if_neg hi
  | pte2 d i => rfl
  | pte1 d i j => rfl
  | pte0 => exact hx.elim

theorem tgt_child (s : Pmap D) {x : Slot D} {i : Vpn} (hx : x.IsTable) (hi : ¬ x.leaves i) :
    s.tgt (x.child i) = (s.tgt x).bind fun t => (entry (s.mem t i)).map Prod.fst := by
  rw [tgt, tgt, ent_child s hx hi]
  cases s.ent x with
  | none => rfl
  | some e => rfl

theorem ent_child_of {s : Pmap D} {x : Slot D} {i : Vpn} {t : Nat} (hx : x.IsTable)
    (hi : ¬ x.leaves i) (ht : s.tgt x = some t) : s.ent (x.child i) = entry (s.mem t i) := by
  obtain ⟨perm, h⟩ := tgt_eq_some.mp ht
  rw [ent_child s hx hi, h, Option.bind_some]

theorem ent_child_leaves (s : Pmap D) {x : Slot D} {i : Vpn} (hi : x.leaves i) :
    s.ent (x.child i) = none := by
  cases x with
  | root d => exact if_pos hi
  | _ => exact hi.elim

theorem ent_child_none {s : Pmap D} {x : Slot D} (hx : x.IsTable) (h : s.ent x = none) (i : Vpn) :
    s.ent (x.child i) = none := by
  by_cases hi : x.leaves i
  · exact ent_child_leaves s hi
  · rw [ent_child s hx hi, h, Option.bind_none]

/-- A change that keeps the directory variables and the contents of every
table keeps every slot. -/
theorem ent_congr {s s' : Pmap D} (hroot : s'.pgdir = s.pgdir)
    (hmem : ∀ x t, x.IsTable → s.tgt x = some t → s'.mem t = s.mem t) : s'.ent = s.ent := by
  funext x
  induction x using Slot.child_induction with
  | hroot d => simp only [ent, ent.root, hroot]
  | hchild x i hx ih =>
    by_cases hi : x.leaves i
    · rw [ent_child_leaves s hi, ent_child_leaves s' hi]
    · rw [ent_child s hx hi, ent_child s' hx hi, ih]
      cases ht : s.ent x with
      | none => rfl
      | some e => simp only [Option.bind_some, hmem x e.1 hx (by simp [tgt, ht])]

/-- Slots depend on the memory and the directory variables only. -/
theorem ent_eq_of_mem {s s' : Pmap D} (hm : s'.mem = s.mem) (hp : s'.pgdir = s.pgdir) :
    s'.ent = s.ent :=
  ent_congr hp fun _ t _ _ => congrFun hm t

theorem setPte_mem (s : Pmap D) (t : Nat) (i : Vpn) (w p : Nat) (k : Vpn) :
    (s.setPte t i w).mem p k = if p = t ∧ k = i then w else s.mem p k := by
  by_cases hp : p = t
  · subst hp; by_cases hk : k = i <;> simp [setPte, hk]
  · simp [setPte, hp]

theorem setPte_mem_of_ne (s : Pmap D) {t p : Nat} (i : Vpn) (w : Nat) (hp : p ≠ t) :
    (s.setPte t i w).mem p = s.mem p := by
  simp [setPte, hp]

variable [DecidableEq D]

/-- A store to entry `i` of a table changes the slot of that entry alone,
when nothing hangs below the slot before or after the store. -/
theorem ent_setPte {s : Pmap D} (hs : s.Distinct) {x : Slot D} {t : Nat} (hx : x.IsTable)
    (ht : s.tgt x = some t) {i : Vpn} (hi : ¬ x.leaves i) (w : Nat)
    (hold : (x.child i).IsTable → ∀ k, s.ent ((x.child i).child k) = none)
    (hnew : (x.child i).IsTable → ∀ e, entry w = some e →
      e.1 ≠ t ∧ ∀ k, entry (s.mem e.1 k) = none) :
    (s.setPte t i w).ent = Function.update s.ent (x.child i) (entry w) := by
  funext z
  induction z using Slot.child_induction with
  | hroot d => rw [Function.update_of_ne (Slot.root_ne_child hx)]; rfl
  | hchild y k hy ih =>
    by_cases hk : y.leaves k
    · rw [ent_child_leaves _ hk]
      by_cases hyx : y.child k = x.child i
      · obtain ⟨rfl, rfl⟩ := Slot.child_inj hy hx hyx
        exact absurd hk hi
      · rw [Function.update_of_ne hyx, ent_child_leaves _ hk]
    rw [ent_child _ hy hk, ih]
    by_cases hyc : y = x.child i
    · -- directly below the changed slot: nothing before, nothing after
      subst hyc
      have hne : (x.child i).child k ≠ x.child i := by
        intro h
        have := (Slot.child_inj hy hx h).1
        cases x <;> simp [Slot.child, Slot.IsTable] at this hx
      rw [Function.update_self, Function.update_of_ne hne, hold hy k]
      cases hw : entry w with
      | none => rfl
      | some e =>
        obtain ⟨hqt, hq⟩ := hnew hy e hw
        simp only [Option.bind_some, setPte_mem_of_ne s i w hqt, hq k]
    · rw [Function.update_of_ne hyc]
      by_cases hyx : y.child k = x.child i
      · obtain ⟨rfl, rfl⟩ := Slot.child_inj hy hx hyx
        obtain ⟨perm, h⟩ := tgt_eq_some.mp ht
        simp [h, setPte_mem]
      · rw [Function.update_of_ne hyx, ent_child s hy hk]
        cases hr : s.ent y with
        | none => rfl
        | some e =>
          by_cases hrt : e.1 = t
          · obtain rfl := hs hy hx (by simp [tgt, hr, hrt]) ht
            have hki : k ≠ i := fun h => hyx (by rw [h])
            simp [setPte_mem, hki]
          · simp only [Option.bind_some, setPte_mem_of_ne s i w hrt]

/-- Pointing an empty directory variable at an empty page, or clearing the
variable of an empty directory, changes the variable's slot alone. -/
theorem ent_setPgdir {s : Pmap D} {d : D} (pa : Nat)
    (hold : ∀ i, s.ent (.pte2 d i) = none)
    (hnew : pa ≠ 0 → ∀ i, ¬ shared i → entry (s.mem (pa >>> 12) i) = none) :
    (s.setPgdir d pa).ent = Function.update s.ent (.root d)
      (if pa = 0 then none else some (pa >>> 12, 0)) := by
  funext z
  induction z using Slot.child_induction with
  | hroot d' =>
    by_cases hd : d' = d
    · subst hd; simp [ent, ent.root, setPgdir]
    · have : Slot.root d' ≠ Slot.root d := fun h => hd (Slot.root.inj h)
      rw [Function.update_of_ne this]
      simp [ent, ent.root, setPgdir, hd]
  | hchild y k hy ih =>
    rw [Function.update_of_ne (Slot.root_ne_child hy).symm]
    by_cases hk : y.leaves k
    · rw [ent_child_leaves _ hk, ent_child_leaves _ hk]
    rw [ent_child _ hy hk, ih]
    by_cases hyd : y = .root d
    · subst hyd
      rw [Function.update_self, Slot.child, hold k]
      by_cases h0 : pa = 0
      · simp [h0]
      · rw [if_neg h0]; exact hnew h0 k hk
    · rw [Function.update_of_ne hyd, ent_child s hy hk]
      rfl

end Pmap

end RiscvMos
