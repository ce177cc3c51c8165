import Mathlib.Logic.Function.Basic

/-!
Memory that is shared until it is written to. A slot points at a cell, with an
attribute; several slots may point at one cell. What is read through the slots
is what separate memories would hold, as long as a store goes through the only
slot of its cell.
-/

namespace CopyOnWrite

variable {S P A C : Type*}

/-! ## What the slots show -/

/-- What is read through each slot; `blank` where there is no cell. -/
def contents (cell : S → Option P) (mem : P → C) (blank : C) (x : S) : C :=
  ((cell x).map mem).getD blank

section
variable {cell cell' : S → Option P} {mem mem' : P → C} {blank c : C} {x : S} {p : P}

theorem contents_of (here : cell x = some p) : contents cell mem blank x = mem p := by
  unfold contents
  rw [here]
  rfl

theorem contents_blank (here : cell x = none) : contents cell mem blank x = blank := by
  unfold contents
  rw [here]
  rfl

theorem contents_congr (same : cell' x = cell x) (data : ∀ p, cell x = some p → mem' p = mem p) :
    contents cell' mem' blank x = contents cell mem blank x := by
  unfold contents
  rw [same]
  cases here : cell x with
  | none => rfl
  | some p =>
    rw [Option.map_some, Option.map_some, data p here]

/-- Nothing that is read changes. -/
theorem contents_same (same : ∀ x, cell' x = cell x)
    (data : ∀ x p, cell x = some p → mem' p = mem p) :
    contents cell' mem' blank = contents cell mem blank :=
  funext fun x => contents_congr (same x) (data x)

variable [DecidableEq S]

/-- Only what is read through one slot changes. -/
theorem contents_update (same : ∀ y, y ≠ x → cell' y = cell y)
    (data : ∀ y p, y ≠ x → cell y = some p → mem' p = mem p)
    (here : contents cell' mem' blank x = c) :
    contents cell' mem' blank = Function.update (contents cell mem blank) x c := by
  funext y
  by_cases eq : y = x
  · rw [eq, Function.update_self, here]
  · rw [Function.update_of_ne eq]
    exact contents_congr (same y eq) fun p => data y p eq

/-- A store through the only slot of its cell. -/
theorem contents_store [DecidableEq P] (here : cell x = some p)
    (sole : ∀ y, cell y = some p → y = x) :
    contents cell (Function.update mem p c) blank =
      Function.update (contents cell mem blank) x c := by
  refine contents_update (fun _ _ => rfl) (fun y q off there => ?_) ?_
  · apply Function.update_of_ne
    rintro rfl
    exact off (sole y there)
  · rw [contents_of here, Function.update_self]

end

/-! ## Which cells have one slot -/

/-- Where a slot may be written through, its cell has no other slot, except the ones in
`alias`. -/
def Exclusive (at_ : S → Option (P × A)) (writes : A → Prop) (alias_ : S → S → Prop) : Prop :=
  ∀ x y p a b, at_ x = some (p, a) → writes a → at_ y = some (p, b) → y = x ∨ alias_ x y

/-- The slots of one cell agree on the attribute `flag`. -/
def Uniform (at_ : S → Option (P × A)) (flag : A → Prop) : Prop :=
  ∀ x y p a b, at_ x = some (p, a) → flag a → at_ y = some (p, b) → flag b

variable {at_ at' : S → Option (P × A)} {writes flag : A → Prop} {alias_ alias' : S → S → Prop}
    {x₀ : S}

theorem Exclusive.congr (h : Exclusive at_ writes alias_) (same : ∀ x, at' x = at_ x)
    (aliases : ∀ x y, alias_ x y → alias' x y) : Exclusive at' writes alias' := by
  intro x y p a b hx hw hy
  rw [same] at hx hy
  exact (h x y p a b hx hw hy).imp id (aliases x y)

/-- One slot changes. -/
theorem Exclusive.place (h : Exclusive at_ writes alias_) (off : ∀ x, x ≠ x₀ → at' x = at_ x)
    (aliases : ∀ x y, x ≠ x₀ → y ≠ x₀ → alias_ x y → alias' x y)
    (new : ∀ p a y b, at' x₀ = some (p, a) → y ≠ x₀ → at_ y = some (p, b) →
      (writes a → alias' x₀ y) ∧ (writes b → alias' y x₀)) : Exclusive at' writes alias' := by
  intro x y p a b hx hw hy
  by_cases ex : x = x₀
  · by_cases ey : y = x₀
    · exact .inl (ey.trans ex.symm)
    · rw [off y ey] at hy
      rw [ex] at hx ⊢
      exact .inr ((new p a y b hx ey hy).1 hw)
  · rw [off x ex] at hx
    by_cases ey : y = x₀
    · rw [ey] at hy ⊢
      exact .inr ((new p b x a hy ex hx).2 hw)
    · rw [off y ey] at hy
      exact (h x y p a b hx hw hy).imp id (aliases x y ex ey)

theorem Uniform.congr (h : Uniform at_ flag) (same : ∀ x, at' x = at_ x) : Uniform at' flag := by
  intro x y p a b hx hf hy
  rw [same] at hx hy
  exact h x y p a b hx hf hy

theorem Uniform.place (h : Uniform at_ flag) (off : ∀ x, x ≠ x₀ → at' x = at_ x)
    (new : ∀ p a y b, at' x₀ = some (p, a) → y ≠ x₀ → at_ y = some (p, b) → (flag a ↔ flag b)) :
    Uniform at' flag := by
  intro x y p a b hx hf hy
  by_cases ex : x = x₀
  · rw [ex] at hx
    by_cases ey : y = x₀
    · rw [ey] at hy
      obtain ⟨-, rfl⟩ := Prod.mk.inj (Option.some.inj (hx.symm.trans hy))
      exact hf
    · rw [off y ey] at hy
      exact (new p a y b hx ey hy).mp hf
  · rw [off x ex] at hx
    by_cases ey : y = x₀
    · rw [ey] at hy
      exact (new p b x a hy ex hx).mpr hf
    · rw [off y ey] at hy
      exact h x y p a b hx hf hy

end CopyOnWrite
