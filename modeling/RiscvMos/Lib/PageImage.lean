import Mathlib.Logic.Function.Basic
import Mathlib.Data.List.Basic

/-!
Memory images that are built page by page. A visit makes sure that a page is
there and stores bytes in it. One builder keeps the page it finds, the other
puts a page of zeros in its place first; which bytes the two leave depends on
the visits that follow the one that stored a byte.
-/

namespace PageImage

/-- The pages that are there, with their bytes by offset. -/
abbrev Image (β : Type) := Nat → Option (Nat → β)

/-- A visit of the page of `addr`: `len` bytes are stored from `addr` on, the
`i`-th of them is `byte i`. -/
structure Visit (β : Type) where
  addr : Nat
  len : Nat
  byte : Nat → β

variable {β : Type}

/-- The byte at an address, for pages of `z` bytes. -/
def Image.byteAt (z : Nat) (I : Image β) (a : Nat) : Option β := (I (a / z)).map fun f => f (a % z)

namespace Visit

def page (z : Nat) (v : Visit β) : Nat := v.addr / z

/-- The visit stores a byte at `a`. -/
def Covers (v : Visit β) (a : Nat) : Prop := v.addr ≤ a ∧ a < v.addr + v.len

instance (v : Visit β) (a : Nat) : Decidable (v.Covers a) := inferInstanceAs (Decidable (_ ∧ _))

/-- The byte that the visit stores at `a`. -/
def stored (v : Visit β) (a : Nat) : β := v.byte (a - v.addr)

/-- The page `f` after the stores. -/
def put (z : Nat) (v : Visit β) (f : Nat → β) : Nat → β :=
  fun o => if v.Covers (z * v.page z + o) then v.stored (z * v.page z + o) else f o

/-- No store leaves the page. -/
def Within (z : Nat) (v : Visit β) : Prop := ∀ a, v.Covers a → a / z = v.page z

end Visit

variable [Zero β]

/-- A visit that keeps the page, if there is one. -/
def keep (z : Nat) (I : Image β) (v : Visit β) : Image β :=
  Function.update I (v.page z) (some (v.put z ((I (v.page z)).getD fun _ => 0)))

/-- A visit that puts a new page in the place of the one it finds. -/
def renew (z : Nat) (I : Image β) (v : Visit β) : Image β :=
  Function.update I (v.page z) (some (v.put z fun _ => 0))

variable {z a : Nat} {I : Image β} {v : Visit β} {vs us ws : List (Visit β)} {b : β}

omit [Zero β] in
theorem byteAt_update (f : Nat → β) (h : a / z = v.page z) :
    Image.byteAt z (Function.update I (v.page z) (some (v.put z f))) a =
      some (if v.Covers a then v.stored a else f (a % z)) := by
  have place : z * v.page z + a % z = a := by
    rw [← h]
    exact Nat.div_add_mod a z
  unfold Image.byteAt Visit.put
  rw [h, Function.update_self, Option.map_some]
  dsimp only
  rw [place]

omit [Zero β] in
theorem byteAt_update_of_ne (f : Nat → β) (h : a / z ≠ v.page z) :
    Image.byteAt z (Function.update I (v.page z) (some f)) a = I.byteAt z a := by
  unfold Image.byteAt
  rw [Function.update_of_ne h]

theorem byteAt_keep (h : a / z = v.page z) :
    (keep z I v).byteAt z a = some (if v.Covers a then v.stored a else (I.byteAt z a).getD 0) := by
  unfold keep
  rw [byteAt_update _ h]
  unfold Image.byteAt
  rw [← h]
  cases I (a / z) <;> rfl

theorem byteAt_keep_of_ne (h : a / z ≠ v.page z) : (keep z I v).byteAt z a = I.byteAt z a :=
  byteAt_update_of_ne _ h

theorem byteAt_renew (h : a / z = v.page z) :
    (renew z I v).byteAt z a = some (if v.Covers a then v.stored a else 0) :=
  byteAt_update _ h

theorem byteAt_renew_of_ne (h : a / z ≠ v.page z) : (renew z I v).byteAt z a = I.byteAt z a :=
  byteAt_update_of_ne _ h

/-! ## Pages that are kept -/

/-- The pages that are there after some visits. -/
theorem foldl_keep_present (vs : List (Visit β)) (I : Image β) (p : Nat) :
    (vs.foldl (keep z) I p).isSome ↔ (I p).isSome ∨ ∃ v ∈ vs, v.page z = p := by
  induction vs generalizing I with
  | nil => simp
  | cons v vs ih =>
    rw [List.foldl_cons, ih]
    by_cases same : p = v.page z
    · subst same
      unfold keep
      simp
    · unfold keep
      rw [Function.update_of_ne same]
      simp [Ne.symm same]

/-- A byte stays if every later store to its place is the same byte. -/
theorem foldl_keep_settled (h : I.byteAt z a = some b)
    (agree : ∀ v ∈ vs, v.Covers a → v.stored a = b) :
    Image.byteAt z (vs.foldl (keep z) I) a = some b := by
  induction vs generalizing I with
  | nil => exact h
  | cons v vs ih =>
    apply ih
    · by_cases same : a / z = v.page z
      · rw [byteAt_keep same, h]
        by_cases covers : v.Covers a
        · rw [if_pos covers, agree v List.mem_cons_self covers]
        · rw [if_neg covers]
          rfl
      · rw [byteAt_keep_of_ne same, h]
    · intro w hw
      exact agree w (List.mem_cons_of_mem v hw)

/-- A byte that some visit stores. -/
theorem foldl_keep_stored (hv : v ∈ vs) (within : v.Within z) (covers : v.Covers a)
    (agree : ∀ v ∈ vs, v.Covers a → v.stored a = b) :
    Image.byteAt z (vs.foldl (keep z) I) a = some b := by
  obtain ⟨us, ws, rfl⟩ := List.append_of_mem hv
  rw [List.foldl_append, List.foldl_cons]
  apply foldl_keep_settled
  · rw [byteAt_keep (within a covers), if_pos covers, agree v hv covers]
  · intro w hw
    exact agree w (by simp [hw])

/-- A byte of a visited page that no visit stores. -/
theorem foldl_keep_zero (hv : v ∈ vs) (page : a / z = v.page z) (h : I.byteAt z a = none)
    (none : ∀ v ∈ vs, ¬ v.Covers a) : Image.byteAt z (vs.foldl (keep z) I) a = some 0 := by
  induction vs generalizing I with
  | nil => exact absurd hv List.not_mem_nil
  | cons w vs ih =>
    have rest : ∀ v ∈ vs, ¬ v.Covers a := fun v hv => none v (List.mem_cons_of_mem w hv)
    rw [List.foldl_cons]
    by_cases same : a / z = w.page z
    · apply foldl_keep_settled
      · rw [byteAt_keep same, if_neg (none w List.mem_cons_self), h]
        rfl
      · intro v hv covers
        exact absurd covers (rest v hv)
    · apply ih _ _ rest
      · cases List.mem_cons.mp hv with
        | inl first => exact absurd (first ▸ page) same
        | inr later => exact later
      · rw [byteAt_keep_of_ne same, h]

/-! ## Pages that are renewed -/

theorem foldl_renew_of_ne (h : ∀ v ∈ vs, v.page z ≠ a / z) :
    Image.byteAt z (vs.foldl (renew z) I) a = I.byteAt z a := by
  induction vs generalizing I with
  | nil => rfl
  | cons v vs ih =>
    rw [List.foldl_cons, ih fun w hw => h w (List.mem_cons_of_mem v hw)]
    exact byteAt_renew_of_ne (h v List.mem_cons_self).symm

/-- A page that is visited, at a place where no visit stores. -/
theorem foldl_renew_wiped (visited : ∃ v ∈ vs, v.page z = a / z) (none : ∀ v ∈ vs, ¬ v.Covers a) :
    Image.byteAt z (vs.foldl (renew z) I) a = some 0 := by
  induction vs generalizing I with
  | nil => simp at visited
  | cons w vs ih =>
    rw [List.foldl_cons]
    by_cases later : ∃ u ∈ vs, u.page z = a / z
    · exact ih later fun v hv => none v (List.mem_cons_of_mem w hv)
    · have first : w.page z = a / z := by
        obtain ⟨v, hv, page⟩ := visited
        cases List.mem_cons.mp hv with
        | inl same => rw [← same, page]
        | inr after => exact absurd ⟨v, after, page⟩ later
      rw [foldl_renew_of_ne fun u hu same => later ⟨u, hu, same⟩, byteAt_renew first.symm,
        if_neg (none w List.mem_cons_self)]

/-- The byte of the last visit of a page. -/
theorem foldl_renew_last (within : v.Within z) (covers : v.Covers a)
    (last : ∀ w ∈ ws, w.page z ≠ a / z) :
    Image.byteAt z ((us ++ v :: ws).foldl (renew z) I) a = some (v.stored a) := by
  rw [List.foldl_append, List.foldl_cons, foldl_renew_of_ne last,
    byteAt_renew (within a covers), if_pos covers]

/-- The byte of a visit that another visit of the page follows. -/
theorem foldl_renew_again (again : ∃ w ∈ ws, w.page z = a / z) (none : ∀ w ∈ ws, ¬ w.Covers a) :
    Image.byteAt z ((us ++ v :: ws).foldl (renew z) I) a = some 0 := by
  rw [List.foldl_append, List.foldl_cons]
  exact foldl_renew_wiped again none

end PageImage
