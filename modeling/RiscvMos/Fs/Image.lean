import RiscvMos.Fs.Format

/-!
The image that `tools/fsformat.c` writes to: blocks that are taken in order, the
block pointers of a file, and its contents.
-/

namespace RiscvMos

open Fs

namespace Format

theorem bind_some_iff {α β : Type} {x : FormatM α} {f : α → FormatM β} {d d' : Image} {b : β} :
    (x >>= f) d = some (b, d') ↔ ∃ a d₁, x d = some (a, d₁) ∧ f a d₁ = some (b, d') := by
  show (x d >>= fun p => f p.1 p.2) = _ ↔ _
  rw [Option.bind_eq_bind, Option.bind_eq_some_iff]
  constructor
  · rintro ⟨⟨a, d₁⟩, first, rest⟩
    exact ⟨a, d₁, first, rest⟩
  · rintro ⟨a, d₁, first, rest⟩
    exact ⟨(a, d₁), first, rest⟩

/-- The words in which a block number can stand. -/
def PointerWord (d : Image) (w : Nat) : Prop :=
  d.type (w / 1024) = .index ∨ d.type (w / 1024) = .file ∧ 34 ≤ w % 64 ∧ w % 64 ≤ 44 ∨
    fDirect sRoot 0 ≤ w ∧ w ≤ fIndirect sRoot

/-- Blocks are taken in order, and behind the last one there is nothing. No block is linked
twice. -/
structure Sane (d : Image) : Prop where
  low : 3 ≤ d.nextbno
  high : d.nextbno ≤ numBlock
  zero : ∀ w, d.nextbno ≤ w / 1024 → d.word w = 0
  free : ∀ b, d.nextbno ≤ b → d.type b = .free
  system : ∀ b < 3, d.type b ≠ .index ∧ d.type b ≠ .file
  taken : ∀ w, PointerWord d w → d.word w ≠ 0 → 3 ≤ d.word w ∧ d.word w < d.nextbno
  sole : ∀ w x, PointerWord d w → PointerWord d x → d.word w ≠ 0 → d.word w = d.word x → w = x

/-- A block that was taken and is not linked yet. -/
structure Loose (d : Image) (b : Nat) : Prop where
  low : 3 ≤ b
  taken : b < d.nextbno
  alone : ∀ w, PointerWord d w → d.word w ≠ b

/-- Of the words in blocks that were taken only those of `P` change. -/
structure Extends (P : Nat → Prop) (d d' : Image) : Prop where
  next : d.nextbno ≤ d'.nextbno
  type : ∀ b < d.nextbno, d'.type b = d.type b
  word : ∀ w, w / 1024 < d.nextbno → ¬ P w → d'.word w = d.word w
  sane : Sane d → Sane d'

section
variable {P Q : Nat → Prop} {d d' d'' : Image} {t : BlockType} {f g m lo hi b w v i : Nat}
    {bs : List Nat}

theorem Extends.refl (P : Nat → Prop) (d : Image) : Extends P d d :=
  ⟨Nat.le_refl _, fun _ _ => rfl, fun _ _ _ => rfl, id⟩

theorem Extends.trans (h : Extends P d d') (h' : Extends Q d' d'')
    (sub : ∀ w, w / 1024 < d.nextbno → Q w → P w) : Extends P d d'' := by
  refine ⟨h.next.trans h'.next, fun b hb => ?_, fun w hw out => ?_,
    fun sane => h'.sane (h.sane sane)⟩
  · rw [h'.type b (hb.trans_le h.next), h.type b hb]
  · rw [h'.word w (hw.trans_le h.next) fun q => out (sub w hw q), h.word w hw out]

theorem Extends.mono (h : Extends P d d') (sub : ∀ w, w / 1024 < d.nextbno → P w → Q w) :
    Extends Q d d' :=
  ⟨h.next, h.type, fun w hw out => h.word w hw fun p => out (sub w hw p), h.sane⟩

theorem store_some (run : store w v d = some ((), d')) :
    d'.word = Function.update d.word w (uInt v) ∧ d'.type = d.type ∧ d'.nextbno = d.nextbno := by
  cases run
  exact ⟨rfl, rfl, rfl⟩

/-- A store to a word that holds no block number, or of a block that is not linked yet. -/
def Harmless (d : Image) (w v : Nat) : Prop := ¬ PointerWord d w ∨ Loose d (uInt v)

theorem store_sane (sane : Sane d) (inside : w / 1024 < d.nextbno) (harmless : Harmless d w v)
    (run : store w v d = some ((), d')) : Sane d' := by
  obtain ⟨word, type, next⟩ := store_some run
  have pointer (x : Nat) : PointerWord d' x ↔ PointerWord d x := by
    unfold PointerWord
    rw [type]
  have other {x : Nat} (hx : x ≠ w) : d'.word x = d.word x := by
    rw [word, Function.update_of_ne hx]
  have here : d'.word w = uInt v := by rw [word, Function.update_self]
  refine ⟨next ▸ sane.low, next ▸ sane.high, fun x hx => ?_, fun b hb => ?_, fun b hb => ?_,
    fun x hx nonzero => ?_, fun x y hx hy nonzero same => ?_⟩
  · rw [next] at hx
    rw [other, sane.zero x hx]
    rintro rfl
    exact absurd inside (Nat.not_lt.mpr hx)
  · rw [next] at hb
    rw [type, sane.free b hb]
  · rw [type]
    exact sane.system b hb
  · rw [pointer] at hx
    rw [next]
    by_cases at_ : x = w
    · subst at_
      have loose := harmless.resolve_left (not_not.mpr hx)
      rw [here]
      exact ⟨loose.low, loose.taken⟩
    · rw [other at_] at nonzero ⊢
      exact sane.taken x hx nonzero
  · rw [pointer] at hx hy
    by_cases at_ : x = w <;> by_cases at' : y = w
    · rw [at_, at']
    · subst at_
      have loose := harmless.resolve_left (not_not.mpr hx)
      rw [here, other at'] at same
      exact absurd same.symm (loose.alone y hy)
    · subst at'
      have loose := harmless.resolve_left (not_not.mpr hy)
      rw [here, other at_] at same
      exact absurd same (loose.alone x hx)
    · rw [other at_, other at'] at same
      rw [other at_] at nonzero
      exact sane.sole x y hx hy nonzero same

theorem store_ends (inside : w / 1024 < d.nextbno) (harmless : Sane d → Harmless d w v)
    (run : store w v d = some ((), d')) : Extends (· = w) d d' := by
  obtain ⟨word, type, next⟩ := store_some run
  refine ⟨next.ge, fun b _ => by rw [type], fun x _ out => ?_,
    fun sane => store_sane sane inside (harmless sane) run⟩
  rw [word, Function.update_of_ne out]

theorem Loose.store (h : Loose d b) (other : uInt v ≠ b) (run : store w v d = some ((), d')) :
    Loose d' b := by
  obtain ⟨word, type, next⟩ := store_some run
  refine ⟨h.low, next ▸ h.taken, fun x hx => ?_⟩
  unfold PointerWord at hx
  rw [type] at hx
  rw [word]
  by_cases at_ : x = w
  · rw [at_, Function.update_self]
    exact other
  · rw [Function.update_of_ne at_]
    exact h.alone x hx

/-- `putBytes` stores the bytes and changes no word without one. -/
theorem putBytes_eq (i : Nat) (bs : List Nat) (d : Image) :
    ∃ c, putBytes i bs d = some ((), { d with word := c }) ∧
      (∀ j, cellByte c j =
        if i ≤ j ∧ j < i + bs.length then bs.getD (j - i) 0 % 256 else cellByte d.word j) ∧
      ∀ w, (∀ j, i ≤ j → j < i + bs.length → j / 4 ≠ w) → c w = d.word w := by
  induction bs generalizing i d with
  | nil =>
    refine ⟨d.word, rfl, fun j => ?_, fun _ _ => rfl⟩
    rw [if_neg (by rw [List.length_nil]; omega)]
  | cons b bs ih =>
    obtain ⟨c, run, byte, word⟩ := ih (i + 1) { d with
      word := Function.update d.word (i / 4) (uInt (FsM.setByte (d.word (i / 4)) (i % 4) b)) }
    refine ⟨c, run, fun j => ?_, fun w out => ?_⟩
    · rw [byte, List.length_cons]
      dsimp only
      by_cases first : j = i
      · subst first
        rw [if_neg (by omega), if_pos (by omega), Nat.sub_self, List.getD_cons_zero,
          FsM.cellByte_div, Function.update_self, uInt,
          FsM.setByte_at _ _ (Nat.mod_lt _ (by decide)) (Nat.mod_lt _ (by decide)), if_pos rfl]
      · by_cases later : i + 1 ≤ j ∧ j < i + 1 + bs.length
        · have next : j - i = j - (i + 1) + 1 := by omega
          rw [if_pos later, if_pos (by omega), next, List.getD_cons_succ]
        · rw [if_neg later, if_neg (by omega), FsM.cellByte_div, FsM.cellByte_div]
          by_cases same : j / 4 = i / 4
          · rw [same, Function.update_self, uInt,
              FsM.setByte_at _ _ (Nat.mod_lt _ (by decide)) (Nat.mod_lt _ (by decide)),
              if_neg (by omega)]
          · rw [Function.update_of_ne same]
    · rw [List.length_cons] at out
      rw [word w fun j low high => out j (by omega) (by omega)]
      exact Function.update_of_ne (out i (Nat.le_refl _) (by omega)).symm _ _

theorem putBytes_extends (inside : ∀ j, i ≤ j → j < i + bs.length → j / 4 / 1024 < d.nextbno)
    (plain : Sane d → ∀ j, i ≤ j → j < i + bs.length → ¬ PointerWord d (j / 4))
    {c : Nat → Nat} (run : putBytes i bs d = some ((), { d with word := c })) :
    Extends (fun w => ∃ j, i ≤ j ∧ j < i + bs.length ∧ j / 4 = w) d { d with word := c } := by
  obtain ⟨c', run', -, word⟩ := putBytes_eq i bs d
  rw [run] at run'
  have same : c = c' := congrArg Image.word (Prod.mk.inj (Option.some.inj run')).2
  subst same
  have keep w (out : ¬ ∃ j, i ≤ j ∧ j < i + bs.length ∧ j / 4 = w) : c w = d.word w :=
    word w fun j low high same => out ⟨j, low, high, same⟩
  refine ⟨Nat.le_refl _, fun _ _ => rfl, fun w _ out => keep w out, fun sane => ?_⟩
  have kept {w : Nat} (hw : PointerWord d w) : c w = d.word w := by
    apply keep
    rintro ⟨j, low, high, rfl⟩
    exact plain sane j low high hw
  refine ⟨sane.low, sane.high, fun w hw => (keep w ?_).trans (sane.zero w hw), sane.free,
    sane.system, fun w hw nonzero => ?_, fun w x hw hx nonzero same => ?_⟩
  · rintro ⟨j, low, high, rfl⟩
    exact absurd (inside j low high) (Nat.not_lt.mpr hw)
  · have eq : c w = d.word w := kept hw
    simp only [eq] at nonzero ⊢
    exact sane.taken w hw nonzero
  · have eq : c w = d.word w := kept hw
    have eq' : c x = d.word x := kept hx
    simp only [eq, eq'] at nonzero same
    exact sane.sole w x hw hx nonzero same

/-- The next block is taken. Data may stand in it already. -/
theorem Sane.take {c : Nat → Nat} (h : Sane d) (room : d.nextbno < numBlock)
    (same : ∀ w, w / 1024 ≠ d.nextbno ∨ t ≠ .data → c w = d.word w)
    (made : d' = ⟨c, Function.update d.type d.nextbno t, d.nextbno + 1⟩) :
    Sane d' ∧ Loose d' d.nextbno ∧ ∀ b, Loose d b → Loose d' b := by
  have low := h.low
  -- the words of the new block hold no block number
  have old {w : Nat} (hw : PointerWord d' w) (nonzero : d'.word w ≠ 0) :
      PointerWord d w ∧ d'.word w = d.word w := by
    subst made
    by_cases here : w / 1024 = d.nextbno
    · exfalso
      by_cases data : t = .data
      · subst data
        rcases hw with index | ⟨file, -⟩ | root
        · simp [here] at index
        · simp [here] at file
        · unfold fDirect fIndirect sRoot at root
          omega
      · apply nonzero
        show c w = 0
        rw [same w (.inr data), h.zero w here.ge]
    · have type : Function.update d.type d.nextbno t (w / 1024) = d.type (w / 1024) :=
        Function.update_of_ne here _ _
      refine ⟨?_, same w (.inl here)⟩
      unfold PointerWord at hw ⊢
      simp only [type] at hw
      exact hw
  have next : d'.nextbno = d.nextbno + 1 := by rw [made]
  have type (b : Nat) (hb : b ≠ d.nextbno) : d'.type b = d.type b := by
    rw [made]
    exact Function.update_of_ne hb _ _
  refine ⟨⟨by omega, by omega, fun w hw => ?_, fun b hb => ?_, fun b hb => ?_,
    fun w hw nonzero => ?_, fun w x hw hx nonzero eq => ?_⟩, ⟨low, by omega, fun w hw eq => ?_⟩,
    fun b loose => ⟨loose.low, by have taken := loose.taken; omega, fun w hw eq => ?_⟩⟩
  · rw [next] at hw
    rw [made]
    show c w = 0
    rw [same w (.inl (by omega)), h.zero w (by omega)]
  · rw [type b (by omega), h.free b (by omega)]
  · rw [type b (by omega)]
    exact h.system b hb
  · obtain ⟨hw', eq⟩ := old hw nonzero
    rw [eq] at nonzero ⊢
    have taken := h.taken w hw' nonzero
    omega
  · have nonzero' : d'.word x ≠ 0 := eq ▸ nonzero
    obtain ⟨hw', eqw⟩ := old hw nonzero
    obtain ⟨hx', eqx⟩ := old hx nonzero'
    rw [eqw, eqx] at eq
    rw [eqw] at nonzero
    exact h.sole w x hw' hx' nonzero eq
  · have nonzero : d'.word w ≠ 0 := by omega
    obtain ⟨hw', eqw⟩ := old hw nonzero
    rw [eqw] at eq nonzero
    have taken := (h.taken w hw' nonzero).2
    omega
  · have positive := loose.low
    have nonzero : d'.word w ≠ 0 := by omega
    obtain ⟨hw', eqw⟩ := old hw nonzero
    rw [eqw] at eq
    exact loose.alone w hw' eq

theorem nextBlock_some {t : BlockType} {b : Nat} (run : nextBlock t d = some (b, d')) :
    b = d.nextbno ∧ b < numBlock ∧ Extends (fun _ => False) d d' ∧ d'.nextbno = b + 1 ∧
      d'.word = d.word ∧ d'.type b = t ∧
      (Sane d → Loose d' b ∧ ∀ b', Loose d b' → Loose d' b') := by
  unfold nextBlock at run
  split at run
  · rename_i room
    cases run
    have take (sane : Sane d) := sane.take room (t := t) (fun _ _ => rfl) rfl
    refine ⟨rfl, room, ⟨Nat.le_succ _, fun b hb => ?_, fun _ _ _ => rfl, fun sane => (take sane).1⟩,
      rfl, rfl, Function.update_self _ _ _, fun sane => (take sane).2⟩
    exact Function.update_of_ne (Nat.ne_of_lt hb) _ _
  · cases run

/-! ## The blocks of a file -/

/-- The first `m` block pointers of a file are blocks of one type, from `lo` on and below `hi`. -/
structure Linked (d : Image) (t : BlockType) (f m lo hi : Nat) : Prop where
  place : f % 1024 ≤ 960
  below : f / 1024 < lo
  low : 3 ≤ lo
  high : hi ≤ numBlock
  few : m ≤ nindirect
  inside : ∀ i < m, lo ≤ pointer d.word f i ∧ pointer d.word f i < hi ∧
    d.type (pointer d.word f i) = t
  direct : m ≤ ndirect → d.word (fIndirect f) = 0
  index : ndirect < m → lo ≤ d.word (fIndirect f) ∧ d.word (fIndirect f) < hi ∧
    d.type (d.word (fIndirect f)) = .index
  apart : ∀ i < m, ∀ j < m, pointer d.word f i = pointer d.word f j → i = j

/-- The words that link the blocks of a file. -/
def Links (d : Image) (f w : Nat) : Prop :=
  fDirect f 0 ≤ w ∧ w ≤ fIndirect f ∨ d.word (fIndirect f) ≠ 0 ∧ w / 1024 = d.word (fIndirect f)

/-- The words and types from which a file is read: those of its `struct File` and of blocks. -/
structure Agree (d d' : Image) (f lo hi : Nat) : Prop where
  own : ∀ x < 64, d'.word (f + x) = d.word (f + x)
  word : ∀ w, lo ≤ w / 1024 → w / 1024 < hi → d'.word w = d.word w
  type : ∀ b, lo ≤ b → b < hi → d'.type b = d.type b

theorem Agree.indirect (h : Agree d d' f lo hi) : d'.word (fIndirect f) = d.word (fIndirect f) :=
  h.own 44 (by decide)

theorem Extends.agree (h : Extends P d d') (place : f % 1024 ≤ 960) (below : f / 1024 < d.nextbno)
    (taken : hi ≤ d.nextbno) (own : ∀ x < 64, ¬ P (f + x))
    (words : ∀ w, lo ≤ w / 1024 → w / 1024 < hi → ¬ P w) : Agree d d' f lo hi := by
  refine ⟨fun x hx => h.word _ ?_ (own x hx),
    fun w low high => h.word w (high.trans_le taken) (words w low high),
    fun b _ high => h.type b (high.trans_le taken)⟩
  omega

theorem pointer_direct {c : Nat → Nat} (h : i < ndirect) : pointer c f i = c (fDirect f i) := by
  rw [pointer, if_pos (.inl h), slot, if_pos h]

theorem pointer_indirect {c : Nat → Nat} (h : ndirect ≤ i) (few : i < nindirect)
    (nonzero : c (fIndirect f) ≠ 0) (small : c (fIndirect f) < numBlock) :
    pointer c f i = c (1024 * c (fIndirect f) + i) := by
  have small' : c (fIndirect f) < 1024 := small
  rw [pointer, if_pos (.inr ⟨few, nonzero⟩), slot_indirect (Nat.not_lt.mpr h) (by omega)]

namespace Linked

theorem empty (place : f % 1024 ≤ 960) (below : f / 1024 < lo) (low : 3 ≤ lo) (high : hi ≤ numBlock)
    (index : d.word (fIndirect f) = 0) : Linked d t f 0 lo hi :=
  ⟨place, below, low, high, Nat.zero_le _, fun _ h => absurd h (Nat.not_lt_zero _), fun _ => index,
    fun h => absurd h (Nat.not_lt_zero _), fun _ h => absurd h (Nat.not_lt_zero _)⟩

variable (h : Linked d t f m lo hi)

include h in
theorem mono (le : hi ≤ b) (high : b ≤ numBlock) : Linked d t f m lo b := by
  refine ⟨h.place, h.below, h.low, high, h.few, fun i hi => ?_, h.direct, fun many => ?_, h.apart⟩
  · obtain ⟨low, below, type⟩ := h.inside i hi
    exact ⟨low, below.trans_le le, type⟩
  · obtain ⟨low, below, type⟩ := h.index many
    exact ⟨low, below.trans_le le, type⟩

include h in
theorem index_pos (many : ndirect < m) : d.word (fIndirect f) ≠ 0 := by
  have low := h.low
  have index := (h.index many).1
  omega

include h in
theorem many (nonzero : d.word (fIndirect f) ≠ 0) : ndirect < m := by
  by_contra few
  exact nonzero (h.direct (Nat.le_of_not_lt few))

include h in
/-- The pointers are read from the words that agree. -/
theorem pointer_eq (indirect : d'.word (fIndirect f) = d.word (fIndirect f))
    (own : ∀ i < ndirect, d'.word (fDirect f i) = d.word (fDirect f i))
    (index : ndirect < m → ∀ i < m,
      d'.word (1024 * d.word (fIndirect f) + i) = d.word (1024 * d.word (fIndirect f) + i))
    (hi : i < m) : pointer d'.word f i = pointer d.word f i := by
  by_cases direct : i < ndirect
  · rw [pointer_direct direct, pointer_direct direct, own i direct]
  · have many : ndirect < m := by omega
    have few : i < nindirect := hi.trans_le h.few
    have small := (h.index many).2.1.trans_le h.high
    rw [pointer_indirect (Nat.le_of_not_lt direct) few (h.index_pos many) small,
      pointer_indirect (Nat.le_of_not_lt direct) few (by rw [indirect]; exact h.index_pos many)
        (by rw [indirect]; exact small),
      indirect, index many i hi]

include h in
theorem congr_pointer (word : ∀ w, Links d f w → d'.word w = d.word w) (hi : i < m) :
    pointer d'.word f i = pointer d.word f i := by
  have few := h.few
  apply h.pointer_eq (word _ (.inl ?_)) (fun i direct => word _ (.inl ?_))
    (fun many i small => ?_) hi
  · unfold fDirect fIndirect
    omega
  · unfold ndirect at direct
    unfold fDirect fIndirect
    omega
  · have short : i < 1024 := small.trans_le few
    have block : (1024 * d.word (fIndirect f) + i) / 1024 = d.word (fIndirect f) := by omega
    exact word _ (.inr ⟨h.index_pos many, block⟩)

include h in
theorem congr (word : ∀ w, Links d f w → d'.word w = d.word w)
    (type : ∀ b, lo ≤ b → b < hi → d'.type b = d.type b) : Linked d' t f m lo hi := by
  have indirect : d'.word (fIndirect f) = d.word (fIndirect f) := by
    apply word _ (.inl ?_)
    unfold fDirect fIndirect
    omega
  refine ⟨h.place, h.below, h.low, h.high, h.few, fun i hi => ?_, fun few => ?_, fun many => ?_, ?_⟩
  · obtain ⟨low, below, type'⟩ := h.inside i hi
    rw [h.congr_pointer word hi, type _ low below]
    exact ⟨low, below, type'⟩
  · rw [indirect]
    exact h.direct few
  · obtain ⟨low, below, type'⟩ := h.index many
    rw [indirect, type _ low below]
    exact ⟨low, below, type'⟩
  · intro i hi j hj
    rw [h.congr_pointer word hi, h.congr_pointer word hj]
    exact h.apart i hi j hj

include h in
/-- The block pointers are among the words that agree. -/
theorem agree_links (agree : Agree d d' f lo hi) (links : Links d f w) : d'.word w = d.word w := by
  rcases links with ⟨first, last⟩ | ⟨nonzero, block⟩
  · unfold fDirect at first
    unfold fIndirect at last
    have own := agree.own (w - f) (by omega)
    rwa [Nat.add_sub_cancel' (by omega)] at own
  · have many := h.many nonzero
    obtain ⟨low, below, -⟩ := h.index many
    rw [← block] at low below
    exact agree.word w low below

include h in
theorem agree_pointer (agree : Agree d d' f lo hi) (hi : i < m) :
    pointer d'.word f i = pointer d.word f i :=
  h.congr_pointer (fun _ => h.agree_links agree) hi

include h in
theorem agree (agree : Agree d d' f lo hi) : Linked d' t f m lo hi :=
  h.congr (fun _ => h.agree_links agree) agree.type

end Linked

/-- One more block. -/
theorem Linked.push (h : Linked d t f m lo b) (few : m < nindirect) (low : lo ≤ b) (new : b < hi)
    (high : hi ≤ numBlock) (same : ∀ i < m, pointer d'.word f i = pointer d.word f i)
    (last : pointer d'.word f m = b) (types : ∀ x < b, d'.type x = d.type x) (type : d'.type b = t)
    (direct : m < ndirect → d'.word (fIndirect f) = 0)
    (index : ndirect ≤ m → lo ≤ d'.word (fIndirect f) ∧ d'.word (fIndirect f) < hi ∧
      d'.type (d'.word (fIndirect f)) = .index) :
    Linked d' t f (m + 1) lo hi := by
  have apart (i : Nat) (hi : i < m) : pointer d.word f i ≠ b := Nat.ne_of_lt (h.inside i hi).2.1
  refine ⟨h.place, h.below, h.low, high, few, fun i hi => ?_, direct,
    fun many => index (Nat.le_of_lt_succ many), fun i hi j hj eq => ?_⟩
  · rcases Nat.lt_succ_iff_lt_or_eq.mp hi with old | rfl
    · obtain ⟨low, below, type⟩ := h.inside i old
      rw [same i old, types _ below]
      exact ⟨low, below.trans new, type⟩
    · rw [last]
      exact ⟨low, new, type⟩
  · rcases Nat.lt_succ_iff_lt_or_eq.mp hi with hi | rfl <;>
      rcases Nat.lt_succ_iff_lt_or_eq.mp hj with hj | rfl
    · rw [same i hi, same j hj] at eq
      exact h.apart i hi j hj eq
    · rw [same i hi, last] at eq
      exact absurd eq (apart i hi)
    · rw [last, same j hj] at eq
      exact absurd eq.symm (apart j hj)
    · rfl

/-- What `save_block_link` does for block `m` of a file. -/
structure Pushed (d d' : Image) (f m b : Nat) : Prop where
  same : ∀ i < m, pointer d'.word f i = pointer d.word f i
  last : pointer d'.word f m = b
  index : d'.word (fIndirect f) = d.word (fIndirect f) ∨ b < d'.word (fIndirect f)
  rest : Extends (Links d f) d d'

/-- The pointer is stored in the indirect block. -/
theorem Linked.push_index {e : Image} {x : Nat} (h : Linked d t f m lo b) (low : lo ≤ b)
    (next : d.nextbno = b + 1) (sane : Sane e) (type : d.type b = t) (far : ndirect ≤ m)
    (few : m < nindirect) (ext : Extends (Links d f) d e)
    (word : e.word = Function.update d.word (fIndirect f) x)
    (inside : lo ≤ x ∧ x < e.nextbno ∧ e.type x = .index) (loose : Loose e b)
    (old : d.word (fIndirect f) = x ∨ d.word (fIndirect f) = 0 ∧ b < x)
    (run : (do store (blockWord (← load (fIndirect f)) m) b) e = some ((), d')) :
    Linked d' t f (m + 1) lo d'.nextbno ∧ Pushed d d' f m b := by
  have lo3 := h.low
  have below := h.below
  have place := h.place
  have small : x < 1024 := inside.2.1.trans_le sane.high
  have short : m < 1024 := few
  have taken := ext.next
  have room : b < 1024 := by
    have high : e.nextbno ≤ 1024 := sane.high
    omega
  have index : e.word (fIndirect f) = x := by rw [word, Function.update_self]
  obtain ⟨a, e', loaded, run⟩ := bind_some_iff.mp run
  cases loaded
  have exact_ : uInt b = b := Nat.mod_eq_of_lt (by omega)
  have there : blockWord x m = 1024 * x + m := by
    unfold blockWord page
    omega
  have block : (1024 * x + m) / 1024 = x := by omega
  have away : fIndirect f ≠ 1024 * x + m := by
    unfold fIndirect
    omega
  rw [index, there] at run
  obtain ⟨word', type', next'⟩ := store_some run
  rw [exact_] at word'
  have index' : d'.word (fIndirect f) = x := by rw [word', Function.update_of_ne away, index]
  have same (i : Nat) (hi : i < m) : pointer d'.word f i = pointer d.word f i := by
    by_cases direct : i < ndirect
    · have near : i < 10 := direct
      have apart : fDirect f i ≠ 1024 * x + m := by
        unfold fDirect
        omega
      have other : fDirect f i ≠ fIndirect f := by
        unfold fDirect fIndirect
        omega
      rw [pointer_direct direct, pointer_direct direct, word', Function.update_of_ne apart, word,
        Function.update_of_ne other]
    · have far' : ndirect ≤ i := Nat.le_of_not_lt direct
      have few' : i < nindirect := hi.trans few
      have many := h.index (far'.trans_lt hi)
      have kept : d.word (fIndirect f) = x := old.resolve_right fun new => by
        have nonzero := many.1
        omega
      have apart : 1024 * x + i ≠ 1024 * x + m := by omega
      have other : 1024 * x + i ≠ fIndirect f := by
        have short' : i < 1024 := few'
        unfold fIndirect
        omega
      rw [pointer_indirect far' few' (by rw [index']; omega) (by rw [index']; exact small), index',
        word', Function.update_of_ne apart, word, Function.update_of_ne other,
        pointer_indirect far' few' (by omega) (by rw [kept]; exact small), kept]
  have last : pointer d'.word f m = b := by
    rw [pointer_indirect far few (by rw [index']; omega) (by rw [index']; exact small), index',
      word', Function.update_self]
  have old_types (y : Nat) (hy : y ≤ b) : d'.type y = d.type y := by
    rw [type']
    exact ext.type y (by omega)
  have linked : Linked d' t f (m + 1) lo d'.nextbno := by
    refine h.push few low (by omega) ?_ same last (fun y hy => old_types y hy.le)
      ((old_types b (Nat.le_refl b)).trans type) (fun direct => absurd far (Nat.not_le.mpr direct))
      (fun _ => ?_)
    · rw [next']
      exact sane.high
    · rw [index', type', next']
      exact inside
  refine ⟨linked, same, last, ?_, ?_⟩
  · rw [index']
    exact old.imp Eq.symm And.right
  · have harmless : Harmless e (1024 * x + m) b := by
      right
      rw [exact_]
      exact loose
    apply ext.trans (store_ends (by rw [block]; exact inside.2.1) (fun _ => harmless) run)
    rintro w below rfl
    rw [block] at below
    have kept : d.word (fIndirect f) = x := old.resolve_right fun new => by omega
    exact .inr ⟨by omega, by rw [kept, block]⟩

/-- The pointer is stored in the `struct File`. -/
theorem Linked.push_direct (h : Linked d t f m lo b) (low : lo ≤ b) (next : d.nextbno = b + 1)
    (sane : Sane d) (type : d.type b = t) (loose : Loose d b) (direct : m < ndirect)
    (few : m < nindirect) (run : store (fDirect f m) b d = some ((), d')) :
    Linked d' t f (m + 1) lo d'.nextbno ∧ Pushed d d' f m b := by
  have room : b + 1 ≤ 1024 := next.symm.trans_le sane.high
  have exact_ : uInt b = b := Nat.mod_eq_of_lt (by omega)
  have place := h.place
  have below := h.below
  have near : m < 10 := direct
  obtain ⟨word, type', next'⟩ := store_some run
  rw [exact_] at word
  have other : fIndirect f ≠ fDirect f m := by
    unfold fDirect fIndirect
    omega
  have index' : d'.word (fIndirect f) = d.word (fIndirect f) := by
    rw [word, Function.update_of_ne other]
  have same (i : Nat) (hi : i < m) : pointer d'.word f i = pointer d.word f i := by
    have apart : fDirect f i ≠ fDirect f m := by
      unfold fDirect
      omega
    rw [pointer_direct (hi.trans direct), pointer_direct (hi.trans direct), word,
      Function.update_of_ne apart]
  have last : pointer d'.word f m = b := by rw [pointer_direct direct, word, Function.update_self]
  have linked : Linked d' t f (m + 1) lo d'.nextbno := by
    refine h.push few low (by omega) ?_ same last (fun _ _ => by rw [type']) (by rw [type', type])
      (fun _ => ?_) (fun far => absurd direct (Nat.not_lt.mpr far))
    · rw [next']
      exact sane.high
    · rw [index']
      exact h.direct direct.le
  have harmless : Harmless d (fDirect f m) b := by
    right
    rw [exact_]
    exact loose
  refine ⟨linked, same, last, .inl index', (store_ends ?_ (fun _ => harmless) run).mono ?_⟩
  · unfold fDirect
    omega
  · rintro w - rfl
    left
    unfold fDirect fIndirect
    omega

theorem saveBlockLink_links (h : Linked d t f m lo b) (low : lo ≤ b) (next : d.nextbno = b + 1)
    (sane : Sane d) (type : d.type b = t) (loose : Loose d b)
    (run : saveBlockLink f m b d = some ((), d')) :
    Linked d' t f (m + 1) lo d'.nextbno ∧ Pushed d d' f m b := by
  have place := h.place
  have below := h.below
  unfold saveBlockLink at run
  split at run
  · cases run
  · rename_i few
    have few : m < nindirect := Nat.lt_of_not_le few
    split at run
    · rename_i direct
      exact h.push_direct low next sane type loose direct few run
    · rename_i direct
      have far : ndirect ≤ m := Nat.le_of_not_lt direct
      obtain ⟨a, d₁, loaded, run⟩ := bind_some_iff.mp run
      cases loaded
      split at run
      · -- the first pointer behind the direct ones
        rename_i zero
        obtain ⟨x, d₁, taken, run⟩ := bind_some_iff.mp run
        obtain ⟨named, room, ext, next', word, type', loosen⟩ := nextBlock_some taken
        obtain ⟨loose', kept⟩ := loosen sane
        obtain ⟨⟨⟩, d₂, stored, run⟩ := bind_some_iff.mp run
        have room : x < 1024 := room
        have exact_ : uInt x = x := Nat.mod_eq_of_lt (by omega)
        obtain ⟨word₂, type₂, next₂⟩ := store_some stored
        have inside : fIndirect f / 1024 < d₁.nextbno := by
          unfold fIndirect
          omega
        have harmless : Harmless d₁ (fIndirect f) x := by
          right
          rw [exact_]
          exact loose'
        have ext' : Extends (Links d f) d d₂ := by
          apply (ext.mono fun _ _ no => no.elim).trans
            (store_ends inside (fun _ => harmless) stored)
          rintro w - rfl
          left
          unfold fDirect fIndirect
          omega
        refine h.push_index (x := x) low next (ext'.sane sane) type far few ext' ?_ ⟨?_, ?_, ?_⟩
          ((kept b loose).store (by omega) stored) (.inr ⟨zero, by omega⟩) run
        · rw [word₂, word, exact_]
        · omega
        · rw [next₂, next']
          exact Nat.lt_succ_self x
        · rw [type₂, type']
      · rename_i nonzero
        have many := h.many nonzero
        obtain ⟨low', below', type'⟩ := h.index many
        refine h.push_index low next sane type far few (Extends.refl _ d) ?_
          ⟨low', ?_, type'⟩ loose (.inl rfl) run
        · exact (Function.update_eq_self _ _).symm
        · rw [next]
          exact below'.trans (Nat.lt_succ_self b)

/-- The words of a block of another kind link no block of the file. -/
theorem Linked.no_link (h : Linked d t f m lo hi) (low : lo ≤ w / 1024)
    (type : d.type (w / 1024) ≠ .index) : ¬ Links d f w := by
  have place := h.place
  have below := h.below
  rintro (⟨first, last⟩ | ⟨nonzero, block⟩)
  · unfold fDirect at first
    unfold fIndirect at last
    omega
  · have many := h.many nonzero
    rw [block] at type
    exact type (h.index many).2.2

theorem Linked.links_below {n : Nat} (h : Linked d t f m lo hi) (low : lo ≤ n) (high : hi ≤ n)
    (links : Links d f w) : w / 1024 < n := by
  have place := h.place
  have below := h.below
  rcases links with ⟨first, last⟩ | ⟨nonzero, block⟩
  · unfold fDirect at first
    unfold fIndirect at last
    omega
  · have many := h.many nonzero
    rw [block]
    exact (h.index many).2.1.trans_le high

theorem Pushed.links (h : Pushed d d' f m b) (old : w / 1024 ≤ b) (links : Links d' f w) :
    Links d f w := by
  refine links.imp id fun ⟨nonzero, block⟩ => ?_
  cases h.index with
  | inl same =>
    rw [same] at nonzero block
    exact ⟨nonzero, block⟩
  | inr new => omega

/-! ## The contents of a file -/

/-- The bytes of a block. -/
def Shows (d : Image) (b : Nat) (bytes : List Nat) : Prop :=
  ∀ j < by2blk, cellByte d.word (by2blk * b + j) = bytes.getD j 0

theorem Shows.congr {bytes : List Nat} (h : Shows d b bytes)
    (same : ∀ w, w / 1024 = b → d'.word w = d.word w) : Shows d' b bytes := by
  intro j hj
  have block : (by2blk * b + j) / 4 / 1024 = b := by
    simp only [by2blk] at hj ⊢
    omega
  rw [← h j hj, cellByte, same _ block, cellByte]

theorem Shows.of_take {bytes : List Nat} (h : Shows d b (bytes.take by2blk)) : Shows d b bytes := by
  intro j hj
  rw [h j hj, List.getD_eq_getElem?_getD, List.getElem?_take_of_lt hj, List.getD_eq_getElem?_getD]

/-- `read` puts the bytes into the block that `next_block` takes. -/
theorem readBlock_shows {bytes : List Nat} (sane : Sane d) (fits : bytes.length ≤ by2blk)
    (small : ∀ x ∈ bytes, x < 256)
    (read : readBlock bytes d = some ((), d')) (taken : nextBlock .data d' = some (b, d'')) :
    b = d.nextbno ∧ d''.nextbno = b + 1 ∧ d''.type b = .data ∧ Loose d'' b ∧
      Extends (fun _ => False) d d'' ∧ Shows d'' b bytes := by
  unfold readBlock at read
  obtain ⟨e, e', got, read⟩ := bind_some_iff.mp read
  cases got
  split at read
  · rename_i room
    obtain ⟨c, run', byte, word⟩ := putBytes_eq (by2blk * d.nextbno) bytes d
    rw [run'] at read
    cases read
    rw [nextBlock, if_pos room] at taken
    cases taken
    have fits' : bytes.length ≤ 4096 := fits
    have other (w : Nat) (hw : w / 1024 ≠ d.nextbno) : c w = d.word w := by
      apply word
      rintro j low high rfl
      apply hw
      simp only [by2blk] at low high
      omega
    obtain ⟨sane', loose, -⟩ := sane.take (t := .data) (c := c) room
      (fun w hw => other w (hw.resolve_right fun no => no rfl)) rfl
    refine ⟨rfl, rfl, Function.update_self _ _ _, loose, ⟨Nat.le_succ _, fun b hb => ?_,
      fun w hw _ => other w (Nat.ne_of_lt hw), fun _ => sane'⟩, fun j hj => ?_⟩
    · exact Function.update_of_ne (Nat.ne_of_lt hb) _ _
    · show cellByte c (by2blk * d.nextbno + j) = _
      rw [byte]
      by_cases inside : j < bytes.length
      · rw [if_pos ⟨Nat.le_add_right _ _, Nat.add_lt_add_left inside _⟩, Nat.add_sub_cancel_left,
          List.getD_eq_getElem _ _ inside]
        exact Nat.mod_eq_of_lt (small _ (List.getElem_mem inside))
      · rw [if_neg (by omega), List.getD_eq_default _ _ (Nat.le_of_not_lt inside), cellByte]
        have block : (by2blk * d.nextbno + j) / 4 / 1024 = d.nextbno := by
          simp only [by2blk] at hj ⊢
          omega
        rw [sane.zero _ block.ge, Nat.zero_shiftRight]
  · cases read

/-- The number of blocks of a file of so many bytes. -/
def blocksOf (n : Nat) : Nat := (n + (by2blk - 1)) / by2blk

theorem writeBlocks_links {n : Nat} {content : List Nat} (turns : content.length ≤ by2blk * n)
    (h : Linked d .data f m lo d.nextbno) (low : lo ≤ d.nextbno) (sane : Sane d)
    (small : ∀ x ∈ content, x < 256) (run : writeBlocks f n m content d = some ((), d')) :
    Linked d' .data f (m + blocksOf content.length) lo d'.nextbno ∧
      (∀ i < m, pointer d'.word f i = pointer d.word f i) ∧
      (∀ i < blocksOf content.length,
        Shows d' (pointer d'.word f (m + i)) (content.drop (by2blk * i))) ∧
      Extends (Links d f) d d' := by
  induction n generalizing d m content with
  | zero =>
    have done : content = [] := List.eq_nil_of_length_eq_zero (Nat.le_zero.mp turns)
    cases run
    subst done
    exact ⟨h, fun _ _ => rfl, fun i hi => absurd hi (Nat.not_lt_zero _), Extends.refl _ _⟩
  | succ n ih =>
    unfold writeBlocks at run
    split at run
    · rename_i done
      cases run
      subst done
      exact ⟨h, fun _ _ => rfl, fun i hi => absurd hi (Nat.not_lt_zero _), Extends.refl _ _⟩
    · rename_i more
      obtain ⟨⟨⟩, d₀, read, run⟩ := bind_some_iff.mp run
      obtain ⟨b, d₁, taken, run⟩ := bind_some_iff.mp run
      obtain ⟨⟨⟩, d₂, linked, tail⟩ := bind_some_iff.mp run
      clear run
      have first : (content.take by2blk).length ≤ by2blk := List.length_take_le _ _
      obtain ⟨named, next, type, loose, ext, shows⟩ := readBlock_shows sane first
        (fun x hx => small x (List.mem_of_mem_take hx)) read taken
      subst named
      have sane₁ := ext.sane sane
      have below := h.below
      have agree₁ : Agree d d₁ f lo d.nextbno :=
        ext.agree h.place (by omega) (Nat.le_refl _) (fun _ _ => id) fun _ _ _ => id
      have h₁ := h.agree agree₁
      obtain ⟨h₂, pushed⟩ := saveBlockLink_links h₁ low next sane₁ type loose linked
      have sane₂ := pushed.rest.sane sane₁
      have grown := pushed.rest.next
      have some_ : 0 < content.length := List.length_pos_iff.mpr more
      have left : (content.drop by2blk).length = content.length - by2blk := List.length_drop
      have rest : blocksOf content.length = blocksOf (content.drop by2blk).length + 1 := by
        rw [left]
        simp only [blocksOf, by2blk]
        omega
      have turns' : (content.drop by2blk).length ≤ by2blk * n := by
        rw [left]
        simp only [by2blk] at turns ⊢
        omega
      obtain ⟨h', same', shows', ext'⟩ := ih turns' h₂ (by omega) sane₂
        (fun x hx => small x (List.mem_of_mem_drop hx)) tail
      -- the block that was read stays as it is
      have type₂ : d₂.type d.nextbno = .data := by rw [pushed.rest.type _ (by omega), type]
      have kept (w : Nat) (hw : w / 1024 = d.nextbno) : d'.word w = d₁.word w := by
        rw [ext'.word w (by omega), pushed.rest.word w (by omega)]
        · apply h₁.no_link (by omega)
          rw [hw, type]
          exact BlockType.noConfusion
        · apply h₂.no_link (by omega)
          rw [hw, type₂]
          exact BlockType.noConfusion
      refine ⟨?_, fun i hi => ?_, fun i hi => ?_, ?_⟩
      · rw [rest, Nat.add_comm _ 1, ← Nat.add_assoc]
        exact h'
      · rw [same' i (hi.trans (Nat.lt_succ_self m)), pushed.same i hi]
        exact h.agree_pointer agree₁ hi
      · cases i with
        | zero =>
          rw [Nat.add_zero, same' m (Nat.lt_succ_self m), pushed.last]
          apply (shows.congr kept).of_take
        | succ i =>
          have here := shows' i (by omega)
          rw [List.drop_drop, Nat.add_assoc, Nat.add_comm 1 i] at here
          rwa [Nat.mul_succ, Nat.add_comm (by2blk * i)]
      · have links (w : Nat) (hw : Links d₁ f w) : Links d f w := by
          unfold Links at hw ⊢
          rwa [agree₁.indirect] at hw
        have near : Extends (Links d f) d d₁ := ext.mono fun _ _ no => no.elim
        apply (near.trans pushed.rest fun w _ => links w).trans ext'
        exact fun w old hw => links w (pushed.links old.le hw)

end

end Format

end RiscvMos
