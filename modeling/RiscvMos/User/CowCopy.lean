import RiscvMos.User.CowRun

/-!
`memcpy` of `cow_entry`, word by word between the stores to the stack: what the copy has
of each word is what the page of the fault had when the word came up.
-/

namespace RiscvMos

/-- The exception stack after the stores before the first `n` words of `memcpy`. -/
def CowCode.words (code : CowCode) (f : Vpn → Nat) : Nat → Vpn → Nat
  | 0 => f
  | n + 1 => stored (code.word n) (code.words f n)

/-- Word `n` of the 1024 of a page. -/
def wordOf (f : Vpn → Nat) (n : Nat) : Nat :=
  let w := f ⟨n / 2 % 512, Nat.mod_lt _ (by decide)⟩
  if n % 2 = 0 then w % 2 ^ 32 else w / 2 ^ 32

theorem eq_of_wordOf {f g : Vpn → Nat} (h : ∀ n < 1024, wordOf f n = wordOf g n) : f = g := by
  funext i
  have small := i.isLt
  have low := h (2 * i) (by omega)
  have high := h (2 * i + 1) (by omega)
  have idx : (⟨(2 * i.val) / 2 % 512, Nat.mod_lt _ (by decide)⟩ : Vpn) = i := by
    apply Fin.ext
    show 2 * i.val / 2 % 512 = i
    omega
  have idx' : (⟨(2 * i.val + 1) / 2 % 512, Nat.mod_lt _ (by decide)⟩ : Vpn) = i := by
    apply Fin.ext
    show (2 * i.val + 1) / 2 % 512 = i
    omega
  unfold wordOf at low high
  simp only [idx, idx'] at low high
  rw [if_pos (by omega), if_pos (by omega)] at low
  rw [if_neg (by omega), if_neg (by omega)] at high
  omega

namespace Machine

open Pmap Forks

theorem wordIdx_ucow {n : Nat} (lt : n < 1024) :
    wordIdx (ucow + 4 * n) = ⟨n / 2 % 512, Nat.mod_lt _ (by decide)⟩ := by
  apply Fin.ext
  rw [show ucow + 4 * n = 4096 * ucowPage + 4 * n from rfl, wordIdx_page lt]
  show n / 2 = n / 2 % 512
  omega

/-- One word more of the copy. -/
theorem wordOf_copy (f g : Vpn → Nat) {n k : Nat} (lt : n < 1024) (lt' : k < 1024) :
    wordOf (Function.update f (wordIdx (ucow + 4 * n))
      (copyHalf (f (wordIdx (ucow + 4 * n))) (g (wordIdx (ucow + 4 * n))) n)) k =
      if k = n then wordOf g n else wordOf f k := by
  rw [wordIdx_ucow lt]
  unfold wordOf
  by_cases same : k / 2 = n / 2
  · have idx : (⟨k / 2 % 512, Nat.mod_lt _ (by decide)⟩ : Vpn) =
        ⟨n / 2 % 512, Nat.mod_lt _ (by decide)⟩ := Fin.ext (by simp only [same])
    simp only [idx, Function.update_self]
    by_cases even : n % 2 = 0
    · obtain ⟨low, high⟩ := copyHalf_even (f ⟨n / 2 % 512, Nat.mod_lt _ (by decide)⟩)
        (g ⟨n / 2 % 512, Nat.mod_lt _ (by decide)⟩) even
      by_cases eq : k = n
      · rw [if_pos eq, if_pos (by omega), if_pos even, low]
      · rw [if_neg eq, if_neg (by omega), if_neg (by omega), high]
    · obtain ⟨low, high⟩ := copyHalf_odd (f ⟨n / 2 % 512, Nat.mod_lt _ (by decide)⟩)
        (g ⟨n / 2 % 512, Nat.mod_lt _ (by decide)⟩) even
      by_cases eq : k = n
      · rw [if_pos eq, if_neg (by omega), if_neg even, high]
      · rw [if_neg eq, if_pos (by omega), if_pos (by omega), low]
  · have ne : (⟨k / 2 % 512, Nat.mod_lt _ (by decide)⟩ : Vpn) ≠
        ⟨n / 2 % 512, Nat.mod_lt _ (by decide)⟩ := fun eq => same (by
      have := Fin.mk.inj eq
      omega)
    have other : k ≠ n := by
      rintro rfl
      exact same rfl
    simp only [Function.update_of_ne ne, if_neg other]

section
variable {M K1 K0 : Nat → Prop} {c : EnvIdx} {m m' : Machine} {s s' : Pmap EnvIdx}
    {code : CowCode} {va p q r a b d n : Nat}

/-- A word goes to the page at `UCOW`. -/
theorem copyWord_some (live : s.pgdir c ≠ 0) (copy : s.place (c, ucowPage) = some (q, b))
    (lt : n < 1024) (out : Forks.copyWord s c va n = some s') :
    ∃ r, s.translate c .load (va / 4096 * 4096 + 4 * n) = some r ∧
      s.translate c .store (ucow + 4 * n) = some q ∧
      s' = s.storeWord q (ucow + 4 * n) (copyHalf (s.mem q (wordIdx (ucow + 4 * n)))
        (s.mem r (wordIdx (ucow + 4 * n))) n) := by
  obtain ⟨r, load, out⟩ := Option.bind_eq_some_iff.mp out
  obtain ⟨q', store, out⟩ := Option.bind_eq_some_iff.mp out
  have to_lt : ucow + 4 * n < ulim := by
    unfold ucow ulim
    omega
  have to_page : placeOf c (ucow + 4 * n) = (c, ucowPage) := by
    unfold placeOf ucowPage ucow
    congr 1
    omega
  obtain ⟨perm, there, -⟩ := translate_place live to_lt store
  rw [to_page] at there
  obtain ⟨rfl, -⟩ := Prod.mk.inj (Option.some.inj (there.symm.trans copy))
  have idx : wordIdx (va / 4096 * 4096 + 4 * n) = wordIdx (ucow + 4 * n) := by
    apply Fin.ext
    rw [Nat.mul_comm, wordIdx_page lt, show ucow + 4 * n = 4096 * ucowPage + 4 * n from rfl,
      wordIdx_page lt]
  rw [idx] at out
  exact ⟨r, load, store, (Option.some.inj out).symm⟩

theorem Serving.copies (h : Serving M K1 K0 c m)
    (here : m.kernel.pmap.place (uxplace c) = some (p, a))
    (copy : m.kernel.pmap.place (c, ucowPage) = some (q, b)) (ne : p ≠ q) (le : n ≤ 1024)
    (out : m.copyWords c code va n = some m') :
    Serving M K1 K0 c m' ∧
      Stacked c p (· = q) (fun f => code.words f n) m.kernel.pmap m'.kernel.pmap := by
  induction n generalizing m' with
  | zero =>
    obtain rfl := Option.some.inj out
    exact ⟨h, .refl here⟩
  | succ n ih =>
    obtain ⟨m₁, before, out⟩ := Option.bind_eq_some_iff.mp out
    obtain ⟨m₂, pushed, out⟩ := Option.bind_eq_some_iff.mp out
    obtain ⟨s, word, out⟩ := Option.bind_eq_some_iff.mp out
    obtain rfl := Option.some.inj out
    obtain ⟨h₁, copied⟩ := ih (Nat.le_of_succ_le le) before
    obtain ⟨a₁, here₁⟩ := copied.here
    obtain ⟨h₂, stacked⟩ := h₁.pushes here₁ pushed
    have copied₂ := Stacked.trans (g := stored (code.word n)) here copied stacked
    have off : (c, ucowPage) ≠ uxplace c := fun eq => absurd (Prod.mk.inj eq).2 (by decide)
    have copy₂ := (copied₂.off _ off).trans copy
    obtain ⟨r, -, store, rfl⟩ := copyWord_some h₂.live copy₂ le word
    have same := writePage_place (h₂.userApart.place copy₂)
    refine ⟨⟨h₂.secure.store h₂.current store _, h₂.current⟩, ?_, fun y ny => ?_, ?_,
      fun y x e there nx off => ?_, copied₂.refs⟩
    · obtain ⟨a₂, here₂⟩ := copied₂.here
      exact ⟨a₂, (same _ _).trans here₂⟩
    · exact (same _ y).trans (copied₂.off y ny)
    · exact (Function.update_of_ne ne _ _).trans copied₂.stack
    · exact (Function.update_of_ne off _ _).trans (copied₂.data y x e there nx off)

/-- What the page of the fault has when word `n` comes up. -/
def seen (code : CowCode) (s : Pmap EnvIdx) (p r n : Nat) : Vpn → Nat :=
  if r = p then code.words (s.mem p) (n + 1) else s.mem r

theorem Serving.copied (h : Serving M K1 K0 c m)
    (here : m.kernel.pmap.place (uxplace c) = some (p, a))
    (copy : m.kernel.pmap.place (c, ucowPage) = some (q, b)) (ne : p ≠ q) (hva : va < ulim)
    (src : m.kernel.pmap.place (placeOf c va) = some (r, d)) (apart : r ≠ q) (le : n ≤ 1024)
    (out : m.copyWords c code va n = some m') {k : Nat} (lt : k < n) :
    wordOf (m'.kernel.pmap.mem q) k = wordOf (seen code m.kernel.pmap p r k) k := by
  induction n generalizing m' with
  | zero => exact absurd lt (Nat.not_lt_zero _)
  | succ n ih =>
    obtain ⟨m₁, before, out⟩ := Option.bind_eq_some_iff.mp out
    obtain ⟨m₂, pushed, out⟩ := Option.bind_eq_some_iff.mp out
    obtain ⟨s, word, out⟩ := Option.bind_eq_some_iff.mp out
    obtain rfl := Option.some.inj out
    obtain ⟨h₁, copied⟩ := h.copies here copy ne (Nat.le_of_succ_le le) before
    obtain ⟨a₁, here₁⟩ := copied.here
    obtain ⟨h₂, stacked⟩ := h₁.pushes (W := (· = q)) here₁ pushed
    have kept := (h₁.pushes (W := fun _ => False) here₁ pushed).2
    have copied₂ := Stacked.trans (g := stored (code.word n)) here copied stacked
    have off : (c, ucowPage) ≠ uxplace c := fun eq => absurd (Prod.mk.inj eq).2 (by decide)
    have copy₁ := (copied.off _ off).trans copy
    have copy₂ := (copied₂.off _ off).trans copy
    obtain ⟨r', load, -, rfl⟩ := copyWord_some h₂.live copy₂ le word
    have from_lt : va / 4096 * 4096 + 4 * n < ulim := by
      unfold ulim at hva ⊢
      omega
    have from_page : placeOf c (va / 4096 * 4096 + 4 * n) = placeOf c va := by
      unfold placeOf
      congr 1
      omega
    have src₂ : ∃ d, m₂.kernel.pmap.place (placeOf c va) = some (r, d) := by
      by_cases eq : placeOf c va = uxplace c
      · rw [eq] at src ⊢
        obtain ⟨rfl, -⟩ := Prod.mk.inj (Option.some.inj (src.symm.trans here))
        exact copied₂.here
      · exact ⟨d, (copied₂.off _ eq).trans src⟩
    obtain ⟨d', src₂⟩ := src₂
    obtain ⟨perm, there, -⟩ := translate_place h₂.live from_lt load
    rw [from_page] at there
    obtain ⟨rfl, -⟩ := Prod.mk.inj (Option.some.inj (there.symm.trans src₂))
    have shown : m₂.kernel.pmap.mem r' = seen code m.kernel.pmap p r' n := by
      unfold seen
      split
      · rename_i eq
        rw [eq]
        exact copied₂.stack
      · rename_i other
        exact copied₂.data _ r' d src other apart
    have old : m₂.kernel.pmap.mem q = m₁.kernel.pmap.mem q := kept.data _ q b copy₁ ne.symm id
    have new (w : Nat) : (m₂.kernel.pmap.storeWord q (ucow + 4 * n) w).mem q =
        Function.update (m₂.kernel.pmap.mem q) (wordIdx (ucow + 4 * n)) w :=
      Function.update_self _ _ _
    refine (congrArg (wordOf · k) (new _)).trans ?_
    rw [wordOf_copy _ _ le (by omega)]
    split
    · rename_i eq
      rw [eq, shown]
    · rename_i earlier
      rw [old]
      exact ih (Nat.le_of_succ_le le) before (by omega)

end

end Machine

end RiscvMos
