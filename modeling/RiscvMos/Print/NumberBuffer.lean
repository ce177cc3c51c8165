import RiscvMos.Print.Numbers

/-!
`print_num` with every access to its buffer checked against `buf[length + 70]`: what it
passes to `out`, for every number, base, width and padding.
-/

namespace RiscvMos.Print

open Numeral (digitsOf divLoop)

/-- `buf[i] = c`, in a buffer of that size. -/
def storeIn (size i : Nat) (c : Char) (buf : Buf) : Option Buf :=
  if i < size then some (Function.update buf i c) else none

def loadIn (size i : Nat) (buf : Buf) : Option Char := if i < size then some (buf i) else none

/-- The loop over the digits, with `p - buf`. -/
def storeDigitsIn (size base : Nat) (upcase : Bool) : Nat → Nat → Nat × Buf → Option (Nat × Buf)
  | 0, _, _ => none
  | turns + 1, u, (p, buf) =>
    (storeIn size p (digitChar upcase (u % base)) buf).bind fun buf =>
      if u / base = 0 then some (p + 1, buf)
      else storeDigitsIn size base upcase turns (u / base) (p + 1, buf)

/-- A loop that stores `padc` in `n` places from `i` on. -/
def fillIn (size : Nat) (padc : Char) : Nat → Nat → Buf → Option Buf
  | 0, _, buf => some buf
  | n + 1, i, buf => (storeIn size i padc buf).bind (fillIn size padc n (i + 1))

/-- The loop that reverses the string from `begin` to `last`. -/
def reverseIn (size : Nat) : Nat → Nat → Nat → Buf → Option Buf
  | 0, start, last, buf => if start < last then none else some buf
  | turns + 1, start, last, buf =>
    if start < last then do
      let tmp ← loadIn size start buf
      let c ← loadIn size last buf
      let buf ← storeIn size start c buf
      let buf ← storeIn size last tmp buf
      reverseIn size turns (start + 1) (last - 1) buf
    else some buf

/-- `out` reads the first `length` characters. -/
def outIn (size length : Nat) (buf : Buf) : Option (List Char) :=
  if length ≤ size then some ((List.range length).map buf) else none

/-- The sign, behind the digits. -/
def signIn (size : Nat) (neg : Bool) (p : Nat) (buf : Buf) : Option (Nat × Buf) :=
  if neg = true then (storeIn size p '-' buf).map (p + 1, ·) else some (p, buf)

/-- The padding up to `length`; zeros go below the sign. -/
def padIn (size : Nat) (neg ladjust : Bool) (padc : Char) (length p : Nat)
    (buf : Buf) : Option Buf :=
  if neg = true ∧ ladjust = false ∧ padc = '0' then
    (fillIn size padc (length - p) (p - 1) buf).bind (storeIn size (length - 1) '-')
  else fillIn size padc (length - p) p buf

/-- `print_num`. -/
def printNumIn (u base : Nat) (neg : Bool) (length : Nat) (ladjust : Bool) (padc : Char)
    (upcase : Bool) :
    Option (List Char) :=
  let size := length + 70
  -- `char buf[length + 70]`
  if 2 ^ 31 ≤ size then none
  else do
    let (p, buf) ← storeDigitsIn size base upcase maxDigits u (0, fun _ => ' ')
    let (p, buf) ← signIn size neg p buf
    let length := max length p
    let buf ← padIn size neg ladjust (if ladjust = true then ' ' else padc) length p buf
    let buf ← reverseIn size length 0 (if ladjust = true then p - 1 else length - 1) buf
    outIn size length buf

section
variable {size base turns u p n i start last length : Nat} {upcase neg ladjust : Bool}
    {buf : Buf} {padc : Char}

theorem storeDigitsIn_eq (fits : p + (turns + 1) ≤ size) (small : u < base ^ (turns + 1)) :
    storeDigitsIn size base upcase (turns + 1) u (p, buf) =
    some (storeDigits base upcase (turns + 1) u (p, buf)) := by
  induction turns generalizing u p buf with
  | zero =>
    have done : u / base = 0 := Nat.div_eq_of_lt (by rw [Nat.pow_one] at small; exact small)
    unfold storeDigitsIn storeDigits
    rw [storeIn, if_pos (by omega), Option.bind_some, if_pos done, if_pos done]
  | succ turns ih =>
    unfold storeDigitsIn storeDigits
    rw [storeIn, if_pos (by omega), Option.bind_some]
    by_cases done : u / base = 0
    · rw [if_pos done, if_pos done]
    · rw [if_neg done, if_neg done]
      apply ih
      · omega
      · rw [Nat.pow_succ'] at small
        exact Nat.div_lt_of_lt_mul small

theorem fillIn_eq (fits : i + n ≤ size) : fillIn size padc n i buf = some (fill padc n i buf) := by
  induction n generalizing i buf with
  | zero => rfl
  | succ n ih =>
    unfold fillIn fill
    rw [storeIn, if_pos (by omega), Option.bind_some]
    apply ih
    omega

theorem reverseIn_eq (fits : last < size) (enough : last ≤ start + turns) :
    reverseIn size turns start last buf = some (reverse turns start last buf) := by
  induction turns generalizing start last buf with
  | zero =>
    unfold reverseIn reverse
    rw [if_neg (by omega)]
  | succ turns ih =>
    unfold reverseIn reverse
    by_cases more : start < last
    · rw [if_pos more, if_pos more]
      have low : start < size := Nat.lt_trans more fits
      simp only [loadIn, storeIn, if_pos low, if_pos fits, Option.bind_eq_bind, Option.bind_some]
      apply ih
      · omega
      · omega
    · rw [if_neg more, if_neg more]

theorem divLoop_length (turns u : Nat) : (divLoop base turns u).length ≤ turns := by
  induction turns generalizing u with
  | zero => exact Nat.le_refl 0
  | succ turns ih =>
    unfold divLoop
    by_cases done : u / base = 0
    · rw [if_pos done]
      exact Nat.succ_le_succ (Nat.zero_le turns)
    · rw [if_neg done]
      exact Nat.succ_le_succ (ih (u / base))

theorem padIn_eq (some_ : 1 ≤ p) (fits : p ≤ length) (room : length ≤ size) :
    padIn size neg ladjust padc length p buf =
      some (if neg = true ∧ ladjust = false ∧ padc = '0' then
        Function.update (fill padc (length - p) (p - 1) buf) (length - 1) '-'
      else fill padc (length - p) p buf) := by
  unfold padIn
  by_cases signed : neg = true ∧ ladjust = false ∧ padc = '0'
  · rw [if_pos signed, if_pos signed, fillIn_eq (by omega), Option.bind_some, storeIn,
      if_pos (by omega)]
  · rw [if_neg signed, if_neg signed, fillIn_eq (by omega)]

/-- The checked accesses are those of `print_num`. -/
theorem printNumIn_eq (hb : 2 ≤ base) (hu : u < 2 ^ 64) (hlen : length + 70 < 2 ^ 31) :
    printNumIn u base neg length ladjust padc upcase =
    printNum u base neg length ladjust padc upcase := by
  have bound : u < base ^ (63 + 1) := Nat.lt_of_lt_of_le hu (Nat.pow_le_pow_left hb 64)
  have room : 0 + (63 + 1) ≤ length + 70 := Nat.le_trans (by decide) (Nat.le_add_left 70 length)
  have digits : storeDigitsIn (length + 70) base upcase maxDigits u (0, fun _ => ' ') =
      some (storeDigits base upcase maxDigits u (0, fun _ => ' ')) :=
    @storeDigitsIn_eq (length + 70) base 63 u 0 upcase (fun _ => ' ') room bound
  have count := (storeDigits_chars base upcase maxDigits u 0 fun _ => ' ').1
  have few : (divLoop base maxDigits u).length ≤ 64 := divLoop_length 64 u
  have some_ : 1 ≤ (divLoop base maxDigits u).length := by
    rw [maxDigits, divLoop, List.length_cons]
    exact Nat.succ_le_succ (Nat.zero_le _)
  have small : ¬2 ^ 31 ≤ length + 70 := Nat.not_le.mpr hlen
  have finish : ∀ p buf, 1 ≤ p → p ≤ 65 →
      ((padIn (length + 70) neg ladjust (if ladjust = true then ' ' else padc)
        (max length p) p buf).bind fun buf =>
        (reverseIn (length + 70) (max length p) 0
          (if ladjust = true then p - 1 else max length p - 1) buf).bind
          (outIn (length + 70) (max length p))) =
        some ((List.range (max length p)).map
          (reverse (max length p) 0 (if ladjust = true then p - 1 else max length p - 1)
            (if neg = true ∧ ladjust = false ∧ (if ladjust = true then ' ' else padc) = '0' then
              Function.update
              (fill (if ladjust = true then ' ' else padc) (max length p - p) (p - 1) buf)
                (max length p - 1) '-'
            else fill (if ladjust = true then ' ' else padc) (max length p - p) p buf))) := by
    intro p buf low high
    have last : (if ladjust = true then p - 1 else max length p - 1) < max length p := by
      split_ifs
      · omega
      · omega
    rw [padIn_eq low (Nat.le_max_right length p) (by omega), Option.bind_some,
      reverseIn_eq (by omega) (by omega), Option.bind_some, outIn, if_pos (by omega)]
  unfold printNumIn printNum
  simp only [if_neg small, digits, Option.bind_eq_bind, Option.bind_some]
  generalize storeDigits base upcase maxDigits u (0, fun _ => ' ') = pb at count
  obtain ⟨p, buf⟩ := pb
  simp only at count
  cases neg with
  | true =>
    have inside : p < length + 70 := by omega
    have signed : signIn (length + 70) true p buf = some (p + 1, Function.update buf p '-') := by
      rw [signIn, if_pos rfl, storeIn, if_pos inside]
      rfl
    rw [signed]
    exact finish (p + 1) _ (Nat.succ_le_succ (Nat.zero_le p)) (by omega)
  | false => exact finish p buf (by omega) (by omega)

/-- Digits of a base, the first of them not 0 unless it is the only one. -/
structure IsNumeral (base : Nat) (upcase : Bool) (ds : List Char) : Prop where
  digits : ∀ c ∈ ds, ∃ d < base, c = digitChar upcase d
  some_ : ds ≠ []
  leading : ds.head? = some '0' → ds = ['0']

theorem numeral_isNumeral (hb : 2 ≤ base) (hb' : base ≤ 16) :
    IsNumeral base upcase (numeral u base upcase) := by
  constructor
  · intro c member
    obtain ⟨d, digit, same⟩ := List.mem_map.mp member
    exact ⟨d, Numeral.digitsOf_lt hb digit, same.symm⟩
  · exact numeral_ne_nil u base upcase
  · intro zero
    by_cases none_ : u = 0
    · rw [numeral, digitsOf, if_pos none_]
      rfl
    · obtain ⟨d, head, char⟩ := Option.map_eq_some_iff.mp (List.head?_map.symm.trans zero)
      have less : d < base := Numeral.digitsOf_lt hb (List.mem_of_head? head)
      have value := digitVal_digitChar upcase d (Nat.lt_of_lt_of_le less hb')
      rw [char] at value
      have first : d = 0 := (Option.some.inj value).symm
      rw [digitsOf, if_neg none_, List.head?_reverse,
        List.getLast?_eq_some_getLast (Nat.digits_ne_nil_iff_ne_zero.mpr none_)] at head
      exact absurd ((Option.some.inj head).trans first) (Nat.getLast_digit_ne_zero base none_)

theorem layOut_length (ds : List Char) :
    (layOut neg ds length ladjust padc).length =
    max length (ds.length + if neg = true then 1 else 0) := by
  have body : (if neg = true then '-' :: ds else ds).length = ds.length + if neg = true then 1
      else 0 := by
    cases neg with
    | true => rfl
    | false => rfl
  unfold layOut
  cases ladjust with
  | true =>
    rw [if_pos rfl, List.length_append, List.length_replicate, body]
    omega
  | false =>
    rw [if_neg Bool.false_ne_true]
    by_cases zero : neg = true ∧ padc = '0'
    · rw [if_pos zero, List.length_cons, List.length_append, List.length_replicate,
        body, if_pos zero.1]
      omega
    · rw [if_neg zero, List.length_append, List.length_replicate, body]
      omega

/-- What `print_num` passes to `out` is the number, laid out in the width. -/
def RendersNum (u base : Nat) (neg : Bool) (length : Nat) (ladjust : Bool) (padc : Char)
    (upcase : Bool) : Prop :=
  ∃ ds text, printNumIn u base neg length ladjust padc upcase = some text ∧
    IsNumeral base upcase ds ∧
    Numeral.read digitVal base ds 0 = u ∧ text = layOut neg ds length ladjust padc ∧
    text.length = max length (ds.length + if neg = true then 1 else 0)

/-- `print_num` renders every number, as long as the size of its buffer is an `int`. -/
theorem printNum_renders_iff (hb : 2 ≤ base) (hb' : base ≤ 16) (hu : u < 2 ^ 64) :
    RendersNum u base neg length ladjust padc upcase ↔ length + 70 < 2 ^ 31 := by
  constructor
  · rintro ⟨ds, text, run, -⟩
    by_contra large
    rw [printNumIn, if_pos (Nat.not_lt.mp large)] at run
    cases run
  · intro hlen
    have value := read_numeral u upcase hb hb'
    refine ⟨numeral u base upcase, _, ?_, numeral_isNumeral hb hb', value, rfl, layOut_length _⟩
    rw [printNumIn_eq hb hu hlen, printNum_eq neg ladjust upcase hb hu hlen]

/-- `%05d` of -12. -/
theorem printNum_renders_twelve : RendersNum 12 10 true 5 false '0' false ↔ 5 + 70 < 2 ^ 31 :=
  printNum_renders_iff (by decide) (by decide) (by decide)

/-- A width for which `length + 70` is no `int`. -/
theorem printNum_overflows : ¬RendersNum 12 10 false (2 ^ 31 - 1) false ' ' false := by
  rintro ⟨ds, text, run, -⟩
  rw [printNumIn, if_pos (by decide)] at run
  cases run

end

end RiscvMos.Print
