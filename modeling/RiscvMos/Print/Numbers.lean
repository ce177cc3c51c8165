import RiscvMos.Lib.Buffer
import RiscvMos.Print.Vprintfmt
import Mathlib.Algebra.Order.Ring.Nat
import Mathlib.Tactic.IntervalCases

/-!
The conversions of numbers: what a format directive stands for, what `print_num`
lays out, and the arguments for which `vprintfmt` prints the number it is given.
-/

namespace RiscvMos.Print

open Numeral (digitsOf divLoop)

section Buffers
variable {buf : Buf} {n i : Nat}

/-- The first characters of a buffer. -/
def chars (n : Nat) (buf : Buf) : List Char := (List.range n).map buf

theorem chars_length (n : Nat) (buf : Buf) : (chars n buf).length = n := Buffer.first_length n buf

theorem chars_update (p : Nat) (buf : Buf) (c : Char) :
    chars (p + 1) (Function.update buf p c) = chars p buf ++ [c] := Buffer.first_update p buf c

theorem storeDigits_chars (base : Nat) (upcase : Bool) (turns u p : Nat) (buf : Buf) :
    (storeDigits base upcase turns u (p, buf)).1 = p + (divLoop base turns u).length ∧
      chars (storeDigits base upcase turns u (p, buf)).1
      (storeDigits base upcase turns u (p, buf)).2 =
        chars p buf ++ (divLoop base turns u).map (digitChar upcase) := by
  induction turns generalizing u p buf with
  | zero =>
    constructor
    · rfl
    · exact (List.append_nil _).symm
  | succ turns ih =>
    have first := chars_update p buf (digitChar upcase (u % base))
    by_cases last : u / base = 0
    · simp only [storeDigits, divLoop, last, if_true, List.length_singleton,
        List.map_singleton, true_and]
      exact first
    · have rest := ih (u / base) (p + 1) (Function.update buf p (digitChar upcase (u % base)))
      simp only [storeDigits, divLoop, last, if_false, List.length_cons, List.map_cons]
      constructor
      · rw [rest.1]
        omega
      · rw [rest.2, first, List.append_assoc, List.singleton_append]

theorem fill_chars (padc : Char) (n i : Nat) (buf : Buf) :
    chars (i + n) (fill padc n i buf) = chars i buf ++ List.replicate n padc := by
  induction n generalizing i buf with
  | zero => exact (List.append_nil _).symm
  | succ n ih =>
    have rest := ih (i + 1) (Function.update buf i padc)
    rw [chars_update, List.append_assoc, List.singleton_append, ← List.replicate_succ] at rest
    rw [← rest, fill, Nat.add_right_comm, Nat.add_assoc]

theorem reverse_eq (turns start last : Nat) (buf : Buf) :
    reverse turns start last buf = Buffer.turn turns start last buf := by
  induction turns generalizing start last buf with
  | zero => rfl
  | succ turns ih =>
    unfold reverse Buffer.turn
    rw [ih]

/-- The loop turns the first part around. -/
theorem reverse_chars {a b : List Char} (hbuf : chars n buf = a ++ b) (ha : a ≠ []) :
    chars n (reverse n 0 (a.length - 1) buf) = a.reverse ++ b := by
  have total : (a ++ b).length = n := by
    rw [← hbuf, chars_length]
  rw [List.length_append] at total
  rw [reverse_eq]
  exact Buffer.first_turn n hbuf ha (by omega)

end Buffers

/-- What `print_num` is for: the digits with their sign, padded to the width. If left
adjusted, there is no `'0'` padding; if negative, it stands between sign and number. -/
def layOut (neg : Bool) (digits : List Char) (length : Nat) (ladjust : Bool)
    (padc : Char) : List Char :=
  let body := if neg = true then '-' :: digits else digits
  if ladjust = true then body ++ List.replicate (length - body.length) ' '
  else if neg = true ∧ padc = '0' then '-' :: (List.replicate (length - body.length) '0' ++ digits)
  else List.replicate (length - body.length) padc ++ body

/-- The digits of a number, in the letters asked for. -/
def numeral (u base : Nat) (upcase : Bool) : List Char := (digitsOf base u).map (digitChar upcase)

theorem numeral_ne_nil (u base : Nat) (upcase : Bool) : numeral u base upcase ≠ [] := by
  intro none
  have digits : digitsOf base u = [] := List.map_eq_nil_iff.mp none
  unfold digitsOf at digits
  by_cases zero : u = 0
  · rw [if_pos zero] at digits
    cases digits
  · rw [if_neg zero, List.reverse_eq_nil_iff] at digits
    exact zero (Nat.digits_eq_nil_iff_eq_zero.mp digits)

section Padding
variable {buf : Buf} {body ds : List Char}

/-- Left adjusted: spaces behind, and only the number is turned around. -/
theorem padded_left (h : chars body.length buf = body.reverse) (ne : body ≠ []) (length : Nat) :
    chars (max length body.length)
        (reverse (max length body.length) 0 (body.length - 1)
          (fill ' ' (max length body.length - body.length) body.length buf)) =
      body ++ List.replicate (length - body.length) ' ' := by
  have filled := fill_chars ' ' (max length body.length - body.length) body.length buf
  rw [h, show body.length + (max length body.length - body.length) =
    max length body.length by omega,
    show max length body.length - body.length = length - body.length by omega] at filled
  have turned := reverse_chars filled (by rw [ne_eq, List.reverse_eq_nil_iff]; exact ne)
  rw [List.length_reverse, List.reverse_reverse] at turned
  rw [show max length body.length - body.length = length - body.length by omega]
  exact turned

/-- A buffer that is turned around as a whole. -/
theorem turned_around {n : Nat} {text : List Char} (h : chars n buf = text) (ne : text ≠ []) :
    chars n (reverse n 0 (n - 1) buf) = text.reverse := by
  have length : n = text.length := by
    rw [← h, chars_length]
  have turned := reverse_chars (b := []) (by rw [List.append_nil]; exact h) ne
  rw [List.append_nil, ← length] at turned
  exact turned

/-- Right adjusted: the padding is stored behind the number. -/
theorem padded_right (h : chars body.length buf = body.reverse) (ne : body ≠ [])
    (length : Nat) (padc : Char) :
    chars (max length body.length)
        (reverse (max length body.length) 0 (max length body.length - 1)
          (fill padc (max length body.length - body.length) body.length buf)) =
      List.replicate (length - body.length) padc ++ body := by
  have filled := fill_chars padc (max length body.length - body.length) body.length buf
  rw [h, show body.length + (max length body.length - body.length) =
    max length body.length by omega,
    show max length body.length - body.length = length - body.length by omega] at filled
  have turned := turned_around filled (by
    intro none
    exact ne (List.reverse_eq_nil_iff.mp (List.append_eq_nil_iff.mp none).1))
  rw [List.reverse_append, List.reverse_reverse, List.reverse_replicate] at turned
  rw [show max length body.length - body.length = length - body.length by omega]
  exact turned

/-- Zeros between sign and number: they go over the sign, which is stored again behind them. -/
theorem padded_zero (h : chars ds.length buf = ds.reverse) (length : Nat) :
    chars (max length (ds.length + 1))
        (reverse (max length (ds.length + 1)) 0 (max length (ds.length + 1) - 1)
          (Function.update (fill '0' (max length (ds.length + 1) - (ds.length + 1)) ds.length buf)
            (max length (ds.length + 1) - 1) '-')) =
      '-' :: (List.replicate (length - (ds.length + 1)) '0' ++ ds) := by
  have filled := fill_chars '0' (max length (ds.length + 1) - (ds.length + 1)) ds.length buf
  rw [h, show ds.length + (max length (ds.length + 1) - (ds.length + 1)) =
    max length (ds.length + 1) - 1 by omega,
    show max length (ds.length + 1) - (ds.length + 1) = length - (ds.length + 1) by omega] at filled
  have stored := chars_update (max length (ds.length + 1) - 1)
    (fill '0' (length - (ds.length + 1)) ds.length buf) '-'
  rw [filled, show max length (ds.length + 1) - 1 + 1 =
    max length (ds.length + 1) by omega] at stored
  have turned :=
    turned_around stored (List.append_ne_nil_of_right_ne_nil _ (List.cons_ne_nil '-' []))
  rw [List.reverse_append, List.reverse_append, List.reverse_reverse,
    List.reverse_replicate] at turned
  rw [show max length (ds.length + 1) - (ds.length + 1) = length - (ds.length + 1) by omega]
  exact turned

end Padding

theorem printNum_eq {u base length : Nat} {padc : Char} (neg ladjust upcase : Bool) (hb : 2 ≤ base)
    (hu : u < 2 ^ 64) (hlen : length + 70 < 2 ^ 31) :
    printNum u base neg length ladjust padc upcase =
      some (layOut neg (numeral u base upcase) length ladjust padc) := by
  have bound : u < base ^ (63 + 1) := Nat.lt_of_lt_of_le hu (Nat.pow_le_pow_left hb 64)
  have stored := storeDigits_chars base upcase maxDigits u 0 fun _ => ' '
  have ne := numeral_ne_nil u base upcase
  unfold printNum layOut
  rw [if_neg (by omega)]
  generalize storeDigits base upcase maxDigits u (0, fun _ => ' ') = pb at stored ⊢
  obtain ⟨p, buf⟩ := pb
  rw [maxDigits, Numeral.divLoop_eq hb bound, List.length_reverse, Nat.zero_add,
    List.map_reverse] at stored
  have digits : numeral u base upcase = (digitsOf base u).map (digitChar upcase) := rfl
  rw [← digits] at stored
  have size : p = (numeral u base upcase).length := by
    rw [digits, List.length_map]
    exact stored.1
  subst size
  have held : chars (numeral u base upcase).length buf = (numeral u base upcase).reverse := stored.2
  generalize numeral u base upcase = ds at *
  cases neg with
  | false =>
    simp only [Bool.false_eq_true, if_false, false_and]
    cases ladjust with
    | true => exact congrArg some (padded_left held ne length)
    | false => exact congrArg some (padded_right held ne length padc)
  | true =>
    have signed : chars (('-' :: ds).length) (Function.update buf ds.length '-') =
        ('-' :: ds).reverse := by
      rw [List.length_cons, chars_update, held, List.reverse_cons]
    simp only [if_true]
    cases ladjust with
    | true =>
      simp only [Bool.true_eq_false, false_and, and_false, if_false, if_true]
      exact congrArg some (padded_left signed (List.cons_ne_nil _ _) length)
    | false =>
      by_cases zero : padc = '0'
      · subst zero
        have before : chars ds.length (Function.update buf ds.length '-') = ds.reverse := by
          rw [← held]
          apply List.map_congr_left
          intro i hi
          exact Function.update_of_ne (Nat.ne_of_lt (List.mem_range.mp hi)) _ buf
        simp only [Bool.false_eq_true, if_false, and_self, if_true]
        exact congrArg some (padded_zero before length)
      · simp only [zero, and_false, if_false, Bool.false_eq_true]
        exact congrArg some (padded_right signed (List.cons_ne_nil _ _) length padc)

/-- The digit that a character stands for. -/
def digitVal (c : Char) : Option Nat :=
  if isDigit c = true then some (c.toNat - 48)
  else if ('A' ≤ c && c ≤ 'Z') = true then some (c.toNat - 55)
  else if ('a' ≤ c && c ≤ 'z') = true then some (c.toNat - 87)
  else none

theorem digitVal_digitChar (upcase : Bool) (d : Nat) (hd : d < 16) :
    digitVal (digitChar upcase d) = some d := by
  cases upcase <;> interval_cases d <;> rfl

/-- Nothing that pads a number is taken for a part of it. -/
theorem digitVal_plain {c : Char} (h : plain c = false) :
    digitVal c = none ∨ digitVal c = some 0 := by
  simp only [plain, Bool.or_eq_false_iff] at h
  simp only [digitVal, h.1.2, h.2, Bool.false_eq_true, if_false]
  by_cases digit : isDigit c = true
  · rw [if_pos digit]
    simp only [isDigit, Bool.and_eq_true, decide_eq_true_eq] at digit
    have low : ¬ '1' ≤ c := by
      intro one
      have nine := h.1.1
      simp only [one, digit.2, decide_true, Bool.and_self, Bool.true_eq_false] at nine
    have zero : c.toNat = 48 := by
      have above : 48 ≤ c.toNat := digit.1
      have below : ¬ 49 ≤ c.toNat := low
      omega
    rw [zero]
    exact Or.inr rfl
  · rw [if_neg digit]
    exact Or.inl rfl

theorem read_numeral {base : Nat} (u : Nat) (upcase : Bool) (hb : 2 ≤ base) (hb' : base ≤ 16) :
    Numeral.read digitVal base (numeral u base upcase) 0 = u := by
  rw [numeral,
    Numeral.read_map (fun d hd => digitVal_digitChar upcase d (Nat.lt_of_lt_of_le hd hb'))
    fun d => Numeral.digitsOf_lt hb]
  exact Numeral.digitsOf_value base u

/-- A number is read back from what is laid out for it. -/
theorem read_layOut {base : Nat} {padc : Char} (u length : Nat) (neg ladjust upcase : Bool)
    (hb : 2 ≤ base) (hb' : base ≤ 16) (hpad : plain padc = false) :
    Numeral.read digitVal base (layOut neg (numeral u base upcase) length ladjust padc) 0 = u := by
  have number : Numeral.read digitVal base (numeral u base upcase) 0 = u :=
    read_numeral u upcase hb hb'
  have sign (text : List Char) :
      Numeral.read digitVal base ('-' :: text) 0 = Numeral.read digitVal base text 0 := rfl
  have zeros (n : Nat) {c : Char} (h : digitVal c = none ∨ digitVal c = some 0) :
      Numeral.read digitVal base (List.replicate n c) 0 = 0 := by
    cases h with
    | inl other => exact Numeral.read_other other n 0
    | inr zero => exact Numeral.read_zeros zero n
  have body : Numeral.read digitVal base
      (if neg = true then '-' :: numeral u base upcase else numeral u base upcase) 0 = u := by
    cases neg with
    | false => exact number
    | true => exact number
  unfold layOut
  cases ladjust with
  | true =>
    simp only [if_true]
    rw [Numeral.read_append, body, Numeral.read_other rfl]
  | false =>
    simp only [Bool.false_eq_true, if_false]
    by_cases zero : neg = true ∧ padc = '0'
    · rw [if_pos zero, sign, Numeral.read_append, zeros _ (Or.inr rfl), number]
    · rw [if_neg zero, Numeral.read_append, zeros _ (digitVal_plain hpad), body]

/-- The conversions of numbers. -/
inductive Conv where
  | b
  | d
  | D
  | o
  | O
  | u
  | U
  | x
  | X

namespace Conv

def char : Conv → Char
  | b => 'b'
  | d => 'd'
  | D => 'D'
  | o => 'o'
  | O => 'O'
  | u => 'u'
  | U => 'U'
  | x => 'x'
  | X => 'X'

def isSigned : Conv → Bool
  | d | D => true
  | _ => false

def base : Conv → Nat
  | b => 2
  | o | O => 8
  | x | X => 16
  | _ => 10

def upcase : Conv → Bool
  | X => true
  | _ => false

end Conv

/-- A directive of a format that prints a number. -/
structure Format where
  ladjust : Bool
  pad : Option Char
  widthDigits : List (Fin 10)
  long : Bool
  conv : Conv
  /-- A padding that is given is none of the characters that start what is behind it. -/
  pad_plain : ∀ c ∈ pad, plain c = false
  /-- Without a `'-'` a padding `'-'` is taken for one. -/
  pad_adjust : ∀ c ∈ pad, ladjust = false → c ≠ '-'
  /-- Without a padding a width `0…` gives it. -/
  width_pad : pad = none → ∀ d ∈ widthDigits.head?, d.val ≠ 0

namespace Conv

theorem base_bounds (c : Conv) : 2 ≤ c.base ∧ c.base ≤ 16 := by
  cases c <;> decide

theorem signed_char {c : Conv} (h : c.isSigned = true) :
    (c.char = 'd' ∨ c.char = 'D') ∧ c.base = 10 ∧ c.upcase = false := by
  cases c <;> first | decide | cases h

theorem unsigned_char {c : Conv} (h : c.isSigned = false) :
    ¬ (c.char = 'd' ∨ c.char = 'D') ∧ unsignedConv c.char = some (c.base, c.upcase) := by
  cases c <;> first | decide | cases h

end Conv

namespace Format
variable (f : Format)

def padc : Char := f.pad.getD ' '

def width : Nat := f.widthDigits.foldl (fun width d => width * 10 + d.val) 0

/-- From the width on. -/
def tail (rest : List Char) : List Char :=
  f.widthDigits.map (fun d => Char.ofNat (48 + d.val)) ++ (if f.long = true then ['l'] else []) ++
    f.conv.char :: rest

/-- The text of the directive, with the format behind it. -/
def render (rest : List Char) : List Char :=
  '%' :: ((if f.ladjust = true then ['-'] else []) ++ f.pad.toList ++ f.tail rest)

/-- The bits of the type that is printed. -/
def bits : Nat := if f.long = true then 64 else 32

/-- A value of the type that is printed. -/
def Fits (v : Int) : Prop := -2 ^ (f.bits - 1) ≤ v ∧ v < 2 ^ (f.bits - 1)

/-- A signed conversion prints the value, an unsigned one the value modulo its type. -/
def magnitude (v : Int) : Nat := if f.conv.isSigned = true then v.natAbs else (v % 2 ^ f.bits).toNat

def isNegative (v : Int) : Bool := f.conv.isSigned && decide (v < 0)

def expected (v : Int) : List Char :=
  layOut (f.isNegative v) (numeral (f.magnitude v) f.conv.base f.conv.upcase) f.width
    f.ladjust f.padc

/-- The directive prints its argument, whatever stands behind it. -/
def Prints (v : Int) : Prop :=
  ∀ (rest : List Char) (args : List Arg),
    vprintfmt (f.render rest) (Arg.num v :: args) = (vprintfmt rest args).map (f.expected v ++ ·)

theorem char_letter (c : Conv) :
    plain c.char = true ∧ isDigit c.char = false ∧ c.char ≠ 'l' ∧ c.char ≠ '-' := by
  cases c <;> decide

theorem digit_char (d : Fin 10) :
    isDigit (Char.ofNat (48 + d.val)) = true ∧ (Char.ofNat (48 + d.val)).toNat - 48 = d.val ∧
      Char.ofNat (48 + d.val) ≠ '-' ∧ (d.val ≠ 0 → plain (Char.ofNat (48 + d.val)) = true) := by
  revert d
  decide

theorem foldl_width_le (digits : List (Fin 10)) (width : Nat) :
    width ≤ digits.foldl (fun width d => width * 10 + d.val) width := by
  induction digits generalizing width with
  | nil => exact Nat.le_refl _
  | cons d digits ih =>
    have rest := ih (width * 10 + d.val)
    rw [List.foldl_cons]
    omega

theorem readWidth_eq (digits : List (Fin 10)) {c : Char} (hc : isDigit c = false)
    (rest : List Char) {width : Nat} (hw : width < 2 ^ 31) :
    readWidth width (digits.map (fun d => Char.ofNat (48 + d.val)) ++ c :: rest) =
      if digits.foldl (fun width d => width * 10 + d.val) width < 2 ^ 31 then
        some (digits.foldl (fun width d => width * 10 + d.val) width, c :: rest)
      else none := by
  induction digits generalizing width with
  | nil =>
    rw [List.map_nil, List.nil_append, List.foldl_nil, if_pos hw, readWidth,
      if_neg (by rw [hc]; decide)]
  | cons d digits ih =>
    rw [List.map_cons, List.cons_append, List.foldl_cons, readWidth, if_pos (digit_char d).1,
      (digit_char d).2.1]
    by_cases fits : width * 10 + d.val < 2 ^ 31
    · simp only [fits, if_true]
      exact ih fits
    · have more := foldl_width_le digits (width * 10 + d.val)
      simp only [fits, if_false]
      rw [if_neg (by omega)]

theorem readLong_eq (rest : List Char) :
    readLong ((if f.long = true then ['l'] else []) ++ f.conv.char :: rest) =
    (f.long, f.conv.char :: rest) := by
  cases f.long with
  | true => rfl
  | false =>
    have other := (char_letter f.conv).2.2.1
    simp only [Bool.false_eq_true, if_false, List.nil_append]
    unfold readLong
    split
    · rename_i same
      injection same with first
      exact absurd first other
    · rfl

theorem tail_readWidth (rest : List Char) :
    readWidth 0 (f.tail rest) =
      if f.width < 2 ^ 31 then some (f.width,
        (if f.long = true then ['l'] else []) ++ f.conv.char :: rest)
      else none := by
  unfold tail width
  rw [List.append_assoc]
  cases f.long with
  | true =>
    exact readWidth_eq f.widthDigits (c := 'l') rfl (f.conv.char :: rest) (Nat.two_pow_pos 31)
  | false => exact readWidth_eq f.widthDigits (char_letter f.conv).2.1 rest (Nat.two_pow_pos 31)

/-- What stands behind the padding starts with a digit or a letter. -/
theorem tail_cons (rest : List Char) :
    ∃ c cs, f.tail rest = c :: cs ∧ c ≠ '-' ∧ (f.pad = none → plain c = true) := by
  unfold tail
  have width_pad := f.width_pad
  cases digits : f.widthDigits with
  | cons d ds =>
    refine ⟨_, _, rfl, (digit_char d).2.2.1, ?_⟩
    intro none
    apply (digit_char d).2.2.2
    apply width_pad none
    rw [digits]
    rfl
  | nil =>
    cases f.long with
    | true => exact ⟨'l', f.conv.char :: rest, rfl, by decide, fun _ => rfl⟩
    | false => exact ⟨_, rest, rfl, (char_letter f.conv).2.2.2, fun _ => (char_letter f.conv).1⟩

theorem readAdjust_other {c : Char} (hc : c ≠ '-') (cs : List Char) :
    readAdjust (c :: cs) = (false, c :: cs) := by
  unfold readAdjust
  split
  · rename_i same
    injection same with first
    exact absurd first hc
  · rfl

theorem readAdjust_eq (rest : List Char) :
    readAdjust ((if f.ladjust = true then ['-'] else []) ++ f.pad.toList ++ f.tail rest) =
      (f.ladjust, f.pad.toList ++ f.tail rest) := by
  have pad_adjust := f.pad_adjust
  cases adjust : f.ladjust with
  | true => rfl
  | false =>
    simp only [Bool.false_eq_true, if_false, List.nil_append]
    cases pad : f.pad with
    | none =>
      obtain ⟨c, cs, htail, hc, _⟩ := f.tail_cons rest
      rw [htail]
      exact readAdjust_other hc cs
    | some c =>
      apply readAdjust_other
      exact pad_adjust c pad adjust

theorem readPadc_eq (rest : List Char) :
    readPadc (f.pad.toList ++ f.tail rest) = some (f.padc, f.tail rest) := by
  have pad_plain := f.pad_plain
  cases pad : f.pad with
  | none =>
    obtain ⟨c, cs, htail, _, hplain⟩ := f.tail_cons rest
    simp only [Option.toList_none, List.nil_append, htail, readPadc, hplain pad, if_true, padc, pad,
      Option.getD_none]
  | some c =>
    simp only [Option.toList_some, List.singleton_append, readPadc, pad_plain c pad, padc, pad,
      Option.getD_some, Bool.false_eq_true, if_false]

/-- The scanner finds what the directive is made of. -/
theorem readFlags_eq (rest : List Char) :
    readFlags ((if f.ladjust = true then ['-'] else []) ++ f.pad.toList ++ f.tail rest) =
      if f.width < 2 ^ 31 then some (⟨f.ladjust, f.padc, f.width, f.long⟩, f.conv.char :: rest)
      else none := by
  unfold readFlags
  rw [readAdjust_eq]
  simp only [readPadc_eq, tail_readWidth, Option.bind_eq_bind, Option.bind_some]
  by_cases fits : f.width < 2 ^ 31
  · simp only [fits, if_true, Option.bind_some, readLong_eq]
    rfl
  · simp only [fits, if_false, Option.bind_none]

end Format

theorem readWidth_length {width : Nat} {fmt : List Char} {r : Nat × List Char}
    (h : readWidth width fmt = some r) :
    r.2.length ≤ fmt.length := by
  induction fmt generalizing width with
  | nil =>
    injection h with h
    rw [← h]
  | cons c fmt ih =>
    unfold readWidth at h
    by_cases digit : isDigit c = true
    · rw [if_pos digit] at h
      by_cases fits : width * 10 + (c.toNat - 48) < 2 ^ 31
      · simp only [fits, if_true] at h
        exact Nat.le_succ_of_le (ih h)
      · simp only [fits, if_false] at h
        cases h
    · rw [if_neg digit] at h
      injection h with h
      rw [← h]

theorem readAdjust_length (fmt : List Char) : (readAdjust fmt).2.length ≤ fmt.length := by
  unfold readAdjust
  split
  · exact Nat.le_succ _
  · exact Nat.le_refl _

theorem readLong_length (fmt : List Char) : (readLong fmt).2.length ≤ fmt.length := by
  unfold readLong
  split
  · exact Nat.le_succ _
  · exact Nat.le_refl _

theorem readPadc_length {fmt : List Char} {r : Char × List Char} (h : readPadc fmt = some r) :
    r.2.length ≤ fmt.length := by
  cases fmt with
  | nil => cases h
  | cons c fmt =>
    injection h with h
    rw [← h]
    split_ifs
    · exact Nat.le_refl _
    · exact Nat.le_succ _

theorem readFlags_length {fmt : List Char} {r : Flags × List Char} (h : readFlags fmt = some r) :
    r.2.length ≤ fmt.length := by
  obtain ⟨pad, hpad, h⟩ := Option.bind_eq_some_iff.mp h
  obtain ⟨width, hwidth, h⟩ := Option.bind_eq_some_iff.mp h
  injection h with h
  rw [← h]
  calc (readLong width.2).2.length ≤ width.2.length := readLong_length _
    _ ≤ pad.2.length := readWidth_length hwidth
    _ ≤ (readAdjust fmt).2.length := readPadc_length hpad
    _ ≤ fmt.length := readAdjust_length fmt

/-- The length of the format is enough for the loop. -/
theorem vprintfmtFrom_turns {n m : Nat} {fmt : List Char} (hn : fmt.length ≤ n)
    (hm : fmt.length ≤ m)
    (args : List Arg) : vprintfmtFrom n fmt args = vprintfmtFrom m fmt args := by
  induction n generalizing m fmt args with
  | zero =>
    rw [List.eq_nil_of_length_eq_zero (Nat.le_zero.mp hn), vprintfmtFrom, vprintfmtFrom]
  | succ n ih =>
    cases fmt with
    | nil => rw [vprintfmtFrom, vprintfmtFrom]
    | cons c fmt =>
      cases m with
      | zero => cases hm
      | succ m =>
        have hn := Nat.le_of_succ_le_succ hn
        have hm := Nat.le_of_succ_le_succ hm
        unfold vprintfmtFrom
        by_cases plain : c ≠ '%'
        · rw [if_pos plain, if_pos plain, ih hn hm]
        · rw [if_neg plain, if_neg plain]
          cases flags : readFlags fmt with
          | none => rfl
          | some r =>
            have shorter := readFlags_length flags
            obtain ⟨f, fmt'⟩ := r
            cases fmt' with
            | nil => rfl
            | cons c fmt' =>
              have shorter : fmt'.length + 1 ≤ fmt.length := shorter
              cases out : convert f c args with
              | none => simp only [out]
              | some out' =>
                have behind : fmt'.length ≤ n ∧ fmt'.length ≤ m := by omega
                simp only [out]
                rw [ih behind.1 behind.2]

namespace Format
variable (f : Format)

/-- The loop takes the directive in one turn. -/
theorem vprintfmt_render (rest : List Char) (args : List Arg) :
    vprintfmt (f.render rest) args =
      if f.width < 2 ^ 31 then
        (convert ⟨f.ladjust, f.padc, f.width, f.long⟩ f.conv.char args).bind fun out =>
          (vprintfmt rest out.2).map (out.1 ++ ·)
      else none := by
  have flags := f.readFlags_eq rest
  have length : rest.length ≤
      ((if f.ladjust = true then ['-'] else []) ++ f.pad.toList ++ f.tail rest).length := by
    simp only [tail, List.length_append, List.length_cons]
    omega
  unfold vprintfmt render
  rw [List.length_cons, vprintfmtFrom, if_neg (not_not.mpr rfl), flags]
  by_cases fits : f.width < 2 ^ 31
  · simp only [fits, if_true]
    cases convert ⟨f.ladjust, f.padc, f.width, f.long⟩ f.conv.char args with
    | none => rfl
    | some out =>
      obtain ⟨text, args'⟩ := out
      simp only [Option.bind_some]
      rw [vprintfmtFrom_turns length (Nat.le_refl _)]
  · simp only [fits, if_false]

/-- The value that `print_num` gets, and its sign; `none` is a shift by the width of the type. -/
def printed (v : Int) : Option (Nat × Bool) :=
  if f.conv.isSigned = true then
    if 0 ≤ v then some (v.toNat, false)
    else if f.long = true then none
    else some (2 ^ 32 + v.natAbs, true)
  else some ((v % 2 ^ 64).toNat, false)

theorem vaArg_fits {v : Int} (h : f.Fits v) : vaArg f.long v = v := by
  unfold Fits bits at h
  unfold vaArg
  cases long : f.long with
  | true => rfl
  | false =>
    simp only [long, Bool.false_eq_true, if_false] at h ⊢
    omega

theorem signed_eq {v : Int} (h : f.Fits v) :
    (signed f.long v).map (fun r => (toULong r.1, r.2)) =
      if 0 ≤ v then some (v.toNat, false) else if f.long = true then none
      else some (2 ^ 32 + v.natAbs, true) := by
  unfold Fits bits at h
  unfold signed toULong
  by_cases sign : 0 ≤ v
  · rw [if_pos sign]
    cases long : f.long with
    | true =>
      simp only [long, if_true] at h ⊢
      rw [if_neg (by omega)]
      simp only [Option.map_some, Option.some.injEq, Prod.mk.injEq, and_true]
      omega
    | false =>
      simp only [long, Bool.false_eq_true, if_false] at h ⊢
      rw [if_neg (by omega)]
      simp only [Option.map_some, Option.some.injEq, Prod.mk.injEq, and_true]
      omega
  · rw [if_neg sign]
    cases long : f.long with
    | true =>
      simp only [long, if_true] at h ⊢
      rw [if_pos (by omega)]
      rfl
    | false =>
      simp only [long, Bool.false_eq_true, if_false] at h ⊢
      rw [if_pos (by omega)]
      simp only [show (32 : Nat) < 64 by decide, if_true, Option.map_some, Option.some.injEq,
        Prod.mk.injEq, and_true]
      omega

theorem toULong_lt (num : Int) : toULong num < 2 ^ 64 := by
  unfold toULong
  omega

/-- What a directive that fits on the stack does with its argument. -/
theorem convert_eq {v : Int} (h : f.Fits v) (hwidth : f.width + 70 < 2 ^ 31) (args : List Arg) :
    convert ⟨f.ladjust, f.padc, f.width, f.long⟩ f.conv.char (Arg.num v :: args) =
      (f.printed v).map fun r =>
        (layOut r.2 (numeral r.1 f.conv.base f.conv.upcase) f.width f.ladjust f.padc, args) := by
  have bounds := f.conv.base_bounds
  unfold convert printed
  cases kind : f.conv.isSigned with
  | true =>
    have char := Conv.signed_char kind
    have num := f.signed_eq h
    rw [if_pos char.1, if_pos rfl, ← num, char.2.1, char.2.2]
    simp only [vaArg_fits f h]
    cases signed f.long v with
    | none => rfl
    | some r =>
      simp only [Option.bind_eq_bind, Option.bind_some, Option.map_some,
        printNum_eq r.2 f.ladjust false (show 2 ≤ 10 by decide) (toULong_lt r.1) hwidth]
      rfl
  | false =>
    have char := Conv.unsigned_char kind
    rw [if_neg char.1, if_neg Bool.false_ne_true, char.2]
    simp only [vaArg_fits f h, Option.bind_eq_bind,
      printNum_eq false f.ladjust f.conv.upcase bounds.1 (toULong_lt v) hwidth, Option.bind_some]
    rfl

/-- A width for which the buffer of `print_num` has a negative size. -/
theorem convert_wide (hwidth : 2 ^ 31 ≤ f.width + 70) (v : Int) (args : List Arg) :
    convert ⟨f.ladjust, f.padc, f.width, f.long⟩ f.conv.char (Arg.num v :: args) = none := by
  have wide (u base : Nat) (neg upcase : Bool) :
      printNum u base neg f.width f.ladjust f.padc upcase = none := by
    rw [printNum, if_pos hwidth]
  unfold convert
  cases kind : f.conv.isSigned with
  | true =>
    rw [if_pos (Conv.signed_char kind).1]
    cases hs : signed f.long (vaArg f.long v) with
    | none => simp only [hs, Option.bind_eq_bind, Option.bind_none]
    | some r => simp only [hs, wide, Option.bind_eq_bind, Option.bind_some, Option.bind_none]
  | false =>
    have char := Conv.unsigned_char kind
    rw [if_neg char.1, char.2]
    simp only [wide, Option.bind_eq_bind, Option.bind_none]

/-- The value and the sign that should be printed are those that `print_num` gets just when
the argument is not negative, or is an unsigned `long`. -/
theorem printed_iff {v : Int} (h : f.Fits v) :
    f.printed v = some (f.magnitude v, f.isNegative v) ↔
    0 ≤ v ∨ f.long = true ∧ f.conv.isSigned = false := by
  unfold Fits bits at h
  unfold printed magnitude isNegative bits
  cases kind : f.conv.isSigned with
  | true =>
    simp only [if_true, Bool.true_and, Bool.true_eq_false, and_false, or_false]
    by_cases sign : 0 ≤ v
    · simp only [sign, if_true, Option.some.injEq, Prod.mk.injEq, iff_true]
      constructor
      · omega
      · exact (decide_eq_false (not_lt.mpr sign)).symm
    · simp only [sign, if_false, iff_false]
      cases long : f.long with
      | true =>
        intro same
        cases same
      | false =>
        intro same
        simp only [Bool.false_eq_true, if_false, Option.some.injEq, Prod.mk.injEq] at same
        omega
  | false =>
    simp only [Bool.false_eq_true, if_false, Bool.false_and, Option.some.injEq,
      Prod.mk.injEq, and_true]
    cases long : f.long with
    | true => simp only [if_true, or_true]
    | false =>
      simp only [long, Bool.false_eq_true, if_false, or_false] at h ⊢
      constructor
      · omega
      · omega

theorem printed_sign {v : Int} {r : Nat × Bool} (h : f.printed v = some r) :
    r.2 = f.isNegative v := by
  unfold printed at h
  unfold isNegative
  cases kind : f.conv.isSigned with
  | true =>
    rw [if_pos kind] at h
    by_cases sign : 0 ≤ v
    · rw [if_pos sign] at h
      rw [← Option.some.inj h, decide_eq_false (not_lt.mpr sign)]
      rfl
    · rw [if_neg sign] at h
      split_ifs at h
      rw [← Option.some.inj h, decide_eq_true (not_le.mp sign)]
      rfl
  | false =>
    rw [if_neg (by rw [kind]; exact Bool.false_ne_true)] at h
    rw [← Option.some.inj h]
    rfl

end Format

/-- `printk` of a number that its type can hold prints it just when it is not negative, or is
an unsigned `long`, and the width leaves the size of the buffer an `int`. -/
theorem Format.prints_iff (f : Format) (v : Int) (h : f.Fits v) :
    f.Prints v ↔ (0 ≤ v ∨ f.long = true ∧ f.conv.isSigned = false) ∧ f.width + 70 < 2 ^ 31 := by
  have bounds := f.conv.base_bounds
  have hpad : plain f.padc = false := by
    have pad_plain := f.pad_plain
    unfold Format.padc
    cases pad : f.pad with
    | none => rfl
    | some c => exact pad_plain c pad
  constructor
  · intro prints
    have alone := prints [] []
    rw [f.vprintfmt_render] at alone
    have hwidth : f.width + 70 < 2 ^ 31 := by
      by_contra wide
      rw [f.convert_wide (by omega)] at alone
      split_ifs at alone
      · cases alone
      · cases alone
    constructor
    · apply (f.printed_iff h).mp
      rw [if_pos (by omega), f.convert_eq h hwidth] at alone
      cases out : f.printed v with
      | none =>
        rw [out] at alone
        cases alone
      | some r =>
        rw [out] at alone
        have text :
            layOut r.2 (numeral r.1 f.conv.base f.conv.upcase) f.width f.ladjust f.padc ++ [] =
            f.expected v ++ [] := Option.some.inj alone
        rw [List.append_nil, List.append_nil, Format.expected] at text
        -- two texts that are laid out alike and are the same stand for the same number
        have value := read_layOut r.1 f.width r.2 f.ladjust f.conv.upcase bounds.1 bounds.2 hpad
        rw [text, read_layOut _ _ _ _ _ bounds.1 bounds.2 hpad] at value
        rw [← f.printed_sign out, value]
    · exact hwidth
  · rintro ⟨hv, hwidth⟩ rest args
    rw [f.vprintfmt_render, if_pos (by omega), f.convert_eq h hwidth, (f.printed_iff h).mpr hv]
    rfl

/-- `%5d`. -/
def fiveWide : Format where
  ladjust := false
  pad := none
  widthDigits := [5]
  long := false
  conv := .d
  pad_plain := fun _ h => nomatch h
  pad_adjust := fun _ h => nomatch h
  width_pad := by decide

theorem prints_iff_twelve : fiveWide.Prints 12 :=
  (fiveWide.prints_iff 12 (by constructor <;> decide)).mpr ⟨Or.inl (by decide), by decide⟩

/-- The sign bit of a negative `int` is found in a `long`, and the complement is one of 33 bits. -/
theorem prints_not_twelve :
    fiveWide.render [] = ['%', '5', 'd'] ∧ fiveWide.Fits (-12) ∧
      fiveWide.expected (-12) = [' ', ' ', '-', '1', '2'] ∧
      vprintfmt (fiveWide.render []) [Arg.num (-12)] =
        some ['-', '4', '2', '9', '4', '9', '6', '7', '3', '0', '8'] ∧
      ¬ fiveWide.Prints (-12) := by
  have out : vprintfmt (fiveWide.render []) [Arg.num (-12)] =
      some ['-', '4', '2', '9', '4', '9', '6', '7', '3', '0', '8'] := by decide +kernel
  have text : fiveWide.expected (-12) = [' ', ' ', '-', '1', '2'] := by decide +kernel
  refine ⟨rfl, by constructor <;> decide, text, out, ?_⟩
  intro prints
  have alone := prints [] []
  rw [out, text] at alone
  revert alone
  decide

end RiscvMos.Print
