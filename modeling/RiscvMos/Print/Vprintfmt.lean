import RiscvMos.Lib.Numeral

/-!
`lib/print.c` on a machine with a `long` of 64 bits. The output is the text that
`out` gets. `none` is where the language leaves open what happens: the overflow of
an `int`, a shift by the width of the type, a character behind the format.
-/

namespace RiscvMos.Print

open Numeral (digitsOf divLoop)

/-- A variable argument: a register, or a string. -/
inductive Arg where
  | num (a : Int)
  | str (s : List Char)

/-- A buffer on the stack. -/
abbrev Buf := Nat → Char

def digitChar (upcase : Bool) (tmp : Nat) : Char :=
  if tmp ≤ 9 then Char.ofNat (48 + tmp)
  else if upcase = true then Char.ofNat (65 + tmp - 10)
  else Char.ofNat (97 + tmp - 10)

/-- The loop over the digits, with `p - buf`. -/
def storeDigits (base : Nat) (upcase : Bool) : Nat → Nat → Nat × Buf → Nat × Buf
  | 0, _, pb => pb
  | turns + 1, u, (p, buf) =>
    let pb := (p + 1, Function.update buf p (digitChar upcase (u % base)))
    if u / base = 0 then pb else storeDigits base upcase turns (u / base) pb

/-- A loop that stores `padc` in `n` places from `i` on. -/
def fill (padc : Char) : Nat → Nat → Buf → Buf
  | 0, _, buf => buf
  | n + 1, i, buf => fill padc n (i + 1) (Function.update buf i padc)

/-- The loop that reverses the string from `begin` to `last`. -/
def reverse : Nat → Nat → Nat → Buf → Buf
  | 0, _, _, buf => buf
  | turns + 1, start, last, buf =>
    if start < last then
      reverse turns (start + 1) (last - 1)
        (Function.update (Function.update buf start (buf last)) last (buf start))
    else buf

/-- A `long` has at most 64 digits. -/
def maxDigits : Nat := 64

def printNum (u base : Nat) (neg : Bool) (length : Nat) (ladjust : Bool) (padc : Char)
    (upcase : Bool) :
    Option (List Char) :=
  -- `char buf[length + 70]`
  if 2 ^ 31 ≤ length + 70 then none
  else
    let (p, buf) := storeDigits base upcase maxDigits u (0, fun _ => ' ')
    let (p, buf) := if neg = true then (p + 1, Function.update buf p '-') else (p, buf)
    let length := max length p
    let padc := if ladjust = true then ' ' else padc
    let buf :=
      if neg = true ∧ ladjust = false ∧ padc = '0' then
        Function.update (fill padc (length - p) (p - 1) buf) (length - 1) '-'
      else fill padc (length - p) p buf
    let last := if ladjust = true then p - 1 else length - 1
    some ((List.range length).map (reverse length 0 last buf))

def printChar (c : Char) (length : Nat) (ladjust : Bool) : List Char :=
  if ladjust = true then c :: List.replicate (length - 1) ' '
  else List.replicate (length - 1) ' ' ++ [c]

def printStr (s : List Char) (length : Nat) (ladjust : Bool) : List Char :=
  if ladjust = true then s ++ List.replicate (length - s.length) ' '
  else List.replicate (length - s.length) ' ' ++ s

/-- The flags of a conversion. -/
structure Flags where
  ladjust : Bool
  padc : Char
  width : Nat
  long : Bool

/-- A character behind `%` or `-` that is not taken for the padding. -/
def plain (c : Char) : Bool := ('1' ≤ c && c ≤ '9') || ('A' ≤ c && c ≤ 'Z') || ('a' ≤ c && c ≤ 'z')

def isDigit (c : Char) : Bool := '0' ≤ c && c ≤ '9'

/-- The loop over the digits of the width. -/
def readWidth : Nat → List Char → Option (Nat × List Char)
  | width, [] => some (width, [])
  | width, c :: fmt =>
    if isDigit c = true then
      let width := width * 10 + (c.toNat - 48)
      if width < 2 ^ 31 then readWidth width fmt else none
    else some (width, c :: fmt)

def readLong : List Char → Bool × List Char
  | 'l' :: fmt => (true, fmt)
  | fmt => (false, fmt)

def readAdjust : List Char → Bool × List Char
  | '-' :: fmt => (true, fmt)
  | fmt => (false, fmt)

/-- At the end of the format it is the `'\\0'` that is taken for the padding. -/
def readPadc : List Char → Option (Char × List Char)
  | [] => none
  | c :: fmt => some (if plain c = true then (' ', c :: fmt) else (c, fmt))

/-- From the `%` to the conversion character. -/
def readFlags (fmt : List Char) : Option (Flags × List Char) := do
  let (ladjust, fmt) := readAdjust fmt
  let (padc, fmt) ← readPadc fmt
  let (width, fmt) ← readWidth 0 fmt
  let (long, fmt) := readLong fmt
  return (⟨ladjust, padc, width, long⟩, fmt)

/-- `va_arg`, as a `long`. -/
def vaArg (long : Bool) (a : Int) : Int := if long = true then a else (a + 2 ^ 31) % 2 ^ 32 - 2 ^ 31

/-- As `unsigned long`. -/
def toULong (num : Int) : Nat := (num % 2 ^ 64).toNat

/-- The number that case `'d'` leaves in `num`, and `neg_flag`. -/
def signed (long : Bool) (num : Int) : Option (Int × Bool) :=
  let length := if long = true then 64 else 32
  if num / 2 ^ (length - 1) ≠ 0 then
    -- `(long long)1 << length`
    if length < 64 then some (2 ^ length - num, true) else none
  else some (num, false)

/-- The conversions of numbers: the base, and whether the letters are large. -/
def unsignedConv : Char → Option (Nat × Bool)
  | 'b' => some (2, false)
  | 'o' | 'O' => some (8, false)
  | 'u' | 'U' => some (10, false)
  | 'x' => some (16, false)
  | 'X' => some (16, true)
  | _ => none

/-- The `switch`: the output and the arguments that are left. -/
def convert (f : Flags) (c : Char) (args : List Arg) : Option (List Char × List Arg) :=
  if c = 'd' ∨ c = 'D' then
    match args with
    | .num a :: args => do
      let (num, neg) ← signed f.long (vaArg f.long a)
      return (← printNum (toULong num) 10 neg f.width f.ladjust f.padc false, args)
    | _ => none
  else
    match unsignedConv c with
    | some (base, upcase) =>
      match args with
      | .num a :: args => do
        return (← printNum (toULong (vaArg f.long a)) base false f.width f.ladjust f.padc upcase,
          args)
      | _ => none
    | none =>
      if c = 'c' then
        match args with
        | .num a :: args => some (printChar (Char.ofNat (a % 256).toNat) f.width f.ladjust, args)
        | _ => none
      else if c = 's' then
        match args with
        | .str s :: args => some (printStr s f.width f.ladjust, args)
        | _ => none
      else some ([c], args)

/-- `vprintfmt`, whose loop ends with the format. -/
def vprintfmtFrom : Nat → List Char → List Arg → Option (List Char)
  | _, [], _ => some []
  | 0, _ :: _, _ => none
  | turns + 1, c :: fmt, args =>
    if c ≠ '%' then (vprintfmtFrom turns fmt args).map (c :: ·)
    else
      match readFlags fmt with
      | none => none
      | some (_, []) => some []
      | some (f, c :: fmt) =>
        match convert f c args with
        | none => none
        | some (text, args) => (vprintfmtFrom turns fmt args).map (text ++ ·)

def vprintfmt (fmt : List Char) (args : List Arg) : Option (List Char) :=
  vprintfmtFrom fmt.length fmt args

end RiscvMos.Print
