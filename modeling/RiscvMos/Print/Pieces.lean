import RiscvMos.Print.Numbers
import Mathlib.Data.List.TakeWhile

/-!
The grammar of a format: literal characters, and directives with whatever flags stand in
them. What `vprintfmt` does with each piece.
-/

namespace RiscvMos.Print

/-- A directive behind its `%`; `conv` is missing where the format ends before it. -/
structure Directive where
  ladjust : Bool
  pad : Option Char
  digits : List Char
  long : Bool
  conv : Option Char

namespace Directive
variable (d : Directive)

/-- From the conversion's length on. -/
def close : List Char := (if d.long = true then ['l'] else []) ++ d.conv.toList

/-- From the width on. -/
def back : List Char := d.digits ++ d.close

def text : List Char := (if d.ladjust = true then ['-'] else []) ++ (d.pad.toList ++ d.back)

def width : Nat := d.digits.foldl (fun width c => width * 10 + (c.toNat - 48)) 0

def flags : Flags := ⟨d.ladjust, d.pad.getD ' ', d.width, d.long⟩

/-- Each part is as long as it can be. -/
structure Proper : Prop where
  pad_plain : ∀ c ∈ d.pad, plain c = false
  pad_adjust : ∀ c ∈ d.pad, d.ladjust = false → c ≠ '-'
  no_pad : d.pad = none → ∀ c ∈ d.back.head?, plain c = true
  digit : ∀ c ∈ d.digits, isDigit c = true
  conv_digit : ∀ c ∈ d.conv, d.long = false → isDigit c = false
  conv_long : ∀ c ∈ d.conv, d.long = false → c ≠ 'l'

/-- The format does not end right behind the `%`, or the `-`. -/
def Whole : Prop := d.pad = none → d.back ≠ []

/-- What the conversion takes from the arguments and leaves. A negative number is only taken as an
`int`, and the buffer of a number has a size. -/
def Takes (c : Char) (args args' : List Arg) : Prop :=
  if c = 'd' ∨ c = 'D' then
    ∃ v, args = .num v :: args' ∧ d.width + 70 < 2 ^ 31 ∧ (d.long = true → 0 ≤ v ∧ v < 2 ^ 63)
  else if (unsignedConv c).isSome = true then ∃ v, args = .num v :: args' ∧ d.width + 70 < 2 ^ 31
  else if c = 'c' then ∃ v, args = .num v :: args'
  else if c = 's' then ∃ s, args = .str s :: args'
  else args' = args

end Directive

inductive Piece where
  | lit (c : Char)
  | dir (d : Directive)

/-- The pieces of a format; only its last directive has no conversion. -/
inductive Pieces : List Char → List Piece → Prop
  | nil : Pieces [] []
  | lit {c : Char} {fmt : List Char} {ps : List Piece} (literal : c ≠ '%')
    (pieces : Pieces fmt ps) :
    Pieces (c :: fmt) (.lit c :: ps)
  | dir {d : Directive} {c : Char} {fmt : List Char} {ps : List Piece} (proper : d.Proper)
    (conv : d.conv = some c)
    (pieces : Pieces fmt ps) : Pieces ('%' :: (d.text ++ fmt)) (.dir d :: ps)
  | last {d : Directive} (proper : d.Proper) (conv : d.conv = none) :
    Pieces ('%' :: (d.text ++ [])) [.dir d]

/-- The output for the pieces: literal characters are themselves, and each directive is
converted. -/
inductive Outputs : List Piece → List Arg → List Char → Prop
  | nil {args : List Arg} : Outputs [] args []
  | lit {c : Char} {ps : List Piece} {args : List Arg} {text : List Char}
    (rest : Outputs ps args text) :
    Outputs (.lit c :: ps) args (c :: text)
  | dir {d : Directive} {c : Char} {ps : List Piece} {args args' : List Arg} {t text : List Char}
    (conv : d.conv = some c)
    (out : convert d.flags c args = some (t, args')) (rest : Outputs ps args' text) :
    Outputs (.dir d :: ps) args (t ++ text)
  | last {d : Directive} {args : List Arg} (conv : d.conv = none) : Outputs [.dir d] args []

/-- No directive is cut off before its first character, the widths are `int`s, and the
arguments are what the conversions take. -/
def Suits : List Piece → List Arg → Prop
  | [], _ => True
  | .lit _ :: ps, args => Suits ps args
  | .dir d :: ps, args =>
    d.Whole ∧ d.width < 2 ^ 31 ∧ ∀ c, d.conv = some c →
      ∃ args', d.Takes c args args' ∧ Suits ps args'

section
variable {d : Directive} {c : Char} {rest fmt : List Char} {ps : List Piece} {args args' : List Arg}

/-- What stands behind a directive, which is nothing behind one without a conversion. -/
def Follows (d : Directive) (rest : List Char) : Prop := d.conv = none → rest = []

theorem conv_of_back (h : d.back = []) : d.conv = none := by
  have close : d.close = [] := (List.append_eq_nil_iff.mp h).2
  have conv : d.conv.toList = [] := (List.append_eq_nil_iff.mp close).2
  exact Option.toList_eq_nil_iff.mp conv

/-- Behind a directive without a padding stands one of the characters that give none. -/
theorem back_plain (h : d.Proper) (rests : Follows d rest) (pad : d.pad = none) :
    ∀ c ∈ (d.back ++ rest).head?, plain c = true := by
  cases back : d.back with
  | nil =>
    rw [rests (conv_of_back back)]
    intro c none_
    cases none_
  | cons b bs =>
    rintro c ⟨⟩
    exact h.no_pad pad b (by rw [back]; rfl)

theorem readAdjust_text (h : d.Proper) (rests : Follows d rest) :
    readAdjust (d.text ++ rest) = (d.ladjust, d.pad.toList ++ (d.back ++ rest)) := by
  unfold Directive.text
  cases adjust : d.ladjust with
  | true =>
    rw [if_pos rfl, List.append_assoc, List.append_assoc]
    rfl
  | false =>
    rw [if_neg Bool.false_ne_true, List.nil_append, List.append_assoc]
    cases pad : d.pad with
    | some c => exact Format.readAdjust_other (h.pad_adjust c pad adjust) _
    | none =>
      have first := back_plain h rests pad
      rw [Option.toList_none, List.nil_append]
      cases behind : d.back ++ rest with
      | nil => rfl
      | cons b bs =>
        have letter : plain b = true := first b (by rw [behind]; rfl)
        apply Format.readAdjust_other
        rintro rfl
        exact absurd letter (by decide)

theorem readPadc_text (h : d.Proper) (rests : Follows d rest) (whole : d.Whole) :
    readPadc (d.pad.toList ++ (d.back ++ rest)) = some (d.pad.getD ' ', d.back ++ rest) := by
  cases pad : d.pad with
  | some c =>
    have other := h.pad_plain c pad
    rw [Option.toList_some, List.singleton_append, readPadc,
      if_neg (by rw [other]; exact Bool.false_ne_true)]
    rfl
  | none =>
    have first := back_plain h rests pad
    rw [Option.toList_none, List.nil_append]
    cases behind : d.back ++ rest with
    | nil => exact absurd (List.append_eq_nil_iff.mp behind).1 (whole pad)
    | cons b bs =>
      rw [readPadc, if_pos (first b (by rw [behind]; rfl))]
      rfl

/-- The `NUL` is taken for the padding. -/
theorem readPadc_cut (rests : Follows d rest) (cut : ¬d.Whole) :
    readPadc (d.pad.toList ++ (d.back ++ rest)) = none := by
  unfold Directive.Whole at cut
  obtain ⟨pad, back⟩ := Classical.not_imp.mp cut
  have back := not_not.mp back
  rw [pad, back, rests (conv_of_back back)]
  rfl

theorem readWidth_digits {digits : List Char} {tail : List Char} {w : Nat}
    (all : ∀ c ∈ digits, isDigit c = true)
    (stop : ∀ c ∈ tail.head?, isDigit c = false) (hw : w < 2 ^ 31) :
    readWidth w (digits ++ tail) =
      if digits.foldl (fun width c => width * 10 + (c.toNat - 48)) w < 2 ^ 31 then
        some (digits.foldl (fun width c => width * 10 + (c.toNat - 48)) w, tail)
      else none := by
  have grows : ∀ (digits : List Char) (w : Nat),
      w ≤ digits.foldl (fun width c => width * 10 + (c.toNat - 48)) w := by
    intro digits
    induction digits with
    | nil => exact fun w => Nat.le_refl w
    | cons c digits ih =>
      intro w
      have rest := ih (w * 10 + (c.toNat - 48))
      rw [List.foldl_cons]
      omega
  induction digits generalizing w with
  | nil =>
    rw [List.nil_append, List.foldl_nil, if_pos hw]
    cases tail with
    | nil => rfl
    | cons c tail =>
      have other := stop c rfl
      rw [readWidth, if_neg (by rw [other]; exact Bool.false_ne_true)]
  | cons c digits ih =>
    rw [List.cons_append, List.foldl_cons, readWidth, if_pos (all c List.mem_cons_self)]
    by_cases fits : w * 10 + (c.toNat - 48) < 2 ^ 31
    · simp only [fits, if_true]
      exact ih (fun c h => all c (List.mem_cons_of_mem _ h)) fits
    · have more := grows digits (w * 10 + (c.toNat - 48))
      simp only [fits, if_false]
      rw [if_neg (by omega)]

theorem readWidth_text (h : d.Proper) (rests : Follows d rest) :
    readWidth 0 (d.back ++ rest) = if d.width < 2 ^ 31 then some (d.width, d.close ++ rest)
    else none := by
  unfold Directive.back
  rw [List.append_assoc]
  apply readWidth_digits h.digit _ (by decide)
  unfold Directive.close
  cases long : d.long with
  | true =>
    rintro c ⟨⟩
    rfl
  | false =>
    cases conv : d.conv with
    | none =>
      rw [rests conv]
      intro c none_
      cases none_
    | some c =>
      rintro c' ⟨⟩
      exact h.conv_digit c conv long

theorem readLong_text (h : d.Proper) (rests : Follows d rest) :
    readLong (d.close ++ rest) = (d.long, d.conv.toList ++ rest) := by
  unfold Directive.close
  cases long : d.long with
  | true =>
    rw [if_pos rfl, List.append_assoc]
    rfl
  | false =>
    rw [if_neg Bool.false_ne_true, List.nil_append]
    cases conv : d.conv with
    | none =>
      rw [rests conv]
      rfl
    | some c =>
      have other := h.conv_long c conv long
      rw [Option.toList_some, List.singleton_append, readLong]
      rintro fmt same
      injection same with first
      exact other first

/-- The scanner finds the directive that stands there. -/
theorem readFlags_text (h : d.Proper) (rests : Follows d rest) (whole : d.Whole) :
    readFlags (d.text ++ rest) = if d.width < 2 ^ 31 then some (d.flags, d.conv.toList ++ rest)
    else none := by
  unfold readFlags
  rw [readAdjust_text h rests]
  simp only [readPadc_text h rests whole, readWidth_text h rests, Option.bind_eq_bind,
    Option.bind_some]
  by_cases fits : d.width < 2 ^ 31
  · simp only [fits, if_true, Option.bind_some, readLong_text h rests]
    rfl
  · simp only [fits, if_false, Option.bind_none]

theorem readFlags_cut (h : d.Proper) (rests : Follows d rest) (cut : ¬d.Whole) :
    readFlags (d.text ++ rest) = none := by
  unfold readFlags
  rw [readAdjust_text h rests]
  simp only [readPadc_cut rests cut, Option.bind_eq_bind, Option.bind_none]

/-- The end of a directive, from its length on. -/
theorem exists_close (r : List Char) :
    ∃ (long : Bool) (conv : Option Char) (rest : List Char),
      r = (if long = true then ['l'] else []) ++ conv.toList ++ rest ∧ (conv = none → rest = []) ∧
        ∀ c ∈ conv, long = false → c ≠ 'l' := by
  have conversion (r : List Char) : r = r.head?.toList ++ r.tail ∧
      (r.head? = none → r.tail = []) := by
    cases r with
    | nil => exact ⟨rfl, fun _ => rfl⟩
    | cons c r => exact ⟨rfl, fun none_ => nomatch none_⟩
  by_cases long : r.head? = some 'l'
  · obtain ⟨whole, ends⟩ := conversion r.tail
    refine ⟨true, r.tail.head?, r.tail.tail, ?_, ends, fun c _ short => nomatch short⟩
    rw [if_pos rfl, List.append_assoc, ← whole]
    exact List.eq_cons_of_mem_head? long
  · obtain ⟨whole, ends⟩ := conversion r
    refine ⟨false, r.head?, r.tail, ?_, ends, ?_⟩
    · rw [if_neg Bool.false_ne_true, List.nil_append, ← whole]
    · rintro c first _ rfl
      exact long first

theorem head_dropWhile_digit (r : List Char) :
    ∀ c ∈ (r.dropWhile isDigit).head?, isDigit c = false := by
  induction r with
  | nil =>
    intro c none_
    cases none_
  | cons b r ih =>
    cases digit : isDigit b with
    | true =>
      rw [List.dropWhile_cons_of_pos digit]
      exact ih
    | false =>
      rw [List.dropWhile_cons_of_neg (by rw [digit]; exact Bool.false_ne_true)]
      rintro c ⟨⟩
      exact digit

/-- Whatever stands behind a `%` starts with a directive. -/
theorem exists_directive (r : List Char) :
    ∃ d rest, d.Proper ∧ r = d.text ++ rest ∧ Follows d rest := by
  obtain ⟨ladjust, r₁, adjust, start⟩ : ∃ (ladjust : Bool) (r₁ : List Char),
      r = (if ladjust = true then ['-'] else []) ++ r₁ ∧
      (ladjust = false → r₁.head? ≠ some '-') := by
    by_cases minus : r.head? = some '-'
    · exact ⟨true, r.tail, List.eq_cons_of_mem_head? minus,
        fun h => absurd h.symm Bool.false_ne_true⟩
    · exact ⟨false, r, rfl, fun _ => minus⟩
  obtain ⟨pad, r₂, padding, other, letter⟩ : ∃ (pad : Option Char) (r₂ : List Char),
      r₁ = pad.toList ++ r₂ ∧ (∀ c ∈ pad, plain c = false) ∧
      (pad = none → ∀ c ∈ r₂.head?, plain c = true) := by
    cases r₁ with
    | nil =>
      exact ⟨none, [], rfl, fun c h => absurd h (Option.not_mem_none c),
        fun _ c h => absurd h (Option.not_mem_none c)⟩
    | cons b r₂ =>
      cases first : plain b with
      | true =>
        refine ⟨none, b :: r₂, rfl, fun c h => absurd h (Option.not_mem_none c), ?_⟩
        rintro _ c ⟨⟩
        exact first
      | false =>
        refine ⟨some b, r₂, rfl, ?_, fun h => absurd h (Option.some_ne_none b)⟩
        rintro c ⟨⟩
        exact first
  obtain ⟨long, conv, rest, close, ends, notLong⟩ := exists_close (r₂.dropWhile isDigit)
  have behind := head_dropWhile_digit r₂
  have split :
      r₂ = r₂.takeWhile isDigit ++
      ((if long = true then ['l'] else []) ++ conv.toList ++ rest) := by
    rw [← close, List.takeWhile_append_dropWhile]
  refine ⟨⟨ladjust, pad, r₂.takeWhile isDigit, long, conv⟩, rest, ?_, ?_, ends⟩
  · refine ⟨other, ?_, ?_, fun c h => List.mem_takeWhile_imp h, ?_, notLong⟩
    · rintro c here plain_ rfl
      apply start plain_
      have given : pad = some '-' := here
      rw [padding, given]
      rfl
    · intro none_ c head
      apply letter none_ c
      rw [split]
      unfold Directive.back Directive.close at head
      cases back : r₂.takeWhile isDigit ++ ((if long = true then ['l'] else []) ++ conv.toList) with
      | nil =>
        rw [back] at head
        cases head
      | cons b bs =>
        rw [back] at head
        rw [← List.append_assoc, back]
        exact head
    · intro c here short
      apply behind c
      have given : conv = some c := here
      have short : long = false := short
      rw [close, given, short]
      rfl
  · unfold Directive.text Directive.back Directive.close
    simp only
    rw [List.append_assoc, List.append_assoc, List.append_assoc, ← split, ← padding]
    exact adjust

/-- Every format is a list of pieces. -/
theorem pieces_exist (fmt : List Char) : ∃ ps, Pieces fmt ps := by
  generalize length : fmt.length = n
  induction n using Nat.strong_induction_on generalizing fmt with
  | h n ih =>
    cases fmt with
    | nil => exact ⟨[], .nil⟩
    | cons c fmt =>
      by_cases literal : c ≠ '%'
      · obtain ⟨ps, pieces⟩ := ih fmt.length (by rw [← length]; exact Nat.lt_succ_self _) fmt rfl
        exact ⟨_, .lit literal pieces⟩
      · obtain ⟨d, rest, proper, split, follows⟩ := exists_directive fmt
        rw [not_not.mp literal, split]
        cases conv : d.conv with
        | none =>
          rw [follows conv]
          exact ⟨_, .last proper conv⟩
        | some c =>
          have less : rest.length < n := by
            rw [← length, split, List.length_cons, List.length_append]
            omega
          obtain ⟨ps, pieces⟩ := ih rest.length less rest rfl
          exact ⟨_, .dir proper conv pieces⟩

theorem printNum_isSome {u base length : Nat} {neg ladjust upcase : Bool} {padc : Char} :
    (∃ t, printNum u base neg length ladjust padc upcase = some t) ↔ length + 70 < 2 ^ 31 := by
  unfold printNum
  by_cases wide : 2 ^ 31 ≤ length + 70
  · rw [if_pos wide]
    exact iff_of_false (fun h => nomatch h) (Nat.not_lt.mpr wide)
  · rw [if_neg wide]
    exact iff_of_true ⟨_, rfl⟩ (Nat.not_le.mp wide)

theorem signed_isSome {long : Bool} {v : Int} :
    (∃ r, signed long (vaArg long v) = some r) ↔ (long = true → 0 ≤ v ∧ v < 2 ^ 63) := by
  unfold signed vaArg
  cases long with
  | false =>
    constructor
    · intro _ h
      cases h
    · intro _
      have less : (32 : Nat) < 64 := by decide
      simp only [Bool.false_eq_true, if_false, less, if_true]
      split_ifs
      · exact ⟨_, rfl⟩
      · exact ⟨_, rfl⟩
  | true =>
    simp only [if_true, Nat.lt_irrefl, if_false, true_imp_iff]
    by_cases high : v / 2 ^ 63 ≠ 0
    · rw [if_pos high]
      refine iff_of_false (fun h => nomatch h) ?_
      omega
    · rw [if_neg high]
      refine iff_of_true ⟨_, rfl⟩ ?_
      omega

/-- A conversion has a result for the arguments that it takes. -/
theorem convert_takes : (∃ t, convert d.flags c args = some (t, args')) ↔ d.Takes c args args' := by
  unfold convert Directive.Takes
  by_cases signed_ : c = 'd' ∨ c = 'D'
  · rw [if_pos signed_, if_pos signed_]
    constructor
    · rintro ⟨t, run⟩
      cases args with
      | nil => cases run
      | cons x args =>
        cases x with
        | str => cases run
        | num v =>
          obtain ⟨r, sign, run⟩ := Option.bind_eq_some_iff.mp run
          obtain ⟨text, print, run⟩ := Option.bind_eq_some_iff.mp run
          cases run
          exact ⟨v, rfl, printNum_isSome.mp ⟨_, print⟩, signed_isSome.mp ⟨r, sign⟩⟩
    · rintro ⟨v, rfl, fits, range⟩
      obtain ⟨r, sign⟩ := signed_isSome.mpr range
      obtain ⟨t, print⟩ := printNum_isSome.mpr fits
      refine ⟨t, Option.bind_eq_some_iff.mpr ⟨r, sign, ?_⟩⟩
      exact Option.bind_eq_some_iff.mpr ⟨t, print, rfl⟩
  · rw [if_neg signed_, if_neg signed_]
    cases conv : unsignedConv c with
    | some b =>
      rw [if_pos (Option.isSome_some (a := b))]
      constructor
      · rintro ⟨t, run⟩
        cases args with
        | nil => cases run
        | cons x args =>
          cases x with
          | str => cases run
          | num v =>
            obtain ⟨text, print, run⟩ := Option.bind_eq_some_iff.mp run
            cases run
            exact ⟨v, rfl, printNum_isSome.mp ⟨_, print⟩⟩
      · rintro ⟨v, rfl, fits⟩
        obtain ⟨t, print⟩ := printNum_isSome.mpr fits
        exact ⟨t, Option.bind_eq_some_iff.mpr ⟨t, print, rfl⟩⟩
    | none =>
      have other : ¬(none : Option (Nat × Bool)).isSome = true := Bool.false_ne_true
      rw [if_neg other]
      simp only
      by_cases char : c = 'c'
      · rw [if_pos char, if_pos char]
        constructor
        · rintro ⟨t, run⟩
          cases args with
          | nil => cases run
          | cons x args =>
            cases x with
            | str => cases run
            | num v =>
              cases run
              exact ⟨v, rfl⟩
        · rintro ⟨v, rfl⟩
          exact ⟨_, rfl⟩
      · rw [if_neg char, if_neg char]
        by_cases string : c = 's'
        · rw [if_pos string, if_pos string]
          constructor
          · rintro ⟨t, run⟩
            cases args with
            | nil => cases run
            | cons x args =>
              cases x with
              | num => cases run
              | str s =>
                cases run
                exact ⟨s, rfl⟩
          · rintro ⟨s, rfl⟩
            exact ⟨_, rfl⟩
        · rw [if_neg string, if_neg string]
          constructor
          · rintro ⟨t, run⟩
            cases run
            rfl
          · rintro rfl
            exact ⟨_, rfl⟩

theorem vprintfmt_lit (literal : c ≠ '%') :
    vprintfmt (c :: fmt) args = (vprintfmt fmt args).map (c :: ·) := by
  unfold vprintfmt
  rw [List.length_cons, vprintfmtFrom, if_pos literal]

theorem vprintfmt_cut (h : d.Proper) (rests : Follows d rest) (cut : ¬d.Whole) :
    vprintfmt ('%' :: (d.text ++ rest)) args = none := by
  unfold vprintfmt
  rw [List.length_cons, vprintfmtFrom, if_neg (not_not.mpr rfl), readFlags_cut h rests cut]

theorem vprintfmt_wide (h : d.Proper) (rests : Follows d rest) (whole : d.Whole)
    (wide : ¬d.width < 2 ^ 31) :
    vprintfmt ('%' :: (d.text ++ rest)) args = none := by
  unfold vprintfmt
  rw [List.length_cons, vprintfmtFrom, if_neg (not_not.mpr rfl),
    readFlags_text h rests whole, if_neg wide]

theorem vprintfmt_last (h : d.Proper) (conv : d.conv = none) (whole : d.Whole)
    (fits : d.width < 2 ^ 31) :
    vprintfmt ('%' :: (d.text ++ [])) args = some [] := by
  unfold vprintfmt
  rw [List.length_cons, vprintfmtFrom, if_neg (not_not.mpr rfl),
    readFlags_text h (fun _ => rfl) whole, if_pos fits, conv]
  rfl

theorem vprintfmt_dir (h : d.Proper) (conv : d.conv = some c) (whole : d.Whole)
    (fits : d.width < 2 ^ 31) :
    vprintfmt ('%' :: (d.text ++ rest)) args =
      (convert d.flags c args).bind fun out => (vprintfmt rest out.2).map (out.1 ++ ·) := by
  have follows : Follows d rest := fun none_ => absurd (conv.symm.trans none_) (by simp)
  have length : rest.length ≤ (d.text ++ rest).length := by
    rw [List.length_append]
    exact Nat.le_add_left ..
  unfold vprintfmt
  rw [List.length_cons, vprintfmtFrom, if_neg (not_not.mpr rfl), readFlags_text h follows whole,
    if_pos fits, conv]
  simp only [Option.toList_some, List.singleton_append]
  cases convert d.flags c args with
  | none => rfl
  | some out =>
    simp only [Option.bind_some]
    rw [vprintfmtFrom_turns length (Nat.le_refl _)]

theorem vprintfmt_suits (pieces : Pieces fmt ps) (suits : Suits ps args) :
    ∃ text, vprintfmt fmt args = some text ∧ Outputs ps args text := by
  induction pieces generalizing args with
  | nil => exact ⟨[], rfl, .nil⟩
  | lit literal _ ih =>
    obtain ⟨text, run, out⟩ := ih suits
    refine ⟨_, ?_, .lit out⟩
    rw [vprintfmt_lit literal, run]
    rfl
  | dir proper conv _ ih =>
    obtain ⟨whole, fits, takes⟩ := suits
    obtain ⟨args', take, rest⟩ := takes _ conv
    obtain ⟨t, converted⟩ := convert_takes.mpr take
    obtain ⟨text, run, out⟩ := ih rest
    refine ⟨_, ?_, .dir conv converted out⟩
    rw [vprintfmt_dir proper conv whole fits, converted, Option.bind_some, run]
    rfl
  | last proper conv => exact ⟨[], vprintfmt_last proper conv suits.1 suits.2.1, .last conv⟩

theorem suits_of_vprintfmt (pieces : Pieces fmt ps) {text : List Char}
    (run : vprintfmt fmt args = some text) :
    Suits ps args := by
  induction pieces generalizing args text with
  | nil => trivial
  | lit literal _ ih =>
    rw [vprintfmt_lit literal] at run
    obtain ⟨text', run', -⟩ := Option.map_eq_some_iff.mp run
    exact ih run'
  | @dir d c fmt ps proper conv _ ih =>
    have follows : Follows d fmt := fun none_ => absurd (conv.symm.trans none_) (by simp)
    have whole : d.Whole := by
      by_contra cut
      rw [vprintfmt_cut proper follows cut] at run
      cases run
    have fits : d.width < 2 ^ 31 := by
      by_contra wide
      rw [vprintfmt_wide proper follows whole wide] at run
      cases run
    refine ⟨whole, fits, fun c' conv' => ?_⟩
    cases conv.symm.trans conv'
    rw [vprintfmt_dir proper conv whole fits] at run
    obtain ⟨⟨t, args'⟩, converted, run'⟩ := Option.bind_eq_some_iff.mp run
    obtain ⟨text', rest, -⟩ := Option.map_eq_some_iff.mp run'
    exact ⟨args', convert_takes.mp ⟨t, converted⟩, ih rest⟩
  | @last d proper conv =>
    have whole : d.Whole := by
      by_contra cut
      rw [vprintfmt_cut proper (fun _ => rfl) cut] at run
      cases run
    have fits : d.width < 2 ^ 31 := by
      by_contra wide
      rw [vprintfmt_wide proper (fun _ => rfl) whole wide] at run
      cases run
    refine ⟨whole, fits, fun c given => ?_⟩
    rw [conv] at given
    cases given

end

end RiscvMos.Print
