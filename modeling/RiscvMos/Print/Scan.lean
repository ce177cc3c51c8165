import RiscvMos.Lib.CString
import RiscvMos.Print.Pieces

/-!
`vprintfmt` on a format in memory, with every `*fmt` checked against the place of its `NUL`,
for every format and all arguments.
-/

namespace RiscvMos.Print

open CString

/-- `'\\0'`. -/
def nulChar : Char := Char.ofNat 0

/-- `*fmt`, up to the address of the `NUL`. -/
def peek (m : Nat → Nat) (nul p : Nat) : Option Char :=
  if p ≤ nul then some (Char.ofNat (m p)) else none

/-- The loop over the digits of the width. -/
def readWidthAt (m : Nat → Nat) (nul : Nat) : Nat → Nat → Nat → Option (Nat × Nat)
  | 0, _, _ => none
  | fuel + 1, width, p => do
    let c ← peek m nul p
    if isDigit c = true then
      let width := width * 10 + (c.toNat - 48)
      if width < 2 ^ 31 then readWidthAt m nul fuel width (p + 1) else none
    else some (width, p)

def readAdjustAt (m : Nat → Nat) (nul p : Nat) : Option (Bool × Nat) := do
  let c ← peek m nul p
  some (if c = '-' then (true, p + 1) else (false, p))

def readPadcAt (m : Nat → Nat) (nul p : Nat) : Option (Char × Nat) := do
  let c ← peek m nul p
  some (if plain c = true then (' ', p) else (c, p + 1))

def readLongAt (m : Nat → Nat) (nul p : Nat) : Option (Bool × Nat) := do
  let c ← peek m nul p
  some (if c = 'l' then (true, p + 1) else (false, p))

/-- From the `%` to the conversion character. -/
def readFlagsAt (m : Nat → Nat) (nul fuel p : Nat) : Option (Flags × Nat) := do
  let (ladjust, p) ← readAdjustAt m nul p
  let (padc, p) ← readPadcAt m nul p
  let (width, p) ← readWidthAt m nul fuel 0 p
  let (long, p) ← readLongAt m nul p
  some (⟨ladjust, padc, width, long⟩, p)

/-- `vprintfmt`. In case `'\\0'` the loop looks at the `NUL` again. -/
def vprintfmtAt (m : Nat → Nat) (nul : Nat) : Nat → Nat → List Arg → Option (List Char)
  | 0, _, _ => none
  | fuel + 1, p, args => do
    let c ← peek m nul p
    if c = nulChar then some []
    else if c ≠ '%' then (vprintfmtAt m nul fuel (p + 1) args).map (c :: ·)
    else
      let (f, p) ← readFlagsAt m nul (fuel + 1) (p + 1)
      let c ← peek m nul p
      if c = nulChar then vprintfmtAt m nul fuel p args
      else
        let (text, args) ← convert f c args
        (vprintfmtAt m nul fuel (p + 1) args).map (text ++ ·)

section
variable {m : Nat → Nat} {nul p fuel w : Nat} {c : Char} {fmt rest : List Char}
    {args : List Arg} {α : Type}

/-- The rest of the format is at the pointer. -/
def At (m : Nat → Nat) (nul p : Nat) (fmt : List Char) : Prop :=
  Text m p (fmt.map Char.toNat) ∧ p + fmt.length = nul

/-- A part of the scanner on the format, and on its place. -/
inductive Agrees (m : Nat → Nat) (nul : Nat) : Option (α × List Char) → Option (α × Nat) → Prop
  | none : Agrees m nul none none
  | some {a : α} {rest : List Char} {q : Nat} (there : At m nul q rest) :
    Agrees m nul (some (a, rest)) (some (a, q))

theorem At.cons (h : At m nul p (c :: fmt)) :
    peek m nul p = some c ∧ c ≠ nulChar ∧ At m nul (p + 1) fmt := by
  obtain ⟨⟨here, nonzero, more⟩, place⟩ := h
  rw [List.length_cons] at place
  refine ⟨?_, ?_, more, by omega⟩
  · rw [peek, if_pos (by omega), here, Char.ofNat_toNat]
  · rintro rfl
    exact nonzero rfl

theorem At.nil (h : At m nul p []) : peek m nul p = some nulChar ∧ p = nul := by
  obtain ⟨zero, place⟩ := h
  have here : m p = 0 := zero
  have last : p = nul := place
  refine ⟨?_, last⟩
  rw [peek, if_pos (Nat.le_of_eq last), here]
  rfl

/-- Nothing is read behind the `NUL`. -/
theorem readWidthAt_behind : readWidthAt m nul fuel w (nul + 1) = none := by
  cases fuel with
  | zero => rfl
  | succ fuel =>
    have none_ : peek m nul (nul + 1) = none := if_neg (Nat.not_succ_le_self nul)
    rw [readWidthAt, none_]
    rfl

theorem readWidthAt_agrees (h : At m nul p fmt) (enough : fmt.length < fuel) :
    Agrees m nul (readWidth w fmt) (readWidthAt m nul fuel w p) := by
  induction fmt generalizing p fuel w with
  | nil =>
    cases fuel with
    | zero => exact absurd enough (Nat.not_lt_zero _)
    | succ fuel =>
      rw [readWidthAt, h.nil.1]
      exact .some h
  | cons c fmt ih =>
    cases fuel with
    | zero => exact absurd enough (Nat.not_lt_zero _)
    | succ fuel =>
      obtain ⟨here, -, more⟩ := h.cons
      rw [readWidthAt, readWidth, here]
      simp only [Option.bind_eq_bind, Option.bind_some]
      by_cases digit : isDigit c = true
      · rw [if_pos digit, if_pos digit]
        by_cases fits : w * 10 + (c.toNat - 48) < 2 ^ 31
        · rw [if_pos fits, if_pos fits]
          exact ih more (Nat.lt_of_succ_lt_succ enough)
        · rw [if_neg fits, if_neg fits]
          exact .none
      · rw [if_neg digit, if_neg digit]
        exact .some h

theorem readAdjustAt_eq (h : At m nul p fmt) :
    ∃ q, readAdjustAt m nul p = some ((readAdjust fmt).1, q) ∧ At m nul q (readAdjust fmt).2 := by
  unfold readAdjustAt
  cases fmt with
  | nil =>
    rw [h.nil.1]
    exact ⟨p, rfl, h⟩
  | cons c fmt =>
    obtain ⟨here, -, more⟩ := h.cons
    rw [here]
    by_cases minus : c = '-'
    · rw [minus]
      exact ⟨p + 1, rfl, more⟩
    · rw [Format.readAdjust_other minus]
      refine ⟨p, ?_, h⟩
      simp only [Option.bind_eq_bind, Option.bind_some, if_neg minus]

theorem readLongAt_eq (h : At m nul p fmt) :
    ∃ q, readLongAt m nul p = some ((readLong fmt).1, q) ∧ At m nul q (readLong fmt).2 := by
  unfold readLongAt
  cases fmt with
  | nil =>
    rw [h.nil.1]
    exact ⟨p, rfl, h⟩
  | cons c fmt =>
    obtain ⟨here, -, more⟩ := h.cons
    rw [here]
    by_cases long : c = 'l'
    · rw [long]
      exact ⟨p + 1, rfl, more⟩
    · have other : readLong (c :: fmt) = (false, c :: fmt) := by
        rw [readLong]
        rintro fmt' same
        injection same with first
        exact long first
      rw [other]
      refine ⟨p, ?_, h⟩
      simp only [Option.bind_eq_bind, Option.bind_some, if_neg long]

theorem readFlagsAt_agrees (h : At m nul p fmt) (enough : fmt.length < fuel) :
    Agrees m nul (readFlags fmt) (readFlagsAt m nul fuel p) := by
  obtain ⟨q, adjust, there⟩ := readAdjustAt_eq h
  have short := Nat.lt_of_le_of_lt (readAdjust_length fmt) enough
  unfold readFlagsAt readFlags
  rw [adjust]
  simp only [Option.bind_eq_bind, Option.bind_some]
  generalize (readAdjust fmt).2 = fmt' at there short
  cases fmt' with
  | nil =>
    -- the `NUL` is the padding, and the width is read behind it
    obtain ⟨here, last⟩ := there.nil
    have padc : readPadcAt m nul q = some (nulChar, nul + 1) := by
      unfold readPadcAt
      rw [here, last]
      rfl
    rw [padc]
    simp only [Option.bind_some, readWidthAt_behind, Option.bind_none]
    exact .none
  | cons c rest =>
    obtain ⟨here, -, more⟩ := there.cons
    obtain ⟨padc, q', rest', pads, padsAt, there'⟩ :
      ∃ padc q' rest', readPadc (c :: rest) = some (padc, rest') ∧
        readPadcAt m nul q = some (padc, q') ∧ At m nul q' rest' := by
      unfold readPadcAt
      rw [readPadc, here]
      by_cases letter : plain c = true
      · exact ⟨' ', q, c :: rest, by rw [if_pos letter], by simp [letter], there⟩
      · exact ⟨c, q + 1, rest, by rw [if_neg letter], by simp [letter], more⟩
    have short' := Nat.lt_of_le_of_lt (readPadc_length pads) short
    rw [pads, padsAt]
    simp only [Option.bind_some]
    have width := readWidthAt_agrees (w := 0) there' short'
    generalize readWidth 0 rest' = out at width
    generalize readWidthAt m nul fuel 0 q' = outAt at width
    cases width with
    | none => exact .none
    | some behind =>
      obtain ⟨r, long, after⟩ := readLongAt_eq behind
      simp only [Option.bind_some, long]
      exact .some after

/-- The scan on the format in memory is that on the format. -/
theorem vprintfmtAt_eq {turns : Nat} (h : At m nul p fmt) (enough : fmt.length ≤ turns)
    (more : turns < fuel) :
    vprintfmtAt m nul fuel p args = vprintfmtFrom turns fmt args := by
  induction fuel generalizing p fmt args turns with
  | zero => exact absurd more (Nat.not_lt_zero _)
  | succ fuel ih =>
    cases fmt with
    | nil =>
      rw [vprintfmtAt, h.nil.1, vprintfmtFrom]
      rfl
    | cons c fmt =>
      cases turns with
      | zero => exact absurd enough (Nat.not_succ_le_zero _)
      | succ turns =>
        rw [List.length_cons] at enough
        obtain ⟨here, nonzero, there⟩ := h.cons
        rw [vprintfmtAt, vprintfmtFrom, here]
        simp only [Option.bind_eq_bind, Option.bind_some, if_neg nonzero]
        by_cases literal : c ≠ '%'
        · rw [if_pos literal, if_pos literal, @ih _ _ args turns there (by omega) (by omega)]
        · rw [if_neg literal, if_neg literal]
          have flags : Agrees m nul (readFlags fmt) (readFlagsAt m nul (fuel + 1) (p + 1)) :=
            readFlagsAt_agrees there (by omega)
          cases found : readFlags fmt with
          | none =>
            rw [found] at flags
            generalize readFlagsAt m nul (fuel + 1) (p + 1) = outAt at flags
            cases flags
            rfl
          | some out =>
            have shorter := readFlags_length found
            obtain ⟨f, rest⟩ := out
            rw [found] at flags
            generalize readFlagsAt m nul (fuel + 1) (p + 1) = outAt at flags
            cases flags with
            | some at_ =>
              simp only [Option.bind_some]
              cases rest with
              | nil =>
                -- case `'\\0'`
                rw [at_.nil.1]
                simp only [Option.bind_some, if_true]
                have again := @ih _ _ args turns at_ (Nat.zero_le _) (by omega)
                rw [again, vprintfmtFrom]
              | cons c' rest =>
                simp only [List.length_cons] at shorter
                obtain ⟨here', nonzero', there'⟩ := at_.cons
                rw [here']
                simp only [Option.bind_some, if_neg nonzero']
                cases convert f c' args with
                | none => rfl
                | some out =>
                  simp only [Option.bind_some]
                  rw [@ih _ _ out.2 turns there' (by omega) (by omega)]

/-- The scan stays in front of the `NUL`, ends, and prints the literal characters as they
are, if and only if no directive is cut off and everything fits. -/
theorem vprintfmt_scans_iff {a : Nat} (text : Text m a (fmt.map Char.toNat)) (args : List Arg) :
    (∃ ps, Pieces fmt ps) ∧ ∀ ps, Pieces fmt ps →
      ((∃ out, (∀ fuel, fmt.length < fuel → vprintfmtAt m (a + fmt.length) fuel a args = some out) ∧
        Outputs ps args out) ↔
        Suits ps args) := by
  have place : At m (a + fmt.length) a fmt := ⟨text, rfl⟩
  refine ⟨pieces_exist fmt, fun ps pieces => ⟨?_, ?_⟩⟩
  · rintro ⟨out, run, -⟩
    have last := run (fmt.length + 1) (Nat.lt_succ_self _)
    rw [vprintfmtAt_eq place (Nat.le_refl _) (Nat.lt_succ_self _)] at last
    exact suits_of_vprintfmt pieces last
  · intro suits
    obtain ⟨out, run, outputs⟩ := vprintfmt_suits pieces suits
    refine ⟨out, fun fuel enough => ?_, outputs⟩
    rw [vprintfmtAt_eq place (Nat.le_refl _) enough]
    exact run

end

/-- `%` and a `NUL`, and more behind it. -/
def cutOff (a : Nat) : Nat := if a = 1 then 37 else if a = 3 then 65 else 0

/-- `%-5d!` -/
def leftFive (a : Nat) : Nat := ['%', '-', '5', 'd', '!'].map Char.toNat |>.getD (a - 1) 0

theorem vprintfmt_scans_left_five :
    Text leftFive 1 (['%', '-', '5', 'd', '!'].map Char.toNat) ∧
      ∃ out, (∀ fuel, 5 < fuel → vprintfmtAt leftFive 6 fuel 1 [.num 7] = some out) ∧
        Outputs [.dir ⟨true, none, ['5'], false, some 'd'⟩, .lit '!'] [.num 7] out := by
  have text : Text leftFive 1 (['%', '-', '5', 'd', '!'].map Char.toNat) := by decide
  refine ⟨text,
    ((vprintfmt_scans_iff text [.num 7]).2 _
      (.dir (d := ⟨true, none, ['5'], false, some 'd'⟩) ?_ rfl
    (.lit (by decide) .nil))).mpr ?_⟩
  · refine ⟨fun c h => (nomatch h), fun c h => (nomatch h), ?_, ?_, ?_, ?_⟩
    · rintro - c ⟨⟩
      rfl
    · rintro c (_ | ⟨_, ⟨⟩⟩)
      rfl
    · rintro c ⟨⟩ -
      rfl
    · rintro c ⟨⟩ -
      decide
  · refine ⟨fun _ h => (nomatch h), by decide, ?_⟩
    rintro c ⟨⟩
    exact ⟨[],
      by rw [Directive.Takes, if_pos (.inl rfl)]; exact ⟨7, rfl, by decide, fun h => nomatch h⟩,
      trivial⟩

/-- Behind a `%` at the end the scan passes the `NUL`, and prints what is there. -/
theorem vprintfmt_passes :
    Text cutOff 1 (['%'].map Char.toNat) ∧ (∀ fuel, vprintfmtAt cutOff 2 fuel 1 [] = none) ∧
      vprintfmtAt cutOff 4 5 1 [] = some ['A'] := by
  have text : Text cutOff 1 (['%'].map Char.toNat) := by decide
  refine ⟨text, fun fuel => ?_, by decide⟩
  by_cases enough : 1 < fuel
  · have place : At cutOff 2 1 ['%'] := ⟨text, rfl⟩
    rw [vprintfmtAt_eq place (Nat.le_refl 1) enough]
    rfl
  · have few : fuel = 0 ∨ fuel = 1 := by omega
    rcases few with rfl | rfl
    · rfl
    · decide

end RiscvMos.Print
