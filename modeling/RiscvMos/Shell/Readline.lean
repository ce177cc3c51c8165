import Mathlib.Logic.Function.Basic
import Mathlib.Data.List.Basic
import Mathlib.Data.List.GetD
import Mathlib.Data.List.Infix
import Mathlib.Algebra.Order.Ring.Int
import Mathlib.Algebra.Order.Ring.Nat

/-!
`readline` of `user/sh.c`: a line from the console, edited with backspaces.
-/

namespace RiscvMos.Shell

/-- The memory around `buf` by the index that reaches it, the indices used so far, and the
number of `"\\b"` printed. -/
structure Line where
  buf : Int → Nat
  used : List Int
  printed : Nat

/-- How a call ends, with the bytes that are left to read. -/
inductive Outcome where
  | returned (s : Line) (rest : List Nat)
  | exited (s : Line)
  /-- The index is no `int` any more. -/
  | overflow (s : Line)

/-- `'\b'` or `0x7f`. -/
def isBackspace (b : Nat) : Bool := b == 8 || b == 127

/-- `'\r'` or `'\n'`. -/
def isEnd (b : Nat) : Bool := b == 13 || b == 10

namespace Line

def load (s : Line) (i : Int) : Nat × Line := (s.buf i, { s with used := i :: s.used })

def store (s : Line) (i : Int) (b : Nat) : Line :=
  { s with buf := Function.update s.buf i b, used := i :: s.used }

theorem store_same (s : Line) (i : Int) (b : Nat) : (s.store i b).buf i = b := by
  unfold store
  exact Function.update_self ..

theorem store_other (s : Line) {i j : Int} (h : j ≠ i) (b : Nat) :
    (s.store i b).buf j = s.buf j := by
  unfold store
  exact Function.update_of_ne h ..

end Line

/-- The loop behind `"line too long\n"`. -/
def skipLine : List Nat → Line → Outcome
  | [], s => .returned (s.store 0 0) []
  | b :: input, s =>
    let (c, s) := (s.store 0 b).load 0
    if isEnd c = true then .returned (s.store 0 0) input else skipLine input s

/-- The index behind a backspace at `i`. -/
def back (i : Int) : Int := if 0 < i then i - 2 else -1

/-- A byte has been read to `i`: the index that the loop goes on from. -/
def editAt (i : Int) (s : Line) : Int × Line :=
  let (c, s) := s.load i
  if isBackspace c = true then
    let (d, s) := s.load (back i)
    (back i, if d ≠ 8 then { s with printed := s.printed + 1 } else s)
  else (i, s)

/-- The loop of `readline`, which reads a byte in each turn. -/
def readlineFrom (n : Nat) : List Nat → Int → Line → Outcome
  | [], i, s => if i < n then .exited s else skipLine [] s
  | b :: input, i, s =>
    if i < n then
      let (i, s) := editAt i (s.store i b)
      let (c, s) := s.load i
      if isEnd c = true then .returned (s.store i 0) input
      else if i + 1 = 2 ^ 31 then .overflow s
      else readlineFrom n input (i + 1) s
    else skipLine (b :: input) s

def readline (n : Nat) (input : List Nat) (buf : Int → Nat) : Outcome :=
  readlineFrom n input 0 ⟨buf, [], 0⟩

/-! ## The line that is typed -/

/-- A byte applied to the line kept so far. -/
def keep (line : List Nat) (b : Nat) : List Nat :=
  if isBackspace b = true then line.dropLast else line ++ [b]

/-- The line that is left of what is typed. -/
def edited (typed : List Nat) : List Nat := typed.foldl keep []

/-- The call stays in the buffer and leaves the line there, with its `NUL`. -/
def Delivers (n : Nat) (line rest : List Nat) (o : Outcome) : Prop :=
  ∃ s, o = .returned s rest ∧ (∀ i ∈ s.used, 0 ≤ i ∧ i < n) ∧
    (∀ j < line.length, s.buf j = line.getD j 0) ∧
    s.buf line.length = 0

/-- At `typed`, from the line kept so far: what is to hold before each byte. -/
def AtEach (P : List Nat → Nat → Prop) (line typed : List Nat) : Prop :=
  ∀ p b, p ++ [b] <+: typed → P (p.foldl keep line) b

/-- A backspace has two characters before it, and the index stays an `int`. -/
def Careful (line : List Nat) (b : Nat) : Prop :=
  (isBackspace b = true → 2 ≤ line.length) ∧ (keep line b).length < 2 ^ 31

section
variable {n b : Nat} {line typed rest : List Nat} {s : Line} {i : Int} {P : List Nat → Nat → Prop}

theorem atEach_nil : AtEach P line [] := by
  intro p b h
  exact absurd (List.prefix_nil.mp h) (List.append_ne_nil_of_right_ne_nil p (List.cons_ne_nil b []))

theorem atEach_cons : AtEach P line (b :: typed) ↔ P line b ∧ AtEach P (keep line b) typed := by
  constructor
  · intro each
    constructor
    · exact each [] b ⟨typed, rfl⟩
    · intro p c h
      exact each (b :: p) c (List.cons_prefix_cons.mpr ⟨rfl, h⟩)
  · rintro ⟨first, each⟩ p c h
    cases p with
    | nil =>
      have same := (List.cons_prefix_cons.mp h).1
      rw [same]
      exact first
    | cons a p =>
      obtain ⟨same, rest⟩ := List.cons_prefix_cons.mp h
      rw [List.foldl_cons, same]
      exact each p c rest

/-- What the buffer holds when the next byte is read. -/
structure Kept (n : Nat) (line : List Nat) (s : Line) : Prop where
  inside : ∀ i ∈ s.used, 0 ≤ i ∧ i < n
  text : ∀ j < line.length, s.buf j = line.getD j 0
  /-- No byte of the line ends it, or deletes. -/
  plain : ∀ c ∈ line, isEnd c = false

theorem skipLine_used {input rest : List Nat} {s s' : Line}
    (h : skipLine input s = .returned s' rest) (hi : i ∈ s.used) :
    i ∈ s'.used := by
  induction input generalizing s with
  | nil =>
    injection h with same
    rw [← same]
    exact List.mem_cons_of_mem 0 hi
  | cons b input ih =>
    unfold skipLine at h
    by_cases last : isEnd b = true
    · simp only [Line.load, Line.store, Function.update_self, last, if_true] at h
      injection h with same
      rw [← same]
      exact List.mem_cons_of_mem 0 (List.mem_cons_of_mem 0 (List.mem_cons_of_mem 0 hi))
    · simp only [Line.load, Line.store, Function.update_self, last] at h
      exact ih h (List.mem_cons_of_mem 0 (List.mem_cons_of_mem 0 hi))

theorem editAt_char (h : isBackspace (s.buf i) = false) : editAt i s = (i, (s.load i).2) := by
  simp only [editAt, Line.load, h, Bool.false_eq_true, if_false]

theorem editAt_back (h : isBackspace (s.buf i) = true) :
    (editAt i s).1 = back i ∧ (editAt i s).2.buf = s.buf ∧
    (editAt i s).2.used = back i :: i :: s.used := by
  by_cases echo : s.buf (back i) = 8
  · simp [editAt, Line.load, h, echo]
  · simp [editAt, Line.load, h, echo]

theorem editAt_used {j : Int} (hi : i ∈ s.used) : i ∈ (editAt j s).2.used := by
  cases backspace : isBackspace (s.buf j) with
  | true =>
    rw [(editAt_back backspace).2.2]
    exact List.mem_cons_of_mem _ (List.mem_cons_of_mem _ hi)
  | false =>
    rw [editAt_char backspace]
    exact List.mem_cons_of_mem _ hi

/-- One turn of the loop. -/
theorem readlineFrom_cons {input : List Nat} (more : i < n) {k : Int} {s₁ : Line}
    (edit : editAt i (s.store i b) = (k, s₁)) :
    readlineFrom n (b :: input) i s =
      if isEnd (s₁.buf k) = true then .returned ((s₁.load k).2.store k 0) input
      else if k + 1 = 2 ^ 31 then .overflow (s₁.load k).2
      else readlineFrom n input (k + 1) (s₁.load k).2 := by
  rw [readlineFrom, if_pos more, edit]
  rfl

/-- An index that was used stays so. -/
theorem readlineFrom_used {input : List Nat} {s' : Line} {j : Int}
    (h : readlineFrom n input j s = .returned s' rest) (hi : i ∈ s.used) : i ∈ s'.used := by
  induction input generalizing j s with
  | nil =>
    unfold readlineFrom at h
    by_cases more : j < n
    · rw [if_pos more] at h
      cases h
    · rw [if_neg more] at h
      exact skipLine_used h hi
  | cons b input ih =>
    by_cases more : j < n
    · cases edit : editAt j (s.store j b) with
      | mk k s₁ =>
        have used : i ∈ (editAt j (s.store j b)).2.used := editAt_used (List.mem_cons_of_mem j hi)
        rw [edit] at used
        rw [readlineFrom_cons more edit] at h
        by_cases last : isEnd (s₁.buf k) = true
        · rw [if_pos last] at h
          injection h with same
          rw [← same]
          exact List.mem_cons_of_mem k (List.mem_cons_of_mem k used)
        · rw [if_neg last] at h
          by_cases large : k + 1 = 2 ^ 31
          · rw [if_pos large] at h
            cases h
          · rw [if_neg large] at h
            exact ih h (List.mem_cons_of_mem k used)
    · unfold readlineFrom at h
      rw [if_neg more] at h
      exact skipLine_used h hi

/-- A character goes behind the line. -/
theorem readlineFrom_char {input : List Nat} (h : Kept n line s) (room : line.length < n)
    (char : isBackspace b = false) (inner : isEnd b = false) (fits : line.length + 1 < 2 ^ 31) :
    ∃ s', readlineFrom n (b :: input) line.length s = readlineFrom n input (line ++ [b]).length s' ∧
      Kept n (line ++ [b]) s' := by
  have more : (line.length : Int) < n := Int.ofNat_lt.mpr room
  have stored := s.store_same line.length b
  have edit := editAt_char (i := line.length) (s := s.store line.length b)
    (by rw [stored]; exact char)
  have small : (line.length : Int) + 1 ≠ 2 ^ 31 := by omega
  have next : ((line ++ [b]).length : Int) = line.length + 1 := by
    rw [List.length_append]
    rfl
  refine ⟨(((s.store line.length b).load line.length).2.load line.length).2, ?_, ⟨?_, ?_, ?_⟩⟩
  · rw [readlineFrom_cons more edit, next]
    have last : ¬ isEnd (((s.store line.length b).load line.length).2.buf line.length) = true := by
      show ¬ isEnd ((s.store line.length b).buf line.length) = true
      rw [stored, inner]
      exact Bool.false_ne_true
    rw [if_neg last, if_neg small]
  · intro i hi
    have place : i = line.length ∨ i ∈ s.used := by
      simp only [Line.load, Line.store, List.mem_cons] at hi
      tauto
    cases place with
    | inl here => omega
    | inr before => exact h.inside i before
  · intro j hj
    rw [List.length_append, List.length_singleton] at hj
    show (s.store line.length b).buf j = _
    by_cases here : j = line.length
    · rw [here, stored, List.getD_append_right _ _ _ _ (Nat.le_refl _), Nat.sub_self]
      rfl
    · have other : (j : Int) ≠ line.length := by omega
      rw [s.store_other other, List.getD_append _ _ _ _ (by omega)]
      exact h.text j (by omega)
  · intro c hc
    cases List.mem_append.mp hc with
    | inl old => exact h.plain c old
    | inr new =>
      rw [List.mem_singleton.mp new]
      exact inner

/-- Behind the largest `int` there is no index. -/
theorem readlineFrom_large {input : List Nat} (room : line.length < n)
    (char : isBackspace b = false) (inner : isEnd b = false) (large : line.length + 1 = 2 ^ 31) :
    readlineFrom n (b :: input) line.length s =
      .overflow (((s.store line.length b).load line.length).2.load line.length).2 := by
  have more : (line.length : Int) < n := Int.ofNat_lt.mpr room
  have stored := s.store_same line.length b
  have edit := editAt_char (i := line.length) (s := s.store line.length b)
    (by rw [stored]; exact char)
  have last : ¬ isEnd (((s.store line.length b).load line.length).2.buf line.length) = true := by
    show ¬ isEnd ((s.store line.length b).buf line.length) = true
    rw [stored, inner]
    exact Bool.false_ne_true
  rw [readlineFrom_cons more edit, if_neg last, if_pos (by omega)]

/-- A backspace behind two characters or more takes the last one away. -/
theorem readlineFrom_back {input : List Nat} (h : Kept n line s) (room : line.length < n)
    (char : isBackspace b = true) (two : 2 ≤ line.length) (fits : line.length < 2 ^ 31) :
    ∃ s', readlineFrom n (b :: input) line.length s = readlineFrom n input line.dropLast.length s' ∧
      Kept n line.dropLast s' := by
  have more : (line.length : Int) < n := Int.ofNat_lt.mpr room
  have stored := s.store_same line.length b
  obtain ⟨index, buf, used⟩ :=
    editAt_back (i := line.length) (s := s.store line.length b) (by rw [stored]; exact char)
  have behind : back line.length = line.length - 2 := by
    unfold back
    rw [if_pos (by omega)]
  have next : (line.dropLast.length : Int) = line.length - 2 + 1 := by
    rw [List.length_dropLast]
    omega
  rw [behind] at index used
  cases edit : editAt line.length (s.store line.length b) with
  | mk k s₁ =>
    rw [edit] at index buf used
    simp only at index buf used
    subst index
    have kept : s₁.buf (line.length - 2) = line.getD (line.length - 2) 0 := by
      have other : (line.length : Int) - 2 ≠ line.length := by omega
      rw [buf, s.store_other other, ← h.text (line.length - 2) (by omega)]
      congr 1
      omega
    have inner : isEnd (s₁.buf (line.length - 2)) = false := by
      rw [kept]
      apply h.plain
      rw [List.getD_eq_getElem _ _ (by omega)]
      exact List.getElem_mem _
    refine ⟨(s₁.load (line.length - 2)).2, ?_, ⟨?_, ?_, ?_⟩⟩
    · rw [readlineFrom_cons more edit, next, if_neg (by rw [inner]; exact Bool.false_ne_true),
        if_neg (by omega)]
    · intro i hi
      have place : i = line.length - 2 ∨ i = line.length ∨ i ∈ s.used := by
        simp only [Line.load, used, Line.store, List.mem_cons] at hi
        tauto
      rcases place with here | here | before
      · omega
      · omega
      · exact h.inside i before
    · intro j hj
      rw [List.length_dropLast] at hj
      have other : (j : Int) ≠ line.length := by omega
      show s₁.buf j = _
      rw [buf, s.store_other other, h.text j (by omega), List.getD_eq_getElem _ _ (by omega),
        List.getD_eq_getElem _ _ (by rw [List.length_dropLast]; exact hj), List.getElem_dropLast]
    · exact fun c hc => h.plain c (List.mem_of_mem_dropLast hc)

/-- A backspace behind less uses the place before the buffer. -/
theorem readlineFrom_strays {input : List Nat} {s' : Line} (room : line.length < n)
    (char : isBackspace b = true)
    (few : line.length < 2) (h : readlineFrom n (b :: input) line.length s = .returned s' rest) :
    -1 ∈ s'.used := by
  have more : (line.length : Int) < n := Int.ofNat_lt.mpr room
  have stored := s.store_same line.length b
  obtain ⟨index, -, used⟩ :=
    editAt_back (i := line.length) (s := s.store line.length b) (by rw [stored]; exact char)
  have behind : back line.length = -1 := by
    unfold back
    by_cases one : (0 : Int) < line.length
    · rw [if_pos one]
      omega
    · rw [if_neg one]
  rw [behind] at used
  cases edit : editAt line.length (s.store line.length b) with
  | mk k s₁ =>
    rw [edit] at used
    have strays : -1 ∈ s₁.used := by
      rw [used]
      exact List.mem_cons_self
    rw [readlineFrom_cons more edit] at h
    by_cases last : isEnd (s₁.buf k) = true
    · rw [if_pos last] at h
      injection h with same
      rw [← same]
      exact List.mem_cons_of_mem k (List.mem_cons_of_mem k strays)
    · rw [if_neg last] at h
      by_cases large : k + 1 = 2 ^ 31
      · rw [if_pos large] at h
        cases h
      · rw [if_neg large] at h
        exact readlineFrom_used h (List.mem_cons_of_mem k strays)

/-- The terminator becomes the `NUL`. -/
theorem readlineFrom_end {t : Nat} (h : Kept n line s) (room : line.length < n)
    (last : isEnd t = true) :
    Delivers n line rest (readlineFrom n (t :: rest) line.length s) := by
  have more : (line.length : Int) < n := Int.ofNat_lt.mpr room
  have stored := s.store_same line.length t
  have char : isBackspace t = false := by
    unfold isEnd at last
    unfold isBackspace
    simp only [Bool.or_eq_true, beq_iff_eq, Bool.or_eq_false_iff, beq_eq_false_iff_ne] at last ⊢
    omega
  have edit := editAt_char (i := line.length) (s := s.store line.length t)
    (by rw [stored]; exact char)
  have ends : isEnd (((s.store line.length t).load line.length).2.buf line.length) = true := by
    show isEnd ((s.store line.length t).buf line.length) = true
    rw [stored]
    exact last
  have nul :=
    (((s.store line.length t).load line.length).2.load line.length).2.store_same line.length 0
  refine ⟨_, by rw [readlineFrom_cons more edit, if_pos ends], ?_, ?_, nul⟩
  · intro i hi
    have place : i = line.length ∨ i ∈ s.used := by
      simp only [Line.load, Line.store, List.mem_cons] at hi
      tauto
    cases place with
    | inl here => omega
    | inr before => exact h.inside i before
  · intro j hj
    have other : (j : Int) ≠ line.length := by omega
    rw [Line.store_other _ other]
    show (s.store line.length t).buf j = _
    rw [s.store_other other]
    exact h.text j hj

theorem readlineFrom_iff {t : Nat} (h : Kept n line s) (fits : line.length < 2 ^ 31)
    (inner : ∀ b ∈ typed, isEnd b = false) (last : isEnd t = true)
    (short : ∀ p, p <+: typed → (p.foldl keep line).length < n) :
    Delivers n (typed.foldl keep line) rest (readlineFrom n (typed ++ t :: rest) line.length s) ↔
      AtEach Careful line typed := by
  have room : line.length < n := short [] List.nil_prefix
  induction typed generalizing line s with
  | nil => exact iff_of_true (readlineFrom_end h room last) atEach_nil
  | cons b typed ih =>
    have inner' : ∀ c ∈ typed, isEnd c = false := fun c hc => inner c (List.mem_cons_of_mem b hc)
    have short' (p : List Nat) (hp : p <+: typed) : (p.foldl keep (keep line b)).length < n :=
      short (b :: p) (List.cons_prefix_cons.mpr ⟨rfl, hp⟩)
    have room' : (keep line b).length < n := short' [] List.nil_prefix
    rw [atEach_cons, List.foldl_cons, List.cons_append]
    cases char : isBackspace b with
    | true =>
      have kept : keep line b = line.dropLast := by
        unfold keep
        rw [if_pos char]
      have less : line.dropLast.length < 2 ^ 31 := by
        rw [List.length_dropLast]
        omega
      by_cases two : 2 ≤ line.length
      · obtain ⟨s', run, h'⟩ :=
          @readlineFrom_back n b line s (typed ++ t :: rest) h room char two fits
        rw [kept] at short' room' ⊢
        have onward := ih h' less inner' short' room'
        have careful : Careful line b := ⟨fun _ => two, by rw [kept]; exact less⟩
        rw [run]
        exact onward.trans (and_iff_right careful).symm
      · apply iff_of_false
        · rintro ⟨s', run, inside, -⟩
          have strays := inside (-1) (readlineFrom_strays room char (Nat.lt_of_not_le two) run)
          omega
        · exact fun careful => two (careful.1.1 char)
    | false =>
      have kept : keep line b = line ++ [b] := by
        unfold keep
        rw [char]
        rfl
      have inner_b := inner b List.mem_cons_self
      by_cases small : line.length + 1 < 2 ^ 31
      · have less : (line ++ [b]).length < 2 ^ 31 := by
          rw [List.length_append]
          exact small
        obtain ⟨s', run, h'⟩ :=
          @readlineFrom_char n b line s (typed ++ t :: rest) h room char inner_b small
        rw [kept] at short' room' ⊢
        have onward := ih h' less inner' short' room'
        have careful : Careful line b :=
          ⟨fun back => absurd back (by rw [char]; decide), by rw [kept]; exact less⟩
        rw [run]
        exact onward.trans (and_iff_right careful).symm
      · apply iff_of_false
        · rintro ⟨s', run, -⟩
          rw [readlineFrom_large room char inner_b (by omega)] at run
          cases run
        · intro careful
          have less := careful.1.2
          rw [kept, List.length_append] at less
          exact small less

end

/-- `readline` edits the line as it should exactly where each backspace has at least two characters
before it that are kept, and the number of the characters kept is an `int`. -/
theorem readline_edits_iff (n : Nat) (typed rest : List Nat) (t : Nat) (buf : Int → Nat)
    (inner : ∀ b ∈ typed, isEnd b = false)
    (last : isEnd t = true) (short : ∀ p, p <+: typed → (edited p).length < n) :
    Delivers n (edited typed) rest (readline n (typed ++ t :: rest) buf) ↔
    AtEach Careful [] typed := by
  have start : Kept n [] ⟨buf, [], 0⟩ :=
    ⟨fun i hi => absurd hi List.not_mem_nil, fun j hj => absurd hj (Nat.not_lt_zero j),
      fun c hc => absurd hc List.not_mem_nil⟩
  exact readlineFrom_iff start (by decide) inner last short

theorem keep_length_le (line typed : List Nat) :
    (typed.foldl keep line).length ≤ line.length + typed.length := by
  induction typed generalizing line with
  | nil => exact Nat.le_refl _
  | cons b typed ih =>
    have first : (keep line b).length ≤ line.length + 1 := by
      unfold keep
      cases isBackspace b with
      | true =>
        rw [if_pos rfl, List.length_dropLast]
        omega
      | false =>
        rw [if_neg Bool.false_ne_true, List.length_append]
        exact Nat.le_refl _
    have rest := ih (keep line b)
    rw [List.foldl_cons, List.length_cons]
    omega

/-- `ab`, a backspace, `c`. -/
theorem readline_edits_abc :
    Delivers 1024 (edited [97, 98, 127, 99]) []
    (readline 1024 ([97, 98, 127, 99] ++ 13 :: []) fun _ => 0) := by
  have short (p : List Nat) (hp : p <+: [97, 98, 127, 99]) : (edited p).length < 1024 := by
    have kept := keep_length_le [] p
    have less : p.length ≤ 4 := hp.length_le
    unfold edited
    rw [List.length_nil] at kept
    omega
  apply (readline_edits_iff 1024 [97, 98, 127, 99] [] 13 (fun _ => 0) (by decide)
    (by decide) short).mpr
  simp [atEach_cons, atEach_nil, Careful, keep, isBackspace]

/-- `a` and a backspace: the place before the buffer is read. -/
theorem readline_strays :
    ¬ Delivers 1024 (edited [97, 8]) [] (readline 1024 [97, 8, 13] fun _ => 0) := by
  rintro ⟨s, run, inside, -⟩
  obtain ⟨s', out, strays⟩ : ∃ s', readline 1024 [97, 8, 13] (fun _ => 0) =
    .returned s' [] ∧ -1 ∈ s'.used :=
    ⟨_, rfl, by decide⟩
  rw [out] at run
  injection run with same
  rw [same] at strays
  exact absurd (inside (-1) strays).1 (by decide)

end RiscvMos.Shell
