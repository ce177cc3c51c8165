import RiscvMos.Lib.CString

/-!
The tokens of a line: `_gettoken` and `gettoken` of `user/sh.c`, with the `strchr` of
`lib/string.c` that they ask.
-/

namespace RiscvMos.Shell

open CString

abbrev Memory := Nat → Nat

/-- `" \t\r\n"`. -/
def whitespace : List Nat := [32, 9, 13, 10]

/-- `"<|>&;()"`. -/
def symbols : List Nat := [60, 124, 62, 38, 59, 40, 41]

/-- Where the character first stands in the string, whose `NUL` is not compared. -/
def strchr : List Nat → Nat → Option Nat
  | [], _ => none
  | b :: s, c => if b = c then some 0 else (strchr s c).map (· + 1)

/-- The loop that turns whitespace into zero bytes. -/
def skipBlank : Nat → Memory → Nat → Option (Memory × Nat)
  | 0, _, _ => none
  | fuel + 1, m, s =>
    if (strchr whitespace (m s)).isSome then skipBlank fuel (Function.update m s 0) (s + 1)
    else some (m, s)

/-- The loop over the characters of a word. -/
def wordEnd : Nat → Memory → Nat → Option Nat
  | 0, _, _ => none
  | fuel + 1, m, s =>
    if m s ≠ 0 ∧ ¬(strchr (whitespace ++ symbols) (m s)).isSome then wordEnd fuel m (s + 1)
    else some s

/-- What `_gettoken` returns, with `*p1` and `*p2`. -/
structure Lexeme where
  t : Nat
  p1 : Nat
  p2 : Nat

/-- `_gettoken`, with the memory behind it. -/
def gettokenAt (fuel s : Nat) (m : Memory) : Option (Lexeme × Memory) :=
  if s = 0 then some (⟨0, 0, 0⟩, m)
  else do
    let (m, s) ← skipBlank fuel m s
    if m s = 0 then some (⟨0, 0, 0⟩, m)
    else if (strchr symbols (m s)).isSome then some (⟨m s, s, s + 1⟩, Function.update m s 0)
    else
      let p2 ← wordEnd fuel m s
      some (⟨119, s, p2⟩, m)

/-- The memory and the `static` variables of `gettoken`. -/
structure Lexer where
  mem : Memory
  c : Nat
  nc : Nat
  np1 : Nat
  np2 : Nat

/-- The result, `*p1` and what is left behind. -/
def gettoken (fuel s p1 : Nat) (l : Lexer) : Option (Nat × Nat × Lexer) :=
  if s ≠ 0 then do
    let (x, m) ← gettokenAt fuel s l.mem
    some (0, p1, ⟨m, l.c, x.t, x.p1, x.p2⟩)
  else do
    let (x, m) ← gettokenAt fuel l.np2 l.mem
    some (l.nc, l.np1, ⟨m, l.nc, x.t, x.p1, x.p2⟩)

/-- That many calls `gettoken(0, &t)`: each result with its `t`. -/
def gettokens (fuel : Nat) : Nat → Lexer → Option (List (Nat × Nat) × Lexer)
  | 0, l => some ([], l)
  | k + 1, l => do
    let (c, t, l) ← gettoken fuel 0 0 l
    let (rs, l) ← gettokens fuel k l
    some ((c, t) :: rs, l)

/-! ## The tokens of a line -/

inductive Token where
  | word (w : List Nat)
  | symbol (b : Nat)

/-- What `gettoken` returns for it. -/
def Token.code : Token → Nat
  | word _ => 119
  | symbol b => b

def isBlank (b : Nat) : Bool := decide (b ∈ whitespace)

/-- A character of words. -/
def isPlain (b : Nat) : Bool := decide (b ∉ whitespace) && decide (b ∉ symbols)

/-- Whitespace is dropped, and a word takes all that it can. -/
def tokens : List Nat → List Token
  | [] => []
  | b :: line =>
    if b ∈ whitespace then tokens line
    else if b ∈ symbols then .symbol b :: tokens line
    else .word (b :: line.takeWhile isPlain) :: tokens (line.dropWhile isPlain)
termination_by line => line.length
decreasing_by
  · exact Nat.lt_succ_self _
  · exact Nat.lt_succ_self _
  · exact Nat.lt_succ_of_le (List.dropWhile_sublist _).length_le

section
variable {b s fuel : Nat} {line rest : List Nat} {m m' : Memory} {l l' : Lexer} {ts : List Token}

theorem strchr_isSome {cs : List Nat} : (strchr cs b).isSome ↔ b ∈ cs := by
  induction cs with
  | nil => simp [strchr]
  | cons c cs ih =>
    unfold strchr
    by_cases same : c = b
    · simp [same]
    · rw [if_neg same, Option.isSome_map, ih, List.mem_cons]
      constructor
      · exact Or.inr
      · rintro (here | there)
        · exact absurd here.symm same
        · exact there

theorem isPlain_iff : isPlain b = true ↔ b ∉ whitespace ++ symbols := by
  simp only [isPlain, Bool.and_eq_true, decide_eq_true_eq, List.mem_append, not_or]

theorem isBlank_iff : isBlank b = true ↔ b ∈ whitespace := decide_eq_true_iff

theorem tokens_blank : tokens (line.dropWhile isBlank) = tokens line := by
  induction line with
  | nil => rfl
  | cons b line ih =>
    by_cases blank : b ∈ whitespace
    · rw [List.dropWhile_cons_of_pos (isBlank_iff.mpr blank), ih, tokens, if_pos blank]
    · rw [List.dropWhile_cons_of_neg (fun h => blank (isBlank_iff.mp h))]

theorem skipBlank_ends (text : Text m s line) (enough : line.length < fuel) :
    ∃ m', skipBlank fuel m s = some (m', s + (line.takeWhile isBlank).length) ∧
      Text m' (s + (line.takeWhile isBlank).length) (line.dropWhile isBlank) ∧
      (∀ a, a < s → m' a = m a) ∧
      ((∀ b ∈ line.head?, isBlank b = true) → m' s = 0) := by
  induction line generalizing m s fuel with
  | nil =>
    cases fuel with
    | zero => exact absurd enough (Nat.not_lt_zero _)
    | succ fuel =>
      have nul : m s = 0 := text
      refine ⟨m, ?_, text, fun a _ => rfl, fun _ => nul⟩
      rw [skipBlank, nul, if_neg (by decide)]
      rfl
  | cons b line ih =>
    cases fuel with
    | zero => exact absurd enough (Nat.not_lt_zero _)
    | succ fuel =>
      obtain ⟨here, nonzero, more⟩ := text
      by_cases blank : b ∈ whitespace
      · have same : ∀ i, s + 1 ≤ i → i ≤ s + 1 + line.length → Function.update m s 0 i = m i :=
          fun i low _ => Function.update_of_ne (by omega) ..
        obtain ⟨m', run, after, before, _⟩ := ih (more.congr same) (Nat.lt_of_succ_lt_succ enough)
        have place : s + 1 + (line.takeWhile isBlank).length =
            s + ((line.takeWhile isBlank).length + 1) := by omega
        refine ⟨m', ?_, ?_, ?_, ?_⟩
        · rw [skipBlank, here, if_pos (strchr_isSome.mpr blank), run,
            List.takeWhile_cons_of_pos (isBlank_iff.mpr blank), List.length_cons, place]
        · rw [List.takeWhile_cons_of_pos (isBlank_iff.mpr blank),
            List.dropWhile_cons_of_pos (isBlank_iff.mpr blank),
            List.length_cons, ← place]
          exact after
        · intro a low
          rw [before a (Nat.lt_succ_of_lt low), Function.update_of_ne (Nat.ne_of_lt low)]
        · intro _
          rw [before s (Nat.lt_succ_self s), Function.update_self]
      · have stop : ¬ isBlank b = true := fun h => blank (isBlank_iff.mp h)
        refine ⟨m, ?_, ?_, fun a _ => rfl, fun h => absurd (h b rfl) stop⟩
        · rw [skipBlank, here, if_neg (fun h => blank (strchr_isSome.mp h)),
            List.takeWhile_cons_of_neg stop]
          rfl
        · rw [List.takeWhile_cons_of_neg stop, List.dropWhile_cons_of_neg stop]
          exact ⟨here, nonzero, more⟩

theorem wordEnd_ends (text : Text m s line) (enough : line.length < fuel) :
    wordEnd fuel m s = some (s + (line.takeWhile isPlain).length) := by
  induction line generalizing s fuel with
  | nil =>
    cases fuel with
    | zero => exact absurd enough (Nat.not_lt_zero _)
    | succ fuel =>
      have nul : m s = 0 := text
      rw [wordEnd, if_neg (fun h => h.1 nul)]
      rfl
  | cons b line ih =>
    cases fuel with
    | zero => exact absurd enough (Nat.not_lt_zero _)
    | succ fuel =>
      obtain ⟨here, nonzero, more⟩ := text
      rw [wordEnd, here]
      by_cases plain : isPlain b = true
      · have place : s + 1 + (line.takeWhile isPlain).length =
            s + ((line.takeWhile isPlain).length + 1) := by omega
        rw [if_pos ⟨nonzero, fun h => isPlain_iff.mp plain (strchr_isSome.mp h)⟩,
          ih more (Nat.lt_of_succ_lt_succ enough),
          List.takeWhile_cons_of_pos plain, List.length_cons, place]
      · rw [if_neg (fun h => plain (isPlain_iff.mpr fun found => h.2 (strchr_isSome.mpr found))),
          List.takeWhile_cons_of_neg plain]
        rfl

/-- What lies ahead when the next token is looked for at `s`: the token and those behind it. -/
inductive Ahead (fuel s : Nat) (m : Memory) : Lexeme → List Token → Prop
  | ended : Ahead fuel s m ⟨0, 0, 0⟩ []
  | symbol {b p : Nat} {rest : List Nat} (below : s ≤ p) (text : Text m (p + 1) rest)
    (enough : rest.length < fuel) :
    Ahead fuel s m ⟨b, p, p + 1⟩ (.symbol b :: tokens rest)
  | word {w : List Nat} {p : Nat} {rest : List Nat} (below : s < p + w.length) (holds : Holds m p w)
    (nonzero : ∀ b ∈ w, b ≠ 0) (text : Text m (p + w.length) rest) (enough : rest.length < fuel)
    (stop : ∀ b ∈ rest.head?, ¬isPlain b = true) :
    Ahead fuel s m ⟨119, p, p + w.length⟩ (.word w :: tokens rest)

theorem head_dropWhile {p : Nat → Bool} {xs : List Nat} :
    ∀ b ∈ (xs.dropWhile p).head?, ¬p b = true := by
  induction xs with
  | nil =>
    intro b h
    cases h
  | cons x xs ih =>
    by_cases take : p x = true
    · rw [List.dropWhile_cons_of_pos take]
      exact ih
    · rw [List.dropWhile_cons_of_neg take]
      rintro b ⟨⟩
      exact take

/-- `_gettoken` cuts off the next token, and what does not belong to a word becomes zero where it
stood. -/
theorem gettokenAt_ahead (text : Text m s line) (hs : s ≠ 0) (enough : line.length < fuel) :
    ∃ x m', gettokenAt fuel s m = some (x, m') ∧ Ahead fuel s m' x (tokens line) ∧
    (∀ a, a < s → m' a = m a) ∧
      ((∀ b ∈ line.head?, ¬isPlain b = true) → m' s = 0) := by
  obtain ⟨m₁, run, text₁, before, cut⟩ := skipBlank_ends text enough
  have low : s ≤ s + (line.takeWhile isBlank).length := Nat.le_add_right ..
  have short : (line.dropWhile isBlank).length < fuel :=
    Nat.lt_of_le_of_lt (List.dropWhile_sublist _).length_le enough
  have first : ∀ b ∈ (line.dropWhile isBlank).head?, ¬isBlank b = true := head_dropWhile
  have start : gettokenAt fuel s m =
      if m₁ (s + (line.takeWhile isBlank).length) = 0 then some (⟨0, 0, 0⟩, m₁)
      else if (strchr symbols (m₁ (s + (line.takeWhile isBlank).length))).isSome then
        some (⟨m₁ (s + (line.takeWhile isBlank).length), s + (line.takeWhile isBlank).length,
          s + (line.takeWhile isBlank).length + 1⟩,
          Function.update m₁ (s + (line.takeWhile isBlank).length) 0)
      else (wordEnd fuel m₁ (s + (line.takeWhile isBlank).length)).bind fun p2 =>
        some (⟨119, s + (line.takeWhile isBlank).length, p2⟩, m₁) := by
    rw [gettokenAt, if_neg hs, run]
    rfl
  have zero : m₁ s = 0 ∨ s + (line.takeWhile isBlank).length = s ∧
      line.dropWhile isBlank = line := by
    cases line with
    | nil => exact .inr ⟨rfl, rfl⟩
    | cons b line =>
      by_cases blank : isBlank b = true
      · exact .inl (cut (by rintro c ⟨⟩; exact blank))
      · rw [List.takeWhile_cons_of_neg blank, List.dropWhile_cons_of_neg blank]
        exact .inr ⟨rfl, rfl⟩
  rw [← tokens_blank, start]
  generalize s + (line.takeWhile isBlank).length = p at *
  generalize line.dropWhile isBlank = rest at *
  cases rest with
  | nil =>
    have nul : m₁ p = 0 := text₁
    refine ⟨⟨0, 0, 0⟩, m₁, if_pos nul, ?_, before, ?_⟩
    · rw [tokens]
      exact .ended
    · intro _
      rcases zero with zero | ⟨same, _⟩
      · exact zero
      · rw [← same]
        exact nul
  | cons b rest =>
    have blank : b ∉ whitespace := fun h => first b rfl (isBlank_iff.mpr h)
    obtain ⟨here, nonzero, more⟩ := text₁
    rw [here, if_neg nonzero, tokens, if_neg blank]
    by_cases symbol : b ∈ symbols
    · rw [if_pos (strchr_isSome.mpr symbol), if_pos symbol]
      have more : Text (Function.update m₁ p 0) (p + 1) rest :=
        more.congr fun i above _ => Function.update_of_ne (by omega) ..
      refine ⟨_, _, rfl, .symbol low more (Nat.lt_of_succ_lt short), ?_, ?_⟩
      · intro a below
        rw [Function.update_of_ne (by omega), before a below]
      · intro _
        by_cases same : p = s
        · rw [same, Function.update_self]
        · rcases zero with zero | ⟨same', _⟩
          · rw [Function.update_of_ne (Ne.symm same), zero]
          · exact absurd same' same
    · have plain : isPlain b = true :=
        isPlain_iff.mpr fun h => (List.mem_append.mp h).elim blank symbol
      have whole : Text m₁ p (b :: rest) := ⟨here, nonzero, more⟩
      have end_ := wordEnd_ends whole short
      rw [List.takeWhile_cons_of_pos plain] at end_
      rw [if_neg (fun h => symbol (strchr_isSome.mp h)), if_neg symbol, end_]
      have cut : Text m₁ p ((b :: rest.takeWhile isPlain) ++ rest.dropWhile isPlain) := by
        rw [List.cons_append, List.takeWhile_append_dropWhile]
        exact whole
      obtain ⟨⟨holds, plainNonzero⟩, behind⟩ := text_append.mp cut
      have enough' : (rest.dropWhile isPlain).length < fuel :=
        Nat.lt_of_le_of_lt (List.dropWhile_sublist _).length_le (Nat.lt_of_succ_lt short)
      refine ⟨_, _, rfl, .word ?_ holds plainNonzero behind enough' head_dropWhile, before, ?_⟩
      · rw [List.length_cons]
        omega
      · intro stop
        rcases zero with zero | ⟨_, same⟩
        · exact zero
        · rw [← same] at stop
          exact absurd plain (stop b rfl)

theorem Ahead.behind {x : Lexeme} (h : Ahead fuel s m x ts) : s < x.p2 ∨ x.p2 = 0 := by
  cases h with
  | ended => exact .inr rfl
  | symbol below => exact .inl (Nat.lt_succ_of_le below)
  | word below => exact .inl below

/-- The state between two calls: the next token is cut off already. -/
def Looks (fuel : Nat) (l : Lexer) (ts : List Token) : Prop :=
  ∃ s, Ahead fuel s l.mem ⟨l.nc, l.np1, l.np2⟩ ts

/-- A call with the next token ahead looks at what is behind it. -/
theorem gettoken_from {x : Lexeme} (run : gettokenAt fuel l.np2 l.mem = some (x, m)) :
    gettoken fuel 0 0 l = some (l.nc, l.np1, ⟨m, l.nc, x.t, x.p1, x.p2⟩) := by
  unfold gettoken
  rw [if_neg (fun h => h rfl), run]
  rfl

/-- A call hands out the token ahead, which has its `NUL` by now. -/
theorem gettoken_next (h : Looks fuel l ts) :
    ∃ l', gettoken fuel 0 0 l = some (((ts.map Token.code).head?).getD 0, l.np1, l') ∧
    Looks fuel l' ts.tail ∧
      (∀ a, a < l.np2 ∨ l.np2 = 0 → l'.mem a = l.mem a) ∧
      (l.np2 ≠ 0 ∧ l.np2 < l'.np2 ∨ l'.np2 = 0) ∧
      (∀ w, ts.head? = some (.word w) → Text l'.mem l.np1 w ∧ l.np2 = l.np1 + w.length) := by
  obtain ⟨s, ahead⟩ := h
  generalize same : Lexeme.mk l.nc l.np1 l.np2 = x at ahead
  cases ahead with
  | ended =>
    injection same with code start behind
    have run : gettokenAt fuel l.np2 l.mem = some (⟨0, 0, 0⟩, l.mem) := if_pos behind
    refine ⟨⟨l.mem, l.nc, 0, 0, 0⟩, ?_, ⟨0, .ended⟩, fun a _ => rfl, .inr rfl, ?_⟩
    · rw [gettoken_from run, code]
      rfl
    · intro w h
      cases h
  | symbol below text enough =>
    injection same with code start behind
    rw [← behind] at text
    have somewhere : l.np2 ≠ 0 := by omega
    obtain ⟨x, m', run, next, before, _⟩ := gettokenAt_ahead text somewhere enough
    refine ⟨⟨m', l.nc, x.t, x.p1, x.p2⟩, ?_, ⟨_, next⟩, ?_, ?_, ?_⟩
    · rw [gettoken_from run, code]
      rfl
    · rintro a (low | none)
      · exact before a low
      · exact absurd none somewhere
    · rcases next.behind with more | last
      · exact .inl ⟨somewhere, more⟩
      · exact .inr last
    · intro w h
      cases h
  | word below holds nonzero text enough stop =>
    injection same with code start behind
    rw [← behind] at text below
    rw [← start] at holds behind
    have somewhere : l.np2 ≠ 0 := by omega
    obtain ⟨x, m', run, next, before, cut⟩ := gettokenAt_ahead text somewhere enough
    refine ⟨⟨m', l.nc, x.t, x.p1, x.p2⟩, ?_, ⟨_, next⟩, ?_, ?_, ?_⟩
    · rw [gettoken_from run, code]
      rfl
    · rintro a (low | none)
      · exact before a low
      · exact absurd none somewhere
    · rcases next.behind with more | last
      · exact .inl ⟨somewhere, more⟩
      · exact .inr last
    · rintro w ⟨⟩
      refine ⟨text_iff.mpr ⟨⟨holds.congr fun i _ high => before i (by omega), nonzero⟩, ?_⟩, behind⟩
      rw [← behind]
      exact cut stop

theorem take_padded {k b : Nat} {xs : List Nat} :
    (xs ++ List.replicate (k + 1) b).take k = (xs ++ List.replicate k b).take k := by
  have long : k ≤ (xs ++ List.replicate k b).length := by
    rw [List.length_append, List.length_replicate]
    exact Nat.le_add_left ..
  rw [List.replicate_succ', ← List.append_assoc, List.take_append_of_le_length long]

/-- Many calls hand out the tokens that are left, then zeroes, and no word changes any more. -/
theorem gettokens_spec (k : Nat) (h : Looks fuel l ts) :
    ∃ rs l', gettokens fuel k l = some (rs, l') ∧
      rs.map Prod.fst = (ts.map Token.code ++ List.replicate k 0).take k ∧
      (∀ i w, i < k → ts[i]? = some (.word w) → ∃ r, rs[i]? = some r ∧ Text l'.mem r.2 w) ∧
      ∀ a, a < l.np2 ∨ l.np2 = 0 → l'.mem a = l.mem a := by
  induction k generalizing l ts with
  | zero =>
    refine ⟨[], l, rfl, rfl, ?_, fun a _ => rfl⟩
    intro i w hi
    exact absurd hi (Nat.not_lt_zero i)
  | succ k ih =>
    obtain ⟨l₁, call, looks, same, further, here⟩ := gettoken_next h
    obtain ⟨rs, l', calls, codes, words, keeps⟩ := ih looks
    refine ⟨(((ts.map Token.code).head?).getD 0, l.np1) :: rs, l', ?_, ?_, ?_, ?_⟩
    · rw [gettokens, call]
      simp only [Option.bind_eq_bind, Option.bind_some, calls]
    · cases ts with
      | nil =>
        rw [List.map_cons, codes]
        simp [List.replicate_succ]
      | cons t ts =>
        rw [List.map_cons, codes, List.map_cons, List.cons_append, List.take_succ_cons,
          List.tail_cons, take_padded]
        rfl
    · intro i w hi h
      cases i with
      | zero =>
        obtain ⟨text, behind⟩ := here w (by rw [List.head?_eq_getElem?]; exact h)
        refine ⟨_, rfl, text.congr fun a _ high => ?_⟩
        apply keeps
        rw [← behind] at high
        omega
      | succ i =>
        rw [List.getElem?_cons_succ]
        refine words i w (Nat.lt_of_succ_lt_succ hi) ?_
        rw [List.getElem?_tail]
        exact h
    · intro a low
      rw [← same a low]
      apply keeps
      omega

/-- The first call only looks at the line. -/
theorem gettoken_line {p1 : Nat} (text : Text l.mem s line) (hs : s ≠ 0)
    (enough : line.length < fuel) :
    ∃ l₀, gettoken fuel s p1 l = some (0, p1, l₀) ∧ Looks fuel l₀ (tokens line) := by
  obtain ⟨x, m, run, ahead, _⟩ := gettokenAt_ahead text hs enough
  refine ⟨⟨m, l.c, x.t, x.p1, x.p2⟩, ?_, s, ahead⟩
  rw [gettoken, if_pos hs, run]
  rfl

/-- The shell's tokens are those of the line, then zeroes, and each word that was
handed out stays a string of its own. -/
theorem gettoken_tokens {l : Lexer} {p1 : Nat} (text : Text l.mem s line) (hs : s ≠ 0)
    (enough : line.length < fuel) :
    ∃ l₀, gettoken fuel s p1 l = some (0, p1, l₀) ∧
      ∀ k, ∃ rs l', gettokens fuel k l₀ = some (rs, l') ∧
        rs.map Prod.fst = ((tokens line).map Token.code ++ List.replicate k 0).take k ∧
        ∀ i w, i < k → (tokens line)[i]? = some (.word w) →
        ∃ r, rs[i]? = some r ∧ Text l'.mem r.2 w := by
  obtain ⟨l₀, run, looks⟩ := gettoken_line text hs enough
  refine ⟨l₀, run, fun k => ?_⟩
  obtain ⟨rs, l', calls, codes, words, _⟩ := gettokens_spec k looks
  exact ⟨rs, l', calls, codes, words⟩

/-- `ls|w`: the symbol that becomes the `NUL` of `ls` is still handed out. -/
theorem gettoken_tokens_pipe :
    ∃ l₀, gettoken 5 1 0 ⟨fun a => [108, 115, 124, 119].getD (a - 1) 0, 0, 0, 0, 0⟩ =
    some (0, 0, l₀) ∧
      ∀ k, ∃ rs l', gettokens 5 k l₀ = some (rs, l') ∧
        rs.map Prod.fst =
        ((tokens [108, 115, 124, 119]).map Token.code ++ List.replicate k 0).take k ∧
        ∀ i w, i < k → (tokens [108, 115, 124, 119])[i]? = some (.word w) →
        ∃ r, rs[i]? = some r ∧ Text l'.mem r.2 w :=
  gettoken_tokens (s := 1) ⟨rfl, by decide, rfl, by decide, rfl, by decide, rfl, by decide, rfl⟩
    (by decide) (by decide)

example : (tokens [108, 115, 124, 119]).map Token.code = [119, 124, 119] := by
  simp [tokens, whitespace, symbols, isPlain, Token.code]

end

end RiscvMos.Shell
