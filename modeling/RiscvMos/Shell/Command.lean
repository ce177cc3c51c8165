import RiscvMos.Shell.Lexer

/-!
A command of the shell: `parsecmd` and `runcmd` of `user/sh.c`, with every store to `argv`
and to `prog` checked against the array.
-/

namespace RiscvMos.Shell

open CString

/-- The system calls of `parsecmd`. -/
inductive Call where
  | open (t mode : Nat)
  | dup (oldfdnum newfdnum : Int)
  | close (fdnum : Int)
  | pipe
  | fork

/-- What the calls return, by how many were made before, and the ends that `pipe` stores. -/
structure Kernel where
  result : Nat → Int
  ends : Nat → Int × Int

/-- A process of the shell. -/
structure Proc where
  lex : Lexer
  argv : Int → Nat
  rightpipe : Int
  calls : List Call

/-- Where a process stops without a result. -/
inductive Stop where
  | exit
  /-- A store to `argv` or to `prog` at an index outside. -/
  | argv (i : Int)
  | prog (i : Int)
  /-- The loops did not end. -/
  | fuel

/-- `argv[i] = t`, with `MAXARGS` 128. -/
def storeArgv (i : Int) (t : Nat) (s : Proc) : Except Stop Proc :=
  if 0 ≤ i ∧ i < 128 then .ok { s with argv := Function.update s.argv i t } else .error (.argv i)

/-- `if ((r = call) < 0) return r`, and what is done otherwise. -/
def tried (K : Kernel) (c : Call) (s : Proc) (k : Int → Proc → Except Stop (Int × Proc)) :
    Except Stop (Int × Proc) :=
  let r := K.result s.calls.length
  let s := { s with calls := c :: s.calls }
  if r < 0 then .ok (r, s) else k r s

/-- The cases `'<'` and `'>'`. -/
def redirect (K : Kernel) (fuel mode : Nat) (newfdnum : Int) (s : Proc)
    (k : Proc → Except Stop (Int × Proc)) :
    Except Stop (Int × Proc) :=
  match gettoken fuel 0 0 s.lex with
  | none => .error .fuel
  | some (c, t, lex) =>
    if c ≠ 119 then .error .exit
    else
      tried K (.open t mode) { s with lex := lex } fun fd s =>
      tried K (.dup fd newfdnum) s fun _ s =>
      tried K (.close fd) s fun _ s => k s

/-- The ends of the pipe that was made last. -/
def pipeEnds (K : Kernel) (s : Proc) : Int × Int := K.ends (s.calls.length - 1)

/-- The loop of `parsecmd`, with `argc` arguments so far. -/
def parsecmdFrom (K : Kernel) (fuel : Nat) : Nat → Nat → Proc → Except Stop (Int × Proc)
  | 0, _, _ => .error .fuel
  | turns + 1, argc, s =>
    match gettoken fuel 0 0 s.lex with
    | none => .error .fuel
    | some (c, t, lex) =>
      let s := { s with lex := lex }
      if c = 0 then .ok (argc, s)
      else if c = 119 then
        if 128 ≤ argc then .error .exit
        else (storeArgv argc t s).bind fun s => parsecmdFrom K fuel turns (argc + 1) s
      else if c = 60 then redirect K fuel 0 0 s fun s => parsecmdFrom K fuel turns argc s
      else if c = 62 then redirect K fuel 1 1 s fun s => parsecmdFrom K fuel turns argc s
      else if c = 124 then
        tried K .pipe s fun _ s =>
        let p := pipeEnds K s
        tried K .fork s fun r s =>
        let s := { s with rightpipe := r }
        if r = 0 then
          tried K (.dup p.1 0) s fun _ s =>
          tried K (.close p.1) s fun _ s =>
          tried K (.close p.2) s fun _ s => parsecmdFrom K fuel turns 0 s
        else
          tried K (.dup p.2 1) s fun _ s =>
          tried K (.close p.2) s fun _ s =>
          tried K (.close p.1) s fun _ s => .ok (argc, s)
      else parsecmdFrom K fuel turns argc s

def parsecmd (K : Kernel) (fuel : Nat) (s : Proc) : Except Stop (Int × Proc) :=
  parsecmdFrom K fuel fuel 0 s

/-- The stack around `prog`, by the index that reaches it. -/
abbrev Prog := Int → Nat

/-- `prog[i] = b`. -/
def storeProg (i : Int) (b : Nat) (prog : Prog) : Except Stop Prog :=
  if 0 ≤ i ∧ i < 1024 then .ok (Function.update prog i b) else .error (.prog i)

/-- `strcpy` to `prog`, from its `i`-th byte on. -/
def strcpy (m : Memory) : Nat → Nat → Nat → Prog → Except Stop Prog
  | 0, _, _, _ => .error .fuel
  | fuel + 1, src, i, prog =>
    (storeProg i (m src) prog).bind fun prog => if m src = 0 then .ok prog
      else strcpy m fuel (src + 1) (i + 1) prog

/-- `strlen`, with `n` bytes behind it. -/
def strlen (prog : Prog) : Nat → Nat → Except Stop Nat
  | 0, _ => .error .fuel
  | fuel + 1, n => if prog n = 0 then .ok n else strlen prog fuel (n + 1)

/-- `".b"` behind a name that does not have it. -/
def suffixed (len : Int) (prog : Prog) : Except Stop Prog :=
  if prog (len - 2) ≠ 46 ∨ prog (len - 1) ≠ 98 then do
    let prog ← storeProg len 46 prog
    let prog ← storeProg (len + 1) 98 prog
    storeProg (len + 2) 0 prog
  else .ok prog

/-- What `runcmd` makes of the count that `parsecmd` returned, up to the `spawn`: what it
starts there, if there is a command. -/
def launch (fuel : Nat) (prog : Prog) (argc : Int) (s : Proc) :
    Except Stop (Option (Prog × Proc)) :=
  if argc = 0 then .ok none
  else do
    let s ← storeArgv argc 0 s
    let prog ← strcpy s.lex.mem fuel (s.argv 0) 0 prog
    let len ← strlen prog fuel 0
    let prog ← suffixed len prog
    .ok (some (prog, s))

def runcmd (K : Kernel) (fuel a : Nat) (prog : Prog) (s : Proc) :
    Except Stop (Option (Prog × Proc)) :=
  match gettoken fuel a 0 s.lex with
  | none => .error .fuel
  | some (_, _, lex) =>
    (parsecmd K fuel { s with lex := lex, rightpipe := 0 }).bind fun (argc, s) =>
      launch fuel prog argc s

/-! ## Lines that stay inside -/

/-- No store went outside, and the loops ended. -/
inductive Inside {α : Type} : Except Stop α → Prop
  | ok (a : α) : Inside (.ok a)
  | exit : Inside (.error .exit)

/-- The words of the command leave `argv` a place for its `NULL`, and `prog` one for the suffix. -/
def Small (ws : List (List Nat)) : Prop :=
  ws ≠ [] → ws.length < 128 ∧ ∀ w ∈ ws.head?, w.length ≤ 1021 ∨ [46, 98] <:+ w

/-- The tokens that are left, after `n` calls and with the words of the command so far: until the
command is complete no call fails, unless the shell gives up before, and the command is small. -/
def Fits (result : Nat → Int) : Nat → List (List Nat) → List Token → Prop
  | _, ws, [] => Small ws
  | n, ws, .word w :: ts => ws.length < 128 → Fits result n (ws ++ [w]) ts
  | n, ws, .symbol b :: ts =>
    if b = 60 ∨ b = 62 then
      match ts with
      | .word _ :: ts =>
        0 ≤ result n ∧ 0 ≤ result (n + 1) ∧ 0 ≤ result (n + 2) ∧ Fits result (n + 3) ws ts
      | _ => True
    else if b = 124 then
      0 ≤ result n ∧ 0 ≤ result (n + 1) ∧ 0 ≤ result (n + 2) ∧ 0 ≤ result (n + 3) ∧
        0 ≤ result (n + 4) ∧
        if result (n + 1) = 0 then Fits result (n + 5) [] ts else Small ws
    else Fits result n ws ts

/-- A redirection is left, with what holds of the tokens behind it. -/
def Redirects (result : Nat → Int) (n : Nat) (F : List Token → Prop) : List Token → Prop
  | .word _ :: ts => 0 ≤ result n ∧ 0 ≤ result (n + 1) ∧ 0 ≤ result (n + 2) ∧ F ts
  | _ => True

section
variable {K : Kernel} {fuel turns argc n : Nat} {s : Proc} {l l' : Lexer} {line w : List Nat}
    {ws : List (List Nat)}
  {ts : List Token} {F G : Prop} {o : Except Stop (Int × Proc)}

/-- A token of a line that is at most so long. -/
def Token.Proper (n : Nat) : Token → Prop
  | word w => w.length ≤ n
  | symbol b => b ∈ symbols

theorem Token.Proper.mono {t : Token} {k : Nat} (h : t.Proper n) (le : n ≤ k) : t.Proper k := by
  cases t with
  | word w => exact Nat.le_trans h le
  | symbol b => exact h

theorem tokens_proper : ∀ t ∈ tokens line, t.Proper line.length := by
  fun_induction tokens line with
  | case1 => exact List.forall_mem_nil _
  | case2 b line blank ih => exact fun t h => (ih t h).mono (Nat.le_succ _)
  | case3 b line blank symbol ih =>
    exact List.forall_mem_cons.mpr ⟨symbol, fun t h => (ih t h).mono (Nat.le_succ _)⟩
  | case4 b line blank symbol ih =>
    refine List.forall_mem_cons.mpr
      ⟨Nat.succ_le_succ (List.takeWhile_sublist _).length_le, fun t h => ?_⟩
    exact (ih t h).mono (Nat.le_succ_of_le (List.dropWhile_sublist _).length_le)

theorem tokens_length : (tokens line).length ≤ line.length := by
  fun_induction tokens line with
  | case1 => exact Nat.le_refl _
  | case2 b line blank ih => exact Nat.le_succ_of_le ih
  | case3 b line blank symbol ih => exact Nat.succ_le_succ ih
  | case4 b line blank symbol ih =>
    exact Nat.succ_le_succ (Nat.le_trans ih (List.dropWhile_sublist _).length_le)

/-- A word that was handed out, behind what the lexer still changes. -/
def Handed (l : Lexer) (t : Nat) (w : List Nat) : Prop :=
  Text l.mem t w ∧ (t + w.length < l.np2 ∨ l.np2 = 0)

/-- A call keeps the words that were handed out, and its own. -/
theorem gettoken_keeps (h : Looks fuel l ts) :
    ∃ l', gettoken fuel 0 0 l = some (((ts.map Token.code).head?).getD 0, l.np1, l') ∧
    Looks fuel l' ts.tail ∧
      (∀ t w, Handed l t w → Handed l' t w) ∧ ∀ w, ts.head? = some (.word w) →
      Handed l' l.np1 w := by
  obtain ⟨l', call, looks, same, further, here⟩ := gettoken_next h
  refine ⟨l', call, looks, ?_, ?_⟩
  · rintro t w ⟨text, low⟩
    constructor
    · exact text.congr fun a _ high => same a (by omega)
    · omega
  · intro w first
    obtain ⟨text, behind⟩ := here w first
    constructor
    · exact text
    · omega

/-- How `parsecmd` ends, when `F` tells whether the line stays inside. -/
inductive Parsed (F : Prop) : Except Stop (Int × Proc) → Prop
  | exit (fits : F) : Parsed F (.error .exit)
  | failed {r : Int} {s : Proc} (negative : r < 0) (not : ¬F) : Parsed F (.ok (r, s))
  | ready {ws : List (List Nat)} {s : Proc} (few : ws.length ≤ 128)
    (first : ∀ w ∈ ws.head?, w.length < 1024 ∧ Handed s.lex (s.argv 0) w) (fits : F ↔ Small ws) :
    Parsed F (.ok (ws.length, s))

theorem Parsed.iff (h : Parsed F o) (same : F ↔ G) : Parsed G o := by
  cases h with
  | exit fits => exact .exit (same.mp fits)
  | failed negative not => exact .failed negative fun g => not (same.mpr g)
  | ready few first fits => exact .ready few first (same.symm.trans fits)

/-- A call that fails ends `parsecmd` with a negative count. -/
theorem tried_parsed {c : Call} {k : Int → Proc → Except Stop (Int × Proc)}
    (count : s.calls.length = n)
    (next : 0 ≤ K.result n → Parsed F (k (K.result n) { s with calls := c :: s.calls })) :
    Parsed (0 ≤ K.result n ∧ F) (tried K c s k) := by
  unfold tried
  rw [count]
  by_cases negative : K.result n < 0
  · simp only [if_pos negative]
    exact .failed negative fun h => Int.not_le.mpr negative h.1
  · have fine : 0 ≤ K.result n := Int.not_lt.mp negative
    simp only [if_neg negative]
    exact (next fine).iff (and_iff_right fine).symm

/-- The words so far: what is known of them between two turns. -/
structure Words (ws : List (List Nat)) (s : Proc) : Prop where
  few : ws.length ≤ 128
  first : ∀ w ∈ ws.head?, w.length < 1024 ∧ Handed s.lex (s.argv 0) w

theorem Words.none : Words [] s := ⟨Nat.zero_le _, fun _ h => nomatch h⟩

theorem Words.mono {s' : Proc} (h : Words ws s) (argv : s'.argv 0 = s.argv 0)
    (keeps : ∀ t w, Handed s.lex t w → Handed s'.lex t w) : Words ws s' := by
  constructor
  · exact h.few
  · intro w first
    rw [argv]
    exact ⟨(h.first w first).1, keeps _ _ (h.first w first).2⟩

/-- One more word, which is stored behind the others. -/
theorem Words.push {t : Nat} (h : Words ws s) (few : ws.length < 128) (short : w.length < 1024)
    (keeps : ∀ t w, Handed s.lex t w → Handed l' t w) (kept : Handed l' t w) :
    Words (ws ++ [w]) { s with lex := l', argv := Function.update s.argv ws.length t } := by
  constructor
  · rw [List.length_append]
    exact few
  · intro first head
    cases ws with
    | nil =>
      cases head
      have stored : Function.update s.argv 0 t 0 = t := Function.update_self ..
      refine ⟨short, ?_⟩
      change Handed l' (Function.update s.argv 0 t 0) _
      rw [stored]
      exact kept
    | cons v ws =>
      have other : (0 : Int) ≠ ((v :: ws).length : Int) := by
        rw [List.length_cons]
        omega
      refine ⟨(h.first first head).1, ?_⟩
      change Handed l' (Function.update s.argv ((v :: ws).length : Int) t 0) first
      rw [Function.update_of_ne other]
      exact keeps _ _ (h.first first head).2

theorem fits_redirect {b : Nat} {result : Nat → Int} (h : b = 60 ∨ b = 62) :
    Fits result n ws (.symbol b :: ts) ↔ Redirects result n (Fits result (n + 3) ws) ts := by
  cases ts with
  | nil => simp only [Fits, Redirects, if_pos h]
  | cons t ts => cases t <;> simp only [Fits, Redirects, if_pos h]

theorem fits_pipe {result : Nat → Int} :
    Fits result n ws (.symbol 124 :: ts) ↔
      0 ≤ result n ∧ 0 ≤ result (n + 1) ∧ 0 ≤ result (n + 2) ∧ 0 ≤ result (n + 3) ∧
      0 ≤ result (n + 4) ∧
        if result (n + 1) = 0 then Fits result (n + 5) [] ts else Small ws := by
  cases ts with
  | nil => simp [Fits]
  | cons t ts => cases t <;> simp [Fits]

theorem fits_other {b : Nat} {result : Nat → Int} (redirect : ¬(b = 60 ∨ b = 62)) (pipe : b ≠ 124) :
    Fits result n ws (.symbol b :: ts) ↔ Fits result n ws ts := by
  cases ts with
  | nil => simp [Fits, redirect, pipe]
  | cons t ts => cases t <;> simp [Fits, redirect, pipe]

/-- Both redirections. -/
theorem redirect_parsed {mode : Nat} {newfdnum : Int} {k : Proc → Except Stop (Int × Proc)}
    {F : List Token → Prop}
    (looks : Looks fuel s.lex ts) (words : Words ws s) (proper : ∀ t ∈ ts, t.Proper 1023)
    (next : ∀ w ts' s', ts = .word w :: ts' → Looks fuel s'.lex ts' → Words ws s' →
      s'.calls.length = s.calls.length + 3 → Parsed (F ts') (k s')) :
    Parsed (Redirects K.result s.calls.length F ts) (redirect K fuel mode newfdnum s k) := by
  obtain ⟨l', call, looks', keeps, _⟩ := gettoken_keeps looks
  unfold redirect
  rw [call]
  cases ts with
  | nil => exact .exit trivial
  | cons t ts =>
    cases t with
    | symbol b =>
      have symbol : b ∈ symbols := proper _ List.mem_cons_self
      have other : b ≠ 119 := by
        rintro rfl
        exact absurd symbol (by decide)
      simp only [List.map_cons, List.head?_cons, Option.getD_some, Token.code, ne_eq, other,
        not_false_eq_true, if_true]
      exact .exit trivial
    | word w =>
      simp only [List.map_cons, List.head?_cons, Option.getD_some, Token.code, ne_eq,
        not_true_eq_false, if_false]
      refine tried_parsed rfl fun _ => tried_parsed rfl fun _ => tried_parsed rfl fun _ => ?_
      exact next w ts _ rfl looks' (words.mono rfl keeps) rfl

theorem parsecmdFrom_word {t : Nat} (call : gettoken fuel 0 0 s.lex = some (119, t, l')) :
    parsecmdFrom K fuel (turns + 1) argc s =
      if 128 ≤ argc then .error .exit
      else (storeArgv argc t { s with lex := l' }).bind fun s =>
      parsecmdFrom K fuel turns (argc + 1) s := by
  rw [parsecmdFrom, call]
  rfl

theorem parsecmdFrom_symbol {b t : Nat} (call : gettoken fuel 0 0 s.lex = some (b, t, l'))
    (symbol : b ∈ symbols) :
    parsecmdFrom K fuel (turns + 1) argc s =
      if b = 60 then redirect K fuel 0 0 { s with lex := l' } fun s =>
      parsecmdFrom K fuel turns argc s
      else if b = 62 then redirect K fuel 1 1 { s with lex := l' } fun s =>
      parsecmdFrom K fuel turns argc s
      else if b = 124 then
        tried K .pipe { s with lex := l' } fun _ s =>
        let p := pipeEnds K s
        tried K .fork s fun r s =>
        let s := { s with rightpipe := r }
        if r = 0 then
          tried K (.dup p.1 0) s fun _ s =>
          tried K (.close p.1) s fun _ s =>
          tried K (.close p.2) s fun _ s => parsecmdFrom K fuel turns 0 s
        else
          tried K (.dup p.2 1) s fun _ s =>
          tried K (.close p.2) s fun _ s =>
          tried K (.close p.1) s fun _ s => .ok (argc, s)
      else parsecmdFrom K fuel turns argc { s with lex := l' } := by
  have end_ : b ≠ 0 := by
    rintro rfl
    exact absurd symbol (by decide)
  have word : b ≠ 119 := by
    rintro rfl
    exact absurd symbol (by decide)
  rw [parsecmdFrom, call]
  simp only [if_neg end_, if_neg word]

theorem parsecmdFrom_parsed (looks : Looks fuel s.lex ts) (words : Words ws s)
    (proper : ∀ t ∈ ts, t.Proper 1023) (enough : ts.length < turns) :
    Parsed (Fits K.result s.calls.length ws ts) (parsecmdFrom K fuel turns ws.length s) := by
  induction turns generalizing s ts ws with
  | zero => exact absurd enough (Nat.not_lt_zero _)
  | succ turns ih =>
    obtain ⟨l', call, looks', keeps, handed⟩ := gettoken_keeps looks
    cases ts with
    | nil =>
      rw [parsecmdFrom, call]
      have same : Words ws { s with lex := l' } := words.mono rfl keeps
      exact .ready same.few same.first Iff.rfl
    | cons t ts =>
      have proper' : ∀ t ∈ ts, t.Proper 1023 := (List.forall_mem_cons.mp proper).2
      have enough' : ts.length < turns := Nat.lt_of_succ_lt_succ enough
      cases t with
      | word w =>
        rw [parsecmdFrom_word call]
        by_cases full : 128 ≤ ws.length
        · rw [if_pos full]
          exact .exit fun few => absurd full (Nat.not_le.mpr few)
        · have few : ws.length < 128 := Nat.not_le.mp full
          have more : Words (ws ++ [w])
              { s with lex := l', argv := Function.update s.argv ws.length s.lex.np1 } :=
            words.push few (Nat.lt_succ_of_le (proper _ List.mem_cons_self)) keeps (handed w rfl)
          rw [if_neg full, storeArgv, if_pos (by omega)]
          have rest := ih looks' more proper' enough'
          rw [List.length_append] at rest
          exact rest.iff ⟨fun h _ => h, fun h => h few⟩
      | symbol b =>
        have symbol : b ∈ symbols := proper _ List.mem_cons_self
        have same : Words ws { s with lex := l' } := words.mono rfl keeps
        have behind : ∀ {w : List Nat} {ts' : List Token} {s' : Proc},
            Looks fuel s'.lex ts' → Words ws s' →
            s'.calls.length = s.calls.length + 3 → ts = .word w :: ts' →
            Parsed (Fits K.result (s.calls.length + 3) ws ts')
            (parsecmdFrom K fuel turns ws.length s') := by
          rintro w ts' s' looks₂ words₂ calls rfl
          have rest :=
            ih looks₂ words₂ (List.forall_mem_cons.mp proper').2 (Nat.lt_of_succ_lt enough')
          rw [calls] at rest
          exact rest
        rw [@parsecmdFrom_symbol K fuel turns ws.length s l' b _ call symbol]
        by_cases input : b = 60
        · rw [if_pos input]
          refine Parsed.iff (redirect_parsed looks' same proper' ?_)
            (fits_redirect (.inl input)).symm
          rintro w ts' s' rest looks words calls
          exact behind looks words calls rest
        · rw [if_neg input]
          by_cases output : b = 62
          · rw [if_pos output]
            refine Parsed.iff (redirect_parsed looks' same proper' ?_)
              (fits_redirect (.inr output)).symm
            rintro w ts' s' rest looks words calls
            exact behind looks words calls rest
          · rw [if_neg output]
            by_cases piped : b = 124
            · have right : ∀ {s' : Proc}, s'.lex = l' → s'.calls.length = s.calls.length + 5 →
                  Parsed (Fits K.result (s.calls.length + 5) [] ts)
                  (parsecmdFrom K fuel turns 0 s') := by
                rintro s' rfl calls
                have rest : Parsed (Fits K.result s'.calls.length [] ts)
                    (parsecmdFrom K fuel turns 0 s') :=
                  ih looks' .none proper' enough'
                rw [calls] at rest
                exact rest
              rw [if_pos piped, piped]
              refine Parsed.iff
                (tried_parsed rfl fun _ => tried_parsed rfl fun _ => ?_) fits_pipe.symm
              by_cases child : K.result (s.calls.length + 1) = 0
              · simp only [List.length_cons, if_pos child]
                refine tried_parsed rfl fun _ => tried_parsed rfl fun _ =>
                  tried_parsed rfl fun _ => ?_
                exact right rfl rfl
              · simp only [List.length_cons, if_neg child]
                refine tried_parsed rfl fun _ => tried_parsed rfl fun _ =>
                  tried_parsed rfl fun _ => ?_
                exact .ready same.few same.first Iff.rfl
            · rw [if_neg piped]
              exact (ih looks' same proper' enough').iff
                (fits_other (not_or.mpr ⟨input, output⟩) piped).symm

theorem parsecmd_parsed (looks : Looks fuel s.lex ts) (proper : ∀ t ∈ ts, t.Proper 1023)
    (enough : ts.length < fuel) :
    Parsed (Fits K.result s.calls.length [] ts) (parsecmd K fuel s) :=
  parsecmdFrom_parsed looks .none proper enough

/-! ### The program's name -/

variable {m : Memory} {src i : Nat} {prog : Prog}

theorem strcpy_ends (text : Text m src w) (enough : w.length < fuel) (room : i + w.length < 1024) :
    ∃ prog', strcpy m fuel src i prog = .ok prog' ∧ (∀ j : Int, j < i → prog' j = prog j) ∧
      Text (fun k => prog' k) i w := by
  induction w generalizing src i fuel prog with
  | nil =>
    cases fuel with
    | zero => exact absurd enough (Nat.not_lt_zero _)
    | succ fuel =>
      have nul : m src = 0 := text
      refine ⟨Function.update prog i 0, ?_, ?_, Function.update_self ..⟩
      · rw [strcpy, nul, storeProg, if_pos (by omega)]
        rfl
      · intro j before
        exact Function.update_of_ne (Int.ne_of_lt before) ..
  | cons b w ih =>
    cases fuel with
    | zero => exact absurd enough (Nat.not_lt_zero _)
    | succ fuel =>
      obtain ⟨here, nonzero, more⟩ := text
      rw [List.length_cons] at room
      have inside : (0 : Int) ≤ i ∧ (i : Int) < 1024 := by omega
      obtain ⟨prog', run, before, text⟩ :=
        @ih fuel (src + 1) (i + 1) (Function.update prog i b) more
          (Nat.lt_of_succ_lt_succ enough) (by omega)
      refine ⟨prog', ?_, ?_, ?_, nonzero, text⟩
      · rw [strcpy, here, storeProg, if_pos inside]
        exact (if_neg nonzero).trans run
      · intro j low
        rw [before j (by omega), Function.update_of_ne (Int.ne_of_lt low)]
      · change prog' i = b
        rw [before i (by omega), Function.update_self]

theorem strlen_ends (text : Text (fun k => prog k) n w) (enough : w.length < fuel) :
    strlen prog fuel n = .ok (n + w.length) := by
  induction w generalizing n fuel with
  | nil =>
    cases fuel with
    | zero => exact absurd enough (Nat.not_lt_zero _)
    | succ fuel => exact if_pos text
  | cons b w ih =>
    cases fuel with
    | zero => exact absurd enough (Nat.not_lt_zero _)
    | succ fuel =>
      obtain ⟨here, nonzero, more⟩ := text
      have other : prog n ≠ 0 := fun h => nonzero (here.symm.trans h)
      have place : n + 1 + w.length = n + (w.length + 1) := by omega
      rw [strlen, if_neg other, ih more (Nat.lt_of_succ_lt_succ enough), List.length_cons, place]

theorem storeProg_inside {j : Int} {b : Nat} (low : 0 ≤ j) (high : j < 1024) :
    storeProg j b prog = .ok (Function.update prog j b) := if_pos ⟨low, high⟩

theorem suffixed_short (short : n ≤ 1021) : ∃ prog', suffixed n prog = .ok prog' := by
  unfold suffixed
  by_cases named : prog ((n : Int) - 2) ≠ 46 ∨ prog ((n : Int) - 1) ≠ 98
  · rw [if_pos named, storeProg_inside (by omega) (by omega)]
    refine ⟨Function.update (Function.update (Function.update prog n 46) (n + 1) 98) (n + 2) 0, ?_⟩
    simp only [Except.bind, bind]
    rw [storeProg_inside (by omega) (by omega)]
    exact storeProg_inside (by omega) (by omega)
  · exact ⟨prog, if_neg named⟩

theorem suffixed_long (long : 1022 ≤ n)
    (named : prog ((n : Int) - 2) ≠ 46 ∨ prog ((n : Int) - 1) ≠ 98) (short : n < 1024) :
    ∃ i, suffixed n prog = .error (.prog i) := by
  unfold suffixed
  rw [if_pos named, storeProg_inside (by omega) (by omega)]
  simp only [Except.bind, bind]
  by_cases last : n = 1023
  · exact ⟨n + 1, by rw [storeProg, if_neg (by omega)]⟩
  · rw [storeProg_inside (by omega) (by omega)]
    refine ⟨n + 2, ?_⟩
    simp only []
    rw [storeProg, if_neg (by omega)]

theorem named_iff {x y : Nat} : [46, 98] <:+ w ++ [x, y] ↔ x = 46 ∧ y = 98 := by
  constructor
  · rintro ⟨v, same⟩
    have pair := (List.append_inj' same rfl).2
    injection pair with first pair
    injection pair with second
    exact ⟨first.symm, second.symm⟩
  · rintro ⟨rfl, rfl⟩
    exact List.suffix_append ..

/-- The suffix stays inside unless a long name does not have it. -/
theorem suffixed_inside (text : Text (fun k => prog k) 0 w) (short : w.length < 1024) :
    Inside (suffixed w.length prog) ↔ w.length ≤ 1021 ∨ [46, 98] <:+ w := by
  by_cases small : w.length ≤ 1021
  · obtain ⟨prog', run⟩ := @suffixed_short w.length prog small
    rw [run]
    exact iff_of_true (.ok prog') (.inl small)
  · obtain ⟨v, x, y, rfl⟩ : ∃ v x y, w = v ++ [x, y] := by
      rcases List.eq_nil_or_concat w with rfl | ⟨u, y, rfl⟩
      · exact absurd (Nat.zero_le _) small
      · rcases List.eq_nil_or_concat u with rfl | ⟨v, x, rfl⟩
        · exact absurd (Nat.le_of_ble_eq_true rfl) small
        · exact ⟨v, x, y, by simp⟩
    have long : 1022 ≤ (v ++ [x, y]).length := Nat.lt_of_not_le small
    obtain ⟨_, here, _, next, _⟩ := text_append.mp text
    rw [or_iff_right small, named_iff]
    have count : (v ++ [x, y]).length = v.length + 2 := List.length_append
    have first : prog (((v ++ [x, y]).length : Int) - 2) = x := by
      have place : ((v ++ [x, y]).length : Int) - 2 = (0 + v.length : Nat) := by omega
      rw [place]
      exact here
    have second : prog (((v ++ [x, y]).length : Int) - 1) = y := by
      have place : ((v ++ [x, y]).length : Int) - 1 = (0 + v.length + 1 : Nat) := by omega
      rw [place]
      exact next
    by_cases named : x = 46 ∧ y = 98
    · have run : suffixed (v ++ [x, y]).length prog = .ok prog := by
        rw [suffixed, first, second, if_neg]
        rintro (other | other)
        · exact other named.1
        · exact other named.2
      rw [run]
      exact iff_of_true (.ok prog) named
    · have other : prog (((v ++ [x, y]).length : Int) - 2) ≠ 46 ∨
          prog (((v ++ [x, y]).length : Int) - 1) ≠ 98 := by
        rw [first, second]
        exact not_and_or.mp named
      obtain ⟨i, run⟩ := suffixed_long long other short
      rw [run]
      exact iff_of_false (fun h => nomatch h) named

/-! ## The command -/

theorem storeArgv_inside {j : Int} {t : Nat} (low : 0 ≤ j) (high : j < 128) :
    storeArgv j t s = .ok { s with argv := Function.update s.argv j t } := if_pos ⟨low, high⟩

theorem storeArgv_outside {j : Int} {t : Nat} (out : ¬(0 ≤ j ∧ j < 128)) :
    storeArgv j t s = .error (.argv j) :=
  if_neg out

theorem launch_inside (few : ws.length ≤ 128)
    (first : ∀ w ∈ ws.head?, w.length < 1024 ∧ Handed s.lex (s.argv 0) w)
    (enough : 1024 ≤ fuel) : Inside (launch fuel prog ws.length s) ↔ Small ws := by
  cases ws with
  | nil => exact iff_of_true (.ok none) fun h => absurd rfl h
  | cons w ws =>
    obtain ⟨short, text, _⟩ := first w rfl
    have some_ : ((w :: ws).length : Int) ≠ 0 := by
      rw [List.length_cons]
      omega
    unfold launch
    rw [if_neg some_]
    by_cases full : (w :: ws).length = 128
    · rw [storeArgv_outside (by omega)]
      refine iff_of_false (fun h => nomatch h) fun h => ?_
      exact absurd full (Nat.ne_of_lt (h (List.cons_ne_nil w ws)).1)
    · have less : (w :: ws).length < 128 := Nat.lt_of_le_of_ne few full
      have other : (0 : Int) ≠ ((w :: ws).length : Int) := some_.symm
      have enough' : w.length < fuel := Nat.lt_of_lt_of_le short enough
      obtain ⟨prog', copy, _, text'⟩ :=
        @strcpy_ends fuel w s.lex.mem (s.argv 0) 0 prog text enough' (by omega)
      have small : Small (w :: ws) ↔ w.length ≤ 1021 ∨ [46, 98] <:+ w := by
        constructor
        · intro h
          exact (h (List.cons_ne_nil w ws)).2 w rfl
        · intro named _
          refine ⟨less, ?_⟩
          rintro v ⟨⟩
          exact named
      rw [storeArgv_inside (by omega) (by omega), small, ← suffixed_inside text' short]
      simp only [bind, Except.bind]
      rw [Function.update_of_ne other, copy]
      simp only []
      rw [strlen_ends text' enough', Nat.zero_add]
      simp only []
      cases suffixed w.length prog' with
      | ok prog'' => exact iff_of_true (.ok _) (.ok _)
      | error stop =>
        constructor
        · intro h
          cases h
          exact .exit
        · intro h
          cases h
          exact .exit

/-- A line stays inside `argv` and `prog` exactly when no call of it fails before its command is
complete, and that command is small. -/
theorem runcmd_inside_iff {a : Nat} (text : Text s.lex.mem a line) (buf : a ≠ 0)
    (short : line.length < 1024) (enough : 1024 ≤ fuel) :
    Inside (runcmd K fuel a prog s) ↔ Fits K.result s.calls.length [] (tokens line) := by
  obtain ⟨l, run, looks⟩ :=
    @gettoken_line a fuel line s.lex 0 text buf (Nat.lt_of_lt_of_le short enough)
  have proper : ∀ t ∈ tokens line, t.Proper 1023 :=
    fun t h => (tokens_proper t h).mono (Nat.le_of_lt_succ short)
  have few : (tokens line).length < fuel :=
    Nat.lt_of_le_of_lt tokens_length (Nat.lt_of_lt_of_le short enough)
  have parsed :=
    parsecmd_parsed (K := K) (s := { s with lex := l, rightpipe := 0 }) looks proper few
  unfold runcmd
  rw [run]
  generalize Fits K.result s.calls.length [] (tokens line) = F at parsed ⊢
  change Parsed F (parsecmd K fuel { s with lex := l, rightpipe := 0 }) at parsed
  simp only []
  generalize parsecmd K fuel { s with lex := l, rightpipe := 0 } = o at parsed ⊢
  cases parsed with
  | exit fits => exact iff_of_true .exit fits
  | @failed r s negative not =>
    have stop : launch fuel prog r s = .error (.argv r) := by
      rw [launch, if_neg (Int.ne_of_lt negative),
        storeArgv_outside (fun h => Int.not_le.mpr negative h.1)]
      rfl
    refine iff_of_false ?_ not
    simp only [Except.bind]
    rw [stop]
    exact fun h => nomatch h
  | ready few first fits => exact (launch_inside few first enough).trans fits.symm

/-- `<a`, where `open` does not find the file. -/
theorem runcmd_strays :
    ¬Inside (runcmd ⟨fun _ => -10, fun _ => (0, 0)⟩ 1024 1 (fun _ => 0)
      ⟨⟨fun a => [60, 97].getD (a - 1) 0, 0, 0, 0, 0⟩, fun _ => 0, 0, []⟩) := by
  have run : runcmd ⟨fun _ => -10, fun _ => (0, 0)⟩ 1024 1 (fun _ => 0)
      ⟨⟨fun a => [60, 97].getD (a - 1) 0, 0, 0, 0, 0⟩, fun _ => 0, 0, []⟩ =
      .error (.argv (-10)) := rfl
  rw [run]
  exact fun h => nomatch h

/-- `ls|w`, in the process that forks. -/
theorem runcmd_inside_pipe :
    Inside (runcmd ⟨fun _ => 7, fun _ => (3, 4)⟩ 1024 1 (fun _ => 0)
      ⟨⟨fun a => [108, 115, 124, 119].getD (a - 1) 0, 0, 0, 0, 0⟩, fun _ => 0, 0, []⟩) ↔
      Fits (fun _ => 7) 0 [] (tokens [108, 115, 124, 119]) :=
  runcmd_inside_iff (K := ⟨fun _ => 7, fun _ => (3, 4)⟩)
    (s := ⟨⟨fun a => [108, 115, 124, 119].getD (a - 1) 0, 0, 0, 0, 0⟩, fun _ => 0, 0, []⟩)
    ⟨rfl, by decide, rfl, by decide, rfl, by decide, rfl, by decide, rfl⟩ (by decide)
    (by decide) (by decide)

end

end RiscvMos.Shell
