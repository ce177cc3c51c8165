import RiscvMos.Lib.Bytes
import RiscvMos.Fs.Serve
import RiscvMos.User.Files

/-!
`user/lib/fsipc.c`: requests that carry a path. The memory of the client is
addressed by bytes, and a call is described by what it stores there before the
page `fsipcbuf` is sent.
-/

namespace RiscvMos.Fsipc

def maxpathlen : Nat := 1024

abbrev Mem := Nat → Nat

/-- A request that is refused, or the code of one that is sent. -/
inductive Result where
  | refused (r : Int)
  | sent (type : Nat) (stores : List (Nat × List Nat))
  deriving DecidableEq

/-- The loop of `strlen`, whose count is an `int`. -/
def strlenFrom (m : Mem) : Nat → Nat → Nat → Option Nat
  | 0, _, _ => none
  | turns + 1, s, n => if m s = 0 then some n else strlenFrom m turns (s + 1) (n + 1)

def strlen (m : Mem) (s : Nat) : Option Nat := strlenFrom m (2 ^ 31) s 0

/-- The loop of `strcpy`, with a bound on its turns: the stores in their order. -/
def strcpyFrom : Nat → Mem → Nat → Nat → Option (List (Nat × List Nat))
  | 0, _, _, _ => none
  | turns + 1, m, dst, src =>
    let c := m src
    if c = 0 then some [(dst, [c])]
    else (strcpyFrom turns (Bytes.store m dst [c]) (dst + 1) (src + 1)).map ((dst, [c]) :: ·)

/-- More turns run over the end of the address space. -/
def strcpy (m : Mem) (dst src : Nat) : Option (List (Nat × List Nat)) :=
  strcpyFrom (2 ^ 64) m dst src

section
variable (m : Mem) (buf path : Nat)

def fsipcOpen (omode : Nat) : Option Result := do
  let len ← strlen m path
  if maxpathlen ≤ len then return .refused (-eBadPath)
  else
    let stores ← strcpy m buf path
    return .sent 1 (stores ++ [(buf + maxpathlen, Bytes.le 4 omode)])

/-- The requests that are a path and nothing else. -/
def fsipcPath (type : Nat) : Option Result := do
  let len ← strlen m path
  -- the comment in `fsipc_remove` says `MAXPATHLEN`
  if len = 0 ∨ maxfilesize < len then return .refused (-eBadPath)
  else
    let stores ← strcpy m buf path
    return .sent type stores

def fsipcRemove : Option Result := fsipcPath m buf path 6

def fsipcDebug : Option Result := fsipcPath m buf path 39

end

/-- The words of the page at `buf`, where the server gets them. -/
def pageWords (m : Mem) (buf : Nat) : Nat → Nat := fun i => Bytes.load m (buf + 4 * i) 4

/-- A path in the memory of the client, outside the request page. -/
structure PathAt (m : Mem) (buf path : Nat) (s : List Nat) : Prop where
  bytes : ∀ a, m a < 256
  char : ∀ i b, s[i]? = some b → m (path + i) = b ∧ b ≠ 0
  nul : m (path + s.length) = 0
  /-- User memory is below `ULIM`. -/
  below : path + s.length < 2 ^ 31
  page : buf + 4096 ≤ 2 ^ 31
  apart : path + s.length < buf ∨ buf + 4096 ≤ path

/-- A call refuses just the paths that are `bad`; any other is in the request that the
server reads, and no store leaves the structure of `size` bytes at `buf`. -/
def Marshals (m : Mem) (buf : Nat) (s : List Nat) (type size : Nat) (bad : Prop) (mode : Option Nat)
    (result : Option Result) : Prop :=
  bad ∧ result = some (.refused (-eBadPath)) ∨
    ¬ bad ∧ ∃ stores, result = some (.sent type stores) ∧ Bytes.Inside buf (buf + size) stores ∧
      ServeM.reqPath (pageWords (Bytes.stores m stores) buf) = pure s ∧
      ∀ omode ∈ mode, ServeM.reqOmode (pageWords (Bytes.stores m stores) buf) = omode

def OpenMarshals (m : Mem) (buf path : Nat) (s : List Nat) (omode : Nat) : Prop :=
  Marshals m buf s 1 (maxpathlen + 4) (maxpathlen ≤ s.length) (some omode)
    (fsipcOpen m buf path omode)

def RemoveMarshals (m : Mem) (buf path : Nat) (s : List Nat) : Prop :=
  Marshals m buf s 6 maxpathlen (s = [] ∨ maxpathlen ≤ s.length) none (fsipcRemove m buf path)

def DebugMarshals (m : Mem) (buf path : Nat) (s : List Nat) : Prop :=
  Marshals m buf s 39 maxpathlen (s = [] ∨ maxpathlen ≤ s.length) none (fsipcDebug m buf path)

section Strings
variable {m : Mem} {buf path dst src : Nat} {s : List Nat}

theorem strlenFrom_eq {turns n : Nat} (hchar : ∀ i b, s[i]? = some b → m (src + i) = b ∧ b ≠ 0)
    (hnul : m (src + s.length) = 0) (enough : s.length < turns) :
    strlenFrom m turns src n = some (n + s.length) := by
  induction s generalizing turns src n with
  | nil =>
    cases turns with
    | zero => cases enough
    | succ turns =>
      have nul : m src = 0 := hnul
      rw [strlenFrom, if_pos nul]
      rfl
  | cons b s ih =>
    cases turns with
    | zero => cases enough
    | succ turns =>
      have first : m src = b ∧ b ≠ 0 := hchar 0 b rfl
      have shift (i : Nat) : src + 1 + i = src + (i + 1) := by omega
      rw [strlenFrom, if_neg (by rw [first.1]; exact first.2)]
      rw [ih (fun i c hc => by rw [shift]; exact hchar (i + 1) c hc) (by rw [shift]; exact hnul)
        (Nat.lt_of_succ_lt_succ enough), List.length_cons]
      congr 1
      omega

theorem strlen_eq (h : PathAt m buf path s) : strlen m path = some s.length := by
  have below := h.below
  rw [strlen, strlenFrom_eq h.char h.nul (by omega), Nat.zero_add]

/-- The stores of a copy that reads nothing it wrote. -/
def copied (dst : Nat) : List Nat → List (Nat × List Nat)
  | [] => [(dst, [0])]
  | b :: s => (dst, [b]) :: copied (dst + 1) s

theorem copied_inside (dst : Nat) (s : List Nat) :
    Bytes.Inside dst (dst + s.length + 1) (copied dst s) := by
  induction s generalizing dst with
  | nil => exact Bytes.Inside.cons ⟨Nat.le_refl _, Nat.le_refl _⟩ Bytes.Inside.nil
  | cons b s ih =>
    apply Bytes.Inside.cons
    · constructor
      · exact Nat.le_refl _
      · rw [List.length_singleton, List.length_cons]
        omega
    · apply (ih (dst + 1)).mono (Nat.le_succ _)
      rw [List.length_cons]
      omega

theorem copied_at (dst : Nat) (s : List Nat) :
    (∀ i b, s[i]? = some b → Bytes.stores m (copied dst s) (dst + i) = b) ∧
      Bytes.stores m (copied dst s) (dst + s.length) = 0 := by
  induction s generalizing m dst with
  | nil =>
    constructor
    · intro i b h
      cases h
    · exact Bytes.store_at (j := 0) Nat.one_pos
  | cons b s ih =>
    have rest := ih (m := Bytes.store m dst [b]) (dst + 1)
    have shift (i : Nat) : dst + 1 + i = dst + (i + 1) := by omega
    rw [copied, Bytes.stores_cons]
    constructor
    · intro i c hc
      cases i with
      | zero =>
        injection hc with same
        have here := Bytes.stores_of_inside (m := Bytes.store m dst [b]) (copied_inside (dst + 1) s)
          (Or.inl (Nat.lt_succ_self dst))
        rw [← same]
        exact here.trans (Bytes.store_at (j := 0) Nat.one_pos)
      | succ i =>
        have char := rest.1 i c hc
        rw [shift] at char
        exact char
    · have nul := rest.2
      rw [shift] at nul
      exact nul

theorem strcpyFrom_eq {turns : Nat} (hchar : ∀ i b, s[i]? = some b → m (src + i) = b ∧ b ≠ 0)
    (hnul : m (src + s.length) = 0) (apart : src + s.length < dst ∨ dst + s.length < src)
    (enough : s.length < turns) : strcpyFrom turns m dst src = some (copied dst s) := by
  induction s generalizing turns src dst m with
  | nil =>
    have nul : m src = 0 := hnul
    cases turns with
    | zero => cases enough
    | succ turns =>
      simp only [strcpyFrom, nul, if_true]
      rfl
  | cons b s ih =>
    cases turns with
    | zero => cases enough
    | succ turns =>
      have first : m src = b ∧ b ≠ 0 := hchar 0 b rfl
      have shift (i : Nat) : src + 1 + i = src + (i + 1) := by omega
      rw [List.length_cons] at apart hnul enough
      -- the source is not where the character was stored
      have kept (i : Nat) (hi : i ≤ s.length) :
          Bytes.store m dst [b] (src + 1 + i) = m (src + (i + 1)) := by
        rw [Bytes.store_of_disjoint (by rw [List.length_singleton]; omega), shift]
      have rest : strcpyFrom turns (Bytes.store m dst [b]) (dst + 1) (src + 1) =
          some (copied (dst + 1) s) := by
        apply ih
        · intro i c hc
          obtain ⟨hi, -⟩ := List.getElem?_eq_some_iff.mp hc
          rw [kept i (Nat.le_of_lt hi)]
          exact hchar (i + 1) c hc
        · rw [kept _ (Nat.le_refl _)]
          exact hnul
        · omega
        · omega
      simp only [strcpyFrom, first.1, first.2, if_false, rest, Option.map_some]
      rfl

/-- A copy gets as far as the source is no `NUL` and not yet overwritten. -/
theorem strcpyFrom_reaches {turns n : Nat} {stores : List (Nat × List Nat)}
    (h : strcpyFrom turns m dst src = some stores) (hchar : ∀ i < n, m (src + i) ≠ 0)
    (apart : src + n ≤ dst ∨ dst + n ≤ src) : ∃ c, (dst + n, [c]) ∈ stores := by
  induction n generalizing turns m dst src stores with
  | zero =>
    cases turns with
    | zero => cases h
    | succ turns =>
      simp only [strcpyFrom] at h
      split_ifs at h
      · injection h with h
        exact ⟨_, by rw [← h]; exact List.mem_cons_self⟩
      · obtain ⟨rest, -, h⟩ := Option.map_eq_some_iff.mp h
        exact ⟨_, by rw [← h]; exact List.mem_cons_self⟩
  | succ n ih =>
    cases turns with
    | zero => cases h
    | succ turns =>
      have first : m src ≠ 0 := hchar 0 (Nat.succ_pos n)
      simp only [strcpyFrom, first, if_false] at h
      obtain ⟨rest, hrest, h⟩ := Option.map_eq_some_iff.mp h
      obtain ⟨c, hc⟩ := ih hrest (fun i hi => by
        rw [Bytes.store_of_disjoint (by rw [List.length_singleton]; omega), Nat.add_assoc,
          Nat.add_comm 1 i]
        exact hchar (i + 1) (Nat.succ_lt_succ hi)) (by omega)
      rw [Nat.add_assoc, Nat.add_comm 1 n] at hc
      exact ⟨c, by rw [← h]; exact List.mem_cons_of_mem _ hc⟩

end Strings

section Page
variable {m : Mem} {buf path : Nat} {s : List Nat}

theorem reqByte_pageWords (bytes : ∀ a, m a < 256) (buf i : Nat) :
    ServeM.reqByte (pageWords m buf) i = m (buf + i) := by
  have place : buf + i = buf + 4 * (i / 4) + i % 4 := by omega
  unfold ServeM.reqByte pageWords
  rw [place, Nat.shiftRight_eq_div_pow, pow_mul]
  exact Bytes.load_byte bytes (Nat.mod_lt i (by decide))

/-- The server finds the string that the page starts with. -/
theorem reqPath_pageWords (bytes : ∀ a, m a < 256)
    (hchar : ∀ i b, s[i]? = some b → m (buf + i) = b ∧ b ≠ 0)
    (hnul : m (buf + s.length) = 0) (fits : s.length < 4096) :
    ServeM.reqPath (pageWords m buf) = pure s := by
  obtain ⟨k, hk⟩ := Nat.exists_eq_add_of_lt fits
  have page : (List.range 4096).map (ServeM.reqByte (pageWords m buf)) =
      s ++ 0 :: (List.range k).map (fun i => m (buf + (s.length + 1 + i))) := by
    rw [hk, Nat.add_right_comm, List.range_add, List.map_append, List.range_succ, List.map_append,
      List.map_singleton,
      reqByte_pageWords bytes, hnul, List.append_assoc, List.singleton_append, List.map_map]
    congr 1
    · apply List.ext_getElem
      · rw [List.length_map, List.length_range]
      · intro i hi hi'
        rw [List.getElem_map, List.getElem_range, reqByte_pageWords bytes]
        exact (hchar i _ (List.getElem?_eq_getElem hi')).1
    · congr 1
      apply List.map_congr_left
      intro i _
      exact reqByte_pageWords bytes buf _
  have whole : (s ++ 0 :: (List.range k).map (fun i => m (buf + (s.length + 1 + i)))).takeWhile
      (· != 0) = s := by
    rw [List.takeWhile_append_of_pos]
    · rw [List.takeWhile_cons_of_neg (by decide), List.append_nil]
    · intro b hb
      obtain ⟨i, hi⟩ := List.mem_iff_getElem?.mp hb
      exact bne_iff_ne.mpr (hchar i b hi).2
  unfold ServeM.reqPath
  rw [page, if_pos (List.mem_append_right s List.mem_cons_self), whole]

theorem stores_bytes {stores : List (Nat × List Nat)} (bytes : ∀ a, m a < 256)
    (h : ∀ w ∈ stores, ∀ b ∈ w.2, b < 256) (a : Nat) : Bytes.stores m stores a < 256 := by
  induction stores generalizing m with
  | nil => exact bytes a
  | cons w stores ih =>
    apply ih
    · intro a
      show Bytes.store m w.1 w.2 a < 256
      unfold Bytes.store
      split_ifs with inside
      · have place : a - w.1 < w.2.length := by omega
        rw [List.getD_eq_getElem _ _ place]
        exact h w List.mem_cons_self _ (List.getElem_mem place)
      · exact bytes a
    · intro v hv
      exact h v (List.mem_cons_of_mem w hv)

theorem copied_bytes {dst : Nat} (hs : ∀ b ∈ s, b < 256) :
    ∀ w ∈ copied dst s, ∀ b ∈ w.2, b < 256 := by
  induction s generalizing dst with
  | nil =>
    intro w hw b hb
    rw [List.mem_singleton.mp hw] at hb
    rw [List.mem_singleton.mp hb]
    decide
  | cons c s ih =>
    intro w hw b hb
    cases List.mem_cons.mp hw with
    | inl first =>
      rw [first] at hb
      rw [List.mem_singleton.mp hb]
      exact hs c List.mem_cons_self
    | inr rest => exact ih (fun b hb => hs b (List.mem_cons_of_mem c hb)) w rest b hb

theorem PathAt.lt (h : PathAt m buf path s) {b : Nat} (hb : b ∈ s) : b < 256 := by
  obtain ⟨i, hi⟩ := List.mem_iff_getElem?.mp hb
  rw [← (h.char i b hi).1]
  exact h.bytes _

theorem PathAt.strcpy_eq (h : PathAt m buf path s) (fits : s.length < 4096) :
    strcpy m buf path = some (copied buf s) := by
  have apart := h.apart
  exact strcpyFrom_eq h.char h.nul (by omega) (by omega)

/-- A path that fits into the page comes out of it as it was, whatever is stored behind it. -/
theorem PathAt.delivered (h : PathAt m buf path s) {more : List (Nat × List Nat)} {hi : Nat}
    (fits : buf + s.length + 1 ≤ buf + maxpathlen)
    (behind : Bytes.Inside (buf + maxpathlen) hi more) (hmore : ∀ w ∈ more, ∀ b ∈ w.2, b < 256) :
    ServeM.reqPath (pageWords (Bytes.stores m (copied buf s ++ more)) buf) = pure s := by
  have copy := copied_at (m := m) buf s
  have bytes : ∀ a, Bytes.stores m (copied buf s ++ more) a < 256 := by
    apply stores_bytes h.bytes
    intro w hw
    cases List.mem_append.mp hw with
    | inl path => exact copied_bytes (fun b hb => h.lt hb) w path
    | inr rest => exact hmore w rest
  have kept (i : Nat) (hi : i ≤ s.length) :
      Bytes.stores m (copied buf s ++ more) (buf + i) =
      Bytes.stores m (copied buf s) (buf + i) := by
    rw [Bytes.stores_append]
    exact Bytes.stores_of_inside behind (Or.inl (by omega))
  apply reqPath_pageWords bytes
  · intro i b hb
    obtain ⟨hi, -⟩ := List.getElem?_eq_some_iff.mp hb
    rw [kept i (Nat.le_of_lt hi)]
    exact ⟨copy.1 i b hb, (h.char i b hb).2⟩
  · rw [kept _ (Nat.le_refl _)]
    exact copy.2
  · unfold maxpathlen at fits
    omega

end Page

section Requests
variable {m : Mem} {buf path : Nat} {s : List Nat}

theorem fsipcOpen_marshals (h : PathAt m buf path s) {omode : Nat} (hmode : omode < 2 ^ 32) :
    OpenMarshals m buf path s omode := by
  unfold OpenMarshals Marshals fsipcOpen
  rw [strlen_eq h]
  by_cases long : maxpathlen ≤ s.length
  · apply Or.inl
    constructor
    · exact long
    · simp only [Option.bind_eq_bind, Option.bind_some, long, if_true]
      rfl
  · have fits : s.length < maxpathlen := Nat.lt_of_not_le long
    have small : s.length < 4096 := Nat.lt_trans fits (by decide)
    have mode : Bytes.Inside (buf + maxpathlen) (buf + (maxpathlen + 4))
        [(buf + maxpathlen, Bytes.le 4 omode)] := by
      apply Bytes.Inside.cons _ Bytes.Inside.nil
      simp only [Bytes.le_length]
      omega
    apply Or.inr
    refine ⟨long, copied buf s ++ [(buf + maxpathlen, Bytes.le 4 omode)], ?_, ?_, ?_, ?_⟩
    · simp only [Option.bind_eq_bind, Option.bind_some, long, if_false, h.strcpy_eq small]
      rfl
    · exact ((copied_inside buf s).mono (Nat.le_refl _) (by omega)).append
        (mode.mono (by omega) (Nat.le_refl _))
    · apply h.delivered (by omega) mode
      intro w hw b hb
      rw [List.mem_singleton.mp hw] at hb
      exact Bytes.mem_le_lt hb
    · intro omode' same
      rw [← Option.some.inj same]
      unfold ServeM.reqOmode pageWords
      rw [Bytes.stores_append, Bytes.stores_cons, Bytes.stores_nil,
        show buf + 4 * 256 = buf + maxpathlen by rw [maxpathlen], Bytes.load_store_le]
      exact Nat.mod_eq_of_lt hmode

/-- A request that is only a path goes wrong from `MAXPATHLEN` to `MAXFILESIZE`. -/
theorem fsipcPath_marshals (h : PathAt m buf path s) (type : Nat) :
    Marshals m buf s type maxpathlen (s = [] ∨
      maxpathlen ≤ s.length) none (fsipcPath m buf path type) ↔
      s.length < maxpathlen ∨ maxfilesize < s.length := by
  unfold Marshals fsipcPath
  rw [strlen_eq h]
  by_cases refused : s.length = 0 ∨ maxfilesize < s.length
  · simp only [Option.bind_eq_bind, Option.bind_some, refused, if_true]
    have bad : s = [] ∨ maxpathlen ≤ s.length := by
      cases refused with
      | inl empty => exact Or.inl (List.eq_nil_of_length_eq_zero empty)
      | inr huge => exact Or.inr (Nat.le_of_lt (Nat.lt_trans (by decide) huge))
    constructor
    · intro _
      cases refused with
      | inl empty => exact Or.inl (by rw [empty]; decide)
      | inr huge => exact Or.inr huge
    · intro _
      exact Or.inl ⟨bad, rfl⟩
  · simp only [Option.bind_eq_bind, Option.bind_some, refused, if_false]
    have some_ : s ≠ [] := by
      rintro rfl
      exact refused (Or.inl rfl)
    constructor
    · intro right
      apply Or.inl
      cases right with
      | inl refusal =>
        have sent := refusal.2
        cases copy : strcpy m buf path with
        | none =>
          rw [copy] at sent
          cases sent
        | some stores =>
          rw [copy] at sent
          cases sent
      | inr sent =>
        by_contra long
        exact sent.1 (Or.inr (Nat.le_of_not_lt long))
    · intro cond
      have fits : s.length < maxpathlen := cond.resolve_right fun huge => refused (Or.inr huge)
      have small : s.length < 4096 := Nat.lt_trans fits (by decide)
      apply Or.inr
      refine ⟨?_, copied buf s, ?_, ?_, ?_, fun _ same => nomatch same⟩
      · intro bad
        cases bad with
        | inl empty => exact some_ empty
        | inr long => exact Nat.not_le_of_lt fits long
      · rw [h.strcpy_eq small]
        rfl
      · exact (copied_inside buf s).mono (Nat.le_refl _) (by omega)
      · have whole := h.delivered (by omega) (@Bytes.Inside.nil _ buf) fun w hw => nomatch hw
        rw [List.append_nil] at whole
        exact whole

/-- There the copy leaves `req_path`. -/
theorem fsipcPath_overruns (h : PathAt m buf path s) {type : Nat} {result : Result}
    (long : maxpathlen ≤ s.length)
    (taken : s.length ≤ maxfilesize) (call : fsipcPath m buf path type = some result) :
    ∃ stores c, result = .sent type stores ∧ (buf + maxpathlen, [c]) ∈ stores := by
  have apart := h.apart
  have accepted : ¬ (s.length = 0 ∨ maxfilesize < s.length) := by
    unfold maxpathlen at long
    omega
  unfold fsipcPath at call
  rw [strlen_eq h] at call
  simp only [Option.bind_eq_bind, Option.bind_some, accepted, if_false] at call
  obtain ⟨stores, copy, call⟩ := Option.bind_eq_some_iff.mp call
  have char (i : Nat) (hi : i < maxpathlen) : m (path + i) ≠ 0 := by
    have place : i < s.length := Nat.lt_of_lt_of_le hi long
    have char := h.char i _ (List.getElem?_eq_getElem place)
    rw [char.1]
    exact char.2
  obtain ⟨c, hc⟩ := strcpyFrom_reaches copy char (by unfold maxpathlen at long ⊢; omega)
  exact ⟨stores, c, (Option.some.inj call).symm, hc⟩

end Requests

/-- Every path that a client passes: an open is always right, a remove and a debug request
just for the paths that are shorter than `MAXPATHLEN` or longer than `MAXFILESIZE`. -/
theorem fsipc_marshals (m : Mem) (buf path : Nat) (s : List Nat) (omode : Nat)
    (h : PathAt m buf path s) (hmode : omode < 2 ^ 32) :
    OpenMarshals m buf path s omode ∧
      (RemoveMarshals m buf path s ↔ s.length < maxpathlen ∨ maxfilesize < s.length) ∧
      (DebugMarshals m buf path s ↔ s.length < maxpathlen ∨ maxfilesize < s.length) :=
  ⟨fsipcOpen_marshals h hmode, fsipcPath_marshals h 6, fsipcPath_marshals h 39⟩

/-- A path at 8192, and `fsipcbuf` at 4096. -/
def pathMem (s : List Nat) : Mem := fun a => if a < 8192 then 0 else s.getD (a - 8192) 0

theorem pathMem_at {s : List Nat} (char : ∀ b ∈ s, b < 256 ∧ b ≠ 0)
    (below : 8192 + s.length < 2 ^ 31) : PathAt (pathMem s) 4096 8192 s := by
  have here (i : Nat) : pathMem s (8192 + i) = s.getD i 0 := by
    rw [pathMem, if_neg (by omega), Nat.add_sub_cancel_left]
  constructor
  · intro a
    unfold pathMem
    split_ifs
    · decide
    · rw [List.getD_eq_getElem?_getD]
      cases at_ : s[a - 8192]? with
      | none => decide
      | some b => exact (char b (List.mem_of_getElem? at_)).1
  · intro i b hb
    rw [here, List.getD_eq_getElem?_getD, hb]
    exact ⟨rfl, (char b (List.mem_of_getElem? hb)).2⟩
  · rw [here, List.getD_eq_getElem?_getD, List.getElem?_eq_none (Nat.le_refl _)]
    rfl
  · exact below
  · decide
  · exact Or.inr (by decide)

/-- `/newmotd`, opened with `O_RDWR | O_CREAT`, removed, and sent for a debug request. -/
theorem fsipc_marshals_newmotd :
    OpenMarshals (pathMem [47, 110, 101, 119, 109, 111, 116, 100]) 4096 8192
        [47, 110, 101, 119, 109, 111, 116, 100] 0x102 ∧
      RemoveMarshals (pathMem [47, 110, 101, 119, 109, 111, 116, 100]) 4096 8192
        [47, 110, 101, 119, 109, 111, 116, 100] ∧
      DebugMarshals (pathMem [47, 110, 101, 119, 109, 111, 116, 100]) 4096 8192
        [47, 110, 101, 119, 109, 111, 116, 100] := by
  obtain ⟨opens, removes, debugs⟩ := fsipc_marshals _ 4096 8192
    [47, 110, 101, 119, 109, 111, 116, 100] 0x102 (pathMem_at (by decide) (by decide)) (by decide)
  exact ⟨opens, removes.mpr (.inl (by decide)), debugs.mpr (.inl (by decide))⟩

/-- A path of 1024 characters is sent, and its `NUL` is stored behind `req_path`. -/
theorem fsipcRemove_overruns :
    PathAt (pathMem (List.replicate 1024 97)) 4096 8192 (List.replicate 1024 97) ∧
      (∃ stores, fsipcRemove (pathMem (List.replicate 1024 97)) 4096 8192 = some (.sent 6 stores) ∧
        ¬ Bytes.Inside 4096 (4096 + maxpathlen) stores) ∧
      ¬ RemoveMarshals (pathMem (List.replicate 1024 97)) 4096 8192 (List.replicate 1024 97) := by
  have length : (List.replicate 1024 97).length = 1024 := List.length_replicate
  have path : PathAt (pathMem (List.replicate 1024 97)) 4096 8192 (List.replicate 1024 97) := by
    apply pathMem_at
    · intro b hb
      rw [List.eq_of_mem_replicate hb]
      decide
    · rw [length]
      decide
  constructor
  · exact path
  · constructor
    · have copy := path.strcpy_eq (by rw [length]; decide)
      have call : fsipcRemove (pathMem (List.replicate 1024 97)) 4096 8192 =
          some (.sent 6 (copied 4096 (List.replicate 1024 97))) := by
        unfold fsipcRemove fsipcPath
        rw [strlen_eq path, length, copy]
        rfl
      obtain ⟨stores, c, same, out⟩ := fsipcPath_overruns path (by rw [length]; exact Nat.le_refl _)
        (by rw [length]; decide) call
      refine ⟨stores, by rw [call, same], ?_⟩
      intro inside
      have bound := (inside _ out).2
      rw [List.length_singleton] at bound
      omega
    · intro right
      have cond := (fsipcPath_marshals path 6).mp right
      rw [length] at cond
      revert cond
      decide

end RiscvMos.Fsipc
