import RiscvMos.Env.UserMem
import RiscvMos.Lib.Bytes

/-! `init_stack` of `user/lib/spawn.c`, on RV64: the stores to the page at `UTEMP`,
in their order, and the page as the child sees it below `USTACKTOP`. -/

namespace RiscvMos
namespace InitStack

/-- A store of bytes to an address. -/
abbrev Store := Nat × List Nat

/-- The strings of an `argv` that ends with a null pointer. The array and the
strings lie in user memory, away from the page at `UTEMP`. -/
structure Argv where
  strings : List (List Nat)
  chars : ∀ s ∈ strings, ∀ c ∈ s, 0 < c ∧ c < 256
  array : 8 * (strings.length + 1) ≤ ulim
  inUser : ∀ s ∈ strings, s.length < ulim

/-- The conversion to `int`. -/
def toInt (n : Nat) : Int := uIntToInt (uInt n)

/-- The conversion of an `int` to `u_long`. -/
def ofInt (i : Int) : Nat := (i % 2 ^ 64).toNat

/-- `tot += strlen(argv[argc]) + 1`. -/
def addTot (tot : Int) (s : List Nat) : Int := toInt (uLong (ofInt tot + s.length + 1))

/-- `ROUND(tot, sizeof(u_long))`. -/
def roundWord (n : Nat) : Nat := uLong (n + 7) / 8 * 8

/-- The stores of the loop that copies one string, and of the byte after it. -/
def copyString (ctemp : Nat) : List Nat → List Store
  | [] => [(ctemp, [0])]
  | c :: cs => (ctemp, [c]) :: copyString (ctemp + 1) cs

def copyStrings (ctemp : Nat) : List (List Nat) → List Store
  | [] => []
  | s :: ss => copyString ctemp s ++ copyStrings (ctemp + s.length + 1) ss

/-- The stores `args[i] = (u_long)ctemp`, and where `ctemp` ends. -/
def fillArgs (args ctemp : Nat) : List (List Nat) → List Store × Nat
  | [] => ([], ctemp)
  | s :: ss =>
    let rest := fillArgs (args + 8) (ctemp + s.length + 1) ss
    ((args, Bytes.le 8 ctemp) :: rest.1, rest.2)

/-- `USTACKTOP - UTEMP - BY2PG + a`. -/
def childAddr (a : Nat) : Nat := uLong (ustacktop - utemp - 4096 + a)

/-- `init_stack`, from the codes of its three system calls: `*init_sp` and the stores. -/
def initStack (argv : List (List Nat)) (alloc map unmap : Int) : Except Int (Nat × List Store) :=
  let argc := argv.length
  let tot := ofInt (argv.foldl addTot 0)
  if 4096 < uLong (roundWord tot + 8 * (argc + 2) + 4) then .error (-eNoMem)
  else
    let strings := uLongSub (utemp + 4096) tot
    let args := uLongSub (uLongSub (utemp + 4096) (roundWord tot)) (8 * (argc + 1))
    if alloc < 0 then .error alloc
    else
      let filled := fillArgs args (childAddr strings) argv
      let ctemp := uLongSub filled.2 1
      let pargvPtr := uLongSub args 8
      let argcPtr := uLongSub pargvPtr 4
      let ws := copyStrings strings argv ++ filled.1 ++
        [(args + 8 * argc, Bytes.le 8 ctemp), (pargvPtr, Bytes.le 8 (childAddr args)),
          (argcPtr, Bytes.le 4 argc)]
      if map < 0 then .error map
      else if unmap < 0 then .error unmap
      else .ok (uInt (childAddr argcPtr), ws)

/-- The stack page of the child, which `syscall_mem_alloc` gives full of zeros. -/
def childMem (ws : List Store) (va : Nat) : Nat :=
  Bytes.stores (fun _ => 0) ws (va - (ustacktop - 4096) + utemp)

/-- `lw`. -/
def lw (m : Nat → Nat) (a : Nat) : Nat := ofInt (uIntToInt (Bytes.load m a 4))

/-- The bytes of the strings, each with its null byte. -/
def bytes (ss : List (List Nat)) : Nat := (ss.map fun s => s.length + 1).sum

/-- The size of the layout is larger than the page. -/
def Exceeds (argv : Argv) : Prop :=
  4096 < (bytes argv.strings + 7) / 8 * 8 + 8 * (argv.strings.length + 2) + 4

/-- The same size, from the number of bytes as an `int` holds it. -/
def TestExceeds (argv : Argv) : Prop :=
  4096 < uLong (roundWord (ofInt (toInt (bytes argv.strings))) + 8 * (argv.strings.length + 2) + 4)

/-- A pointer of the child to a copy of a string in its stack page. -/
structure PointsTo (m : Nat → Nat) (p : Nat) (s : List Nat) : Prop where
  low : ustacktop - 4096 ≤ p
  high : p + s.length + 1 ≤ ustacktop
  chars : ∀ j (h : j < s.length), m (p + j) = s[j]
  null : m (p + s.length) = 0

/-- What `_start` reads at `sp`, up to the last entry of the array. -/
structure Strings (argv : Argv) (sp : Nat) (ws : List Store) : Prop where
  written : Bytes.Inside utemp (utemp + 4096) ws
  argc : lw (childMem ws) sp = argv.strings.length
  low : ustacktop - 4096 ≤ lw (childMem ws) (sp + 4)
  high : lw (childMem ws) (sp + 4) + 8 * (argv.strings.length + 1) ≤ ustacktop
  strings : ∀ i (h : i < argv.strings.length),
    PointsTo (childMem ws)
    (Bytes.load (childMem ws) (lw (childMem ws) (sp + 4) + 8 * i) 8) argv.strings[i]

/-- The entry `argv[argc]` as `_start` finds it. -/
def last (argv : Argv) (sp : Nat) (ws : List Store) : Nat :=
  Bytes.load (childMem ws) (lw (childMem ws) (sp + 4) + 8 * argv.strings.length) 8

structure Delivered (argv : Argv) (sp : Nat) (ws : List Store) :
    Prop extends Strings argv sp ws where
  last : last argv sp ws = 0

/-- What `init_stack` is for, when no system call fails. -/
structure Meets (argv : Argv) : Prop where
  full : initStack argv.strings 0 0 0 = .error (-eNoMem) ↔ Exceeds argv
  delivered : ¬ Exceeds argv →
    ∃ sp ws, initStack argv.strings 0 0 0 = .ok (sp, ws) ∧ Delivered argv sp ws

theorem ofInt_toInt (n : Nat) : ofInt (toInt n) % 2 ^ 32 = n % 2 ^ 32 := by
  unfold ofInt toInt uIntToInt uInt
  split <;> omega

theorem addTot_toInt (n : Nat) (s : List Nat) : addTot (toInt n) s = toInt (n + s.length + 1) := by
  have low : uInt (uLong (ofInt (toInt n) + s.length + 1)) = uInt (n + s.length + 1) := by
    have := ofInt_toInt n
    unfold uInt uLong
    omega
  rw [addTot, toInt, low, toInt]

theorem bytes_cons (s : List Nat) (ss : List (List Nat)) :
    bytes (s :: ss) = s.length + 1 + bytes ss := by
  simp [bytes]

theorem foldl_addTot (ss : List (List Nat)) (n : Nat) :
    ss.foldl addTot (toInt n) = toInt (n + bytes ss) := by
  induction ss generalizing n with
  | nil => simp [bytes]
  | cons s ss ih =>
    rw [List.foldl_cons, addTot_toInt, ih, bytes_cons]
    congr 1
    omega

/-- `tot` is the number of bytes, as an `int`. -/
theorem tot_eq (ss : List (List Nat)) : ss.foldl addTot 0 = toInt (bytes ss) := by
  have start := foldl_addTot ss 0
  rwa [Nat.zero_add] at start

theorem ofInt_uIntToInt {n : Nat} (h : n < 2 ^ 31) : ofInt (uIntToInt n) = n := by
  unfold ofInt uIntToInt
  rw [if_pos h]
  omega

theorem ofInt_small {n : Nat} (h : n < 2 ^ 31) : ofInt (toInt n) = n := by
  unfold ofInt toInt uIntToInt uInt
  split <;> omega

theorem copyString_inside (c : Nat) (s : List Nat) :
    Bytes.Inside c (c + s.length + 1) (copyString c s) := by
  induction s generalizing c with
  | nil => exact Bytes.Inside.cons (by simp) Bytes.Inside.nil
  | cons b s ih =>
    apply Bytes.Inside.cons
    · simp
    · exact (ih (c + 1)).mono (by omega) (by simp; omega)

/-- The copy of a string ends with a null byte. -/
theorem copyString_at (m : Nat → Nat) (c : Nat) (s : List Nat) {j : Nat} (h : j ≤ s.length) :
    Bytes.stores m (copyString c s) (c + j) = s.getD j 0 := by
  induction s generalizing c j m with
  | nil =>
    have zero : j = 0 := Nat.le_zero.mp h
    simp [copyString, zero, Bytes.store]
  | cons b s ih =>
    rw [copyString, Bytes.stores_cons]
    cases j with
    | zero =>
      rw [Bytes.stores_of_inside (copyString_inside _ _) (by omega)]
      simp [Bytes.store]
    | succ j =>
      rw [Nat.add_comm j 1, ← Nat.add_assoc, ih _ _ (by simpa using h), Nat.add_comm 1 j]
      simp

theorem copyStrings_inside (c : Nat) (ss : List (List Nat)) :
    Bytes.Inside c (c + bytes ss) (copyStrings c ss) := by
  induction ss generalizing c with
  | nil => exact Bytes.Inside.nil
  | cons s ss ih =>
    rw [bytes_cons]
    apply Bytes.Inside.append
    · exact (copyString_inside c s).mono (by omega) (by omega)
    · exact (ih _).mono (by omega) (by omega)

/-- Where the copy of the string `i` starts. -/
def offset (ss : List (List Nat)) (i : Nat) : Nat := bytes (ss.take i)

theorem offset_cons (s : List Nat) (ss : List (List Nat)) (i : Nat) :
    offset (s :: ss) (i + 1) = s.length + 1 + offset ss i := by
  rw [offset, List.take_succ_cons, bytes_cons, offset]

theorem offset_fits (ss : List (List Nat)) (i : Nat) (h : i < ss.length) :
    offset ss i + ss[i].length + 1 ≤ bytes ss := by
  induction ss generalizing i with
  | nil => cases h
  | cons s ss ih =>
    cases i with
    | zero =>
      rw [bytes_cons]
      simp [offset, bytes]
    | succ i =>
      have rest := ih i (by simpa using h)
      rw [offset_cons, bytes_cons]
      simp only [List.getElem_cons_succ]
      omega

theorem copyStrings_at (m : Nat → Nat) (c : Nat) (ss : List (List Nat)) (i : Nat)
    (h : i < ss.length) {j : Nat} (hj : j ≤ ss[i].length) :
    Bytes.stores m (copyStrings c ss) (c + offset ss i + j) = ss[i].getD j 0 := by
  induction ss generalizing c i m with
  | nil => cases h
  | cons s ss ih =>
    rw [copyStrings, Bytes.stores_append]
    cases i with
    | zero =>
      have start : offset (s :: ss) 0 = 0 := rfl
      simp only [List.getElem_cons_zero] at hj ⊢
      rw [start, Nat.add_zero, Bytes.stores_of_inside (copyStrings_inside _ _) (by omega)]
      exact copyString_at m c s hj
    | succ i =>
      rw [offset_cons]
      have shift : c + (s.length + 1 + offset ss i) + j =
          c + s.length + 1 + offset ss i + j := by omega
      rw [shift]
      exact ih _ _ i (by simpa using h) hj

theorem fillArgs_end (args c : Nat) (ss : List (List Nat)) :
    (fillArgs args c ss).2 = c + bytes ss := by
  induction ss generalizing args c with
  | nil => rfl
  | cons s ss ih =>
    rw [bytes_cons]
    simp only [fillArgs, ih]
    omega

theorem fillArgs_inside (args c : Nat) (ss : List (List Nat)) :
    Bytes.Inside args (args + 8 * ss.length) (fillArgs args c ss).1 := by
  induction ss generalizing args c with
  | nil => exact Bytes.Inside.nil
  | cons s ss ih =>
    apply Bytes.Inside.cons
    · simp
    · exact (ih _ _).mono (by omega) (by simp; omega)

/-- The entry `i` of the array is the address of the string `i`. -/
theorem fillArgs_at (m : Nat → Nat) (args c : Nat) (ss : List (List Nat)) (i : Nat)
    (h : i < ss.length) :
    Bytes.load (Bytes.stores m (fillArgs args c ss).1)
    (args + 8 * i) 8 = (c + offset ss i) % 256 ^ 8 := by
  induction ss generalizing args c i m with
  | nil => cases h
  | cons s ss ih =>
    simp only [fillArgs, Bytes.stores_cons]
    cases i with
    | zero =>
      rw [Bytes.load_of_inside (fillArgs_inside _ _ _) (by omega)]
      exact Bytes.load_store_le m args 8 c
    | succ i =>
      have entry := ih (Bytes.store m args (Bytes.le 8 c)) (args + 8) (c + s.length + 1) i
        (by simpa using h)
      have place : args + 8 * (i + 1) = args + 8 + 8 * i := by omega
      rw [place, entry, offset_cons]
      congr 1
      omega

/-- Where the array is placed, if all fits. -/
def argsAt (ss : List (List Nat)) : Nat :=
  utemp + 4096 - (bytes ss + 7) / 8 * 8 - 8 * (ss.length + 1)

/-- The stores if all fits. -/
def layout (ss : List (List Nat)) : List Store :=
  copyStrings (utemp + 4096 - bytes ss) ss ++ (fillArgs (argsAt ss) (ustacktop - bytes ss) ss).1 ++
    [(argsAt ss + 8 * ss.length, Bytes.le 8 (ustacktop - 1)),
      (argsAt ss - 8, Bytes.le 8 (ustacktop - 4096 + (argsAt ss - utemp))),
      (argsAt ss - 12, Bytes.le 4 ss.length)]

variable {argv : Argv}

theorem initStack_full_iff (argv : Argv) :
    initStack argv.strings 0 0 0 = .error (-eNoMem) ↔ TestExceeds argv := by
  unfold initStack TestExceeds
  rw [tot_eq]
  constructor
  · intro refused
    apply Decidable.byContradiction
    intro passes
    simp only [if_neg passes, lt_self_iff_false, if_false] at refused
    cases refused
  · intro exceeds
    simp only [if_pos exceeds]

theorem testExceeds_iff (argv : Argv) (h : bytes argv.strings < 2 ^ 31) :
    TestExceeds argv ↔ Exceeds argv := by
  have array := argv.array
  unfold TestExceeds Exceeds
  rw [ofInt_small h]
  unfold roundWord uLong
  simp only [ulim] at array
  omega

theorem fits_bounds (fits : ¬ Exceeds argv) :
    bytes argv.strings ≤ (bytes argv.strings + 7) / 8 * 8 ∧
      (bytes argv.strings + 7) / 8 * 8 + 8 * (argv.strings.length + 1) + 12 ≤ 4096 := by
  unfold Exceeds at fits
  omega

theorem initStack_fits (fits : ¬ Exceeds argv) :
    initStack argv.strings 0 0 0 =
      .ok (ustacktop - 4096 + (argsAt argv.strings - 12 - utemp), layout argv.strings) := by
  obtain ⟨round, room⟩ := fits_bounds fits
  have passes : ¬ TestExceeds argv := by rwa [testExceeds_iff argv (by omega)]
  unfold TestExceeds at passes
  have tot : ofInt (argv.strings.foldl addTot 0) = bytes argv.strings := by
    rw [tot_eq, ofInt_small (by omega)]
  rw [← tot_eq] at passes
  have rounded : roundWord (bytes argv.strings) = (bytes argv.strings + 7) / 8 * 8 := by
    unfold roundWord uLong
    omega
  have strings : uLongSub (utemp + 4096) (bytes argv.strings) =
      utemp + 4096 - bytes argv.strings := by
    unfold uLongSub uLong
    simp only [utemp]
    omega
  have args : uLongSub (uLongSub (utemp + 4096) ((bytes argv.strings + 7) / 8 * 8))
      (8 * (argv.strings.length + 1)) =
      argsAt argv.strings := by
    unfold uLongSub uLong argsAt
    simp only [utemp]
    omega
  have child : childAddr (utemp + 4096 - bytes argv.strings) = ustacktop - bytes argv.strings := by
    unfold childAddr uLong
    simp only [utemp, ustacktop, utop, ulim, pageSize]
    omega
  unfold initStack
  simp only [if_neg passes, lt_self_iff_false, if_false]
  rw [tot, rounded, strings, args, child, fillArgs_end]
  have low : utemp + 12 ≤ argsAt argv.strings ∧ argsAt argv.strings ≤ utemp + 4096 := by
    unfold argsAt
    simp only [utemp]
    omega
  have pargv : uLongSub (argsAt argv.strings) 8 = argsAt argv.strings - 8 := by
    unfold uLongSub uLong
    simp only [utemp] at low
    omega
  have argc : uLongSub (argsAt argv.strings - 8) 4 = argsAt argv.strings - 12 := by
    unfold uLongSub uLong
    simp only [utemp] at low
    omega
  have ctemp : uLongSub (ustacktop - bytes argv.strings + bytes argv.strings) 1 =
      ustacktop - 1 := by
    unfold uLongSub uLong
    simp only [ustacktop, utop, ulim, pageSize]
    omega
  have array : childAddr (argsAt argv.strings) =
      ustacktop - 4096 + (argsAt argv.strings - utemp) := by
    unfold childAddr uLong
    simp only [utemp, ustacktop, utop, ulim, pageSize] at low ⊢
    omega
  have sp : uInt (childAddr (argsAt argv.strings - 12)) =
      ustacktop - 4096 + (argsAt argv.strings - 12 - utemp) := by
    unfold childAddr uInt uLong
    simp only [utemp, ustacktop, utop, ulim, pageSize] at low ⊢
    omega
  rw [pargv, argc, ctemp, array, sp, layout]

/-- The words below the array are read back: the stack pointer is 12 below it. -/
theorem load_layout (ss : List (List Nat)) (o n : Nat) :
    Bytes.load (childMem (layout ss)) (ustacktop - 4096 + o) n =
      Bytes.load (Bytes.stores (fun _ => 0) (layout ss)) (utemp + o) n :=
  Bytes.load_shift _ _ _ _ _

theorem stores_layout (m : Nat → Nat) (ss : List (List Nat)) :
    Bytes.stores m (layout ss) =
      Bytes.store (Bytes.store (Bytes.store
        (Bytes.stores (Bytes.stores m (copyStrings (utemp + 4096 - bytes ss) ss))
          (fillArgs (argsAt ss) (ustacktop - bytes ss) ss).1)
        (argsAt ss + 8 * ss.length) (Bytes.le 8 (ustacktop - 1)))
        (argsAt ss - 8) (Bytes.le 8 (ustacktop - 4096 + (argsAt ss - utemp))))
        (argsAt ss - 12) (Bytes.le 4 ss.length) := by
  rw [layout, Bytes.stores_append, Bytes.stores_append]
  rfl

/-- From the top: the strings, the array and the two words, which do not overlap. -/
theorem argsAt_bounds (fits : ¬ Exceeds argv) :
    utemp + 12 ≤ argsAt argv.strings ∧
      argsAt argv.strings + 8 * (argv.strings.length + 1) ≤ utemp + 4096 - bytes argv.strings ∧
      bytes argv.strings ≤ 4096 := by
  obtain ⟨round, room⟩ := fits_bounds fits
  unfold argsAt
  omega

section Layout

variable (fits : ¬ Exceeds argv)

include fits

theorem layout_inside : Bytes.Inside utemp (utemp + 4096) (layout argv.strings) := by
  obtain ⟨low, high, small⟩ := argsAt_bounds fits
  apply Bytes.Inside.append
  · apply Bytes.Inside.append
    · exact (copyStrings_inside _ _).mono (by omega) (by omega)
    · exact (fillArgs_inside _ _ _).mono (by omega) (by omega)
  · apply Bytes.Inside.cons
    · rw [Bytes.le_length]
      omega
    · apply Bytes.Inside.cons
      · rw [Bytes.le_length]
        omega
      · apply Bytes.Inside.cons
        · rw [Bytes.le_length]
          omega
        · exact Bytes.Inside.nil

theorem layout_argc (m : Nat → Nat) :
    Bytes.load (Bytes.stores m (layout argv.strings))
    (argsAt argv.strings - 12) 4 = argv.strings.length := by
  obtain ⟨low, high, small⟩ := argsAt_bounds fits
  rw [stores_layout, Bytes.load_store_le]
  apply Nat.mod_eq_of_lt
  simp only [utemp] at low high
  omega

theorem layout_argv (m : Nat → Nat) :
    Bytes.load (Bytes.stores m (layout argv.strings)) (argsAt argv.strings - 8) 4 =
      ustacktop - 4096 + (argsAt argv.strings - utemp) := by
  obtain ⟨low, high, small⟩ := argsAt_bounds fits
  rw [stores_layout]
  rw [Bytes.load_of_disjoint (by rw [Bytes.le_length]; omega),
    Bytes.load_store_low _ _ _ (by decide)]
  apply Nat.mod_eq_of_lt
  simp only [utemp, ustacktop, utop, ulim, pageSize] at low high ⊢
  omega

theorem layout_entry (m : Nat → Nat) (i : Nat) (h : i < argv.strings.length) :
    Bytes.load (Bytes.stores m (layout argv.strings)) (argsAt argv.strings + 8 * i) 8 =
      ustacktop - bytes argv.strings + offset argv.strings i := by
  obtain ⟨low, high, small⟩ := argsAt_bounds fits
  have fit := offset_fits argv.strings i h
  rw [stores_layout]
  rw [Bytes.load_of_disjoint (by rw [Bytes.le_length]; omega),
    Bytes.load_of_disjoint (by rw [Bytes.le_length]; omega),
    Bytes.load_of_disjoint (by rw [Bytes.le_length]; omega), fillArgs_at _ _ _ _ i h]
  apply Nat.mod_eq_of_lt
  simp only [ustacktop, utop, ulim, pageSize]
  omega

theorem layout_last (m : Nat → Nat) :
    Bytes.load (Bytes.stores m (layout argv.strings))
    (argsAt argv.strings + 8 * argv.strings.length) 8 =
      ustacktop - 1 := by
  obtain ⟨low, high, small⟩ := argsAt_bounds fits
  rw [stores_layout]
  rw [Bytes.load_of_disjoint (by rw [Bytes.le_length]; omega),
    Bytes.load_of_disjoint (by rw [Bytes.le_length]; omega), Bytes.load_store_le]
  rfl

theorem layout_chars (m : Nat → Nat) (i : Nat) (h : i < argv.strings.length) {j : Nat}
    (hj : j ≤ argv.strings[i].length) :
    Bytes.stores m (layout argv.strings)
    (utemp + 4096 - bytes argv.strings + offset argv.strings i + j) =
      argv.strings[i].getD j 0 := by
  obtain ⟨low, high, small⟩ := argsAt_bounds fits
  rw [stores_layout]
  rw [Bytes.store_of_disjoint (by rw [Bytes.le_length]; omega),
    Bytes.store_of_disjoint (by rw [Bytes.le_length]; omega),
    Bytes.store_of_disjoint (by rw [Bytes.le_length]; omega),
    Bytes.stores_of_inside (fillArgs_inside _ _ _) (by omega)]
  exact copyStrings_at m _ _ i h hj

/-- `sp` as `init_stack` returns it. -/
theorem start_argc :
    lw (childMem (layout argv.strings)) (ustacktop - 4096 + (argsAt argv.strings - 12 - utemp)) =
    argv.strings.length := by
  obtain ⟨low, high, small⟩ := argsAt_bounds fits
  have place : utemp + (argsAt argv.strings - 12 - utemp) = argsAt argv.strings - 12 := by omega
  rw [lw, load_layout, place, layout_argc fits]
  exact ofInt_uIntToInt (by omega)

theorem start_argv :
    lw (childMem (layout argv.strings))
    (ustacktop - 4096 + (argsAt argv.strings - 12 - utemp) + 4) =
      ustacktop - 4096 + (argsAt argv.strings - utemp) := by
  obtain ⟨low, high, small⟩ := argsAt_bounds fits
  have place : utemp + (argsAt argv.strings - 12 - utemp + 4) = argsAt argv.strings - 8 := by omega
  have inUser : ustacktop - 4096 + (argsAt argv.strings - utemp) < 2 ^ 31 := by
    simp only [utemp, ustacktop, utop, ulim, pageSize] at low high ⊢
    omega
  rw [lw, Nat.add_assoc, load_layout, place, layout_argv fits]
  exact ofInt_uIntToInt inUser

theorem strings_delivered :
    Strings argv (ustacktop - 4096 + (argsAt argv.strings - 12 - utemp)) (layout argv.strings) := by
  obtain ⟨low, high, small⟩ := argsAt_bounds fits
  constructor
  · exact layout_inside fits
  · exact start_argc fits
  · rw [start_argv fits]
    omega
  · rw [start_argv fits]
    have page : utemp + 4096 - utemp = 4096 := Nat.add_sub_cancel_left ..
    have top : ustacktop - 4096 + 4096 = ustacktop := rfl
    omega
  · intro i h
    have fit := offset_fits argv.strings i h
    have place : utemp + (argsAt argv.strings - utemp + 8 * i) =
        argsAt argv.strings + 8 * i := by omega
    rw [start_argv fits, Nat.add_assoc, load_layout, place, layout_entry fits _ i h]
    have char : ∀ j, j ≤ argv.strings[i].length →
        childMem (layout argv.strings)
        (ustacktop - bytes argv.strings + offset argv.strings i + j) =
          argv.strings[i].getD j 0 := by
      intro j hj
      have byte : ustacktop - bytes argv.strings + offset argv.strings i +
          j - (ustacktop - 4096) + utemp =
          utemp + 4096 - bytes argv.strings + offset argv.strings i + j := by
        simp only [utemp, ustacktop, utop, ulim, pageSize]
        omega
      rw [childMem, byte, layout_chars fits (fun _ => 0) i h hj]
    constructor
    · simp only [ustacktop, utop, ulim, pageSize]
      omega
    · simp only [ustacktop, utop, ulim, pageSize]
      omega
    · intro j hj
      rw [char j (by omega)]
      simp [hj]
    · rw [char _ (Nat.le_refl _)]
      simp

theorem last_points_up :
    last argv (ustacktop - 4096 + (argsAt argv.strings - 12 - utemp))
    (layout argv.strings) = ustacktop - 1 := by
  obtain ⟨low, high, small⟩ := argsAt_bounds fits
  have place : utemp + (argsAt argv.strings - utemp + 8 * argv.strings.length) =
      argsAt argv.strings + 8 * argv.strings.length := by omega
  rw [last, start_argv fits, Nat.add_assoc, load_layout, place, layout_last fits]

end Layout

/-- If all fits, all is delivered but the end of the array, which points to the
last byte of the page. -/
theorem init_stack_delivers (fits : ¬ Exceeds argv) :
    ∃ sp ws, initStack argv.strings 0 0 0 = .ok (sp, ws) ∧ Strings argv sp ws ∧
    last argv sp ws = ustacktop - 1 :=
  ⟨_, _, initStack_fits fits, strings_delivered fits, last_points_up fits⟩

theorem fits_not_meets (fits : ¬ Exceeds argv) : ¬ Meets argv := by
  intro meets
  obtain ⟨sp, ws, ok, delivered⟩ := meets.delivered fits
  have same := Except.ok.inj ((initStack_fits fits).symm.trans ok)
  have null := delivered.last
  rw [← (Prod.mk.inj same).1, ← (Prod.mk.inj same).2, last_points_up fits] at null
  exact absurd null (by decide)

theorem meets_iff (argv : Argv) : Meets argv ↔ Exceeds argv ∧ TestExceeds argv := by
  constructor
  · intro meets
    have exceeds : Exceeds argv := by
      by_contra fits
      exact fits_not_meets fits meets
    exact ⟨exceeds, (initStack_full_iff argv).mp (meets.full.mpr exceeds)⟩
  · rintro ⟨exceeds, test⟩
    constructor
    · exact ⟨fun _ => exceeds, fun _ => (initStack_full_iff argv).mpr test⟩
    · intro fits
      exact absurd exceeds fits

/-- `init_stack` does what it is for only where it refuses: the arguments do not
fit, and their bytes as an `int` do not either. Where they fit, all is delivered
but the null pointer. -/
theorem init_stack_iff (argv : Argv) : (Meets argv ↔ Exceeds argv ∧ TestExceeds argv) ∧
    (¬ Exceeds argv → ∃ sp ws, initStack argv.strings 0 0 0 = .ok (sp, ws) ∧
      Strings argv sp ws ∧ last argv sp ws = ustacktop - 1) :=
  ⟨meets_iff argv, init_stack_delivers⟩

/-- `{"cat", "motd", NULL}`. -/
def catMotd : Argv where
  strings := [[99, 97, 116], [109, 111, 116, 100]]
  chars := by decide
  array := by decide
  inUser := by decide

theorem init_stack_iff_catMotd :
    ∃ sp ws, initStack catMotd.strings 0 0 0 = .ok (sp, ws) ∧ Strings catMotd sp ws ∧
      last catMotd sp ws = ustacktop - 1 := by
  apply (init_stack_iff catMotd).2
  unfold Exceeds
  decide

/-- `{"a", NULL}`. -/
def oneArg : Argv where
  strings := [[97]]
  chars := by decide
  array := by decide
  inUser := by decide

/-- The array for one argument does not end with a null pointer. -/
theorem argv_unterminated : ¬ Meets oneArg ∧
    ∃ sp ws, initStack oneArg.strings 0 0 0 = .ok (sp, ws) ∧ last oneArg sp ws = 0x7fffdfff := by
  have fits : ¬ Exceeds oneArg := by
    unfold Exceeds
    decide
  exact ⟨fits_not_meets fits, _, _, initStack_fits fits, last_points_up fits⟩

end InitStack
end RiscvMos
