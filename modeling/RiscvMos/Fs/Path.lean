import RiscvMos.Lib.Buffer
import RiscvMos.Fs.Debug
import RiscvMos.Fs.Resolve

/-!
`get_path` of `fs/fs.c`: the path of a file from the links that look-ups leave, and
the look-up of that path.
-/

namespace RiscvMos

namespace FsM

open Fs

/-- `while (n != name) *p++ = *--n`. -/
def copyBack (f : Nat) : Nat → Nat → (Nat → Nat) → FsM (Nat × (Nat → Nat))
  | 0, p, path => pure (p, path)
  | n + 1, p, path => do
    let b ← loadByte (4 * f + n)
    copyBack f n (p + 1) (Function.update path p b)

/-- Is the name `"/"`? -/
def isNamedRoot (f : Nat) : FsM Bool := do
  if (← loadByte (4 * f)) = slash then pure ((← loadByte (4 * f + 1)) == 0) else pure false

/-- The first loop of `get_path`. -/
def pathBack : Nat → Nat → Nat → (Nat → Nat) → FsM (Nat × (Nat → Nat))
  | 0, _, _, _ => stop .undefined
  | turns + 1, f, p, path => do
    match ← strlen maxnamelen (4 * f) with
    | none => stop .undefined
    | some len => do
      let (p, path) ← copyBack f len p path
      let path := Function.update path p slash
      match ← getDir f with
      | none => pure (p + 1, path)
      | some dir =>
        if ← isNamedRoot dir then pure (p + 1, path) else pathBack turns dir (p + 1) path

/-- `get_path`, with what it makes of the buffer, if its first loop ends within the turns. -/
def getPathInto (turns f : Nat) (path : Nat → Nat) : FsM (Nat → Nat) := do
  let (p, path) ← pathBack turns f 0 path
  pure (Buffer.turn p 0 (p - 1) (Function.update path p 0))

end FsM

namespace Fs

/-- The path of a file below the root. -/
def pathOf (names : List (List Nat)) : List Nat := names.flatMap (FsM.slash :: ·)

/-- The root is named `"/"` and has no directory, and each file is in one directory. -/
structure Rooted (c : Nat → Nat) : Prop where
  name : cellByte c (4 * sRoot) = FsM.slash ∧ cellByte c (4 * sRoot + 1) = 0
  dir : c (fDirLow sRoot) = 0 ∧ c (fDirHigh sRoot) = 0
  one : Single c

/-- The names on the way from the root to a file, in the cache with the links back. -/
inductive Chain (s : Fs) : List (List Nat) → Nat → Prop
  | root : Chain s [] sRoot
  | file {names : List (List Nat)} {name : List Nat} {d f : Nat} (above : Chain s names d)
      (cached : s.mapped (f / 1024) = true) (place : f % 1024 ≤ 960) (small : f < 2 ^ 28)
      (named : hasName s.cell f name = true)
      (fits : name.length < maxnamelen) (proper : Proper name) (plain : FsM.slash ∉ name)
      (linked : Linked s.cell f d) : Chain s (names ++ [name]) f

/-! ## A file in the cache -/

section
variable {c : Nat → Nat} {f i : Nat} {name : List Nat}

theorem hasName_byte (named : hasName c f name = true) (hi : i < name.length) :
    cellByte c (4 * f + i) = name[i] := by
  simp only [hasName, Bool.and_eq_true, List.all_eq_true, List.mem_range, beq_iff_eq] at named
  rw [named.1 i hi, List.getD_eq_getElem name 0 hi]

theorem hasName_end (named : hasName c f name = true) : cellByte c (4 * f + name.length) = 0 := by
  simp only [hasName, Bool.and_eq_true, beq_iff_eq] at named
  exact named.2

theorem Chain.small {s : Fs} {names : List (List Nat)} (chain : Chain s names f) : f < 2 ^ 28 := by
  cases chain with
  | root => decide
  | file above cached place small named fits proper plain linked => exact small

theorem pathOf_snoc (names : List (List Nat)) (name : List Nat) :
    pathOf (names ++ [name]) = pathOf names ++ FsM.slash :: name := by
  unfold pathOf
  rw [List.flatMap_append, List.flatMap_singleton]

end

end Fs

namespace FsM

open Fs

section
variable {s : Fs} {f d : Nat} {name : List Nat}

theorem loadByte_cached (cached : s.mapped (f / 1024) = true) (place : f % 1024 ≤ 960) {i : Nat}
    (hi : i < maxnamelen) :
    loadByte (4 * f + i) s = .ok (cellByte s.cell (4 * f + i), s) := by
  have below : i < 128 := hi
  have block : (4 * f + i) / 4 / 1024 = f / 1024 := by omega
  unfold loadByte
  rw [bind_ok (load_mapped (by rw [block]; exact cached))]
  rfl

theorem strlen_named (cached : s.mapped (f / 1024) = true) (place : f % 1024 ≤ 960)
    (named : hasName s.cell f name = true)
    (fits : name.length < maxnamelen) (nul : ∀ b ∈ name, b ≠ 0) {k i n : Nat}
    (hi : i + k = name.length) (hn : k < n) :
    strlen n (4 * f + i) s = .ok (some k, s) := by
  induction n generalizing k i with
  | zero => exact absurd hn (Nat.not_lt_zero k)
  | succ n ih =>
    unfold strlen
    rw [bind_ok (loadByte_cached cached place (by omega))]
    cases k with
    | zero =>
      have here : i = name.length := hi
      rw [here, hasName_end named, if_pos rfl]
      rfl
    | succ k =>
      have inside : i < name.length := by omega
      rw [hasName_byte named inside, if_neg (nul _ (List.getElem_mem inside)), Nat.add_assoc,
        bind_ok (@ih k (i + 1) (by omega) (by omega))]
      rfl

theorem copyBack_named (cached : s.mapped (f / 1024) = true) (place : f % 1024 ≤ 960)
    (named : hasName s.cell f name = true)
    (fits : name.length < maxnamelen) {n : Nat} (hn : n ≤ name.length) (p : Nat)
    (path : Nat → Nat) :
    ∃ path', copyBack f n p path s = .ok ((p + n, path'), s) ∧
      Buffer.first (p + n) path' = Buffer.first p path ++ (name.take n).reverse := by
  induction n generalizing p path with
  | zero => exact ⟨path, rfl, (List.append_nil _).symm⟩
  | succ n ih =>
    have inside : n < name.length := hn
    obtain ⟨path', run, text⟩ := ih (Nat.le_of_lt inside) (p + 1) (Function.update path p name[n])
    have count : p + 1 + n = p + (n + 1) := by omega
    rw [count] at run text
    refine ⟨path', ?_, ?_⟩
    · unfold copyBack
      rw [bind_ok (loadByte_cached cached place (by omega)), hasName_byte named inside]
      exact run
    · rw [text, Buffer.first_update, List.take_succ_eq_append_getElem inside, List.reverse_append,
        List.append_assoc]
      rfl

theorem getDir_linked (cached : s.mapped (f / 1024) = true) (place : f % 1024 ≤ 960)
    (linked : Linked s.cell f d) (small : d < 2 ^ 28) : getDir f s = .ok (some d, s) := by
  have low : fDirLow f / 1024 = f / 1024 := by
    unfold fDirLow
    omega
  have high : fDirHigh f / 1024 = f / 1024 := by
    unfold fDirHigh
    omega
  have address : (diskmap + 4 * d) % 2 ^ 32 = diskmap + 4 * d := by
    unfold diskmap
    omega
  have top : (diskmap + 4 * d) / 2 ^ 32 = 0 := by
    unfold diskmap
    omega
  have back : diskmap + 4 * d - diskmap = 4 * d := Nat.add_sub_cancel_left _ _
  unfold getDir
  rw [bind_ok (load_mapped (by rw [low]; exact cached)),
    bind_ok (load_mapped (by rw [high]; exact cached)),
    linked.1, linked.2, top, uInt, uInt, address,
    if_neg (fun zero => absurd zero.1 (by unfold diskmap; omega)),
    if_pos ⟨rfl, Nat.le_add_right _ _, by unfold diskmap; omega⟩, back,
    Nat.mul_div_cancel_left d (by decide)]
  rfl

/-! ## The way back -/

variable {names : List (List Nat)}

/-- Only the root is taken for the root. -/
theorem isNamedRoot_chain (root : Rooted s.cell) (super : s.mapped 1 = true)
    (chain : Chain s names f) :
    isNamedRoot f s = .ok (decide (names = []), s) := by
  unfold isNamedRoot
  cases chain with
  | root =>
    have byte (i : Nat) (hi : i < maxnamelen) :
        loadByte (4 * sRoot + i) s = .ok (cellByte s.cell (4 * sRoot + i), s) :=
      loadByte_cached super (by decide) hi
    have first := byte 0 (by decide)
    rw [Nat.add_zero, root.name.1] at first
    rw [bind_ok first, if_pos rfl, bind_ok (byte 1 (by decide)), root.name.2]
    rfl
  | file above cached place small named fits proper plain linked =>
    rename_i names name d
    have first := loadByte_cached cached place (i := 0) (by decide)
    rw [Nat.add_zero] at first
    have inside : 0 < name.length := List.length_pos_iff.mpr proper.1
    have byte := hasName_byte named inside
    rw [Nat.add_zero] at byte
    have other : name[0] ≠ slash :=
      fun same => plain (by rw [← same]; exact List.getElem_mem inside)
    have below : names ++ [name] ≠ [] :=
      List.append_ne_nil_of_right_ne_nil names (List.cons_ne_nil _ _)
    rw [bind_ok first, byte, if_neg other, decide_eq_false below]
    rfl

/-- The loop writes the path from its end. -/
theorem pathBack_chain (root : Rooted s.cell) (super : s.mapped 1 = true) (chain : Chain s names f)
    (below : names ≠ [])
    {turns : Nat} (enough : names.length ≤ turns) (p : Nat) (path : Nat → Nat) :
    ∃ path', pathBack turns f p path s = .ok ((p + (pathOf names).length, path'), s) ∧
      Buffer.first (p + (pathOf names).length) path' =
      Buffer.first p path ++ (pathOf names).reverse := by
  induction chain generalizing turns p path with
  | root => exact absurd rfl below
  | file above cached place small named fits proper plain linked ih =>
    rename_i names name d f
    rw [List.length_append, List.length_singleton] at enough
    cases turns with
    | zero => exact absurd enough (Nat.not_succ_le_zero _)
    | succ turns =>
      have len := strlen_named (k := name.length) (i := 0) cached place named fits proper.2
        (Nat.zero_add _) fits
      obtain ⟨path₁, copied, text⟩ := copyBack_named cached place named fits (Nat.le_refl _) p path
      rw [List.take_length] at text
      have slashed :
          Buffer.first (p + name.length + 1) (Function.update path₁ (p + name.length) slash) =
          Buffer.first p path ++ (name.reverse ++ [slash]) := by
        rw [Buffer.first_update, text, List.append_assoc]
      unfold pathBack
      rw [Nat.add_zero] at len
      rw [bind_ok len]
      simp only
      rw [bind_ok copied, bind_ok (getDir_linked cached place linked above.small)]
      simp only
      rw [bind_ok (isNamedRoot_chain root super above), pathOf_snoc, List.length_append,
        List.length_cons, List.reverse_append, List.reverse_cons]
      by_cases top : names = []
      · have none_ : pathOf names = [] := by
          rw [top]
          rfl
        rw [decide_eq_true top, if_pos rfl, none_, List.length_nil, Nat.zero_add, ← Nat.add_assoc]
        refine ⟨Function.update path₁ (p + name.length) slash, rfl, ?_⟩
        rw [slashed, List.reverse_nil, List.append_nil]
      · obtain ⟨path', run, rest⟩ := ih top (Nat.le_of_succ_le_succ enough) (p + name.length + 1)
          (Function.update path₁ (p + name.length) slash)
        have count : p + name.length + 1 + (pathOf names).length =
            p + ((pathOf names).length + (name.length + 1)) := by
          omega
        rw [count] at run rest
        rw [decide_eq_false top, if_neg Bool.false_ne_true]
        refine ⟨path', run, ?_⟩
        rw [rest, slashed, List.append_assoc]

/-- The way that a walk has gone. -/
theorem chain_of_visits {c : Nat → Nat} (tree : Tree c) (disk : c sNblocks ≤ 2 ^ 18)
    (relinks : Relinks c s.cell) {above : List (List Nat)} (chain : Chain s above d)
    (node : Node c d) (met : Met s c names d)
    (back : Visits Every (fun d g => Linked s.cell g d) c names d) (short : Short names)
    (proper : ∀ n ∈ names, Proper n ∧ slash ∉ n) (found : resolve c names d = some f) :
    Chain s (above ++ names) f := by
  induction names generalizing above d with
  | nil =>
    rw [List.append_nil, ← Option.some.inj found]
    exact chain
  | cons name names ih =>
    have first := proper name List.mem_cons_self
    have fits := short name List.mem_cons_self
    unfold resolve at found
    by_cases isDir : IsDir c d
    · have hd : Dir c d := ⟨node, isDir⟩
      rw [if_pos isDir] at found
      obtain ⟨g, here, rest⟩ := Option.bind_eq_some_iff.mp found
      obtain ⟨cached, met'⟩ := (met fits isDir).2 g here
      obtain ⟨link, back'⟩ := (back fits isDir).2 g here
      have listed := childOf_listed here
      obtain ⟨-, aligned, place, block⟩ := tree.file_place disk hd (.of_mem Every.intro listed)
      have named : hasName s.cell g name = true := by
        rw [relinks.hasName_eq listed fits]
        exact childOf_named here
      have next : Chain s (above ++ [name]) g :=
        .file chain cached place (by omega) named fits first.1 first.2 link
      have whole := ih next (childOf_node hd first.1 here) met' back'
        (fun n hn => short n (List.mem_cons_of_mem name hn))
        (fun n hn => proper n (List.mem_cons_of_mem name hn)) rest
      rw [List.append_assoc] at whole
      exact whole
    · rw [if_neg isDir] at found
      cases found

/-! ## The path is that of the file -/

theorem components_plain (path : List Nat) : ∀ name ∈ components path, slash ∉ name := by
  intro name h mem
  obtain ⟨b, rest, -, -, rfl⟩ := mem_components _ path (Nat.le_refl _) h
  have other := List.all_eq_true.mp (List.all_takeWhile (p := (· != slash))) slash mem
  exact absurd rfl (bne_iff_ne.mp other)

theorem components_pathOf (proper : ∀ n ∈ names, Proper n ∧ slash ∉ n) :
    components (pathOf names) = names := by
  induction names with
  | nil => rfl
  | cons name names ih =>
    have first := proper name List.mem_cons_self
    have inside : ∀ x ∈ name, (x != slash) = true := by
      intro x hx
      rw [bne_iff_ne]
      exact fun same => first.2 (by rw [← same]; exact hx)
    have stop : (pathOf names).takeWhile (· != slash) = [] ∧
        (pathOf names).dropWhile (· != slash) = pathOf names := by
      cases names with
      | nil => exact ⟨rfl, rfl⟩
      | cons second names => exact ⟨rfl, rfl⟩
    have rest := ih fun n hn => proper n (List.mem_cons_of_mem name hn)
    have split : pathOf (name :: names) = slash :: (name ++ pathOf names) := rfl
    rw [split, components_slash]
    cases hname : name with
    | nil => exact absurd hname first.1.1
    | cons b tail =>
      have other : b ≠ slash := by
        intro same
        apply first.2
        rw [hname, same]
        exact List.mem_cons_self
      rw [List.cons_append, components_cons _ other, ← List.cons_append, ← hname,
        List.takeWhile_append_of_pos inside,
        List.dropWhile_append_of_pos inside, stop.1, stop.2, List.append_nil,
        components_skipSlash, rest]

theorem pathOf_nul (proper : ∀ n ∈ names, Proper n ∧ slash ∉ n) : ∀ b ∈ pathOf names, b ≠ 0 := by
  intro b hb
  obtain ⟨name, hname, mem⟩ := List.mem_flatMap.mp hb
  cases List.mem_cons.mp mem with
  | inl same =>
    rw [same]
    decide
  | inr inside => exact (proper name hname).1.2 b inside

theorem rooted_relinks {c c' : Nat → Nat} (h : Relinks c c') (tree : Tree c)
    (disk : c sNblocks ≤ 2 ^ 18) (root : Rooted c) : Rooted c' := by
  have word (w : Nat) (hw : w / 1024 = 1) : c' w = c w := by
    apply h
    intro dirBlock
    rw [hw] at dirBlock
    exact absurd rfl (tree.apart 1 dirBlock).1
  have byte (i : Nat) (hi : i < 4) : cellByte c' (4 * sRoot + i) = cellByte c (4 * sRoot + i) := by
    have here : (4 * sRoot + i) / 4 / 1024 = 1 := by
      unfold sRoot
      omega
    unfold cellByte
    rw [word _ here]
  refine ⟨?_, ?_, root.one.relinks h tree disk⟩
  · have first := byte 0 (by decide)
    rw [Nat.add_zero] at first
    rw [first, byte 1 (by decide)]
    exact root.name
  · rw [word (fDirLow sRoot) (by decide), word (fDirHigh sRoot) (by decide)]
    exact root.dir

/-- For the root itself the path is `"//"`. -/
theorem pathBack_root (root : Rooted s.cell) (super : s.mapped 1 = true) {turns : Nat}
    (enough : 0 < turns) (path : Nat → Nat) :
    ∃ path', pathBack turns sRoot 0 path s = .ok ((2, path'), s) ∧
    Buffer.first 2 path' = [slash, slash] := by
  have named : hasName s.cell sRoot [slash] = true := by
    have first := root.name.1
    simp only [hasName, Bool.and_eq_true, List.all_eq_true, List.mem_range, beq_iff_eq]
    refine ⟨fun i hi => ?_, root.name.2⟩
    rw [Nat.lt_one_iff.mp hi]
    exact first
  have nul : ∀ b ∈ [slash], b ≠ 0 := by decide
  have cached : s.mapped (sRoot / 1024) = true := super
  have len := strlen_named (k := 1) (i := 0) cached (by decide) named
    (by decide) nul rfl (n := maxnamelen) (by decide)
  obtain ⟨path₁, copied, text⟩ :=
    copyBack_named cached (by decide) named (by decide) (Nat.le_refl 1) 0 path
  cases turns with
  | zero => exact absurd enough (Nat.lt_irrefl 0)
  | succ turns =>
    have dir : getDir sRoot s = .ok (none, s) := by
      unfold getDir
      rw [bind_ok (load_mapped (show s.mapped (fDirLow sRoot / 1024) = true from super)),
        bind_ok (load_mapped (show s.mapped (fDirHigh sRoot / 1024) = true from super)),
        root.dir.1, root.dir.2]
      rfl
    refine ⟨Function.update path₁ 1 slash, ?_, ?_⟩
    · unfold pathBack
      rw [Nat.add_zero] at len
      rw [bind_ok len]
      simp only
      rw [bind_ok copied, bind_ok dir]
      rfl
    · rw [Buffer.first_update, text]
      rfl

/-- What `get_path` writes for the names on the way to a file. -/
def textOf (names : List (List Nat)) : List Nat :=
  if names = [] then [slash, slash] else pathOf names

theorem pathBack_text (root : Rooted s.cell) (super : s.mapped 1 = true)
    (chain : Chain s names f) {turns : Nat} (enough : names.length < turns) (path : Nat → Nat) :
    ∃ path', pathBack turns f 0 path s = .ok (((textOf names).length, path'), s) ∧
      Buffer.first (textOf names).length path' = (textOf names).reverse := by
  unfold textOf
  by_cases top : names = []
  · have same : f = sRoot := by
      generalize names = above at chain top
      cases chain with
      | root => rfl
      | file => exact absurd top (List.append_ne_nil_of_right_ne_nil _ (List.cons_ne_nil _ _))
    rw [if_pos top, same]
    exact pathBack_root root super (Nat.zero_lt_of_lt enough) path
  · obtain ⟨path', run, text⟩ := pathBack_chain root super chain top (Nat.le_of_lt enough) 0 path
    rw [Nat.zero_add] at run text
    rw [if_neg top]
    exact ⟨path', run, text⟩

/-- The buffer ends up with the path and its `NUL`. -/
theorem getPathInto_text (root : Rooted s.cell) (super : s.mapped 1 = true)
    (chain : Chain s names f) {turns : Nat} (enough : names.length < turns) (path : Nat → Nat) :
    ∃ out, getPathInto turns f path s = .ok (out, s) ∧
      Buffer.first ((textOf names).length + 1) out = textOf names ++ [0] := by
  obtain ⟨path', run, text⟩ := pathBack_text root super chain enough path
  have some_ : (textOf names).reverse ≠ [] := by
    rw [ne_eq, List.reverse_eq_nil_iff]
    unfold textOf
    by_cases top : names = []
    · rw [if_pos top]
      exact List.cons_ne_nil _ _
    · rw [if_neg top]
      cases names with
      | nil => exact absurd rfl top
      | cons name names => exact List.cons_ne_nil _ _
  have ended := Buffer.first_update (textOf names).length path' 0
  rw [text] at ended
  have turned :=
    Buffer.first_turn (textOf names).length ended some_ (by rw [List.length_reverse]; omega)
  rw [List.length_reverse, List.reverse_reverse] at turned
  refine ⟨_, ?_, turned⟩
  unfold getPathInto
  rw [bind_ok run]
  rfl

theorem components_textOf (proper : ∀ n ∈ names, Proper n ∧ slash ∉ n) :
    components (textOf names) = names := by
  unfold textOf
  by_cases top : names = []
  · rw [if_pos top, top]
    rfl
  · rw [if_neg top]
    exact components_pathOf proper

theorem textOf_nul (proper : ∀ n ∈ names, Proper n ∧ slash ∉ n) : ∀ b ∈ textOf names, b ≠ 0 := by
  unfold textOf
  by_cases top : names = []
  · rw [if_pos top]
    decide
  · rw [if_neg top]
    exact pathOf_nul proper

theorem pathOf_length (names : List (List Nat)) :
    (pathOf names).length = (names.map List.length).sum + names.length := by
  induction names with
  | nil => rfl
  | cons name names ih =>
    have split : pathOf (name :: names) = slash :: (name ++ pathOf names) := rfl
    rw [split, List.length_cons, List.length_append, ih, List.map_cons, List.sum_cons,
      List.length_cons]
    omega

end

/-- The names that `get_path` copies: that of the root only if the file is the root. -/
def passed (path : List Nat) : List (List Nat) :=
  if components path = [] then [[slash]] else components path

/-- After `file_open`, `get_path` ends with a path that `file_open` opens the same file for. -/
def Inverts (s : Fs) (path : List Nat) : Prop :=
  ∀ f s', fileOpen path s = .ok (.ok f, s') →
    ∃ enough, ∀ turns buf, enough ≤ turns →
      ∃ text out s'', getPathInto turns f buf s' = .ok (out, s'') ∧
      Buffer.first (text.length + 1) out = text ++ [0] ∧
        (∀ b ∈ text, b ≠ 0) ∧
        text.length ≤ ((passed path).map List.length).sum + (components path).length + 1 ∧
        ∃ s₃, fileOpen text s'' = .ok (.ok f, s₃)

/-- `get_path` inverts path resolution in every tree without holes. -/
theorem getPath_inverts (s : Fs) (path : List Nat) (h : Inited s) (tree : Tree s.cell)
    (root : Rooted s.cell) (nul : ∀ b ∈ path, b ≠ 0) : Inverts s path := by
  intro f s' opens
  have proper : ∀ n ∈ components path, Proper n ∧ slash ∉ n :=
    fun n hn => ⟨components_proper path nul n hn, components_plain path n hn⟩
  have rooted := reached_root h tree
  have there : Needs Every s.cell (components path) sRoot := Needs.of_all Every.intro _ _ _
  obtain ⟨grows, result, walk⟩ :=
    (@fileOpen_ends Every s path True rooted nul there
      (Needs.of_all (Has.any s) _ _ _)).result opens
  obtain ⟨short, found⟩ := opened_walked.mp result.symm
  have relinks := (walk.links rooted (components_proper path nul) there).relinks tree h.nblocks
  have root' := rooted_relinks relinks tree h.nblocks root
  have reached := walk.reached f (by rw [walked_found short found])
  have back := linked_met tree h.nblocks root.one (components_proper path nul) .root
  rw [← walk.cell] at back
  have chain :=
    chain_of_visits tree h.nblocks relinks .root .root walk.read back short proper found
  rw [List.nil_append] at chain
  refine ⟨(components path).length + 1, fun turns buf enough => ?_⟩
  obtain ⟨out, run, text⟩ := getPathInto_text root' reached.super chain enough buf
  refine ⟨textOf (components path), out, s', run, text, textOf_nul proper, ?_, ?_⟩
  · unfold textOf passed
    by_cases top : components path = []
    · rw [if_pos top, if_pos top, top]
      decide
    · rw [if_neg top, if_neg top, pathOf_length]
      exact Nat.le_succ _
  · have again : Needs (Has False s') s'.cell (components path) sRoot :=
      (visits_congr relinks tree h.nblocks (fun n hn => (proper n hn).1) there .root).mpr
        (walk.read.mono (fun b hb => .inr hb) fun _ _ _ => trivial)
    rw [← components_textOf proper] at again
    obtain ⟨r, s₃, opens', -, result', -⟩ :=
      (@fileOpen_ends Every s' (textOf (components path)) False
      (reached_root reached.toInited reached.tree)
      (textOf_nul proper) (Needs.of_all Every.intro _ _ _) again).total fun _ stops => stops.1
    rw [components_textOf proper,
      walked_congr relinks tree h.nblocks (fun n hn => (proper n hn).1) there none .root,
      ← result] at result'
    rw [result'] at opens'
    exact ⟨s₃, opens'⟩

theorem twoDirs_rooted : Rooted twoDirs.cell := by
  have only (d f : Nat) (hd : Dir twoDirs.cell d) (hf : f ∈ files twoDirs.cell d) : d = sRoot := by
    obtain ⟨i, hi, -⟩ := mem_files.mp hf
    exact (twoDirs_block hd hi).1
  refine ⟨by decide, by decide, fun d d' f hd hd' hf hf' => ?_⟩
  rw [only d f hd hf, only d' f hd' hf']

theorem getPath_inverts_twoDirs :
    (∃ s', fileOpen [47, 97] twoDirs = .ok (.ok 3072, s')) ∧ Inverts twoDirs [47, 97] :=
  ⟨⟨_, rfl⟩, getPath_inverts twoDirs [47, 97] twoDirs_inited twoDirs_tree
    twoDirs_rooted (by decide)⟩

/-- An empty root with a hole, and a free block that is still in the cache, with a directory `a`
in it that has this block. -/
def holed : Fs where
  word := fun w =>
    if w = sNblocks then 8 else if w = sRoot then 47 else if w = fSize sRoot then 4096
    else if w = fType sRoot then 1
    else if w = 2048 then 16 else if w = 4096 then 97 else if w = fSize 4096 then 4096
      else if w = fType 4096 then 1
    else if w = fDirect 4096 0 then 4 else 0
  mapped := fun _ => true
  pteD := fun _ => false
  disk := fun _ => 0
  memory := fun _ => true
  asked := 0

/-- Behind the look-up of `/a/a`, which is the directory `a` itself. -/
def looped : Fs :=
  match fileOpen [47, 97, 47, 97] holed with
  | .ok (_, s) => s
  | .error _ => holed

theorem pathBack_looped (turns p : Nat) (path : Nat → Nat) :
    pathBack turns 4096 p path looped = .error .undefined := by
  have cached : looped.mapped (4096 / 1024) = true := rfl
  have named : hasName looped.cell 4096 [97] = true := by decide
  have linked : Linked looped.cell 4096 4096 := ⟨by decide, by decide⟩
  induction turns generalizing p path with
  | zero => rfl
  | succ turns ih =>
    have len := strlen_named (k := 1) (i := 0) (n := maxnamelen) cached (by decide) named
      (by decide) (by decide) rfl (by decide)
    obtain ⟨path₁, copied, -⟩ :=
      copyBack_named cached (by decide) named (by decide) (Nat.le_refl 1) p path
    have first := loadByte_cached cached (by decide) (i := 0) (by decide)
    rw [Nat.add_zero] at len first
    unfold pathBack
    rw [bind_ok len]
    simp only
    rw [bind_ok copied, bind_ok (getDir_linked cached (by decide) linked (by decide))]
    simp only
    have other : isNamedRoot 4096 looped = .ok (false, looped) := by
      unfold isNamedRoot
      rw [bind_ok first, if_neg (by decide)]
      rfl
    rw [bind_ok other, if_neg Bool.false_ne_true]
    exact ih _ _

theorem getPath_never_ends :
    Inited holed ∧ Rooted holed.cell ∧ (∀ f, Node holed.cell f → f = sRoot) ∧
    ¬ Inverts holed [47, 97, 47, 97] := by
  have only : ∀ f, Node holed.cell f → f = sRoot := by
    intro f node
    induction node with
    | root => rfl
    | file dir type listed used ih =>
      rw [ih] at listed
      obtain ⟨i, hi, -, hf⟩ := listed
      have first : i = 0 := Nat.lt_one_iff.mp hi
      rw [first] at hf
      obtain ⟨j, hj, rfl⟩ := (mem_filesIn (by decide)).mp hf
      have free : ∀ j < file2blk, cellByte holed.cell
          (4 * (1024 * pointer holed.cell sRoot 0 + 64 * j)) = 0 := by decide
      exact absurd (free j hj) used
  refine ⟨⟨by decide, rfl, fun _ _ => rfl⟩, ⟨by decide, by decide, ?_⟩, only, fun inverts => ?_⟩
  · intro d d' f hd hd' _ _
    rw [only d hd.1, only d' hd'.1]
  · obtain ⟨enough, ends⟩ := inverts 4096 looped rfl
    obtain ⟨text, out, s'', run, -⟩ := ends enough (fun _ => 0) (Nat.le_refl _)
    have never : getPathInto enough 4096 (fun _ => 0) looped = .error .undefined := by
      have back := pathBack_looped enough 0 fun _ => 0
      unfold getPathInto
      show (pathBack enough 4096 0 (fun _ => 0) looped >>= _) = _
      rw [back]
      rfl
    rw [never] at run
    cases run

end FsM

end RiscvMos
