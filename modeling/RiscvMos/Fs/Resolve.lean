import RiscvMos.Fs.Lookup

/-!
`walk_path` of `fs/fs.c`: its scanner against the components of a path, and its
look-ups against the names that lead to a file in the tree.
-/

namespace RiscvMos

namespace Fs

/-- The components of a path. -/
def components (path : List Nat) : List (List Nat) := (path.splitOn FsM.slash).filter (· ≠ [])

/-- All fit into `name[MAXNAMELEN]`. -/
def Short (names : List (List Nat)) : Prop := ∀ name ∈ names, name.length < maxnamelen

/-- The directory that the last name is looked up in. -/
def parent (c : Nat → Nat) (names : List (List Nat)) : Option Nat :=
  if names = [] then none else resolve c names.dropLast sRoot

/-- Only the file itself is missing, in the directory `d`. -/
structure LastMissing (c : Nat → Nat) (names : List (List Nat)) (d : Nat)
    (name : List Nat) : Prop where
  short : Short names
  last : names.getLast? = some name
  dir : resolve c names.dropLast sRoot = some d
  isDir : IsDir c d
  missing : childOf c d name = none

/-- A walk that does what path resolution is. -/
structure Resolves (c : Nat → Nat) (names : List (List Nat)) (w : FsM.Walk) : Prop where
  zero : w.code = 0 ↔ Short names ∧ ∃ f, resolve c names sRoot = some f
  found : ∀ f, Short names → resolve c names sRoot = some f → w = ⟨0, parent c names, some f, none⟩
  missing : ∀ d name, LastMissing c names d name → w = ⟨-eNotFound, some d, none, some name⟩
  failing : w.code ≠ 0 → (∀ d name, ¬ LastMissing c names d name) →
    (w.code = -eNotFound ∨ w.code = -eBadPath) ∧ w.dir = none ∧ w.file = none

/-! ## The components -/

section
variable {path : List Nat}

theorem components_slash (path : List Nat) : components (FsM.slash :: path) = components path := by
  have first := List.splitOn_append_cons_self_of_not_mem (List.not_mem_nil (a := FsM.slash)) path
  rw [List.nil_append] at first
  unfold components
  rw [first]
  rfl

theorem components_skipSlash (path : List Nat) :
    components (FsM.skipSlash path) = components path := by
  induction path with
  | nil => rfl
  | cons b path ih =>
    unfold FsM.skipSlash at ih ⊢
    by_cases first : b = FsM.slash
    · rw [first, List.dropWhile_cons_of_pos (by rfl), ih]
      exact (components_slash path).symm
    · rw [List.dropWhile_cons_of_neg (by rwa [beq_iff_eq])]

/-- What `skip_slash` leaves does not start with a slash. -/
theorem skipSlash_head {b : Nat} (h : (FsM.skipSlash path).head? = some b) : b ≠ FsM.slash := by
  have stop := List.head?_dropWhile_not (· == FsM.slash) path
  unfold FsM.skipSlash at h
  rw [h] at stop
  exact beq_eq_false_iff_ne.mp stop

/-- The scanner takes the first component. -/
theorem components_cons {b : Nat} (path : List Nat) (hb : b ≠ FsM.slash) :
    components (b :: path) = ((b :: path).takeWhile (· != FsM.slash)) ::
      components (FsM.skipSlash ((b :: path).dropWhile (· != FsM.slash))) := by
  have none_ : FsM.slash ∉ (b :: path).takeWhile (· != FsM.slash) := by
    intro mem
    have other := List.all_eq_true.mp (List.all_takeWhile (p := (· != FsM.slash))) FsM.slash mem
    exact absurd rfl (bne_iff_ne.mp other)
  have some_ : (b :: path).takeWhile (· != FsM.slash) ≠ [] := by
    rw [List.takeWhile_cons_of_pos (by simpa using hb)]
    exact List.cons_ne_nil _ _
  have whole := List.takeWhile_append_dropWhile (p := (· != FsM.slash)) (l := b :: path)
  rw [components_skipSlash]
  cases rest : (b :: path).dropWhile (· != FsM.slash) with
  | nil =>
    rw [rest, List.append_nil] at whole
    rw [whole] at none_ some_ ⊢
    unfold components
    rw [List.splitOn_eq_singleton none_, List.filter_cons_of_pos (by simp)]
    rfl
  | cons sep after =>
    have sep_ : sep = FsM.slash := by
      have stop := List.head?_dropWhile_not (· != FsM.slash) (b :: path)
      rw [rest] at stop
      simpa using stop
    subst sep_
    rw [rest] at whole
    rw [components_slash]
    have split := List.splitOn_append_cons_self_of_not_mem none_ after
    rw [whole] at split
    unfold components
    rw [split, List.filter_cons_of_pos (by simpa using some_)]

end

end Fs

namespace FsM

open Fs

/-- `memcpy` of a name into `name[MAXNAMELEN]`, and the `NUL` behind it. -/
def copyName (name : List Nat) : FsM (List Nat) :=
  if name.length < maxnamelen then pure name else stop .undefined

/-- The loop of `walk_path`, with the buffer that the names are copied to. -/
def walkIntoFrom : Nat → List Nat → Option Nat → Nat → FsM Walk
  | 0, _, dir, file => pure ⟨0, dir, some file, none⟩
  | n + 1, path, dir, file => do
    if path = [] then pure ⟨0, dir, some file, none⟩
    else if maxnamelen ≤ (path.takeWhile (· != slash)).length then
      pure ⟨-eBadPath, none, none, none⟩
    else do
      let name ← copyName (path.takeWhile (· != slash))
      let rest := skipSlash (path.dropWhile (· != slash))
      if (← load (fType file)) ≠ ftypeDir then pure ⟨-eNotFound, none, none, none⟩
      else match ← dirLookup file name with
        | .ok f => walkIntoFrom n rest (some file) f
        | .error r =>
          if r = -eNotFound ∧ rest = [] then pure ⟨r, some file, none, some name⟩
          else pure ⟨r, none, none, none⟩

def walkPathInto (path : List Nat) : FsM Walk :=
  walkIntoFrom path.length (skipSlash path) none sRoot

/-- No name that is copied is too long for the buffer. -/
theorem walkIntoFrom_eq (n : Nat) (path : List Nat) (dir : Option Nat) (file : Nat) :
    walkIntoFrom n path dir file = walkFrom n path dir file := by
  induction n generalizing path dir file with
  | zero => rfl
  | succ n ih =>
    unfold walkIntoFrom walkFrom
    by_cases done : path = []
    · rw [if_pos done, if_pos done]
    · rw [if_neg done, if_neg done]
      by_cases long : maxnamelen ≤ (path.takeWhile (· != slash)).length
      · rw [if_pos long, if_pos long]
      · have same : walkIntoFrom n = walkFrom n := funext fun p => funext fun d => funext (ih p d)
        rw [if_neg long, if_neg long, copyName, if_pos (Nat.lt_of_not_le long), pure_bind]
        exact same ▸ rfl

theorem walkPathInto_eq (path : List Nat) : walkPathInto path = walkPath path :=
  walkIntoFrom_eq _ _ _ _

end FsM

namespace Fs

/-- What the loop gives for the names that are left. -/
def walked (c : Nat → Nat) : List (List Nat) → Option Nat → Nat → FsM.Walk
  | [], dir, file => ⟨0, dir, some file, none⟩
  | name :: names, _, file =>
    if maxnamelen ≤ name.length then ⟨-eBadPath, none, none, none⟩
    else if ¬ IsDir c file then ⟨-eNotFound, none, none, none⟩
    else
      match childOf c file name with
      | some f => walked c names (some file) f
      | none =>
        if names = [] then ⟨-eNotFound, some file, none, some name⟩
        else ⟨-eNotFound, none, none, none⟩

section
variable {c : Nat → Nat} {names : List (List Nat)} {dir : Option Nat} {file f d : Nat}
    {name : List Nat}

theorem walked_found (short : Short names) (h : resolve c names file = some f) :
    walked c names dir file =
    ⟨0, if names = [] then dir else resolve c names.dropLast file, some f, none⟩ := by
  induction names generalizing dir file with
  | nil =>
    rw [← Option.some.inj h]
    rfl
  | cons first names ih =>
    unfold resolve at h
    by_cases isDir : IsDir c file
    · rw [if_pos isDir] at h
      obtain ⟨g, found, rest⟩ := Option.bind_eq_some_iff.mp h
      unfold walked
      rw [if_neg (Nat.not_le_of_lt (short first List.mem_cons_self)),
        if_neg (not_not.mpr isDir), found]
      simp only [reduceCtorEq, if_false]
      rw [ih (fun n hn => short n (List.mem_cons_of_mem first hn)) rest]
      cases names with
      | nil => rfl
      | cons second names =>
        rw [List.dropLast_cons_cons, resolve, if_pos isDir, found]
        rfl
    · rw [if_neg isDir] at h
      cases h

theorem walked_missing (short : Short names) (last : names.getLast? = some name)
    (hd : resolve c names.dropLast file = some d) (isDir : IsDir c d)
    (missing : childOf c d name = none) :
    walked c names dir file = ⟨-eNotFound, some d, none, some name⟩ := by
  induction names generalizing dir file with
  | nil => cases last
  | cons first names ih =>
    have fits : ¬ maxnamelen ≤ first.length := Nat.not_le_of_lt (short first List.mem_cons_self)
    unfold walked
    rw [if_neg fits]
    cases names with
    | nil =>
      have same : first = name := Option.some.inj last
      have here : file = d := Option.some.inj hd
      rw [← here] at isDir missing ⊢
      rw [if_neg (not_not.mpr isDir), same, missing]
      rfl
    | cons second names =>
      rw [List.dropLast_cons_cons, resolve] at hd
      by_cases fileDir : IsDir c file
      · rw [if_pos fileDir] at hd
        obtain ⟨g, found, rest⟩ := Option.bind_eq_some_iff.mp hd
        rw [if_neg (not_not.mpr fileDir), found]
        exact ih (fun n hn => short n (List.mem_cons_of_mem first hn)) last rest
      · rw [if_neg fileDir] at hd
        cases hd

theorem walked_some (fits : name.length < maxnamelen) (isDir : IsDir c file)
    (found : childOf c file name = some f) :
    walked c (name :: names) dir file = walked c names (some file) f := by
  rw [walked, if_neg (Nat.not_le_of_lt fits), if_neg (not_not.mpr isDir), found]

theorem walked_stop
    (stop : name.length < maxnamelen → IsDir c file → childOf c file name = none) :
    (walked c (name :: names) dir file).file = none := by
  unfold walked
  by_cases long : maxnamelen ≤ name.length
  · rw [if_pos long]
  · rw [if_neg long]
    by_cases isDir : IsDir c file
    · rw [if_neg (not_not.mpr isDir), stop (Nat.lt_of_not_le long) isDir]
      simp only
      split_ifs <;> rfl
    · rw [if_pos isDir]

/-- A walk finds the file, or all but the file, or nothing. -/
theorem walked_cases (c : Nat → Nat) (names : List (List Nat)) (dir : Option Nat) (file : Nat) :
    (Short names ∧ ∃ f, resolve c names file = some f) ∨
      (Short names ∧ ∃ d name, names.getLast? = some name ∧
        resolve c names.dropLast file = some d ∧ IsDir c d ∧
        childOf c d name = none) ∨
      ∃ r, (r = -eNotFound ∨ r = -eBadPath) ∧ walked c names dir file = ⟨r, none, none, none⟩ := by
  induction names generalizing dir file with
  | nil => exact .inl ⟨fun _ h => absurd h List.not_mem_nil, file, rfl⟩
  | cons first names ih =>
    unfold walked
    by_cases long : maxnamelen ≤ first.length
    · rw [if_pos long]
      exact .inr (.inr ⟨_, .inr rfl, rfl⟩)
    · rw [if_neg long]
      by_cases isDir : IsDir c file
      · rw [if_neg (not_not.mpr isDir)]
        have short : Short names → Short (first :: names) := by
          intro rest n hn
          cases List.mem_cons.mp hn with
          | inl same =>
            rw [same]
            exact Nat.lt_of_not_le long
          | inr later => exact rest n later
        cases found : childOf c file first with
        | some g =>
          have next (ns : List (List Nat)) : resolve c (first :: ns) file = resolve c ns g := by
            rw [resolve, if_pos isDir, found]
            rfl
          rw [next]
          cases ih (some file) g with
          | inl all => exact .inl ⟨short all.1, all.2⟩
          | inr rest =>
            cases rest with
            | inl but =>
              obtain ⟨fits, d, name, last, hd, hd', missing⟩ := but
              refine .inr (.inl ⟨short fits, d, name, ?_, ?_, hd', missing⟩)
              · cases names with
                | nil => cases last
                | cons second names => exact last
              · cases names with
                | nil => cases last
                | cons second names =>
                  rw [List.dropLast_cons_cons, next]
                  exact hd
            | inr nothing => exact .inr (.inr nothing)
        | none =>
          simp only
          by_cases only : names = []
          · rw [if_pos only]
            subst only
            exact .inr
              (.inl ⟨short fun _ h => absurd h List.not_mem_nil, file, first, rfl,
                rfl, isDir, found⟩)
          · rw [if_neg only]
            exact .inr (.inr ⟨_, .inl rfl, rfl⟩)
      · rw [if_pos isDir]
        exact .inr (.inr ⟨_, .inl rfl, rfl⟩)

theorem walked_resolves (c : Nat → Nat) (names : List (List Nat)) :
    Resolves c names (walked c names none sRoot) := by
  have found (f : Nat) (short : Short names) (h : resolve c names sRoot = some f) :
      walked c names none sRoot = ⟨0, parent c names, some f, none⟩ := walked_found short h
  have missing (d : Nat) (name : List Nat) (h : LastMissing c names d name) :
      walked c names none sRoot = ⟨-eNotFound, some d, none, some name⟩ :=
    walked_missing h.short h.last h.dir h.isDir h.missing
  constructor
  · constructor
    · intro zero
      cases walked_cases c names none sRoot with
      | inl all => exact all
      | inr rest =>
        cases rest with
        | inl but =>
          obtain ⟨short, d, name, last, hd, isDir, none_⟩ := but
          rw [missing d name ⟨short, last, hd, isDir, none_⟩] at zero
          cases zero
        | inr nothing =>
          obtain ⟨r, code, same⟩ := nothing
          rw [same] at zero
          cases code with
          | inl notFound =>
            rw [notFound] at zero
            cases zero
          | inr bad =>
            rw [bad] at zero
            cases zero
    · rintro ⟨short, f, h⟩
      rw [found f short h]
  · exact found
  · exact missing
  · intro nonzero whole
    cases walked_cases c names none sRoot with
    | inl all =>
      obtain ⟨short, f, h⟩ := all
      rw [found f short h] at nonzero
      exact absurd rfl nonzero
    | inr rest =>
      cases rest with
      | inl but =>
        obtain ⟨short, d, name, last, hd, isDir, none_⟩ := but
        exact absurd ⟨short, last, hd, isDir, none_⟩ (whole d name)
      | inr nothing =>
        obtain ⟨r, code, same⟩ := nothing
        rw [same]
        exact ⟨code, rfl, rfl⟩

end

end Fs

namespace FsM

open Fs

/-! ## The walk -/

/-- A file of the tree in the cache. -/
structure ReachedIn (B : Nat → Prop) (s : Fs) (f : Nat) : Prop extends Inited s where
  tree : TreeIn B s.cell
  node : NodeIn B s.cell f
  cached : s.mapped (f / 1024) = true

abbrev Reached : Fs → Nat → Prop := ReachedIn Every

section
variable {B : Nat → Prop} {s s' : Fs} {f d : Nat} {name path : List Nat}

theorem ReachedIn.type_cached (h : ReachedIn B s f) : s.mapped (fType f / 1024) = true := by
  have place := (h.tree.field_fixed h.nblocks h.node (k := 33) (by decide)).2
  have block : fType f / 1024 = f / 1024 := by
    unfold fType
    omega
  rw [block]
  exact h.cached

/-- Behind a look-up its file is reached, with the directory linked. -/
theorem ReachedIn.child (h : ReachedIn B s d) (isDir : IsDir s.cell d) (grows : Grows s s')
    (found : childOf s.cell d name = some f) (listed : Listed B s.cell d f) (proper : Proper name)
    (cell : s'.cell = relink s.cell f d)
    (cached : s'.mapped (f / 1024) = true) : ReachedIn B s' f ∧ LinksIn B s.cell s'.cell := by
  have hd : DirIn B s.cell d := ⟨h.node, isDir⟩
  have links : LinksIn B s.cell s'.cell := by
    rw [cell]
    exact relink_links hd listed
  have relinks := links.relinks h.tree h.nblocks
  refine ⟨⟨h.toInited.grows grows (relinks.nblocks h.tree), relinks.tree_kept h.tree h.nblocks,
    ?_, cached⟩, links⟩
  exact (relinks.node_iff h.tree h.nblocks).mpr (childOf_nodeIn hd listed proper found)

/-- Behind a look-up that finds nothing the directory is still reached. -/
theorem ReachedIn.stays (h : ReachedIn B s f) (grows : Grows s s') (cell : s'.cell = s.cell) :
    ReachedIn B s' f := by
  refine ⟨h.toInited.grows grows (by rw [cell]), ?_, ?_, grows.mapped _ h.cached⟩
  · rw [cell]
    exact h.tree
  · rw [cell]
    exact h.node

theorem first_proper {b : Nat} (rest : List Nat) (hb : b ≠ slash) (nul : ∀ x ∈ b :: rest, x ≠ 0) :
    Proper ((b :: rest).takeWhile (· != slash)) := by
  constructor
  · rw [List.takeWhile_cons_of_pos (by simpa using hb)]
    exact List.cons_ne_nil _ _
  · intro x hx
    exact nul x ((List.takeWhile_sublist _).subset hx)

/-- What is left of a path after its first component. -/
theorem left_of {b : Nat} (rest : List Nat) (hb : b ≠ slash) :
    (skipSlash ((b :: rest).dropWhile (· != slash))).Sublist rest := by
  rw [List.dropWhile_cons_of_pos (by simpa using hb)]
  exact (List.dropWhile_sublist _).trans (List.dropWhile_sublist _)

/-- A component stands between slashes. -/
theorem mem_components (n : Nat) (path : List Nat) (long : path.length ≤ n)
    (h : name ∈ components path) :
    ∃ b rest, b ≠ slash ∧ (b :: rest).Sublist path ∧ name = (b :: rest).takeWhile (· != slash) := by
  induction n generalizing path with
  | zero =>
    rw [List.eq_nil_of_length_eq_zero (Nat.le_zero.mp long)] at h
    exact absurd h List.not_mem_nil
  | succ n ih =>
    cases path with
    | nil => exact absurd h List.not_mem_nil
    | cons b rest =>
      have short : rest.length ≤ n := Nat.le_of_succ_le_succ long
      by_cases hb : b = slash
      · rw [hb, components_slash] at h
        obtain ⟨b', rest', other, sub, same⟩ := ih rest short h
        exact ⟨b', rest', other, sub.trans (List.sublist_cons_self b rest), same⟩
      · rw [components_cons rest hb] at h
        cases List.mem_cons.mp h with
        | inl first => exact ⟨b, rest, hb, List.Sublist.refl _, first⟩
        | inr later =>
          have left := left_of rest hb
          obtain ⟨b', rest', other, sub, same⟩ := ih _ (left.length_le.trans short) later
          exact ⟨b', rest', other, (sub.trans left).trans (List.sublist_cons_self b rest), same⟩

theorem components_proper (path : List Nat) (nul : ∀ b ∈ path, b ≠ 0) :
    ∀ name ∈ components path, Proper name := by
  intro name h
  obtain ⟨b, rest, other, sub, rfl⟩ := mem_components _ path (Nat.le_refl _) h
  exact first_proper rest other fun x hx => nul x (sub.subset hx)

/-- What a walk meets: the blocks that it reads, and each file with the directory it is found in. -/
def Visits (X : Nat → Prop) (P : Nat → Nat → Prop) (c : Nat → Nat) : List (List Nat) → Nat → Prop
  | [], _ => True
  | name :: names, f =>
    name.length < maxnamelen → IsDir c f →
      Scans X c f name (nblock c f) 0 ∧ ∀ g, childOf c f name = some g →
      P f g ∧ Visits X P c names g

theorem Visits.mono {X Y : Nat → Prop} {P R : Nat → Nat → Prop} {c : Nat → Nat}
    (weaker : ∀ b, X b → Y b)
    (weaker' : ∀ d g, P d g → R d g) {names : List (List Nat)} (h : Visits X P c names f) :
    Visits Y R c names f := by
  induction names generalizing f with
  | nil => trivial
  | cons name names ih =>
    intro fits isDir
    have first := h fits isDir
    refine ⟨first.1.mono weaker, fun g found => ?_⟩
    have next := first.2 g found
    exact ⟨weaker' f g next.1, ih next.2⟩

/-- The blocks that a walk reads. -/
abbrev Needs (X : Nat → Prop) (c : Nat → Nat) : List (List Nat) → Nat → Prop :=
  Visits X (fun _ _ => True) c

theorem Needs.of_all {X : Nat → Prop} (all : ∀ b, X b) (c : Nat → Nat)
    (names : List (List Nat)) (f : Nat) :
    Needs X c names f := by
  induction names generalizing f with
  | nil => trivial
  | cons name names ih =>
    exact fun _ _ => ⟨Scans.of_all all c f name _ 0, fun g _ => ⟨trivial, ih g⟩⟩

theorem scans_congr {X : Nat → Prop} {c c' : Nat → Nat} (h : RelinksIn B c c') (tree : TreeIn B c)
    (disk : c sNblocks ≤ 2 ^ 18)
    (hd : DirIn B c d) (fits : name.length < maxnamelen) (n i : Nat) (hn : i + n = nblock c d) :
    Scans X c' d name n i ↔ Scans X c d name n i := by
  induction n generalizing i with
  | zero => exact Iff.rfl
  | succ n ih =>
    have hi : i < nblock c d := by omega
    have indirect : c' (fIndirect d) = c (fIndirect d) := h.field tree disk hd.1 (by decide)
    have names : ((filesIn (pointer c d i)).find? fun f => hasName c' f name) =
        (filesIn (pointer c d i)).find? fun f => hasName c f name := by
      apply List.find?_congr
      intro f hf
      exact h.hasName_eq (mem_files.mpr ⟨i, hi, hf⟩) fits
    unfold Scans
    rw [indirect, h.pointer_eq tree disk hd hi, names, ih (i + 1) (by omega)]

section
variable {X : Nat → Prop} {P : Nat → Nat → Prop} {c c' : Nat → Nat} (h : RelinksIn B c c')
  (tree : TreeIn B c) (disk : c sNblocks ≤ 2 ^ 18) {names : List (List Nat)}
  (proper : ∀ n ∈ names, Proper n)

include h tree disk proper in
theorem visits_congr (there : Needs B c names f) (hf : NodeIn B c f) :
    Visits X P c' names f ↔ Visits X P c names f := by
  induction names generalizing f with
  | nil => exact Iff.rfl
  | cons name names ih =>
    unfold Visits
    apply forall_congr'
    intro fits
    rw [h.isDir tree disk hf]
    apply forall_congr'
    intro isDir
    have hd : DirIn B c f := ⟨hf, isDir⟩
    have here := there fits isDir
    rw [h.nblock_eq tree disk hf, scans_congr h tree disk hd fits _ 0 (Nat.zero_add _),
      h.childOf_eq tree disk hd fits]
    apply and_congr_right
    intro _
    apply forall_congr'
    intro g
    apply forall_congr'
    intro found
    apply and_congr_right
    intro _
    exact ih (fun n hn => proper n (List.mem_cons_of_mem name hn)) (here.2 g found).2
      (childOf_nodeIn hd (here.1.child found) (proper name List.mem_cons_self) found)

include h tree disk proper in
theorem walked_congr (there : Needs B c names f) (dir : Option Nat) (hf : NodeIn B c f) :
    walked c' names dir f = walked c names dir f := by
  induction names generalizing dir f with
  | nil => rfl
  | cons name names ih =>
    unfold walked
    by_cases long : maxnamelen ≤ name.length
    · rw [if_pos long, if_pos long]
    · rw [if_neg long, if_neg long]
      have fits : name.length < maxnamelen := Nat.lt_of_not_le long
      by_cases isDir : IsDir c f
      · have hd : DirIn B c f := ⟨hf, isDir⟩
        have here := there fits isDir
        rw [if_neg (not_not.mpr isDir), if_neg (not_not.mpr ((h.isDir tree disk hf).mpr isDir)),
          h.childOf_eq tree disk hd fits]
        cases found : childOf c f name with
        | none => rfl
        | some g =>
          exact ih (fun n hn => proper n (List.mem_cons_of_mem name hn)) (here.2 g found).2 (some f)
            (childOf_nodeIn hd (here.1.child found) (proper name List.mem_cons_self) found)
      · rw [if_pos isDir, if_pos fun isDir' => isDir ((h.isDir tree disk hf).mp isDir')]

end

/-- What a walk makes of the words: each file that it finds has its directory in `f_dir`. -/
def linked : List (List Nat) → (Nat → Nat) → Nat → Nat → Nat
  | [], c, _ => c
  | name :: names, c, f =>
    if name.length < maxnamelen ∧ IsDir c f then
      match childOf c f name with
      | some g => linked names (relink c g f) g
      | none => c
    else c

section
variable {c : Nat → Nat} {names : List (List Nat)} {g : Nat}

theorem linked_some (fits : name.length < maxnamelen) (isDir : IsDir c f)
    (found : childOf c f name = some g) :
    linked (name :: names) c f = linked names (relink c g f) g := by
  rw [linked, if_pos ⟨fits, isDir⟩, found]

theorem linked_stop (stop : name.length < maxnamelen → IsDir c f → childOf c f name = none) :
    linked (name :: names) c f = c := by
  unfold linked
  split_ifs with go
  · rw [stop go.1 go.2]
  · rfl

theorem linked_links (tree : TreeIn B c) (disk : c sNblocks ≤ 2 ^ 18)
    (proper : ∀ n ∈ names, Proper n) (there : Needs B c names f) (hf : NodeIn B c f) :
    LinksIn B c (linked names c f) := by
  induction names generalizing c f with
  | nil => exact LinksIn.refl c
  | cons name names ih =>
    have rest : ∀ n ∈ names, Proper n := fun n hn => proper n (List.mem_cons_of_mem name hn)
    unfold linked
    split_ifs with go
    · cases found : childOf c f name with
      | none => exact LinksIn.refl c
      | some g =>
        have hd : DirIn B c f := ⟨hf, go.2⟩
        have here := there go.1 go.2
        have listed := here.1.child found
        have node := childOf_nodeIn hd listed (proper name List.mem_cons_self) found
        have links := relink_links hd listed
        have relinks := links.relinks tree disk
        have there' := (visits_congr relinks tree disk rest (here.2 g found).2 node).mpr
          (here.2 g found).2
        exact links.trans tree disk (ih (relinks.tree_kept tree disk)
          (by rw [relinks.nblocks tree]; exact disk) rest there'
          ((relinks.node_iff tree disk).mpr node))
    · exact LinksIn.refl c

/-- In a tree where each file is in one directory, what was found keeps the link to it. -/
theorem linked_met (tree : Tree c) (disk : c sNblocks ≤ 2 ^ 18) (one : Single c)
    (proper : ∀ n ∈ names, Proper n) (hf : Node c f) :
    Visits Every (fun d g => Linked (linked names c f) g d) c names f := by
  induction names generalizing c f with
  | nil => trivial
  | cons name names ih =>
    intro fits isDir
    refine ⟨Scans.of_all Every.intro _ _ _ _ _, fun g found => ?_⟩
    have rest : ∀ n ∈ names, Proper n := fun n hn => proper n (List.mem_cons_of_mem name hn)
    have hd : Dir c f := ⟨hf, isDir⟩
    have listed : Listed Every c f g := .of_mem Every.intro (childOf_listed found)
    have node := childOf_node hd (proper name List.mem_cons_self) found
    have relinks := (relink_links hd listed).relinks tree disk
    have tree' := relinks.tree_kept tree disk
    have disk' : relink c g f sNblocks ≤ 2 ^ 18 := by
      rw [relinks.nblocks tree]
      exact disk
    have one' := one.relinks relinks tree disk
    have node' := (relinks.node_iff tree disk).mpr node
    have all := Needs.of_all Every.intro
    rw [linked_some fits isDir found]
    constructor
    · have hd' : Dir (relink c g f) f := (relinks.dir_iff tree disk).mpr hd
      have listed' := (relinks.listed_iff tree disk hd).mpr listed
      exact (linked_links tree' disk' rest (all _ _ _) node').linked one' hd' listed'.mem
        (relink_linked c g f)
    · exact (visits_congr relinks tree disk rest (all _ _ _) node).mp
        (ih tree' disk' one' rest node')

end

/-- One turn of `walk_path`: it ends with nothing stored, or goes on from the file that it found. -/
theorem walkFrom_turn {short : Prop} {n b : Nat} {rest : List Nat} {dir : Option Nat}
    {Q : Walk → Fs → Prop} (h : ReachedIn B s f)
    (first : (b :: rest).takeWhile (· != slash) = name)
    (left : skipSlash ((b :: rest).dropWhile (· != slash)) = path)
    (reads : name.length < maxnamelen → IsDir s.cell f →
      Scans B s.cell f name (nblock s.cell f) 0 ∧
        Scans (Has short s) s.cell f name (nblock s.cell f) 0)
    (ends : ∀ s₁, s₁.cell = s.cell →
      (name.length < maxnamelen → IsDir s.cell f → childOf s.cell f name = none ∧
        Scans (fun b => s₁.mapped b = true) s.cell f name (nblock s.cell f) 0) →
      Q (walked s.cell (name :: components path) dir f) s₁)
    (goes : name.length < maxnamelen → IsDir s.cell f → ∀ g s₁, childOf s.cell f name = some g →
      Serves short s s₁ → s₁.cell = relink s.cell g f → s₁.mapped (g / 1024) = true →
      Scans (fun b => s₁.mapped b = true) s.cell f name (nblock s.cell f) 0 →
      Ends short (walkFrom n path (some f) g) s₁ Q) :
    Ends short (walkFrom (n + 1) (b :: rest) dir f) s Q := by
  unfold walkFrom
  rw [if_neg (List.cons_ne_nil b rest), first, left]
  unfold walked at ends
  by_cases long : maxnamelen ≤ name.length
  · simp only [long, if_true] at ends ⊢
    exact Runs.pure (ends s rfl fun fits => absurd long (Nat.not_le_of_lt fits))
  · have fits : name.length < maxnamelen := Nat.lt_of_not_le long
    simp only [long, if_false] at ends ⊢
    apply Ends.load h.type_cached
    by_cases isDir : IsDir s.cell f
    · have same : s.cell (fType f) = ftypeDir := isDir
      obtain ⟨there, has⟩ := reads fits isDir
      rw [if_neg (not_not.mpr same)]
      apply Runs.bind
        (dirLookup_ends fits ⟨h.toInited, h.tree, ⟨h.node, isDir⟩, h.cached⟩ there has)
      intro r s₁ grows looked
      obtain ⟨looked, scanned⟩ := looked
      cases found : childOf s.cell f name with
      | some g =>
        rw [found] at looked
        obtain ⟨rfl, cell, cached⟩ := looked
        exact goes fits isDir g s₁ found grows cell cached scanned
      | none =>
        rw [found] at looked
        obtain ⟨rfl, cell⟩ := looked
        have ended := ends s₁ cell fun _ _ => ⟨found, scanned⟩
        rw [if_neg (not_not.mpr isDir), found] at ended
        cases path with
        | nil =>
          simp only [and_self, if_true]
          exact Runs.pure ended
        | cons x tail =>
          have more : components (x :: tail) ≠ [] := by
            rw [components_cons tail (skipSlash_head (by rw [left]; rfl))]
            exact List.cons_ne_nil _ _
          simp only [more, reduceCtorEq, and_false, if_false] at ended ⊢
          exact Runs.pure ended
    · have other : s.cell (fType f) ≠ ftypeDir := isDir
      have ended := ends s rfl fun _ isDir' => absurd isDir' isDir
      rw [if_pos isDir] at ended
      rw [if_pos other]
      exact Runs.pure ended

/-- The blocks that a walk has read are in the cache, and so are the files that it has met. -/
def Met (s : Fs) (c : Nat → Nat) (names : List (List Nat)) (f : Nat) : Prop :=
  Visits (fun b => s.mapped b = true) (fun _ g => s.mapped (g / 1024) = true) c names f

/-- The state that a walk leaves: only links have changed, the file it found is reached, and
what it met is in the cache. -/
structure WalkedIn (B : Nat → Prop) (s : Fs) (names : List (List Nat)) (f : Nat) (w : Walk)
    (s' : Fs) : Prop where
  cell : s'.cell = linked names s.cell f
  reached : ∀ g, w.file = some g → ReachedIn B s' g
  read : Met s' s.cell names f

theorem WalkedIn.links {names : List (List Nat)} {w : Walk} (walk : WalkedIn B s names f w s')
    (h : ReachedIn B s f) (proper : ∀ n ∈ names, Proper n) (there : Needs B s.cell names f) :
    LinksIn B s.cell s'.cell := by
  rw [walk.cell]
  exact linked_links h.tree h.nblocks proper there h.node

theorem walkFrom_ends {short : Prop} (n : Nat) (dir : Option Nat) (h : ReachedIn B s f)
    (long : path.length ≤ n) (start : ∀ b, path.head? = some b → b ≠ slash)
    (nul : ∀ b ∈ path, b ≠ 0) (there : Needs B s.cell (components path) f)
    (has : Needs (Has short s) s.cell (components path) f) :
    Ends short (walkFrom n path dir f) s fun w s' =>
      w = walked s.cell (components path) dir f ∧ WalkedIn B s (components path) f w s' := by
  have done (s : Fs) (f : Nat) (dir : Option Nat) (h : ReachedIn B s f) :
      WalkedIn B s [] f ⟨0, dir, some f, none⟩ s :=
    ⟨rfl, fun g hg => Option.some.inj hg ▸ h, trivial⟩
  induction n generalizing s f path dir with
  | zero =>
    rw [List.eq_nil_of_length_eq_zero (Nat.le_zero.mp long)]
    exact Runs.pure ⟨rfl, done s f dir h⟩
  | succ n ih =>
    cases path with
    | nil => exact Runs.pure ⟨rfl, done s f dir h⟩
    | cons b rest =>
      have hb := start b rfl
      have proper := first_proper rest hb nul
      have left := left_of rest hb
      have nul' : ∀ x ∈ skipSlash ((b :: rest).dropWhile (· != slash)), x ≠ 0 :=
        fun x hx => nul x (List.mem_cons_of_mem b (left.subset hx))
      have shorter : (skipSlash ((b :: rest).dropWhile (· != slash))).length ≤ n :=
        left.length_le.trans (Nat.le_of_succ_le_succ long)
      have start' : ∀ x, (skipSlash ((b :: rest).dropWhile (· != slash))).head? = some x →
          x ≠ slash := fun x => skipSlash_head
      rw [components_cons rest hb] at there has ⊢
      generalize first : (b :: rest).takeWhile (· != slash) = name at proper there has ⊢
      generalize tailEq : skipSlash ((b :: rest).dropWhile (· != slash)) = tail
        at nul' shorter start' there has ⊢
      apply walkFrom_turn h first tailEq
        fun fits isDir => ⟨(there fits isDir).1, (has fits isDir).1⟩
      · -- no file is found
        intro s₁ cell stop
        refine ⟨rfl, ?_, ?_, fun fits isDir => ⟨(stop fits isDir).2, fun g found => ?_⟩⟩
        · rw [linked_stop fun fits isDir => (stop fits isDir).1]
          exact cell
        · intro g file
          cases (walked_stop fun fits isDir => (stop fits isDir).1).symm.trans file
        · cases (stop fits isDir).1.symm.trans found
      · intro fits isDir g s₁ found serves cell cached scanned
        have thereRest := ((there fits isDir).2 g found).2
        have listed := (there fits isDir).1.child found
        obtain ⟨reached, links⟩ := h.child isDir serves.toGrows found listed proper cell cached
        have node := childOf_nodeIn ⟨h.node, isDir⟩ listed proper found
        have relinks := links.relinks h.tree h.nblocks
        have allProper := components_proper tail nul'
        have there' :=
          (visits_congr relinks h.tree h.nblocks allProper thereRest node).mpr thereRest
        have has' : Needs (Has short s₁) s₁.cell (components tail) g :=
          (visits_congr relinks h.tree h.nblocks allProper thereRest node).mpr
            (((has fits isDir).2 g found).2.mono (fun b hb => hb.grows serves.toGrows)
              fun _ _ h => h)
        apply Runs.mono (ih (some f) reached shorter start' nul' there' has')
        intro w s' serves' walk
        rw [walked_congr relinks h.tree h.nblocks allProper thereRest (some f) node] at walk
        refine ⟨?_, ?_, walk.2.reached, fun _ _ => ⟨?_, ?_⟩⟩
        · rw [walk.1, walked_some fits isDir found]
        · rw [walk.2.cell, cell, linked_some fits isDir found]
        · exact scanned.mono fun b hb => serves'.mapped b hb
        · intro g' found'
          rw [found] at found'
          rw [← Option.some.inj found']
          exact ⟨serves'.mapped _ cached,
            (visits_congr relinks h.tree h.nblocks allProper thereRest node).mp walk.2.read⟩

theorem walkPath_ends {short : Prop} (h : ReachedIn B s sRoot) (nul : ∀ b ∈ path, b ≠ 0)
    (there : Needs B s.cell (components path) sRoot)
    (has : Needs (Has short s) s.cell (components path) sRoot) :
    Ends short (walkPath path) s fun w s' =>
      w = walked s.cell (components path) none sRoot ∧
      WalkedIn B s (components path) sRoot w s' := by
  have sub : (skipSlash path).Sublist path := List.dropWhile_sublist _
  rw [← components_skipSlash path] at there has ⊢
  exact walkFrom_ends path.length none h sub.length_le (fun b => skipSlash_head)
    (fun b hb => nul b (sub.subset hb)) there has

/-- What `file_open` makes of a walk. -/
def opened (w : Walk) : Except Int Nat :=
  match w.file with
  | some f => if w.code < 0 then .error w.code else .ok f
  | none => .error w.code

theorem opened_walked {c : Nat → Nat} {names : List (List Nat)} :
    opened (walked c names none sRoot) = .ok f ↔ Short names ∧ resolve c names sRoot = some f := by
  constructor
  · intro ok
    cases walked_cases c names none sRoot with
    | inl all =>
      obtain ⟨short, g, found⟩ := all
      rw [walked_found short found] at ok
      cases ok
      exact ⟨short, found⟩
    | inr rest =>
      cases rest with
      | inl but =>
        obtain ⟨short, d, name, last, hd, isDir, missing⟩ := but
        rw [walked_missing short last hd isDir missing] at ok
        cases ok
      | inr nothing =>
        obtain ⟨r, -, same⟩ := nothing
        rw [same] at ok
        cases ok
  · rintro ⟨short, found⟩
    rw [walked_found short found]
    rfl

theorem opened_negative {c : Nat → Nat} {names : List (List Nat)} {e : Int}
    (error : opened (walked c names none sRoot) = .error e) : e < 0 := by
  rcases walked_cases c names none sRoot with ⟨short, g, found⟩ |
    ⟨short, d, name, last, hd, isDir, missing⟩ | ⟨r, code, same⟩
  · rw [walked_found short found] at error
    cases error
  · rw [walked_missing short last hd isDir missing] at error
    cases error
    exact show -eNotFound < 0 by decide
  · rw [same] at error
    cases error
    exact show r < 0 by rcases code with rfl | rfl <;> decide

theorem fileOpen_ends {short : Prop} (h : ReachedIn B s sRoot) (nul : ∀ b ∈ path, b ≠ 0)
    (there : Needs B s.cell (components path) sRoot)
    (has : Needs (Has short s) s.cell (components path) sRoot) :
    Ends short (fileOpen path) s fun r s' =>
      r = opened (walked s.cell (components path) none sRoot) ∧
        WalkedIn B s (components path) sRoot
        (walked s.cell (components path) none sRoot) s' := by
  unfold fileOpen
  apply Runs.bind (walkPath_ends h nul there has)
  intro w s' _ walk
  obtain ⟨rfl, walk⟩ := walk
  unfold opened
  generalize walked s.cell (components path) none sRoot = w at walk ⊢
  cases file : w.file with
  | none => exact Runs.pure ⟨rfl, walk⟩
  | some f =>
    by_cases negative : w.code < 0
    · simp only [negative, if_true]
      exact Runs.pure ⟨rfl, walk⟩
    · simp only [negative, if_false]
      exact Runs.pure ⟨rfl, walk⟩

/-- The root is reached from the start. -/
theorem reached_root (h : Inited s) (tree : TreeIn B s.cell) : ReachedIn B s sRoot :=
  ⟨h, tree, .root, h.super⟩

end

/-- `walk_path` is path resolution: from every state with a tree without holes and for every
path it gives what the components of the path lead to, never stores outside its buffer, and
changes nothing but `f_dir`, unless the kernel stops for want of a page. -/
theorem walkPath_resolves (s : Fs) (path : List Nat) (h : Inited s) (tree : Tree s.cell)
    (nul : ∀ b ∈ path, b ≠ 0) :
    Ends True (walkPathInto path) s fun w s' =>
      Resolves s.cell (components path) w ∧ Relinks s.cell s'.cell ∧ Tree s'.cell := by
  rw [walkPathInto_eq]
  have there : Needs Every s.cell (components path) sRoot := Needs.of_all Every.intro _ _ _
  have reached := reached_root h tree
  apply Runs.mono (walkPath_ends reached nul there (Needs.of_all (Has.any s) _ _ _))
  intro w s' _ walk
  have links := walk.2.links reached (components_proper path nul) there
  have relinks := links.relinks tree h.nblocks
  refine ⟨?_, relinks, relinks.tree_kept tree h.nblocks⟩
  rw [walk.1]
  exact walked_resolves s.cell (components path)

/-- A disk of eight blocks, all in use, with an empty directory `a` in the root. -/
def twoDirs : Fs where
  word := fun w =>
    if w = sNblocks then 8 else if w = sRoot then 47 else if w = fSize sRoot then 4096
    else if w = fType sRoot then 1
    else if w = fDirect sRoot 0 then 3 else if w = 3072 then 97 else if w = fType 3072 then 1 else 0
  mapped := fun _ => true
  pteD := fun _ => false
  disk := fun _ => 0
  memory := fun _ => true
  asked := 0

theorem twoDirs_inited : Inited twoDirs := ⟨by decide, rfl, fun _ _ => rfl⟩

theorem twoDirs_node {f : Nat} (h : Node twoDirs.cell f) : f = sRoot ∨ f = 3072 := by
  induction h with
  | root => exact .inl rfl
  | file dir type listed used ih =>
    cases ih with
    | inl root =>
      rw [root] at listed
      obtain ⟨i, hi, -, hf⟩ := listed
      have first : i = 0 := Nat.lt_one_iff.mp hi
      rw [first] at hf
      obtain ⟨j, hj, rfl⟩ := (mem_filesIn (by decide)).mp hf
      have only : ∀ j < file2blk, cellByte twoDirs.cell (4 * (1024 * 3 + 64 * j)) ≠ 0 →
          j = 0 := by decide
      rw [only j hj used]
      exact .inr rfl
    | inr a =>
      rw [a] at listed
      obtain ⟨i, hi, -⟩ := listed
      exact absurd hi (Nat.not_lt_zero i)

theorem twoDirs_block {d i : Nat} (hd : Dir twoDirs.cell d) (hi : i < nblock twoDirs.cell d) :
    d = sRoot ∧ i = 0 := by
  cases twoDirs_node hd.1 with
  | inl root =>
    rw [root] at hi ⊢
    exact ⟨rfl, Nat.lt_one_iff.mp hi⟩
  | inr a =>
    rw [a] at hi
    exact absurd hi (Nat.not_lt_zero i)

theorem twoDirs_tree : Tree twoDirs.cell := by
  have few (d : Nat) (hd : Dir twoDirs.cell d) : nblock twoDirs.cell d ≤ 1 := by
    cases twoDirs_node hd.1 with
    | inl root =>
      rw [root]
      decide
    | inr a =>
      rw [a]
      decide
  constructor
  · intro d hd i hi _
    obtain ⟨rfl, rfl⟩ := twoDirs_block hd hi
    decide
  · intro d hd many
    exact absurd (many.trans_le (few d hd)) (by decide)
  · rintro b ⟨d, i, hd, hi, rfl, -⟩
    obtain ⟨rfl, rfl⟩ := twoDirs_block hd hi
    refine ⟨by decide, fun bitmap => absurd bitmap.2 (by decide), fun d' hd' many => ?_⟩
    exact absurd (many.trans_le (few d' hd')) (by decide)

theorem walkPath_resolves_twoDirs :
    Ends True (walkPathInto [47, 97]) twoDirs fun w s' =>
      Resolves twoDirs.cell (components [47, 97]) w ∧ Relinks twoDirs.cell s'.cell ∧ Tree s'.cell :=
  walkPath_resolves twoDirs [47, 97] twoDirs_inited twoDirs_tree (by decide)

end FsM

end RiscvMos
