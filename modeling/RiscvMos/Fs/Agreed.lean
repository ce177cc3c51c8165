import RiscvMos.Fs.Finished
import RiscvMos.Fs.FreeSet
import RiscvMos.Fs.Mounted

/-!
`tools/fsformat.c` and the file server agree on the format of the disk: the image of a tree
that fits on the disk is made, and the server finds the tree on it and nothing else.
-/

namespace RiscvMos

open Fs

namespace Format

/-- A directory of the host has a file or directory under a name. -/
def Entries.Has (name : List Nat) (x : Host) : Entries → Prop
  | .nil => False
  | .file n content rest => name = n ∧ x = .file content ∨ rest.Has name x
  | .dir n entries rest => name = n ∧ x = .dir entries ∨ rest.Has name x

def Entries.names : Entries → List (List Nat)
  | .nil => []
  | .file n _ rest | .dir n _ rest => n :: rest.names

/-- No directory has a name twice. -/
def Entries.Distinct : Entries → Prop
  | .nil => True
  | .file n _ rest => n ∉ rest.names ∧ rest.Distinct
  | .dir n entries rest => n ∉ rest.names ∧ entries.Distinct ∧ rest.Distinct

/-- On the host the names lead from `x` to `y`. -/
def Host.Leads : List (List Nat) → Host → Host → Prop
  | [], x, y => x = y
  | name :: names, .dir entries, y => ∃ z, entries.Has name z ∧ Host.Leads names z y
  | _ :: _, .file _, _ => False

/-- Names that fit, and distinct in each directory. -/
def Host.Regular : Host → Prop
  | .file _ => True
  | .dir entries => entries.Named ∧ entries.Distinct

section
variable {entries : Entries} {name : List Nat} {names : List (List Nat)} {x y : Host}

theorem Entries.Has.mem (h : entries.Has name x) : name ∈ entries.names := by
  induction entries with
  | nil => exact h.elim
  | file n content rest ih | dir n entries rest _ ih =>
    rcases h with ⟨rfl, -⟩ | later
    · exact List.mem_cons_self
    · exact List.mem_cons_of_mem n (ih later)

theorem Entries.Named.take (named : entries.Named) (h : name ∈ entries.names) :
    name.length < maxnamelen := by
  induction entries with
  | nil => cases h
  | file n content rest ih =>
    rcases List.mem_cons.mp h with rfl | later
    · exact named.1
    · exact ih named.2 later
  | dir n entries rest _ ih =>
    rcases List.mem_cons.mp h with rfl | later
    · exact named.1
    · exact ih named.2.2 later

theorem Entries.Has.regular (h : entries.Has name x) (named : entries.Named)
    (distinct : entries.Distinct) : x.Regular := by
  induction entries with
  | nil => exact h.elim
  | file n content rest ih =>
    rcases h with ⟨-, rfl⟩ | later
    · trivial
    · exact ih later named.2 distinct.2
  | dir n entries rest _ ih =>
    rcases h with ⟨-, rfl⟩ | later
    · exact ⟨named.2.1, distinct.2.1⟩
    · exact ih later named.2.2 distinct.2.2

/-- The first entry with a name is the only one. -/
theorem Entries.child_iff (named : entries.Named) (distinct : entries.Distinct) :
    entries.child name = some x ↔ entries.Has name x := by
  induction entries with
  | nil => exact iff_of_false (Option.some_ne_none x).symm id
  | file n content rest ih =>
    unfold child Has
    by_cases here : name = n
    · subst here
      rw [if_pos rfl]
      refine ⟨fun eq => .inl ⟨rfl, (Option.some.inj eq).symm⟩, ?_⟩
      rintro (⟨-, rfl⟩ | later)
      · rfl
      · exact absurd later.mem distinct.1
    · rw [if_neg here, ih named.2 distinct.2]
      exact ⟨.inr, fun h => h.resolve_left fun own => here own.1⟩
  | dir n entries rest _ ih =>
    have whole : n.take 127 = n := List.take_of_length_le (Nat.le_of_lt_succ named.1)
    unfold child Has
    rw [whole]
    by_cases here : name = n
    · subst here
      rw [if_pos rfl]
      refine ⟨fun eq => .inl ⟨rfl, (Option.some.inj eq).symm⟩, ?_⟩
      rintro (⟨-, rfl⟩ | later)
      · rfl
      · exact absurd later.mem distinct.1
    · rw [if_neg here, ih named.2.2 distinct.2.2]
      exact ⟨.inr, fun h => h.resolve_left fun own => here own.1⟩

theorem Host.find_iff (regular : x.Regular) : x.find names = some y ↔ x.Leads names y := by
  induction names generalizing x with
  | nil =>
    unfold find Leads
    exact Option.some_inj
  | cons name names ih =>
    cases x with
    | file content =>
      unfold find Leads
      exact iff_of_false (Option.some_ne_none y).symm id
    | dir entries =>
      obtain ⟨named, distinct⟩ := regular
      unfold find Leads
      rw [Option.bind_eq_some_iff]
      refine exists_congr fun z => ?_
      rw [Entries.child_iff named distinct]
      exact and_congr_right fun has => ih (has.regular named distinct)

/-- Names that lead somewhere fit. -/
theorem Host.Leads.short (h : x.Leads names y) (regular : x.Regular) : Short names := by
  induction names generalizing x with
  | nil => exact fun _ no => absurd no List.not_mem_nil
  | cons name names ih =>
    cases x with
    | file content => exact h.elim
    | dir entries =>
      obtain ⟨named, distinct⟩ := regular
      obtain ⟨z, has, leads⟩ := h
      intro n hn
      rcases List.mem_cons.mp hn with rfl | later
      · exact named.take has.mem
      · exact ih leads (has.regular named distinct) n later

/-- A path is located where its names lead. -/
theorem Host.located_iff {path : List Nat} (regular : x.Regular) :
    x.located path = some y ↔ x.Leads (components path) y := by
  unfold located
  split
  · exact find_iff regular
  · rename_i long
    exact iff_of_false (Option.some_ne_none y).symm fun leads =>
      long (short_iff.mpr (leads.short regular))

/-- `block_is_free` on the image: the blocks behind the last one that was taken. -/
theorem Formatted.blockIsFree {d : Image} {s : Fs} {hi : Nat} (h : Formatted d entries hi)
    (cell : s.cell = d.word) (inited : Inited s) (b : Nat) :
    ∃ free, FsM.blockIsFree b s = .ok (free, s) ∧ (free = true ↔ hi ≤ b ∧ b < numBlock) := by
  obtain ⟨free, run, member⟩ := blockIsFree_freeSet inited b
  refine ⟨free, run, member.trans ?_⟩
  show b < s.cell sNblocks ∧ isFree s.cell b = true ↔ _
  rw [cell, h.nblocks, and_comm (a := hi ≤ b)]
  exact and_congr_right fun valid => h.free b valid

end

/-- For every tree whose names fit and are distinct in each directory, and whose blocks fit on the
disk, the image is made. A server that starts on it finds each file and directory of the tree under
its path, with the contents of a file block by block; every other path is not found. Exactly the
blocks from `nextbno` on are free. -/
theorem format_agrees {entries : Entries} (hosted : entries.Hosted) (named : entries.Named)
    (distinct : entries.Distinct) (fits : entries.total ≤ numBlock) :
    ∃ image, format entries = some image ∧ image.nextbno = entries.total ∧
      ∀ s : Fs, (∀ b, s.mapped b = false) → s.disk = image.word → s.Supplied →
      ∃ s₁, FsM.fsInit s = .ok ((), s₁) ∧
        (∀ b, ∃ free, FsM.blockIsFree b s₁ = .ok (free, s₁) ∧
          (free = true ↔ image.nextbno ≤ b ∧ b < numBlock)) ∧
        ∀ path, (∀ b ∈ path, b ≠ 0) → ∃ r s', FsM.fileOpen path s₁ = .ok (r, s') ∧
          (∀ x, (Host.dir entries).Leads (components path) x → ∃ g, r = .ok g ∧ Reads s' g x) ∧
          ((∀ x, ¬ (Host.dir entries).Leads (components path) x) → ∃ e, r = .error e ∧ e < 0) := by
  obtain ⟨image, made, total⟩ := format_finishes hosted named fits
  refine ⟨image, made, total, fun s fresh disk supplied => ?_⟩
  obtain ⟨s₁, boots, inited, supplied₁, formatted⟩ :=
    fsInit_formatted hosted made fresh disk supplied
  refine ⟨s₁, boots, formatted.blockIsFree rfl inited, fun path nul => ?_⟩
  obtain ⟨r, s', opens, result⟩ := fileOpen_reads formatted hosted inited rfl supplied₁ nul
  have located {x : Host} : (Host.dir entries).located path = some x ↔
      (Host.dir entries).Leads (components path) x := Host.located_iff ⟨named, distinct⟩
  refine ⟨r, s', opens, fun x leads => ?_, fun nothing => ?_⟩
  · rw [located.mpr leads] at result
    exact result
  · have none_ : (Host.dir entries).located path = none := by
      rw [Option.eq_none_iff_forall_ne_some]
      exact fun x there => nothing x (located.mp there)
    rw [none_] at result
    exact result

theorem format_agrees_threeBytes : ∃ image s₁ g s' e s'', format threeBytes = some image ∧
    FsM.fsInit (FsM.booted image.word) = .ok ((), s₁) ∧
    FsM.fileOpen [47, 100, 47, 97] s₁ = .ok (.ok g, s') ∧ Reads s' g (.file [1, 2, 3]) ∧
    FsM.fileOpen [47, 100, 47, 98] s₁ = .ok (.error e, s'') ∧ e < 0 := by
  obtain ⟨image, made, -, server⟩ := format_agrees threeBytes_hosted
    ⟨by decide, ⟨by decide, trivial⟩, trivial⟩
    ⟨by decide, ⟨by decide, trivial⟩, trivial⟩ (by decide)
  obtain ⟨s₁, boots, -, paths⟩ := server (FsM.booted image.word) (fun _ => rfl) rfl
    fun _ _ => .inl rfl
  have names : components [47, 100, 47, 97] = [[100], [97]] := by decide
  have names' : components [47, 100, 47, 98] = [[100], [98]] := by decide
  obtain ⟨_, s', opens, found, -⟩ := paths [47, 100, 47, 97] (by decide)
  obtain ⟨_, s'', fails, -, missing⟩ := paths [47, 100, 47, 98] (by decide)
  obtain ⟨g, rfl, reads⟩ := found (.file [1, 2, 3]) (by
    rw [names]
    exact ⟨_, .inl ⟨rfl, rfl⟩, _, .inl ⟨rfl, rfl⟩, rfl⟩)
  obtain ⟨e, rfl, negative⟩ := missing (by
    rw [names']
    rintro x ⟨z, ⟨-, rfl⟩ | ⟨⟨⟩⟩, y, ⟨other, -⟩ | ⟨⟨⟩⟩, -⟩
    exact absurd other (by decide))
  exact ⟨image, s₁, g, s', e, s'', made, boots, opens, reads, fails, negative⟩

end Format

end RiscvMos
