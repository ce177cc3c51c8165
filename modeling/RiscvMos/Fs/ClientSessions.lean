import RiscvMos.Fs.ClientWrites

/-!
What clients store on pages from `FSREQ_MAP` while the server takes other requests:
it is on disk after `FSREQ_CLOSE` or `FSREQ_SYNC` only if it was before, or if the
server's own entry for the page was dirty already.
-/

namespace RiscvMos

open Fs

namespace Fs

variable {s s' : Fs} {c c' : Nat → Nat} {f b b' : Nat}

theorem Aside.stored (h : Aside c f b) (other : Aside c f b') (place : f % 1024 ≤ 960)
    (same : ∀ w, w / 1024 ≠ b' → c' w = c w) : Aside c' f b := by
  have indirect : c' (fIndirect f) = c (fIndirect f) := by
    apply same
    rw [fIndirect_block place]
    exact other.1
  refine ⟨h.1, fun i has => ?_⟩
  rw [hasSlot_congr indirect] at has
  rw [slot_congr indirect]
  exact h.2 i has

/-- Bytes in a data block change no other data block. -/
theorem DataBlock.stored (h : DataBlock s f b) (other : DataBlock s f b')
    (mapped : s'.mapped = s.mapped) (same : ∀ w, w / 1024 ≠ b' → s'.cell w = s.cell w) :
    DataBlock s' f b := by
  obtain ⟨inited, present, dirs, nblocks, -⟩ := other.store mapped same
  refine ⟨inited, nblocks ▸ h.valid, ⟨h.outside.1, ?_⟩, ⟨present, ?_⟩,
    fun d at_ => ⟨dirs d at_, ?_⟩⟩
  · unfold BitmapBlock nbitmap
    rw [nblocks]
    exact h.outside.2
  · exact h.file.2.stored other.file.2 present.place same
  · have before := (other.file.2.dirOf present.place same).mp at_
    exact (h.dir d before).2.stored (other.dir d before).2 (h.dir d before).1.place same

theorem DataBlock.keeps (h : DataBlock s f b) (keeps : Keeps s s') : DataBlock s' f b := by
  refine ⟨h.toInited.keeps keeps, ?_, ?_, ⟨h.file.1.keeps keeps, ?_⟩, fun d at_ => ?_⟩
  · rw [keeps.cell]
    exact h.valid
  · rw [keeps.cell]
    exact h.outside
  · rw [keeps.cell]
    exact h.file.2
  · rw [keeps.cell] at at_ ⊢
    exact ⟨(h.dir d at_).1.keeps keeps, (h.dir d at_).2⟩

end Fs

namespace ServeM

/-- `b` is a data block for every open file. -/
def DataPage (s : Server) (b : Nat) : Prop :=
  ∀ i f, (s.opentab i).file = some f → DataBlock s.fs f b

/-- Clients store to data blocks, and the server takes requests of `FSREQ_CLOSE`, `FSREQ_DIRTY`
and `FSREQ_SYNC`, whatever it answers. -/
inductive Session : Server → Server → Prop
  | start {s : Server} : Session s s
  | stores {s s' s'' : Server} {b : Nat} (session : Session s s') (data : DataPage s' b)
    (stores : ClientStores b s' s'') : Session s s''
  | request {s s' s'' : Server} {stack req whom perm : Nat} {rq : Nat → Nat}
    (session : Session s s') (asked : req = 4 ∨ req = 5 ∨ req = 7)
    (run : serve stack req whom perm rq s' = (.ok (), s'')) : Session s s''

/-- What a session keeps of the block `b`. -/
structure Kept (s s' : Server) (b : Nat) : Prop where
  table : s'.opentab = s.opentab
  data : DataPage s' b
  mapped : s'.fs.mapped b = true
  pteD : s'.fs.pteD b = s.fs.pteD b
  closed : ∀ i f, (s.opentab i).file = some f → ∀ x, Closed s'.fs.cell f x ↔ Closed s.fs.cell f x

section
variable {s s' s'' : Server} {rq : Nat → Nat} {stack req whom perm f b : Nat}

/-- A request writes blocks back, and changes neither their bytes nor what is dirty. -/
theorem request_writes {i : Nat} (data : DataPage s b) (open_ : (s.opentab i).file = some f)
    (asked : req = 4 ∨ req = 5 ∨ req = 7)
    (run : serve stack req whom perm rq s = (.ok (), s')) :
    s'.opentab = s.opentab ∧ ∃ W, WritesBack W s.fs s'.fs := by
  have nothing := WritesBack.nothing s.fs
  unfold serve at run
  by_cases argument : perm.testBit 0 = true
  · rw [if_pos argument] at run
    rcases asked with rfl | rfl | rfl
    · rcases withFile_taken (show withFile whom rq _ s = (.ok (), s') from run) with
        rfl | ⟨f', file, run⟩
      · exact ⟨rfl, _, nothing⟩
      · obtain ⟨⟨⟩, fs, out, run⟩ := onFs_answered run
        obtain rfl := ipcSend_sent run
        have here := data _ f' file
        exact ⟨rfl, _, ((FsM.fileClose_gives here.toInited here.file.1
          fun d at_ => (here.dir d at_).1).result out).2⟩
    · rcases withFile_taken (show withFile whom rq _ s = (.ok (), s') from run) with
        rfl | ⟨f', file, run⟩
      · exact ⟨rfl, _, nothing⟩
      · obtain ⟨r, fs, out, run⟩ := onFs_answered run
        have here := data _ f' file
        have writes := ((FsM.fileDirty_gives here.toInited here.file.1 _).result out).2
        unfold reply at run
        split at run <;> obtain rfl := ipcSend_sent run <;> exact ⟨rfl, _, writes⟩
    · obtain ⟨⟨⟩, fs, out, run⟩ := onFs_answered (show (onFs _ >>= _) s = (.ok (), s') from run)
      obtain rfl := ipcSend_sent run
      exact ⟨rfl, _, ((FsM.fsSync_gives (data i f open_).toInited).result out).2⟩
  · rw [if_neg argument] at run
    cases run
    exact ⟨rfl, _, nothing⟩

theorem ClientStores.kept (data : DataPage s b) {b' : Nat} (other : DataPage s b')
    (mapped : s.fs.mapped b = true) (stores : ClientStores b' s s') : Kept s s' b := by
  obtain ⟨word, others, rfl⟩ := stores
  have cells : ∀ w, w / 1024 ≠ b' → (s.fs.overwritten word).cell w = s.fs.cell w := by
    intro w hw
    simp only [Fs.cell, overwritten, others w hw]
  refine ⟨rfl, fun i f open_ => (data i f open_).stored (other i f open_) rfl cells, mapped, rfl,
    fun i f open_ => ?_⟩
  exact (@DataBlock.store _ (s.fs.overwritten word) _ _ (other i f open_) rfl cells).2.2.2.2

theorem Kept.start (data : DataPage s b) (mapped : s.fs.mapped b = true) : Kept s s b :=
  ⟨rfl, data, mapped, rfl, fun _ _ _ _ => Iff.rfl⟩

theorem Kept.trans (h : Kept s s' b) (h' : Kept s' s'' b) : Kept s s'' b := by
  refine ⟨h'.table.trans h.table, h'.data, h'.mapped, h'.pteD.trans h.pteD,
    fun i f open_ x => ?_⟩
  rw [h'.closed i f (by rw [h.table]; exact open_), h.closed i f open_]

theorem Kept.of_writes {W : Nat → Prop} (data : DataPage s b) (mapped : s.fs.mapped b = true)
    (table : s'.opentab = s.opentab) (writes : WritesBack W s.fs s'.fs) : Kept s s' b := by
  have keeps := writes.toKeeps
  refine ⟨table, fun i f open_ => ?_, keeps.mapped b mapped, writes.pteD mapped,
    fun i f open_ x => by rw [keeps.cell]⟩
  rw [table] at open_
  exact (data i f open_).keeps keeps

/-- A session leaves what the server follows, and its entry for the page. -/
theorem Session.kept {i : Nat} (session : Session s s') (data : DataPage s b)
    (mapped : s.fs.mapped b = true) (open_ : (s.opentab i).file = some f) : Kept s s' b := by
  induction session with
  | start => exact .start data mapped
  | stores session other stores ih =>
    have before := ih
    exact before.trans (stores.kept before.data other before.mapped)
  | request session asked run ih =>
    have before := ih
    have still := open_
    rw [← before.table] at still
    obtain ⟨table, W, writes⟩ := request_writes before.data still asked run
    exact before.trans (Kept.of_writes before.data before.mapped table writes)

end

end ServeM

end RiscvMos
