import RiscvMos.Fs.WriteBack
import RiscvMos.Lib.Except

/-!
The writes of a client: it has the page of a block from `FSREQ_MAP`, stores to it, and
asks for `FSREQ_DIRTY` and then `FSREQ_CLOSE` or `FSREQ_SYNC`.
-/

namespace RiscvMos

namespace Fs

/-- Other bytes in the cache; the server's own entries stay as they are. -/
def overwritten (s : Fs) (word : Nat → Nat) : Fs := { s with word := word }

/-- The block holds neither the file nor its pointers. -/
def Aside (c : Nat → Nat) (f b : Nat) : Prop :=
  f / 1024 ≠ b ∧ ∀ i, HasSlot c f i → slot c f i / 1024 ≠ b

/-- The block `b` is in use for data only: not for the bitmap, and not for the files and
pointers that `file_close` follows from `f`. -/
structure DataBlock (s : Fs) (f b : Nat) : Prop extends Inited s where
  valid : b < s.cell sNblocks
  outside : b ≠ 1 ∧ ¬ BitmapBlock s.cell b
  file : Present s f ∧ Aside s.cell f b
  dir : ∀ d, DirOf s.cell f d → Present s d ∧ Aside s.cell d b

section
variable {s s' : Fs} {f d b : Nat} {c c' : Nat → Nat}

theorem Aside.pointer (h : Aside c f b) (place : f % 1024 ≤ 960)
    (same : ∀ w, w / 1024 ≠ b → c' w = c w) (i : Nat) :
    pointer c' f i = pointer c f i := by
  have indirect : c' (fIndirect f) = c (fIndirect f) := by
    apply same
    rw [fIndirect_block place]
    exact h.1
  exact pointer_congr indirect fun has => same _ (h.2 i has)

theorem Aside.flushed (h : Aside c f b) (place : f % 1024 ≤ 960)
    (same : ∀ w, w / 1024 ≠ b → c' w = c w) (x : Nat) : Flushed c' f x ↔ Flushed c f x := by
  have size : c' (fSize f) = c (fSize f) := by
    apply same
    rw [fSize_block place]
    exact h.1
  unfold Flushed
  rw [size]
  simp only [h.pointer place same]

theorem Aside.dirOf (h : Aside c f b) (place : f % 1024 ≤ 960)
    (same : ∀ w, w / 1024 ≠ b → c' w = c w) : DirOf c' f d ↔ DirOf c f d := by
  have low : c' (fDirLow f) = c (fDirLow f) := by
    apply same
    have := h.1
    unfold fDirLow
    omega
  have high : c' (fDirHigh f) = c (fDirHigh f) := by
    apply same
    have := h.1
    unfold fDirHigh
    omega
  unfold DirOf
  rw [low, high]

theorem Aside.closed (h : Aside c f b) (place : f % 1024 ≤ 960)
    (dir : ∀ d, DirOf c f d → d % 1024 ≤ 960 ∧ Aside c d b)
    (same : ∀ w, w / 1024 ≠ b → c' w = c w) (x : Nat) : Closed c' f x ↔ Closed c f x := by
  unfold Closed
  rw [h.flushed place same]
  apply or_congr_right
  constructor
  · rintro ⟨d, at_, flushed⟩
    have at_ := (h.dirOf place same).mp at_
    exact ⟨d, at_, ((dir d at_).2.flushed (dir d at_).1 same x).mp flushed⟩
  · rintro ⟨d, at_, flushed⟩
    refine ⟨d, (h.dirOf place same).mpr at_, ?_⟩
    exact ((dir d at_).2.flushed (dir d at_).1 same x).mpr flushed

theorem Present.store (h : Present s f) (aside : Aside s.cell f b)
    (mapped : s'.mapped = s.mapped) (same : ∀ w, w / 1024 ≠ b → s'.cell w = s.cell w)
    (nblocks : s'.cell sNblocks = s.cell sNblocks) : Present s' f := by
  refine ⟨by rw [mapped]; exact h.cached, h.place, fun i => ?_⟩
  rw [aside.pointer h.place same, nblocks]
  exact h.valid i

theorem DataBlock.small (h : DataBlock s f b) : b < 2 ^ 20 := by
  have valid := h.valid
  have few := h.nblocks
  omega

/-- The client's bytes change nothing that the server follows. -/
theorem DataBlock.store (h : DataBlock s f b) (mapped : s'.mapped = s.mapped)
    (same : ∀ w, w / 1024 ≠ b → s'.cell w = s.cell w) :
    Inited s' ∧ Present s' f ∧ (∀ d, DirOf s'.cell f d → Present s' d) ∧
      s'.cell sNblocks = s.cell sNblocks ∧ ∀ x, Closed s'.cell f x ↔ Closed s.cell f x := by
  have nblocks : s'.cell sNblocks = s.cell sNblocks := same _ h.outside.1.symm
  refine ⟨⟨by rw [nblocks]; exact h.nblocks, by rw [mapped]; exact h.super, ?_⟩,
    h.file.1.store h.file.2 mapped same nblocks, fun d at_ => ?_, nblocks, fun x => ?_⟩
  · intro x hx
    rw [mapped]
    apply h.bitmap
    unfold BitmapBlock nbitmap at hx ⊢
    rwa [nblocks] at hx
  · have parent := h.dir d ((h.file.2.dirOf h.file.1.place same).mp at_)
    exact parent.1.store parent.2 mapped same nblocks
  · have dirs d (at_ : DirOf s.cell f d) := And.intro (h.dir d at_).1.place (h.dir d at_).2
    exact h.file.2.closed h.file.1.place dirs same x

end

end Fs

namespace ServeM

open Fs

/-- The server takes a request and answers 0. -/
def Answered (req : Nat) (rq : Nat → Nat) (page : Option SentPage) (s s' : Server) : Prop :=
  ∃ stack whom perm, serve stack req whom perm rq s = (.ok (), s') ∧
    s'.sent = s.sent ++ [⟨whom, 0, page⟩]

/-- A client stores to the page of a block. The hardware sets `PTE_D` in the client's
entry for the page only. -/
def ClientStores (b : Nat) (s s' : Server) : Prop :=
  ∃ word, (∀ w, w / 1024 ≠ b → word w = s.fs.word w) ∧ s' = { s with fs := s.fs.overwritten word }

section
variable {s s' : Server} {rq : Nat → Nat} {req whom f b : Nat} {page : Option SentPage}

/-- The file of an entry. -/
def fileAt (s : Server) (rq : Nat → Nat) : Option Nat :=
  (s.opentab (reqFileid rq % maxopen)).file

theorem ipcSend_sent {val : Int} (h : ipcSend whom val page s = (.ok (), s')) :
    s' = { s with sent := s.sent ++ [⟨whom, val, page⟩] } := by
  cases h
  rfl

theorem send_inj {whom' : Nat} {val val' : Int} {page' : Option SentPage} {l : List Send}
    (h : l ++ [⟨whom, val, page⟩] = l ++ [⟨whom', val', page'⟩]) :
    val = val' ∧ page = page' := by
  cases List.append_cancel_left h
  exact ⟨rfl, rfl⟩

/-- A request for an open file is refused, or comes to the file. -/
theorem withFile_taken {k : Nat → ServeM Unit} (run : withFile whom rq k s = (.ok (), s')) :
    s' = { s with sent := s.sent ++ [⟨whom, -eInval, none⟩] } ∨
      ∃ f, fileAt s rq = some f ∧ k f s = (.ok (), s') := by
  obtain ⟨r, s₁, looks, run⟩ := ExceptT.bind_ok_iff.mp run
  cases looks
  unfold Server.openLookup at run
  dsimp only at run
  by_cases stale : s.pageref (reqFileid rq % maxopen) = 1 ∨
      (s.opentab (reqFileid rq % maxopen)).fileid ≠ reqFileid rq
  · rw [if_pos stale] at run
    exact .inl (ipcSend_sent run)
  · rw [if_neg stale] at run
    obtain ⟨o, s₁, reads, run⟩ := ExceptT.bind_ok_iff.mp run
    cases reads
    obtain ⟨f, s₁, follows, run⟩ := ExceptT.bind_ok_iff.mp run
    unfold follow at follows
    cases file : (s.opentab (reqFileid rq % maxopen)).file with
    | none =>
      rw [file] at follows
      cases follows
    | some f' =>
      rw [file] at follows
      cases follows
      exact .inr ⟨_, file, run⟩

/-- One that is answered 0 comes to the file. -/
theorem withFile_answered {k : Nat → ServeM Unit}
    (run : withFile whom rq k s = (.ok (), s')) (sent : s'.sent = s.sent ++ [⟨whom, 0, page⟩]) :
    ∃ f, fileAt s rq = some f ∧ k f s = (.ok (), s') := by
  rcases withFile_taken run with rfl | comes
  · cases (send_inj sent).1
  · exact comes

/-- What the server does for a request in `fs/fs.c`. -/
theorem onFs_answered {α : Type} {m : FsM α} {k : α → ServeM Unit}
    (run : (onFs m >>= k) s = (.ok (), s')) :
    ∃ a fs, m s.fs = .ok (a, fs) ∧ k a { s with fs := fs } = (.ok (), s') := by
  obtain ⟨a, s₁, does, run⟩ := ExceptT.bind_ok_iff.mp run
  obtain ⟨fs, out, rfl⟩ := onFs_ok does
  exact ⟨a, fs, out, run⟩

theorem answered_req (h : Answered req rq page s s') :
    ∃ stack whom, serveReq stack req whom rq s = (.ok (), s') ∧
      s'.sent = s.sent ++ [⟨whom, 0, page⟩] := by
  obtain ⟨stack, whom, perm, run, sent⟩ := h
  unfold serve at run
  cases argument : perm.testBit 0 with
  | true =>
    rw [argument, if_pos rfl] at run
    exact ⟨stack, whom, run, sent⟩
  | false =>
    rw [argument, if_neg Bool.false_ne_true] at run
    cases run
    exact absurd sent (by simp)

theorem loadBlock_page {s s' : Fs} (h : FsM.loadBlock b s = .ok ((), s')) :
    s'.mapped (Fs.page b) = true := by
  unfold FsM.loadBlock FsM.memAlloc at h
  rw [FsM.bind_ok rfl] at h
  split at h
  · cases h
    simp [fill]
  · rw [FsM.bind_ok rfl] at h
    split at h
    · cases h
      simp [fill]
    · cases h

theorem readBlock_page {s s' : Fs} (h : FsM.readBlock b s = .ok ((), s')) :
    s'.mapped (Fs.page b) = true := by
  unfold FsM.readBlock at h
  obtain ⟨n, s₁, -, h⟩ := StateT.bind_ok_iff.mp h
  split at h
  · cases h
  · obtain ⟨free, s₂, -, h⟩ := StateT.bind_ok_iff.mp h
    split at h
    · cases h
    · obtain ⟨mapped, s₃, asks, h⟩ := StateT.bind_ok_iff.mp h
      cases asks
      split at h
      · cases h
        assumption
      · exact loadBlock_page h

/-- The page that the answer to `FSREQ_MAP` sends is there. -/
theorem map_answered (h : Answered 2 rq (some (.block b)) s s') :
    s'.fs.mapped (Fs.page b) = true := by
  obtain ⟨stack, whom, run, sent⟩ := answered_req h
  obtain ⟨f, -, run⟩ := withFile_answered run sent
  obtain ⟨r, fs, gets, run⟩ := onFs_answered run
  cases r with
  | error e =>
    rw [ipcSend_sent run] at sent
    cases (send_inj sent).2
  | ok b' =>
    rw [ipcSend_sent run] at sent ⊢
    cases (send_inj sent).2
    unfold FsM.fileGetBlock at gets
    obtain ⟨r, s₁, -, gets⟩ := StateT.bind_ok_iff.mp gets
    cases r with
    | error e => cases gets
    | ok b' =>
      obtain ⟨⟨⟩, s₂, reads, gets⟩ := StateT.bind_ok_iff.mp gets
      cases gets
      exact readBlock_page reads

theorem dirty_answered (h : Answered 5 rq page s s') :
    ∃ f r fs, fileAt s rq = some f ∧ FsM.fileDirty f (reqOffset rq) s.fs = .ok (r, fs) ∧
      s'.fs = fs ∧ s'.opentab = s.opentab := by
  obtain ⟨stack, whom, run, sent⟩ := answered_req h
  obtain ⟨f, file, run⟩ := withFile_answered run sent
  obtain ⟨r, fs, out, run⟩ := onFs_answered run
  refine ⟨f, r, fs, file, out, ?_⟩
  unfold reply at run
  split at run
  · rw [ipcSend_sent run]
    exact ⟨rfl, rfl⟩
  · rw [ipcSend_sent run]
    exact ⟨rfl, rfl⟩

theorem close_answered (h : Answered 4 rq page s s') :
    ∃ f fs, fileAt s rq = some f ∧ FsM.fileClose f s.fs = .ok ((), fs) ∧ s'.fs = fs := by
  obtain ⟨stack, whom, run, sent⟩ := answered_req h
  obtain ⟨f, file, run⟩ := withFile_answered run sent
  obtain ⟨⟨⟩, fs, out, run⟩ := onFs_answered run
  refine ⟨f, fs, file, out, ?_⟩
  rw [ipcSend_sent run]

theorem sync_answered (h : Answered 7 rq page s s') :
    ∃ fs, FsM.fsSync s.fs = .ok ((), fs) ∧ s'.fs = fs := by
  obtain ⟨stack, whom, run, sent⟩ := answered_req h
  obtain ⟨⟨⟩, fs, out, run⟩ := onFs_answered run
  refine ⟨fs, out, ?_⟩
  rw [ipcSend_sent run]

/-- A block in the cache is on disk after `FSREQ_CLOSE` or `FSREQ_SYNC` if it was there before, or
is dirty and the request visits it. -/
theorem last_saved (inited : Inited s.fs) (present : Present s.fs f)
    (dirs : ∀ d, DirOf s.fs.cell f d → Present s.fs d) (valid : b < s.fs.cell sNblocks)
    (mapped : s.fs.mapped b = true) (last : Answered req rq page s s')
    (flush : req = 4 ∧ fileAt s rq = some f ∨ req = 7) :
    Saved s'.fs b ↔ Saved s.fs b ∨
      s.fs.pteD b = true ∧ (req = 7 ∨ Closed s.fs.cell f b) := by
  have saved : ∃ W, WritesBack W s.fs s'.fs ∧ (W b ↔ req = 7 ∨ Closed s.fs.cell f b) := by
    rcases flush with ⟨rfl, file⟩ | rfl
    · obtain ⟨f', fs, file', closes, rfl⟩ := close_answered last
      obtain rfl := Option.some.inj (file'.symm.trans file)
      exact ⟨_, ((FsM.fileClose_gives inited present dirs).result closes).2,
        ⟨.inr, fun either => either.resolve_left (by decide)⟩⟩
    · obtain ⟨fs, syncs, rfl⟩ := sync_answered last
      exact ⟨_, ((FsM.fsSync_gives inited).result syncs).2, iff_of_true valid (.inl rfl)⟩
  obtain ⟨W, writes, visited⟩ := saved
  have dirty : s.fs.dirty b = s.fs.pteD b := by
    rw [Fs.dirty, mapped, Bool.true_and]
  rw [writes.saved_iff mapped, visited, dirty, and_comm]

end

/-- What a client stores in a page is on disk after the last answer if and only if it was there
before, or `PTE_D` was set in the server's own entry for the page, and `FSREQ_CLOSE` visits the
block or `FSREQ_SYNC` was asked; and a block is dirty after `dirty_block` if and only if that
bit was set before. -/
theorem client_write_saved_iff {s₀ s₁ s₂ s₃ s₄ : Server} {rq rq' rq'' : Nat → Nat} {f b req : Nat}
    (map : Answered 2 rq (some (.block b)) s₀ s₁) (file : fileAt s₁ rq = some f)
    (data : DataBlock s₁.fs f b) (stores : ClientStores b s₁ s₂)
    (dirty : Answered 5 rq' none s₂ s₃)
    (same : reqFileid rq' = reqFileid rq ∧ reqOffset rq' = reqOffset rq)
    (last : Answered req rq'' none s₃ s₄)
    (flush : req = 4 ∧ reqFileid rq'' = reqFileid rq ∨ req = 7) :
    (Saved s₄.fs b ↔ Saved s₂.fs b ∨
      s₁.fs.pteD b = true ∧ (req = 7 ∨ Closed s₁.fs.cell f b)) ∧
      ∀ s s' b, FsM.dirtyBlock b s = .ok (0, s') →
        (FsM.blockIsDirty b s' = .ok (true, s') ↔ s.pteD (Fs.page b) = true) := by
  constructor
  · have mapped := map_answered map
    rw [show Fs.page b = b from Nat.mod_eq_of_lt data.small] at mapped
    obtain ⟨word, others, rfl⟩ := stores
    have cells : ∀ w, w / 1024 ≠ b → (s₁.fs.overwritten word).cell w = s₁.fs.cell w := by
      intro w hw
      simp only [Fs.cell, overwritten, others w hw]
    obtain ⟨inited, present, dirs, nblocks, closed⟩ :=
      @DataBlock.store _ (s₁.fs.overwritten word) _ _ data rfl cells
    obtain ⟨f', r, fs, file', out, rfl, table⟩ := dirty_answered dirty
    have same_file : f' = f := by
      unfold fileAt at file file'
      rw [same.1] at file'
      exact Option.some.inj (file'.symm.trans file)
    subst same_file
    have dirties := ((FsM.fileDirty_gives inited present _).result out).2
    have kept := dirties.toKeeps
    have mapped₃ : s₃.fs.mapped b = true := kept.mapped b mapped
    have pteD : s₃.fs.pteD b = s₁.fs.pteD b := dirties.pteD mapped
    have again : req = 4 ∧ fileAt s₃ rq'' = some f' ∨ req = 7 := by
      refine flush.imp_left ?_
      rintro ⟨close, id⟩
      refine ⟨close, ?_⟩
      unfold fileAt at file ⊢
      rwa [table, id]
    have saved := last_saved (inited.keeps kept) (present.keeps kept)
      (fun d at_ => (dirs d (by rwa [kept.cell] at at_)).keeps kept)
      (by rw [kept.cell, nblocks]; exact data.valid) mapped₃ last again
    have left := dirties.saved_iff (b := b) mapped
    rw [false_and, or_false] at left
    rw [saved, left, pteD, kept.cell, closed]
  · exact fun s s' x => FsM.dirtyBlock_dirty

/-- The file `a` of the root directory: one block, 6, in a slot of block 5. -/
def oneFile : Fs where
  word w :=
    if w = sNblocks then 8
    else if w = fSize sRoot then 4096
    else if w = fType sRoot then ftypeDir
    else if w = fDirect sRoot 0 then 5
    else if w = 5120 then 97
    else if w = fSize 5120 then 1
    else if w = fDirect 5120 0 then 6
    else if w = fDirLow 5120 then diskmap + 4 * sRoot
    else 0
  mapped _ := true
  pteD _ := false
  disk _ := 0
  memory _ := true
  asked := 0

/-- A client has it open. -/
def oneOpen : Server where
  fs := oneFile
  opentab i := ⟨if i = 0 then some 5120 else none, i + maxopen, 0⟩
  ff i := if i = 0 then some .zero else none
  refs _ := 2
  sent := []

/-- `req_fileid` of the file, and `req_offset` 0. -/
def oneReq (i : Nat) : Nat := if i = 0 then maxopen else 0

/-- The server has answered 0. -/
def answered (s : Server) (page : Option SentPage) : Server :=
  { s with sent := s.sent ++ [⟨1, 0, page⟩] }

/-- The client has stored a 7 in its page. -/
def sevenStored (s : Server) : Server :=
  { s with fs := s.fs.overwritten (Function.update s.fs.word 6144 7) }

def oneMapped : Server := answered oneOpen (some (.block 6))
def oneStored : Server := sevenStored oneMapped
def oneDirtied : Server :=
  answered { oneStored with
    fs := { oneStored.fs with pteD := Function.update oneStored.fs.pteD 6 false } } none

theorem oneMapped_answered : Answered 2 oneReq (some (.block 6)) oneOpen oneMapped :=
  ⟨0, 1, 1, rfl, rfl⟩

theorem oneStored_stores : ClientStores 6 oneMapped oneStored :=
  ⟨_, fun w hw => Function.update_of_ne (by rintro rfl; exact hw rfl) _ _, rfl⟩

theorem oneDirtied_answered : Answered 5 oneReq none oneStored oneDirtied := ⟨0, 1, 1, rfl, rfl⟩

theorem oneSynced_answered : Answered 7 oneReq none oneDirtied (answered oneDirtied none) :=
  ⟨0, 1, 1, rfl, rfl⟩

theorem oneFile_present {f : Nat} (place : f % 1024 ≤ 960) (other : f / 1024 ≠ 6)
    (indirect : oneFile.cell (fIndirect f) = 0)
    (direct : ∀ i < 10, oneFile.cell (fDirect f i) < 8) :
    Present oneFile f ∧ Aside oneFile.cell f 6 := by
  have low {i : Nat} (has : HasSlot oneFile.cell f i) : i < ndirect :=
    has.resolve_right fun high => high.2 indirect
  refine ⟨⟨rfl, place, fun i nonzero => ?_⟩, other, fun i has => ?_⟩
  · by_cases has : HasSlot oneFile.cell f i
    · rw [pointer, if_pos has, slot, if_pos (low has)]
      exact direct i (low has)
    · exact absurd (if_neg has) nonzero
  · have := low has
    rw [slot_direct this]
    unfold ndirect at this
    omega

theorem oneFile_data : DataBlock oneFile 5120 6 := by
  have nblocks : oneFile.cell sNblocks = 8 := rfl
  refine ⟨⟨by rw [nblocks]; decide, rfl, fun _ _ => rfl⟩, by rw [nblocks]; decide,
    ⟨by decide, ?_⟩, oneFile_present (by decide) (by decide) rfl (by decide), fun d dir => ?_⟩
  · rintro ⟨-, bound⟩
    rw [nbitmap, nblocks] at bound
    exact absurd bound (by decide)
  · have low : oneFile.cell (fDirLow 5120) = diskmap + 4 * sRoot := rfl
    have root : d = sRoot := by
      have := dir.2
      omega
    subst root
    exact oneFile_present (by decide) (by decide) rfl (by decide)

theorem client_write_saved_lost : Saved (answered oneDirtied none).fs 6 ↔ Saved oneStored.fs 6 ∨
    oneMapped.fs.pteD 6 = true ∧ (7 = 7 ∨ Closed oneMapped.fs.cell 5120 6) :=
  (client_write_saved_iff oneMapped_answered rfl oneFile_data oneStored_stores oneDirtied_answered
    ⟨rfl, rfl⟩ oneSynced_answered (.inr rfl)).1

end ServeM

end RiscvMos
