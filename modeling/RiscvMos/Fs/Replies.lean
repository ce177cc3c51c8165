import RiscvMos.Fs.Serve
import RiscvMos.Fs.Resolve
import RiscvMos.Lib.Except

/-!
The replies of the file server: what one iteration of `serve` sends.
-/

namespace RiscvMos

namespace ServeM

/-- The server sends nothing. -/
structure Silent {α : Type} (m : ServeM α) : Prop where
  sent : ∀ s, (m s).2.sent = s.sent

/-- The server sends one message, to `whom`, and goes on, or it stops and has
sent nothing. -/
structure AnswersAt (whom : Nat) (m : ServeM Unit) (s : Server) : Prop where
  once : ∀ s', m s = (.ok (), s') → ∃ msg : Send, msg.whom = whom ∧ s'.sent = s.sent ++ [msg]
  stops : ∀ x s', m s = (.error x, s') → s'.sent = s.sent

structure Answers (whom : Nat) (m : ServeM Unit) : Prop where
  all : ∀ s, AnswersAt whom m s

section
variable {α β : Type} {whom : Nat} {s : Server}

theorem silent_pure (a : α) : Silent (pure a) := ⟨fun _ => rfl⟩

theorem silent_read (f : Server → α) : Silent (read f) := ⟨fun _ => rfl⟩

theorem silent_stop (x : Stop) : Silent (stop x : ServeM α) := ⟨fun _ => rfl⟩

theorem silent_update {f : Server → Server} (hf : ∀ s, (f s).sent = s.sent) : Silent (update f) :=
  ⟨hf⟩

theorem silent_onFs (m : FsM α) : Silent (onFs m) := by
  constructor
  intro s
  unfold onFs
  split
  · rfl
  · rfl

theorem Silent.bind {m : ServeM α} {f : α → ServeM β} (hm : Silent m) (hf : ∀ a, Silent (f a)) :
    Silent (m >>= f) := by
  constructor
  intro s
  have hs := hm.sent s
  rw [ExceptT.bind_run]
  cases hr : m s with
  | mk r s' =>
    rw [hr] at hs
    cases r with
    | error x => exact hs
    | ok a => exact ((hf a).sent s').trans hs

theorem silent_reqPath (rq : Nat → Nat) : Silent (reqPath rq) := by
  constructor
  intro s
  unfold reqPath
  generalize (List.range 4096).map (reqByte rq) = bytes
  split
  · rfl
  · rfl

theorem silent_follow (o : Option Nat) : Silent (follow o) := by
  cases o with
  | none => exact silent_stop _
  | some f => exact silent_pure f

theorem answers_ipcSend (val : Int) (page : Option SentPage) :
    Answers whom (ipcSend whom val page) := by
  refine ⟨fun s => ⟨?_, ?_⟩⟩
  · intro s' h
    cases h
    exact ⟨_, rfl, rfl⟩
  · intro x s' h
    cases h

theorem answers_stop (x : Stop) : Answers whom (stop x) := by
  refine ⟨fun s => ⟨?_, ?_⟩⟩
  · intro s' h
    cases h
  · intro y s' h
    cases h
    rfl

theorem answersAt_bind {m : ServeM α} {f : α → ServeM Unit} (hm : Silent m)
    (hf : ∀ a s', m s = (.ok a, s') → AnswersAt whom (f a) s') : AnswersAt whom (m >>= f) s := by
  have hs := hm.sent s
  cases hr : m s with
  | mk r s' =>
    rw [hr] at hs
    have hrun := ExceptT.bind_run m f s
    rw [hr] at hrun
    constructor
    · intro s₂ h
      rw [hrun] at h
      cases r with
      | error x => cases h
      | ok a =>
        obtain ⟨msg, hto, hsent⟩ := (hf a s' hr).once s₂ h
        exact ⟨msg, hto, by rw [hsent, hs]⟩
    · intro x s₂ h
      rw [hrun] at h
      cases r with
      | error y =>
        cases h
        exact hs
      | ok a => exact ((hf a s' hr).stops x s₂ h).trans hs

/-- What sends nothing comes before the reply. -/
theorem Answers.after {m : ServeM α} {f : α → ServeM Unit} (hm : Silent m)
    (hf : ∀ a, Answers whom (f a)) :
    Answers whom (m >>= f) :=
  ⟨fun _ => answersAt_bind hm fun a s' _ => (hf a).all s'⟩

end

section
variable {whom : Nat} {rq : Nat → Nat}

theorem silent_openTake (i : Nat) : Silent (openTake i) := ⟨fun _ => rfl⟩

theorem silent_openAllocFrom (n i : Nat) : Silent (openAllocFrom n i) := by
  induction n generalizing i with
  | zero => exact silent_pure _
  | succ n ih =>
    unfold openAllocFrom
    apply Silent.bind (silent_read _)
    intro c
    match c with
    | 0 =>
      apply Silent.bind (silent_onFs _)
      intro found
      cases found with
      | true => exact Silent.bind (silent_update fun _ => rfl) fun _ => silent_openTake i
      | false => exact silent_pure _
    | 1 => exact silent_openTake i
    | c + 2 => exact ih (i + 1)

theorem silent_openAlloc : Silent openAlloc := silent_openAllocFrom maxopen 0

theorem answers_openFile (o : Option Nat) : Answers whom (openFile whom rq o) := by
  unfold openFile
  apply Answers.after (silent_reqPath rq)
  intro path
  apply Answers.after (silent_onFs _)
  intro res
  cases res with
  | error r => exact answers_ipcSend r none
  | ok f =>
    cases o with
    | none => exact answers_stop _
    | some i =>
      apply Answers.after (silent_onFs _)
      intro file
      exact Answers.after (silent_update fun _ => rfl) fun _ => answers_ipcSend 0 _

/-- `open_alloc` finds an entry, if it returns. -/
def OpenAllocs (s : Server) : Prop := ∀ r o s', openAlloc s = (.ok (r, o), s') → 0 ≤ r

theorem answers_serveOpen {s : Server} (h : OpenAllocs s) :
    AnswersAt whom (serveOpen whom rq) s := by
  unfold serveOpen
  apply answersAt_bind silent_openAlloc
  rintro ⟨r, o⟩ s' hs'
  have hr := h r o s' hs'
  have hneg : ¬ r < 0 := by omega
  simp only [hneg, if_false]
  exact (answers_openFile o).all s'

theorem answers_withFile {k : Nat → ServeM Unit} (hk : ∀ f, Answers whom (k f)) :
    Answers whom (withFile whom rq k) := by
  apply Answers.after (silent_read _)
  intro res
  cases res with
  | error r => exact answers_ipcSend r none
  | ok i =>
    apply Answers.after (silent_read _)
    intro o
    exact Answers.after (silent_follow _) hk

theorem answers_reply (r : Int) : Answers whom (reply whom r) := by
  unfold reply
  split
  · exact answers_ipcSend r none
  · exact answers_ipcSend 0 none

theorem answers_serveMap : Answers whom (serveMap whom rq) := by
  apply answers_withFile
  intro f
  apply Answers.after (silent_onFs _)
  intro res
  cases res with
  | error r => exact answers_ipcSend r none
  | ok b => exact answers_ipcSend 0 _

/-- A function of `fs.c`, and then the reply. -/
theorem answers_onFs {α : Type} {m : FsM α} {k : α → ServeM Unit} (hk : ∀ a, Answers whom (k a)) :
    Answers whom (onFs m >>= k) :=
  Answers.after (silent_onFs m) hk

theorem answers_serveRemove : Answers whom (serveRemove whom rq) := by
  unfold serveRemove
  apply Answers.after (silent_reqPath rq)
  exact fun _ => answers_onFs fun r => answers_ipcSend r none

theorem answers_serveDebug : Answers whom (serveDebug whom rq) := by
  unfold serveDebug
  apply Answers.after (silent_reqPath rq)
  intro path
  apply answers_onFs
  intro file
  apply Answers.after (silent_follow file)
  exact fun f => answers_onFs fun _ => answers_ipcSend 0 none

/-- A request of a client library that is answered. -/
def Answerable (req : Nat) (s : Server) : Prop :=
  req = 1 ∧ OpenAllocs s ∨ req ∈ [2, 3, 4, 5, 6, 7, 39]

theorem answers_serveReq {stack req : Nat} {s : Server} (h : Answerable req s) :
    AnswersAt whom (serveReq stack req whom rq) s := by
  cases h with
  | inl hopen =>
    obtain ⟨rfl, halloc⟩ := hopen
    exact answers_serveOpen halloc
  | inr hreq =>
    simp only [List.mem_cons, List.not_mem_nil, or_false] at hreq
    rcases hreq with rfl | rfl | rfl | rfl | rfl | rfl | rfl
    · exact answers_serveMap.all s
    · exact (answers_withFile fun f => answers_onFs answers_reply).all s
    · exact (answers_withFile fun f => answers_onFs fun _ => answers_ipcSend 0 none).all s
    · exact (answers_withFile fun f => answers_onFs answers_reply).all s
    · exact answers_serveRemove.all s
    · exact (answers_onFs fun _ => answers_ipcSend 0 none).all s
    · exact answers_serveDebug.all s

/-- The `default` of the `switch`. -/
theorem serveReq_unknown {stack req : Nat} (h : req ∉ [1, 2, 3, 4, 5, 6, 7, 39, 3939]) :
    serveReq stack req whom rq = pure () := by
  unfold serveReq
  simp only [List.mem_cons, List.not_mem_nil, or_false, not_or] at h
  split
  case h_10 => rfl
  all_goals omega

/-- One iteration of `serve`: a request with an argument page and a code that
`serve` answers gets one reply; without the page, or with a code that is not
one, there is none. -/
theorem serve_replies (stack req whom perm : Nat) (rq : Nat → Nat) (s : Server) :
    (perm.testBit 0 = true → Answerable req s → AnswersAt whom (serve stack req whom perm rq) s) ∧
    (perm.testBit 0 = false ∨ req ∉ [1, 2, 3, 4, 5, 6, 7, 39, 3939] →
      serve stack req whom perm rq s = (.ok (), s)) := by
  constructor
  · intro hpage hreq
    unfold serve
    rw [if_pos hpage]
    exact answers_serveReq hreq
  · intro h
    unfold serve
    cases h with
    | inl hpage =>
      rw [hpage]
      rfl
    | inr hreq =>
      split
      · rw [serveReq_unknown hreq]
        rfl
      · rfl

end

/-- The page of an open of `/a`. -/
def openDirA : Nat → Nat := fun w => if w = 0 then 0x612f else 0

theorem openAllocs_first : OpenAllocs (.serveInit FsM.twoDirs) := by
  intro r o s' opened
  have first : (openAlloc (.serveInit FsM.twoDirs)).1 = .ok (1024, some 0) := rfl
  rw [opened] at first
  cases first
  decide

/-- The first open is answered, with the page of its entry. -/
theorem serve_replies_open :
    ∃ s', serve 0 1 2048 1 openDirA (.serveInit FsM.twoDirs) = (.ok (), s') ∧
      (∃ msg : Send, msg.whom = 2048 ∧ s'.sent = [] ++ [msg]) ∧
      s'.sent = [⟨2048, 0, some (.filefd 0)⟩] := by
  have answers := (serve_replies 0 1 2048 1 openDirA (.serveInit FsM.twoDirs)).1 rfl
    (.inl ⟨rfl, openAllocs_first⟩)
  have run : (serve 0 1 2048 1 openDirA (.serveInit FsM.twoDirs)).1.isOk = true ∧
      (serve 0 1 2048 1 openDirA (.serveInit FsM.twoDirs)).2.sent =
        [⟨2048, 0, some (.filefd 0)⟩] := by decide +kernel
  cases out : serve 0 1 2048 1 openDirA (.serveInit FsM.twoDirs) with
  | mk r s' =>
    rw [out] at run
    cases r with
    | error x => cases run.1
    | ok u => exact ⟨s', rfl, answers.once s' out, run.2⟩

/-- A request with the code 8, with an argument page, is not answered. -/
theorem unknown_code_unanswered :
    ¬ ∀ (stack req whom perm : Nat) (rq : Nat → Nat) (s : Server), perm.testBit 0 = true →
      AnswersAt whom (serve stack req whom perm rq) s := by
  intro h
  obtain ⟨msg, -, hsent⟩ :=
    (h 0 8 2048 1 (fun _ => 0) (.serveInit ⟨fun _ => 0, fun _ => false, fun _ => false,
    fun _ => 0, fun _ => true, 0⟩) rfl).once _ rfl
  cases hsent

end ServeM

end RiscvMos
