import RiscvMos.Fs.Serve
import RiscvMos.Lib.Except

/-!
The ids of open files over whole runs of the server and its clients:
`open_lookup` against the opens whose page a client still has.
-/

namespace RiscvMos

namespace Server

/-- The entry that the last reply sent the page of. -/
def granted (s : Server) : Option (Nat × Filefd) := do
  let m ← s.sent.getLast?
  match m.page with
  | some (.filefd i) => (s.ff i).map (i, ·)
  | _ => none

/-- The page of an entry gets one more mapping, or one less. -/
def addRef (s : Server) (i : Nat) : Server :=
  { s with refs := Function.update s.refs i (s.refs i + 1) }
def dropRef (s : Server) (i : Nat) : Server :=
  { s with refs := Function.update s.refs i (s.refs i - 1) }

end Server

/-- The server and its clients. A mapping of a page that a client has comes from
one of the opens: `maps` has the id of that open. -/
structure World where
  server : Server
  maps : Nat → List Nat
  /-- The page at `REQVA`, if it is the page of an entry. -/
  argument : Option Nat
  /-- The page that `serve_open` is sending. -/
  sending : Option Nat
  /-- The ids that `serve_open` returned, with `o_file`. -/
  opened : List (Nat × Option Nat)

/-- What happens next. A client passes a page on with `fork`, `dup` or a message,
and loses it with `close`, another `dup` or at its end. -/
inductive WorldAct where
  | serveOpen (envid : Nat) (rq : Nat → Nat)
  /-- The page arrives; `taken` is false if the client takes no page. -/
  | deliver (taken : Bool)
  | share (i id : Nat)
  | unmap (i id : Nat)
  /-- A client sends the page with a request. -/
  | request (i id : Nat)
  /-- `syscall_mem_unmap(0, REQVA)`. -/
  | unmapRequest
  /-- Other requests and stores of clients change blocks. -/
  | others (fs : Fs)

/-- A cache and a disk of zeros. -/
def emptyCache : Fs := ⟨fun _ => 0, fun _ => false, fun _ => false, fun _ => 0, fun _ => true, 0⟩

namespace World

def start (fs : Fs) : World := ⟨.serveInit fs, fun _ => [], none, none, []⟩

def exec (w : World) : WorldAct → Option World
  | .serveOpen envid rq =>
    if w.sending = none then
      match ServeM.serveOpen envid rq w.server with
      | (.error _, _) => none
      | (.ok (), s) =>
        match s.granted with
        | none => some { w with server := s }
        | some (i, ff) =>
          some { w with
            server := s
            sending := some i
            opened := w.opened ++ [(ff.fileid, (s.opentab i).file)] }
    else none
  | .deliver taken =>
    match w.sending with
    | none => none
    | some i =>
      if taken then
        some { w with
          server := w.server.addRef i
          maps := Function.update w.maps i ((w.server.opentab i).fileid :: w.maps i)
          sending := none }
      else some { w with sending := none }
  | .share i id =>
    if id ∈ w.maps i then
      some { w with server := w.server.addRef i, maps := Function.update w.maps i (id :: w.maps i) }
    else none
  | .unmap i id =>
    if id ∈ w.maps i then
      some { w with server := w.server.dropRef i,
                    maps := Function.update w.maps i ((w.maps i).erase id) }
    else none
  | .request i id =>
    if id ∈ w.maps i ∧ w.argument = none then
      some { w with server := w.server.addRef i, argument := some i }
    else none
  | .unmapRequest =>
    match w.argument with
    | none => none
    | some i => some { w with server := w.server.dropRef i, argument := none }
  | .others fs => some { w with server := { w.server with fs := fs } }

/-- The entry whose page an action maps. -/
def mapped (w : World) : WorldAct → Option Nat
  | .deliver true => w.sending
  | .share i _ => some i
  | .request i _ => some i
  | _ => none

/-- `pp_ref` of the page that the action maps does not wrap. -/
def NoWrap (w : World) (a : WorldAct) : Prop :=
  ∀ i, w.mapped a = some i → w.server.refs i + 1 < 2 ^ 16

/-- The number of requests that an action is. -/
def opens : WorldAct → Nat
  | .serveOpen _ _ => 1
  | _ => 0

/-- The runs with `n` requests to open a file in which no `pp_ref` wraps. -/
inductive Run (fs : Fs) : Nat → World → Prop where
  | start : Run fs 0 (start fs)
  | step {n : Nat} {w w' : World} {a : WorldAct} (run : Run fs n w) (fits : w.NoWrap a)
      (step : w.exec a = some w') : Run fs (n + opens a) w'

/-- An open returned the id, and a client still has its page. -/
def Live (w : World) (fileid : Nat) (file : Option Nat) : Prop :=
  (fileid, file) ∈ w.opened ∧ ∃ i, i < maxopen ∧ fileid ∈ w.maps i

/-- `open_lookup` finds the entry of a live open, and rejects every other id. -/
def LookupRight (w : World) (fileid : Nat) : Prop :=
  (∀ file, w.Live fileid file →
    ∃ i, w.server.openLookup fileid = .ok i ∧ (w.server.opentab i).file = file) ∧
  ((∀ file, ¬ w.Live fileid file) → w.server.openLookup fileid = .error (-eInval))

/-- The initial id of an entry that was never used. -/
def Unissued (w : World) (fileid : Nat) : Prop := fileid < maxopen ∧ w.server.pageref fileid = 0

/-- The current id of an entry whose page came with the request that is being
served, while no client has it any more. -/
def Leftover (w : World) (fileid : Nat) : Prop :=
  w.argument = some (fileid % maxopen) ∧ w.maps (fileid % maxopen) = [] ∧
    (w.server.opentab (fileid % maxopen)).fileid = fileid

end World

namespace Server

/-- The entries, the pages and their counts are the same. -/
def SameTable (s s' : Server) : Prop := s'.opentab = s.opentab ∧ s'.ff = s.ff ∧ s'.refs = s.refs

/-- An entry without clients is taken for the next open. -/
structure Takes (s s' : Server) (i : Nat) : Prop where
  free : s.pageref i ≤ 1
  fileid : (s'.opentab i).fileid = uInt ((s.opentab i).fileid + maxopen)
  page : s'.ff i ≠ none
  refs : s'.refs = if s.pageref i = 0 then Function.update s.refs i 1 else s.refs
  other : ∀ j, j ≠ i → s'.opentab j = s.opentab j ∧ s'.ff j = s.ff j

theorem takes_take {s s' : Server} {i : Nat} (h : s.pageref i = 1) (hs : s.SameTable s') :
    Takes s (s'.take i) i := by
  obtain ⟨htab, hff, hrefs⟩ := hs
  constructor
  · exact le_of_eq h
  · simp [take, htab]
  · simp [take]
  · rw [if_neg (by omega)]
    exact hrefs
  · intro j hj
    simp [take, hj, htab, hff]

theorem takes_allocPage {s s' : Server} {i : Nat} (h : s.pageref i = 0) (hs : s.SameTable s') :
    Takes s ((s'.allocPage i).take i) i := by
  obtain ⟨htab, hff, hrefs⟩ := hs
  constructor
  · omega
  · simp [take, allocPage, htab]
  · simp [take]
  · rw [if_pos h]
    simp [take, allocPage, hrefs]
  · intro j hj
    simp [take, allocPage, hj, htab, hff]

theorem SameTable.trans {s s₁ s' : Server} (h : s.SameTable s₁) (h' : s₁.SameTable s') :
    s.SameTable s' :=
  ⟨h'.1.trans h.1, h'.2.1.trans h.2.1, h'.2.2.trans h.2.2⟩

theorem Takes.of_same {s s₁ s' : Server} {i : Nat} (h : Takes s s₁ i) (hs : s₁.SameTable s') :
    Takes s s' i := by
  obtain ⟨htab, hff, hrefs⟩ := hs
  constructor
  · exact h.free
  · rw [htab]
    exact h.fileid
  · rw [hff]
    exact h.page
  · rw [hrefs]
    exact h.refs
  · rw [htab, hff]
    exact h.other

theorem Takes.fillOut {s s₁ : Server} {i f omode : Nat} {file : Nat → Nat} (h : Takes s s₁ i) :
    Takes s (s₁.fillOut i f file omode) i := by
  constructor
  · exact h.free
  · simp [Server.fillOut, h.fileid]
  · simp [Server.fillOut]
  · exact h.refs
  · intro j hj
    simp [Server.fillOut, hj, h.other j hj]

end Server

namespace ServeM

open Server

variable {α : Type} {s s' : Server}

theorem onFs_same {m : FsM α} {a : α} (h : onFs m s = (.ok a, s')) :
    s.SameTable s' ∧ s'.sent = s.sent := by
  obtain ⟨fs, -, rfl⟩ := onFs_ok h
  exact ⟨⟨rfl, rfl, rfl⟩, rfl⟩

theorem openAllocFrom_spec {n i : Nat} {r : Int} {o : Option Nat}
    (h : openAllocFrom n i s = (.ok (r, o), s')) :
    s'.sent = s.sent ∧ (o = none ∧ s.SameTable s' ∨
      ∃ j, o = some j ∧ j < i + n ∧ Takes s s' j ∧ (s'.opentab j).file = (s.opentab j).file) := by
  induction n generalizing i with
  | zero =>
    cases h
    exact ⟨rfl, .inl ⟨rfl, rfl, rfl, rfl⟩⟩
  | succ n ih =>
    obtain ⟨c, s₁, hread, h⟩ := ExceptT.bind_ok_iff.mp h
    cases hread
    dsimp only at h
    match hc : s.pageref i with
    | 0 =>
      rw [hc] at h
      obtain ⟨found, s₁, hmem, h⟩ := ExceptT.bind_ok_iff.mp h
      obtain ⟨hsame, hsent⟩ := onFs_same hmem
      cases found with
      | true =>
        cases h
        refine ⟨hsent, .inr ⟨i, rfl, by omega, takes_allocPage hc hsame, ?_⟩⟩
        simp [take, allocPage, hsame.1]
      | false =>
        cases h
        exact ⟨hsent, .inl ⟨rfl, hsame⟩⟩
    | 1 =>
      rw [hc] at h
      cases h
      refine ⟨rfl, .inr ⟨i, rfl, by omega, takes_take hc ⟨rfl, rfl, rfl⟩, ?_⟩⟩
      simp [take]
    | c + 2 =>
      rw [hc] at h
      obtain ⟨hsent, hnone | ⟨j, ho, hj, hrest⟩⟩ := ih h
      · exact ⟨hsent, .inl hnone⟩
      · exact ⟨hsent, .inr ⟨j, ho, by omega, hrest⟩⟩

theorem reqPath_ok {rq : Nat → Nat} {path : List Nat} (h : reqPath rq s = (.ok path, s')) :
    s' = s := by
  unfold reqPath at h
  generalize (List.range 4096).map (reqByte rq) = bytes at h
  split at h
  · cases h
    rfl
  · cases h

theorem granted_none {whom : Nat} {val : Int} :
    ({ s with sent := s.sent ++ [⟨whom, val, none⟩] } : Server).granted = none := by
  simp [granted]

/-- `openFile` fails, or stores the file and sends the page. -/
theorem openFile_spec {envid : Nat} {rq : Nat → Nat} {o : Option Nat}
    (h : openFile envid rq o s = (.ok (), s')) :
    s.SameTable s' ∧ s'.granted = none ∨
      ∃ i f file omode s₁, o = some i ∧ s.SameTable s₁ ∧ (s₁.fillOut i f file omode).SameTable s' ∧
        s'.granted = some (i, ⟨devfileId, 0, omode, (s.opentab i).fileid, file⟩) := by
  obtain ⟨path, s₁, hpath, h⟩ := ExceptT.bind_ok_iff.mp h
  cases reqPath_ok hpath
  obtain ⟨res, s₁, hopen, h⟩ := ExceptT.bind_ok_iff.mp h
  obtain ⟨hsame, -⟩ := onFs_same hopen
  cases res with
  | error r =>
    cases h
    exact .inl ⟨hsame, granted_none⟩
  | ok f =>
    cases o with
    | none => cases h
    | some i =>
      obtain ⟨file, s₂, hfile, h⟩ := ExceptT.bind_ok_iff.mp h
      obtain ⟨hsame', -⟩ := onFs_same hfile
      cases h
      have htab : s₂.opentab = s.opentab := hsame'.1.trans hsame.1
      refine .inr ⟨i, f, file, reqOmode rq, s₂, rfl, ?_, ⟨rfl, rfl, rfl⟩, ?_⟩
      · exact ⟨htab, hsame'.2.1.trans hsame.2.1, hsame'.2.2.trans hsame.2.2⟩
      · simp [granted, fillOut, htab]

/-- `serve_open` takes an entry or none; if it sends a page, then that of the
entry, with the id that the entry has now. -/
theorem serveOpen_spec {envid : Nat} {rq : Nat → Nat} (h : serveOpen envid rq s = (.ok (), s')) :
    s.SameTable s' ∧ s'.granted = none ∨
      ∃ i, i < maxopen ∧ Takes s s' i ∧
        (s'.granted = none ∧ (s'.opentab i).file = (s.opentab i).file ∨
          ∃ ff, s'.granted = some (i, ff) ∧ ff.fileid = (s'.opentab i).fileid) := by
  obtain ⟨⟨r, o⟩, s₁, halloc, h⟩ := ExceptT.bind_ok_iff.mp h
  obtain ⟨s₂, hsame, h⟩ : ∃ s₂, s₁.SameTable s₂ ∧ openFile envid rq o s₂ = (.ok (), s') := by
    by_cases hr : r < 0
    · simp only [hr, if_true] at h
      obtain ⟨_, s₂, hsend, h⟩ := ExceptT.bind_ok_iff.mp h
      cases hsend
      exact ⟨{ s₁ with sent := s₁.sent ++ [⟨envid, r, none⟩] }, ⟨rfl, rfl, rfl⟩, h⟩
    · simp only [hr, if_false] at h
      exact ⟨s₁, ⟨rfl, rfl, rfl⟩, h⟩
  obtain ⟨-, ⟨rfl, hnone⟩ | ⟨i, rfl, hi, htake, hfile⟩⟩ := openAllocFrom_spec halloc
  · obtain ⟨hrest, hg⟩ | ⟨i, f, file, omode, s₃, ho, -⟩ := openFile_spec h
    · exact .inl ⟨hnone.trans (hsame.trans hrest), hg⟩
    · cases ho
  · have htakes := htake.of_same hsame
    rw [← hsame.1] at hfile
    rw [Nat.zero_add] at hi
    refine .inr ⟨i, hi, ?_⟩
    obtain ⟨hrest, hg⟩ | ⟨j, f, file, omode, s₃, ho, hrest, hfill, hg⟩ := openFile_spec h
    · rw [hrest.1]
      exact ⟨htakes.of_same hrest, .inl ⟨hg, hfile⟩⟩
    · cases ho
      refine ⟨((htakes.of_same hrest).fillOut).of_same hfill, .inr ⟨_, hg, ?_⟩⟩
      rw [hfill.1]
      simp [fillOut, hrest.1]

end ServeM

namespace World

open Server

/-- The id and the file of an entry. -/
def entry (w : World) (i : Nat) : Nat × Option Nat :=
  ((w.server.opentab i).fileid, (w.server.opentab i).file)

/-- What holds between the requests, after `n` opens. -/
structure Inv (n : Nat) (w : World) : Prop where
  fresh : ∀ i, i < maxopen → w.server.ff i = none → (w.server.opentab i).fileid = i ∧ w.maps i = []
  used : ∀ i, i < maxopen → w.server.ff i ≠ none →
    ∃ k, 1 ≤ k ∧ k ≤ n ∧ (w.server.opentab i).fileid = i + maxopen * k
  count : ∀ i, i < maxopen → w.server.ff i ≠ none →
    w.server.refs i = 1 + (w.maps i).length + if w.argument = some i then 1 else 0
  fits : ∀ i, i < maxopen → w.server.ff i ≠ none → w.server.refs i < 2 ^ 16
  current : ∀ i id, id ∈ w.maps i → id = (w.server.opentab i).fileid
  argument : ∀ i, w.argument = some i → i < maxopen ∧ w.server.ff i ≠ none
  sending : ∀ i, w.sending = some i → i < maxopen ∧ w.server.ff i ≠ none ∧ w.entry i ∈ w.opened
  held : ∀ i, w.maps i ≠ [] → i < maxopen ∧ w.entry i ∈ w.opened
  past : ∀ x ∈ w.opened, ∃ i k, i < maxopen ∧ 1 ≤ k ∧ x.1 = i + maxopen * k ∧
    x.1 ≤ (w.server.opentab i).fileid ∧ (x.1 = (w.server.opentab i).fileid → x = w.entry i)

variable {n : Nat} {w w' : World} {i id : Nat}

theorem start_inv (fs : Fs) : Inv 0 (start fs) := by
  constructor
  case fresh => exact fun i _ _ => ⟨rfl, rfl⟩
  case used => exact fun i _ h => absurd rfl h
  case count => exact fun i _ h => absurd rfl h
  case fits => exact fun i _ h => absurd rfl h
  case current => exact fun i id h => absurd h List.not_mem_nil
  case argument => exact fun i h => nomatch h
  case sending => exact fun i h => nomatch h
  case held => exact fun i h => absurd rfl h
  case past => exact fun x h => absurd h List.not_mem_nil

namespace Inv

/-- A page that a client has is there. -/
theorem page_of_mem (h : Inv n w) (hid : id ∈ w.maps i) : i < maxopen ∧ w.server.ff i ≠ none := by
  have hi := (h.held i (List.ne_nil_of_mem hid)).1
  refine ⟨hi, ?_⟩
  intro hff
  rw [(h.fresh i hi hff).2] at hid
  cases hid

/-- A client gets a mapping of a page. -/
theorem add (h : Inv n w) (hi : i < maxopen) (hff : w.server.ff i ≠ none)
    (hentry : w.entry i ∈ w.opened)
    (hfits : w.server.refs i + 1 < 2 ^ 16) (hid : id = (w.server.opentab i).fileid)
    {snd : Option Nat} (hsnd : ∀ j, snd = some j → w.sending = some j) :
    Inv n { w with
      server := w.server.addRef i, maps := Function.update w.maps i (id :: w.maps i),
      sending := snd } := by
  constructor
  case fresh =>
    intro j hj hnone
    have hne : j ≠ i := by
      intro hji
      subst hji
      exact hff hnone
    simp only [Function.update_of_ne hne]
    exact h.fresh j hj hnone
  case used => exact h.used
  case count =>
    intro j hj hsome
    by_cases hji : j = i
    · subst hji
      have := h.count j hj hsome
      simp only [addRef, Function.update_self, List.length_cons]
      omega
    · simp only [addRef, Function.update_of_ne hji]
      exact h.count j hj hsome
  case fits =>
    intro j hj hsome
    by_cases hji : j = i
    · subst hji
      simp only [addRef, Function.update_self]
      exact hfits
    · simp only [addRef, Function.update_of_ne hji]
      exact h.fits j hj hsome
  case current =>
    intro j x hx
    by_cases hji : j = i
    · subst hji
      simp only [Function.update_self, List.mem_cons] at hx
      cases hx with
      | inl hx => exact hx.trans hid
      | inr hx => exact h.current j x hx
    · simp only [Function.update_of_ne hji] at hx
      exact h.current j x hx
  case argument => exact h.argument
  case sending => exact fun j hj => h.sending j (hsnd j hj)
  case held =>
    intro j hj
    by_cases hji : j = i
    · subst hji
      exact ⟨hi, hentry⟩
    · simp only [Function.update_of_ne hji] at hj
      exact h.held j hj
  case past => exact h.past

/-- A client loses a mapping of a page. -/
theorem remove (h : Inv n w) (hid : id ∈ w.maps i) :
    Inv n { w with
      server := w.server.dropRef i, maps := Function.update w.maps i ((w.maps i).erase id) } := by
  have hi := h.page_of_mem hid
  have hlen := List.length_erase_of_mem hid
  have hpos := List.length_pos_of_mem hid
  constructor
  case fresh =>
    intro j hj hnone
    have hne : j ≠ i := by
      intro hji
      subst hji
      exact hi.2 hnone
    simp only [Function.update_of_ne hne]
    exact h.fresh j hj hnone
  case used => exact h.used
  case count =>
    intro j hj hsome
    by_cases hji : j = i
    · subst hji
      have := h.count j hj hsome
      simp only [dropRef, Function.update_self]
      omega
    · simp only [dropRef, Function.update_of_ne hji]
      exact h.count j hj hsome
  case fits =>
    intro j hj hsome
    have := h.fits j hj hsome
    by_cases hji : j = i
    · subst hji
      simp only [dropRef, Function.update_self]
      omega
    · simp only [dropRef, Function.update_of_ne hji]
      exact this
  case current =>
    intro j x hx
    by_cases hji : j = i
    · subst hji
      simp only [Function.update_self] at hx
      exact h.current j x (List.mem_of_mem_erase hx)
    · simp only [Function.update_of_ne hji] at hx
      exact h.current j x hx
  case argument => exact h.argument
  case sending => exact h.sending
  case held =>
    intro j hj
    by_cases hji : j = i
    · subst hji
      exact h.held j (List.ne_nil_of_mem hid)
    · simp only [Function.update_of_ne hji] at hj
      exact h.held j hj
  case past => exact h.past

/-- The page of an entry comes with a request. -/
theorem request (h : Inv n w) (hi : i < maxopen ∧ w.server.ff i ≠ none)
    (hfits : w.server.refs i + 1 < 2 ^ 16)
    (hnone : w.argument = none) :
    Inv n { w with server := w.server.addRef i, argument := some i } := by
  constructor
  case fresh => exact h.fresh
  case used => exact h.used
  case count =>
    intro j hj hsome
    have hcount := h.count j hj hsome
    rw [hnone, if_neg (by simp)] at hcount
    by_cases hji : j = i
    · subst hji
      simp only [addRef, Function.update_self, if_true]
      omega
    · have hne : ¬ (some i = some j) := fun heq => hji (Option.some.inj heq).symm
      simp only [addRef, Function.update_of_ne hji, if_neg hne]
      exact hcount
  case fits =>
    intro j hj hsome
    by_cases hji : j = i
    · subst hji
      simp only [addRef, Function.update_self]
      exact hfits
    · simp only [addRef, Function.update_of_ne hji]
      exact h.fits j hj hsome
  case current => exact h.current
  case argument =>
    intro j hj
    cases hj
    exact hi
  case sending => exact h.sending
  case held => exact h.held
  case past => exact h.past

theorem unmapRequest (h : Inv n w) (harg : w.argument = some i) :
    Inv n { w with server := w.server.dropRef i, argument := none } := by
  constructor
  case fresh => exact h.fresh
  case used => exact h.used
  case count =>
    intro j hj hsome
    have hcount := h.count j hj hsome
    rw [harg] at hcount
    by_cases hji : j = i
    · subst hji
      rw [if_pos rfl] at hcount
      simp only [dropRef, Function.update_self, reduceCtorEq, if_false]
      omega
    · have hne : ¬ (some i = some j) := fun heq => hji (Option.some.inj heq).symm
      rw [if_neg hne] at hcount
      simp only [dropRef, Function.update_of_ne hji, reduceCtorEq, if_false]
      exact hcount
  case fits =>
    intro j hj hsome
    have := h.fits j hj hsome
    by_cases hji : j = i
    · subst hji
      simp only [dropRef, Function.update_self]
      omega
    · simp only [dropRef, Function.update_of_ne hji]
      exact this
  case current => exact h.current
  case argument => exact fun j hj => nomatch hj
  case sending => exact h.sending
  case held => exact h.held
  case past => exact h.past

theorem pageref_eq (h : Inv n w) (hi : i < maxopen) (hff : w.server.ff i ≠ none) :
    w.server.pageref i = w.server.refs i := by
  unfold pageref
  cases hx : w.server.ff i with
  | none => exact absurd hx hff
  | some ff => exact Nat.mod_eq_of_lt (h.fits i hi hff)

/-- An entry that `open_alloc` can take has no clients. -/
theorem no_clients (h : Inv n w) (hi : i < maxopen) (hfree : w.server.pageref i ≤ 1) :
    w.maps i = [] ∧ w.argument ≠ some i ∧
      (if w.server.pageref i = 0 then Function.update w.server.refs i 1
        else w.server.refs) i = 1 := by
  by_cases hff : w.server.ff i = none
  · refine ⟨(h.fresh i hi hff).2, ?_, ?_⟩
    · intro harg
      exact (h.argument i harg).2 hff
    · have hzero : w.server.pageref i = 0 := by
        unfold pageref
        rw [hff]
      rw [if_pos hzero, Function.update_self]
  · have hcount := h.count i hi hff
    rw [h.pageref_eq hi hff] at hfree ⊢
    refine ⟨List.eq_nil_of_length_eq_zero (by omega), ?_, ?_⟩
    · intro harg
      rw [if_pos harg] at hcount
      omega
    · rw [if_neg (by omega)]
      omega

/-- The ids that an entry has had are `maxopen` apart. -/
theorem fileid_eq (h : Inv n w) (hi : i < maxopen) :
    ∃ k, k ≤ n ∧ (w.server.opentab i).fileid = i + maxopen * k := by
  by_cases hff : w.server.ff i = none
  · exact ⟨0, Nat.zero_le n, (h.fresh i hi hff).1⟩
  · obtain ⟨k, -, hk, heq⟩ := h.used i hi hff
    exact ⟨k, hk, heq⟩

/-- An entry is taken: its id becomes one that no open had. -/
theorem take (h : Inv n w) (few : n < 2 ^ 20) (hsnd : w.sending = none)
    (hi : i < maxopen) {s : Server}
    (ht : Takes w.server s i) : Inv (n + 1) { w with server := s } := by
  obtain ⟨hmaps, harg, hone⟩ := h.no_clients hi ht.free
  rw [← ht.refs] at hone
  obtain ⟨k, hk, hkeq⟩ := h.fileid_eq hi
  have hid : (s.opentab i).fileid = i + maxopen * (k + 1) := by
    rw [ht.fileid, hkeq, uInt, Nat.mod_eq_of_lt]
    · ring
    · simp only [maxopen] at *
      omega
  have hlater : (w.server.opentab i).fileid < (s.opentab i).fileid := by
    rw [hkeq, hid]
    simp only [maxopen]
    omega
  have hrefs : ∀ j, j ≠ i → s.refs j = w.server.refs j := by
    intro j hj
    rw [ht.refs]
    split
    · exact Function.update_of_ne hj _ _
    · rfl
  constructor
  case fresh =>
    intro j hj hnone
    by_cases hji : j = i
    · subst hji
      exact absurd hnone ht.page
    · rw [(ht.other j hji).1]
      rw [(ht.other j hji).2] at hnone
      exact h.fresh j hj hnone
  case used =>
    intro j hj hsome
    by_cases hji : j = i
    · subst hji
      exact ⟨k + 1, by omega, by omega, hid⟩
    · rw [(ht.other j hji).1]
      rw [(ht.other j hji).2] at hsome
      obtain ⟨l, hpos, hl, heq⟩ := h.used j hj hsome
      exact ⟨l, hpos, by omega, heq⟩
  case count =>
    intro j hj hsome
    by_cases hji : j = i
    · subst hji
      rw [hone, hmaps, if_neg harg]
      rfl
    · rw [(ht.other j hji).2] at hsome
      rw [hrefs j hji]
      exact h.count j hj hsome
  case fits =>
    intro j hj hsome
    by_cases hji : j = i
    · subst hji
      rw [hone]
      decide
    · rw [(ht.other j hji).2] at hsome
      rw [hrefs j hji]
      exact h.fits j hj hsome
  case current =>
    intro j x hx
    have hji : j ≠ i := by
      intro hji
      subst hji
      rw [hmaps] at hx
      cases hx
    rw [(ht.other j hji).1]
    exact h.current j x hx
  case argument =>
    intro j hj
    have hji : j ≠ i := by
      intro hji
      subst hji
      exact harg hj
    rw [(ht.other j hji).2]
    exact h.argument j hj
  case sending =>
    intro j hj
    rw [hsnd] at hj
    cases hj
  case held =>
    intro j hj
    have hji : j ≠ i := by
      intro hji
      subst hji
      exact hj hmaps
    rw [entry, (ht.other j hji).1]
    exact h.held j hj
  case past =>
    intro x hx
    obtain ⟨j, l, hj, hl, heq, hle, hsame⟩ := h.past x hx
    refine ⟨j, l, hj, hl, heq, ?_⟩
    by_cases hji : j = i
    · subst hji
      have hlt := lt_of_le_of_lt hle hlater
      exact ⟨le_of_lt hlt, fun heq => absurd heq (ne_of_lt hlt)⟩
    · rw [entry, (ht.other j hji).1]
      exact ⟨hle, hsame⟩

/-- The page of an entry is about to be sent. -/
theorem grant (h : Inv n w) (hi : i < maxopen) (hff : w.server.ff i ≠ none) :
    Inv n { w with sending := some i, opened := w.opened ++ [w.entry i] } := by
  constructor
  case fresh => exact h.fresh
  case used => exact h.used
  case count => exact h.count
  case fits => exact h.fits
  case current => exact h.current
  case argument => exact h.argument
  case sending =>
    intro j hj
    cases hj
    exact ⟨hi, hff, List.mem_append_right _ (List.mem_singleton_self _)⟩
  case held =>
    intro j hj
    exact ⟨(h.held j hj).1, List.mem_append_left _ (h.held j hj).2⟩
  case past =>
    intro x hx
    cases List.mem_append.mp hx with
    | inl hx => exact h.past x hx
    | inr hx =>
      rw [List.mem_singleton] at hx
      subst hx
      obtain ⟨k, hpos, -, heq⟩ := h.used i hi hff
      exact ⟨i, k, hi, hpos, heq, le_refl _, fun _ => rfl⟩

/-- One request more, which changes no entry. -/
theorem same (h : Inv n w) {s : Server} (hs : w.server.SameTable s) :
    Inv (n + 1) { w with server := s } := by
  obtain ⟨htab, hff, hrefs⟩ := hs
  constructor
  case fresh =>
    rw [htab, hff]
    exact h.fresh
  case used =>
    rw [htab, hff]
    intro j hj hsome
    obtain ⟨k, hpos, hk, heq⟩ := h.used j hj hsome
    exact ⟨k, hpos, by omega, heq⟩
  case count =>
    rw [hff, hrefs]
    exact h.count
  case fits =>
    rw [hff, hrefs]
    exact h.fits
  case current =>
    rw [htab]
    exact h.current
  case argument =>
    rw [hff]
    exact h.argument
  case sending =>
    simp only [entry, htab, hff]
    exact h.sending
  case held =>
    simp only [entry, htab]
    exact h.held
  case past =>
    simp only [entry, htab]
    exact h.past

end Inv

theorem exec_inv {a : WorldAct} (h : Inv n w) (few : n + opens a < 2 ^ 20) (hfits : w.NoWrap a)
    (hstep : w.exec a = some w') : Inv (n + opens a) w' := by
  cases a with
  | serveOpen envid rq =>
    simp only [exec] at hstep
    split at hstep
    · rename_i hsnd
      split at hstep
      · cases hstep
      · rename_i s hserve
        obtain ⟨hsame, hg⟩ | ⟨i, hi, htakes, hg | ⟨ff, hg, hid⟩⟩ := ServeM.serveOpen_spec hserve
        · rw [hg] at hstep
          cases hstep
          exact h.same hsame
        · rw [hg.1] at hstep
          cases hstep
          exact h.take (by omega) hsnd hi htakes
        · rw [hg] at hstep
          cases hstep
          rw [hid]
          exact (h.take (by omega) hsnd hi htakes).grant hi htakes.page
    · cases hstep
  | deliver taken =>
    simp only [exec] at hstep
    split at hstep
    · cases hstep
    · rename_i i hsnd
      obtain ⟨hi, hff, hentry⟩ := h.sending i hsnd
      cases taken with
      | true =>
        cases hstep
        exact h.add hi hff hentry (hfits i hsnd) rfl (fun j hj => nomatch hj)
      | false =>
        cases hstep
        exact { h with sending := fun j hj => nomatch hj }
  | share i id =>
    simp only [exec] at hstep
    split at hstep
    · rename_i hid
      cases hstep
      have hi := h.page_of_mem hid
      exact h.add hi.1 hi.2 (h.held i (List.ne_nil_of_mem hid)).2 (hfits i rfl) (h.current i id hid)
        (fun j hj => hj)
    · cases hstep
  | unmap i id =>
    simp only [exec] at hstep
    split at hstep
    · rename_i hid
      cases hstep
      exact h.remove hid
    · cases hstep
  | request i id =>
    simp only [exec] at hstep
    split at hstep
    · rename_i hid
      cases hstep
      exact h.request (h.page_of_mem hid.1) (hfits i rfl) hid.2
    · cases hstep
  | unmapRequest =>
    simp only [exec] at hstep
    split at hstep
    · cases hstep
    · rename_i i harg
      cases hstep
      exact h.unmapRequest harg
  | others fs =>
    cases hstep
    exact { h with }

theorem run_inv {fs : Fs} (run : Run fs n w) (few : n < 2 ^ 20) : Inv n w := by
  induction run with
  | start => exact start_inv fs
  | step run fits step ih => exact exec_inv (ih (by omega)) few fits step

theorem mod_maxopen {i k : Nat} (hi : i < maxopen) : (i + maxopen * k) % maxopen = i := by
  rw [Nat.add_mul_mod_self_left, Nat.mod_eq_of_lt hi]

section
variable {fileid : Nat} {file : Option Nat}

/-- A live id is the one that its entry has now. -/
theorem Inv.live_entry (h : Inv n w) (hlive : w.Live fileid file) :
    w.maps (fileid % maxopen) ≠ [] ∧ w.entry (fileid % maxopen) = (fileid, file) := by
  obtain ⟨hopened, j, hj, hmem⟩ := hlive
  obtain ⟨k, -, heq⟩ := h.fileid_eq hj
  have hcur := h.current j fileid hmem
  have hmod : fileid % maxopen = j := by
    rw [hcur, heq, mod_maxopen hj]
  obtain ⟨i, l, hi, -, hx, -, hsame⟩ := h.past _ hopened
  have hij : i = j := by
    dsimp only at hx
    rw [← hmod, hx, mod_maxopen hi]
  subst hij
  rw [hmod]
  exact ⟨List.ne_nil_of_mem hmem, (hsame hcur).symm⟩

theorem Inv.live_of_maps (h : Inv n w) (hmaps : w.maps i ≠ []) :
    w.Live (w.server.opentab i).fileid (w.server.opentab i).file := by
  obtain ⟨hi, hentry⟩ := h.held i hmaps
  obtain ⟨id, hid⟩ := List.exists_mem_of_ne_nil _ hmaps
  refine ⟨hentry, i, hi, ?_⟩
  rw [← h.current i id hid]
  exact hid

theorem Inv.not_live_of_lt (h : Inv n w) (hlt : fileid < maxopen) : ¬ w.Live fileid file := by
  intro hlive
  obtain ⟨i, k, -, hk, heq, -⟩ := h.past _ hlive.1
  simp only [maxopen] at *
  omega

/-- The count that `open_lookup` looks at. -/
theorem Inv.pageref_count (h : Inv n w) (hi : i < maxopen) (hff : w.server.ff i ≠ none) :
    w.server.pageref i = 1 + (w.maps i).length + if w.argument = some i then 1 else 0 := by
  rw [h.pageref_eq hi hff]
  exact h.count i hi hff

theorem Inv.ff_of_maps (h : Inv n w) (hmaps : w.maps i ≠ []) : w.server.ff i ≠ none := by
  obtain ⟨id, hid⟩ := List.exists_mem_of_ne_nil _ hmaps
  exact (h.page_of_mem hid).2

theorem mod_lt_maxopen (fileid : Nat) : fileid % maxopen < maxopen := Nat.mod_lt _ (by decide)

theorem Inv.lookup_live (h : Inv n w) (hlive : w.Live fileid file) :
    ∃ i, w.server.openLookup fileid = .ok i ∧ (w.server.opentab i).file = file := by
  obtain ⟨hmaps, hentry⟩ := h.live_entry hlive
  have hcount := h.pageref_count (mod_lt_maxopen fileid) (h.ff_of_maps hmaps)
  have hpos := List.length_pos_of_ne_nil hmaps
  have hid : (w.server.opentab (fileid % maxopen)).fileid = fileid := congrArg Prod.fst hentry
  refine ⟨fileid % maxopen, if_neg ?_, congrArg Prod.snd hentry⟩
  rintro (hone | hne)
  · omega
  · exact hne hid

/-- What `open_lookup` finds is live, or one of the two exceptions. -/
theorem Inv.live_of_lookup (h : Inv n w) (hlookup : w.server.openLookup fileid ≠ .error (-eInval)) :
    (∃ file, w.Live fileid file) ∨ w.Unissued fileid ∨ w.Leftover fileid := by
  have hi := mod_lt_maxopen fileid
  unfold openLookup at hlookup
  split at hlookup
  · exact absurd rfl hlookup
  · rename_i hcond
    rw [not_or, not_not] at hcond
    obtain ⟨hone, hid⟩ := hcond
    by_cases hff : w.server.ff (fileid % maxopen) = none
    · have hfresh := (h.fresh _ hi hff).1
      rw [hid] at hfresh
      refine .inr (.inl ⟨hfresh ▸ hi, ?_⟩)
      rw [hfresh, pageref, hff]
    · by_cases hmaps : w.maps (fileid % maxopen) = []
      · have hcount := h.pageref_count hi hff
        rw [hmaps, List.length_nil] at hcount
        refine .inr (.inr ⟨?_, hmaps, hid⟩)
        by_contra harg
        rw [if_neg harg] at hcount
        exact hone hcount
      · refine .inl ⟨(w.server.opentab (fileid % maxopen)).file, ?_⟩
        have hlive := h.live_of_maps hmaps
        rw [hid] at hlive
        exact hlive

theorem Inv.lookup_unissued (h : Inv n w) (hun : w.Unissued fileid) :
    w.server.openLookup fileid = .ok fileid ∧ ∀ file, ¬ w.Live fileid file := by
  obtain ⟨hlt, hzero⟩ := hun
  have hmod := Nat.mod_eq_of_lt hlt
  have hff : w.server.ff fileid = none := by
    by_contra hff
    rw [h.pageref_count hlt hff] at hzero
    omega
  refine ⟨?_, fun file => h.not_live_of_lt hlt⟩
  unfold openLookup
  rw [hmod, if_neg]
  rintro (hone | hne)
  · omega
  · exact hne (h.fresh fileid hlt hff).1

theorem Inv.lookup_leftover (h : Inv n w) (hleft : w.Leftover fileid) :
    w.server.openLookup fileid = .ok (fileid % maxopen) ∧ ∀ file, ¬ w.Live fileid file := by
  obtain ⟨harg, hmaps, hid⟩ := hleft
  have hcount := h.pageref_count (mod_lt_maxopen fileid) (h.argument _ harg).2
  rw [if_pos harg] at hcount
  constructor
  · apply if_neg
    rintro (hone | hne)
    · omega
    · exact hne hid
  · intro file hlive
    exact (h.live_entry hlive).1 hmaps

/-- In a run of fewer than `2 ^ 20` opens, `open_lookup` is right about every id
but the initial ones of entries that were never used and those whose page came
with the request itself. -/
theorem lookup_right_iff {fs : Fs} (run : Run fs n w) (few : n < 2 ^ 20) (fileid : Nat) :
    w.LookupRight fileid ↔ ¬ w.Unissued fileid ∧ ¬ w.Leftover fileid := by
  have h := run_inv run few
  constructor
  · rintro ⟨-, hreject⟩
    constructor
    · intro hun
      obtain ⟨hok, hnot⟩ := h.lookup_unissued hun
      rw [hreject hnot] at hok
      cases hok
    · intro hleft
      obtain ⟨hok, hnot⟩ := h.lookup_leftover hleft
      rw [hreject hnot] at hok
      cases hok
  · intro ⟨hun, hleft⟩
    refine ⟨fun file hlive => h.lookup_live hlive, ?_⟩
    intro hnot
    by_contra hlookup
    obtain ⟨file, hlive⟩ | hun' | hleft' := h.live_of_lookup hlookup
    · exact hnot file hlive
    · exact hun hun'
    · exact hleft hleft'

/-- One file is open, and its client has the page. -/
theorem lookup_right_iff_one_open : ∃ w, Run emptyCache 1 w ∧ w.Live 1024 (some Fs.sRoot) ∧
    (w.LookupRight 1024 ↔ ¬ w.Unissued 1024 ∧ ¬ w.Leftover 1024) := by
  obtain ⟨w, hopen, hsnd, hrefs, hid, hopened⟩ :=
    Option.exists_of_any (o := exec (start emptyCache) (.serveOpen 0 fun _ => 0))
      (q := fun w => w.sending = some 0 ∧ w.server.refs 0 = 1 ∧ (w.server.opentab 0).fileid = 1024 ∧
        w.opened = [(1024, some Fs.sRoot)]) (by decide +kernel)
  have hdeliver : w.exec (.deliver true) = some { w with
      server := w.server.addRef 0, maps := Function.update w.maps 0 (1024 :: w.maps 0),
      sending := none } := by
    simp only [exec, hsnd, if_true, hid]
  have hfits : w.NoWrap (.deliver true) := by
    intro i hi
    cases hsnd.symm.trans hi
    rw [hrefs]
    decide
  have hnone : (start emptyCache).NoWrap (.serveOpen 0 fun _ => 0) := by
    intro i hi
    cases hi
  have run := (Run.start.step hnone hopen).step hfits hdeliver
  refine ⟨_, run, ⟨?_, 0, by decide, ?_⟩, lookup_right_iff run (by decide) 1024⟩
  · rw [hopened]
    exact List.mem_singleton_self _
  · simp only [Function.update_self]
    exact List.mem_cons_self

/-- An id that no open returned is accepted, for an entry without a file. -/
theorem initial_id_accepted : (start emptyCache).server.openLookup 5 = .ok 5 ∧
    ((start emptyCache).server.opentab 5).file = none ∧ ¬ (start emptyCache).LookupRight 5 := by
  refine ⟨rfl, rfl, ?_⟩
  intro h
  have hreject := h.2 fun file hlive => by cases hlive.1
  cases hreject

end

end World

end RiscvMos
