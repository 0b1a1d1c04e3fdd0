import Gfhttpd.Basic.Bytes
import Gfhttpd.Lib.Ledger

/-!
# What the server does to the world

`World` holds the open file descriptors, the timers that wait in the event base, and the log
of the calls that matter to a client.  A descriptor is an index into `fds` and is never used
twice, so a descriptor that was closed twice shows as such.

- reading: a descriptor delivers `content` from `offset` on; for a pipe or a socket `content`
  is everything that was written to the other end
- `lseek` repositions files only
- an event is a number; `pending` are the ones that will run, `freed` the ones given back
-/

namespace Gfhttpd

/-! ## Descriptors -/

inductive FdKind where
  | file
  | pipe
  | socket
deriving DecidableEq, Repr

/-- An open descriptor. -/
structure Fd where
  kind : FdKind
  content : Bytes
  offset : ℕ
  /-- the descriptor at the other end -/
  peer : Option ℕ
  /-- how often it was closed -/
  closes : ℕ
deriving DecidableEq, Repr

/-- `lseek(fd, pos, SEEK_SET)`: it succeeds on files and at positions from 0 on. -/
def Fd.seek (fd : Fd) (pos : ℤ) : Fd :=
  -- `ESPIPE` on the others, `EINVAL` below 0: the offset stays
  if fd.kind = .file ∧ 0 ≤ pos then { fd with offset := pos.toNat } else fd

/-! ## Effects -/

/-- What `root_router` decided about a request. -/
inductive Outcome where
  | module
  | file (size : ℤ)
  | notFound (size : ℕ)
deriving DecidableEq, Repr

/-- The calls that are logged. -/
inductive Effect where
  /-- `root_router` is called for a stream whose header block has these fields, with this
  `hs->request.url` -/
  | rootRouter (stream : ℤ) (fields : List (Bytes × Bytes)) (url : Option Bytes)
  | getRoute (path : Bytes)
  | matchRoute (subject : Bytes)
  | openFile (path : Bytes)
  /-- `root_router` returned a descriptor for the stream -/
  | routed (stream : ℤ) (fd : ℕ) (outcome : Outcome)
  /-- a module run for the stream's request set this status and length -/
  | answered (stream : ℤ) (status : Bytes) (length : ℕ)
  | sendResponse (stream : ℤ) (headers : List (Bytes × Bytes))
  /-- `quiche_h3_send_body` accepted `written` of these bytes of a response -/
  | sendBody (writer : ℕ) (stream : ℤ) (fd : ℕ) (body : Bytes) (written : ℤ) (fin : Bool)
  | submitResponse (stream : ℤ)
  | close (fd : ℤ)
deriving DecidableEq, Repr

/-! ## The world -/

structure World where
  fds : List Fd
  nextEv : ℕ
  pending : List ℕ
  freed : List ℕ
  log : List Effect
deriving DecidableEq, Repr

def World.init : World := ⟨[], 0, [], [], []⟩

namespace World

/-- Log an effect. -/
def emit (w : World) (e : Effect) : World :=
  { w with log := w.log ++ [e] }

/-- Open a descriptor; its number is the length of `fds` before. -/
def openFd (w : World) (fd : Fd) : World :=
  { w with fds := w.fds ++ [fd] }

/-- Change a descriptor. -/
def modifyFd (w : World) (n : ℕ) (f : Fd → Fd) : World :=
  { w with fds := w.fds.modify n f }

/-- `close(fd)`. -/
def closeFd (w : World) (n : ℕ) : World :=
  (w.modifyFd n fun fd => { fd with closes := fd.closes + 1 }).emit (.close n)

/-- Write to one end of a pipe or socket pair. -/
def writeFd (w : World) (n : ℕ) (b : Bytes) : World :=
  match w.fds[n]?.bind Fd.peer with
  -- nothing to write to
  | none => w
  | some peer => w.modifyFd peer fun fd => { fd with content := fd.content ++ b }

/-- `evtimer_new`: the new event is `nextEv`. -/
def newEvent (w : World) : World :=
  { w with nextEv := w.nextEv + 1 }

/-- `evtimer_add` of an event; adding a pending event again only moves its time. -/
def addEvent (w : World) (ev : ℕ) : World :=
  if ev ∈ w.pending then w else { w with pending := w.pending ++ [ev] }

/-- `event_del`. -/
def delEvent (w : World) (ev : ℕ) : World :=
  { w with pending := w.pending.filter (· ≠ ev) }

/-- `event_free`, which also deletes the event. -/
def freeEvent (w : World) (ev : ℕ) : World :=
  { w.delEvent ev with freed := w.freed ++ [ev] }

/-- How often a descriptor was closed. -/
def closesOf (w : World) (n : ℕ) : ℕ :=
  (w.fds[n]?.map Fd.closes).getD 0

/-- The calls of `close`, descriptor by descriptor. -/
def closes (w : World) : List ℕ :=
  (List.range w.fds.length).flatMap fun n => List.replicate (w.closesOf n) n

@[simp] theorem log_emit (w : World) (e : Effect) : (w.emit e).log = w.log ++ [e] := rfl
@[simp] theorem fds_emit (w : World) (e : Effect) : (w.emit e).fds = w.fds := rfl
@[simp] theorem pending_emit (w : World) (e : Effect) : (w.emit e).pending = w.pending := rfl
@[simp] theorem log_newEvent (w : World) : w.newEvent.log = w.log := rfl
@[simp] theorem fds_newEvent (w : World) : w.newEvent.fds = w.fds := rfl
@[simp] theorem log_freeEvent (w : World) (ev : ℕ) : (w.freeEvent ev).log = w.log := rfl
@[simp] theorem fds_freeEvent (w : World) (ev : ℕ) : (w.freeEvent ev).fds = w.fds := rfl

@[simp] theorem log_addEvent (w : World) (ev : ℕ) : (w.addEvent ev).log = w.log := by
  unfold addEvent
  split <;> rfl

@[simp] theorem fds_addEvent (w : World) (ev : ℕ) : (w.addEvent ev).fds = w.fds := by
  unfold addEvent
  split <;> rfl

@[simp] theorem nextEv_addEvent (w : World) (ev : ℕ) : (w.addEvent ev).nextEv = w.nextEv := by
  unfold addEvent
  split <;> rfl

@[simp] theorem freed_addEvent (w : World) (ev : ℕ) : (w.addEvent ev).freed = w.freed := by
  unfold addEvent
  split <;> rfl

@[simp] theorem mem_pending_addEvent (w : World) (ev x : ℕ) :
    x ∈ (w.addEvent ev).pending ↔ x ∈ w.pending ∨ x = ev := by
  unfold addEvent
  split
  · next hmem =>
      refine ⟨Or.inl, ?_⟩
      rintro (h | rfl)
      · exact h
      · exact hmem
  · simp

/-- Open two descriptors and close the second one. -/
theorem closeFd_openFd (w : World) (a b : Fd) :
    ((w.openFd a).openFd b).closeFd (w.fds.length + 1) =
      { w with
        fds := w.fds ++ [a, { b with closes := b.closes + 1 }]
        log := w.log ++ [.close (w.fds.length + 1 : ℕ)] } := by
  -- the second descriptor is the last one
  have hmodify : ∀ l : List Fd, (l ++ [a, b]).modify (l.length + 1)
      (fun fd => { fd with closes := fd.closes + 1 }) =
        l ++ [a, { b with closes := b.closes + 1 }] := by
    intro l
    induction l with
    | nil => rfl
    | cons x l ih => simpa using ih
  simp [openFd, closeFd, modifyFd, emit, hmodify]

theorem settled_closes_iff {w : World} : Ledger.Settled (List.range w.fds.length) w.closes ↔
    ∀ n < w.fds.length, w.closesOf n = 1 := by
  rw [closes, Ledger.settled_replicate_iff List.nodup_range]
  simp only [List.mem_range]

/-! ### Writing to descriptors -/

/-- `w'` is `w` after more was written to some descriptors. -/
structure Grows (w w' : World) : Prop where
  eq : w' = { w with fds := w'.fds }
  fds : ∀ (n : ℕ) (fd : Fd), w.fds[n]? = some fd →
    ∃ b, w'.fds[n]? = some { fd with content := fd.content ++ b }

theorem Grows.refl (w : World) : w.Grows w :=
  ⟨rfl, fun n fd h => ⟨[], by simpa using h⟩⟩

theorem Grows.trans {w w' w'' : World} (h : w.Grows w') (h' : w'.Grows w'') : w.Grows w'' := by
  refine ⟨?_, fun n fd hfd => ?_⟩
  · rw [h'.eq, h.eq]
  · obtain ⟨b, hb⟩ := h.fds n fd hfd
    obtain ⟨b', hb'⟩ := h'.fds n _ hb
    exact ⟨b ++ b', by simpa using hb'⟩

theorem writeFd_grows (w : World) (n : ℕ) (b : Bytes) : w.Grows (w.writeFd n b) := by
  unfold writeFd
  split
  · exact Grows.refl w
  · next peer _ =>
      refine ⟨rfl, fun m fd hfd => ?_⟩
      by_cases hm : peer = m
      · exact ⟨b, by simp [modifyFd, hm, hfd]⟩
      · exact ⟨[], by simp [modifyFd, hm, hfd]⟩

/-- A descriptor after others were written to and one was closed. -/
theorem Grows.closeFd {w w' : World} (h : w.Grows w') (m n : ℕ) (fd : Fd)
    (hfd : w.fds[n]? = some fd) : ∃ b k, (w'.closeFd m).fds[n]? =
      some { fd with content := fd.content ++ b, closes := fd.closes + k } ∧ (n ≠ m → k = 0) := by
  obtain ⟨b, hb⟩ := h.fds n fd hfd
  by_cases hm : m = n
  · refine ⟨b, 1, ?_, fun hne => absurd hm.symm hne⟩
    simp [World.closeFd, modifyFd, hm, hb]
  · refine ⟨b, 0, ?_, fun _ => rfl⟩
    simp [World.closeFd, modifyFd, hm, hb]

end World

end Gfhttpd
