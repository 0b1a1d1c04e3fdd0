import Gfhttpd.Http3.Conn
import Gfhttpd.Router.Spec

/-!
# What the steps of an HTTP/3 connection do

One inversion lemma for each function of a connection, and what follows about the fields the
proofs about runs look at.

- `WriteLoop`: the runs of the loop of `future_write_cb`
- `TickCases`: the ways `future_write_cb` ends, with `futureWriteCb_cases`
- `HeadersCases`: the ways a header block ends, with `onHeaders_cases`
- `ModuleTicked`: what a module event does, with `moduleTick_spec`
- `responseHeaders`: the fields of every response
-/

namespace Gfhttpd.Http3

open Http Conf Router Modules

variable {Code : Type}

/-! ## The loop of `future_write_cb` -/

/-- The writer after a chunk was read. -/
def FutureWrite.sawChunk (fw : FutureWrite) (n : ℤ) : FutureWrite :=
  { fw with eof := fw.eof || decide (wrap32 (fw.pos + n) ≥ fw.len) }

/-- The writer after part of a chunk was accepted. -/
def FutureWrite.accept (fw : FutureWrite) (n : ℤ) : FutureWrite :=
  { fw with pos := wrap32 (fw.pos + n) }

/-- The call of `quiche_h3_send_body` for a chunk. -/
def bodyCall (i : ℕ) (fw : FutureWrite) (fd : Fd) (ch : Chunk) : Effect :=
  .sendBody i fw.streamId fw.fd (Fd.body fd ch.read) ch.sent (fw.sawChunk ch.read).eof

/-- The runs of the loop of `future_write_cb` for the response number `i`. -/
inductive WriteLoop (i : ℕ) : List Chunk → FutureWrite → Fd → LoopResult → Prop
  | done {fw : FutureWrite} {fd : Fd} (hpos : ¬ fw.pos < fw.len) :
      WriteLoop i [] fw fd ⟨fw, fd, [], .sent⟩
  | failed {fw : FutureWrite} {fd : Fd} {ch : Chunk} (hpos : fw.pos < fw.len)
      (hread : ch.read = -1) :
      WriteLoop i [ch] fw fd ⟨fw.sawChunk ch.read, Fd.advance fd ch.read, [], .outOfBounds⟩
  | exited {fw : FutureWrite} {fd : Fd} {ch : Chunk} (hpos : fw.pos < fw.len)
      (hcan : Fd.canRead fd ch.read = true) (hread : ch.read ≠ -1) (hsent : ch.sent = -1) :
      WriteLoop i [ch] fw fd
        ⟨fw.sawChunk ch.read, Fd.advance fd ch.read, [bodyCall i fw fd ch], .exited⟩
  | again {fw : FutureWrite} {fd : Fd} {ch : Chunk} (hpos : fw.pos < fw.len)
      (hcan : Fd.canRead fd ch.read = true) (hread : ch.read ≠ -1) (hsent : ch.sent ≠ -1)
      (hpart : ch.sent < ch.read) :
      WriteLoop i [ch] fw fd
        ⟨(fw.sawChunk ch.read).accept ch.sent, Fd.advance fd ch.read, [bodyCall i fw fd ch],
          .again⟩
  | chunk {fw : FutureWrite} {fd : Fd} {ch : Chunk} {chunks : List Chunk} {r : LoopResult}
      (hpos : fw.pos < fw.len) (hcan : Fd.canRead fd ch.read = true) (hread : ch.read ≠ -1)
      (hsent : ch.sent = ch.read)
      (hrest : WriteLoop i chunks ((fw.sawChunk ch.read).accept ch.sent)
        (Fd.advance fd ch.read) r) :
      WriteLoop i (ch :: chunks) fw fd { r with effects := bodyCall i fw fd ch :: r.effects }

/-- A loop that ended is one of these runs. -/
theorem writeLoop_sound {i : ℕ} {chunks : List Chunk} {fw : FutureWrite} {fd : Fd}
    {r : LoopResult} (h : writeLoop i chunks fw fd = some r) : WriteLoop i chunks fw fd r := by
  induction chunks generalizing fw fd r with
  | nil =>
      by_cases hpos : fw.pos < fw.len
      · simp [writeLoop, hpos] at h
      · simp only [writeLoop, if_neg hpos, Option.some.injEq] at h
        exact h ▸ .done hpos
  | cons ch chunks ih =>
      simp only [writeLoop, Option.ite_none_left_eq_some, not_or, not_not] at h
      obtain ⟨⟨hpos, hcan⟩, h⟩ := h
      by_cases hread : ch.read = -1
      · simp only [if_pos hread, Option.ite_none_right_eq_some, Option.some.injEq] at h
        obtain ⟨rfl, rfl⟩ := h
        exact .failed hpos hread
      · simp only [if_neg hread, Option.ite_none_left_eq_some] at h
        obtain ⟨hle, h⟩ := h
        by_cases hexit : ch.sent = QUICHE_H3_ERR_DONE
        · simp only [if_pos hexit, Option.ite_none_right_eq_some, Option.some.injEq] at h
          obtain ⟨rfl, rfl⟩ := h
          exact .exited hpos hcan hread hexit
        · simp only [if_neg hexit] at h
          by_cases hpart : ch.sent = ch.read
          · -- a whole chunk: the loop goes on behind it
            rw [if_neg (not_not.mpr hpart)] at h
            split at h
            · cases h
            · next r' hrest =>
                obtain rfl := Option.some.inj h
                exact .chunk hpos hcan hread hpart (ih hrest)
          · simp only [ne_eq, hpart, not_false_eq_true, if_true, Option.ite_none_right_eq_some,
              Option.some.injEq] at h
            obtain ⟨rfl, rfl⟩ := h
            exact .again hpos hcan hread hexit (by omega)

/-- The loop keeps which response it is for. -/
theorem WriteLoop.frame {i : ℕ} {chunks : List Chunk} {fw : FutureWrite} {fd : Fd}
    {r : LoopResult} (h : WriteLoop i chunks fw fd r) :
    r.fw.streamId = fw.streamId ∧ r.fw.fd = fw.fd ∧ r.fw.len = fw.len ∧
      r.fw.scheduled = fw.scheduled ∧ r.fd = { fd with offset := r.fd.offset } := by
  induction h with
  | done hpos => exact ⟨rfl, rfl, rfl, rfl, rfl⟩
  | failed hpos hread => exact ⟨rfl, rfl, rfl, rfl, rfl⟩
  | exited hpos hcan hread hsent => exact ⟨rfl, rfl, rfl, rfl, rfl⟩
  | again hpos hcan hread hsent hpart => exact ⟨rfl, rfl, rfl, rfl, rfl⟩
  | chunk hpos hcan hread hsent hrest ih => exact ih

/-- The loop logs calls of `quiche_h3_send_body` for its response only. -/
theorem WriteLoop.effects {i : ℕ} {chunks : List Chunk} {fw : FutureWrite} {fd : Fd}
    {r : LoopResult} (h : WriteLoop i chunks fw fd r) :
    ∀ e ∈ r.effects, ∃ body written fin, e = .sendBody i fw.streamId fw.fd body written fin := by
  induction h with
  | done hpos => simp
  | failed hpos hread => simp
  | exited hpos hcan hread hsent =>
      intro e he
      obtain rfl := List.mem_singleton.mp he
      exact ⟨_, _, _, rfl⟩
  | again hpos hcan hread hsent hpart =>
      intro e he
      obtain rfl := List.mem_singleton.mp he
      exact ⟨_, _, _, rfl⟩
  | chunk hpos hcan hread hsent hrest ih =>
      intro e he
      rcases List.mem_cons.mp he with rfl | he
      · exact ⟨_, _, _, rfl⟩
      · exact ih e he

/-! ## The write event -/

namespace LoopResult

/-- `future_write_cb` goes on behind the loop. -/
def goesOn (r : LoopResult) : Bool :=
  r.ending == .sent || r.ending == .again

/-- `future_write_cb` closes the descriptor. -/
def closes (r : LoopResult) : Bool :=
  r.goesOn && r.fw.eof

/-- The writer behind `future_write_cb`. -/
def writer (r : LoopResult) : FutureWrite :=
  match r.ending with
  | .sent => { r.fw with scheduled := false }
  | .again => { r.fw with scheduled := !r.fw.eof }
  | .exited => r.fw
  | .outOfBounds => r.fw

end LoopResult

/-- The loop decides where the writer stands; behind it only `fw_event` is scheduled. -/
theorem LoopResult.writer_frame (r : LoopResult) :
    r.writer = { r.fw with scheduled := r.writer.scheduled } := by
  unfold LoopResult.writer
  split <;> rfl

@[simp] theorem LoopResult.writer_streamId (r : LoopResult) :
    r.writer.streamId = r.fw.streamId := by rw [r.writer_frame]
@[simp] theorem LoopResult.writer_fd (r : LoopResult) : r.writer.fd = r.fw.fd := by
  rw [r.writer_frame]
@[simp] theorem LoopResult.writer_pos (r : LoopResult) : r.writer.pos = r.fw.pos := by
  rw [r.writer_frame]
@[simp] theorem LoopResult.writer_len (r : LoopResult) : r.writer.len = r.fw.len := by
  rw [r.writer_frame]
@[simp] theorem LoopResult.writer_eof (r : LoopResult) : r.writer.eof = r.fw.eof := by
  rw [r.writer_frame]

/-- The connection behind the loop of `future_write_cb`. -/
def afterLoop (c : Conn) (i : ℕ) (r : LoopResult) (timer : Timeval) (timeoutPending : Bool) :
    Conn :=
  let w := c.world.modifyFd r.fw.fd fun _ => r.fd
  let w := { w with log := w.log ++ r.effects }
  { c with
    hs := { c.hs with timer := timer }
    writers := c.writers.modify i fun _ => r.writer
    timeoutPending := timeoutPending
    dead := c.dead || !r.goesOn
    world := if r.closes then w.closeFd r.fw.fd else w }

/-- `flush_egress` touches the connection's timeout only, and never takes it back. -/
theorem flushEgress_eq (c : Conn) (io : FlushIO) : ∃ timer timeoutPending,
    (c.timeoutPending = true → timeoutPending = true) ∧ flushEgress c io =
      { c with hs := { c.hs with timer := timer }, timeoutPending := timeoutPending } := by
  unfold flushEgress setTimeout
  split
  · split
    · exact ⟨_, _, fun _ => rfl, rfl⟩
    · exact ⟨c.hs.timer, c.timeoutPending, id, rfl⟩
  · exact ⟨c.hs.timer, c.timeoutPending, id, rfl⟩

/-- `future_write_cb` from `lseek` on. -/
theorem writeBody_cases {c c' : Conn} {i : ℕ} {fw : FutureWrite} {io : TickIO}
    (h : writeBody c i fw io = some c') : ∃ fd r timer timeoutPending,
      (c.timeoutPending = true → timeoutPending = true) ∧
      c.world.fds[fw.fd]? = some fd ∧ WriteLoop i io.chunks fw (fd.seek fw.pos) r ∧
      c' = afterLoop c i r timer timeoutPending := by
  unfold writeBody at h
  cases hfd : c.world.fds[fw.fd]? with
  | none => simp [hfd] at h
  | some fd =>
      cases hloop : writeLoop i io.chunks fw (fd.seek fw.pos) with
      | none => simp [hfd, hloop] at h
      | some r =>
          simp only [hfd, hloop, Option.some.injEq] at h
          have hrun := writeLoop_sound hloop
          obtain ⟨-, hfw, -⟩ := hrun.frame
          subst h
          rw [← hfw]
          -- only a loop that ended well, or waits, gets to `flush_egress`
          cases hend : r.ending with
          | exited | outOfBounds =>
              refine ⟨fd, r, c.hs.timer, c.timeoutPending, id, rfl, hrun, ?_⟩
              simp [finishWrite, hend, afterLoop, LoopResult.goesOn, LoopResult.closes,
                LoopResult.writer, Conn.die, Conn.modifyWriter]
          | again | sent =>
              obtain ⟨timer, pending, hpending, hflush⟩ := flushEgress_eq
                { c with world := { c.world.modifyFd r.fw.fd fun _ => r.fd with
                    log := (c.world.modifyFd r.fw.fd fun _ => r.fd).log ++ r.effects } } io.flush
              refine ⟨fd, r, timer, pending, hpending, rfl, hrun, ?_⟩
              simp only [finishWrite, hend, hflush, afterLoop, LoopResult.goesOn,
                LoopResult.closes, LoopResult.writer, Conn.modifyWriter]
              cases heof : r.fw.eof <;> simp

/-- The connection after `quiche_h3_send_response`. -/
def sentHeaders (c : Conn) (streamId : ℤ) (headers : List Header) (array : List (Bytes × Bytes)) :
    Conn :=
  { c with
    hs := { c.hs with response := { c.hs.response with headers := headers, headersSent := true } }
    world := c.world.emit (.sendResponse streamId array) }

/-- The ways `future_write_cb` ends for the response number `i`, which is `fw`. -/
inductive TickCases (c : Conn) (i : ℕ) (fw : FutureWrite) (io : TickIO) : Conn → Prop
  /-- the event is not made again -/
  | closed (hclosed : c.closed = true) :
      TickCases c i fw io (c.modifyWriter i fun _ => { fw with scheduled := false })
  /-- `get_http3_headers` fails -/
  | noHeaders (hopen : c.closed = false) (hunsent : c.hs.response.headersSent = false)
      (hlen : c.hs.response.contentLenght ≠ SIZE_MAX)
      (hnone : getHttp3Headers c.hs.response.headers c.hs.response.httpStatus
        c.hs.response.contentLenght = none) :
      TickCases c i fw io c.die
  /-- the headers are sent in this tick, and fix the length of the body -/
  | first (hopen : c.closed = false) (hunsent : c.hs.response.headersSent = false)
      (hlen : c.hs.response.contentLenght ≠ SIZE_MAX) {headers : List Header}
      {array : List (Bytes × Bytes)}
      (hheaders : getHttp3Headers c.hs.response.headers c.hs.response.httpStatus
        c.hs.response.contentLenght = some (headers, array)) {c' : Conn}
      (hbody : writeBody (sentHeaders c fw.streamId headers array) i
        { fw with scheduled := false, len := wrap32 c.hs.response.contentLenght } io = some c') :
      TickCases c i fw io c'
  /-- the length is not known yet, so the event is made again -/
  | deferred (hopen : c.closed = false) (hunsent : c.hs.response.headersSent = false)
      (hlen : c.hs.response.contentLenght = SIZE_MAX) :
      TickCases c i fw io (c.modifyWriter i fun _ => { fw with scheduled := true })
  | next (hopen : c.closed = false) (hsent : c.hs.response.headersSent = true) {c' : Conn}
      (hbody : writeBody c i { fw with scheduled := false } io = some c') :
      TickCases c i fw io c'

/-- Every way `future_write_cb` ends. -/
theorem futureWriteCb_cases {c c' : Conn} {i : ℕ} {io : TickIO}
    (h : futureWriteCb c i io = some c') : ∃ fw, c.writers[i]? = some fw ∧
      TickCases c i fw io c' := by
  unfold futureWriteCb at h
  cases hfw : c.writers[i]? with
  | none => simp [hfw] at h
  | some fw =>
      refine ⟨fw, rfl, ?_⟩
      simp only [hfw] at h
      cases hclosed : c.closed with
      | true =>
          rw [if_pos hclosed] at h
          simp only [Option.ite_none_right_eq_some, Option.some.injEq] at h
          exact h.2 ▸ .closed hclosed
      | false =>
          rw [if_neg (by simp [hclosed])] at h
          cases hsent : c.hs.response.headersSent with
          | true =>
              rw [if_neg (by simp [hsent]), if_neg (by simp [hsent])] at h
              exact .next hclosed hsent h
          | false =>
              by_cases hlen : c.hs.response.contentLenght = SIZE_MAX
              · rw [if_neg (fun hboth => hboth.2 hlen), if_pos hsent] at h
                simp only [Option.ite_none_right_eq_some, Option.some.injEq] at h
                exact h.2 ▸ .deferred hclosed hsent hlen
              · rw [if_pos ⟨hsent, hlen⟩] at h
                cases hheaders : getHttp3Headers c.hs.response.headers c.hs.response.httpStatus
                    c.hs.response.contentLenght with
                | none =>
                    simp only [hheaders, Option.ite_none_right_eq_some, Option.some.injEq] at h
                    exact h.2 ▸ .noHeaders hclosed hsent hlen hheaders
                | some p =>
                    obtain ⟨headers, array⟩ := p
                    simp only [hheaders] at h
                    exact .first hclosed hsent hlen hheaders h

theorem afterLoop_log (c : Conn) (i : ℕ) (r : LoopResult) (timer : Timeval)
    (timeoutPending : Bool) : (afterLoop c i r timer timeoutPending).world.log =
      c.world.log ++ r.effects ++ (if r.closes then [.close r.fw.fd] else []) := by
  cases hcloses : r.closes with
  | false => simp [afterLoop, hcloses, World.modifyFd]
  | true => simp [afterLoop, hcloses, World.closeFd, World.modifyFd]

theorem afterLoop_pending (c : Conn) (i : ℕ) (r : LoopResult) (timer : Timeval)
    (timeoutPending : Bool) :
    (afterLoop c i r timer timeoutPending).world.pending = c.world.pending := by
  unfold afterLoop
  simp only
  split <;> rfl

theorem afterLoop_fds_self {c : Conn} {r : LoopResult} {fd : Fd} (i : ℕ) (timer : Timeval)
    (timeoutPending : Bool) (h : c.world.fds[r.fw.fd]? = some fd) :
    (afterLoop c i r timer timeoutPending).world.fds[r.fw.fd]? =
      some { r.fd with closes := r.fd.closes + (if r.closes then 1 else 0) } := by
  cases hcloses : r.closes with
  | false => simp [afterLoop, hcloses, World.modifyFd, h]
  | true => simp [afterLoop, hcloses, World.closeFd, World.modifyFd, h]

theorem afterLoop_fds_of_ne {c : Conn} {r : LoopResult} {n : ℕ} (i : ℕ) (timer : Timeval)
    (timeoutPending : Bool) (h : n ≠ r.fw.fd) :
    (afterLoop c i r timer timeoutPending).world.fds[n]? = c.world.fds[n]? := by
  cases hcloses : r.closes with
  | false => simp [afterLoop, hcloses, World.modifyFd, h.symm]
  | true => simp [afterLoop, hcloses, World.closeFd, World.modifyFd, h.symm]

/-- What `future_write_cb` logs for the response number `i`, on this stream and from this
descriptor. -/
def IsWriting (i : ℕ) (streamId : ℤ) (fd : ℕ) : Effect → Prop
  | .sendResponse stream _ => stream = streamId
  | .sendBody j stream from_ _ _ _ => j = i ∧ stream = streamId ∧ from_ = fd
  | .close closed => closed = fd
  | _ => False

theorem writeBody_log {c c' : Conn} {i : ℕ} {fw : FutureWrite} {io : TickIO}
    (h : writeBody c i fw io = some c') :
    ∃ es, (∀ e ∈ es, IsWriting i fw.streamId fw.fd e) ∧ c'.world.log = c.world.log ++ es := by
  obtain ⟨fd, r, timer, pending, -, -, hrun, rfl⟩ := writeBody_cases h
  obtain ⟨-, hfd, -⟩ := hrun.frame
  refine ⟨r.effects ++ (if r.closes then [.close r.fw.fd] else []), fun e he => ?_, ?_⟩
  · rcases List.mem_append.mp he with he | he
    · obtain ⟨body, written, fin, rfl⟩ := hrun.effects e he
      exact ⟨rfl, rfl, rfl⟩
    · split at he
      · obtain rfl := List.mem_singleton.mp he
        exact congrArg _ hfd
      · cases he
  · rw [afterLoop_log, List.append_assoc]

theorem TickCases.log {c c' : Conn} {i : ℕ} {fw : FutureWrite} {io : TickIO}
    (h : TickCases c i fw io c') :
    ∃ es, (∀ e ∈ es, IsWriting i fw.streamId fw.fd e) ∧ c'.world.log = c.world.log ++ es := by
  cases h with
  | closed hclosed => exact ⟨[], by simp, by simp [Conn.modifyWriter]⟩
  | noHeaders hopen hunsent hlen hnone => exact ⟨[], by simp, by simp [Conn.die]⟩
  | deferred hopen hunsent hlen => exact ⟨[], by simp, by simp [Conn.modifyWriter]⟩
  | next hopen hsent hbody =>
      obtain ⟨es, hes, hlog⟩ := writeBody_log hbody
      exact ⟨es, hes, hlog⟩
  | @first _ _ _ headers array hheaders _ hbody =>
      obtain ⟨es, hes, hlog⟩ := writeBody_log hbody
      refine ⟨.sendResponse fw.streamId array :: es, fun e he => ?_, ?_⟩
      · rcases List.mem_cons.mp he with rfl | he
        · rfl
        · exact hes e he
      · rw [hlog]
        simp [sentHeaders]

/-! ## Receiving a request -/

/-- The world when `root_router` is called. -/
def routerWorld (c : Conn) (streamId : ℤ) (block : List (Bytes × Bytes)) : World :=
  c.world.emit (.rootRouter streamId block (prepareRequest block c.hs).request.url)

/-- What `root_router` returns for a header block. -/
def routed (routes : List (Route Code)) (io : RouterIO Code) (c : Conn) (streamId : ℤ)
    (block : List (Bytes × Bytes)) : RouterResult :=
  rootRouter (prepareRequest block c.hs).evbase routes io (prepareRequest block c.hs)
    (routerWorld c streamId block)

/-- The `future_write` of a new response. -/
def newWriter (streamId : ℤ) (fd : ℕ) : FutureWrite where
  streamId := streamId
  fd := fd
  pos := 0
  len := -1
  eof := false
  scheduled := true

/-- The connection after a request that gets no response. -/
structure Unanswered (c : Conn) (streamId : ℤ) (block : List (Bytes × Bytes)) (c' : Conn) :
    Prop where
  writers : c'.writers = c.writers
  moduleEvs : c'.moduleEvs = c.moduleEvs
  closed : c'.closed = c.closed
  timeout : c'.timeoutPending = c.timeoutPending
  response : ∃ fd : ℕ, c'.hs.response =
    { (prepareRequest block c.hs).response with fd := fd, contentLenght := SIZE_MAX }
  log : ∃ es, (∀ e ∈ es, IsRouting (prepareRequest block c.hs).request.url e) ∧
    c'.world.log = (routerWorld c streamId block).log ++ es
  fds : ∃ new, c'.world.fds = c.world.fds ++ new
  pending : c'.world.pending = c.world.pending
  freed : c'.world.freed = c.world.freed
  nextEv : c.world.nextEv ≤ c'.world.nextEv
  hs : ∃ (moduleCbEv : Option ℕ) (chain : List Module) (url : Option Bytes) (fd : ℕ),
    c'.hs = { prepareRequest block c.hs with
      moduleCbEv := moduleCbEv
      request := { (prepareRequest block c.hs).request with modulesChain := chain, modulesUrl := url }
      response := { (prepareRequest block c.hs).response with fd := fd } }
  event : c'.hs.moduleCbEv = c.hs.moduleCbEv ∨
    c'.hs.moduleCbEv = some c.world.nextEv ∧ c.world.nextEv < c'.world.nextEv

/-- The ways the `QUICHE_H3_EVENT_HEADERS` branch ends. -/
inductive HeadersCases (c : Conn) (streamId : ℤ) (block : List (Bytes × Bytes)) : Conn → Prop
  | unanswered {c' : Conn} (h : Unanswered c streamId block c') : HeadersCases c streamId block c'
  | module (es : List Effect)
      (hes : ∀ e ∈ es, IsRouting (prepareRequest block c.hs).request.url e)
      (chain : List Module) (url : Option Bytes) :
      HeadersCases c streamId block
        { c with
          hs := moduleStream (prepareRequest block c.hs) c.world chain url
          writers := c.writers ++ [newWriter streamId c.world.fds.length]
          moduleEvs := c.moduleEvs ++ [(c.world.nextEv, streamId)]
          world :=
            ({ routerWorld c streamId block with
                fds := c.world.fds ++ socketEnds c.world
                nextEv := c.world.nextEv + 1
                log := (routerWorld c streamId block).log ++ es }.addEvent c.world.nextEv).emit
              (.routed streamId c.world.fds.length .module) }
  | file (es : List Effect)
      (hes : ∀ e ∈ es, IsRouting (prepareRequest block c.hs).request.url e) (f : OpenFile) :
      HeadersCases c streamId block
        { c with
          hs := lengthStream (prepareRequest block c.hs) (toSizeT (wrap32 f.size))
          writers := c.writers ++ [newWriter streamId c.world.fds.length]
          world :=
            { routerWorld c streamId block with
                fds := c.world.fds ++ [Fd.mk f.kind f.content 0 none 0]
                log := (routerWorld c streamId block).log ++ es }.emit
              (.routed streamId c.world.fds.length (.file f.size)) }
  | notFound (es : List Effect)
      (hes : ∀ e ∈ es, IsRouting (prepareRequest block c.hs).request.url e) (page : Bytes)
      (hpage : page.length ≤ ERROR_HTML.length) :
      HeadersCases c streamId block
        { c with
          hs := notFoundStream (prepareRequest block c.hs) page.length
          writers := c.writers ++ [newWriter streamId c.world.fds.length]
          world :=
            { routerWorld c streamId block with
                fds := c.world.fds ++ pipeEnds c.world page
                log := (routerWorld c streamId block).log ++ es }.emit
              (.routed streamId c.world.fds.length (.notFound page.length)) }

/-- The new response is behind the others. -/
theorem getElem?_append_new {l : List FutureWrite} {new fw : FutureWrite} {i : ℕ}
    (h : (l ++ [new])[i]? = some fw) : l[i]? = some fw ∨ i = l.length ∧ fw = new := by
  by_cases hlt : i < l.length
  · exact Or.inl (by rwa [List.getElem?_append_left hlt] at h)
  · rw [List.getElem?_append_right (Nat.le_of_not_lt hlt)] at h
    obtain ⟨hzero, -⟩ := List.getElem?_eq_some_iff.mp h
    have hlen : i = l.length := by
      simp only [List.length_singleton] at hzero
      omega
    exact Or.inr ⟨hlen, List.mem_singleton.mp (List.mem_of_getElem? h)⟩

/-- A response that is there is the only one of a connection with at most one. -/
theorem writers_eq_singleton {l : List FutureWrite} (hmost : l.length ≤ 1) {fw : FutureWrite}
    (h : fw ∈ l) : l = [fw] := by
  cases l with
  | nil => cases h
  | cons fw' rest =>
      have hnone : rest.length = 0 := Nat.le_zero.mp (Nat.le_of_succ_le_succ hmost)
      obtain rfl := List.eq_nil_of_length_eq_zero hnone
      rw [List.mem_singleton.mp h]

theorem prepareRequest_length (block : List (Bytes × Bytes)) (hs : HttpStream) :
    (prepareRequest block hs).response.contentLenght = SIZE_MAX := by
  show toSizeT (-1) = SIZE_MAX
  decide

/-- A `:path` sets the `url`, and its result says whether it is accepted. -/
theorem forEachHeader_path (hs : HttpStream) (v : Bytes) :
    forEachHeader hs (ascii ":path") v =
      (if checkPath (strndup v v.length) then 0 else 1,
        { hs with request := { hs.request with url := some (strndup v v.length) } }) := by
  have hhead : (ascii ":path").head? = some 58 := by decide
  have htail : (ascii ":path").tail = ascii "path" := by decide
  simp only [forEachHeader, hhead, htail, if_true]

/-- `for_each_header` changes the request only. -/
theorem forEachHeader_frame (hs : HttpStream) (name value : Bytes) :
    ∃ request, (forEachHeader hs name value).2 = { hs with request := request } := by
  unfold forEachHeader
  split
  · split
    · exact ⟨_, rfl⟩
    · split
      · exact ⟨_, rfl⟩
      · split
        · exact ⟨_, rfl⟩
        · split
          · exact ⟨_, rfl⟩
          · exact ⟨hs.request, rfl⟩
  · exact ⟨_, rfl⟩

theorem forEachHeaderLoop_frame (block : List (Bytes × Bytes)) (hs : HttpStream) :
    ∃ request, (forEachHeaderLoop block hs).2 = { hs with request := request } := by
  induction block generalizing hs with
  | nil => exact ⟨hs.request, rfl⟩
  | cons f fs ih =>
      obtain ⟨request, hone⟩ := forEachHeader_frame hs f.1 f.2
      simp only [forEachHeaderLoop]
      split
      · exact ⟨request, hone⟩
      · rw [hone]
        obtain ⟨request', hrest⟩ := ih { hs with request := request }
        exact ⟨request', hrest⟩

/-- What `root_router` is given besides the request. -/
theorem prepareRequest_frame (block : List (Bytes × Bytes)) (hs : HttpStream) :
    ∃ request, prepareRequest block hs =
      { hs with
        request := request
        response := { hs.response with
          headers := initResponse hs.response.headers, contentLenght := SIZE_MAX } } := by
  obtain ⟨request, hloop⟩ := forEachHeaderLoop_frame block hs
  refine ⟨request, ?_⟩
  have hlen : toSizeT (-1) = SIZE_MAX := by decide
  simp only [prepareRequest, hloop, hlen]

/-- The next response begins from what is left of the last one. -/
theorem prepareRequest_status (block : List (Bytes × Bytes)) (hs : HttpStream) :
    (prepareRequest block hs).response.httpStatus = hs.response.httpStatus ∧
      (prepareRequest block hs).response.headersSent = hs.response.headersSent ∧
      (prepareRequest block hs).response.headers = initResponse hs.response.headers ∧
      (prepareRequest block hs).evbase = hs.evbase := by
  obtain ⟨request, hframe⟩ := prepareRequest_frame block hs
  rw [hframe]
  exact ⟨rfl, rfl, rfl, rfl⟩

/-- A request whose `root_router` leaves the stream's answer alone gets no response. -/
theorem Unanswered.intro {c : Conn} {streamId : ℤ} {block : List (Bytes × Bytes)}
    {hs : HttpStream} {w : World} {dead : Bool} {chain : List Module} {url : Option Bytes}
    {fd : ℕ} {moduleCbEv : Option ℕ} {es : List Effect}
    (hhs : hs = { prepareRequest block c.hs with
      moduleCbEv := moduleCbEv
      request := { (prepareRequest block c.hs).request with modulesChain := chain, modulesUrl := url }
      response := { (prepareRequest block c.hs).response with fd := fd } })
    (hes : ∀ e ∈ es, IsRouting (prepareRequest block c.hs).request.url e)
    (hlog : w.log = (routerWorld c streamId block).log ++ es)
    (hfds : ∃ new, w.fds = c.world.fds ++ new) (hpending : w.pending = c.world.pending)
    (hfreed : w.freed = c.world.freed) (hnext : c.world.nextEv ≤ w.nextEv)
    (hevent : moduleCbEv = c.hs.moduleCbEv ∨
      moduleCbEv = some c.world.nextEv ∧ c.world.nextEv < w.nextEv) :
    Unanswered c streamId block { c with hs := hs, world := w, dead := dead } := by
  obtain ⟨request, hframe⟩ := prepareRequest_frame block c.hs
  refine ⟨rfl, rfl, rfl, rfl, ⟨fd, ?_⟩, ⟨es, hes, hlog⟩, hfds, hpending, hfreed, hnext,
    ⟨moduleCbEv, chain, url, fd, hhs⟩, ?_⟩
  · simp [hhs, hframe]
  · rw [hhs]
    exact hevent

theorem lengthStream_sizeMax (block : List (Bytes × Bytes)) (hs : HttpStream) :
    lengthStream (prepareRequest block hs) SIZE_MAX = prepareRequest block hs := by
  obtain ⟨request, hframe⟩ := prepareRequest_frame block hs
  simp [lengthStream, hframe]

/-- Every way the `QUICHE_H3_EVENT_HEADERS` branch ends. -/
theorem onHeaders_cases (routes : List (Route Code)) (io : RouterIO Code) (c : Conn)
    (streamId : ℤ) (block : List (Bytes × Bytes)) :
    HeadersCases c streamId block (onHeaders routes io c streamId block) := by
  have hcases := rootRouter_cases (prepareRequest block c.hs).evbase routes io
    (prepareRequest block c.hs) (routerWorld c streamId block)
  show HeadersCases c streamId block (onRouted c streamId _)
  unfold routerWorld at hcases
  have hevent : (prepareRequest block c.hs).moduleCbEv = c.hs.moduleCbEv := by
    obtain ⟨request, hframe⟩ := prepareRequest_frame block c.hs
    rw [hframe]
  generalize rootRouter (prepareRequest block c.hs).evbase routes io _ _ = r at hcases ⊢
  -- in the first four `root_router` answers -1, and nothing is sent
  cases hcases with
  | fault es hes =>
      exact .unanswered (.intro rfl hes rfl ⟨[], by simp⟩ rfl rfl le_rfl (Or.inl hevent))
  | noSocket es hes new =>
      exact .unanswered (.intro rfl hes rfl ⟨new, rfl⟩ rfl rfl le_rfl (Or.inl hevent))
  | noTimer es hes chain url =>
      exact .unanswered (.intro rfl hes rfl ⟨_, rfl⟩ rfl rfl (Nat.le_succ _)
        (Or.inr ⟨rfl, Nat.lt_succ_self _⟩))
  | noError es hes new n =>
      rw [lengthStream_sizeMax]
      exact .unanswered (.intro rfl hes rfl ⟨new, rfl⟩ rfl rfl le_rfl (Or.inl hevent))
  | module es hes chain url => exact .module es hes chain url
  | file es hes f => exact .file es hes f
  | notFound es hes page hpage => exact .notFound es hes page hpage

/-- What a header block logs. -/
theorem HeadersCases.log {c c' : Conn} {streamId : ℤ} {block : List (Bytes × Bytes)}
    (h : HeadersCases c streamId block c') : ∃ es last,
      (∀ e ∈ es, IsRouting (prepareRequest block c.hs).request.url e) ∧
      (last = [] ∨ ∃ fd outcome, last = [Effect.routed streamId fd outcome]) ∧
      c'.world.log = (routerWorld c streamId block).log ++ es ++ last := by
  cases h with
  | unanswered h =>
      obtain ⟨es, hes, hlog⟩ := h.log
      exact ⟨es, [], hes, Or.inl rfl, by simpa using hlog⟩
  | module es hes chain url =>
      refine ⟨es, [.routed streamId c.world.fds.length .module], hes, Or.inr ⟨_, _, rfl⟩, ?_⟩
      rw [World.log_emit, World.log_addEvent]
  | file es hes f => exact ⟨es, _, hes, Or.inr ⟨_, _, rfl⟩, rfl⟩
  | notFound es hes page hpage => exact ⟨es, _, hes, Or.inr ⟨_, _, rfl⟩, rfl⟩

/-! ## A module event -/

/-- What is logged for a module run that set this status and length. -/
def answerEffects (stream : ℤ) : Option (Bytes × ℕ) → List Effect
  | none => []
  | some (status, length) => [.answered stream status length]

/-- The connection behind the module event `ev`, when the module run set `answer`. -/
structure ModuleTicked (c : Conn) (ev : ℕ) (answer : Option (Bytes × ℕ)) (c' : Conn) : Prop where
  stream : ∃ moduleCbEv chain status length, c'.hs =
    { c.hs with
      moduleCbEv := moduleCbEv
      request := { c.hs.request with modulesChain := chain }
      response := { c.hs.response with httpStatus := status, contentLenght := length } }
  silent : answer = none → c'.hs.response = c.hs.response
  written : ∀ status length, answer = some (status, length) →
    c'.hs.response.httpStatus = some status ∧ c'.hs.response.contentLenght = length
  log : ∃ closes, (closes = [] ∨ closes = [Effect.close c.hs.response.fd]) ∧
    c'.world.log = c.world.log ++ closes ++ answerEffects (c.eventStream ev) answer
  /-- only the module's end of the socket pair is closed -/
  fds : ∀ (n : ℕ) (fd : Fd), c.world.fds[n]? = some fd → ∃ b k, c'.world.fds[n]? =
    some { fd with content := fd.content ++ b, closes := fd.closes + k } ∧
      (n ≠ c.hs.response.fd → k = 0)
  pending : ∀ x ∈ c'.world.pending,
    x ∈ c.world.pending ∨ x = c.world.nextEv ∧ c'.hs.moduleCbEv = some x
  nextEv : c.world.nextEv ≤ c'.world.nextEv
  event : c'.hs.moduleCbEv = c.hs.moduleCbEv ∨
    c'.hs.moduleCbEv = some c.world.nextEv ∧ c.world.nextEv < c'.world.nextEv
  freed : ∀ x ∈ c'.world.freed, x ∈ c.world.freed ∨ c.hs.moduleCbEv = some x
  writers : c'.writers = c.writers
  closed : c'.closed = c.closed
  /-- an event made for the rest of the chain belongs to the same stream -/
  owner : ∀ e ∈ c'.moduleEvs, e ∈ c.moduleEvs ∨ e.2 = c.eventStream ev
  kept : ∀ e ∈ c.moduleEvs, e ∈ c'.moduleEvs
  made : ∀ new, c'.hs.moduleCbEv = some new → c'.hs.moduleCbEv ≠ c.hs.moduleCbEv →
    (new, c.eventStream ev) ∈ c'.moduleEvs

/-- The module events behind `module_cb`: those there were, and the one that is new. -/
theorem afterModule_events (c : Conn) (stream : ℤ) (r : ModuleResult) :
    (∀ e ∈ (afterModule c stream r).moduleEvs, e ∈ c.moduleEvs ∨ e.2 = stream) ∧
    (∀ e ∈ c.moduleEvs, e ∈ (afterModule c stream r).moduleEvs) ∧
    ∀ ev, r.hs.moduleCbEv = some ev → r.hs.moduleCbEv ≠ c.hs.moduleCbEv →
      (ev, stream) ∈ (afterModule c stream r).moduleEvs := by
  cases hnew : r.hs.moduleCbEv with
  | none =>
      have hevs : (afterModule c stream r).moduleEvs = c.moduleEvs := by
        simp only [afterModule, hnew]
      rw [hevs]
      exact ⟨fun _ he => Or.inl he, fun _ he => he, fun _ h => by cases h⟩
  | some new =>
      by_cases hsame : r.hs.moduleCbEv = c.hs.moduleCbEv
      · -- the chain is at its end
        have hevs : (afterModule c stream r).moduleEvs = c.moduleEvs := by
          simp only [afterModule, hnew]
          exact if_pos (hnew.symm.trans hsame)
        rw [hevs]
        refine ⟨fun _ he => Or.inl he, fun _ he => he, fun _ _ hne => ?_⟩
        exact absurd (hnew.symm.trans hsame) hne
      · have hevs : (afterModule c stream r).moduleEvs = c.moduleEvs ++ [(new, stream)] := by
          simp only [afterModule, hnew]
          exact if_neg fun h => hsame (hnew.trans h)
        rw [hevs]
        refine ⟨fun e he => ?_, fun e he => List.mem_append_left _ he, fun ev hev _ => ?_⟩
        · rcases List.mem_append.mp he with he | he
          · exact Or.inl he
          · rw [List.mem_singleton.mp he]
            exact Or.inr rfl
        · obtain rfl := Option.some.inj hev
          exact List.mem_append_right _ (List.mem_singleton.mpr rfl)

/-- Only the log of the world shows the answer. -/
theorem afterModule_world (c : Conn) (stream : ℤ) (r : ModuleResult) :
    (afterModule c stream r).world =
      { r.world with log := r.world.log ++ answerEffects stream r.answer } := by
  cases hanswer : r.answer with
  | none => simp [afterModule, hanswer, answerEffects]
  | some a => simp [afterModule, hanswer, answerEffects, World.emit]

/-- What a module event does. -/
theorem moduleTick_spec (c : Conn) (ev : ℕ) (io : ModuleIO) :
    ModuleTicked c ev (moduleCb io c.hs (c.world.delEvent ev)).answer (moduleTick c ev io) := by
  have hframe := moduleCb_frame io c.hs (c.world.delEvent ev)
  unfold moduleTick
  generalize moduleCb io c.hs (c.world.delEvent ev) = r at hframe ⊢
  have hworld := afterModule_world c (c.eventStream ev) r
  obtain ⟨howner, hkept, hmade⟩ := afterModule_events c (c.eventStream ev) r
  refine ⟨hframe.stream, hframe.silent, hframe.written, ?_, ?_, fun x hx => ?_, ?_, ?_, ?_, rfl,
    rfl, howner, hkept, hmade⟩
  · rw [hworld]
    rcases hframe.log with hlog | hlog
    · exact ⟨[], Or.inl rfl, by rw [hlog, List.append_nil]; rfl⟩
    · exact ⟨_, Or.inr rfl, by rw [hlog]; rfl⟩
  · rw [hworld]
    exact hframe.fds
  · rw [hworld] at hx
    exact (hframe.pending x hx).imp_left fun hx => (List.mem_filter.mp hx).1
  · rw [hworld]
    exact hframe.nextEv
  · rw [hworld]
    exact hframe.event
  · rw [hworld]
    exact hframe.freed

/-- There is a status behind a module event if there was one before. -/
theorem ModuleTicked.status {c c' : Conn} {ev : ℕ} {answer : Option (Bytes × ℕ)}
    (h : ModuleTicked c ev answer c') (hstatus : c.hs.response.httpStatus.isSome) :
    c'.hs.response.httpStatus.isSome := by
  cases answer with
  | none =>
      rw [h.silent rfl]
      exact hstatus
  | some a =>
      rw [(h.written a.1 a.2 rfl).1]
      rfl

/-- The effects a module event logs. -/
def IsModule : Effect → Prop
  | .close _ => True
  | .answered _ _ _ => True
  | _ => False

theorem moduleTick_log (c : Conn) (ev : ℕ) (io : ModuleIO) :
    ∃ es, (∀ e ∈ es, IsModule e) ∧ (moduleTick c ev io).world.log = c.world.log ++ es := by
  obtain ⟨closes, hcloses, hlog⟩ := (moduleTick_spec c ev io).log
  refine ⟨closes ++ answerEffects _ _, fun e he => ?_, by rw [hlog, List.append_assoc]⟩
  rcases List.mem_append.mp he with he | he
  · rcases hcloses with rfl | rfl
    · cases he
    · obtain rfl := List.mem_singleton.mp he
      trivial
  · cases hanswer : (moduleCb io c.hs (c.world.delEvent ev)).answer with
    | none =>
        rw [hanswer] at he
        cases he
    | some a =>
        rw [hanswer] at he
        obtain rfl := List.mem_singleton.mp he
        trivial

/-! ## The fields of a response -/

/-- The table of response headers after the first request. -/
def responseTable (status : Bytes) (nStatus : ℕ) (length : Bytes) (nLength : ℕ) : List Header :=
  [⟨ascii ":status", 7, status, nStatus⟩, serverHeader,
    ⟨ascii "content-length", 14, length, nLength⟩]

/-- The fields of a response with this status and content length. -/
def responseHeaders (status : Bytes) (len : ℕ) : List (Bytes × Bytes) :=
  [(ascii ":status", status), (ascii "server", ascii "quiche"),
    (ascii "content-length", formatSize len)]

/-- The table of response headers is empty or holds the three entries. -/
def TableOk (headers : List Header) : Prop :=
  headers = [] ∨ ∃ status nStatus length nLength,
    headers = responseTable status nStatus length nLength

theorem initResponse_table {headers : List Header} (h : TableOk headers) :
    initResponse headers = responseTable (ascii "200") 3 (ascii "5") 1 := by
  rcases h with rfl | ⟨status, nStatus, length, nLength, rfl⟩
  · rfl
  · rfl

theorem TableOk.init {headers : List Header} (h : TableOk headers) :
    TableOk (initResponse headers) :=
  Or.inr ⟨_, _, _, _, initResponse_table h⟩

/-- The fields sent with a response are its status and its content length. -/
theorem getHttp3Headers_table (status : Bytes) (nStatus : ℕ) (length : Bytes) (nLength : ℕ)
    (httpStatus : Bytes) (len : ℕ) :
    getHttp3Headers (responseTable status nStatus length nLength) (some httpStatus) len =
      some (responseTable httpStatus httpStatus.length (formatSize len) (formatSize len).length,
        responseHeaders httpStatus len) := by
  have hstatus : strncasecmpEq (ascii ":status") (ascii ":status") 7 = true := by decide
  have hserver : strncasecmpEq (ascii "server") (ascii ":status") 6 = false := by decide
  have hserver' : strncasecmpEq (ascii "server") (ascii "content-length") 6 = false := by decide
  have hlength : strncasecmpEq (ascii "content-length") (ascii ":status") 14 = false := by decide
  have hlength' : strncasecmpEq (ascii "content-length") (ascii "content-length") 14 = true := by
    decide
  have htake : ∀ b : Bytes, b.take b.length = b := fun b => List.take_length
  simp [getHttp3Headers, responseTable, responseHeaders, lengthHeader, fillHeader, serverHeader,
    hstatus, hserver, hserver', hlength, hlength', htake]
  decide

/-! ## One event -/

theorem connStep_headers {routes : List (Route Code)} {c c' : Conn} {streamId : ℤ}
    {block : List (Bytes × Bytes)} {io : RouterIO Code}
    (h : connStep routes c (.headers streamId block io) = some c') :
    c.dead = false ∧ c.closed = false ∧ HeadersCases c streamId block c' := by
  simp only [connStep, Option.ite_none_left_eq_some, Option.some.injEq, Bool.or_eq_true, not_or,
    Bool.not_eq_true] at h
  obtain ⟨⟨hdead, hclosed⟩, rfl⟩ := h
  exact ⟨hdead, hclosed, onHeaders_cases routes io c streamId block⟩

theorem connStep_writeTick {routes : List (Route Code)} {c c' : Conn} {i : ℕ} {io : TickIO}
    (h : connStep routes c (.writeTick i io) = some c') :
    c.dead = false ∧ ∃ fw, c.writers[i]? = some fw ∧ fw.scheduled = true ∧
      TickCases c i fw io c' := by
  simp only [connStep, Option.ite_none_left_eq_some, Bool.or_eq_true, not_or,
    Bool.not_eq_true] at h
  obtain ⟨⟨hdead, hscheduled⟩, htick⟩ := h
  obtain ⟨fw, hfw, hcases⟩ := futureWriteCb_cases htick
  refine ⟨hdead, fw, hfw, ?_, hcases⟩
  simpa [hfw] using hscheduled

theorem connStep_moduleTick {routes : List (Route Code)} {c c' : Conn} {ev : ℕ} {io : ModuleIO}
    (h : connStep routes c (.moduleTick ev io) = some c') :
    c.dead = false ∧ ev ∈ c.world.pending ∧ c' = moduleTick c ev io := by
  simp only [connStep, Option.ite_none_left_eq_some, Option.some.injEq, Bool.or_eq_true, not_or,
    Bool.not_eq_true] at h
  obtain ⟨⟨hdead, hpending⟩, rfl⟩ := h
  exact ⟨hdead, by simpa using hpending, rfl⟩

theorem connStep_close {routes : List (Route Code)} {c c' : Conn}
    (h : connStep routes c .close = some c') : c' = { c with closed := true } := by
  simp only [connStep, Option.ite_none_left_eq_some, Option.some.injEq] at h
  exact h.2.symm

end Gfhttpd.Http3
