import Gfhttpd.Http3.Transfer

/-!
# The end of a response

A response is `Completed` when its stream was given its headers once, as many body bytes as they
announce, and the fin flag once, with the last of these bytes, and its descriptor was closed once.

Every response that is not scheduled any more is completed, in every run whose events meet
`Completes`:

- a request comes to a connection that had none: the headers of a connection are sent once
- the length announced is positive and fits into an `int`
- no chunk goes past that length, and the one that reaches it is accepted whole

`future_write_cb` decides about `eof` by what it read, and cleans a response with `eof` up even
when `quiche` took a part of the last chunk only; and with nothing to send it never sets `eof`.
-/

namespace Gfhttpd.Http3

open Http Conf Router Modules Transition

variable {Code : Type}

/-! ## Reading the log -/

/-- The call gives `quiche` the fin flag for the stream, and all of its bytes are accepted: of
a part of the bytes only, `quiche` does not apply the flag. -/
def appliesFin (streamId : ℤ) : Effect → Bool
  | .sendBody _ stream _ body written fin => stream == streamId && fin && written == body.length
  | _ => false

/-- How many bytes of the stream were accepted each time its fin flag was applied, when `n` bytes
were accepted before. -/
def finsFrom (streamId : ℤ) : ℕ → List Effect → List ℕ
  | _, [] => []
  | n, e :: es =>
      let n := n + (acceptedBy streamId e).length
      if appliesFin streamId e then n :: finsFrom streamId n es else finsFrom streamId n es

/-- How many bytes of the stream were accepted each time its fin flag was applied. -/
def finsOn (streamId : ℤ) (log : List Effect) : List ℕ :=
  finsFrom streamId 0 log

/-- The fields `quiche_h3_send_response` was called with for a stream. -/
def responsesOn (streamId : ℤ) (log : List Effect) : List (List (Bytes × Bytes)) :=
  log.filterMap fun
    | .sendResponse stream fields => if stream = streamId then some fields else none
    | _ => none

theorem finsFrom_append (streamId : ℤ) (n : ℕ) (log es : List Effect) :
    finsFrom streamId n (log ++ es) =
      finsFrom streamId n log ++ finsFrom streamId (n + (bodyOn streamId log).length) es := by
  induction log generalizing n with
  | nil => simp [finsFrom, bodyOn]
  | cons e log ih =>
      simp only [List.cons_append, finsFrom, bodyOn_cons, List.length_append]
      split
      · rw [ih, List.cons_append, Nat.add_assoc]
      · rw [ih, Nat.add_assoc]

theorem finsOn_append (streamId : ℤ) (log es : List Effect) :
    finsOn streamId (log ++ es) =
      finsOn streamId log ++ finsFrom streamId (bodyOn streamId log).length es := by
  rw [finsOn, finsFrom_append, Nat.zero_add, finsOn]

theorem responsesOn_append (streamId : ℤ) (log es : List Effect) :
    responsesOn streamId (log ++ es) = responsesOn streamId log ++ responsesOn streamId es :=
  List.filterMap_append

/-- The effect is neither a response nor a part of one. -/
def IsSilent : Effect → Prop
  | .sendResponse _ _ => False
  | .sendBody _ _ _ _ _ _ => False
  | _ => True

theorem IsSilent.accepted {e : Effect} (h : IsSilent e) (streamId : ℤ) :
    acceptedBy streamId e = [] ∧ appliesFin streamId e = false := by
  cases e with
  | sendBody i stream fd body written fin => exact h.elim
  | sendResponse stream fields => exact h.elim
  | _ => exact ⟨rfl, rfl⟩

theorem finsFrom_silent {es : List Effect} (h : ∀ e ∈ es, IsSilent e) (streamId : ℤ) (n : ℕ) :
    finsFrom streamId n es = [] := by
  induction es generalizing n with
  | nil => rfl
  | cons e es ih =>
      obtain ⟨-, happly⟩ := (h e (List.mem_cons_self ..)).accepted streamId
      simp only [finsFrom, happly, Bool.false_eq_true, if_false]
      exact ih (fun e' he' => h e' (List.mem_cons_of_mem _ he')) _

/-- What a stream was given is the same after silent effects. -/
theorem silent_append {es : List Effect} (h : ∀ e ∈ es, IsSilent e) (streamId : ℤ)
    (log : List Effect) :
    responsesOn streamId (log ++ es) = responsesOn streamId log ∧
      bodyOn streamId (log ++ es) = bodyOn streamId log ∧
      finsOn streamId (log ++ es) = finsOn streamId log := by
  have hresponses : responsesOn streamId es = [] := by
    refine List.filterMap_eq_nil_iff.mpr fun e he => ?_
    have hsilent := h e he
    cases e with
    | sendResponse stream fields => exact hsilent.elim
    | _ => rfl
  have hbody : bodyOn streamId es = [] := bodyOn_eq_nil fun e he => ((h e he).accepted streamId).1
  refine ⟨?_, ?_, ?_⟩
  · rw [responsesOn_append, hresponses, List.append_nil]
  · rw [bodyOn_append, hbody, List.append_nil]
  · rw [finsOn_append, finsFrom_silent h, List.append_nil]

/-- The cleanup of a response gives no stream anything. -/
theorem silent_close (r : LoopResult) :
    ∀ e ∈ (if r.closes then [Effect.close r.fw.fd] else []), IsSilent e := by
  intro e he
  split at he
  · obtain rfl := List.mem_singleton.mp he
    trivial
  · cases he

/-- Behind a tick's loop a stream has what it was given in the loop. -/
theorem afterLoop_streams (c : Conn) (i : ℕ) (r : LoopResult) (timer : Timeval)
    (timeoutPending : Bool) (streamId : ℤ) :
    responsesOn streamId (afterLoop c i r timer timeoutPending).world.log =
        responsesOn streamId (c.world.log ++ r.effects) ∧
      bodyOn streamId (afterLoop c i r timer timeoutPending).world.log =
        bodyOn streamId (c.world.log ++ r.effects) ∧
      finsOn streamId (afterLoop c i r timer timeoutPending).world.log =
        finsOn streamId (c.world.log ++ r.effects) := by
  rw [afterLoop_log]
  exact silent_append (silent_close r) streamId _

theorem silent_of_routing {url : Option Bytes} {e : Effect} (h : IsRouting url e) : IsSilent e := by
  cases e with
  | sendBody i stream fd body written fin => exact h.elim
  | sendResponse stream fields => exact h.elim
  | _ => trivial

/-- A header block sends nothing. -/
theorem HeadersCases.silent {c c' : Conn} {streamId : ℤ} {block : List (Bytes × Bytes)}
    (h : HeadersCases c streamId block c') :
    ∃ es, (∀ e ∈ es, IsSilent e) ∧ c'.world.log = c.world.log ++ es := by
  obtain ⟨es, last, hes, hlast, hlog⟩ := h.log
  refine ⟨[.rootRouter streamId block (prepareRequest block c.hs).request.url] ++ es ++ last,
    fun e he => ?_, ?_⟩
  · simp only [List.mem_append, List.mem_singleton] at he
    rcases he with (rfl | he) | he
    · trivial
    · exact silent_of_routing (hes e he)
    · rcases hlast with rfl | ⟨fd, outcome, rfl⟩
      · cases he
      · obtain rfl := List.mem_singleton.mp he
        trivial
  · rw [hlog, routerWorld, World.log_emit]
    simp only [List.append_assoc]

/-- A module event sends nothing. -/
theorem moduleTick_silent (c : Conn) (ev : ℕ) (io : ModuleIO) :
    ∃ es, (∀ e ∈ es, IsSilent e) ∧ (moduleTick c ev io).world.log = c.world.log ++ es := by
  obtain ⟨es, hes, hlog⟩ := moduleTick_log c ev io
  refine ⟨es, fun e he => ?_, hlog⟩
  have hmodule := hes e he
  cases e with
  | sendBody i stream fd body written fin => exact hmodule.elim
  | sendResponse stream fields => exact hmodule.elim
  | _ => trivial

/-- A loop sends no headers. -/
theorem WriteLoop.responses {i : ℕ} {chunks : List Chunk} {fw : FutureWrite} {fd : Fd}
    {r : LoopResult} (h : WriteLoop i chunks fw fd r) (streamId : ℤ) :
    responsesOn streamId r.effects = [] := by
  refine List.filterMap_eq_nil_iff.mpr fun e he => ?_
  obtain ⟨body, written, fin, rfl⟩ := h.effects e he
  rfl

/-- What a write tick does behind the headers, besides sending the body. -/
structure BodyFrame (c : Conn) (i : ℕ) (fw : FutureWrite) (c' : Conn) : Prop where
  hs : ∃ timer, c'.hs = { c.hs with timer := timer }
  closed : c'.closed = c.closed
  moduleEvs : c'.moduleEvs = c.moduleEvs
  writers : ∃ fw' : FutureWrite, c'.writers = c.writers.modify i (fun _ => fw') ∧
    fw'.streamId = fw.streamId ∧ fw'.fd = fw.fd
  pending : c'.world.pending = c.world.pending
  nextEv : c'.world.nextEv = c.world.nextEv
  freed : c'.world.freed = c.world.freed
  responses : ∀ stream, responsesOn stream c'.world.log = responsesOn stream c.world.log

theorem writeBody_frame {c c' : Conn} {i : ℕ} {fw : FutureWrite} {io : TickIO}
    (h : writeBody c i fw io = some c') : BodyFrame c i fw c' := by
  obtain ⟨fd, r, timer, pending, -, hfd, hrun, rfl⟩ := writeBody_cases h
  obtain ⟨hstream, hsame, -⟩ := hrun.frame
  have hworld : (afterLoop c i r timer pending).world.pending = c.world.pending ∧
      (afterLoop c i r timer pending).world.nextEv = c.world.nextEv ∧
      (afterLoop c i r timer pending).world.freed = c.world.freed := by
    unfold afterLoop
    simp only
    split <;> exact ⟨rfl, rfl, rfl⟩
  refine ⟨⟨timer, rfl⟩, rfl, rfl, ⟨r.writer, rfl, r.writer_streamId.trans hstream,
    r.writer_fd.trans hsame⟩, hworld.1, hworld.2.1, hworld.2.2, fun stream => ?_⟩
  rw [(afterLoop_streams c i r timer pending stream).1, responsesOn_append, hrun.responses,
    List.append_nil]

/-! ## The loop -/

/-- No chunk is an error or goes past the length, and the one that reaches it is accepted whole. -/
def ChunksFit (len : ℤ) : ℤ → List Chunk → Prop
  | _, [] => True
  | pos, ch :: chunks =>
      ch.read ≠ -1 ∧ 0 ≤ ch.sent ∧
        (pos + ch.read < len ∨ pos + ch.read = len ∧ ch.sent = ch.read) ∧
        ChunksFit len (pos + ch.sent) chunks

instance decidableChunksFit (len : ℤ) : (pos : ℤ) → (chunks : List Chunk) →
    Decidable (ChunksFit len pos chunks)
  | _, [] => .isTrue trivial
  | pos, ch :: chunks =>
      have := decidableChunksFit len (pos + ch.sent) chunks
      inferInstanceAs (Decidable (_ ∧ _ ∧ _ ∧ _))

theorem length_body {fd : Fd} {n : ℤ} (h : Fd.canRead fd n = true) (hn : n ≠ -1) :
    ((Fd.body fd n).length : ℤ) = n := by
  obtain ⟨hnonneg, hbound⟩ := canRead_bound h hn
  simp only [Fd.body, List.length_take, List.length_drop]
  omega

/-- The call for a chunk that was read makes `quiche` accept as many bytes as it says. -/
theorem accepted_bodyCall (i : ℕ) (fw : FutureWrite) {fd : Fd} {ch : Chunk}
    (hcan : Fd.canRead fd ch.read = true) (hread : ch.read ≠ -1) (hnonneg : 0 ≤ ch.sent)
    (hle : ch.sent ≤ ch.read) :
    ((acceptedBy fw.streamId (bodyCall i fw fd ch)).length : ℤ) = ch.sent := by
  have hlength := length_body hcan hread
  simp only [bodyCall, acceptedBy, if_true, List.length_take]
  omega

/-- It applies the fin flag exactly if the writer has `eof` and the chunk is accepted whole. -/
theorem appliesFin_bodyCall (i : ℕ) (fw : FutureWrite) {fd : Fd} {ch : Chunk}
    (hcan : Fd.canRead fd ch.read = true) (hread : ch.read ≠ -1) :
    appliesFin fw.streamId (bodyCall i fw fd ch) =
      ((fw.sawChunk ch.read).eof && ch.sent == ch.read) := by
  have hlength := length_body hcan hread
  simp only [bodyCall, appliesFin, beq_self_eq_true, Bool.true_and, hlength]

/-- The writer gets `eof` with the chunk that reaches the length. -/
theorem sawChunk_eof {fw : FutureWrite} {n : ℤ} (hpos : 0 ≤ fw.pos) (hn : 0 ≤ n)
    (hguard : fw.pos < fw.len) (hle : fw.pos + n ≤ fw.len) (hlen : fw.len < 2 ^ 31)
    (heof : fw.eof = decide (fw.pos = fw.len)) :
    (fw.sawChunk n).eof = decide (fw.pos + n = fw.len) := by
  have hwrap : wrap32 (fw.pos + n) = fw.pos + n := wrap32_of_lt (by omega) (by omega)
  have hfalse : fw.eof = false := by
    rw [heof]
    exact decide_eq_false (by omega)
  simp only [FutureWrite.sawChunk, hfalse, hwrap, Bool.false_or, decide_eq_decide]
  omega

/-- How far a loop gets: to the end of the response, with the fin flag applied there, or to a
part of a chunk before the last one. -/
structure LoopDone (fw : FutureWrite) (r : LoopResult) : Prop where
  pos : fw.pos ≤ r.fw.pos ∧ r.fw.pos ≤ fw.len
  eof : r.fw.eof = decide (r.fw.pos = fw.len)
  ending : r.ending = .sent ∧ r.fw.pos = fw.len ∨ r.ending = .again ∧ r.fw.pos < fw.len
  body : ((bodyOn fw.streamId r.effects).length : ℤ) = r.fw.pos - fw.pos
  fins : ∀ n, finsFrom fw.streamId n r.effects =
    if fw.pos < fw.len ∧ r.fw.pos = fw.len then [n + (bodyOn fw.streamId r.effects).length] else []

/-- The chunk that is accepted in part is not the last one. -/
theorem LoopDone.again (i : ℕ) {fw : FutureWrite} {fd : Fd} {ch : Chunk} (hpos : 0 ≤ fw.pos)
    (hguard : fw.pos < fw.len) (hlen : fw.len < 2 ^ 31)
    (heof : fw.eof = decide (fw.pos = fw.len)) (hcan : Fd.canRead fd ch.read = true)
    (hread : ch.read ≠ -1) (hnonneg : 0 ≤ ch.sent) (hpart : ch.sent < ch.read)
    (hbefore : fw.pos + ch.read < fw.len) :
    LoopDone fw ⟨(fw.sawChunk ch.read).accept ch.sent, Fd.advance fd ch.read,
      [bodyCall i fw fd ch], .again⟩ := by
  have heof' := sawChunk_eof hpos (by omega) hguard hbefore.le hlen heof
  have hwrap : wrap32 (fw.pos + ch.sent) = fw.pos + ch.sent :=
    wrap32_of_lt (by omega) (by omega)
  have hpos' : ((fw.sawChunk ch.read).accept ch.sent).pos = fw.pos + ch.sent := hwrap
  have hfin : appliesFin fw.streamId (bodyCall i fw fd ch) = false := by
    rw [appliesFin_bodyCall i fw hcan hread, heof', decide_eq_false (by omega)]
    rfl
  have haccepted := accepted_bodyCall i fw hcan hread hnonneg hpart.le
  refine ⟨⟨?_, ?_⟩, ?_, Or.inr ⟨rfl, ?_⟩, ?_, fun n => ?_⟩
  · rw [hpos']
    omega
  · rw [hpos']
    omega
  · rw [hpos', show ((fw.sawChunk ch.read).accept ch.sent).eof = (fw.sawChunk ch.read).eof
      from rfl, heof', decide_eq_decide]
    omega
  · rw [hpos']
    omega
  · rw [hpos', bodyOn_cons, List.length_append, Int.natCast_add, haccepted]
    simp [bodyOn]
  · rw [hpos', if_neg (by omega)]
    simp [finsFrom, hfin]

/-- A chunk that is accepted whole, and what the loop does behind it. -/
theorem LoopDone.chunk (i : ℕ) {fw : FutureWrite} {fd : Fd} {ch : Chunk} {r : LoopResult}
    (hguard : fw.pos < fw.len)
    (heof : (fw.sawChunk ch.read).eof = decide (fw.pos + ch.read = fw.len))
    (hwrap : wrap32 (fw.pos + ch.sent) = fw.pos + ch.sent) (hcan : Fd.canRead fd ch.read = true)
    (hread : ch.read ≠ -1) (hnonneg : 0 ≤ ch.sent) (hfull : ch.sent = ch.read)
    (hdone : LoopDone ((fw.sawChunk ch.read).accept ch.sent) r) :
    LoopDone fw { r with effects := bodyCall i fw fd ch :: r.effects } := by
  have hpos' : ((fw.sawChunk ch.read).accept ch.sent).pos = fw.pos + ch.sent := hwrap
  have hfin : appliesFin fw.streamId (bodyCall i fw fd ch) =
      decide (fw.pos + ch.read = fw.len) := by
    rw [appliesFin_bodyCall i fw hcan hread, heof]
    simp [hfull]
  have haccepted := accepted_bodyCall i fw hcan hread hnonneg hfull.le
  obtain ⟨⟨hlo, hhi⟩, hreof, hending, hbody, hfins⟩ := hdone
  rw [hpos'] at hlo hbody hfins
  have hlen' : ((fw.sawChunk ch.read).accept ch.sent).len = fw.len := rfl
  have hstream : ((fw.sawChunk ch.read).accept ch.sent).streamId = fw.streamId := rfl
  rw [hlen'] at hhi hreof hending hfins
  rw [hstream] at hbody hfins
  have hlength : ((bodyOn fw.streamId (bodyCall i fw fd ch :: r.effects)).length : ℤ) =
      r.fw.pos - fw.pos := by
    rw [bodyOn_cons, List.length_append, Int.natCast_add, haccepted, hbody]
    omega
  refine ⟨⟨by simp only; omega, hhi⟩, hreof, hending, hlength, fun n => ?_⟩
  simp only [finsFrom, hfin, hfins, decide_eq_true_eq]
  by_cases hlast : fw.pos + ch.read = fw.len
  · -- the chunk reaches the length, and nothing follows it
    rw [if_pos hlast, if_neg (by omega), if_pos ⟨hguard, by omega⟩]
    simp only [List.cons.injEq, and_true]
    omega
  · rw [if_neg hlast]
    by_cases hend : r.fw.pos = fw.len
    · rw [if_pos ⟨by omega, hend⟩, if_pos ⟨hguard, hend⟩]
      simp only [List.cons.injEq, and_true]
      omega
    · rw [if_neg fun h => hend h.2, if_neg fun h => hend h.2]

theorem WriteLoop.complete {i : ℕ} {chunks : List Chunk} {fw : FutureWrite} {fd : Fd}
    {r : LoopResult} (h : WriteLoop i chunks fw fd r) (hpos : 0 ≤ fw.pos)
    (hle : fw.pos ≤ fw.len) (hlen : fw.len < 2 ^ 31) (heof : fw.eof = decide (fw.pos = fw.len))
    (hfit : ChunksFit fw.len fw.pos chunks) : LoopDone fw r := by
  -- on the rounds of the loop: `eof` is set in the round that reaches the length, and there only
  induction h with
  | @done fw fd hguard =>
      have hend : fw.pos = fw.len := by omega
      refine ⟨⟨le_rfl, hle⟩, heof, Or.inl ⟨rfl, hend⟩, by simp [bodyOn], fun n => ?_⟩
      rw [if_neg (by omega)]
      rfl
  -- `ChunksFit` excludes an error of `read` or of `quiche_h3_send_body`
  | failed hguard hread => exact absurd hread hfit.1
  | @exited fw fd ch hguard hcan hread hsent =>
      have hnonneg := hfit.2.1
      omega
  | @again fw fd ch hguard hcan hread hsent hpart =>
      obtain ⟨-, hnonneg, hfit, -⟩ := hfit
      exact .again i hpos hguard hlen heof hcan hread hnonneg hpart (by omega)
  | @chunk fw fd ch chunks r hguard hcan hread hfull hrest ih =>
      obtain ⟨-, hnonneg, hfit, htail⟩ := hfit
      have hbound : fw.pos + ch.read ≤ fw.len := by omega
      have heof' := sawChunk_eof hpos (by omega) hguard hbound hlen heof
      have hwrap : wrap32 (fw.pos + ch.sent) = fw.pos + ch.sent :=
        wrap32_of_lt (by omega) (by omega)
      have hpos' : ((fw.sawChunk ch.read).accept ch.sent).pos = fw.pos + ch.sent := hwrap
      have hdone : LoopDone ((fw.sawChunk ch.read).accept ch.sent) r := by
        apply ih
        · omega
        · rw [hpos']
          show fw.pos + ch.sent ≤ fw.len
          omega
        · exact hlen
        · rw [hpos', hfull]
          exact heof'
        · rw [hpos']
          exact htail
      exact hdone.chunk i hguard heof' hwrap hcan hread hnonneg hfull

/-! ## The stages of a response -/

/-- The response is complete: the headers, the body they announce and the fin flag were given to
the stream once, and the descriptor was closed once. -/
def Completed (c : Conn) (fw : FutureWrite) : Prop :=
  ∃ status len fd, responsesOn fw.streamId c.world.log = [responseHeaders status len] ∧
    (bodyOn fw.streamId c.world.log).length = len ∧ finsOn fw.streamId c.world.log = [len] ∧
    c.world.fds[fw.fd]? = some fd ∧ fd.closes = 1

/-- The only response of a connection. -/
inductive Stage (c : Conn) (fw : FutureWrite) : Prop
  /-- nothing was sent -/
  | waiting (hunsent : c.hs.response.headersSent = false) (hscheduled : fw.scheduled = true)
      (hpos : fw.pos = 0) (heof : fw.eof = false)
      (hresponses : responsesOn fw.streamId c.world.log = [])
      (hbody : bodyOn fw.streamId c.world.log = []) (hfins : finsOn fw.streamId c.world.log = [])
      (hopen : ∃ fd, c.world.fds[fw.fd]? = some fd ∧ fd.closes = 0)
  /-- the headers and the first `fw->pos` bytes were sent -/
  | sending (hsent : c.hs.response.headersSent = true) (hscheduled : fw.scheduled = true)
      (hpos : 0 ≤ fw.pos) (hlt : fw.pos < fw.len) (hmax : fw.len < 2 ^ 31) (heof : fw.eof = false)
      (hresponses : ∃ status, responsesOn fw.streamId c.world.log =
        [responseHeaders status fw.len.toNat])
      (hbody : ((bodyOn fw.streamId c.world.log).length : ℤ) = fw.pos)
      (hfins : finsOn fw.streamId c.world.log = [])
      (hopen : ∃ fd, c.world.fds[fw.fd]? = some fd ∧ fd.closes = 0)
  /-- everything was sent -/
  | done (hsent : c.hs.response.headersSent = true) (hscheduled : fw.scheduled = false)
      (hcompleted : Completed c fw)

/-- A connection with at most one response. -/
structure OneResponse (c : Conn) : Prop where
  notClosed : c.closed = false
  status : c.hs.response.httpStatus.isSome
  table : TableOk c.hs.response.headers
  before : c.writers = [] → c.hs.response.headersSent = false ∧ c.world.pending = [] ∧
    ∀ stream, responsesOn stream c.world.log = [] ∧ bodyOn stream c.world.log = [] ∧
      finsOn stream c.world.log = []
  response : ∀ fw, c.writers = [fw] → c.hs.response.headers ≠ [] ∧ Stage c fw ∧
    (c.world.pending ≠ [] → c.hs.response.fd ≠ fw.fd)
  atMost : c.writers.length ≤ 1

/-- The condition on an event. -/
def Completes (c : Conn) : ConnEvent Code → Prop
  | .headers _ _ _ => c.writers = []
  | .writeTick i io => ∀ fw ∈ c.writers[i]?,
      (c.hs.response.headersSent = false → c.hs.response.contentLenght ≠ SIZE_MAX →
        0 < c.hs.response.contentLenght ∧ c.hs.response.contentLenght < 2 ^ 31) ∧
      ChunksFit (announcedLength c fw) fw.pos io.chunks
  | .moduleTick _ _ => True
  | .close => False

instance (c : Conn) : (e : ConnEvent Code) → Decidable (Completes c e)
  | .headers _ _ _ => inferInstanceAs (Decidable (c.writers = []))
  | .writeTick i io =>
      inferInstanceAs (Decidable (∀ fw ∈ c.writers[i]?,
        (c.hs.response.headersSent = false → c.hs.response.contentLenght ≠ SIZE_MAX →
          0 < c.hs.response.contentLenght ∧ c.hs.response.contentLenght < 2 ^ 31) ∧
        ChunksFit (announcedLength c fw) fw.pos io.chunks))
  | .moduleTick _ _ => .isTrue trivial
  | .close => .isFalse id

/-! ## What the steps do to the stages -/

theorem seek_closes (fd : Fd) (pos : ℤ) : (fd.seek pos).closes = fd.closes := by
  unfold Fd.seek
  split <;> rfl

/-- A tick that sends gets the response to its end or leaves it in the middle. -/
theorem Stage.body {c c' : Conn} {fw₀ : FutureWrite} (fw : FutureWrite) {io : TickIO}
    (hwriters : c.writers = [fw₀]) (hsent : c.hs.response.headersSent = true)
    (hpos : 0 ≤ fw.pos) (hlt : fw.pos < fw.len) (hmax : fw.len < 2 ^ 31) (heof : fw.eof = false)
    (hresponses : ∃ status, responsesOn fw.streamId c.world.log =
      [responseHeaders status fw.len.toNat])
    (hbody : ((bodyOn fw.streamId c.world.log).length : ℤ) = fw.pos)
    (hfins : finsOn fw.streamId c.world.log = [])
    (hopen : ∃ fd, c.world.fds[fw.fd]? = some fd ∧ fd.closes = 0)
    (hfit : ChunksFit fw.len fw.pos io.chunks) (h : writeBody c 0 fw io = some c') :
    ∃ fw', c'.writers = [fw'] ∧ fw'.fd = fw.fd ∧ Stage c' fw' ∧ c'.closed = c.closed ∧
      c'.hs.response = c.hs.response ∧ c'.world.pending = c.world.pending := by
  obtain ⟨fd, r, timer, pending, -, hfd, hrun, rfl⟩ := writeBody_cases h
  obtain ⟨hrstream, hrfd, hrlen, -, hrdesc⟩ := hrun.frame
  have hdone : LoopDone fw r := by
    apply hrun.complete hpos hlt.le hmax ?_ hfit
    rw [heof]
    exact (decide_eq_false (by omega)).symm
  obtain ⟨fd', hfd', hcloses⟩ := hopen
  obtain rfl : fd = fd' := Option.some.inj (hfd.symm.trans hfd')
  have hdesc := afterLoop_fds_self 0 timer pending (hrfd ▸ hfd)
  have hdesc' : ∃ fd', (afterLoop c 0 r timer pending).world.fds[r.writer.fd]? = some fd' ∧
      fd'.closes = if r.closes then 1 else 0 := by
    refine ⟨_, by rw [r.writer_fd]; exact hdesc, ?_⟩
    rw [hrdesc, seek_closes, hcloses, Nat.zero_add]
  -- what the log says about the stream now
  obtain ⟨hresponses', hbody', hfins'⟩ := afterLoop_streams c 0 r timer pending fw.streamId
  rw [responsesOn_append, hrun.responses, List.append_nil] at hresponses'
  rw [bodyOn_append] at hbody'
  rw [finsOn_append, hfins, List.nil_append, hdone.fins] at hfins'
  have hlength : ((bodyOn fw.streamId (afterLoop c 0 r timer pending).world.log).length : ℤ) =
      r.fw.pos := by
    rw [hbody', List.length_append, Int.natCast_add, hbody, hdone.body]
    omega
  have hwriters' : (afterLoop c 0 r timer pending).writers = [r.writer] := by
    simp [afterLoop, hwriters]
  have hsent' : (afterLoop c 0 r timer pending).hs.response.headersSent = true := hsent
  obtain ⟨status, hstatus⟩ := hresponses
  rw [hstatus] at hresponses'
  rw [← hrstream, ← r.writer_streamId] at hresponses' hbody' hlength hfins'
  refine ⟨r.writer, hwriters', r.writer_fd.trans hrfd, ?_, rfl, rfl,
    afterLoop_pending c 0 r timer pending⟩
  obtain ⟨fd', hfd', hcloses'⟩ := hdesc'
  rcases hdone.ending with ⟨hending, hend⟩ | ⟨hending, hbefore⟩
  · -- the loop got to the end: the response is cleaned up
    have heof' : r.fw.eof = true := by
      rw [hdone.eof]
      exact decide_eq_true hend
    have hclosed : r.closes = true := by
      simp [LoopResult.closes, LoopResult.goesOn, hending, heof']
    rw [if_pos hclosed] at hcloses'
    apply Stage.done hsent'
    · simp [LoopResult.writer, hending]
    · refine ⟨status, fw.len.toNat, fd', hresponses', by omega, ?_, hfd', hcloses'⟩
      rw [if_pos ⟨hlt, hend⟩] at hfins'
      rw [hfins', ← List.length_append, ← hbody']
      refine congrArg (fun n => [n]) ?_
      omega
  · -- part of a chunk was left: the response is scheduled again
    have heof' : r.fw.eof = false := by
      rw [hdone.eof]
      exact decide_eq_false (by omega)
    have hclosed : r.closes = false := by simp [LoopResult.closes, heof']
    rw [if_neg (by simp [hclosed])] at hcloses'
    apply Stage.sending hsent'
    · simp [LoopResult.writer, hending, heof']
    · rw [r.writer_pos]
      exact hpos.trans hdone.pos.1
    · rw [r.writer_pos, r.writer_len, hrlen]
      exact hbefore
    · rw [r.writer_len, hrlen]
      exact hmax
    · rw [r.writer_eof]
      exact heof'
    · rw [r.writer_len, hrlen]
      exact ⟨status, hresponses'⟩
    · rw [r.writer_pos]
      exact hlength
    · rw [if_neg fun hand => by omega] at hfins'
      exact hfins'
    · exact ⟨fd', hfd', hcloses'⟩

/-- A silent step on descriptors that are not the response's keeps its stage. -/
theorem Stage.silent {c c' : Conn} {fw : FutureWrite} (h : Stage c fw)
    (hsent : c'.hs.response.headersSent = c.hs.response.headersSent)
    (hlog : ∃ es, (∀ e ∈ es, IsSilent e) ∧ c'.world.log = c.world.log ++ es)
    (hfds : ∀ fd, c.world.fds[fw.fd]? = some fd →
      ∃ fd', c'.world.fds[fw.fd]? = some fd' ∧ fd'.closes = fd.closes) : Stage c' fw := by
  obtain ⟨es, hes, hlog⟩ := hlog
  obtain ⟨hresponses, hbody, hfins⟩ := silent_append hes fw.streamId c.world.log
  rw [← hlog] at hresponses hbody hfins
  have hkeep : ∀ n, (∃ fd, c.world.fds[fw.fd]? = some fd ∧ fd.closes = n) →
      ∃ fd, c'.world.fds[fw.fd]? = some fd ∧ fd.closes = n := by
    rintro n ⟨fd, hfd, hcloses⟩
    obtain ⟨fd', hfd', hcloses'⟩ := hfds fd hfd
    exact ⟨fd', hfd', hcloses'.trans hcloses⟩
  cases h with
  | waiting hunsent hscheduled hpos heof hresponses' hbody' hfins' hopen =>
      exact .waiting (hsent.trans hunsent) hscheduled hpos heof (hresponses.trans hresponses')
        (hbody.trans hbody') (hfins.trans hfins') (hkeep 0 hopen)
  | sending hsent' hscheduled hpos hlt hmax heof hresponses' hbody' hfins' hopen =>
      refine .sending (hsent.trans hsent') hscheduled hpos hlt hmax heof ?_ ?_
        (hfins.trans hfins') (hkeep 0 hopen)
      · rwa [hresponses]
      · rwa [hbody]
  | done hsent' hscheduled hcompleted =>
      obtain ⟨status, len, fd, hresponses', hbody', hfins', hfd, hcloses⟩ := hcompleted
      obtain ⟨fd', hfd', hcloses'⟩ := hkeep 1 ⟨fd, hfd, hcloses⟩
      refine .done (hsent.trans hsent') hscheduled
        ⟨status, len, fd', hresponses.trans hresponses', ?_, hfins.trans hfins', hfd', hcloses'⟩
      rwa [hbody]

/-! ## The invariant over runs -/

/-- The connection before its request. -/
theorem OneResponse.create (sock : ℤ) (cid : Bytes) : OneResponse (Conn.create sock cid) where
  notClosed := rfl
  status := rfl
  table := Or.inl rfl
  before _ := ⟨rfl, rfl, fun _ => ⟨rfl, rfl, rfl⟩⟩
  response fw h := by simp [Conn.create] at h
  atMost := Nat.zero_le 1

/-- A connection with a response in one of its stages. -/
theorem OneResponse.of_stage {c : Conn} {fw : FutureWrite} (hwriters : c.writers = [fw])
    (hclosed : c.closed = false) (hstatus : c.hs.response.httpStatus.isSome)
    (htable : ∃ status nStatus length nLength,
      c.hs.response.headers = responseTable status nStatus length nLength) (hstage : Stage c fw)
    (hfd : c.world.pending ≠ [] → c.hs.response.fd ≠ fw.fd) : OneResponse c := by
  refine ⟨hclosed, hstatus, Or.inr htable, fun hnil => ?_, fun fw' hfw' => ?_, ?_⟩
  · rw [hwriters] at hnil
    cases hnil
  · rw [hwriters] at hfw'
    obtain rfl : fw = fw' := by simpa using hfw'
    obtain ⟨status, nStatus, length, nLength, htable⟩ := htable
    refine ⟨?_, hstage, hfd⟩
    rw [htable]
    exact List.cons_ne_nil _ _
  · rw [hwriters]
    exact le_rfl

/-- A connection whose first response was just scheduled. -/
theorem OneResponse.scheduled {c : Conn} {streamId : ℤ} {n : ℕ}
    (hwriters : c.writers = [newWriter streamId n]) (hclosed : c.closed = false)
    (hstatus : c.hs.response.httpStatus.isSome)
    (htable : c.hs.response.headers = responseTable (ascii "200") 3 (ascii "5") 1)
    (hunsent : c.hs.response.headersSent = false)
    (hlogs : ∀ stream, responsesOn stream c.world.log = [] ∧ bodyOn stream c.world.log = [] ∧
      finsOn stream c.world.log = [])
    (hfd : ∃ fd, c.world.fds[n]? = some fd ∧ fd.closes = 0)
    (hpending : c.world.pending ≠ [] → c.hs.response.fd ≠ n) : OneResponse c := by
  obtain ⟨hresponses, hbody, hfins⟩ := hlogs streamId
  exact .of_stage hwriters hclosed hstatus ⟨_, _, _, _, htable⟩
    (.waiting hunsent rfl rfl rfl hresponses hbody hfins hfd) hpending

/-- The first request of a connection. -/
theorem OneResponse.headers {c c' : Conn} (hc : OneResponse c) {streamId : ℤ}
    {block : List (Bytes × Bytes)} (hnone : c.writers = [])
    (h : HeadersCases c streamId block c') : OneResponse c' := by
  obtain ⟨hunsent, hpending, hlogs⟩ := hc.before hnone
  obtain ⟨es, hes, hlog⟩ := h.silent
  have hlogs' : ∀ stream, responsesOn stream c'.world.log = [] ∧
      bodyOn stream c'.world.log = [] ∧ finsOn stream c'.world.log = [] := by
    intro stream
    obtain ⟨hresponses, hbody, hfins⟩ := silent_append hes stream c.world.log
    obtain ⟨hresponses', hbody', hfins'⟩ := hlogs stream
    rw [hlog]
    exact ⟨hresponses.trans hresponses', hbody.trans hbody', hfins.trans hfins'⟩
  obtain ⟨hstatus₀, hsent₀, htable₀, -⟩ := prepareRequest_status block c.hs
  have htable := htable₀.trans (initResponse_table hc.table)
  have hunsent' := hsent₀.trans hunsent
  have hstatus : (prepareRequest block c.hs).response.httpStatus.isSome := hstatus₀ ▸ hc.status
  -- the descriptor of a response is the socket of a module, the file or the pipe of the error page
  cases h with
  | unanswered h =>
      obtain ⟨fd, hresponse⟩ := h.response
      refine ⟨h.closed.trans hc.notClosed, ?_, ?_, fun _ => ⟨?_, h.pending.trans hpending, hlogs'⟩,
        fun fw hfw => ?_, ?_⟩
      · rw [hresponse]
        exact hstatus
      · rw [hresponse]
        exact Or.inr ⟨_, _, _, _, htable⟩
      · rw [hresponse]
        exact hunsent'
      · rw [h.writers, hnone] at hfw
        cases hfw
      · rw [h.writers, hnone]
        exact Nat.zero_le 1
  | module es hes chain url =>
      refine .scheduled (by rw [hnone]; rfl) hc.notClosed hstatus htable hunsent' hlogs' ?_ ?_
      · exact ⟨⟨.socket, [], 0, some (c.world.fds.length + 1), 0⟩, by simp [socketEnds], rfl⟩
      · intro _
        exact Nat.succ_ne_self _
  | file es hes f =>
      refine .scheduled (by rw [hnone]; rfl) hc.notClosed hstatus htable hunsent' hlogs' ?_ ?_
      · exact ⟨⟨f.kind, f.content, 0, none, 0⟩, by simp, rfl⟩
      · exact fun hne => absurd hpending hne
  | notFound es hes page hpage =>
      refine .scheduled (by rw [hnone]; rfl) hc.notClosed rfl htable hunsent' hlogs' ?_ ?_
      · exact ⟨⟨.pipe, page, 0, none, 0⟩, by simp [pipeEnds], rfl⟩
      · exact fun hne => absurd hpending hne

/-- A write tick of the only response. -/
theorem OneResponse.tick {c c' : Conn} (hc : OneResponse c) {i : ℕ} {fw : FutureWrite}
    {io : TickIO} (hfw : c.writers[i]? = some fw) (hscheduled : fw.scheduled = true)
    (hlen : c.hs.response.headersSent = false → c.hs.response.contentLenght ≠ SIZE_MAX →
      0 < c.hs.response.contentLenght ∧ c.hs.response.contentLenght < 2 ^ 31)
    (hfit : ChunksFit (announcedLength c fw) fw.pos io.chunks) (h : TickCases c i fw io c') :
    OneResponse c' := by
  have hi := (List.getElem?_eq_some_iff.mp hfw).1
  have hmost := hc.atMost
  obtain rfl : i = 0 := by omega
  have hwriters := writers_eq_singleton hmost (List.mem_of_getElem? hfw)
  obtain ⟨hne, hstage, hfd⟩ := hc.response fw hwriters
  have htable := hc.table.resolve_left hne
  obtain ⟨status, nStatus, length, nLength, htable⟩ := htable
  obtain ⟨httpStatus, hstatus⟩ := Option.isSome_iff_exists.mp hc.status
  cases h with
  | closed hclosed =>
      rw [hc.notClosed] at hclosed
      cases hclosed
  | noHeaders hopen hunsent hlen' hnone =>
      rw [htable, hstatus, getHttp3Headers_table] at hnone
      cases hnone
  -- the content length is not ready: the write event is added again
  | deferred hopen hunsent hlen' =>
      have hsame : { fw with scheduled := true } = fw := by rw [← hscheduled]
      have hwriters' : (c.modifyWriter 0 fun _ => { fw with scheduled := true }).writers = [fw] := by
        simp [Conn.modifyWriter, hwriters, hsame]
      exact .of_stage hwriters' hc.notClosed hc.status ⟨_, _, _, _, htable⟩
        (hstage.silent rfl ⟨[], by simp, by simp [Conn.modifyWriter]⟩ fun fd h => ⟨fd, h, rfl⟩) hfd
  | @first hopen hunsent hlen' headers array hheaders _ hbody =>
      rw [htable, hstatus, getHttp3Headers_table, Option.some.injEq, Prod.mk.injEq] at hheaders
      -- the length in the headers is the one `fw->len` gets
      obtain ⟨hpositive, hsmall⟩ := hlen hunsent hlen'
      have hwrap : wrap32 c.hs.response.contentLenght = c.hs.response.contentLenght :=
        wrap32_of_lt (by omega) (by omega)
      rw [announcedLength, if_neg (by simp [hunsent])] at hfit
      cases hstage with
      | sending hsent => simp [hunsent] at hsent
      | done hsent => simp [hunsent] at hsent
      | waiting _ _ hpos heof hresponses hbodyOn hfins hopen' =>
          have hlog : (sentHeaders c fw.streamId headers array).world.log =
              c.world.log ++ [.sendResponse fw.streamId array] := rfl
          have hresponses' : responsesOn fw.streamId
              (sentHeaders c fw.streamId headers array).world.log =
                [responseHeaders httpStatus c.hs.response.contentLenght] := by
            rw [hlog, responsesOn_append, hresponses, ← hheaders.2]
            simp [responsesOn]
          have hbodyOn' : bodyOn fw.streamId
              (sentHeaders c fw.streamId headers array).world.log = [] := by
            rw [hlog, bodyOn_append, hbodyOn]
            rfl
          have hfins' : finsOn fw.streamId
              (sentHeaders c fw.streamId headers array).world.log = [] := by
            rw [hlog, finsOn_append, hfins]
            rfl
          have hsent : (sentHeaders c fw.streamId headers array).writers = [fw] := hwriters
          obtain ⟨fw', hwriters', hfd', hstage', hclosed', hresponse', hpending'⟩ :=
            Stage.body { fw with scheduled := false, len := wrap32 c.hs.response.contentLenght }
              hsent rfl hpos.ge (by simp only; omega) (by simp only; omega) heof
              ⟨httpStatus, by simp only [hwrap, Int.toNat_natCast]; exact hresponses'⟩
              (by simp only [hbodyOn', hpos]; rfl) hfins' hopen' hfit hbody
          exact .of_stage hwriters' (hclosed'.trans hc.notClosed) (by rw [hresponse']; exact hc.status)
            (by rw [hresponse']; exact ⟨_, _, _, _, hheaders.1.symm⟩) hstage'
            (by rw [hresponse', hpending', hfd']; exact hfd)
  | next hopen hsent hbody =>
      rw [announcedLength, if_pos hsent] at hfit
      cases hstage with
      | waiting hunsent => simp [hsent] at hunsent
      | done _ hunscheduled => simp [hscheduled] at hunscheduled
      | sending _ _ hpos hlt hmax heof hresponses hbodyOn hfins hopen' =>
          obtain ⟨fw', hwriters', hfd', hstage', hclosed', hresponse', hpending'⟩ :=
            Stage.body { fw with scheduled := false } hwriters hsent hpos hlt hmax heof hresponses
              hbodyOn hfins hopen' hfit hbody
          exact .of_stage hwriters' (hclosed'.trans hc.notClosed) (by rw [hresponse']; exact hc.status)
            (by rw [hresponse']; exact ⟨_, _, _, _, htable⟩) hstage'
            (by rw [hresponse', hpending', hfd']; exact hfd)

/-- A module event of the only response. -/
theorem OneResponse.moduleTick {c : Conn} (hc : OneResponse c) {ev : ℕ} (io : ModuleIO)
    (hev : ev ∈ c.world.pending) : OneResponse (moduleTick c ev io) := by
  have hne : c.world.pending ≠ [] := List.ne_nil_of_mem hev
  have hsome : c.writers ≠ [] := fun hnil => hne (hc.before hnil).2.1
  obtain ⟨fw, hmem⟩ := List.exists_mem_of_ne_nil _ hsome
  have hwriters := writers_eq_singleton hc.atMost hmem
  obtain ⟨htable, hstage, hfd⟩ := hc.response fw hwriters
  have hsilent := moduleTick_silent c ev io
  have hticked := moduleTick_spec c ev io
  obtain ⟨_, _, _, _, hhs⟩ := hticked.stream
  refine .of_stage (hticked.writers.trans hwriters) (hticked.closed.trans hc.notClosed)
    (hticked.status hc.status) ?_ ?_ ?_
  · rw [hhs]
    exact hc.table.resolve_left htable
  · refine hstage.silent (by rw [hhs]) hsilent fun fd hget => ?_
    obtain ⟨b, k, hget', hk⟩ := hticked.fds fw.fd fd hget
    refine ⟨_, hget', ?_⟩
    -- the module closes its own end only
    rw [hk (hfd hne).symm]
    rfl
  · rw [hhs]
    exact fun _ => hfd hne

/-- Every event that meets the condition keeps the invariant. -/
theorem OneResponse.step {routes : List (Route Code)} {c c' : Conn} {e : ConnEvent Code}
    (hc : OneResponse c) (hcompletes : Completes c e) (h : connStep routes c e = some c') :
    OneResponse c' := by
  cases e with
  | headers streamId block io => exact hc.headers hcompletes (connStep_headers h).2.2
  | writeTick i io =>
      obtain ⟨-, fw, hfw, hscheduled, hcases⟩ := connStep_writeTick h
      obtain ⟨hlen, hfit⟩ := hcompletes fw hfw
      exact hc.tick hfw hscheduled hlen hfit hcases
  | moduleTick ev io =>
      obtain ⟨-, hev, rfl⟩ := connStep_moduleTick h
      exact hc.moduleTick io hev
  | close => exact hcompletes.elim

/-- In every run whose events meet the condition, a response that is not scheduled any more is
completed. -/
theorem response_completed (routes : List (Route Code)) (sock : ℤ) (cid : Bytes)
    {es : List (ConnEvent Code)} {c : Conn}
    (hexec : (connMachine routes).exec (Conn.create sock cid) es = some c)
    (hcompletes : (connMachine routes).Meets Completes (Conn.create sock cid) es) :
    ∀ fw ∈ c.writers, fw.scheduled = false → Completed c fw := by
  have hinv : OneResponse c := (connMachine routes).exec_invariant_of_meets (I := OneResponse)
    (fun _ _ _ hc hcond hstep => hc.step hcond hstep) (OneResponse.create sock cid) hcompletes hexec
  intro fw hmem hunscheduled
  have hwriters := writers_eq_singleton hinv.atMost hmem
  cases (hinv.response fw hwriters).2.1 with
  | waiting _ hscheduled => simp [hunscheduled] at hscheduled
  | sending _ hscheduled => simp [hunscheduled] at hscheduled
  | done _ _ hcompleted => exact hcompleted

/-- A file sent in two ticks. -/
theorem response_completed_file : ∃ c,
    (connMachine []).exec (Conn.create 5 [1]) resumedFile = some c ∧
    ∀ fw ∈ c.writers, fw.scheduled = false → Completed c fw := by
  have hexec : (connMachine []).exec (Conn.create 5 [1]) resumedFile = some _ := rfl
  exact ⟨_, hexec, response_completed [] 5 [1] hexec (by decide)⟩

/-- An empty file. -/
def emptyFile : List (ConnEvent Unit) :=
  [.headers 0 [(ascii ":path", ascii "/a")] (servesFile []), .writeTick 0 ⟨[], ⟨[], true, 0⟩⟩]

/-- The stream of an empty file is never given its fin flag. -/
theorem response_not_completed_empty : ∃ c,
    (connMachine []).exec (Conn.create 5 [1]) emptyFile = some c ∧
    ¬ ∀ fw ∈ c.writers, fw.scheduled = false → Completed c fw := by
  have hexec : (connMachine []).exec (Conn.create 5 [1]) emptyFile = some _ := rfl
  refine ⟨_, hexec, fun h => ?_⟩
  obtain ⟨status, len, fd, -, -, hfins, -⟩ := h _ (List.mem_singleton.mpr rfl) rfl
  have hnone : ([] : List ℕ) = [len] := hfins
  cases hnone

end Gfhttpd.Http3
