import Gfhttpd.Http3.Completion

/-!
# Whose response it is

A request is answered on its own stream: the headers are sent once, before the body, with the
status and the content length produced for this request, and the body is read from the
descriptor `root_router` returned for it (`Rightful`).

That is so in every run in which a request comes to a connection that has no response yet
(`OneRequest`).  `headers_sent`, `content_lenght` and `http_status` belong to the connection, and
`future_write_cb` sends headers only while `headers_sent` is not set: the response to another
request is never started.
-/

namespace Gfhttpd.Http3

open Http Conf Router Modules Transition

variable {Code : Type}

/-! ## What was produced for a stream -/

/-- What was produced for a request: the descriptor `root_router` returned, and the status and the
content length, which a request for a module gets later. -/
structure Produced where
  fd : ℕ
  answer : Option (Bytes × ℕ)
deriving DecidableEq, Repr

/-- The status and the content length `root_router` itself produces. -/
def outcomeAnswer : Outcome → Option (Bytes × ℕ)
  | .module => none
  | .file size => some (ascii "200", toSizeT (wrap32 size))
  | .notFound size => some (ascii "404", toSizeT size)

/-- What an effect produces for the stream. -/
def producedStep (streamId : ℤ) (produced : Option Produced) : Effect → Option Produced
  | .routed stream fd outcome =>
      if stream = streamId then some ⟨fd, outcomeAnswer outcome⟩ else produced
  | .answered stream status length =>
      if stream = streamId then produced.map fun p => { p with answer := some (status, length) }
      else produced
  | _ => produced

/-- What was produced for the stream's request. -/
def producedOn (streamId : ℤ) (log : List Effect) : Option Produced :=
  log.foldl (producedStep streamId) none

/-- The effect is right after the log `pre`: headers are sent once, and they are those of the
stream's request; a body is sent behind its headers, from the descriptor of the request. -/
def Rightful (pre : List Effect) : Effect → Prop
  | .sendResponse stream fields => responsesOn stream pre = [] ∧
      ∃ fd status length, producedOn stream pre = some ⟨fd, some (status, length)⟩ ∧
        fields = responseHeaders status length
  | .sendBody _ stream fd _ _ _ => (responsesOn stream pre).length = 1 ∧
      ∃ answer, producedOn stream pre = some ⟨fd, answer⟩
  | _ => True

/-- Everything sent is right, and every request `root_router` found a descriptor for has its
headers, or its write event is scheduled, or the connection was closed. -/
def AllAnswered (c : Conn) : Prop :=
  Audited Rightful c.world.log ∧
    ∀ stream p, producedOn stream c.world.log = some p →
      responsesOn stream c.world.log ≠ [] ∨ c.closed = true ∨
        ∃ fw ∈ c.writers, fw.streamId = stream ∧ fw.fd = p.fd ∧ fw.scheduled = true

/-- The effect produces nothing for a request. -/
def IsUnproductive : Effect → Prop
  | .routed _ _ _ => False
  | .answered _ _ _ => False
  | _ => True

theorem producedOn_snoc (streamId : ℤ) (log : List Effect) (e : Effect) :
    producedOn streamId (log ++ [e]) = producedStep streamId (producedOn streamId log) e := by
  simp only [producedOn, List.foldl_append, List.foldl_cons, List.foldl_nil]

theorem IsUnproductive.step {e : Effect} (h : IsUnproductive e) (streamId : ℤ)
    (produced : Option Produced) : producedStep streamId produced e = produced := by
  cases e with
  | routed stream fd outcome => exact h.elim
  | answered stream status length => exact h.elim
  | _ => rfl

/-- What unproductive effects leave alone one by one, they leave alone together. -/
theorem foldl_unproductive {α : Type} {f : α → Effect → α}
    (hf : ∀ a e, IsUnproductive e → f a e = a) {es : List Effect} (h : ∀ e ∈ es, IsUnproductive e)
    (a : α) : es.foldl f a = a := by
  induction es with
  | nil => rfl
  | cons e es ih =>
      rw [List.foldl_cons, hf a e (h e (List.mem_cons_self ..))]
      apply ih
      intro e' he'
      exact h e' (List.mem_cons_of_mem _ he')

theorem producedOn_append {es : List Effect} (h : ∀ e ∈ es, IsUnproductive e) (streamId : ℤ)
    (log : List Effect) : producedOn streamId (log ++ es) = producedOn streamId log := by
  rw [producedOn, List.foldl_append]
  apply foldl_unproductive _ h
  intro produced e he
  exact he.step streamId produced

theorem unproductive_of_routing {url : Option Bytes} {e : Effect} (h : IsRouting url e) :
    IsUnproductive e := by
  cases e with
  | routed stream fd outcome => exact h.elim
  | answered stream status length => exact h.elim
  | _ => trivial

theorem unproductive_of_writing {i : ℕ} {streamId : ℤ} {fd : ℕ} {e : Effect}
    (h : IsWriting i streamId fd e) : IsUnproductive e := by
  cases e with
  | routed stream fd outcome => exact h.elim
  | answered stream status length => exact h.elim
  | _ => trivial

theorem IsSilent.rightful {e : Effect} (h : IsSilent e) (pre : List Effect) : Rightful pre e := by
  cases e with
  | sendResponse stream fields => exact h.elim
  | sendBody i stream fd body written fin => exact h.elim
  | _ => trivial

/-- Effects that send nothing keep a log right. -/
theorem audited_silent {log es : List Effect} (h : Audited Rightful log)
    (hes : ∀ e ∈ es, IsSilent e) : Audited Rightful (log ++ es) :=
  h.append_of_forall fun e he pre => (hes e he).rightful pre

/-! ## The invariant -/

/-- The only response of a connection, and what the log says about its stream. -/
structure Responding (c : Conn) (fw : FutureWrite) : Prop where
  table : c.hs.response.headers ≠ []
  fd : ∃ answer, producedOn fw.streamId c.world.log = some ⟨fw.fd, answer⟩
  /-- nothing was produced for another stream -/
  only : ∀ stream p, producedOn stream c.world.log = some p → stream = fw.streamId
  /-- every module event was made for this request -/
  owner : ∀ e ∈ c.moduleEvs, e.2 = fw.streamId
  events : ∀ ev ∈ c.world.pending, ∃ stream, (ev, stream) ∈ c.moduleEvs
  fresh : c.world.pending ≠ [] → ∀ ev, c.hs.moduleCbEv = some ev → ev < c.world.nextEv
  /-- before the headers are sent, the connection holds what was produced for this request -/
  unsent : c.hs.response.headersSent = false →
    responsesOn fw.streamId c.world.log = [] ∧ (c.closed = true ∨ fw.scheduled = true) ∧
      (c.hs.response.contentLenght ≠ SIZE_MAX → ∃ status,
        c.hs.response.httpStatus = some status ∧
          producedOn fw.streamId c.world.log =
            some ⟨fw.fd, some (status, c.hs.response.contentLenght)⟩)
  sent : c.hs.response.headersSent = true →
    (responsesOn fw.streamId c.world.log).length = 1

/-- A connection with at most one response, whose log is right. -/
structure Answering (c : Conn) : Prop where
  audited : Audited Rightful c.world.log
  table : TableOk c.hs.response.headers
  before : c.writers = [] → c.hs.response.headersSent = false ∧
    c.hs.response.httpStatus = some (ascii "200") ∧ c.world.pending = [] ∧ c.moduleEvs = [] ∧
      ∀ stream, responsesOn stream c.world.log = [] ∧ producedOn stream c.world.log = none
  response : ∀ fw, c.writers = [fw] → Responding c fw
  atMost : c.writers.length ≤ 1

/-- The condition on an event. -/
def OneRequest (c : Conn) : ConnEvent Code → Prop
  | .headers _ _ _ => c.writers = []
  | _ => True

instance (c : Conn) : (e : ConnEvent Code) → Decidable (OneRequest c e)
  | .headers _ _ _ => inferInstanceAs (Decidable (c.writers = []))
  | .writeTick _ _ => .isTrue trivial
  | .moduleTick _ _ => .isTrue trivial
  | .close => .isTrue trivial

theorem Answering.create (sock : ℤ) (cid : Bytes) : Answering (Conn.create sock cid) where
  audited := audited_nil _
  table := Or.inl rfl
  before _ := ⟨rfl, rfl, rfl, rfl, fun _ => ⟨rfl, rfl⟩⟩
  response fw h := by simp [Conn.create] at h
  atMost := Nat.zero_le 1

/-- A connection with one response. -/
theorem Answering.of_responding {c : Conn} {fw : FutureWrite} (hwriters : c.writers = [fw])
    (haudited : Audited Rightful c.world.log) (htable : TableOk c.hs.response.headers)
    (h : Responding c fw) : Answering c := by
  refine ⟨haudited, htable, fun hnil => ?_, fun fw' hfw' => ?_, ?_⟩
  · rw [hwriters] at hnil
    cases hnil
  · rw [hwriters] at hfw'
    obtain rfl : fw = fw' := by simpa using hfw'
    exact h
  · rw [hwriters]
    exact le_rfl

/-! ## What the steps do -/

/-- A response that was just scheduled. -/
theorem Responding.new {c : Conn} {streamId : ℤ} {n : ℕ} {outcome : Outcome} {log : List Effect}
    (htable : c.hs.response.headers = responseTable (ascii "200") 3 (ascii "5") 1)
    (hunsent : c.hs.response.headersSent = false)
    (hlog : c.world.log = log ++ [.routed streamId n outcome])
    (hnone : ∀ stream, responsesOn stream log = [] ∧ producedOn stream log = none)
    (howner : ∀ e ∈ c.moduleEvs, e.2 = streamId)
    (hevents : ∀ ev ∈ c.world.pending, ∃ stream, (ev, stream) ∈ c.moduleEvs)
    (hfresh : c.world.pending ≠ [] → ∀ ev, c.hs.moduleCbEv = some ev → ev < c.world.nextEv)
    (hanswer : c.hs.response.contentLenght ≠ SIZE_MAX → ∃ status,
      c.hs.response.httpStatus = some status ∧
        outcomeAnswer outcome = some (status, c.hs.response.contentLenght)) :
    Responding c (newWriter streamId n) := by
  have hproduced : ∀ stream, producedOn stream c.world.log =
      if streamId = stream then some ⟨n, outcomeAnswer outcome⟩ else none := by
    intro stream
    rw [hlog, producedOn_snoc, (hnone stream).2]
    rfl
  have hself : producedOn streamId c.world.log = some ⟨n, outcomeAnswer outcome⟩ := by
    rw [hproduced, if_pos rfl]
  refine ⟨?_, ⟨_, hself⟩, fun stream p hp => ?_, howner, hevents, hfresh, fun _ => ?_,
    fun hsent => ?_⟩
  · rw [htable]
    exact List.cons_ne_nil _ _
  · by_cases hstream : streamId = stream
    · exact hstream.symm
    · rw [hproduced, if_neg hstream] at hp
      cases hp
  · refine ⟨?_, Or.inr rfl, fun hlen => ?_⟩
    · show responsesOn streamId c.world.log = []
      rw [hlog, responsesOn_append, (hnone streamId).1]
      rfl
    · obtain ⟨status, hstatus, houtcome⟩ := hanswer hlen
      exact ⟨status, hstatus, by rw [← houtcome]; exact hself⟩
  · rw [hunsent] at hsent
    cases hsent

/-- The same while no event is pending. -/
theorem Responding.new_idle {c : Conn} {streamId : ℤ} {n : ℕ} {outcome : Outcome}
    {log : List Effect}
    (htable : c.hs.response.headers = responseTable (ascii "200") 3 (ascii "5") 1)
    (hunsent : c.hs.response.headersSent = false)
    (hlog : c.world.log = log ++ [.routed streamId n outcome])
    (hnone : ∀ stream, responsesOn stream log = [] ∧ producedOn stream log = none)
    (hevs : c.moduleEvs = []) (hpending : c.world.pending = [])
    (hanswer : ∃ status, c.hs.response.httpStatus = some status ∧
      outcomeAnswer outcome = some (status, c.hs.response.contentLenght)) :
    Responding c (newWriter streamId n) := by
  refine .new htable hunsent hlog hnone ?_ ?_ (fun hne => absurd hpending hne) fun _ => hanswer
  · rw [hevs]
    exact fun e he => by cases he
  · rw [hpending]
    exact fun ev hev => by cases hev

/-- The first request of a connection that gets a response. -/
theorem Answering.headers {c c' : Conn} (hc : Answering c) {streamId : ℤ}
    {block : List (Bytes × Bytes)} (hfirst : c.writers = [])
    (h : HeadersCases c streamId block c') : Answering c' := by
  obtain ⟨hunsent, hstatus, hpending, hevs, hlogs⟩ := hc.before hfirst
  obtain ⟨silent, hsilent, hlog⟩ := h.silent
  have haudited : Audited Rightful c'.world.log := by
    rw [hlog]
    exact audited_silent hc.audited hsilent
  obtain ⟨hstatus₀, hsent₀, htable₀, -⟩ := prepareRequest_status block c.hs
  have htable := htable₀.trans (initResponse_table hc.table)
  have hunsent' := hsent₀.trans hunsent
  have hstatus' := hstatus₀.trans hstatus
  have hidle : ∀ ev, ev ∉ c.world.pending := by
    rw [hpending]
    exact fun _ => List.not_mem_nil
  -- looking for the file produces nothing
  have hrouting : ∀ es, (∀ e ∈ es, IsRouting (prepareRequest block c.hs).request.url e) →
      ∀ stream, responsesOn stream ((routerWorld c streamId block).log ++ es) = [] ∧
        producedOn stream ((routerWorld c streamId block).log ++ es) = none := by
    intro es hes stream
    obtain ⟨hresponses, -⟩ := silent_append (fun e he => silent_of_routing (hes e he)) stream
      (routerWorld c streamId block).log
    rw [hresponses, producedOn_append (fun e he => unproductive_of_routing (hes e he)),
      routerWorld, World.log_emit, producedOn_snoc, responsesOn_append, (hlogs stream).1,
      (hlogs stream).2]
    exact ⟨rfl, rfl⟩
  cases h with
  | unanswered h =>
      obtain ⟨fd, hresponse⟩ := h.response
      obtain ⟨es, hes, hlog'⟩ := h.log
      refine ⟨haudited, ?_, fun _ => ⟨?_, ?_, h.pending.trans hpending, h.moduleEvs.trans hevs,
        ?_⟩, fun fw hfw => ?_, ?_⟩
      · rw [hresponse]
        exact Or.inr ⟨_, _, _, _, htable⟩
      · rw [hresponse]
        exact hunsent'
      · rw [hresponse]
        exact hstatus'
      · rw [hlog']
        exact hrouting es hes
      · rw [h.writers, hfirst] at hfw
        cases hfw
      · rw [h.writers, hfirst]
        exact Nat.zero_le 1
  | module es hes chain url =>
      refine .of_responding (by rw [hfirst]; rfl) haudited (Or.inr ⟨_, _, _, _, htable⟩)
        (.new htable hunsent' (by rw [World.log_emit, World.log_addEvent]) (hrouting es hes)
          ?_ ?_ ?_ ?_)
      · rw [hevs]
        exact fun e he => by rw [List.mem_singleton.mp he]
      · intro ev hev
        rw [World.pending_emit, World.mem_pending_addEvent] at hev
        rcases hev with hev | rfl
        · exact absurd hev (hidle ev)
        · exact ⟨streamId, List.mem_append_right _ (List.mem_singleton.mpr rfl)⟩
      · intro _ ev hev
        obtain rfl : c.world.nextEv = ev := Option.some.inj hev
        show c.world.nextEv < (World.addEvent _ _).nextEv
        rw [World.nextEv_addEvent]
        exact Nat.lt_succ_self _
      · intro hlen
        exact absurd (prepareRequest_length block c.hs) hlen
  | file es hes f =>
      apply Answering.of_responding (by rw [hfirst]; rfl) haudited (Or.inr ⟨_, _, _, _, htable⟩)
      exact .new_idle htable hunsent' rfl (hrouting es hes) hevs hpending ⟨_, hstatus', rfl⟩
  | notFound es hes page hpage =>
      apply Answering.of_responding (by rw [hfirst]; rfl) haudited (Or.inr ⟨_, _, _, _, htable⟩)
      exact .new_idle htable hunsent' rfl (hrouting es hes) hevs hpending ⟨_, rfl, rfl⟩

/-- A step that changes nothing about the response and its stream. -/
theorem Responding.of_same {c c' : Conn} {fw fw' : FutureWrite} (h : Responding c fw)
    (hstream : fw'.streamId = fw.streamId) (hfd : fw'.fd = fw.fd)
    (hresponse : c'.hs.response = c.hs.response) (hev : c'.hs.moduleCbEv = c.hs.moduleCbEv)
    (hevs : c'.moduleEvs = c.moduleEvs) (hpending : c'.world.pending = c.world.pending)
    (hnext : c'.world.nextEv = c.world.nextEv)
    (hlogs : ∀ stream, responsesOn stream c'.world.log = responsesOn stream c.world.log ∧
      producedOn stream c'.world.log = producedOn stream c.world.log)
    (hscheduled : c.hs.response.headersSent = false → c'.closed = true ∨ fw'.scheduled = true) :
    Responding c' fw' := by
  obtain ⟨htable, hproduced, honly, howner, hevents, hfresh, hunsent, hsent⟩ := h
  refine ⟨by rwa [hresponse], ?_, fun stream p hp => ?_, ?_, ?_, ?_, fun hfalse => ?_,
    fun htrue => ?_⟩
  · rwa [hstream, hfd, (hlogs _).2]
  · rw [hstream]
    exact honly stream p ((hlogs stream).2.symm.trans hp)
  · rwa [hevs, hstream]
  · rwa [hpending, hevs]
  · rwa [hpending, hev, hnext]
  · rw [hresponse] at hfalse
    obtain ⟨hresponses, -, hanswer⟩ := hunsent hfalse
    refine ⟨?_, hscheduled hfalse, ?_⟩
    · rw [hstream, (hlogs _).1]
      exact hresponses
    · rwa [hresponse, hstream, hfd, (hlogs _).2]
  · rw [hresponse] at htrue
    rw [hstream, (hlogs _).1]
    exact hsent htrue

/-- The loop sends behind the headers, from the response's descriptor. -/
theorem audited_writeLoop {c : Conn} {i : ℕ} {chunks : List Chunk} {fw : FutureWrite} {fd : Fd}
    {r : LoopResult} (hrun : WriteLoop i chunks fw fd r) (hlog : Audited Rightful c.world.log)
    (hone : (responsesOn fw.streamId c.world.log).length = 1)
    (hfd : ∃ answer, producedOn fw.streamId c.world.log = some ⟨fw.fd, answer⟩) :
    Audited Rightful (c.world.log ++ r.effects) := by
  -- no call of `quiche_h3_send_body` changes what the later ones need
  have hstep : ∀ pre, ∀ e ∈ r.effects,
      ((responsesOn fw.streamId pre).length = 1 ∧
        ∃ answer, producedOn fw.streamId pre = some ⟨fw.fd, answer⟩) →
      Rightful pre e ∧ (responsesOn fw.streamId (pre ++ [e])).length = 1 ∧
        ∃ answer, producedOn fw.streamId (pre ++ [e]) = some ⟨fw.fd, answer⟩ := by
    intro pre e he hpre
    obtain ⟨body, written, fin, rfl⟩ := hrun.effects e he
    refine ⟨hpre, ?_, ?_⟩
    · rw [responsesOn_append]
      simpa [responsesOn] using hpre.1
    · rw [producedOn_snoc]
      exact hpre.2
  exact (hlog.append ⟨hone, hfd⟩ hstep).1

/-- A tick that sends a part of the body. -/
theorem Responding.body {c c' : Conn} {fw₀ fw : FutureWrite} {io : TickIO}
    (h : Responding c fw) (hwriters : c.writers = [fw₀])
    (hsent : c.hs.response.headersSent = true) (haudited : Audited Rightful c.world.log)
    (hbody : writeBody c 0 fw io = some c') :
    ∃ fw', c'.writers = [fw'] ∧ Audited Rightful c'.world.log ∧ Responding c' fw' ∧
      c'.hs.response = c.hs.response := by
  obtain ⟨es, hes, hlog⟩ := writeBody_log hbody
  obtain ⟨⟨timer, hhs⟩, -, hevs, ⟨fw', hwriters', hstream, hfd⟩, hpending, hnext, -, hresponses⟩ :=
    writeBody_frame hbody
  have hresponse : c'.hs.response = c.hs.response := by rw [hhs]
  refine ⟨fw', by simp [hwriters', hwriters], ?_, ?_, hresponse⟩
  · obtain ⟨fd, r, timer, pending, -, -, hrun, rfl⟩ := writeBody_cases hbody
    rw [afterLoop_log]
    exact audited_silent (audited_writeLoop hrun haudited (h.sent hsent) h.fd) (silent_close r)
  · apply h.of_same hstream hfd hresponse (by rw [hhs]) hevs hpending hnext
    · intro stream
      rw [hresponses, hlog]
      exact ⟨rfl, producedOn_append (fun e he => unproductive_of_writing (hes e he)) stream _⟩
    · intro hfalse
      rw [hsent] at hfalse
      cases hfalse

/-- The tick that sends the headers. -/
theorem Responding.sentHeaders {c : Conn} {fw : FutureWrite} (h : Responding c fw)
    (htable : TableOk c.hs.response.headers) (haudited : Audited Rightful c.world.log)
    (hunsent : c.hs.response.headersSent = false)
    (hlen : c.hs.response.contentLenght ≠ SIZE_MAX) {headers : List Header}
    {array : List (Bytes × Bytes)}
    (hheaders : getHttp3Headers c.hs.response.headers c.hs.response.httpStatus
      c.hs.response.contentLenght = some (headers, array)) :
    Responding (sentHeaders c fw.streamId headers array) fw ∧
      TableOk (sentHeaders c fw.streamId headers array).hs.response.headers ∧
      Audited Rightful (sentHeaders c fw.streamId headers array).world.log := by
  obtain ⟨hresponses, -, hanswer⟩ := h.unsent hunsent
  obtain ⟨status, hstatus, hproduced⟩ := hanswer hlen
  obtain ⟨oldStatus, nStatus, length, nLength, htable⟩ := htable.resolve_left h.table
  rw [htable, hstatus, getHttp3Headers_table, Option.some.injEq, Prod.mk.injEq] at hheaders
  obtain ⟨hnew, hfields⟩ := hheaders
  have hproduced' : ∀ stream, producedOn stream
      (Http3.sentHeaders c fw.streamId headers array).world.log =
        producedOn stream c.world.log := fun stream => producedOn_snoc stream _ _
  refine ⟨⟨?_, ?_, fun stream p hp => ?_, h.owner, h.events, h.fresh, fun hfalse => ?_,
    fun _ => ?_⟩, Or.inr ⟨_, _, _, _, hnew.symm⟩, ?_⟩
  · show headers ≠ []
    rw [← hnew]
    exact List.cons_ne_nil _ _
  · rw [hproduced']
    exact h.fd
  · rw [hproduced'] at hp
    exact h.only stream p hp
  · cases hfalse
  · show (responsesOn fw.streamId (c.world.log ++ [_])).length = 1
    rw [responsesOn_append, hresponses]
    simp [responsesOn]
  -- the status and the length are still those of the answer
  · exact audited_snoc.mpr ⟨haudited, hresponses, fw.fd, status, _, hproduced, hfields.symm⟩

/-- A write tick of the only response. -/
theorem Answering.tick {c c' : Conn} (hc : Answering c) {i : ℕ} {fw : FutureWrite} {io : TickIO}
    (hfw : c.writers[i]? = some fw) (h : TickCases c i fw io c') : Answering c' := by
  have hwriters := writers_eq_singleton hc.atMost (List.mem_of_getElem? hfw)
  obtain rfl : i = 0 := by
    obtain ⟨hi, -⟩ := List.getElem?_eq_some_iff.mp hfw
    rw [hwriters, List.length_singleton] at hi
    omega
  have hresponding := hc.response fw hwriters
  have hmodify : ∀ fw', (c.modifyWriter 0 fun _ => fw').writers = [fw'] := by
    intro fw'
    simp [Conn.modifyWriter, hwriters]
  -- only the tick that finds the headers unsent and the length ready sends them
  cases h with
  | closed hclosed =>
      refine .of_responding (hmodify _) hc.audited hc.table ?_
      exact hresponding.of_same rfl rfl rfl rfl rfl rfl rfl (fun _ => ⟨rfl, rfl⟩)
        fun _ => Or.inl hclosed
  | noHeaders hopen hunsent hlen hnone =>
      refine .of_responding (c := c.die) hwriters hc.audited hc.table ?_
      exact hresponding.of_same rfl rfl rfl rfl rfl rfl rfl (fun _ => ⟨rfl, rfl⟩)
        fun hfalse => (hresponding.unsent hfalse).2.1
  | deferred hopen hunsent hlen =>
      refine .of_responding (hmodify _) hc.audited hc.table ?_
      exact hresponding.of_same rfl rfl rfl rfl rfl rfl rfl (fun _ => ⟨rfl, rfl⟩)
        fun _ => Or.inr rfl
  | @first hopen hunsent hlen headers array hheaders _ hbody =>
      obtain ⟨hresponding', htable, haudited⟩ :=
        hresponding.sentHeaders hc.table hc.audited hunsent hlen hheaders
      have hstart : Responding (Http3.sentHeaders c fw.streamId headers array)
          { fw with scheduled := false, len := wrap32 c.hs.response.contentLenght } :=
        hresponding'.of_same rfl rfl rfl rfl rfl rfl rfl (fun _ => ⟨rfl, rfl⟩)
          fun hfalse => by cases hfalse
      obtain ⟨fw', hwriters', haudited', hresponding'', hresponse⟩ :=
        hstart.body hwriters rfl haudited hbody
      exact .of_responding hwriters' haudited' (by rw [hresponse]; exact htable) hresponding''
  | next hopen hsent hbody =>
      have hstart : Responding c { fw with scheduled := false } :=
        hresponding.of_same rfl rfl rfl rfl rfl rfl rfl (fun _ => ⟨rfl, rfl⟩)
          fun hfalse => by rw [hsent] at hfalse; cases hfalse
      obtain ⟨fw', hwriters', haudited', hresponding'', hresponse⟩ :=
        hstart.body hwriters hsent hc.audited hbody
      exact .of_responding hwriters' haudited' (by rw [hresponse]; exact hc.table) hresponding''

/-- A module event was made for the response's stream. -/
theorem Responding.eventStream {c : Conn} {fw : FutureWrite} (h : Responding c fw) {ev : ℕ}
    (hev : ev ∈ c.world.pending) : c.eventStream ev = fw.streamId := by
  obtain ⟨stream, hmem⟩ := h.events ev hev
  unfold Conn.eventStream
  cases hfind : c.moduleEvs.find? fun e => e.1 == ev with
  | none =>
      have hnone := List.find?_eq_none.mp hfind (ev, stream) hmem
      simp at hnone
  | some e => exact h.owner e (List.mem_of_find?_eq_some hfind)

/-- A module event produces its answer, for the stream it was made for. -/
theorem ModuleTicked.foldl {c c' : Conn} {ev : ℕ} {answer : Option (Bytes × ℕ)}
    (h : ModuleTicked c ev answer c') {α : Type} {f : α → Effect → α}
    (hf : ∀ a e, IsUnproductive e → f a e = a) (a : α) : c'.world.log.foldl f a =
      (answerEffects (c.eventStream ev) answer).foldl f (c.world.log.foldl f a) := by
  obtain ⟨closes, hcloses, hlog⟩ := h.log
  have hunproductive : ∀ e ∈ closes, IsUnproductive e := by
    intro e he
    rcases hcloses with rfl | rfl
    · cases he
    · rw [List.mem_singleton.mp he]
      trivial
  rw [hlog, List.foldl_append, List.foldl_append, foldl_unproductive hf hunproductive]

/-- A module event of the only response, which is the one it was made for. -/
theorem Responding.moduleTick {c c' : Conn} {fw : FutureWrite} {ev : ℕ}
    {answer : Option (Bytes × ℕ)} (h : Responding c fw) (hbefore : c.world.pending ≠ [])
    (hticked : ModuleTicked c ev answer c') (hstream : c.eventStream ev = fw.streamId)
    (hresponses : responsesOn fw.streamId c'.world.log = responsesOn fw.streamId c.world.log) :
    Responding c' fw := by
  have hproduced : ∀ stream, producedOn stream c'.world.log =
      (answerEffects fw.streamId answer).foldl (producedStep stream)
        (producedOn stream c.world.log) := by
    intro stream
    rw [← hstream]
    exact hticked.foldl (fun produced e he => he.step stream produced) none
  obtain ⟨_, _, _, _, hhs⟩ := hticked.stream
  obtain ⟨before, hfd⟩ := h.fd
  refine ⟨?_, ?_, fun stream p hp => ?_, fun e he => ?_, fun x hx => ?_, fun _ x hx => ?_,
    fun hunsent => ?_, fun hsent => ?_⟩
  · rw [hhs]
    exact h.table
  · rw [hproduced, hfd]
    cases answer with
    | none => exact ⟨before, rfl⟩
    | some a => exact ⟨some (a.1, a.2), if_pos rfl⟩
  · -- an answer is for the response's own stream
    by_cases hne : stream = fw.streamId
    · exact hne
    · apply h.only stream p
      rw [hproduced] at hp
      cases answer with
      | none => exact hp
      | some a => simpa [answerEffects, producedStep, Ne.symm hne] using hp
  · rcases hticked.owner e he with he | he
    · exact h.owner e he
    · exact he.trans hstream
  · rcases hticked.pending x hx with hx | ⟨rfl, hx⟩
    · obtain ⟨stream, hmem⟩ := h.events x hx
      exact ⟨stream, hticked.kept _ hmem⟩
    · -- its number is above that of the event before
      refine ⟨_, hticked.made _ hx fun hsame => ?_⟩
      exact absurd (h.fresh hbefore _ (hsame.symm.trans hx)) (Nat.lt_irrefl _)
  · -- the event of the module is the old one, or it was just made
    rcases hticked.event with hsame | ⟨hfresh, hlt⟩
    · exact (h.fresh hbefore x (hsame.symm.trans hx)).trans_le hticked.nextEv
    · obtain rfl := Option.some.inj (hfresh.symm.trans hx)
      exact hlt
  · have hunsent' : c.hs.response.headersSent = false := by
      rw [← hunsent, hhs]
    obtain ⟨hnone, hscheduled, hanswer⟩ := h.unsent hunsent'
    refine ⟨hresponses.trans hnone, ?_, fun hlen => ?_⟩
    · rw [hticked.closed]
      exact hscheduled
    -- the status and the length that will be sent are those of the last answer
    · rw [hproduced]
      cases answer with
      | none =>
          rw [hticked.silent rfl] at hlen ⊢
          exact hanswer hlen
      | some a =>
          obtain ⟨hstatus, hlength⟩ := hticked.written a.1 a.2 rfl
          refine ⟨a.1, hstatus, ?_⟩
          rw [hlength, hfd]
          exact if_pos rfl
  · rw [hresponses]
    apply h.sent
    rw [← hsent, hhs]

/-- A module event of the only response. -/
theorem Answering.moduleTick {c : Conn} (hc : Answering c) {ev : ℕ} (io : ModuleIO)
    (hev : ev ∈ c.world.pending) : Answering (moduleTick c ev io) := by
  have hsome : c.writers ≠ [] := fun hnil => by
    rw [(hc.before hnil).2.2.1] at hev
    cases hev
  obtain ⟨fw, hmem⟩ := List.exists_mem_of_ne_nil _ hsome
  have hwriters := writers_eq_singleton hc.atMost hmem
  have hresponding := hc.response fw hwriters
  have hticked := moduleTick_spec c ev io
  obtain ⟨silent, hsilent, hlog⟩ := moduleTick_silent c ev io
  obtain ⟨_, _, _, _, hhs⟩ := hticked.stream
  have haudited : Audited Rightful (Http3.moduleTick c ev io).world.log := by
    rw [hlog]
    exact audited_silent hc.audited hsilent
  have hresponses : responsesOn fw.streamId (Http3.moduleTick c ev io).world.log =
      responsesOn fw.streamId c.world.log := by
    rw [hlog]
    exact (silent_append hsilent _ _).1
  have htable : TableOk (Http3.moduleTick c ev io).hs.response.headers := by
    rw [hhs]
    exact hc.table
  exact .of_responding (hticked.writers.trans hwriters) haudited htable
    (hresponding.moduleTick (List.ne_nil_of_mem hev) hticked (hresponding.eventStream hev)
      hresponses)

/-- Every event that meets the condition keeps the invariant. -/
theorem Answering.step {routes : List (Route Code)} {c c' : Conn} {e : ConnEvent Code}
    (hc : Answering c) (hone : OneRequest c e) (h : connStep routes c e = some c') :
    Answering c' := by
  cases e with
  | headers streamId block io => exact hc.headers hone (connStep_headers h).2.2
  | writeTick i io =>
      obtain ⟨-, fw, hfw, -, hcases⟩ := connStep_writeTick h
      exact hc.tick hfw hcases
  | moduleTick ev io =>
      obtain ⟨-, hev, rfl⟩ := connStep_moduleTick h
      exact hc.moduleTick io hev
  -- a closed connection owes no response
  | close =>
      obtain rfl := connStep_close h
      refine ⟨hc.audited, hc.table, hc.before, fun fw hfw => ?_, hc.atMost⟩
      exact (hc.response fw hfw).of_same rfl rfl rfl rfl rfl rfl rfl (fun _ => ⟨rfl, rfl⟩)
        fun _ => Or.inl rfl

/-! ## Runs -/

/-- Every run in which requests come to a connection without a response answers all of them. -/
theorem requests_answered (routes : List (Route Code)) (sock : ℤ) (cid : Bytes)
    {es : List (ConnEvent Code)} {c : Conn}
    (hexec : (connMachine routes).exec (Conn.create sock cid) es = some c)
    (hone : (connMachine routes).Meets OneRequest (Conn.create sock cid) es) : AllAnswered c := by
  have hinv : Answering c := (connMachine routes).exec_invariant_of_meets (I := Answering)
    (fun _ _ _ hc hcond hstep => hc.step hcond hstep) (Answering.create sock cid) hone hexec
  refine ⟨hinv.audited, fun stream p hp => ?_⟩
  -- there is a response, and it is this stream's
  have hsome : c.writers ≠ [] := fun hnil => by
    rw [((hinv.before hnil).2.2.2.2 stream).2] at hp
    cases hp
  obtain ⟨fw, hmem⟩ := List.exists_mem_of_ne_nil _ hsome
  have hwriters := writers_eq_singleton hinv.atMost hmem
  have hresponding := hinv.response fw hwriters
  obtain rfl := hresponding.only stream p hp
  cases hsent : c.hs.response.headersSent with
  | true =>
      refine Or.inl fun hnil => ?_
      have hlength := hresponding.sent hsent
      rw [hnil] at hlength
      cases hlength
  | false =>
      obtain ⟨-, hclosed | hscheduled, -⟩ := hresponding.unsent hsent
      · exact Or.inr (Or.inl hclosed)
      · obtain ⟨answer, hfd⟩ := hresponding.fd
        obtain rfl := Option.some.inj (hfd.symm.trans hp)
        refine Or.inr (Or.inr ⟨fw, ?_, rfl, rfl, hscheduled⟩)
        rw [hwriters]
        exact List.mem_singleton.mpr rfl

/-- A file sent in two ticks. -/
theorem requests_answered_file : ∃ c,
    (connMachine []).exec (Conn.create 5 [1]) resumedFile = some c ∧ AllAnswered c := by
  have hexec : (connMachine []).exec (Conn.create 5 [1]) resumedFile = some _ := rfl
  exact ⟨_, hexec, requests_answered [] 5 [1] hexec (by decide)⟩

/-- Two requests of one connection, for files that are sent whole. -/
def twoRequests : List (ConnEvent Unit) :=
  [.headers 0 [(ascii ":path", ascii "/a")] (servesFile (ascii "abc")),
    .writeTick 0 ⟨[⟨3, 3⟩], ⟨[], true, 0⟩⟩,
    .headers 4 [(ascii ":path", ascii "/b")] (servesFile (ascii "hello")),
    .writeTick 1 ⟨[], ⟨[], true, 0⟩⟩]

/-- The second request is never answered. -/
theorem requests_not_answered_two : ∃ c,
    (connMachine []).exec (Conn.create 5 [1]) twoRequests = some c ∧ ¬ AllAnswered c := by
  -- the second response is there, nothing was sent on its stream, and no write event is left
  obtain ⟨c, hexec, hproduced, hnone, hopen, hidle⟩ : ∃ c,
      (connMachine []).exec (Conn.create 5 [1]) twoRequests = some c ∧
        producedOn 4 c.world.log = some ⟨1, some (ascii "200", 5)⟩ ∧
        responsesOn 4 c.world.log = [] ∧ c.closed = false ∧
        ∀ fw ∈ c.writers, fw.scheduled = false := ⟨_, rfl, by decide +kernel⟩
  refine ⟨c, hexec, fun ⟨_, hanswered⟩ => ?_⟩
  rcases hanswered 4 _ hproduced with hresponse | hclosed | ⟨fw, hmem, -, -, hscheduled⟩
  · exact hresponse hnone
  · rw [hopen] at hclosed
    cases hclosed
  · rw [hidle fw hmem] at hscheduled
    cases hscheduled

end Gfhttpd.Http3
