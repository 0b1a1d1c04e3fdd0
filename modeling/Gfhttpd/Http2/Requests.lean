import Gfhttpd.Http2.Frame
import Gfhttpd.Router.Spec

/-!
# Answering HTTP/2 requests (`main/http2/event_cb.c`)

A request is over when a frame with `END_STREAM` comes for a stream that has its `http_stream`.
`on_request_recv` does not answer it without an accepted path, and it never gets past
`assert(loop)`: `create_http_stream` leaves `hs->evbase` at `NULL`.

- `Unserved` is the invariant: no event base, and no response
- `requests_served_iff`: a run answers its requests exactly if it has none
-/

namespace Gfhttpd.Http2

open Http Router Transition

variable {Code : Type}

/-! ## Return values -/

/-- `NGHTTP2_ERR_CALLBACK_FAILURE`. -/
def NGHTTP2_ERR_CALLBACK_FAILURE : ℤ := -902

/-- What `on_request_recv` returns. -/
def onRequestRecvRet (io : RequestIO Code) (s : Session) (p : ℕ) : ℤ :=
  match s.get p with
  | none => 0
  | some hs =>
      match hs.request.url with
      | none => 0
      | some url =>
          if checkPath url = false then 0
          else
            let w := s.world.emit (.rootRouter hs.streamId (s.fieldsOf p) hs.request.url)
            let r := rootRouter hs.evbase [] io.router hs w
            if r.fault || r.fd = -1 then 0
            else if io.submit then 0
            else NGHTTP2_ERR_CALLBACK_FAILURE

/-- The `loop` that `on_request_recv` calls `root_router` with, if it does. -/
def routerLoop (s : Session) (p : ℕ) : Option Bool :=
  match s.get p with
  | none => none
  | some hs =>
      match hs.request.url with
      | none => none
      | some url => if checkPath url = false then none else some hs.evbase

/-! ## Requests -/

/-- The live stream, with its object, whose request an event ends. -/
def endedRequest (s : Session) : SessionEvent Code → Option (ℤ × ℕ × RequestIO Code)
  | .frameRecv frame io =>
      if frame.type = .other ∨ frame.endStream = false then none
      else (s.getUserData frame.streamId).map fun p => (frame.streamId, p, io)
  | _ => none

/-- The live stream whose request an event ends. -/
def endedStream (s : Session) (e : SessionEvent Code) : Option ℤ :=
  (endedRequest s e).map Prod.fst

/-- The stream for which an event reports failure to `nghttp2`. -/
def failedStream (s : Session) (e : SessionEvent Code) : Option ℤ :=
  (endedRequest s e).bind fun r => if onRequestRecvRet r.2.2 s r.2.1 = 0 then none else some r.1

/-- The `loop` that an event calls `root_router` with. -/
def calledLoop (s : Session) (e : SessionEvent Code) : Option Bool :=
  (endedRequest s e).bind fun r => routerLoop s r.2.1

/-- Every request that ended in a run has one response or a reported failure, and `assert(loop)`
held in every call of `root_router`. -/
structure RequestsServed (es : List (SessionEvent Code)) (s : Session) : Prop where
  answered : ∀ id ∈ sessionMachine.collect endedStream Session.init es,
    s.world.log.count (.submitResponse id) = 1 ∨
      id ∈ sessionMachine.collect failedStream Session.init es
  asserts : ∀ loop ∈ sessionMachine.collect calledLoop Session.init es, loop = true

/-! ## The invariant -/

/-- No object has an event base, and no response was submitted. -/
structure Unserved (s : Session) : Prop where
  evbase : ∀ p hs, s.get p = some hs → hs.evbase = false
  log : ∀ id, Effect.submitResponse id ∉ s.world.log

namespace Unserved

theorem init : Unserved Session.init := by
  refine ⟨fun p hs hget => ?_, fun id => List.not_mem_nil⟩
  obtain rfl := Session.eq_zero_of_get_init hget
  rfl

theorem of_keeps {s s' : Session} (h : Unserved s) (hkeep : Keeps s s') : Unserved s' := by
  constructor
  · intro p hs' hget
    obtain ⟨hs, hget', -, hbase⟩ := hkeep.objs p hs' hget
    rw [hbase]
    exact h.evbase p hs hget'
  · intro id hmem
    rcases hkeep.log _ hmem with hold | ⟨fd, hclose⟩
    · exact h.log id hold
    · cases hclose

/-- Storing an object without an event base. -/
theorem put {s : Session} (h : Unserved s) (p : ℕ) {hs : HttpStream} (hbase : hs.evbase = false) :
    Unserved (s.put p hs) := by
  refine ⟨fun q hq hget => ?_, h.log⟩
  by_cases hpq : p = q
  · subst hpq
    have hlt : p < s.objs.length := by
      have hset := Session.get_lt hget
      simpa [Session.put] using hset
    have hself : (s.objs.set p (some hs))[p]? = some (some hs) := List.getElem?_set_self hlt
    obtain rfl : hs = hq := by simpa [Session.get, Session.put, hself] using hget
    exact hbase
  · rw [Session.get_put_of_ne hpq] at hget
    exact h.evbase q hq hget

/-- A new object comes from `calloc`. -/
theorem onBeginHeadersCallback {s : Session} (h : Unserved s) (frame : Frame) :
    Unserved (onBeginHeadersCallback s frame) := by
  unfold Gfhttpd.Http2.onBeginHeadersCallback
  split
  · exact h
  · refine ⟨fun p hs hget => ?_, h.log⟩
    rcases get_createHttpStream (show (createHttpStream s frame.streamId).2.get p = some hs from
      hget) with hold | rfl
    · exact h.evbase p hs hold
    · rfl

theorem onHeaderCallback {s : Session} (h : Unserved s) (frame : Frame) (name value : Bytes) :
    Unserved (onHeaderCallback s frame name value) := by
  unfold Gfhttpd.Http2.onHeaderCallback
  split
  · exact h
  · split
    · exact h
    · next p _ =>
        split
        · exact h.of_keeps (keeps_crash s)
        · next hs hget =>
            have hlogged : Unserved { s with fields := s.fields ++ [(p, name, value)] } :=
              ⟨h.evbase, h.log⟩
            simp only
            split
            · exact hlogged
            · exact hlogged.put p (h.evbase p hs hget)

/-- `root_router` without an event base. -/
theorem rootRouter_no_loop (routes : List (Conf.Route Code)) (io : RouterIO Code) (hs : HttpStream)
    (w : World) : rootRouter false routes io hs w = ⟨-1, hs, w, .module, true⟩ :=
  rfl

/-- The assertion of `root_router` ends the run. -/
theorem onRequestRecv {s : Session} (h : Unserved s) (io : RequestIO Code) (p : ℕ) :
    Unserved (onRequestRecv io s p) := by
  unfold Gfhttpd.Http2.onRequestRecv
  split
  · exact h.of_keeps (keeps_crash s)
  · next hs hget =>
      split
      · exact h
      · split
        · exact h
        · -- `assert(loop)` fails
          simp only [h.evbase p hs hget, rootRouter_no_loop, if_true]
          refine ⟨h.evbase, fun id hmem => ?_⟩
          rcases List.mem_append.mp hmem with hold | hnew
          · exact h.log id hold
          · cases List.mem_singleton.mp hnew

theorem step {s s' : Session} {e : SessionEvent Code} (h : Unserved s)
    (hstep : sessionStep s e = some s') : Unserved s' := by
  simp only [sessionStep, Option.ite_none_left_eq_some] at hstep
  obtain ⟨-, hstep⟩ := hstep
  cases e with
  | beginHeaders frame =>
      cases hstep
      exact h.onBeginHeadersCallback frame
  | header frame name value =>
      cases hstep
      exact h.onHeaderCallback frame name value
  | frameRecv frame io =>
      cases hstep
      unfold onFrameRecvCallback
      split
      · exact h
      · split
        · exact h
        · exact h.onRequestRecv io _
  | streamClose streamId =>
      cases hstep
      exact h.of_keeps (keeps_onStreamCloseCallback s streamId)
  | teardown =>
      cases hstep
      exact h.of_keeps (keeps_deleteHttp2SessionData s)

/-- No failure is reported either: that comes after `root_router`. -/
theorem failedStream_eq_none {s : Session} (h : Unserved s) (e : SessionEvent Code) :
    failedStream s e = none := by
  unfold failedStream
  cases hended : endedRequest s e with
  | none => rfl
  | some r =>
      have hzero : onRequestRecvRet r.2.2 s r.2.1 = 0 := by
        unfold onRequestRecvRet
        split
        · rfl
        · next hs hget =>
            split
            · rfl
            · split
              · rfl
              · simp only [h.evbase r.2.1 hs hget, rootRouter_no_loop, Bool.true_or, if_true]
      rw [Option.bind_some, if_pos hzero]

end Unserved

/-! ## Runs -/

/-- **A run answers every request that ended, or reports its failure, and fails no assertion of the
router, exactly if no request ended.** -/
theorem requests_served_iff {es : List (SessionEvent Code)} {s : Session}
    (hexec : sessionMachine.exec Session.init es = some s) :
    RequestsServed es s ↔
      sessionMachine.Meets (fun s e => endedStream s e = none) Session.init es := by
  have hinv : Unserved s := sessionMachine.exec_invariant (I := Unserved)
    (fun s e s' hs hstep => hs.step hstep) Unserved.init hexec
  rw [← sessionMachine.collect_eq_nil_iff hexec]
  constructor
  · intro hserved
    apply List.eq_nil_iff_forall_not_mem.mpr
    intro id hid
    rcases hserved.answered id hid with hone | hfailed
    · -- nothing was submitted
      rw [List.count_eq_zero.mpr (hinv.log id)] at hone
      cases hone
    · obtain ⟨s', e, hs', hsome⟩ := sessionMachine.exists_of_mem_collect (I := Unserved)
        (fun s e s' hs hstep => hs.step hstep) Unserved.init hfailed
      rw [hs'.failedStream_eq_none e] at hsome
      cases hsome
  · intro hnil
    -- without an ended request `root_router` is not called either
    have hmeets := (sessionMachine.collect_eq_nil_iff hexec).mp hnil
    have hloops : sessionMachine.collect calledLoop Session.init es = [] := by
      apply (sessionMachine.collect_eq_nil_iff hexec).mpr
      apply Machine.Meets.mono sessionMachine _ hmeets
      intro s e hnone
      rw [endedStream, Option.map_eq_none_iff] at hnone
      rw [calledLoop, hnone, Option.bind_none]
    constructor
    · rw [hnil]
      intro id hid
      cases hid
    · rw [hloops]
      intro loop hloop
      cases hloop

/-- A stream that is not a request, and its end. -/
theorem requests_served_pushed : ∃ s, sessionMachine.exec Session.init
      [.beginHeaders ⟨.headers, false, false, 2⟩,
        (.frameRecv ⟨.headers, false, true, 2⟩ ⟨servesFile [], true⟩ : SessionEvent Unit)] = some s ∧
    RequestsServed [.beginHeaders ⟨.headers, false, false, 2⟩,
      (.frameRecv ⟨.headers, false, true, 2⟩ ⟨servesFile [], true⟩ : SessionEvent Unit)] s := by
  have hexec : sessionMachine.exec Session.init
      [.beginHeaders ⟨.headers, false, false, 2⟩,
        (.frameRecv ⟨.headers, false, true, 2⟩ ⟨servesFile [], true⟩ : SessionEvent Unit)] = some _ :=
    rfl
  exact ⟨_, hexec, (requests_served_iff hexec).mpr (by decide)⟩

/-- A request without a body.  Its path comes before the other pseudo-headers, which are ignored then. -/
def requestOn (streamId : ℤ) (path : Bytes) : List (SessionEvent Unit) :=
  let frame : Frame := ⟨.headers, true, true, streamId⟩
  [.beginHeaders frame,
    .header frame (ascii ":path") path,
    .header frame (ascii ":method") (ascii "GET"),
    .header frame (ascii ":scheme") (ascii "https"),
    .header frame (ascii ":authority") (ascii "a"),
    .frameRecv frame ⟨servesFile (ascii "hello"), true⟩]

/-- A request with an accepted path ends in a failed assertion. -/
theorem requests_not_served_index : ∃ s,
    sessionMachine.exec Session.init (requestOn 1 (ascii "/")) = some s ∧ s.crashed = true ∧
      ¬ RequestsServed (requestOn 1 (ascii "/")) s := by
  refine ⟨_, rfl, rfl, fun hserved => ?_⟩
  exact absurd (hserved.asserts false (by decide)) (by decide)

end Gfhttpd.Http2
