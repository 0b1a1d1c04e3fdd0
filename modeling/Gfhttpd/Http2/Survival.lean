import Gfhttpd.Http2.Delivery
import Gfhttpd.Http2.Teardown

/-!
# What an HTTP/2 session survives (`main/http2/event_cb.c`, `main/http2/http2_session.c`)

Two callbacks end the whole process: closing a stream goes through the `NULL` in `prev`, and a
request that gets to `root_router` fails its `assert(loop)`.  The teardown ends it, too: `session_data`
comes from the pool, and `free` aborts.

- `Harmless`: the events that are neither of the two callbacks
- `survives_iff`: no access and no assertion of a run fails exactly if all of its events are harmless
- `LedBy`: the callbacks behind the session of a connection
- `connection_survives_iff`: a connection leaves the process alone exactly if they are harmless, and it
  is not deleted
-/

namespace Gfhttpd.Http2

open Http Router Throttle Transition Relation

variable {σ Code : Type}

/-! ## Sessions -/

/-- The object of the stream that an event closes. -/
def closedStream (s : Session) : SessionEvent Code → Option ℕ
  | .streamClose streamId => s.getUserData streamId
  | _ => none

/-- No stream of ours is closed, and `root_router` is not called. -/
def Harmless (s : Session) (e : SessionEvent Code) : Prop :=
  closedStream s e = none ∧ calledLoop s e = none

instance (s : Session) (e : SessionEvent Code) : Decidable (Harmless s e) :=
  inferInstanceAs (Decidable (_ ∧ _))

/-- An idle session whose pointers lead to its streams. -/
structure Pointed (s : Session) : Prop where
  idle : Idle s
  streams : ∀ d ∈ s.userData, (s.get d.2).isSome
  /-- the teardown aborts -/
  aborted : s.aborted = s.tornDown

theorem Pointed.init : Pointed Session.init :=
  ⟨.init, fun _ hd => (List.not_mem_nil hd).elim, rfl⟩

theorem Pointed.get {s : Session} (h : Pointed s) {streamId : ℤ} {p : ℕ}
    (hdata : s.getUserData streamId = some p) : ∃ hs, s.get p = some hs := by
  obtain ⟨d, hd, rfl⟩ := Option.map_eq_some_iff.mp hdata
  exact Option.isSome_iff_exists.mp (h.streams d (List.mem_of_find?_eq_some hd))

/-- Storing an object leaves an object where there was one. -/
theorem isSome_get_put {s : Session} {p q : ℕ} (hs : HttpStream) (hq : (s.get q).isSome) :
    ((s.put p hs).get q).isSome := by
  obtain ⟨hs', hget⟩ := Option.isSome_iff_exists.mp hq
  by_cases hpq : p = q
  · subst hpq
    rw [Session.get_put_self hget]
    rfl
  · rw [Session.get_put_of_ne hpq]
    exact hq

/-- The new stream is the one its pointer leads to. -/
theorem Pointed.createHttpStream {s : Session} (h : Pointed s) (streamId : ℤ) :
    ∀ d ∈ ((createHttpStream s streamId).2.setUserData streamId
      (createHttpStream s streamId).1).userData,
    (((createHttpStream s streamId).2.setUserData streamId
      (createHttpStream s streamId).1).get d.2).isSome := by
  intro d hd
  show ((s.objs ++ [some _])[d.2]?).join.isSome
  rcases List.mem_append.mp hd with hold | hnew
  · have hd' : d ∈ s.userData := (List.mem_filter.mp hold).1
    obtain ⟨hs, hget⟩ := Option.isSome_iff_exists.mp (h.streams d hd')
    rw [List.getElem?_append_left (Session.get_lt hget)]
    exact h.streams d hd'
  · obtain rfl := List.mem_singleton.mp hnew
    simp [Http2.createHttpStream, addStream]

/-- The pointers lead to streams, and the process goes on exactly under the condition. -/
structure GoesOn (s : Session) (C : Prop) : Prop where
  streams : ∀ d ∈ s.userData, (s.get d.2).isSome
  iff : s.crashed = false ↔ C

theorem Pointed.beginHeaders {s : Session} (h : Pointed s) (hsound : s.crashed = false)
    (frame : Frame) :
    GoesOn (onBeginHeadersCallback s frame)
      (Harmless s (.beginHeaders frame : SessionEvent Code)) := by
  unfold onBeginHeadersCallback
  split
  · exact ⟨h.streams, iff_of_true hsound ⟨rfl, rfl⟩⟩
  · exact ⟨h.createHttpStream frame.streamId, iff_of_true hsound ⟨rfl, rfl⟩⟩

theorem Pointed.header {s : Session} (h : Pointed s) (hsound : s.crashed = false) (frame : Frame)
    (name value : Bytes) :
    GoesOn (onHeaderCallback s frame name value)
      (Harmless s (.header frame name value : SessionEvent Code)) := by
  unfold onHeaderCallback
  split
  · exact ⟨h.streams, iff_of_true hsound ⟨rfl, rfl⟩⟩
  · cases hdata : s.getUserData frame.streamId with
    | none => exact ⟨h.streams, iff_of_true hsound ⟨rfl, rfl⟩⟩
    | some p =>
        obtain ⟨hs, hget⟩ := h.get hdata
        simp only [hget]
        split
        · exact ⟨h.streams, iff_of_true hsound ⟨rfl, rfl⟩⟩
        · refine ⟨fun d hd => isSome_get_put _ ?_, iff_of_true hsound ⟨rfl, rfl⟩⟩
          exact h.streams d hd

/-- A request that is over goes on to the router, or nothing happens to it. -/
theorem Pointed.requestRecv {s : Session} (h : Pointed s) (hsound : s.crashed = false)
    (io : RequestIO Code) (p : ℕ) (hobj : (s.get p).isSome) :
    GoesOn (onRequestRecv io s p) (routerLoop s p = none) := by
  obtain ⟨hs, hget⟩ := Option.isSome_iff_exists.mp hobj
  unfold onRequestRecv routerLoop
  simp only [hget]
  cases hs.request.url with
  | none => exact ⟨h.streams, iff_of_true hsound rfl⟩
  | some url =>
      dsimp only
      split
      · exact ⟨h.streams, iff_of_true hsound rfl⟩
      · -- `assert(loop)` fails
        simp only [h.idle.unserved.evbase p hs hget, Unserved.rootRouter_no_loop, if_true]
        exact ⟨h.streams, iff_of_false (by simp [Session.crash]) (by simp)⟩

theorem calledLoop_frameRecv (s : Session) (frame : Frame) (io : RequestIO Code) :
    calledLoop s (.frameRecv frame io) =
      if frame.type = .other ∨ frame.endStream = false then none
      else (s.getUserData frame.streamId).bind (routerLoop s) := by
  simp only [calledLoop, endedRequest]
  split
  · rfl
  · cases s.getUserData frame.streamId <;> rfl

theorem Pointed.frameRecv {s : Session} (h : Pointed s) (hsound : s.crashed = false) (frame : Frame)
    (io : RequestIO Code) :
    GoesOn (onFrameRecvCallback io s frame) (Harmless s (.frameRecv frame io)) := by
  have hcalled := calledLoop_frameRecv s frame io
  unfold onFrameRecvCallback
  split
  · next hframe =>
      rw [if_pos hframe] at hcalled
      exact ⟨h.streams, iff_of_true hsound ⟨rfl, hcalled⟩⟩
  · next hframe =>
      rw [if_neg hframe] at hcalled
      cases hdata : s.getUserData frame.streamId with
      | none =>
          rw [hdata] at hcalled
          exact ⟨h.streams, iff_of_true hsound ⟨rfl, hcalled⟩⟩
      | some p =>
          rw [hdata] at hcalled
          obtain ⟨hs, hget⟩ := h.get hdata
          have hrecv := h.requestRecv hsound io p (by rw [hget]; rfl)
          -- the request ends here
          refine ⟨hrecv.streams, hrecv.iff.trans ?_⟩
          rw [Harmless, hcalled]
          exact (and_iff_right rfl).symm

theorem Pointed.streamClose {s : Session} (h : Pointed s) (hsound : s.crashed = false)
    (streamId : ℤ) :
    GoesOn (onStreamCloseCallback s streamId)
      (Harmless s (.streamClose streamId : SessionEvent Code)) := by
  unfold onStreamCloseCallback
  cases hdata : s.getUserData streamId with
  | none => exact ⟨h.streams, iff_of_true hsound ⟨hdata, rfl⟩⟩
  | some p =>
      simp only [h.idle.unlinked.removeStream]
      refine ⟨h.streams, iff_of_false (by simp [Session.crash]) fun hharmless => ?_⟩
      have hnone : s.getUserData streamId = none := hharmless.1
      rw [hdata] at hnone
      cases hnone

theorem Pointed.step {s s' : Session} {e : SessionEvent Code} (h : Pointed s)
    (hstep : sessionStep s e = some s') :
    Pointed s' ∧ (s'.crashed = false ↔ s.crashed = false ∧ Harmless s e) := by
  have hidle := h.idle.step hstep
  have hstep' := hstep
  simp only [sessionStep, Option.ite_none_left_eq_some] at hstep
  obtain ⟨hlive, hstep⟩ := hstep
  -- there is no step of a session that has crashed
  have hsound : s.crashed = false := by simp_all
  suffices hgoes : GoesOn s' (Harmless s e) ∧ s'.aborted = s'.tornDown from
    ⟨⟨hidle, hgoes.1.streams, hgoes.2⟩, hgoes.1.iff.trans (and_iff_right hsound).symm⟩
  have hsame (he : e.isTeardown = false) : s'.aborted = s'.tornDown := by
    rw [aborted_sessionStep he hstep', tornDown_sessionStep he hstep', h.aborted]
  cases e with
  | beginHeaders frame =>
      cases hstep
      exact ⟨h.beginHeaders hsound frame, hsame rfl⟩
  | header frame name value =>
      cases hstep
      exact ⟨h.header hsound frame name value, hsame rfl⟩
  | frameRecv frame io =>
      cases hstep
      exact ⟨h.frameRecv hsound frame io, hsame rfl⟩
  | streamClose streamId =>
      cases hstep
      exact ⟨h.streamClose hsound streamId, hsame rfl⟩
  | teardown =>
      cases hstep
      rw [h.idle.unlinked.deleteHttp2SessionData]
      exact ⟨⟨h.streams, iff_of_true hsound ⟨rfl, rfl⟩⟩, by simp [hsound]⟩

/-- A run from a session that has survived so far. -/
theorem Pointed.run {s s' : Session} {es : List (SessionEvent Code)} (h : Pointed s)
    (hexec : sessionMachine.exec s es = some s') :
    Pointed s' ∧ (s'.crashed = false ↔ s.crashed = false ∧ sessionMachine.Meets Harmless s es) :=
  ⟨sessionMachine.exec_invariant (I := Pointed) (fun _ _ _ hs hstep => (hs.step hstep).1) h hexec,
    sessionMachine.exec_iff_meets (I := Pointed) (P := fun s => s.crashed = false) (C := Harmless)
      (fun _ _ _ hs hstep => (hs.step hstep).1) (fun _ _ _ hs hstep => (hs.step hstep).2) h hexec⟩

/-- **A run of a session gets through, without an access through `NULL` and without a failed assertion,
exactly if no stream of ours is closed in it and no request that ended has a path that
`check_path` accepts.** -/
theorem survives_iff {es : List (SessionEvent Code)} {s : Session}
    (hexec : sessionMachine.exec Session.init es = some s) :
    s.crashed = false ↔ sessionMachine.Meets Harmless Session.init es := by
  rw [(Pointed.init.run hexec).2]
  exact and_iff_right rfl

/-- A request for a path that `check_path` does not accept. -/
theorem survives_backslash : ∃ s, sessionMachine.exec Session.init (requestOn 1 (ascii "/\\")) = some s ∧
    s.crashed = false := by
  have hexec : sessionMachine.exec Session.init (requestOn 1 (ascii "/\\")) = some _ := rfl
  exact ⟨_, hexec, (survives_iff hexec).mpr (by decide)⟩

/-! ## Connections -/

/-- These callbacks have led to the session, and the teardown behind them if it was torn down. -/
structure LedBy (s : Session) (calls : List (SessionEvent Code)) : Prop where
  callbacks : ∀ e ∈ calls, e.isTeardown = false
  session : sessionMachine.exec Session.init (if s.tornDown then calls ++ [.teardown] else calls) =
    some s

/-- The callbacks of a connection. -/
structure Projects (c : Connection σ) (calls : List (SessionEvent Code)) : Prop extends
    LedBy c.session calls where
  /-- without `nghttp2` there are no callbacks -/
  gone : c.session.tornDown = true → c.nghttp2 = none

/-- Callbacks that are made in a connection. -/
theorem Projects.calls {c c' : Connection σ} {s : σ} {calls : List (SessionEvent Code)}
    (h : Projects c calls) (hs : c.nghttp2 = some s) (hcalls : Calls Code c.session c'.session) :
    ∃ calls' : List (SessionEvent Code), Projects c' calls' := by
  have hlive : c.session.tornDown = false := by
    by_contra htorn
    rw [Bool.not_eq_false] at htorn
    rw [h.gone htorn] at hs
    cases hs
  have hlive' : c'.session.tornDown = false := (calls_tornDown hcalls).trans hlive
  obtain ⟨es, hes, hexec⟩ := hcalls
  have hsession := h.session
  rw [hlive, if_neg Bool.false_ne_true] at hsession
  refine ⟨calls ++ es, ⟨fun e he => ?_, ?_⟩, fun htorn => by simp [hlive'] at htorn⟩
  · rcases List.mem_append.mp he with he | he
    · exact h.callbacks e he
    · exact hes e he
  · rw [hlive', if_neg Bool.false_ne_true]
    exact sessionMachine.exec_append hsession hexec

theorem projects_move {L : Nghttp2 σ Code} {c c' : Connection σ}
    (h : ∃ calls : List (SessionEvent Code), Projects c calls) (hmove : Move L c c') :
    ∃ calls : List (SessionEvent Code), Projects c' calls := by
  obtain ⟨calls, h⟩ := h
  cases hmove with
  | arrive data => exact ⟨calls, h.toLedBy, h.gone⟩
  | write n due => exact ⟨calls, h.toLedBy, h.gone⟩
  | due due => exact ⟨calls, h.toLedBy, h.gone⟩
  | start halive hnew s hs =>
      -- a session that is torn down does not start again
      refine ⟨calls, h.toLedBy, fun htorn => ?_⟩
      have hlive := c.tornDown_of_alive halive
      rw [show c.session.tornDown = true from htorn] at hlive
      cases hlive
  | @recv s hs n t hrecv =>
      have hcalls := L.memRecv_calls (s, c.session) c.input
      rw [hrecv] at hcalls
      exact h.calls hs hcalls
  | take hs hoffer hroom => exact h.calls hs ((L.held_calls hoffer).trans (L.taken_calls hoffer))
  | idle hs hoffer => exact h.calls hs (idle_calls L hoffer)
  | delete hlive =>
      unfold Connection.delete
      split
      · exact ⟨calls, h⟩
      · next hsound =>
          have hsession := h.session
          rw [hlive, if_neg Bool.false_ne_true] at hsession
          -- the teardown is the last event of the session
          have hidle : Idle c.session := sessionMachine.exec_invariant (I := Idle)
            (fun s e s' hs hstep => hs.step hstep) Idle.init hsession
          have htorn : (deleteHttp2SessionData c.session).tornDown = true := by
            rw [hidle.unlinked.deleteHttp2SessionData]
          refine ⟨calls, ⟨h.callbacks, ?_⟩, fun _ => rfl⟩
          show sessionMachine.exec Session.init
            (if (deleteHttp2SessionData c.session).tornDown then calls ++ [.teardown] else calls) =
              some (deleteHttp2SessionData c.session)
          rw [htorn, if_pos rfl]
          refine sessionMachine.exec_append hsession ?_
          simp [Machine.exec, sessionMachine, sessionStep, hsound, hlive]

/-- A session that callbacks have led to has survived exactly if they were harmless. -/
theorem LedBy.harmless_iff {s : Session} {calls : List (SessionEvent Code)} (h : LedBy s calls) :
    Pointed s ∧ (s.crashed = false ↔ sessionMachine.Meets Harmless Session.init calls) := by
  have hsession := h.session
  cases htorn : s.tornDown with
  | false =>
      rw [htorn, if_neg Bool.false_ne_true] at hsession
      obtain ⟨hpointed, hsurvives⟩ := Pointed.init.run hsession
      exact ⟨hpointed, hsurvives.trans (and_iff_right rfl)⟩
  | true =>
      -- the teardown accesses nothing, and is there for a session that has survived
      rw [htorn, if_pos rfl] at hsession
      obtain ⟨s₀, hcalls, hlast⟩ := sessionMachine.exec_append_eq_some.mp hsession
      obtain ⟨hpointed, hsurvives⟩ := Pointed.init.run hcalls
      obtain ⟨s', hstep, hend⟩ := sessionMachine.exec_cons_eq_some.mp hlast
      obtain rfl : s' = s := Option.some.inj hend
      have hteardown : sessionStep s₀ (.teardown : SessionEvent Code) = some s' := hstep
      obtain ⟨hpointed', hsurvives'⟩ := hpointed.step hteardown
      refine ⟨hpointed', ?_⟩
      rw [hsurvives', hsurvives]
      exact (and_iff_left ⟨rfl, rfl⟩).trans (and_iff_right rfl)

/-- **In every run, the session of a connection is one that callbacks of `nghttp2` have led to, torn
down behind them, once, if the connection was deleted.  No access and no assertion has failed
exactly if these callbacks were harmless; the process is still there exactly if, besides, the
connection was not deleted.** -/
theorem connection_survives_iff (L : Nghttp2 σ Code) {es : List ConnectionEvent} {c : Connection σ}
    (hexec : (connectionMachine L).exec Connection.create es = some c) :
    (∃ calls : List (SessionEvent Code), LedBy c.session calls) ∧
      ∀ calls : List (SessionEvent Code), LedBy c.session calls →
        (c.session.crashed = false ↔ sessionMachine.Meets Harmless Session.init calls) ∧
        (c.session.running = true ↔
          sessionMachine.Meets Harmless Session.init calls ∧ c.session.tornDown = false) := by
  constructor
  · obtain ⟨calls, h⟩ := connection_invariant L
      (I := fun c => ∃ calls : List (SessionEvent Code), Projects c calls)
      (fun _ _ => projects_move) ⟨[], ⟨by simp, rfl⟩, fun _ => rfl⟩ hexec
    exact ⟨calls, h.toLedBy⟩
  · intro calls hled
    obtain ⟨hpointed, hsurvives⟩ := hled.harmless_iff
    refine ⟨hsurvives, ?_⟩
    rw [← hsurvives, Session.running, hpointed.aborted, Bool.and_eq_true, Bool.not_eq_true',
      Bool.not_eq_true']

theorem isTeardown_requestOn (streamId : ℤ) (path : Bytes) :
    ∀ e ∈ requestOn streamId path, e.isTeardown = false := by
  simp [requestOn, SessionEvent.isTeardown]

/-- HEADERS for `/\` on stream 1. -/
def headersFrame : Bytes :=
  [0, 0, 9, 1, 5, 0, 0, 0, 1, 4, 2, 47, 92, 130, 135, 1, 1, 97]

/-- A client that sends its settings, and this request. -/
def requestOnly : Nghttp2 (List SettingsFrame) Unit :=
  (Nghttp2.answering SettingsFrame.code .settings fun data =>
    if data = headersFrame then [] else [.ack]).calling
      (fun data => if data = headersFrame then requestOn 1 (ascii "/\\") else [])
      fun data e he => by
        split at he
        · exact isTeardown_requestOn 1 _ e he
        · cases he

/-- Settings, and the request. -/
def requestExchange : List ConnectionEvent :=
  [.event true none (some (ascii "h2")), .arrive clientPreface, .readable, .arrive headersFrame,
    .readable]

/-- The request is survived, and the end of the connection is not. -/
theorem connection_survives_request : ∃ c c', (connectionMachine requestOnly).exec Connection.create
      requestExchange = some c ∧
    LedBy c.session (requestOn 1 (ascii "/\\")) ∧ c.session.running = true ∧
    (connectionMachine requestOnly).exec Connection.create
      (requestExchange ++ [.event false none none]) = some c' ∧
    LedBy c'.session (requestOn 1 (ascii "/\\")) ∧ c'.session.crashed = false ∧
    c'.session.running = false := by
  obtain ⟨c, hexec, hled, hlive⟩ : ∃ c, (connectionMachine requestOnly).exec Connection.create
      requestExchange = some c ∧
      LedBy c.session (requestOn 1 (ascii "/\\")) ∧ c.session.tornDown = false :=
    ⟨_, rfl, ⟨isTeardown_requestOn 1 _, rfl⟩, rfl⟩
  obtain ⟨c', hexec', hled', htorn⟩ : ∃ c', (connectionMachine requestOnly).exec Connection.create
      (requestExchange ++ [.event false none none]) = some c' ∧
      LedBy c'.session (requestOn 1 (ascii "/\\")) ∧ c'.session.tornDown = true :=
    ⟨_, rfl, ⟨isTeardown_requestOn 1 _, rfl⟩, rfl⟩
  obtain ⟨-, hrunning⟩ := (connection_survives_iff requestOnly hexec).2 _ hled
  obtain ⟨hsound, hrunning'⟩ := (connection_survives_iff requestOnly hexec').2 _ hled'
  refine ⟨c, c', hexec, hled, hrunning.mpr ⟨by decide, hlive⟩, hexec', hled',
    hsound.mpr (by decide), Bool.eq_false_iff.mpr fun h => ?_⟩
  rw [(hrunning'.mp h).2] at htorn
  cases htorn

end Gfhttpd.Http2
