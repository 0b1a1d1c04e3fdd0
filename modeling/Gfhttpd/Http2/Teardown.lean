import Gfhttpd.Http2.Requests
import Gfhttpd.Http2.StreamList
import Gfhttpd.Lib.Ledger

/-!
# What a session acquires, and what its teardown releases (`main/http2`)

`Held` is a session with the buffers that `percent_decode` has returned for it.  The pool of
`create_http2_conn` holds the session's `http_stream` and its `http2_session_data`; the streams and
the buffers come from `malloc`.

- `owed`, `paid`: the releases that are due, and those that are made until the end
- `Idle`: nothing is linked, answered or deleted in any run
- `paid_eq`: the teardown calls `free` for a part of the pool, and releases nothing else
-/

namespace Gfhttpd.Http2

open Http Ledger Router Transition

variable {Code : Type}

/-! ## Buffers -/

/-- A pointer of `stream_data->request` that is set by `on_header_callback`. -/
inductive Pointer where
  | url
  | method
  | authority
  | scheme
deriving DecidableEq, Repr

/-- The pointer for a field name. -/
def pointerOf (name : Bytes) : Option Pointer :=
  if name = ascii ":path" then some .url
  else if name = ascii ":method" then some .method
  else if name = ascii ":authority" then some .authority
  else if name = ascii ":scheme" then some .scheme
  else none

/-- The buffer that `on_header_callback` has from `percent_decode`: the object and the pointer it
goes to.  A pointer that is overwritten is not freed. -/
def decodedTo (s : Session) : SessionEvent Code → Option (ℕ × Pointer)
  | .header frame name _ =>
      if frame.type ≠ .headers ∨ frame.request = false then none
      else
        match s.getUserData frame.streamId with
        | none => none
        | some p =>
            match s.get p with
            | none => none
            | some hs =>
                -- with a url nothing is decoded any more
                if hs.request.url.isSome then none else (pointerOf name).map fun k => (p, k)
  | _ => none

/-! ## Runs -/

/-- A session with the buffers of its streams, in the order they were made. -/
structure Held where
  session : Session
  buffers : List (ℕ × Pointer)

/-- Behind `create_http2_conn`. -/
def Held.init : Held := ⟨Session.init, []⟩

/-- One callback. -/
def heldStep (h : Held) (e : SessionEvent Code) : Option Held :=
  (sessionStep h.session e).map fun s =>
    { session := s, buffers := h.buffers ++ (decodedTo h.session e).toList }

/-- The runs of a session with its buffers. -/
def heldMachine : Machine Held (SessionEvent Code) := ⟨heldStep⟩

/-! ## The ledger -/

/-- What `free` is called with. -/
inductive Block where
  /-- `session_data`, which `mp_calloc` has returned -/
  | sessionData
  | stream (p : ℕ)
  | buffer (n : ℕ)
deriving DecidableEq, Repr

/-- A call that gives something back. -/
inductive Release where
  /-- `mp_delete` of the session's pool -/
  | mpDelete
  | free (b : Block)
  | close (fd : ℕ)
deriving DecidableEq, Repr

/-- The releases that are due at the end: each by the allocator it came from. -/
def Held.owed (h : Held) : List Release :=
  .mpDelete :: h.session.created.map (fun p => .free (.stream p)) ++
    (List.range h.buffers.length).map (fun n => .free (.buffer n)) ++
    (List.range h.session.world.fds.length).map .close

/-- The buffer in `hs->request.url`, which is set once. -/
def Held.urlBuffer (h : Held) (p : ℕ) : Option ℕ :=
  h.buffers.findIdx? fun b => b == (p, .url)

/-- The releases that were made: `delete_http_stream` frees the object and its `url`,
`delete_http2_session_data` frees `session_data`. -/
def Held.paid (h : Held) : List Release :=
  h.session.deleted.map (fun p => .free (.stream p)) ++
    (h.session.deleted.filterMap h.urlBuffer).map (fun n => .free (.buffer n)) ++
    h.session.world.closes.map .close ++
    if h.session.tornDown then [.free .sessionData] else []

/-! ## Idle sessions -/

/-- Nothing is linked or deleted, nothing is answered, and there is no descriptor. -/
structure Idle (s : Session) : Prop where
  unlinked : Unlinked s
  unserved : Unserved s
  fds : s.world.fds = []

theorem Idle.init : Idle Session.init :=
  ⟨Unlinked.init, Unserved.init, rfl⟩

/-- A live stream was created. -/
theorem Unlinked.created_of_getUserData {s : Session} (h : Unlinked s) {streamId : ℤ} {p : ℕ}
    (hdata : s.getUserData streamId = some p) : s.created ≠ [] := by
  intro hnil
  simp [Session.getUserData, h.userData hnil] at hdata

theorem Unlinked.crash {s : Session} (h : Unlinked s) (hne : s.created ≠ []) (w : World) :
    Unlinked ({ s with world := w }).crash :=
  ⟨h.root, h.links, h.userData, h.deleted, fun hnil => absurd hnil hne⟩

/-- A new request is stored at an object with the links it has. -/
theorem Unlinked.put {s : Session} (h : Unlinked s) {p : ℕ} {hs : HttpStream}
    (hget : s.get p = some hs) (r : HttpRequest) : Unlinked (s.put p { hs with request := r }) := by
  refine ⟨?_, fun q hq hget' => ?_, h.userData, h.deleted, h.sound⟩
  · -- the request is stored at the root, or at a stream
    by_cases hp : p = 0
    · subst hp
      rw [Session.get_put_self hget]
      rfl
    · rw [Session.get_put_of_ne hp]
      exact h.root
  · by_cases hpq : p = q
    · subst hpq
      rw [Session.get_put_self hget] at hget'
      obtain rfl := Option.some.inj hget'
      exact h.links p hs hget
    · rw [Session.get_put_of_ne hpq] at hget'
      exact h.links q hq hget'

theorem Unlinked.onHeaderCallback {s : Session} (h : Unlinked s) (frame : Frame)
    (name value : Bytes) : Unlinked (onHeaderCallback s frame name value) := by
  unfold Http2.onHeaderCallback
  split
  · exact h
  · cases hdata : s.getUserData frame.streamId with
    | none => exact h
    | some p =>
        have hne := h.created_of_getUserData hdata
        cases hget : s.get p with
        | none =>
            simp only [hget]
            exact h.crash hne s.world
        | some hs =>
            have hlogged : Unlinked { s with fields := s.fields ++ [(p, name, value)] } :=
              ⟨h.root, h.links, h.userData, h.deleted, h.sound⟩
            simp only [hget]
            split
            · exact hlogged
            · exact hlogged.put hget _

/-- `on_request_recv` does nothing, or ends in the router's assertion. -/
theorem Unserved.onRequestRecv_eq {s : Session} (h : Unserved s) (io : RequestIO Code) (p : ℕ) :
    Http2.onRequestRecv io s p = s ∨
      ∃ w, w.fds = s.world.fds ∧ Http2.onRequestRecv io s p = ({ s with world := w }).crash := by
  unfold Http2.onRequestRecv
  split
  · exact Or.inr ⟨s.world, rfl, rfl⟩
  · next hs hget =>
      split
      · exact Or.inl rfl
      · split
        · exact Or.inl rfl
        · -- `assert(loop)` fails
          simp only [h.evbase p hs hget, Unserved.rootRouter_no_loop, if_true]
          let called := Effect.rootRouter hs.streamId (s.fieldsOf p) hs.request.url
          exact Or.inr ⟨s.world.emit called, rfl, rfl⟩

/-- **No event of a session links, answers or deletes anything.** -/
theorem Idle.step {s s' : Session} {e : SessionEvent Code} (h : Idle s)
    (hstep : sessionStep s e = some s') : Idle s' := by
  have hunserved := h.unserved.step hstep
  simp only [sessionStep, Option.ite_none_left_eq_some] at hstep
  obtain ⟨hlive, hstep⟩ := hstep
  cases e with
  | beginHeaders frame =>
      -- `add_stream` has an empty body, so the new object is not linked
      obtain rfl := Option.some.inj hstep
      have hlist : listStep s (.beginHeaders frame) = some (onBeginHeadersCallback s frame) :=
        if_neg hlive
      refine ⟨(listStep_spec h.unlinked hlist).1, hunserved, ?_⟩
      unfold onBeginHeadersCallback
      split
      · exact h.fds
      · exact h.fds
  | header frame name value =>
      obtain rfl := Option.some.inj hstep
      refine ⟨h.unlinked.onHeaderCallback frame name value, hunserved, ?_⟩
      unfold onHeaderCallback
      repeat' split
      all_goals exact h.fds
  | frameRecv frame io =>
      obtain rfl := Option.some.inj hstep
      unfold onFrameRecvCallback at hunserved ⊢
      split
      · exact h
      · next hframe =>
          rw [if_neg hframe] at hunserved
          cases hdata : s.getUserData frame.streamId with
          | none => exact h
          | some p =>
              have hne := h.unlinked.created_of_getUserData hdata
              simp only [hdata] at hunserved
              -- the streams have no event base, so no answer gets as far as a descriptor
              rcases h.unserved.onRequestRecv_eq io p with hsame | ⟨w, hfds, hcrash⟩
              · simp only [hsame]
                exact h
              · simp only [hcrash] at hunserved ⊢
                exact ⟨h.unlinked.crash hne w, hunserved, hfds.trans h.fds⟩
  | streamClose streamId =>
      obtain rfl := Option.some.inj hstep
      have hlist : listStep s (.streamClose streamId) = some (onStreamCloseCallback s streamId) :=
        if_neg hlive
      refine ⟨(listStep_spec h.unlinked hlist).1, hunserved, ?_⟩
      unfold onStreamCloseCallback
      split
      · exact h.fds
      · next p _ =>
          -- `remove_stream` reads through `prev`, which is null
          rw [h.unlinked.removeStream]
          exact h.fds
  | teardown =>
      obtain rfl := Option.some.inj hstep
      have hlist : listStep s .teardown = some (deleteHttp2SessionData s) := if_neg hlive
      -- the loop over `root->next` ends before it begins
      refine ⟨(listStep_spec h.unlinked hlist).1, hunserved, ?_⟩
      rw [h.unlinked.deleteHttp2SessionData]
      exact h.fds

theorem Idle.heldStep {h h' : Held} {e : SessionEvent Code} (hidle : Idle h.session)
    (hstep : heldStep h e = some h') : Idle h'.session := by
  obtain ⟨s, hs, rfl⟩ := Option.map_eq_some_iff.mp hstep
  exact hidle.step hs

/-! ## Every session -/

/-- **When a session is torn down, whatever it has done, the only release was that of a part of its
pool with `free`.** -/
theorem paid_eq {es : List (SessionEvent Code)} {h : Held}
    (hexec : heldMachine.exec Held.init es = some h) (htorn : h.session.tornDown = true) :
    h.paid = [.free .sessionData] := by
  have hidle : Idle h.session := heldMachine.exec_invariant (I := fun h => Idle h.session)
    (fun h e h' hidle hstep => hidle.heldStep hstep) Idle.init hexec
  simp [Held.paid, World.closes, hidle.unlinked.deleted, hidle.fds, htorn]

/-- `free` of `session_data` settles nothing: the pool is still owed. -/
theorem Held.not_settled {h : Held} (hpaid : h.paid = [.free .sessionData]) :
    ¬ Settled h.owed h.paid := by
  intro hsettled
  have hmem : Release.mpDelete ∈ h.paid := hsettled.mem_iff.mpr (List.mem_cons_self ..)
  rw [hpaid] at hmem
  cases List.mem_singleton.mp hmem

/-- **No run of a session up to its teardown releases what was acquired**: the one release is not
due, and all that is due is not made. -/
theorem session_not_settled {es : List (SessionEvent Code)} {h : Held}
    (hexec : heldMachine.exec Held.init es = some h) (htorn : h.session.tornDown = true) :
    h.paid = [.free .sessionData] ∧ ¬ Settled h.owed h.paid :=
  ⟨paid_eq hexec htorn, Held.not_settled (paid_eq hexec htorn)⟩

/-- A stream with a method and a path, in a session that is then torn down. -/
def methodAndPath : List (SessionEvent Unit) :=
  [ .beginHeaders ⟨.headers, true, true, 1⟩,
    .header ⟨.headers, true, true, 1⟩ (ascii ":method") (ascii "GET"),
    .header ⟨.headers, true, true, 1⟩ (ascii ":path") (ascii "a"),
    .teardown ]

/-- The stream and its two buffers are due, and stay. -/
theorem session_not_settled_path : ∃ h, heldMachine.exec Held.init methodAndPath = some h ∧
    h.owed = [.mpDelete, .free (.stream 1), .free (.buffer 0), .free (.buffer 1)] ∧
    h.paid = [.free .sessionData] ∧ ¬ Settled h.owed h.paid := by
  have hexec : heldMachine.exec Held.init methodAndPath = some _ := rfl
  exact ⟨_, hexec, rfl, session_not_settled hexec rfl⟩

/-- A session that is torn down, with more owed than its one release. -/
theorem teardown_keeps : ∃ h, heldMachine.exec Held.init methodAndPath = some h ∧
    h.session.tornDown = true ∧ ¬ Settled h.owed h.paid :=
  ⟨_, rfl, rfl, Held.not_settled rfl⟩

end Gfhttpd.Http2
