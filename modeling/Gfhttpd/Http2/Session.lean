import Gfhttpd.Http.Stream
import Gfhttpd.Router.World

/-!
# Streams of an HTTP/2 session (`main/http2/http2_session.c`)

The `http_stream` objects of a session are kept by address: `objs` holds the object at each
address ever handed out, `none` after it was freed.  Address 0 is the session's own
`http_stream`, the root of the stream list.  `nghttp2` keeps one pointer for each of its
streams, `userData`; it drops the stream, and the pointer with it, when the stream is closed.

`crashed` is a run that ended inside: a failed assertion, or an access through `NULL` or to a
freed object.  `aborted` is one that `free` has ended.
-/

namespace Gfhttpd.Http2

open Http

structure Session where
  objs : List (Option HttpStream)
  /-- stream ids with the pointer `nghttp2` keeps for them -/
  userData : List (ℤ × ℕ)
  /-- every field a callback was given for the stream at an address -/
  fields : List (ℕ × Bytes × Bytes)
  /-- addresses `create_http_stream` returned, in order -/
  created : List ℕ
  /-- addresses `delete_http_stream` was called with, in order -/
  deleted : List ℕ
  tornDown : Bool
  crashed : Bool
  /-- `free` got a pointer that `malloc` did not return -/
  aborted : Bool
  world : World
deriving DecidableEq, Repr

/-- A session after `create_http2_conn`: the root and no stream. -/
def Session.init : Session where
  objs := [some HttpStream.zero]
  userData := []
  fields := []
  created := []
  deleted := []
  tornDown := false
  crashed := false
  aborted := false
  world := World.init

namespace Session

/-- The object at an address. -/
def get (s : Session) (p : ℕ) : Option HttpStream :=
  (s.objs[p]?).join

/-- Store an object at an address. -/
def put (s : Session) (p : ℕ) (hs : HttpStream) : Session :=
  { s with objs := s.objs.set p (some hs) }

/-- The run ends inside. -/
def crash (s : Session) : Session :=
  { s with crashed := true }

/-- The process has neither crashed nor aborted. -/
def running (s : Session) : Bool :=
  !s.crashed && !s.aborted

/-- The header fields of the stream at an address, in order. -/
def fieldsOf (s : Session) (p : ℕ) : List (Bytes × Bytes) :=
  (s.fields.filter fun f => f.1 == p).map Prod.snd

/-- `nghttp2_session_get_stream_user_data`. -/
def getUserData (s : Session) (streamId : ℤ) : Option ℕ :=
  (s.userData.find? fun d => d.1 == streamId).map Prod.snd

/-- The stream is gone for `nghttp2`. -/
def dropUserData (s : Session) (streamId : ℤ) : Session :=
  { s with userData := s.userData.filter fun d => d.1 != streamId }

/-- `nghttp2_session_set_stream_user_data`. -/
def setUserData (s : Session) (streamId : ℤ) (p : ℕ) : Session :=
  let s := s.dropUserData streamId
  { s with userData := s.userData ++ [(streamId, p)] }

theorem get_lt {s : Session} {p : ℕ} {hs : HttpStream} (h : s.get p = some hs) :
    p < s.objs.length := by
  by_contra hge
  simp [get, List.getElem?_eq_none (Nat.le_of_not_lt hge)] at h

theorem get_put_self {s : Session} {p : ℕ} {hs : HttpStream} (h : s.get p = some hs)
    (hs' : HttpStream) : (s.put p hs').get p = some hs' := by
  have hset : (s.objs.set p (some hs'))[p]? = some (some hs') := List.getElem?_set_self (get_lt h)
  simp [get, put, hset]

theorem get_put_of_ne {s : Session} {p q : ℕ} (h : p ≠ q) (hs' : HttpStream) :
    (s.put p hs').get q = s.get q := by
  simp [get, put, h]

/-- Only the root is there at first. -/
theorem eq_zero_of_get_init {p : ℕ} {hs : HttpStream} (h : init.get p = some hs) :
    hs = HttpStream.zero := by
  cases p with
  | zero => exact (Option.some.inj h).symm
  | succ p => simp [get, init] at h

end Session

/-- `add_stream`.  Its whole body is commented out in the source. -/
def addStream (s : Session) (_hs : ℕ) : Session :=
  s

/-- `create_http_stream`: the address of the new object and the session with it. -/
def createHttpStream (s : Session) (streamId : ℤ) : ℕ × Session :=
  let p := s.objs.length
  let s :=
    { s with
      objs := s.objs ++ [some { HttpStream.zero with streamId := streamId, sock := -1 }]
      created := s.created ++ [p] }
  (p, addStream s p)

/-- A session has the objects it had, and the new one. -/
theorem get_createHttpStream {s : Session} {streamId : ℤ} {p : ℕ} {hs : HttpStream}
    (h : (createHttpStream s streamId).2.get p = some hs) :
    s.get p = some hs ∨ hs = { HttpStream.zero with streamId := streamId, sock := -1 } := by
  unfold createHttpStream addStream Session.get at h
  dsimp only at h
  by_cases hp : p < s.objs.length
  · rw [List.getElem?_append_left hp] at h
    exact Or.inl h
  · rw [List.getElem?_append_right (Nat.le_of_not_lt hp)] at h
    cases hk : p - s.objs.length with
    | zero =>
        rw [hk] at h
        exact Or.inr (Option.some.inj h).symm
    | succ k => simp [hk] at h

/-- `delete_http_stream`. -/
def deleteHttpStream (s : Session) (p : ℕ) : Session :=
  match s.get p with
  | none => s.crash
  | some hs =>
      { s with
        objs := s.objs.set p none
        deleted := s.deleted ++ [p]
        world := if hs.sock ≠ -1 then s.world.closeFd hs.sock.toNat else s.world }

/-- `remove_stream`. -/
def removeStream (s : Session) (p : ℕ) : Session :=
  match s.get p with
  | none => s.crash
  | some hs =>
      -- `stream_data->prev->next = stream_data->next`
      match hs.prev with
      | none => s.crash
      | some q =>
          match s.get q with
          | none => s.crash
          | some prev =>
              let s := s.put q { prev with next := hs.next }
              match s.get p with
              | none => s.crash
              | some hs =>
                  match hs.next with
                  | none => s
                  | some n =>
                      match s.get n with
                      | none => s.crash
                      | some next => s.put n { next with prev := hs.prev }

/-- The loop of `delete_http2_session_data`.  Every iteration frees an object, so there are at
most as many as objects. -/
def deleteStreams : ℕ → Session → Option ℕ → Session
  | 0, s, _ => s
  | _ + 1, s, none => s
  | fuel + 1, s, some p =>
      match s.get p with
      | none => s.crash
      | some hs => deleteStreams fuel (deleteHttpStream s p) hs.next

/-- `delete_http2_session_data` of the root.  It ends in `free(session_data)`, a pointer into a block of
the session's pool. -/
def deleteHttp2SessionData (s : Session) : Session :=
  match s.get 0 with
  | none => s.crash
  | some root =>
      let s := deleteStreams s.objs.length s root.next
      { s with tornDown := true, aborted := !s.crashed }

end Gfhttpd.Http2
