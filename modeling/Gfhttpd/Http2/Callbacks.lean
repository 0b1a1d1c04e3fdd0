import Gfhttpd.Http2.Session
import Gfhttpd.Lib.Transition
import Gfhttpd.Router.Router

/-!
# The callbacks of an HTTP/2 session (`main/http2/event_cb.c`)

`nghttp2` calls these while it reads frames.  A callback gets the stream's `http_stream`
through the pointer kept by `nghttp2`, so it may find no stream, and it goes through `get` for
every access.
-/

namespace Gfhttpd.Http2

open Http Router Transition

variable {Code : Type}

/-! ## Decoding -/

/-- `isxdigit`. -/
def isxdigit (c : UInt8) : Bool :=
  (48 ≤ c && c ≤ 57) || (65 ≤ c && c ≤ 70) || (97 ≤ c && c ≤ 102)

/-- `hex_to_uint`. -/
def hexToUint (c : UInt8) : UInt8 :=
  if 48 ≤ c ∧ c ≤ 57 then c - 48
  else if 65 ≤ c ∧ c ≤ 70 then c - 65 + 10
  else if 97 ≤ c ∧ c ≤ 102 then c - 97 + 10
  else 0

/-- The loop of `percent_decode` from index `i` on: the index it ends at, and `res`. -/
def percentDecodeLoop (value : Bytes) (valuelen : ℕ) : ℕ → ℕ → Bytes → ℕ × Bytes
  | 0, i, res => (i, res)
  | fuel + 1, i, res =>
      -- the last two bytes are copied behind the loop
      if i < valuelen - 2 then
        let c := value.getD i 0
        let h := value.getD (i + 1) 0
        let l := value.getD (i + 2) 0
        if c ≠ 37 ∨ isxdigit h = false ∨ isxdigit l = false then
          percentDecodeLoop value valuelen fuel (i + 1) (res ++ [c])
        else
          percentDecodeLoop value valuelen fuel (i + 3) (res ++ [hexToUint h <<< 4 + hexToUint l])
      else (i, res)

/-- `percent_decode`: the buffer up to its closing NUL.  `value` is the memory from the pointer
on; it may be read past `valuelen`. -/
def percentDecode (value : Bytes) (valuelen : ℕ) : Bytes :=
  if valuelen > 3 then
    match percentDecodeLoop value valuelen valuelen 0 [] with
    | (i, res) => res ++ [value.getD i 0, value.getD (i + 1) 0]
  else value.take valuelen

/-! ## Frames -/

/-- `frame->hd.type`. -/
inductive FrameType where
  | data
  | headers
  | other
deriving DecidableEq, Repr

/-- What the callbacks read of a frame: `request` says that `headers.cat` is
`NGHTTP2_HCAT_REQUEST`, `endStream` that `NGHTTP2_FLAG_END_STREAM` is set. -/
structure Frame where
  type : FrameType
  request : Bool
  endStream : Bool
  streamId : ℤ
deriving DecidableEq, Repr

/-- `on_begin_headers_callback`. -/
def onBeginHeadersCallback (s : Session) (frame : Frame) : Session :=
  if frame.type ≠ .headers ∨ frame.request = false then s
  else
    match createHttpStream s frame.streamId with
    | (p, s) => s.setUserData frame.streamId p

/-- `on_stream_close_callback`; `nghttp2` drops the stream after it. -/
def onStreamCloseCallback (s : Session) (streamId : ℤ) : Session :=
  match s.getUserData streamId with
  | none => s
  | some p =>
      let s := removeStream s p
      if s.crashed then s
      else (deleteHttpStream s p).dropUserData streamId

/-- The value of a pseudo-header up to its `?`, decoded, as a C string. -/
def decodeField (value : Bytes) : Option Bytes :=
  let j := (value.takeWhile (· != 63)).length
  some (cstr (percentDecode value j))

/-- The request after one field of `on_header_callback`. -/
def setPseudoHeader (r : HttpRequest) (name value : Bytes) : HttpRequest :=
  if name = ascii ":path" then { r with url := decodeField value }
  else if name = ascii ":method" then { r with method := decodeField value }
  else if name = ascii ":authority" then { r with authority := decodeField value }
  else if name = ascii ":scheme" then { r with scheme := decodeField value }
  else r

/-- `on_header_callback`. -/
def onHeaderCallback (s : Session) (frame : Frame) (name value : Bytes) : Session :=
  if frame.type ≠ .headers ∨ frame.request = false then s
  else
    match s.getUserData frame.streamId with
    | none => s
    | some p =>
        match s.get p with
        | none => s.crash
        | some hs =>
            let s := { s with fields := s.fields ++ [(p, name, value)] }
            -- every field behind `:path` is ignored
            if hs.request.url.isSome then s
            else s.put p { hs with request := setPseudoHeader hs.request name value }

/-- What is answered while `on_request_recv` runs: by the router's calls, and by
`nghttp2_submit_response`. -/
structure RequestIO (Code : Type) where
  router : RouterIO Code
  submit : Bool

/-- `on_request_recv` of the object at `p`.  Its routes are `NULL`. -/
def onRequestRecv (io : RequestIO Code) (s : Session) (p : ℕ) : Session :=
  match s.get p with
  | none => s.crash
  | some hs =>
      match hs.request.url with
      | none => s
      | some url =>
          -- both early returns are 0, without a response
          if checkPath url = false then s
          else
            let w := s.world.emit (.rootRouter hs.streamId (s.fieldsOf p) hs.request.url)
            let r := rootRouter hs.evbase [] io.router hs w
            let s := { s with world := r.world }
            if r.fault then s.crash
            else if r.fd = -1 then s.put p r.hs
            else
              let s := s.put p { r.hs with sock := r.fd }
              if io.submit then { s with world := s.world.emit (.submitResponse hs.streamId) }
              else { s with world := s.world.closeFd r.fd.toNat }

/-- `on_frame_recv_callback`. -/
def onFrameRecvCallback (io : RequestIO Code) (s : Session) (frame : Frame) : Session :=
  if frame.type = .other ∨ frame.endStream = false then s
  else
    match s.getUserData frame.streamId with
    | none => s
    | some p => onRequestRecv io s p

/-! ## Runs -/

/-- The callbacks of a session, and its teardown. -/
inductive SessionEvent (Code : Type) where
  | beginHeaders (frame : Frame)
  | header (frame : Frame) (name value : Bytes)
  | frameRecv (frame : Frame) (io : RequestIO Code)
  | streamClose (streamId : ℤ)
  | teardown

/-- One callback.  There is none after the teardown or a crash. -/
def sessionStep (s : Session) (e : SessionEvent Code) : Option Session :=
  if s.crashed || s.tornDown then none
  else
    match e with
    | .beginHeaders frame => some (onBeginHeadersCallback s frame)
    | .header frame name value => some (onHeaderCallback s frame name value)
    | .frameRecv frame io => some (onFrameRecvCallback io s frame)
    | .streamClose streamId => some (onStreamCloseCallback s streamId)
    | .teardown => some (deleteHttp2SessionData s)

/-- The runs of a session. -/
def sessionMachine : Machine Session (SessionEvent Code) := ⟨sessionStep⟩

end Gfhttpd.Http2
