import Gfhttpd.Lib.Transition
import Gfhttpd.Router.ModuleCb
import Gfhttpd.Router.Router

/-!
# An HTTP/3 connection (`main/http3/event_cb.c`, `main/http3/http3.c`)

`Conn` is one connection: its `http_stream`, which all its streams share, and one
`FutureWrite` for each response in the making.  The functions are those that run for a
connection whose datagrams were accepted:

- `onHeaders`: the `QUICHE_H3_EVENT_HEADERS` branch of `http3_event_cb`
- `flushEgress`: sending packets, and the connection's timeout
- `futureWriteCb`: the write event of a response
- `moduleTick`: the module event of the connection

What `quiche`, the descriptors and the timers answer is part of the arguments.  `dead` is a run
that ended inside: the process has exited, an assertion failed, or memory was accessed out of
bounds.
-/

namespace Gfhttpd.Http3

open Http Conf Router Modules Transition

variable {Code : Type}

/-! ## State -/

/-- `struct future_write`; `scheduled` says that `fw_event` is pending or active. -/
structure FutureWrite where
  streamId : ℤ
  fd : ℕ
  pos : ℤ
  len : ℤ
  eof : Bool
  scheduled : Bool
deriving DecidableEq, Repr

structure Conn where
  hs : HttpStream
  /-- every `future_write` of the connection, in the order of their creation -/
  writers : List FutureWrite
  /-- the module events, with the stream `root_router` made them for -/
  moduleEvs : List (ℕ × ℤ)
  /-- `timeout_ev` is pending -/
  timeoutPending : Bool
  /-- `quiche_conn_is_closed` -/
  closed : Bool
  dead : Bool
  world : World
deriving DecidableEq, Repr

/-- The `http_stream` `create_conn` returns, with the event base and the `timeout_ev` it is
given after that. -/
def newHttpStream (sock : ℤ) (cid : Bytes) : HttpStream :=
  { HttpStream.zero with
    evbase := true
    timeoutEv := some 0
    sock := sock
    cid := cid
    response := { HttpStream.zero.response with httpStatus := some (ascii "200") } }

/-- A new connection: `timeout_ev` is the first event, and it is pending. -/
def Conn.create (sock : ℤ) (cid : Bytes) : Conn where
  hs := newHttpStream sock cid
  writers := []
  moduleEvs := []
  timeoutPending := true
  closed := false
  dead := false
  world := World.init.newEvent

namespace Conn

/-- The run ends inside. -/
def die (c : Conn) : Conn :=
  { c with dead := true }

/-- Change a response in the making. -/
def modifyWriter (c : Conn) (i : ℕ) (f : FutureWrite → FutureWrite) : Conn :=
  { c with writers := c.writers.modify i f }

end Conn

/-! ## Receiving a request -/

/-- `for_each_header` on one field with a name: the return value and the stream.  Behind the pointer
of an empty name there is a byte that is not the field's (`forEachHeaderRead`): where the source goes
on from it, and it is no colon, the field is one like any other. -/
def forEachHeader (hs : HttpStream) (name value : Bytes) : ℤ × HttpStream :=
  if name.head? = some 58 then
    let r := hs.request
    let v := strndup value value.length
    if name.tail = ascii "path" then
      (if checkPath v then 0 else 1, { hs with request := { r with url := some v } })
    else if name.tail = ascii "method" then (0, { hs with request := { r with method := some v } })
    else if name.tail = ascii "scheme" then (0, { hs with request := { r with scheme := some v } })
    else if name.tail = ascii "authority" then
      (0, { hs with request := { r with authority := some v } })
    else (0, hs)
  else
    let headers := insertHeader hs.request.headers (strndup name name.length) name.length
      (strndup value value.length) value.length
    (0, { hs with request := { hs.request with headers := headers } })

/-- `quiche_h3_event_for_each_header`: field by field, up to the first nonzero result. -/
def forEachHeaderLoop : List (Bytes × Bytes) → HttpStream → ℤ × HttpStream
  | [], hs => (0, hs)
  | f :: fs, hs =>
      match forEachHeader hs f.1 f.2 with
      | (rc, hs) => if rc ≠ 0 then (rc, hs) else forEachHeaderLoop fs hs

/-- The loop with the bytes it reads: `for_each_header` reads `*name` before it looks at `name_len`,
and an empty name ends it with an access outside of the field. -/
def forEachHeaderRead : List (Bytes × Bytes) → HttpStream → Option (ℤ × HttpStream)
  | [], hs => some (0, hs)
  | f :: fs, hs =>
      if f.1 = [] then none
      else
        match forEachHeader hs f.1 f.2 with
        | (rc, hs) => if rc ≠ 0 then some (rc, hs) else forEachHeaderRead fs hs

/-- The entries put into `hs->response.headers` before routing. -/
def initResponse (headers : List Header) : List Header :=
  let headers := insertHeader headers serverStatus.name serverStatus.nName serverStatus.value
    serverStatus.nValue
  let headers := insertHeader headers serverHeader.name serverHeader.nName serverHeader.value
    serverHeader.nValue
  insertHeader headers (ascii "content-length") 14 (ascii "5") 1

/-- `send_response`: a `future_write` whose event is active. -/
def sendResponse (c : Conn) (streamId : ℤ) (fd : ℕ) : Conn :=
  { c with
    writers := c.writers ++
      [{ streamId := streamId, fd := fd, pos := 0, len := -1, eof := false, scheduled := true }] }

/-- `hs` when `root_router` is called for a header block. -/
def prepareRequest (block : List (Bytes × Bytes)) (hs : HttpStream) : HttpStream :=
  -- a nonzero result of the loop is only logged
  let hs := (forEachHeaderLoop block hs).2
  { hs with
    response := { hs.response with
      headers := initResponse hs.response.headers
      contentLenght := toSizeT (-1) } }

/-- The `QUICHE_H3_EVENT_HEADERS` branch behind `root_router`. -/
def onRouted (c : Conn) (streamId : ℤ) (r : RouterResult) : Conn :=
  let c := { c with hs := r.hs, world := r.world }
  if r.fault then c.die
  else if r.fd = -1 then c
  else
    let c :=
      { c with
        world := c.world.emit (.routed streamId r.fd.toNat r.outcome)
        moduleEvs :=
          match r.outcome, r.hs.moduleCbEv with
          | .module, some ev => c.moduleEvs ++ [(ev, streamId)]
          | _, _ => c.moduleEvs }
    sendResponse c streamId r.fd.toNat

/-- The `QUICHE_H3_EVENT_HEADERS` branch of `http3_event_cb`. -/
def onHeaders (routes : List (Route Code)) (io : RouterIO Code) (c : Conn) (streamId : ℤ)
    (block : List (Bytes × Bytes)) : Conn :=
  let hs := prepareRequest block c.hs
  let w := c.world.emit (.rootRouter streamId block hs.request.url)
  onRouted c streamId (rootRouter hs.evbase routes io hs w)

/-! ## Egress -/

/-- What one `flush_egress` is answered: for each packet the results of `quiche_conn_send`
and of the last `sendto` or `send`, then whether the packets ended with `QUICHE_ERR_DONE`, and
`quiche_conn_timeout_as_nanos`. -/
structure FlushIO where
  packets : List (ℤ × ℤ)
  done : Bool
  timeout : ℤ
deriving DecidableEq, Repr

/-- The `timeval` `set_timeout` computes. -/
def timeoutTimer (qTout : ℤ) : Timeval :=
  let tout := (wrap64 (qTout + 999999)).tdiv 1000000
  let sec := tout.tdiv 1000
  let usec := (tout.tmod 1000 % 2 ^ 32 * 1000) % 2 ^ 32
  if usec ≥ 1000000 then ⟨sec + 1, usec - 1000000⟩ else ⟨sec, usec⟩

/-- `set_timeout`. -/
def setTimeout (c : Conn) (qTout : ℤ) : Conn :=
  if qTout ≠ 0 ∧ c.hs.timeoutEv ≠ none then
    { c with hs := { c.hs with timer := timeoutTimer qTout }, timeoutPending := true }
  else c

/-- `flush_egress`.  A packet that is not sent whole ends it. -/
def flushEgress (c : Conn) (io : FlushIO) : Conn :=
  if io.packets.all (fun p => p.2 == p.1) && io.done then setTimeout c io.timeout else c

/-! ## Sending the response -/

/-- `%zu`. -/
def formatSize (n : ℕ) : Bytes :=
  ascii (toString n)

/-- One round of the loop of `get_http3_headers`: the entry of the table afterwards. -/
def fillHeader (httpStatus : Bytes) (len : ℕ) (h : Header) : Header :=
  if strncasecmpEq h.name (ascii ":status") h.nName then
    { h with value := httpStatus, nValue := httpStatus.length }
  else if strncasecmpEq h.name (ascii "content-length") h.nName then
    { h with value := formatSize len, nValue := (formatSize len).length }
  else h

/-- `get_http3_headers`: the table afterwards, and the array for `quiche`.  It fails on an
empty table, and on a `NULL` status. -/
def getHttp3Headers (headers : List Header) (httpStatus : Option Bytes) (len : ℕ) :
    Option (List Header × List (Bytes × Bytes)) :=
  match httpStatus with
  | none => none
  | some status =>
      if lengthHeader headers = 0 then none
      else
        let headers := headers.map (fillHeader status len)
        some (headers, headers.map fun h => (h.name.take h.nName, h.value.take h.nValue))

/-- `sizeof(buf)` in `future_write_cb`. -/
def BUF_SIZE : ℕ := 14515

/-- What one round of the loop is answered: the result of `read`, and that of
`quiche_h3_send_body`. -/
structure Chunk where
  read : ℤ
  sent : ℤ
deriving DecidableEq, Repr

/-- `read` can return `n`: an error, the end of the input, or some of the bytes there are. -/
def Fd.canRead (fd : Fd) (n : ℤ) : Bool :=
  n == -1 || (n == 0 && decide (fd.content.length ≤ fd.offset)) ||
    (decide (0 < n) && decide (n ≤ BUF_SIZE) && decide (fd.offset + n ≤ fd.content.length))

/-- The bytes a `read` of `n` bytes puts into `buf`. -/
def Fd.body (fd : Fd) (n : ℤ) : Bytes :=
  (fd.content.drop fd.offset).take n.toNat

/-- The descriptor after a `read` of `n` bytes. -/
def Fd.advance (fd : Fd) (n : ℤ) : Fd :=
  { fd with offset := fd.offset + n.toNat }

/-- `QUICHE_H3_ERR_DONE`. -/
def QUICHE_H3_ERR_DONE : ℤ := -1

/-- How the loop of `future_write_cb` ends. -/
inductive LoopEnd where
  /-- `fw->pos` has reached `fw->len` -/
  | sent
  /-- part of a chunk was left: `fw_event` is added again -/
  | again
  /-- `exit(0)` -/
  | exited
  /-- the chunk's length was -1: `quiche` is given bytes outside of `buf` -/
  | outOfBounds
deriving DecidableEq, Repr

/-- The loop of `future_write_cb`. -/
structure LoopResult where
  fw : FutureWrite
  fd : Fd
  /-- the calls of `quiche_h3_send_body` -/
  effects : List Effect
  ending : LoopEnd
deriving DecidableEq, Repr

/-- The loop of `future_write_cb`, for the response number `i`.  It uses up its answers; `none`
is a loop that has not ended with them, or an answer no system call gives. -/
def writeLoop (i : ℕ) : List Chunk → FutureWrite → Fd → Option LoopResult
  | [], fw, fd => if fw.pos < fw.len then none else some ⟨fw, fd, [], .sent⟩
  | ch :: chunks, fw, fd =>
      if ¬ fw.pos < fw.len ∨ ¬ Fd.canRead fd ch.read then none
      else
        let body := Fd.body fd ch.read
        let fd := Fd.advance fd ch.read
        -- `eof` is decided by what was read, before `quiche` is asked how much it takes
        let fw := { fw with eof := fw.eof || decide (wrap32 (fw.pos + ch.read) ≥ fw.len) }
        if ch.read = -1 then
          if chunks = [] then some ⟨fw, fd, [], .outOfBounds⟩ else none
        else if ch.sent > ch.read then none
        else
          let call := Effect.sendBody i fw.streamId fw.fd body ch.sent fw.eof
          if ch.sent = QUICHE_H3_ERR_DONE then
            if chunks = [] then some ⟨fw, fd, [call], .exited⟩ else none
          else
            -- any other error of `quiche` is added to `fw->pos` as if it were a length
            let fw := { fw with pos := wrap32 (fw.pos + ch.sent) }
            if ch.sent ≠ ch.read then
              if chunks = [] then some ⟨fw, fd, [call], .again⟩ else none
            else
              match writeLoop i chunks fw fd with
              | none => none
              | some r => some { r with effects := call :: r.effects }

/-- What one `future_write_cb` is answered. -/
structure TickIO where
  chunks : List Chunk
  flush : FlushIO
deriving DecidableEq, Repr

/-- The end of `future_write_cb` behind its loop: a response with `eof` is cleaned up, also
when part of its last chunk was left. -/
def finishWrite (c : Conn) (i : ℕ) (r : LoopResult) (flush : FlushIO) : Conn :=
  match r.ending with
  | .exited => (c.modifyWriter i fun _ => r.fw).die
  | .outOfBounds => (c.modifyWriter i fun _ => r.fw).die
  | .again =>
      let c := flushEgress c flush
      if r.fw.eof then
        { c.modifyWriter i fun _ => { r.fw with scheduled := false } with
          world := c.world.closeFd r.fw.fd }
      else c.modifyWriter i fun _ => { r.fw with scheduled := true }
  | .sent =>
      let c := flushEgress c flush
      if r.fw.eof then
        { c.modifyWriter i fun _ => { r.fw with scheduled := false } with
          world := c.world.closeFd r.fw.fd }
      else c.modifyWriter i fun _ => { r.fw with scheduled := false }

/-- The end of `future_write_cb` from `lseek` on. -/
def writeBody (c : Conn) (i : ℕ) (fw : FutureWrite) (io : TickIO) : Option Conn :=
  match c.world.fds[fw.fd]? with
  | none => none
  | some fd =>
      match writeLoop i io.chunks fw (fd.seek fw.pos) with
      | none => none
      | some r =>
          let w := c.world.modifyFd fw.fd fun _ => r.fd
          let c := { c with world := { w with log := w.log ++ r.effects } }
          some (finishWrite c i r io.flush)

/-- `future_write_cb` of the response number `i`.  The event base has taken the event off its
queues before it calls. -/
def futureWriteCb (c : Conn) (i : ℕ) (io : TickIO) : Option Conn :=
  match c.writers[i]? with
  | none => none
  | some fw =>
      let fw := { fw with scheduled := false }
      if c.closed then
        if io.chunks = [] then some (c.modifyWriter i fun _ => fw) else none
      else if c.hs.response.headersSent = false ∧ c.hs.response.contentLenght ≠ SIZE_MAX then
        match getHttp3Headers c.hs.response.headers c.hs.response.httpStatus
            c.hs.response.contentLenght with
        | none => if io.chunks = [] then some c.die else none
        | some (headers, array) =>
            let c :=
              { c with
                hs := { c.hs with
                  response := { c.hs.response with headers := headers, headersSent := true } }
                world := c.world.emit (.sendResponse fw.streamId array) }
            writeBody c i { fw with len := wrap32 c.hs.response.contentLenght } io
      else if c.hs.response.headersSent = false then
        -- the module has not answered yet
        if io.chunks = [] then some (c.modifyWriter i fun _ => { fw with scheduled := true })
        else none
      else writeBody c i fw io

/-- The stream a module event was made for. -/
def Conn.eventStream (c : Conn) (ev : ℕ) : ℤ :=
  ((c.moduleEvs.find? fun e => e.1 == ev).map Prod.snd).getD 0

/-- The connection behind `module_cb` for a stream.  An event added for the rest of the chain
belongs to the same stream. -/
def afterModule (c : Conn) (stream : ℤ) (r : ModuleResult) : Conn :=
  { c with
    hs := r.hs
    world :=
      match r.answer with
      | none => r.world
      | some (status, len) => r.world.emit (.answered stream status len)
    moduleEvs :=
      match r.hs.moduleCbEv with
      | none => c.moduleEvs
      | some new =>
          if r.hs.moduleCbEv = c.hs.moduleCbEv then c.moduleEvs else c.moduleEvs ++ [(new, stream)]
    dead := c.dead || r.fault }

/-- The module event `ev` of the connection runs `module_cb`. -/
def moduleTick (c : Conn) (ev : ℕ) (io : ModuleIO) : Conn :=
  afterModule c (c.eventStream ev) (moduleCb io c.hs (c.world.delEvent ev))

/-! ## Runs -/

/-- What happens to a connection. -/
inductive ConnEvent (Code : Type) where
  | headers (streamId : ℤ) (block : List (Bytes × Bytes)) (io : RouterIO Code)
  | writeTick (i : ℕ) (io : TickIO)
  | moduleTick (ev : ℕ) (io : ModuleIO)
  | close

/-- One event.  A timer event runs only while it is scheduled, and nothing runs in a dead
process. -/
def connStep (routes : List (Route Code)) (c : Conn) : ConnEvent Code → Option Conn
  | .headers streamId block io =>
      if c.dead || c.closed then none else some (onHeaders routes io c streamId block)
  | .writeTick i io =>
      if c.dead || !((c.writers[i]?.map FutureWrite.scheduled).getD false) then none
      else futureWriteCb c i io
  | .moduleTick ev io =>
      if c.dead || !(c.world.pending.contains ev) then none else some (moduleTick c ev io)
  | .close => if c.dead || c.closed then none else some { c with closed := true }

/-- The runs of a connection. -/
def connMachine (routes : List (Route Code)) : Machine Conn (ConnEvent Code) := ⟨connStep routes⟩

end Gfhttpd.Http3
