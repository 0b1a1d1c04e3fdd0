import Gfhttpd.Http3.Frame
import Gfhttpd.Http3.Lifetime
import Gfhttpd.Lib.Sweep

/-!
# The server on its hash table (`main/http3/event_cb.c`, `http3.c`, `main/http_stream`)

`Server` has the connection table as a list.  Here it is the hash table of the source, with its
handles among the fields of the connections: `get_connection` looks into it, and the loop over the
table follows the pointers of handles while connections are freed in it.

The hash table is a parameter, `U`, with `next` for the pointer to the next element.  What was
freed may hold anything, `garbage`; an access to it ends the run.

- `LinkedServer`, `linkedMachine`: the server
- `http3Cleanup`: the loop over the table when the process ends
-/

namespace Gfhttpd.Http3

open HandleTable Http Conf Loop Modules Router Transition

variable {Code : Type} {H T : Type*}

/-! ## State -/

/-- Where `http3_event_cb` is, if it runs. -/
inductive LinkedPhase where
  | idle
  | receiving
  | polling (id : ℕ)
  /-- `hs` and `tmp` of `HASH_ITER` -/
  | egress (hs tmp : Option ℕ)
deriving DecidableEq, Repr

/-- The server with its hash table. -/
structure LinkedServer (H T : Type*) where
  objs : List HttpConn
  /-- the handles of all connections, `head`, and the memory of the table -/
  links : Table ℕ H T
  /-- the connections that were given to `http3_connection_cleanup`, in that order -/
  freed : List ℕ
  phase : LinkedPhase
  /-- the process has ended, or memory that was freed was accessed -/
  dead : Bool

namespace LinkedServer

/-- `http3_event_cb` returns. -/
def ret (s : LinkedServer H T) : LinkedServer H T :=
  { s with phase := .idle }

/-- Memory that was freed is accessed. -/
def die (s : LinkedServer H T) : LinkedServer H T :=
  { s with dead := true }

/-- The connection of an `http_stream`. -/
def conn (s : LinkedServer H T) (id : ℕ) : Option Conn :=
  s.objs[id]?.map HttpConn.conn

/-- The key of an `http_stream` in the table. -/
def cid (s : LinkedServer H T) (id : ℕ) : Bytes :=
  ((s.conn id).map fun c => c.hs.cid).getD []

/-- Store the connection of an `http_stream`. -/
def setConn (s : LinkedServer H T) (id : ℕ) (c : Conn) : LinkedServer H T :=
  { s with
    objs := s.objs.modify id fun o => { o with conn := c }
    dead := s.dead || c.dead }

/-- `http3_params->http3` is set. -/
def setHttp3 (s : LinkedServer H T) (id : ℕ) : LinkedServer H T :=
  { s with objs := s.objs.modify id fun o => { o with http3 := true } }

end LinkedServer

section Linked

variable (U : Ops ℕ Bytes H T) (next : Table ℕ H T → ℕ → Option ℕ) (garbage : ℕ → H)

/-- No connection. -/
def LinkedServer.init (handle : ℕ → H) : LinkedServer H T :=
  ⟨[], ⟨handle, none, U.empty⟩, [], .idle, false⟩

namespace LinkedServer

/-! ## The connection table -/

/-- `get_connection`. -/
def getConnection (s : LinkedServer H T) (cid : Bytes) : Option ℕ :=
  U.find s.cid s.links cid

/-- `add_connection` for a new `http_stream`. -/
def addConnection (s : LinkedServer H T) (c : Conn) : LinkedServer H T :=
  let id := s.objs.length
  match s.getConnection U c.hs.cid with
  | none =>
      let s : LinkedServer H T := { s with objs := s.objs ++ [⟨c, false⟩] }
      { s with links := U.add s.cid s.links id }
  | some old =>
      -- the handle is copied as well
      { s with
        objs := s.objs.modify old (fun o =>
          { conn := { o.conn with hs := c.hs, closed := c.closed }, http3 := false }) ++ [⟨c, false⟩]
        links :=
          { s.links with handle := Function.update s.links.handle old (s.links.handle id) }
        dead := true }

/-- `delete_connection`. -/
def deleteConnection (s : LinkedServer H T) (id : ℕ) : LinkedServer H T :=
  { s with links := U.del s.links id }

/-- `http3_connection_cleanup`.  The handle is in the memory that is freed. -/
def http3ConnectionCleanup (s : LinkedServer H T) (id : ℕ) : LinkedServer H T :=
  { s with
    objs := s.objs.modify id fun o => { conn := o.conn.release, http3 := false }
    links := { s.links with handle := Function.update s.links.handle id (garbage id) }
    freed := s.freed ++ [id] }

/-- A connection is over. -/
def dropConnection (s : LinkedServer H T) (id : ℕ) : LinkedServer H T :=
  (s.deleteConnection U id).http3ConnectionCleanup garbage id

/-- `HASH_ITER` gets to a connection: the pointer in its handle is read, before the body of the loop is
run. -/
def walkTo (s : LinkedServer H T) (hs : Option ℕ) : LinkedServer H T :=
  if hs.any fun id => id ∈ s.freed then s.die
  else { s with phase := .egress hs (hs.bind (next s.links)) }

/-! ## `http3_event_cb` -/

/-- The round from `quiche_conn_recv` on. -/
def processPacket (s : LinkedServer H T) (id : ℕ) (d : Datagram) : LinkedServer H T :=
  if id ∈ s.freed then s.die
  else
    match s.objs[id]? with
    | none => s
    | some o =>
        let s := s.setConn id (o.conn.closedBy d.closed)
        if d.recv = QUICHE_ERR_DONE then s.walkTo next s.links.head
        else if d.recv < 0 then (s.dropConnection U garbage id).ret
        else if d.established then
          if o.http3 then { s with phase := .polling id }
          else if d.h3Created then { s.setHttp3 id with phase := .polling id }
          else s.ret
        else s

/-- A round of the outer loop that read a datagram. -/
def recvDatagram (s : LinkedServer H T) (sock : ℤ) (d : Datagram) : LinkedServer H T :=
  match d.header with
  | none => s.ret
  | some h =>
      match s.getConnection U h.dcid with
      | some id => s.processPacket U next garbage id d
      | none =>
          if !d.versionSupported then s.ret
          else if h.token = [] then s.ret
          else
            match validateToken h.token d.peerAddr QUICHE_MAX_CONN_ID_LEN with
            | none => s.ret
            | some _ =>
                match d.newCid with
                | none => s.ret
                | some cid =>
                    let id := s.objs.length
                    let c := Conn.create sock cid
                    let s := s.addConnection U c
                    if s.dead then s
                    else (s.setConn id (c.setPeer d.peerAddr)).processPacket U next garbage id d

/-- A round of the loop over the events of a connection. -/
def pollEvent (routes : List (Route Code)) (s : LinkedServer H T) (id : ℕ) :
    Poll Code → LinkedServer H T
  | .none => { s with phase := .receiving }
  | .other => s
  | .headers streamId block io =>
      if id ∈ s.freed then s.die
      else
        match s.conn id with
        | none => s
        | some c =>
            let hs := prepareRequest block c.hs
            let w := c.world.emit (.rootRouter streamId block hs.request.url)
            let r := rootRouter hs.evbase routes io hs w
            let s := s.setConn id (onRouted c streamId r)
            if r.fd = -1 then s.ret else s

/-- A round of the loop over the table; `tmp` was read before it. -/
def egress (s : LinkedServer H T) (id : ℕ) (tmp : Option ℕ) (io : FlushIO) (closed : Bool) :
    LinkedServer H T :=
  if id ∈ s.freed then s.die
  else
    match s.conn id with
    | none => s
    | some c =>
        let c := (flushEgress c io).closedBy closed
        let s := s.setConn id c
        let s := if c.closed then s.dropConnection U garbage id else s
        s.walkTo next tmp

/-- `timeout_cb`. -/
def timeoutCb (s : LinkedServer H T) (id : ℕ) (c : Conn) (io : FlushIO) (closed : Bool) :
    LinkedServer H T :=
  let c := (flushEgress { c with timeoutPending := false } io).closedBy closed
  let s := s.setConn id c
  if c.closed then s.dropConnection U garbage id else s

/-- The callback of a pending event whose `http_stream` is `id`. -/
def dispatch (s : LinkedServer H T) (id : ℕ) (pending : Conn → Bool)
    (callback : Conn → Option (LinkedServer H T)) : Option (LinkedServer H T) :=
  if s.phase ≠ .idle then none
  else
    match s.conn id with
    | none => none
    | some c =>
        if !pending c then none
        else if id ∈ s.freed then some s.die
        else callback c

end LinkedServer

/-! ## Runs -/

/-- One event. -/
def linkedStep (routes : List (Route Code)) (s : LinkedServer H T) :
    ServerEvent Code → Option (LinkedServer H T)
  | .wake => if s.dead || s.phase ≠ .idle then none else some { s with phase := .receiving }
  | .recv sock r =>
      if s.dead || s.phase ≠ .receiving then none
      else
        match r with
        | .wouldBlock => some (s.walkTo next s.links.head)
        | .failed => some s.ret
        | .datagram d => some (s.recvDatagram U next garbage sock d)
  | .poll p =>
      if s.dead then none
      else
        match s.phase with
        | .polling id => some (s.pollEvent routes id p)
        | _ => none
  | .egress io closed =>
      if s.dead then none
      else
        match s.phase with
        | .egress none _ => some s.ret
        | .egress (some id) tmp => some (s.egress U next garbage id tmp io closed)
        | _ => none
  | .timeout id io closed =>
      if s.dead then none
      else s.dispatch id Conn.timeoutPending fun c => some (s.timeoutCb U garbage id c io closed)
  | .writeTick id i io closed =>
      if s.dead then none
      else
        s.dispatch id (fun c => (c.writers[i]?.map FutureWrite.scheduled).getD false) fun c =>
          (futureWriteCb c i io).map fun c => s.setConn id (c.closedBy closed)
  | .moduleTick id ev io =>
      if s.dead then none
      else
        s.dispatch id (fun c => c.world.pending.contains ev) fun c =>
          some (s.setConn id (Http3.moduleTick c ev io))

/-- The runs of the server. -/
def linkedMachine (routes : List (Route Code)) : Machine (LinkedServer H T) (ServerEvent Code) :=
  ⟨linkedStep U next garbage routes⟩

/-- The loop of `http3_cleanup`. -/
def http3Cleanup : While (Cursor ℕ (LinkedServer H T)) :=
  sweep (fun s => next s.links) (fun s id => s.dropConnection U garbage id)

end Linked

end Gfhttpd.Http3
