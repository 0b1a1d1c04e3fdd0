import Gfhttpd.Http3.Conn

/-!
# The HTTP/3 server (`main/http3/event_cb.c`, `http3.c`, `timeout_cb.c`, `main/http_stream`)

`Server` holds every `http_stream` that `create_conn` returned, and the connection table.  An
`http_stream` is a number, which is never used twice, so a reference to one that was freed shows.

The event loop calls one callback at a time.  `http3_event_cb` is taken apart into its rounds,
and `Phase` says where it is:

- `recvDatagram`: a round of its outer loop
- `pollEvent`: a round of the loop over the events of `quiche`
- `egress`: a round of the loop over the table

`timeoutCb` is the timeout of a connection.  The write and module events are those of `Conn`.
`quiche_conn_is_closed` is answered after each call that may close a connection.
-/

namespace Gfhttpd.Http3

open Http Conf Router Modules Transition

variable {Code : Type}

/-! ## Address validation -/

/-- `QUICHE_MAX_CONN_ID_LEN`. -/
def QUICHE_MAX_CONN_ID_LEN : ℕ := 20

/-- `mint_token`. -/
def mintToken (dcid addr : Bytes) : Bytes :=
  ascii "quiche" ++ addr ++ dcid

/-- `validate_token`: the connection id in the token, if it fits into `odcidLen` bytes. -/
def validateToken (token addr : Bytes) (odcidLen : ℕ) : Option Bytes :=
  if token.length < (ascii "quiche").length ∨ token.take (ascii "quiche").length ≠ ascii "quiche" then
    none
  else
    let token := token.drop (ascii "quiche").length
    if token.length < addr.length ∨ token.take addr.length ≠ addr then none
    else
      let token := token.drop addr.length
      if odcidLen < token.length then none else some token

/-! ## State -/

/-- An `http_stream` with its `http3_params`. -/
structure HttpConn where
  conn : Conn
  /-- `http3_params->http3` is not `NULL` -/
  http3 : Bool
deriving DecidableEq, Repr

/-- Where `http3_event_cb` is, if it runs. -/
inductive Phase where
  | idle
  | receiving
  /-- it polls the events of this connection -/
  | polling (id : ℕ)
  /-- these connections of the table are left -/
  | egress (left : List ℕ)
deriving DecidableEq, Repr

structure Server where
  objs : List HttpConn
  /-- the connection table, in the order of insertion -/
  table : List ℕ
  phase : Phase
  /-- the process has ended, or memory that was freed was accessed -/
  dead : Bool
deriving DecidableEq, Repr

/-- No connection. -/
def Server.init : Server := ⟨[], [], .idle, false⟩

namespace Server

/-- `http3_event_cb` returns. -/
def ret (s : Server) : Server :=
  { s with phase := .idle }

/-- The connection of an `http_stream`. -/
def conn (s : Server) (id : ℕ) : Option Conn :=
  s.objs[id]?.map HttpConn.conn

/-- Store the connection of an `http_stream`.  A process that ended in it has ended. -/
def setConn (s : Server) (id : ℕ) (c : Conn) : Server :=
  { s with
    objs := s.objs.modify id fun o => { o with conn := c }
    dead := s.dead || c.dead }

/-- `http3_params->http3` is set. -/
def setHttp3 (s : Server) (id : ℕ) : Server :=
  { s with objs := s.objs.modify id fun o => { o with http3 := true } }

end Server

/-! ## The connection table -/

/-- `get_connection`. -/
def getConnection (s : Server) (cid : Bytes) : Option ℕ :=
  s.table.find? fun id => (s.conn id).any fun c => c.hs.cid == cid

/-- `add_connection` for a new `http_stream`.  An entry with the same id is overwritten with it,
its links in the table included, which is of no use after that. -/
def addConnection (s : Server) (c : Conn) : Server :=
  match getConnection s c.hs.cid with
  | none => { s with objs := s.objs ++ [⟨c, false⟩], table := s.table ++ [s.objs.length] }
  | some old =>
      { s with
        objs := s.objs.modify old (fun o =>
          { conn := { o.conn with hs := c.hs, closed := c.closed }, http3 := false }) ++ [⟨c, false⟩]
        dead := true }

/-- `delete_connection`. -/
def deleteConnection (s : Server) (id : ℕ) : Server :=
  { s with table := s.table.filter (· ≠ id) }

/-- What `http3_connection_cleanup` does to a connection: of its events only `timeout_ev` is
deleted. -/
def Conn.release (c : Conn) : Conn :=
  let request := { c.hs.request with headers := deleteHeaderAll c.hs.request.headers }
  { c with timeoutPending := false, hs := { c.hs with request := request } }

/-- `http3_connection_cleanup`. -/
def http3ConnectionCleanup (s : Server) (id : ℕ) : Server :=
  { s with objs := s.objs.modify id fun o => { conn := o.conn.release, http3 := false } }

/-- A connection is over. -/
def dropConnection (s : Server) (id : ℕ) : Server :=
  http3ConnectionCleanup (deleteConnection s id) id

/-! ## `http3_event_cb` -/

/-- What `quiche_header_info` finds in a datagram: the bytes `get_connection` looks for, and the
token. -/
structure PacketHeader where
  dcid : Bytes
  token : Bytes
deriving DecidableEq, Repr

/-- A datagram, and what the calls for it answer. -/
structure Datagram where
  peerAddr : Bytes
  /-- `quiche_header_info`, `none` for an error -/
  header : Option PacketHeader
  /-- `quiche_version_is_supported` -/
  versionSupported : Bool
  /-- the random id `create_conn` reads, `none` if it fails -/
  newCid : Option Bytes
  /-- `quiche_conn_recv` -/
  recv : ℤ
  closed : Bool
  /-- `quiche_conn_is_established` -/
  established : Bool
  /-- `quiche_h3_conn_new_with_transport` succeeds -/
  h3Created : Bool
deriving DecidableEq, Repr

/-- What `recvfrom` answers. -/
inductive Recv where
  | wouldBlock
  | failed
  | datagram (d : Datagram)
deriving DecidableEq, Repr

/-- `QUICHE_ERR_DONE`. -/
def QUICHE_ERR_DONE : ℤ := -1

/-- A connection that `quiche` may have closed. -/
def Conn.closedBy (c : Conn) (closed : Bool) : Conn :=
  { c with closed := c.closed || closed }

/-- The round from `quiche_conn_recv` on. -/
def processPacket (s : Server) (id : ℕ) (d : Datagram) : Server :=
  match s.objs[id]? with
  | none => s
  | some o =>
      let s := s.setConn id (o.conn.closedBy d.closed)
      -- `break` for nothing to read, `return` for every other error
      if d.recv = QUICHE_ERR_DONE then { s with phase := .egress s.table }
      else if d.recv < 0 then (dropConnection s id).ret
      else if d.established then
        if o.http3 then { s with phase := .polling id }
        else if d.h3Created then { s.setHttp3 id with phase := .polling id }
        else s.ret
      else s

/-- A connection with its peer. -/
def Conn.setPeer (c : Conn) (peerAddr : Bytes) : Conn :=
  { c with hs := { c.hs with peerAddr := peerAddr, peerAddrLen := peerAddr.length } }

/-- A round of the outer loop that read a datagram. -/
def recvDatagram (s : Server) (sock : ℤ) (d : Datagram) : Server :=
  match d.header with
  | none => s.ret
  | some h =>
      match getConnection s h.dcid with
      | some id => processPacket s id d
      | none =>
          -- version negotiation and the stateless retry only send a packet
          if !d.versionSupported then s.ret
          else if h.token = [] then s.ret
          else
            match validateToken h.token d.peerAddr QUICHE_MAX_CONN_ID_LEN with
            | none => s.ret
            | some _ =>
                match d.newCid with
                | none => s.ret
                | some cid =>
                    let id := s.objs.length
                    let c := Conn.create sock cid
                    let s := addConnection s c
                    if s.dead then s
                    -- `peer_addr` is copied after the insertion
                    else processPacket (s.setConn id (c.setPeer d.peerAddr)) id d

/-- What `quiche_h3_conn_poll` answers.  Other events than a header block change nothing. -/
inductive Poll (Code : Type) where
  | none
  | headers (streamId : ℤ) (block : List (Bytes × Bytes)) (io : RouterIO Code)
  | other

/-- A round of the loop over the events of a connection. -/
def pollEvent (routes : List (Route Code)) (s : Server) (id : ℕ) : Poll Code → Server
  | .none => { s with phase := .receiving }
  | .other => s
  | .headers streamId block io =>
      match s.conn id with
      | none => s
      | some c =>
          let hs := prepareRequest block c.hs
          let w := c.world.emit (.rootRouter streamId block hs.request.url)
          let r := rootRouter hs.evbase routes io hs w
          let s := s.setConn id (onRouted c streamId r)
          -- without a descriptor the callback returns, and leaves the other events for later
          if r.fd = -1 then s.ret else s

/-- A round of the loop over the table. -/
def egress (s : Server) (id : ℕ) (left : List ℕ) (io : FlushIO) (closed : Bool) : Server :=
  match s.conn id with
  | none => s
  | some c =>
      let c := (flushEgress c io).closedBy closed
      let s := { s.setConn id c with phase := .egress left }
      if c.closed then dropConnection s id else s

/-! ## The other callbacks -/

/-- `timeout_cb`.  The event base has taken `timeout_ev` off its queue. -/
def timeoutCb (s : Server) (id : ℕ) (c : Conn) (io : FlushIO) (closed : Bool) : Server :=
  let c := (flushEgress { c with timeoutPending := false } io).closedBy closed
  let s := s.setConn id c
  if c.closed then dropConnection s id else s

/-! ## Runs -/

/-- What happens to the server. -/
inductive ServerEvent (Code : Type) where
  /-- the socket is readable -/
  | wake
  | recv (sock : ℤ) (r : Recv)
  | poll (p : Poll Code)
  | egress (io : FlushIO) (closed : Bool)
  | timeout (id : ℕ) (io : FlushIO) (closed : Bool)
  | writeTick (id i : ℕ) (io : TickIO) (closed : Bool)
  | moduleTick (id ev : ℕ) (io : ModuleIO)

/-- The callback of a pending event whose `http_stream` is `id`: one that was freed is not
accessed and lived on. -/
def dispatch (s : Server) (id : ℕ) (pending : Conn → Bool) (callback : Conn → Option Server) :
    Option Server :=
  if s.phase ≠ .idle then none
  else
    match s.conn id with
    | none => none
    | some c =>
        if !pending c then none
        else if id ∈ s.table then callback c
        else some { s with dead := true }

/-- One event. -/
def serverStep (routes : List (Route Code)) (s : Server) : ServerEvent Code → Option Server
  | .wake => if s.dead || s.phase ≠ .idle then none else some { s with phase := .receiving }
  | .recv sock r =>
      if s.dead || s.phase ≠ .receiving then none
      else
        match r with
        | .wouldBlock => some { s with phase := .egress s.table }
        | .failed => some s.ret
        | .datagram d => some (recvDatagram s sock d)
  | .poll p =>
      if s.dead then none
      else
        match s.phase with
        | .polling id => some (pollEvent routes s id p)
        | _ => none
  | .egress io closed =>
      if s.dead then none
      else
        match s.phase with
        | .egress [] => some s.ret
        | .egress (id :: left) => some (egress s id left io closed)
        | _ => none
  | .timeout id io closed =>
      if s.dead then none
      else dispatch s id Conn.timeoutPending fun c => some (timeoutCb s id c io closed)
  | .writeTick id i io closed =>
      if s.dead then none
      else
        dispatch s id (fun c => (c.writers[i]?.map FutureWrite.scheduled).getD false) fun c =>
          (futureWriteCb c i io).map fun c => s.setConn id (c.closedBy closed)
  | .moduleTick id ev io =>
      if s.dead then none
      else
        dispatch s id (fun c => c.world.pending.contains ev) fun c =>
          some (s.setConn id (Http3.moduleTick c ev io))

/-- The runs of the server. -/
def serverMachine (routes : List (Route Code)) : Machine Server (ServerEvent Code) :=
  ⟨serverStep routes⟩

end Gfhttpd.Http3
