import Gfhttpd.Http3.Lifetime

/-!
# What the callbacks keep of a connection

`Continues` says what every function called for a connection keeps of it: its id, its timeout
event, that this event is pending, and that the connection is closed.

- `Server.Continues`: the connections in the table go on from an earlier table
- `Begins`: what an event does to the table before its callback goes on
- `serverStep_continues`: every event of the server is one after the other
- `Server.Bounded`: the connections in the table are there, in every run
- `Server.Lives`: while the process lives, no connection has ended it
-/

namespace Gfhttpd.Http3

open Http Conf Router Modules Transition

variable {Code : Type}

/-! ## Connections -/

/-- The same connection, later. -/
structure Continues (c c' : Conn) : Prop where
  cid : c'.hs.cid = c.hs.cid
  timeoutEv : c'.hs.timeoutEv = c.hs.timeoutEv
  timeoutPending : c.timeoutPending = true → c'.timeoutPending = true
  closed : c.closed = true → c'.closed = true

namespace Continues

theorem refl (c : Conn) : Continues c c :=
  ⟨rfl, rfl, id, id⟩

theorem trans {c c' c'' : Conn} (h : Continues c c') (h' : Continues c' c'') : Continues c c'' where
  cid := h'.cid.trans h.cid
  timeoutEv := h'.timeoutEv.trans h.timeoutEv
  timeoutPending hc := h'.timeoutPending (h.timeoutPending hc)
  closed hc := h'.closed (h.closed hc)

theorem closedBy (c : Conn) (closed : Bool) : Continues c (c.closedBy closed) where
  cid := rfl
  timeoutEv := rfl
  timeoutPending := id
  closed hc := by
    rw [Conn.closedBy, hc]
    rfl

theorem setPeer (c : Conn) (peerAddr : Bytes) : Continues c (c.setPeer peerAddr) :=
  ⟨rfl, rfl, id, id⟩

theorem flushEgress (c : Conn) (io : FlushIO) : Continues c (flushEgress c io) := by
  obtain ⟨timer, timeoutPending, hpending, heq⟩ := flushEgress_eq c io
  rw [heq]
  exact ⟨rfl, rfl, hpending, id⟩

theorem writeBody {c c' : Conn} {i : ℕ} {fw : FutureWrite} {io : TickIO}
    (h : writeBody c i fw io = some c') : Continues c c' := by
  obtain ⟨fd, r, timer, timeoutPending, hpending, -, -, rfl⟩ := writeBody_cases h
  exact ⟨rfl, rfl, hpending, id⟩

theorem futureWriteCb {c c' : Conn} {i : ℕ} {io : TickIO} (h : futureWriteCb c i io = some c') :
    Continues c c' := by
  obtain ⟨fw, -, hcases⟩ := futureWriteCb_cases h
  cases hcases with
  | closed hclosed => exact ⟨rfl, rfl, id, id⟩
  | noHeaders hopen hunsent hlen hnone => exact ⟨rfl, rfl, id, id⟩
  | first hopen hunsent hlen hheaders hbody =>
      obtain ⟨hcid, hev, hpending, hclosed⟩ := writeBody hbody
      exact ⟨hcid, hev, hpending, hclosed⟩
  | deferred hopen hunsent hlen => exact ⟨rfl, rfl, id, id⟩
  | next hopen hsent hbody => exact writeBody hbody

theorem moduleTick (c : Conn) (ev : ℕ) (io : ModuleIO) : Continues c (moduleTick c ev io) := by
  obtain ⟨moduleEv, chain, status, length, heq⟩ := (moduleTick_spec c ev io).stream
  refine ⟨?_, ?_, id, id⟩
  · rw [heq]
  · rw [heq]

/-- The `QUICHE_H3_EVENT_HEADERS` branch behind `root_router`. -/
theorem onRouted {c : Conn} {r : RouterResult} (streamId : ℤ) (hcid : r.hs.cid = c.hs.cid)
    (hev : r.hs.timeoutEv = c.hs.timeoutEv) : Continues c (onRouted c streamId r) := by
  unfold Http3.onRouted
  split
  · exact ⟨hcid, hev, id, id⟩
  · split
    · exact ⟨hcid, hev, id, id⟩
    · exact ⟨hcid, hev, id, id⟩

/-- `root_router` on the stream of the connection. -/
theorem rootRouter (routes : List (Route Code)) (io : RouterIO Code) (c : Conn) (streamId : ℤ)
    (block : List (Bytes × Bytes)) (loop : Bool) (w : World) :
    Continues c (Http3.onRouted c streamId
      (rootRouter loop routes io (prepareRequest block c.hs) w)) := by
  obtain ⟨request, hprepare⟩ := prepareRequest_frame block c.hs
  rw [hprepare]
  have hcases := rootRouter_cases loop routes io
    { c.hs with
      request := request
      response := { c.hs.response with
        headers := initResponse c.hs.response.headers, contentLenght := SIZE_MAX } } w
  generalize Router.rootRouter loop routes io _ w = r at hcases ⊢
  -- no way `root_router` ends touches the id or the timeout event
  cases hcases with
  | fault es hes => exact onRouted streamId rfl rfl
  | noSocket es hes new => exact onRouted streamId rfl rfl
  | noTimer es hes chain url => exact onRouted streamId rfl rfl
  | module es hes chain url => exact onRouted streamId rfl rfl
  | file es hes f => exact onRouted streamId rfl rfl
  | noError es hes new n => exact onRouted streamId rfl rfl
  | notFound es hes page hpage => exact onRouted streamId rfl rfl

end Continues

/-! ## The server -/

/-- The flag is not part of the connection. -/
theorem conn_setHttp3 (s : Server) (id id' : ℕ) : (s.setHttp3 id).conn id' = s.conn id' := by
  apply (conn_modify s id id' fun o => { o with http3 := true }).trans
  by_cases heq : id = id'
  · rw [if_pos heq, ← heq, Option.map_map]
    rfl
  · rw [if_neg heq]

/-- The connections in the table go on from the table before, in the way `R` says. -/
structure Server.Goes (R : Conn → Conn → Prop) (s s' : Server) : Prop where
  length : s'.objs.length = s.objs.length
  table : ∀ id ∈ s'.table, id ∈ s.table
  conn : ∀ id ∈ s'.table, ∀ c' ∈ s'.conn id, ∃ c ∈ s.conn id, R c c'

theorem Server.Goes.mono {R R' : Conn → Conn → Prop} (hR : ∀ c c', R c c' → R' c c') {s s' : Server}
    (h : s.Goes R s') : s.Goes R' s' where
  length := h.length
  table := h.table
  conn id hid c' hc' := by
    obtain ⟨c, hc, hcc'⟩ := h.conn id hid c' hc'
    exact ⟨c, hc, hR c c' hcc'⟩

theorem Server.Goes.trans {R : Conn → Conn → Prop} (htrans : ∀ {a b c}, R a b → R b c → R a c)
    {s s' s'' : Server} (h : s.Goes R s') (h' : s'.Goes R s'') : s.Goes R s'' where
  length := h'.length.trans h.length
  table id hid := h.table id (h'.table id hid)
  conn id hid c'' hc'' := by
    obtain ⟨c', hc', hlast⟩ := h'.conn id hid c'' hc''
    obtain ⟨c, hc, hfirst⟩ := h.conn id (h'.table id hid) c' hc'
    exact ⟨c, hc, htrans hfirst hlast⟩

/-- A connection is stored again. -/
theorem Server.Goes.setConn {R : Conn → Conn → Prop} (hrefl : ∀ c, R c c) {s : Server} {id : ℕ}
    {c c' : Conn} (hconn : s.conn id = some c) (h : R c c') : s.Goes R (s.setConn id c') where
  length := List.length_modify ..
  table id' hid := hid
  conn id' hid d hd := by
    rw [conn_setConn] at hd
    by_cases heq : id = id'
    · subst heq
      rw [if_pos rfl, hconn] at hd
      obtain rfl : c' = d := Option.some.inj hd
      exact ⟨c, hconn, h⟩
    · rw [if_neg heq] at hd
      exact ⟨d, hd, hrefl d⟩

/-- The connections in the table go on. -/
def Server.Continues : Server → Server → Prop :=
  Server.Goes Http3.Continues

namespace Server.Continues

/-- Only the connections and the table matter. -/
theorem of_eq {s s' : Server} (hobjs : s'.objs = s.objs) (htable : s'.table = s.table) :
    s.Continues s' where
  length := by rw [hobjs]
  table id hid := htable ▸ hid
  conn id hid c hc := by
    rw [Server.conn, hobjs] at hc
    exact ⟨c, hc, .refl c⟩

theorem refl (s : Server) : s.Continues s :=
  of_eq rfl rfl

theorem trans {s s' s'' : Server} (h : s.Continues s') (h' : s'.Continues s'') :
    s.Continues s'' :=
  Server.Goes.trans (fun hab hbc => hab.trans hbc) h h'

theorem setConn {s : Server} {id : ℕ} {c c' : Conn} (hconn : s.conn id = some c)
    (h : Http3.Continues c c') : s.Continues (s.setConn id c') :=
  Server.Goes.setConn .refl hconn h

/-- Of two connections stored in one place, one goes on from the other. -/
theorem restore {s : Server} {id : ℕ} {c c₁ c₂ : Conn} (hconn : s.conn id = some c)
    (h : Http3.Continues c₁ c₂) : (s.setConn id c₁).Continues (s.setConn id c₂) where
  length := by
    have hlength : ∀ d : Conn, (s.setConn id d).objs.length = s.objs.length := fun d =>
      List.length_modify ..
    rw [hlength, hlength]
  table id' hid := hid
  conn id' hid d hd := by
    rw [conn_setConn] at hd ⊢
    by_cases heq : id = id'
    · rw [if_pos heq, hconn] at hd ⊢
      obtain rfl : c₂ = d := Option.some.inj hd
      exact ⟨c₁, rfl, h⟩
    · rw [if_neg heq] at hd ⊢
      exact ⟨d, hd, .refl d⟩

theorem setHttp3 (s : Server) (id : ℕ) : s.Continues (s.setHttp3 id) where
  length := List.length_modify ..
  table id' hid := hid
  conn id' hid c hc := by
    rw [conn_setHttp3] at hc
    exact ⟨c, hc, .refl c⟩

theorem drop (s : Server) (id : ℕ) : s.Continues (dropConnection s id) where
  length := List.length_modify ..
  table id' hid := (List.mem_filter.mp hid).1
  conn id' hid c hc := by
    have hother : ¬ id = id' := fun heq => of_decide_eq_true (List.mem_filter.mp hid).2 heq.symm
    rw [conn_drop, if_neg hother] at hc
    exact ⟨c, hc, .refl c⟩

/-- A connection is stored again, and dropped if it is closed. -/
theorem storeOrDrop {s : Server} {id : ℕ} {c c' : Conn} (hconn : s.conn id = some c)
    (h : Http3.Continues c c') :
    s.Continues (if c'.closed then dropConnection (s.setConn id c') id else s.setConn id c') := by
  cases c'.closed with
  | false => exact setConn hconn h
  | true => exact (setConn hconn h).trans (drop _ id)

end Server.Continues

/-! ## The rounds of `http3_event_cb` -/

theorem processPacket_continues (s : Server) (id : ℕ) (d : Datagram) :
    s.Continues (processPacket s id d) := by
  unfold processPacket
  cases hobj : s.objs[id]? with
  | none => exact .refl s
  | some o =>
      have hconn : s.conn id = some o.conn := by
        rw [Server.conn, hobj]
        rfl
      have hstored : s.Continues (s.setConn id (o.conn.closedBy d.closed)) :=
        .setConn hconn (.closedBy o.conn d.closed)
      dsimp only
      split
      · exact hstored.trans (.of_eq rfl rfl)
      · split
        · exact (hstored.trans (.drop _ id)).trans (.of_eq rfl rfl)
        · split
          · split
            · exact hstored.trans (.of_eq rfl rfl)
            · split
              · exact (hstored.trans (.setHttp3 _ id)).trans (.of_eq rfl rfl)
              · exact hstored.trans (.of_eq rfl rfl)
          · exact hstored

theorem pollEvent_continues (routes : List (Route Code)) (s : Server) (id : ℕ) (p : Poll Code) :
    s.Continues (pollEvent routes s id p) := by
  cases p with
  | none => exact .of_eq rfl rfl
  | other => exact .refl s
  | headers streamId block io =>
      unfold pollEvent
      cases hconn : s.conn id with
      | none => exact .refl s
      | some c =>
          have hrouted := Continues.rootRouter routes io c streamId block
            (prepareRequest block c.hs).evbase
            (c.world.emit (.rootRouter streamId block (prepareRequest block c.hs).request.url))
          have hstored := Server.Continues.setConn hconn hrouted
          dsimp only
          split
          · exact hstored.trans (.of_eq rfl rfl)
          · exact hstored

theorem egress_continues (s : Server) (id : ℕ) (left : List ℕ) (io : FlushIO) (closed : Bool) :
    s.Continues (egress s id left io closed) := by
  unfold egress
  cases hconn : s.conn id with
  | none => exact .refl s
  | some c =>
      have hphase : s.Continues { s with phase := .egress left } := .of_eq rfl rfl
      have hflushed := (Continues.flushEgress c io).trans (.closedBy _ closed)
      exact hphase.trans (.storeOrDrop hconn hflushed)

/-- `timeout_cb` goes on from a connection whose timeout is not pending. -/
theorem timeoutCb_continues {s : Server} {id : ℕ} {c : Conn} (hconn : s.conn id = some c)
    (io : FlushIO) (closed : Bool) :
    (s.setConn id { c with timeoutPending := false }).Continues (timeoutCb s id c io closed) := by
  have hc := (Continues.flushEgress { c with timeoutPending := false } io).trans (.closedBy _ closed)
  have hstored := Server.Continues.restore hconn hc
  unfold timeoutCb
  dsimp only
  split
  · exact hstored.trans (.drop _ id)
  · exact hstored

/-! ## A new connection -/

theorem length_addConnection (s : Server) (c : Conn) :
    (addConnection s c).objs.length = s.objs.length + 1 := by
  unfold addConnection
  cases getConnection s c.hs.cid with
  | none => exact List.length_append
  | some old =>
      simp only [List.length_append, List.length_modify]
      rfl

/-- The connection that was added. -/
theorem conn_added {s : Server} {c : Conn} (hlives : ¬ (addConnection s c).dead = true) :
    (addConnection s c).conn s.objs.length = some c := by
  unfold addConnection at hlives ⊢
  cases hget : getConnection s c.hs.cid with
  | none => simp [Server.conn]
  | some old =>
      rw [hget] at hlives
      exact absurd rfl hlives

/-- Only a connection whose id is not there yet comes into the table. -/
theorem table_addConnection {s : Server} {c : Conn} {id : ℕ} (h : id ∈ (addConnection s c).table) :
    id ∈ s.table ∨ id = s.objs.length ∧ getConnection s c.hs.cid = none ∧
      (addConnection s c).conn id = some c := by
  unfold addConnection at h ⊢
  cases hget : getConnection s c.hs.cid with
  | none =>
      rw [hget] at h
      rcases List.mem_append.mp h with hold | hnew
      · exact Or.inl hold
      · obtain rfl := List.mem_singleton.mp hnew
        exact Or.inr ⟨rfl, rfl, by simp [Server.conn]⟩
  | some old =>
      rw [hget] at h
      exact Or.inl h

/-- What was added behind the connections there were. -/
theorem conn_append {s : Server} {objs : List HttpConn} {c d : Conn} {id : ℕ}
    (hd : d ∈ Server.conn { s with objs := objs ++ [⟨c, false⟩] } id) :
    id = objs.length ∧ d = c ∨ d ∈ Server.conn { s with objs := objs } id := by
  obtain ⟨o, ho, rfl⟩ := Option.map_eq_some_iff.mp hd
  change (objs ++ [(⟨c, false⟩ : HttpConn)])[id]? = some o at ho
  by_cases hlt : id < objs.length
  · rw [List.getElem?_append_left hlt] at ho
    exact Or.inr (Option.map_eq_some_iff.mpr ⟨o, ho, rfl⟩)
  · obtain ⟨hle, -⟩ := List.getElem?_eq_some_iff.mp ho
    have hid : id = objs.length := by
      simp only [List.length_append, List.length_singleton] at hle
      omega
    subst hid
    rw [List.getElem?_concat_length] at ho
    exact Or.inl ⟨rfl, congrArg HttpConn.conn (Option.some.inj ho).symm⟩

/-- The connections there were are left alone, but for one with the id of the new one. -/
theorem conn_addConnection {s : Server} {c d : Conn} {id : ℕ} (hd : d ∈ (addConnection s c).conn id) :
    id = s.objs.length ∧ d = c ∨ ∃ c₀ ∈ s.conn id,
      d = c₀ ∨ c₀.hs.cid = c.hs.cid ∧ d = { c₀ with hs := c.hs, closed := c.closed } := by
  unfold addConnection at hd
  cases hget : getConnection s c.hs.cid with
  | none =>
      rw [hget] at hd
      rcases conn_append hd with hnew | hold
      · exact Or.inl hnew
      · exact Or.inr ⟨d, hold, Or.inl rfl⟩
  | some old =>
      rw [hget] at hd
      rcases conn_append hd with ⟨hid, hnew⟩ | hold
      · rw [List.length_modify] at hid
        exact Or.inl ⟨hid, hnew⟩
      · have hmod := (conn_modify s old id _).symm.trans hold
        by_cases heq : old = id
        · -- it was found by the id of the new one
          subst heq
          rw [if_pos rfl] at hmod
          have hid := List.find?_some hget
          obtain ⟨c₀, hc₀, hcid⟩ := (Option.any_eq_true ..).mp hid
          obtain ⟨o, ho, hod⟩ := Option.map_eq_some_iff.mp hmod
          obtain ⟨o', ho', rfl⟩ := Option.map_eq_some_iff.mp ho
          have hconn : s.conn old = some o'.conn := by
            rw [Server.conn, ho']
            rfl
          have hsame : o'.conn = c₀ := Option.some.inj (hconn.symm.trans hc₀)
          refine Or.inr ⟨c₀, hc₀, Or.inr ⟨eq_of_beq hcid, ?_⟩⟩
          rw [← hod, hsame]
        · rw [if_neg heq] at hmod
          exact Or.inr ⟨d, hmod, Or.inl rfl⟩

/-! ## Events -/

/-- The id of the connection an event creates. -/
def newId (s : Server) : ServerEvent Code → Option Bytes
  | .recv _ (.datagram d) => creates s d
  | _ => none

/-- What an event does to the table before its callback goes on. -/
inductive Begins (s : Server) : ServerEvent Code → Server → Prop
  | same {e : ServerEvent Code} (hnew : newId s e = none) : Begins s e s
  /-- the timeout is taken off the queue -/
  | expired {id : ℕ} {c : Conn} (hmem : id ∈ s.table) (hconn : s.conn id = some c) (io : FlushIO)
      (closed : Bool) :
      Begins s (.timeout id io closed) (s.setConn id { c with timeoutPending := false })
  /-- a connection is created -/
  | added {sock : ℤ} {d : Datagram} {cid : Bytes} (hcreates : creates s d = some cid) :
      Begins s (.recv sock (.datagram d)) (addConnection s (Conn.create sock cid))

/-- A round that read a datagram. -/
theorem recvDatagram_continues (s : Server) (sock : ℤ) (d : Datagram) : ∃ s₀,
    Begins s (.recv sock (.datagram d) : ServerEvent Code) s₀ ∧
      s₀.Continues (recvDatagram s sock d) := by
  cases hheader : d.header with
  | none =>
      obtain ⟨hcreates, hret⟩ := recvDatagram_unread hheader s sock
      refine ⟨s, .same hcreates, ?_⟩
      rw [hret]
      exact .of_eq rfl rfl
  | some h =>
      cases hget : getConnection s h.dcid with
      | some id =>
          refine ⟨s, .same (creates_known hheader hget), ?_⟩
          rw [recvDatagram_known sock hheader hget]
          exact processPacket_continues s id d
      | none =>
          -- it is turned away, or it creates a connection and is given to that
          rcases recvDatagram_unknown sock hheader hget with ⟨hcreates, hret⟩ | ⟨cid, hcreates, hnew⟩
          · refine ⟨s, .same hcreates, ?_⟩
            rw [hret]
            exact .of_eq rfl rfl
          · refine ⟨_, .added hcreates, ?_⟩
            rw [hnew]
            split
            · exact .refl _
            · rename_i hlives
              have hstored : (addConnection s (Conn.create sock cid)).Continues _ :=
                .setConn (conn_added hlives) (.setPeer _ d.peerAddr)
              exact hstored.trans (processPacket_continues _ _ d)

/-- The callback of an event goes on from what the event began with. -/
theorem serverStep_continues {routes : List (Route Code)} {s s' : Server} {e : ServerEvent Code}
    (hstep : serverStep routes s e = some s') : ∃ s₀, Begins s e s₀ ∧ s₀.Continues s' := by
  cases serverStep_cases hstep with
  | wake hphase => exact ⟨s, .same rfl, .of_eq rfl rfl⟩
  | wouldBlock hphase => exact ⟨s, .same rfl, .of_eq rfl rfl⟩
  | failed hphase => exact ⟨s, .same rfl, .of_eq rfl rfl⟩
  | @datagram sock d hphase => exact recvDatagram_continues s sock d
  | @poll id p hphase => exact ⟨s, .same rfl, pollEvent_continues routes s id p⟩
  | swept hphase => exact ⟨s, .same rfl, .of_eq rfl rfl⟩
  | @egress id left io closed hphase =>
      exact ⟨s, .same rfl, egress_continues s id left io closed⟩
  | @timeout id c io closed hphase hmem hconn =>
      exact ⟨_, .expired hmem hconn io closed, timeoutCb_continues hconn io closed⟩
  | @write id i c c' io closed hmem hconn hwrite =>
      have hwritten := (Continues.futureWriteCb hwrite).trans (.closedBy _ closed)
      exact ⟨s, .same rfl, .setConn hconn hwritten⟩
  | @module id ev c io hmem hconn => exact ⟨s, .same rfl, .setConn hconn (.moduleTick c ev io)⟩
  | freed hto hfreed hconn hevent =>
      have hnew : newId s e = none := by
        cases e with
        | timeout | writeTick | moduleTick => rfl
        | wake | recv | poll | egress => cases hto
      exact ⟨s, .same hnew, .of_eq rfl rfl⟩

/-! ## Numbers of connections -/

/-- The connections in the table are there. -/
def Server.Bounded (s : Server) : Prop :=
  ∀ id ∈ s.table, id < s.objs.length

namespace Server.Bounded

theorem init : Server.init.Bounded := by
  intro id h
  cases h

theorem goes {R : Conn → Conn → Prop} {s s' : Server} (h : s.Bounded) (hgoes : s.Goes R s') :
    s'.Bounded := by
  intro id hid
  rw [hgoes.length]
  exact h id (hgoes.table id hid)

theorem add {s : Server} (h : s.Bounded) (c : Conn) : (addConnection s c).Bounded := by
  intro id hid
  rw [length_addConnection]
  rcases table_addConnection hid with hold | ⟨rfl, -, -⟩
  · exact Nat.lt_succ_of_lt (h id hold)
  · exact Nat.lt_succ_self _

theorem conn {s : Server} (h : s.Bounded) {id : ℕ} (hid : id ∈ s.table) : ∃ c, s.conn id = some c :=
  Option.isSome_iff_exists.mp (by simpa [Server.conn] using h id hid)

theorem step {routes : List (Route Code)} {s s' : Server} {e : ServerEvent Code} (h : s.Bounded)
    (hstep : serverStep routes s e = some s') : s'.Bounded := by
  obtain ⟨s₀, hbegins, hgoes⟩ := serverStep_continues hstep
  apply goes _ hgoes
  cases hbegins with
  | same hnew => exact h
  | expired hmem hconn io closed =>
      intro id hid
      exact lt_of_lt_of_eq (h id hid) (List.length_modify ..).symm
  | added hcreates => exact h.add _

end Server.Bounded

/-! ## The end of the process -/

/-- While the process lives, no connection has ended it. -/
def Server.Lives (s : Server) : Prop :=
  s.dead = false → ∀ id, ∀ c ∈ s.conn id, c.dead = false

theorem dead_onRouted (c : Conn) (streamId : ℤ) (r : RouterResult) :
    (onRouted c streamId r).dead = (r.fault || c.dead) := by
  unfold onRouted
  cases hfault : r.fault with
  | true => rfl
  | false =>
      dsimp only
      split
      · contradiction
      · split
        · rfl
        · rfl

namespace Server.Lives

theorem init : Server.init.Lives := by
  intro _ id c hc
  cases hc

/-- Only the connections and the process matter. -/
theorem of_eq {s s' : Server} (h : s.Lives) (hobjs : s'.objs = s.objs) (hdead : s'.dead = s.dead) :
    s'.Lives := by
  intro halive id c hc
  rw [Server.conn, hobjs] at hc
  exact h (hdead.symm.trans halive) id c hc

/-- Whatever is stored: a connection that ended the process is seen. -/
theorem setConn {s : Server} (h : s.Lives) (id : ℕ) (c : Conn) : (s.setConn id c).Lives := by
  intro halive id' d hd
  obtain ⟨hdead, hconn⟩ := Bool.or_eq_false_iff.mp halive
  rw [conn_setConn] at hd
  by_cases heq : id = id'
  · rw [if_pos heq] at hd
    obtain ⟨_, -, rfl⟩ := Option.map_eq_some_iff.mp hd
    exact hconn
  · rw [if_neg heq] at hd
    exact h hdead id' d hd

theorem setHttp3 {s : Server} (h : s.Lives) (id : ℕ) : (s.setHttp3 id).Lives := by
  intro halive id' c hc
  rw [conn_setHttp3] at hc
  exact h halive id' c hc

theorem drop {s : Server} (h : s.Lives) (id : ℕ) : (dropConnection s id).Lives := by
  intro halive id' c hc
  rw [conn_drop] at hc
  by_cases heq : id = id'
  · rw [if_pos heq] at hc
    obtain ⟨c', hc', rfl⟩ := Option.map_eq_some_iff.mp hc
    exact h halive id c' hc'
  · rw [if_neg heq] at hc
    exact h halive id' c hc

theorem add {s : Server} (h : s.Lives) {c : Conn} (hc : c.dead = false) :
    (addConnection s c).Lives := by
  cases hget : getConnection s c.hs.cid with
  | none =>
      rw [addConnection_new hget]
      intro halive id d hd
      rcases conn_append hd with ⟨-, rfl⟩ | hold
      · exact hc
      · exact h halive id d hold
  | some old =>
      intro halive
      rw [(addConnection_dead hget).1] at halive
      cases halive

theorem storeOrDrop {s : Server} (h : s.Lives) (id : ℕ) (c : Conn) :
    (if c.closed then dropConnection (s.setConn id c) id else s.setConn id c).Lives := by
  cases c.closed with
  | false => exact h.setConn id c
  | true => exact (h.setConn id c).drop id

theorem processPacket {s : Server} (h : s.Lives) (id : ℕ) (d : Datagram) :
    (processPacket s id d).Lives := by
  unfold Http3.processPacket
  cases s.objs[id]? with
  | none => exact h
  | some o =>
      have hstored := h.setConn id (o.conn.closedBy d.closed)
      dsimp only
      split
      · exact hstored.of_eq rfl rfl
      · split
        · exact (hstored.drop id).of_eq rfl rfl
        · split
          · split
            · exact hstored.of_eq rfl rfl
            · split
              · exact (hstored.setHttp3 id).of_eq rfl rfl
              · exact hstored.of_eq rfl rfl
          · exact hstored

theorem recvDatagram {s : Server} (h : s.Lives) (sock : ℤ) (d : Datagram) :
    (recvDatagram s sock d).Lives := by
  cases hheader : d.header with
  | none =>
      unfold Http3.recvDatagram
      rw [hheader]
      exact h.of_eq rfl rfl
  | some p =>
      cases hget : getConnection s p.dcid with
      | some id =>
          rw [recvDatagram_known sock hheader hget]
          exact h.processPacket id d
      | none =>
          rcases recvDatagram_unknown sock hheader hget with ⟨-, hret⟩ | ⟨cid, -, hnew⟩
          · rw [hret]
            exact h.of_eq rfl rfl
          · have hadded : (addConnection s (Conn.create sock cid)).Lives := h.add rfl
            rw [hnew]
            split
            · exact hadded
            · exact (hadded.setConn _ _).processPacket _ d

theorem pollEvent {s : Server} (h : s.Lives) (routes : List (Route Code)) (id : ℕ) (p : Poll Code) :
    (pollEvent routes s id p).Lives := by
  cases p with
  | none => exact h.of_eq rfl rfl
  | other => exact h
  | headers streamId block io =>
      unfold Http3.pollEvent
      cases s.conn id with
      | none => exact h
      | some c =>
          dsimp only
          split
          · exact (h.setConn id _).of_eq rfl rfl
          · exact h.setConn id _

theorem egress {s : Server} (h : s.Lives) (id : ℕ) (left : List ℕ) (io : FlushIO) (closed : Bool) :
    (egress s id left io closed).Lives := by
  unfold Http3.egress
  cases s.conn id with
  | none => exact h
  | some c =>
      have hphase : ({ s with phase := .egress left } : Server).Lives := h.of_eq rfl rfl
      exact hphase.storeOrDrop id _

/-- An access to an `http_stream` that was freed. -/
theorem die (s : Server) : ({ s with dead := true } : Server).Lives := by
  intro halive
  cases halive

theorem step {routes : List (Route Code)} {s s' : Server} {e : ServerEvent Code} (h : s.Lives)
    (hstep : serverStep routes s e = some s') : s'.Lives := by
  cases serverStep_cases hstep with
  | wake hphase => exact h.of_eq rfl rfl
  | wouldBlock hphase => exact h.of_eq rfl rfl
  | failed hphase => exact h.of_eq rfl rfl
  | @datagram sock d hphase => exact h.recvDatagram sock d
  | @poll id p hphase => exact h.pollEvent routes id p
  | swept hphase => exact h.of_eq rfl rfl
  | @egress id left io closed hphase => exact h.egress id left io closed
  | timeout hphase hmem hconn => exact h.storeOrDrop _ _
  | write hmem hconn hwrite => exact h.setConn _ _
  | module hmem hconn => exact h.setConn _ _
  | freed hto hfreed hconn hevent => exact .die s

end Server.Lives

end Gfhttpd.Http3
