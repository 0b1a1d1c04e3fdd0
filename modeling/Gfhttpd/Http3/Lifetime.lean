import Gfhttpd.Http3.Server
import Gfhttpd.Http3.Spec

/-!
# Events and the connection table

Every pending event belongs to an `http_stream`: its `timeout_ev`, the write events of its
responses and its module event.  `EventsInTable` says that this `http_stream` is in the connection
table, so that no callback is called for one that was freed (`dispatched_in_table`).

`http3_connection_cleanup` deletes `timeout_ev` only, and `add_connection` overwrites an entry with
the same id.  `events_in_table_iff` says that these are the only ways to lose the property.

- `StepCases`: what an event does, with `serverStep_cases`
- `serverStep_keeps`: what it keeps
-/

namespace Gfhttpd.Http3

open Http Conf Router Modules Transition

variable {Code : Type}

/-! ## The property -/

/-- No write or module event of the connection is pending. -/
structure Quiet (c : Conn) : Prop where
  writes : ∀ fw ∈ c.writers, fw.scheduled = false
  modules : c.world.pending = []

instance (c : Conn) : Decidable (Quiet c) :=
  decidable_of_iff ((∀ fw ∈ c.writers, fw.scheduled = false) ∧ c.world.pending = [])
    ⟨fun h => ⟨h.1, h.2⟩, fun h => ⟨h.1, h.2⟩⟩

/-- An event of the connection is pending. -/
def HasEvent (c : Conn) : Prop :=
  c.timeoutPending = true ∨ ¬ Quiet c

/-- Every pending event belongs to a connection in the table. -/
def EventsInTable (s : Server) : Prop :=
  ∀ id c, s.conn id = some c → HasEvent c → id ∈ s.table

/-- The `http_stream` whose callback an event calls. -/
def dispatched : ServerEvent Code → Option ℕ
  | .timeout id _ _ => some id
  | .writeTick id _ _ _ => some id
  | .moduleTick id _ _ => some id
  | _ => none

/-! ## The condition -/

/-- The id of the connection a datagram creates. -/
def creates (s : Server) (d : Datagram) : Option Bytes :=
  match d.header with
  | none => none
  | some h =>
      if (getConnection s h.dcid).isSome ∨ d.versionSupported = false ∨ h.token = [] ∨
          validateToken h.token d.peerAddr QUICHE_MAX_CONN_ID_LEN = none then none
      else d.newCid

/-- The connection of a datagram has no write or module event when it fails in it, and one that it
creates has an id of its own. -/
def DatagramSafe (s : Server) (d : Datagram) : Prop :=
  (∀ h ∈ d.header, ∀ id ∈ getConnection s h.dcid, d.recv < QUICHE_ERR_DONE →
    ∀ c ∈ s.conn id, Quiet c) ∧
  ∀ cid ∈ creates s d, getConnection s cid = none

/-- The condition on an event: a connection that is cleaned up has no write or module event, and a
new connection has an id of its own. -/
def CleansUp (s : Server) : ServerEvent Code → Prop
  | .recv _ (.datagram d) => DatagramSafe s d
  | .egress _ closed =>
      match s.phase with
      | .egress (id :: _) => ∀ c ∈ s.conn id, (c.closed || closed) = true → Quiet c
      | _ => True
  | .timeout id _ closed => ∀ c ∈ s.conn id, (c.closed || closed) = true → Quiet c
  | _ => True

instance (s : Server) (d : Datagram) : Decidable (DatagramSafe s d) :=
  inferInstanceAs (Decidable (_ ∧ _))

instance (s : Server) : (e : ServerEvent Code) → Decidable (CleansUp s e)
  | .recv _ (.datagram d) => inferInstanceAs (Decidable (DatagramSafe s d))
  | .egress _ closed =>
      match h : s.phase with
      | .egress (id :: _) =>
          decidable_of_iff (∀ c ∈ s.conn id, (c.closed || closed) = true → Quiet c)
            (by simp only [CleansUp, h])
      | .egress [] => .isTrue (by simp only [CleansUp, h])
      | .idle => .isTrue (by simp only [CleansUp, h])
      | .receiving => .isTrue (by simp only [CleansUp, h])
      | .polling _ => .isTrue (by simp only [CleansUp, h])
  | .timeout id _ closed =>
      inferInstanceAs (Decidable (∀ c ∈ s.conn id, (c.closed || closed) = true → Quiet c))
  | .recv _ .wouldBlock | .recv _ .failed => .isTrue trivial
  | .wake | .poll _ | .writeTick .. | .moduleTick .. => .isTrue trivial

/-! ## The table -/

theorem conn_modify (s : Server) (id id' : ℕ) (f : HttpConn → HttpConn) :
    ({ s with objs := s.objs.modify id f } : Server).conn id' =
      if id = id' then (s.objs[id]?.map f).map HttpConn.conn else s.conn id' := by
  unfold Server.conn
  rw [List.getElem?_modify]
  by_cases h : id = id'
  · subst h
    simp
  · simp [h]

theorem getConnection_mem {s : Server} {cid : Bytes} {id : ℕ} (h : getConnection s cid = some id) :
    id ∈ s.table :=
  List.mem_of_find?_eq_some h

theorem addConnection_new {s : Server} {c : Conn} (h : getConnection s c.hs.cid = none) :
    addConnection s c =
      { s with objs := s.objs ++ [⟨c, false⟩], table := s.table ++ [s.objs.length] } := by
  unfold addConnection
  rw [h]

theorem addConnection_dead {s : Server} {c : Conn} {old : ℕ}
    (h : getConnection s c.hs.cid = some old) :
    (addConnection s c).dead = true ∧ (addConnection s c).table = s.table := by
  unfold addConnection
  rw [h]
  exact ⟨rfl, rfl⟩

theorem phase_addConnection (s : Server) (c : Conn) : (addConnection s c).phase = s.phase := by
  unfold addConnection
  cases getConnection s c.hs.cid with
  | none => rfl
  | some old => rfl

/-- What a step of the server keeps. -/
structure Coherent (s : Server) : Prop where
  bound : ∀ id ∈ s.table, id < s.objs.length
  nodup : s.table.Nodup
  polling : ∀ id, s.phase = .polling id → id ∈ s.table
  left : ∀ left, s.phase = .egress left → left.Nodup ∧ ∀ id ∈ left, id ∈ s.table

theorem Coherent.init : Coherent Server.init where
  bound id h := by cases h
  nodup := List.nodup_nil
  polling id h := by cases h
  left l h := by cases h

/-- A change of a connection in the table. -/
theorem EventsInTable.modify {s : Server} (h : EventsInTable s) {id : ℕ} (hmem : id ∈ s.table)
    (f : HttpConn → HttpConn) : EventsInTable { s with objs := s.objs.modify id f } := by
  intro id' c hconn hevent
  rw [conn_modify] at hconn
  by_cases heq : id = id'
  · exact heq ▸ hmem
  · rw [if_neg heq] at hconn
    exact h id' c hconn hevent

theorem EventsInTable.setConn {s : Server} (h : EventsInTable s) {id : ℕ} (hmem : id ∈ s.table)
    (c : Conn) : EventsInTable (s.setConn id c) :=
  h.modify hmem fun o => { o with conn := c }

theorem conn_drop (s : Server) (id id' : ℕ) : (dropConnection s id).conn id' =
    if id = id' then (s.conn id).map Conn.release else s.conn id' := by
  apply (conn_modify (deleteConnection s id) id id'
    fun o => { conn := o.conn.release, http3 := false }).trans
  unfold Server.conn
  rw [Option.map_map, Option.map_map]
  rfl

/-- A connection that is dropped leaves its write and module events behind. -/
theorem eventsInTable_drop {s : Server} (h : EventsInTable s) (id : ℕ) :
    EventsInTable (dropConnection s id) ↔ ∀ c ∈ s.conn id, Quiet c := by
  have hquiet : ∀ c : Conn, Quiet c.release ↔ Quiet c := fun c =>
    ⟨fun hq => ⟨hq.writes, hq.modules⟩, fun hq => ⟨hq.writes, hq.modules⟩⟩
  constructor
  · intro hdrop c hc
    by_contra hnot
    have hconn : (dropConnection s id).conn id = some c.release := by
      rw [conn_drop, if_pos rfl, hc]
      rfl
    have hmem := hdrop id c.release hconn (Or.inr fun hq => hnot ((hquiet c).mp hq))
    simp [dropConnection, http3ConnectionCleanup, deleteConnection] at hmem
  · intro hall id' c' hconn hevent
    rw [conn_drop] at hconn
    by_cases heq : id = id'
    · -- its timeout is deleted, and it had no other event
      subst heq
      rw [if_pos rfl, Option.map_eq_some_iff] at hconn
      obtain ⟨c, hc, rfl⟩ := hconn
      rcases hevent with htimeout | hnot
      · cases htimeout
      · exact absurd ((hquiet c).mpr (hall c hc)) hnot
    · rw [if_neg heq] at hconn
      apply List.mem_filter.mpr
      exact ⟨h id' c' hconn hevent, by simpa using Ne.symm heq⟩

/-- A new connection is in the table exactly if its id is not there yet. -/
theorem eventsInTable_add {s : Server} (h : EventsInTable s) (hs : Coherent s) (c : Conn)
    (hc : c.timeoutPending = true) :
    EventsInTable (addConnection s c) ↔ getConnection s c.hs.cid = none := by
  unfold addConnection
  cases hget : getConnection s c.hs.cid with
  | none =>
      refine iff_of_true (fun id' c' hconn hevent => ?_) rfl
      by_cases hnew : id' < s.objs.length
      · have hold : s.conn id' = some c' := by
          simpa [Server.conn, List.getElem?_append_left hnew] using hconn
        exact List.mem_append_left _ (h id' c' hold hevent)
      · obtain ⟨o, ho, -⟩ := Option.map_eq_some_iff.mp hconn
        obtain ⟨hlt, -⟩ := List.getElem?_eq_some_iff.mp ho
        have hid : id' = s.objs.length := by
          simp only [List.length_append, List.length_singleton] at hlt
          omega
        exact List.mem_append_right _ (List.mem_singleton.mpr hid)
  | some old =>
      refine iff_of_false (fun hall => ?_) (by simp)
      -- the new connection is not in the table, and its timeout is pending
      have hconn : Server.conn { s with
          objs := s.objs.modify old (fun o =>
            { conn := { o.conn with hs := c.hs, closed := c.closed }, http3 := false }) ++ [⟨c, false⟩]
          dead := true } s.objs.length = some c := by
        simp [Server.conn]
      have hmem := hall s.objs.length c hconn (Or.inl hc)
      exact absurd (hs.bound _ hmem) (Nat.lt_irrefl _)

/-! ## What keeps the table coherent -/

theorem conn_setConn (s : Server) (id id' : ℕ) (c : Conn) : (s.setConn id c).conn id' =
    if id = id' then (s.conn id).map fun _ => c else s.conn id' := by
  apply (conn_modify s id id' fun o => { o with conn := c }).trans
  unfold Server.conn
  rw [Option.map_map, Option.map_map]
  rfl

theorem Coherent.conn_of_mem {s : Server} (h : Coherent s) {id : ℕ} (hmem : id ∈ s.table) :
    ∃ c, s.conn id = some c := by
  have hlt := h.bound id hmem
  exact ⟨_, by rw [Server.conn, List.getElem?_eq_getElem hlt]; rfl⟩

/-- Only the number of `http_stream`s, the table and the phase matter. -/
theorem Coherent.congr {s s' : Server} (h : Coherent s) (hlength : s'.objs.length = s.objs.length)
    (htable : s'.table = s.table) (hphase : s'.phase = s.phase) : Coherent s' where
  bound := by
    rw [hlength, htable]
    exact h.bound
  nodup := by
    rw [htable]
    exact h.nodup
  polling := by
    rw [htable, hphase]
    exact h.polling
  left := by
    rw [htable, hphase]
    exact h.left

theorem Coherent.setConn {s : Server} (h : Coherent s) (id : ℕ) (c : Conn) :
    Coherent (s.setConn id c) :=
  h.congr (List.length_modify ..) rfl rfl

theorem Coherent.setHttp3 {s : Server} (h : Coherent s) (id : ℕ) : Coherent (s.setHttp3 id) :=
  h.congr (List.length_modify ..) rfl rfl

/-- A round that returns, or that waits for the next datagram. -/
theorem Coherent.leave {s : Server} (h : Coherent s) {p : Phase} (hp : p = .idle ∨ p = .receiving) :
    Coherent { s with phase := p } where
  bound := h.bound
  nodup := h.nodup
  polling id hid := by
    obtain rfl | rfl := hp <;> cases hid
  left l hl := by
    obtain rfl | rfl := hp <;> cases hl

theorem Coherent.ret {s : Server} (h : Coherent s) : Coherent s.ret :=
  h.leave (Or.inl rfl)

theorem Coherent.toPolling {s : Server} (h : Coherent s) {id : ℕ} (hmem : id ∈ s.table) :
    Coherent { s with phase := .polling id } where
  bound := h.bound
  nodup := h.nodup
  polling id' hid := by
    cases hid
    exact hmem
  left l hl := by cases hl

theorem Coherent.toEgress {s : Server} (h : Coherent s) {left : List ℕ} (hnodup : left.Nodup)
    (hsub : ∀ id ∈ left, id ∈ s.table) : Coherent { s with phase := .egress left } where
  bound := h.bound
  nodup := h.nodup
  polling id hid := by cases hid
  left l hl := by
    cases hl
    exact ⟨hnodup, hsub⟩

/-- A connection can be dropped when no loop will come to it. -/
theorem Coherent.drop {s : Server} (h : Coherent s) {id : ℕ} (hpoll : ∀ id', s.phase ≠ .polling id')
    (hleft : ∀ left, s.phase = .egress left → id ∉ left) : Coherent (dropConnection s id) where
  bound id' hid := by
    have hlength : (dropConnection s id).objs.length = s.objs.length := List.length_modify ..
    rw [hlength]
    exact h.bound id' (List.mem_filter.mp hid).1
  nodup := h.nodup.filter _
  polling id' hid := absurd hid (hpoll id')
  left left hphase := by
    obtain ⟨hnodup, hsub⟩ := h.left left hphase
    refine ⟨hnodup, fun id' hid => ?_⟩
    apply List.mem_filter.mpr
    refine ⟨hsub id' hid, ?_⟩
    have hne : id' ≠ id := fun heq => hleft left hphase (heq ▸ hid)
    simpa using hne

theorem Coherent.add {s : Server} (h : Coherent s) (c : Conn) : Coherent (addConnection s c) := by
  unfold addConnection
  cases getConnection s c.hs.cid with
  | none =>
      -- the id of the new connection is not in use
      have hfresh : s.objs.length ∉ s.table := fun hmem => Nat.lt_irrefl _ (h.bound _ hmem)
      constructor
      · intro id hid
        have hlength : (s.objs ++ [(⟨c, false⟩ : HttpConn)]).length = s.objs.length + 1 :=
          List.length_append
        rw [hlength]
        rcases List.mem_append.mp hid with hold | hnew
        · exact Nat.lt_succ_of_lt (h.bound id hold)
        · rw [List.mem_singleton.mp hnew]
          exact Nat.lt_succ_self _
      · apply List.nodup_append.mpr
        refine ⟨h.nodup, by simp, fun id hid id' hid' heq => hfresh ?_⟩
        rw [← List.mem_singleton.mp hid', ← heq]
        exact hid
      · intro id hid
        exact List.mem_append_left _ (h.polling id hid)
      · intro left hleft
        obtain ⟨hnodup, hsub⟩ := h.left left hleft
        exact ⟨hnodup, fun id hid => List.mem_append_left _ (hsub id hid)⟩
  | some old =>
      constructor
      · intro id hid
        have hlt := h.bound id hid
        simp only [List.length_append, List.length_modify]
        exact Nat.lt_add_right _ hlt
      · exact h.nodup
      · exact h.polling
      · exact h.left

/-! ## Datagrams -/

theorem quiet_closedBy (c : Conn) (closed : Bool) : Quiet (c.closedBy closed) ↔ Quiet c :=
  ⟨fun h => ⟨h.writes, h.modules⟩, fun h => ⟨h.writes, h.modules⟩⟩

theorem quiet_create (sock : ℤ) (cid peerAddr : Bytes) :
    Quiet ((Conn.create sock cid).setPeer peerAddr) where
  writes fw hfw := by cases hfw
  modules := rfl

/-- The round from `quiche_conn_recv` on. -/
theorem processPacket_keeps {s : Server} {id : ℕ} {d : Datagram} (h : Coherent s)
    (hevents : EventsInTable s) (hphase : s.phase = .receiving) (hmem : id ∈ s.table) :
    Coherent (processPacket s id d) ∧
      (EventsInTable (processPacket s id d) ↔
        (d.recv < QUICHE_ERR_DONE → ∀ c ∈ s.conn id, Quiet c)) := by
  have hlt := h.bound id hmem
  have hobj : s.objs[id]? = some s.objs[id] := List.getElem?_eq_getElem hlt
  have hconn : s.conn id = some s.objs[id].conn := by
    rw [Server.conn, hobj]
    rfl
  have h' := h.setConn id (s.objs[id].conn.closedBy d.closed)
  have hevents' := hevents.setConn hmem (s.objs[id].conn.closedBy d.closed)
  unfold processPacket
  rw [hobj]
  dsimp only
  split
  · -- nothing was read
    rename_i hdone
    refine ⟨h'.toEgress h'.nodup fun id hid => hid, iff_of_true hevents' fun hrecv => ?_⟩
    rw [hdone] at hrecv
    exact absurd hrecv (Int.lt_irrefl _)
  · rename_i hdone
    split
    · -- the connection is dropped
      rename_i hneg
      have hpoll : ∀ id', (s.setConn id (s.objs[id].conn.closedBy d.closed)).phase ≠ .polling id' := by
        intro id' hid
        have hreceiving : s.phase = .polling id' := hid
        rw [hphase] at hreceiving
        cases hreceiving
      have hleft : ∀ left,
          (s.setConn id (s.objs[id].conn.closedBy d.closed)).phase = .egress left → id ∉ left := by
        intro left hid
        have hreceiving : s.phase = .egress left := hid
        rw [hphase] at hreceiving
        cases hreceiving
      refine ⟨(h'.drop hpoll hleft).ret, (eventsInTable_drop hevents' id).trans ?_⟩
      rw [conn_setConn, if_pos rfl, hconn]
      have hrecv : d.recv < QUICHE_ERR_DONE := by
        unfold QUICHE_ERR_DONE at hdone ⊢
        omega
      simp only [Option.map_some, Option.mem_some_iff, forall_eq', quiet_closedBy, hrecv, true_imp_iff]
    · rename_i hneg
      have hrecv : ¬ d.recv < QUICHE_ERR_DONE := by
        unfold QUICHE_ERR_DONE
        omega
      have hcond : d.recv < QUICHE_ERR_DONE → ∀ c ∈ s.conn id, Quiet c := fun h => absurd h hrecv
      split
      · split
        · exact ⟨h'.toPolling hmem, iff_of_true hevents' hcond⟩
        · -- `quiche_h3_conn_new_with_transport` answers a connection, or nothing
          split
          · exact ⟨(h'.setHttp3 id).toPolling hmem,
              iff_of_true (hevents'.modify hmem fun o => { o with http3 := true }) hcond⟩
          · exact ⟨h'.ret, iff_of_true hevents' hcond⟩
      · exact ⟨h', iff_of_true hevents' hcond⟩

theorem creates_known {s : Server} {d : Datagram} {h : PacketHeader} {id : ℕ}
    (hheader : d.header = some h) (hget : getConnection s h.dcid = some id) : creates s d = none := by
  unfold creates
  rw [hheader]
  simp [hget]

/-- What is not a packet creates nothing. -/
theorem recvDatagram_unread {d : Datagram} (hheader : d.header = none) (s : Server) (sock : ℤ) :
    creates s d = none ∧ recvDatagram s sock d = s.ret := by
  unfold creates recvDatagram
  rw [hheader]
  exact ⟨rfl, rfl⟩

/-- A datagram of a connection in the table. -/
theorem datagramSafe_known {s : Server} {d : Datagram} {h : PacketHeader} {id : ℕ}
    (hheader : d.header = some h) (hget : getConnection s h.dcid = some id) :
    DatagramSafe s d ↔ (d.recv < QUICHE_ERR_DONE → ∀ c ∈ s.conn id, Quiet c) := by
  unfold DatagramSafe
  rw [creates_known hheader hget, hheader]
  simp [hget]

/-- A datagram without a connection. -/
theorem datagramSafe_unknown {s : Server} {d : Datagram}
    (hget : ∀ h ∈ d.header, getConnection s h.dcid = none) :
    DatagramSafe s d ↔ ∀ cid ∈ creates s d, getConnection s cid = none := by
  unfold DatagramSafe
  refine and_iff_right fun h hh id hid => ?_
  rw [hget h hh] at hid
  cases hid

theorem recvDatagram_known {s : Server} {d : Datagram} {h : PacketHeader} {id : ℕ} (sock : ℤ)
    (hheader : d.header = some h) (hget : getConnection s h.dcid = some id) :
    recvDatagram s sock d = processPacket s id d := by
  unfold recvDatagram
  rw [hheader]
  dsimp only
  rw [hget]

/-- A datagram without a connection is dropped, or it creates one. -/
theorem recvDatagram_unknown {s : Server} {d : Datagram} {h : PacketHeader} (sock : ℤ)
    (hheader : d.header = some h) (hget : getConnection s h.dcid = none) :
    (creates s d = none ∧ recvDatagram s sock d = s.ret) ∨
      ∃ cid, creates s d = some cid ∧ recvDatagram s sock d =
        if (addConnection s (Conn.create sock cid)).dead then addConnection s (Conn.create sock cid)
        else processPacket ((addConnection s (Conn.create sock cid)).setConn s.objs.length
          ((Conn.create sock cid).setPeer d.peerAddr)) s.objs.length d := by
  unfold recvDatagram creates
  rw [hheader]
  simp only [hget]
  cases hversion : d.versionSupported with
  | false => simp
  | true =>
      by_cases htoken : h.token = []
      · simp [htoken]
      · cases hvalid : validateToken h.token d.peerAddr QUICHE_MAX_CONN_ID_LEN with
        | none => simp [htoken]
        | some odcid =>
            cases hcid : d.newCid with
            | none => simp [htoken]
            | some cid => simp [htoken]

/-- A new connection. -/
theorem addConnection_keeps {s : Server} (h : Coherent s) (hevents : EventsInTable s)
    (hphase : s.phase = .receiving) (hdead : s.dead = false) (sock : ℤ) (cid : Bytes)
    (d : Datagram) {s' : Server}
    (hs' : s' = if (addConnection s (Conn.create sock cid)).dead then
        addConnection s (Conn.create sock cid)
      else processPacket ((addConnection s (Conn.create sock cid)).setConn s.objs.length
        ((Conn.create sock cid).setPeer d.peerAddr)) s.objs.length d) :
    Coherent s' ∧ (EventsInTable s' ↔ getConnection s cid = none) := by
  have hadd := h.add (Conn.create sock cid)
  have hiff := eventsInTable_add hevents h (Conn.create sock cid) rfl
  cases hget : getConnection s cid with
  | some old =>
      rw [if_pos (addConnection_dead (c := Conn.create sock cid) hget).1] at hs'
      subst hs'
      refine ⟨hadd, hiff.trans ?_⟩
      rw [← hget]
      rfl
  | none =>
      have heq := addConnection_new (c := Conn.create sock cid) hget
      have hlives : (addConnection s (Conn.create sock cid)).dead ≠ true := by
        rw [heq]
        exact ne_true_of_eq_false hdead
      have hmem : s.objs.length ∈ (addConnection s (Conn.create sock cid)).table := by
        rw [heq]
        exact List.mem_append_right _ (List.mem_singleton.mpr rfl)
      have hreceiving := (phase_addConnection s (Conn.create sock cid)).trans hphase
      rw [if_neg hlives] at hs'
      subst hs'
      obtain ⟨hcoherent, hpacket⟩ := processPacket_keeps (d := d) (hadd.setConn s.objs.length
        ((Conn.create sock cid).setPeer d.peerAddr)) ((hiff.mpr hget).setConn hmem _) hreceiving hmem
      refine ⟨hcoherent, iff_of_true (hpacket.mpr fun _ c hc => ?_) rfl⟩
      -- what fails here is the new connection, which has no event but its timeout
      rw [conn_setConn, if_pos rfl] at hc
      obtain ⟨_, -, rfl⟩ := Option.map_eq_some_iff.mp hc
      exact quiet_create sock cid d.peerAddr

/-- A round that read a datagram. -/
theorem recvDatagram_keeps {s : Server} (h : Coherent s) (hevents : EventsInTable s)
    (hphase : s.phase = .receiving) (hdead : s.dead = false) (sock : ℤ) (d : Datagram) :
    Coherent (recvDatagram s sock d) ∧
      (EventsInTable (recvDatagram s sock d) ↔ DatagramSafe s d) := by
  cases hheader : d.header with
  | none =>
      obtain ⟨hcreates, hret⟩ := recvDatagram_unread hheader s sock
      rw [hret]
      refine ⟨h.ret, iff_of_true hevents ((datagramSafe_unknown ?_).mpr ?_)⟩
      · intro p hp
        rw [hheader] at hp
        cases hp
      · intro cid hcid
        rw [hcreates] at hcid
        cases hcid
  | some p =>
      cases hget : getConnection s p.dcid with
      | some id =>
          rw [recvDatagram_known sock hheader hget, datagramSafe_known hheader hget]
          exact processPacket_keeps h hevents hphase (getConnection_mem hget)
      | none =>
          have hunknown : ∀ q ∈ d.header, getConnection s q.dcid = none := by
            intro q hq
            rw [hheader] at hq
            cases hq
            exact hget
          rw [datagramSafe_unknown hunknown]
          rcases recvDatagram_unknown sock hheader hget with ⟨hcreates, hret⟩ | ⟨cid, hcreates, hnew⟩
          · rw [hret, hcreates]
            refine ⟨h.ret, iff_of_true hevents fun cid hcid => ?_⟩
            cases hcid
          · obtain ⟨hcoherent, hiff⟩ := addConnection_keeps h hevents hphase hdead sock cid d hnew
            refine ⟨hcoherent, hiff.trans ?_⟩
            rw [hcreates]
            simp

/-! ## The other rounds and the callbacks -/

theorem pollEvent_keeps (routes : List (Route Code)) {s : Server} {id : ℕ} (h : Coherent s)
    (hevents : EventsInTable s) (hmem : id ∈ s.table) (p : Poll Code) :
    Coherent (pollEvent routes s id p) ∧ EventsInTable (pollEvent routes s id p) := by
  cases p with
  | none => exact ⟨h.leave (Or.inr rfl), hevents⟩
  | other => exact ⟨h, hevents⟩
  | headers streamId block io =>
      obtain ⟨c, hconn⟩ := h.conn_of_mem hmem
      unfold pollEvent
      rw [hconn]
      dsimp only
      split
      · exact ⟨(h.setConn id _).ret, hevents.setConn hmem _⟩
      · exact ⟨h.setConn id _, hevents.setConn hmem _⟩

/-- What `flush_egress` leaves of the events of a connection. -/
theorem quiet_flushEgress (c : Conn) (io : FlushIO) (closed : Bool) :
    Quiet ((flushEgress c io).closedBy closed) ↔ Quiet c := by
  rw [quiet_closedBy]
  obtain ⟨timer, timeoutPending, -, heq⟩ := flushEgress_eq c io
  rw [heq]
  exact ⟨fun h => ⟨h.writes, h.modules⟩, fun h => ⟨h.writes, h.modules⟩⟩

theorem closed_flushEgress (c : Conn) (io : FlushIO) (closed : Bool) :
    ((flushEgress c io).closedBy closed).closed = (c.closed || closed) := by
  obtain ⟨timer, timeoutPending, -, heq⟩ := flushEgress_eq c io
  rw [heq]
  rfl

theorem quietIfClosed_iff {s : Server} {id : ℕ} {c : Conn} (hconn : s.conn id = some c)
    (closed : Bool) : (∀ c ∈ s.conn id, (c.closed || closed) = true → Quiet c) ↔
      ∀ c' ∈ s.conn id, (c.closed || closed) = true → Quiet c' := by
  rw [hconn]
  simp

/-- A connection that is stored again, and dropped if it is closed. -/
theorem storeOrDrop_keeps {s : Server} {id : ℕ} {c c' : Conn} (h : Coherent s)
    (hevents : EventsInTable s) (hmem : id ∈ s.table) (hconn : s.conn id = some c)
    (hpoll : ∀ id', s.phase ≠ .polling id') (hleft : ∀ left, s.phase = .egress left → id ∉ left)
    {closed : Bool} (hclosed : c'.closed = closed) (hquiet : Quiet c' ↔ Quiet c) {s' : Server}
    (hs' : s' = if c'.closed then dropConnection (s.setConn id c') id else s.setConn id c') :
    Coherent s' ∧ (EventsInTable s' ↔ ∀ c ∈ s.conn id, closed = true → Quiet c) := by
  have hcond : (∀ c ∈ s.conn id, closed = true → Quiet c) ↔ (closed = true → Quiet c) := by
    rw [hconn]
    simp
  rw [hcond]
  rw [hclosed] at hs'
  cases closed with
  | false =>
      subst hs'
      refine ⟨h.setConn id c', iff_of_true (hevents.setConn hmem c') fun h => ?_⟩
      cases h
  | true =>
      subst hs'
      refine ⟨(h.setConn id c').drop hpoll hleft, ?_⟩
      apply (eventsInTable_drop (hevents.setConn hmem c') id).trans
      rw [conn_setConn, if_pos rfl, hconn]
      simp [hquiet]

/-- A round of the loop over the table. -/
theorem egress_keeps {s : Server} {id : ℕ} {left : List ℕ} (h : Coherent s)
    (hevents : EventsInTable s) (hphase : s.phase = .egress (id :: left)) (io : FlushIO)
    (closed : Bool) : Coherent (egress s id left io closed) ∧
      (EventsInTable (egress s id left io closed) ↔
        ∀ c ∈ s.conn id, (c.closed || closed) = true → Quiet c) := by
  obtain ⟨hnodup, hsub⟩ := h.left _ hphase
  obtain ⟨hnotin, hnodup'⟩ := List.nodup_cons.mp hnodup
  have hmem : id ∈ s.table := hsub id (List.mem_cons_self ..)
  obtain ⟨c, hconn⟩ := h.conn_of_mem hmem
  have h' := h.toEgress hnodup' fun id hid => hsub id (List.mem_cons_of_mem _ hid)
  have hpoll : ∀ id', ({ s with phase := .egress left } : Server).phase ≠ .polling id' := by
    intro id' hid
    cases hid
  have hleft : ∀ left', ({ s with phase := .egress left } : Server).phase = .egress left' →
      id ∉ left' := by
    intro left' hid
    cases hid
    exact hnotin
  rw [quietIfClosed_iff hconn closed]
  apply storeOrDrop_keeps h' hevents hmem hconn hpoll hleft (closed_flushEgress c io closed)
    (quiet_flushEgress c io closed)
  unfold egress
  rw [hconn]
  rfl

/-- `timeout_cb`. -/
theorem timeoutCb_keeps {s : Server} {id : ℕ} {c : Conn} (h : Coherent s)
    (hevents : EventsInTable s) (hphase : s.phase = .idle) (hmem : id ∈ s.table)
    (hconn : s.conn id = some c) (io : FlushIO) (closed : Bool) :
    Coherent (timeoutCb s id c io closed) ∧ (EventsInTable (timeoutCb s id c io closed) ↔
      ∀ c ∈ s.conn id, (c.closed || closed) = true → Quiet c) := by
  have hpoll : ∀ id', s.phase ≠ .polling id' := by
    intro id' hid
    rw [hphase] at hid
    cases hid
  have hleft : ∀ left, s.phase = .egress left → id ∉ left := by
    intro left hid
    rw [hphase] at hid
    cases hid
  rw [quietIfClosed_iff hconn closed]
  have hquiet : Quiet { c with timeoutPending := false } ↔ Quiet c :=
    ⟨fun h => ⟨h.writes, h.modules⟩, fun h => ⟨h.writes, h.modules⟩⟩
  exact storeOrDrop_keeps h hevents hmem hconn hpoll hleft
    (closed_flushEgress { c with timeoutPending := false } io closed)
    ((quiet_flushEgress { c with timeoutPending := false } io closed).trans hquiet) rfl

/-- The callback of an event that belongs to an `http_stream`. -/
theorem dispatch_cases {s s' : Server} {id : ℕ} {pending : Conn → Bool}
    {callback : Conn → Option Server} (hstep : dispatch s id pending callback = some s') :
    s.phase = .idle ∧ ∃ c, s.conn id = some c ∧ pending c = true ∧
      (id ∈ s.table ∧ callback c = some s' ∨ id ∉ s.table ∧ s' = { s with dead := true }) := by
  unfold dispatch at hstep
  by_cases hphase : s.phase = .idle
  · rw [if_neg (not_not.mpr hphase)] at hstep
    refine ⟨hphase, ?_⟩
    cases hconn : s.conn id with
    | none =>
        rw [hconn] at hstep
        cases hstep
    | some c =>
        refine ⟨c, rfl, ?_⟩
        rw [hconn] at hstep
        dsimp only at hstep
        cases hp : pending c with
        | false =>
            rw [hp] at hstep
            cases hstep
        | true =>
            rw [hp, if_neg (by simp)] at hstep
            by_cases hmem : id ∈ s.table
            · rw [if_pos hmem] at hstep
              exact ⟨rfl, Or.inl ⟨hmem, hstep⟩⟩
            · rw [if_neg hmem] at hstep
              exact ⟨rfl, Or.inr ⟨hmem, (Option.some.inj hstep).symm⟩⟩
  · rw [if_pos hphase] at hstep
    cases hstep

theorem hasEvent_timeout {c : Conn} (h : c.timeoutPending = true) : HasEvent c :=
  Or.inl h

theorem hasEvent_write {c : Conn} {i : ℕ}
    (h : (c.writers[i]?.map FutureWrite.scheduled).getD false = true) : HasEvent c := by
  apply Or.inr
  intro hquiet
  cases hget : c.writers[i]? with
  | none =>
      rw [hget] at h
      cases h
  | some fw =>
      rw [hget] at h
      have hidle := hquiet.writes fw (List.mem_of_getElem? hget)
      exact absurd h (ne_true_of_eq_false hidle)

theorem hasEvent_module {c : Conn} {ev : ℕ} (h : c.world.pending.contains ev = true) :
    HasEvent c := by
  apply Or.inr
  intro hquiet
  rw [hquiet.modules] at h
  cases h

/-! ## Runs -/

/-- Nothing runs in a dead process. -/
theorem alive_of_step {routes : List (Route Code)} {s s' : Server} {e : ServerEvent Code}
    (hstep : serverStep routes s e = some s') : s.dead = false := by
  cases hdead : s.dead with
  | true => cases e <;> simp [serverStep, hdead] at hstep
  | false => rfl

/-- What an event does. -/
inductive StepCases (routes : List (Route Code)) (s : Server) : ServerEvent Code → Server → Prop
  | wake (hphase : s.phase = .idle) : StepCases routes s .wake { s with phase := .receiving }
  | wouldBlock {sock : ℤ} (hphase : s.phase = .receiving) :
      StepCases routes s (.recv sock .wouldBlock) { s with phase := .egress s.table }
  | failed {sock : ℤ} (hphase : s.phase = .receiving) :
      StepCases routes s (.recv sock .failed) s.ret
  | datagram {sock : ℤ} {d : Datagram} (hphase : s.phase = .receiving) :
      StepCases routes s (.recv sock (.datagram d)) (recvDatagram s sock d)
  | poll {id : ℕ} {p : Poll Code} (hphase : s.phase = .polling id) :
      StepCases routes s (.poll p) (pollEvent routes s id p)
  /-- the loop over the table is at its end -/
  | swept {io : FlushIO} {closed : Bool} (hphase : s.phase = .egress []) :
      StepCases routes s (.egress io closed) s.ret
  | egress {id : ℕ} {left : List ℕ} {io : FlushIO} {closed : Bool}
      (hphase : s.phase = .egress (id :: left)) :
      StepCases routes s (.egress io closed) (egress s id left io closed)
  | timeout {id : ℕ} {c : Conn} {io : FlushIO} {closed : Bool} (hphase : s.phase = .idle)
      (hmem : id ∈ s.table) (hconn : s.conn id = some c) :
      StepCases routes s (.timeout id io closed) (timeoutCb s id c io closed)
  | write {id i : ℕ} {c c' : Conn} {io : TickIO} {closed : Bool} (hmem : id ∈ s.table)
      (hconn : s.conn id = some c) (hwrite : futureWriteCb c i io = some c') :
      StepCases routes s (.writeTick id i io closed) (s.setConn id (c'.closedBy closed))
  | module {id ev : ℕ} {c : Conn} {io : ModuleIO} (hmem : id ∈ s.table)
      (hconn : s.conn id = some c) :
      StepCases routes s (.moduleTick id ev io) (s.setConn id (moduleTick c ev io))
  /-- the `http_stream` was freed -/
  | freed {e : ServerEvent Code} {id : ℕ} {c : Conn} (hto : dispatched e = some id)
      (hfreed : id ∉ s.table) (hconn : s.conn id = some c) (hevent : HasEvent c) :
      StepCases routes s e { s with dead := true }

theorem serverStep_cases {routes : List (Route Code)} {s s' : Server} {e : ServerEvent Code}
    (hstep : serverStep routes s e = some s') : StepCases routes s e s' := by
  have hdead := alive_of_step hstep
  cases e with
  | wake =>
      simp only [serverStep, Option.ite_none_left_eq_some, Option.some.injEq] at hstep
      obtain ⟨hguard, rfl⟩ := hstep
      exact .wake (by simpa [hdead] using hguard)
  | recv sock r =>
      simp only [serverStep, Option.ite_none_left_eq_some] at hstep
      obtain ⟨hguard, hstep⟩ := hstep
      have hphase : s.phase = .receiving := by simpa [hdead] using hguard
      cases r with
      | wouldBlock =>
          cases hstep
          exact .wouldBlock hphase
      | failed =>
          cases hstep
          exact .failed hphase
      | datagram d =>
          cases hstep
          exact .datagram hphase
  | poll p =>
      cases hphase : s.phase with
      | polling id =>
          simp only [serverStep, hdead, hphase, Bool.false_eq_true, if_false,
            Option.some.injEq] at hstep
          exact hstep ▸ .poll hphase
      | idle => simp [serverStep, hdead, hphase] at hstep
      | receiving => simp [serverStep, hdead, hphase] at hstep
      | egress left => simp [serverStep, hdead, hphase] at hstep
  | egress io closed =>
      cases hphase : s.phase with
      | egress left =>
          cases left with
          | nil =>
              simp only [serverStep, hdead, hphase, Bool.false_eq_true, if_false,
                Option.some.injEq] at hstep
              exact hstep ▸ .swept hphase
          | cons id left =>
              simp only [serverStep, hdead, hphase, Bool.false_eq_true, if_false,
                Option.some.injEq] at hstep
              exact hstep ▸ .egress hphase
      | idle => simp [serverStep, hdead, hphase] at hstep
      | receiving => simp [serverStep, hdead, hphase] at hstep
      | polling id => simp [serverStep, hdead, hphase] at hstep
  | timeout id io closed =>
      simp only [serverStep, hdead, Bool.false_eq_true, if_false] at hstep
      obtain ⟨hphase, c, hconn, hpending, ⟨hmem, hcall⟩ | ⟨hfreed, rfl⟩⟩ := dispatch_cases hstep
      · cases hcall
        exact .timeout hphase hmem hconn
      · exact .freed rfl hfreed hconn (hasEvent_timeout hpending)
  | writeTick id i io closed =>
      simp only [serverStep, hdead, Bool.false_eq_true, if_false] at hstep
      obtain ⟨-, c, hconn, hpending, ⟨hmem, hcall⟩ | ⟨hfreed, rfl⟩⟩ := dispatch_cases hstep
      · obtain ⟨c', hwrite, rfl⟩ := Option.map_eq_some_iff.mp hcall
        exact .write hmem hconn hwrite
      · exact .freed rfl hfreed hconn (hasEvent_write hpending)
  | moduleTick id ev io =>
      simp only [serverStep, hdead, Bool.false_eq_true, if_false] at hstep
      obtain ⟨-, c, hconn, hpending, ⟨hmem, hcall⟩ | ⟨hfreed, rfl⟩⟩ := dispatch_cases hstep
      · cases hcall
        exact .module hmem hconn
      · exact .freed rfl hfreed hconn (hasEvent_module hpending)

/-- One event: every pending event belongs to a connection in the table afterwards exactly if the
event cleans up what it drops. -/
theorem serverStep_keeps (routes : List (Route Code)) {s s' : Server} {e : ServerEvent Code}
    (h : Coherent s) (hevents : EventsInTable s) (hstep : serverStep routes s e = some s') :
    Coherent s' ∧ (EventsInTable s' ↔ CleansUp s e) := by
  have hdead := alive_of_step hstep
  cases serverStep_cases hstep with
  | wake hphase => exact ⟨h.leave (Or.inr rfl), iff_of_true hevents trivial⟩
  | wouldBlock hphase =>
      exact ⟨h.toEgress h.nodup fun id hid => hid, iff_of_true hevents trivial⟩
  | failed hphase => exact ⟨h.ret, iff_of_true hevents trivial⟩
  | datagram hphase => exact recvDatagram_keeps h hevents hphase hdead _ _
  | @poll id p hphase =>
      obtain ⟨h', hevents'⟩ := pollEvent_keeps routes h hevents (h.polling id hphase) p
      exact ⟨h', iff_of_true hevents' trivial⟩
  | swept hphase =>
      simp only [CleansUp, hphase]
      exact ⟨h.ret, iff_of_true hevents trivial⟩
  -- a closed connection is dropped with the events that `http3_connection_cleanup` forgets
  | egress hphase =>
      simp only [CleansUp, hphase]
      exact egress_keeps h hevents hphase _ _
  | timeout hphase hmem hconn => exact timeoutCb_keeps h hevents hphase hmem hconn _ _
  | @write id i c c' io closed hmem hconn hwrite =>
      exact ⟨h.setConn id _, iff_of_true (hevents.setConn hmem _) trivial⟩
  | @module id ev c io hmem hconn =>
      exact ⟨h.setConn id _, iff_of_true (hevents.setConn hmem _) trivial⟩
  | freed hto hfreed hconn hevent => exact absurd (hevents _ _ hconn hevent) hfreed

/-- The callback of a connection is called only while it is in the table. -/
def DispatchedInTable (s : Server) (e : ServerEvent Code) : Prop :=
  ∀ id ∈ dispatched e, id ∈ s.table

instance (s : Server) (e : ServerEvent Code) : Decidable (DispatchedInTable s e) :=
  inferInstanceAs (Decidable (∀ id ∈ dispatched e, id ∈ s.table))

theorem dispatched_in_table {routes : List (Route Code)} {s s' : Server} {e : ServerEvent Code}
    (hevents : EventsInTable s) (hstep : serverStep routes s e = some s') :
    DispatchedInTable s e := by
  intro id hid
  cases serverStep_cases hstep with
  | timeout hphase hmem hconn =>
      cases hid
      exact hmem
  | write hmem hconn hwrite =>
      cases hid
      exact hmem
  | module hmem hconn =>
      cases hid
      exact hmem
  | freed hto hfreed hconn hevent => exact absurd (hevents _ _ hconn hevent) hfreed
  | wake | wouldBlock | failed | datagram | poll | swept | egress => cases hid

theorem eventsInTable_init : EventsInTable Server.init := by
  intro id c hconn
  cases hconn

/-- **In every state of a run every pending event belongs to a connection in the table, and no
callback is called for one that is not, exactly if every event of the run cleans up what it drops:
a connection that fails in `quiche_conn_recv`, or that is found closed, has no write or module
event then, and a new connection has an id of its own.** -/
theorem events_in_table_iff (routes : List (Route Code)) {run : List (ServerEvent Code)}
    {s : Server} (hexec : (serverMachine routes).exec Server.init run = some s) :
    ((serverMachine routes).Throughout EventsInTable Server.init run ∧
      (serverMachine routes).Meets DispatchedInTable Server.init run) ↔
      (serverMachine routes).Meets CleansUp Server.init run := by
  have hiff : (serverMachine routes).Throughout EventsInTable Server.init run ↔
      (serverMachine routes).Meets CleansUp Server.init run := by
    apply (serverMachine routes).throughout_iff_meets _ Coherent.init eventsInTable_init hexec
    intro s e s' h hevents hstep
    obtain ⟨h', hiff⟩ := serverStep_keeps routes h hevents hstep
    exact ⟨fun _ => h', hiff⟩
  rw [← hiff]
  -- the second part follows: what is in the table is what has events
  apply and_iff_left_of_imp
  intro hthroughout
  apply (serverMachine routes).meets_of_throughout _ hthroughout hexec
  intro s e s' hevents hstep
  exact dispatched_in_table hevents hstep

/-- A datagram of a client, for the connection `dcid`. -/
def clientDatagram (dcid : Bytes) (recv : ℤ) (established : Bool) : Datagram where
  peerAddr := [7]
  header := some ⟨dcid, mintToken [3] [7]⟩
  versionSupported := true
  newCid := some [9]
  recv := recv
  closed := false
  established := established
  h3Created := true

/-- A client connects and asks for a file. -/
def fileRequested : List (ServerEvent Unit) :=
  [.wake, .recv 5 (.datagram (clientDatagram [3] 1200 false)),
    .recv 5 (.datagram (clientDatagram [9] 80 true)),
    .poll (.headers 0 [(ascii ":path", ascii "/a")] (servesFile (ascii "abc"))),
    .poll .none]

/-- The file is sent before a datagram of the client fails. -/
def failsLate : List (ServerEvent Unit) :=
  fileRequested ++
    [.recv 5 .wouldBlock, .egress ⟨[], true, 0⟩ false, .egress ⟨[], true, 0⟩ false,
      .writeTick 0 0 ⟨[⟨3, 3⟩], ⟨[], true, 0⟩⟩ false,
      .wake, .recv 5 (.datagram (clientDatagram [9] (-2) true))]

theorem events_in_table_failsLate : ∃ s,
    (serverMachine []).exec Server.init failsLate = some s ∧
      (serverMachine []).Throughout EventsInTable Server.init failsLate ∧
      (serverMachine []).Meets DispatchedInTable Server.init failsLate := by
  have hexec : (serverMachine []).exec Server.init failsLate = some _ := rfl
  exact ⟨_, hexec, (events_in_table_iff [] hexec).mpr (by decide)⟩

/-- A datagram of the client fails before the file is sent: the write event is called for an
`http_stream` that was freed. -/
def failsEarly : List (ServerEvent Unit) :=
  fileRequested ++
    [.recv 5 (.datagram (clientDatagram [9] (-2) true)),
      .writeTick 0 0 ⟨[⟨3, 3⟩], ⟨[], true, 0⟩⟩ false]

theorem events_not_in_table_failsEarly : ∃ s,
    (serverMachine []).exec Server.init failsEarly = some s ∧
      ¬ ((serverMachine []).Throughout EventsInTable Server.init failsEarly ∧
        (serverMachine []).Meets DispatchedInTable Server.init failsEarly) := by
  have hexec : (serverMachine []).exec Server.init failsEarly = some _ := rfl
  refine ⟨_, hexec, fun ⟨_, hdispatched⟩ => ?_⟩
  exact absurd hdispatched (by decide)

end Gfhttpd.Http3
