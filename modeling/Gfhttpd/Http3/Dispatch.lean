import Gfhttpd.Http3.Frame
import Gfhttpd.Http3.Receiver

/-!
# Which connection a packet is handed to

`get_connection` reads `LOCAL_CONN_ID_LEN` bytes of the array `dcid`, whatever the length of the
connection id in it.  A connection is stored under a random id, while the copies of the packet it
was created for name the id the client was told in the retry.

- `datagrams_dispatched_iff`: a packet is handed to the connection it names, exactly if no packet
  with an id of another length finds a connection
- `one_connection_iff`: a handshake has one connection, exactly if every copy of its first packet
  finds the connection it created
-/

namespace Gfhttpd.Http3

open Http Conf Router Modules Transition

variable {Code : Type}

/-! ## Ids -/

/-- No two connections in the table have the same id. -/
def UniqueIds (s : Server) : Prop :=
  ∀ id ∈ s.table, ∀ id' ∈ s.table, ∀ c ∈ s.conn id, ∀ c' ∈ s.conn id',
    c.hs.cid = c'.hs.cid → id = id'

/-- `get_connection` finds the connection in the table that has the id. -/
theorem getConnection_eq_some_iff {s : Server} (h : UniqueIds s) {cid : Bytes} {id : ℕ} :
    getConnection s cid = some id ↔ id ∈ s.table ∧ ∃ c ∈ s.conn id, c.hs.cid = cid := by
  have hfound : ∀ {id}, getConnection s cid = some id →
      id ∈ s.table ∧ ∃ c ∈ s.conn id, c.hs.cid = cid := by
    intro id hget
    have hid := List.find?_some hget
    obtain ⟨c, hc, heq⟩ := (Option.any_eq_true ..).mp hid
    exact ⟨getConnection_mem hget, c, hc, eq_of_beq heq⟩
  constructor
  · exact hfound
  · rintro ⟨hmem, c, hc, hcid⟩
    cases hget : getConnection s cid with
    | none =>
        have hno := List.find?_eq_none.mp hget id hmem
        refine absurd ?_ hno
        rw [Option.mem_def.mp hc]
        exact beq_iff_eq.mpr hcid
    | some id' =>
        obtain ⟨hmem', c', hc', hcid'⟩ := hfound hget
        rw [h id hmem id' hmem' c hc c' hc' (hcid.trans hcid'.symm)]

/-- The connections in the table keep their ids. -/
def Server.KeepsIds : Server → Server → Prop :=
  Server.Goes fun c c' => c'.hs.cid = c.hs.cid

theorem Server.Continues.keepsIds {s s' : Server} (h : s.Continues s') : s.KeepsIds s' :=
  h.mono fun _ _ hc => hc.cid

theorem UniqueIds.keep {s s' : Server} (h : UniqueIds s) (hkeep : s.KeepsIds s') : UniqueIds s' := by
  intro id hid id' hid' d hd d' hd' heq
  obtain ⟨c, hc, hcid⟩ := hkeep.conn id hid d hd
  obtain ⟨c', hc', hcid'⟩ := hkeep.conn id' hid' d' hd'
  apply h id (hkeep.table id hid) id' (hkeep.table id' hid') c hc c' hc'
  rw [← hcid, ← hcid', heq]

/-! ## What a receiver keeps -/

/-- Every `http_stream` has its origin, and no two connections have one id. -/
structure Tracked (r : Receiver) : Prop where
  bound : r.server.Bounded
  origins : r.origins.length = r.server.objs.length
  unique : UniqueIds r.server

theorem Tracked.init : Tracked Receiver.init where
  bound := .init
  origins := rfl
  unique id h := by cases h

/-- Connections that keep their ids. -/
theorem Tracked.keep {r r' : Receiver} (h : Tracked r) (hkeep : r.server.KeepsIds r'.server)
    (horigins : r'.origins = r.origins) : Tracked r' where
  bound := h.bound.goes hkeep
  origins := by rw [horigins, h.origins, hkeep.length]
  unique := h.unique.keep hkeep

/-! ## A new connection -/

/-- The connections there were keep their ids, the one that is overwritten as well. -/
theorem cid_addConnection {s : Server} {c : Conn} {id : ℕ} (hlt : id < s.objs.length) {d : Conn}
    (hd : d ∈ (addConnection s c).conn id) : ∃ c₀ ∈ s.conn id, d.hs.cid = c₀.hs.cid := by
  rcases conn_addConnection hd with ⟨rfl, -⟩ | ⟨c₀, hc₀, rfl | ⟨hcid, rfl⟩⟩
  · exact absurd hlt (Nat.lt_irrefl _)
  · exact ⟨_, hc₀, rfl⟩
  · exact ⟨c₀, hc₀, hcid.symm⟩

theorem UniqueIds.add {s : Server} (h : UniqueIds s) (hbound : s.Bounded) (c : Conn) :
    UniqueIds (addConnection s c) := by
  -- no connection there was has the id of the new one
  have hfresh : ∀ id ∈ s.table, getConnection s c.hs.cid = none →
      ∀ d ∈ (addConnection s c).conn id, d.hs.cid ≠ c.hs.cid := by
    intro id hid hnone d hd heq
    obtain ⟨c₀, hc₀, hcid⟩ := cid_addConnection (hbound id hid) hd
    have hget := (getConnection_eq_some_iff h).mpr ⟨hid, c₀, hc₀, hcid.symm.trans heq⟩
    rw [hnone] at hget
    cases hget
  intro id hid id' hid' d hd d' hd' heq
  rcases table_addConnection hid with hold | ⟨rfl, hnone, hnew⟩
  · rcases table_addConnection hid' with hold' | ⟨rfl, hnone, hnew⟩
    · obtain ⟨c₀, hc₀, hcid⟩ := cid_addConnection (hbound id hold) hd
      obtain ⟨c₀', hc₀', hcid'⟩ := cid_addConnection (hbound id' hold') hd'
      apply h id hold id' hold' c₀ hc₀ c₀' hc₀'
      rw [← hcid, ← hcid', heq]
    · obtain rfl : c = d' := Option.some.inj (hnew.symm.trans hd')
      exact absurd heq (hfresh id hold hnone d hd)
  · rcases table_addConnection hid' with hold' | ⟨rfl, -, -⟩
    · obtain rfl : c = d := Option.some.inj (hnew.symm.trans hd)
      exact absurd heq.symm (hfresh id' hold' hnone d' hd')
    · rfl

theorem Tracked.add {r r' : Receiver} (h : Tracked r) {c : Conn} {origin : Handshake}
    (hkeep : (addConnection r.server c).KeepsIds r'.server)
    (horigins : r'.origins = r.origins ++ [origin]) : Tracked r' where
  bound := (h.bound.add c).goes hkeep
  origins := by
    rw [hkeep.length, length_addConnection, horigins, List.length_append, h.origins]
    rfl
  unique := (h.unique.add h.bound c).keep hkeep

/-- One event: the connections keep their ids, and a packet may create one. -/
theorem receiverStep_cases {routes : List (Route Code)} {r r' : Receiver} {e : ReceiverEvent Code}
    (hstep : receiverStep routes r e = some r') :
    r.server.KeepsIds r'.server ∧ r'.origins = r.origins ∨
      ∃ sock p cid, e = .packet sock p ∧ creates r.server (r.datagram p) = some cid ∧
        (addConnection r.server (Conn.create sock cid)).KeepsIds r'.server ∧
        r'.origins = r.origins ++ [p.handshake] := by
  -- only the beginning of an event changes the ids of the table
  obtain ⟨s₀, hbegins, hgoes⟩ := serverStep_continues (receiverStep_server hstep)
  cases e with
  | wake stack =>
      obtain ⟨s, -, rfl⟩ := Option.map_eq_some_iff.mp hstep
      cases hbegins with
      | same hnew => exact Or.inl ⟨hgoes.keepsIds, rfl⟩
  | packet sock p =>
      obtain ⟨s, -, rfl⟩ := Option.map_eq_some_iff.mp hstep
      cases hbegins with
      | same hnew =>
          have hcreates : creates r.server (r.datagram p) = none := hnew
          refine Or.inl ⟨hgoes.keepsIds, ?_⟩
          simp only [Receiver.received, hcreates]
      | added hcreates =>
          refine Or.inr ⟨sock, p, _, rfl, hcreates, hgoes.keepsIds, ?_⟩
          simp only [Receiver.received, hcreates]
  | server e =>
      simp only [receiverStep, Option.ite_none_right_eq_some] at hstep
      obtain ⟨hplain, hstep⟩ := hstep
      obtain ⟨s, -, rfl⟩ := Option.map_eq_some_iff.mp hstep
      refine Or.inl ⟨?_, rfl⟩
      change Begins r.server e s₀ at hbegins
      cases hbegins with
      | same hnew => exact hgoes.keepsIds
      | @expired id c hmem hconn io closed =>
          have hexpired : r.server.KeepsIds (r.server.setConn id { c with timeoutPending := false }) :=
            Server.Goes.setConn (R := fun c c' => c'.hs.cid = c.hs.cid) (fun _ => rfl) hconn rfl
          exact Server.Goes.trans (fun hab hbc => hbc.trans hab) hexpired hgoes.keepsIds
      | added hcreates => cases hplain

theorem Tracked.step {routes : List (Route Code)} {r r' : Receiver} {e : ReceiverEvent Code}
    (h : Tracked r) (hstep : receiverStep routes r e = some r') : Tracked r' := by
  rcases receiverStep_cases hstep with ⟨hkeep, horigins⟩ | ⟨sock, p, cid, -, -, hkeep, horigins⟩
  · exact h.keep hkeep horigins
  · exact h.add hkeep horigins

/-! ## Packets -/

/-- What `get_connection` reads for a packet. -/
def Receiver.lookedUp (r : Receiver) (p : Packet) : Bytes :=
  (r.dcid.write p.dcid).key

theorem handedTo_eq (r : Receiver) (p : Packet) :
    r.handedTo p = if p.parsed then getConnection r.server (r.lookedUp p) else none := by
  unfold Receiver.handedTo Receiver.datagram Packet.datagram
  cases p.parsed with
  | false => rfl
  | true => rfl

/-- `quiche_conn_recv` is called for the connection the packet is handed to. -/
theorem recvDatagram_handed {r : Receiver} {p : Packet} {id : ℕ} (sock : ℤ)
    (h : r.handedTo p = some id) :
    recvDatagram r.server sock (r.datagram p) = processPacket r.server id (r.datagram p) := by
  obtain ⟨header, hheader, hget⟩ := Option.bind_eq_some_iff.mp h
  exact recvDatagram_known sock hheader hget

theorem handedTo_eq_some_iff {r : Receiver} (h : Tracked r) {p : Packet} {id : ℕ} :
    r.handedTo p = some id ↔ p.parsed = true ∧ id ∈ r.server.table ∧
      ∃ c ∈ r.server.conn id, c.hs.cid = r.lookedUp p := by
  rw [handedTo_eq, Option.ite_none_right_eq_some]
  exact and_congr_right fun _ => getConnection_eq_some_iff h.unique

/-- An id of `LOCAL_CONN_ID_LEN` bytes is read whole. -/
theorem lookedUp_of_length {r : Receiver} {p : Packet} (h : p.dcid.val.length = LOCAL_CONN_ID_LEN) :
    r.lookedUp p = p.dcid.val :=
  List.take_left' h

/-! ## Datagrams are handed to the connection they name -/

/-- The packet names the connection. -/
def Addressed (r : Receiver) (p : Packet) (id : ℕ) : Prop :=
  p.parsed = true ∧ p.dcid.val.length = LOCAL_CONN_ID_LEN ∧ id ∈ r.server.table ∧
    ∃ c ∈ r.server.conn id, c.hs.cid = p.dcid.val

/-- A packet is handed to a connection exactly if it names it. -/
def HandedExactly (r : Receiver) : ReceiverEvent Code → Prop
  | .packet _ p => ∀ id, r.handedTo p = some id ↔ Addressed r p id
  | _ => True

/-- The condition on an event: no connection has the id that is read for a packet whose id has
another length. -/
def NoStaleHit (r : Receiver) : ReceiverEvent Code → Prop
  | .packet _ p => p.parsed = true → p.dcid.val.length ≠ LOCAL_CONN_ID_LEN →
      ∀ id ∈ r.server.table, ∀ c ∈ r.server.conn id, c.hs.cid ≠ r.lookedUp p
  | _ => True

instance (r : Receiver) (p : Packet) (id : ℕ) : Decidable (Addressed r p id) :=
  inferInstanceAs (Decidable (_ ∧ _ ∧ _ ∧ ∃ c ∈ r.server.conn id, c.hs.cid = p.dcid.val))

instance (r : Receiver) : (e : ReceiverEvent Code) → Decidable (NoStaleHit r e)
  | .packet _ p => inferInstanceAs (Decidable (p.parsed = true →
      p.dcid.val.length ≠ LOCAL_CONN_ID_LEN →
      ∀ id ∈ r.server.table, ∀ c ∈ r.server.conn id, c.hs.cid ≠ r.lookedUp p))
  | .wake _ | .server _ => .isTrue trivial

/-- Only the connections in the table can be named. -/
instance (r : Receiver) : (e : ReceiverEvent Code) → Decidable (HandedExactly r e)
  | .packet _ p =>
      decidable_of_iff ((∀ id ∈ r.handedTo p, Addressed r p id) ∧
          ∀ id ∈ r.server.table, Addressed r p id → r.handedTo p = some id)
        ⟨fun h id => ⟨h.1 id, fun hn => h.2 id hn.2.2.1 hn⟩,
          fun h => ⟨fun id => (h id).mp, fun id _ => (h id).mpr⟩⟩
  | .wake _ | .server _ => .isTrue trivial

/-- One packet. -/
theorem handedExactly_iff {r : Receiver} (h : Tracked r) (e : ReceiverEvent Code) :
    HandedExactly r e ↔ NoStaleHit r e := by
  cases e with
  | wake stack => exact Iff.rfl
  | server e => exact Iff.rfl
  | packet sock p =>
      simp only [HandedExactly, NoStaleHit, handedTo_eq_some_iff h]
      by_cases hlength : p.dcid.val.length = LOCAL_CONN_ID_LEN
      · -- the id is read whole
        refine iff_of_true (fun id => ?_) fun _ hne => absurd hlength hne
        rw [lookedUp_of_length hlength]
        exact and_congr_right fun _ => (and_iff_right hlength).symm
      · constructor
        · intro hexact hparsed _ id hid c hc hcid
          have hnames := (hexact id).mp ⟨hparsed, hid, c, hc, hcid⟩
          exact hlength hnames.2.1
        · intro hno id
          constructor
          · rintro ⟨hparsed, hid, c, hc, hcid⟩
            exact absurd hcid (hno hparsed hlength id hid c hc)
          · intro hnames
            exact absurd hnames.2.1 hlength

/-- **In every run a packet is handed to an existing connection exactly if its connection id has
`LOCAL_CONN_ID_LEN` bytes and is the id of that connection, exactly if no packet with an id of
another length arrives while a connection has the bytes that are read for it.** -/
theorem datagrams_dispatched_iff (routes : List (Route Code)) (es : List (ReceiverEvent Code)) :
    (receiverMachine routes).Meets HandedExactly Receiver.init es ↔
      (receiverMachine routes).Meets NoStaleHit Receiver.init es := by
  apply (receiverMachine routes).meets_congr (I := Tracked) _ _ Tracked.init
  · intro r e r' h hstep
    exact h.step hstep
  · intro r e h
    exact handedExactly_iff h e

/-- A packet of a client with the address `[7]`. -/
def clientPacket (dcid : Dcid) (newCid : ConnId) (recv : ℤ) : Packet where
  peerAddr := [7]
  parsed := true
  dcid := dcid
  token := mintToken dcid.val [7]
  versionSupported := true
  newCid := some newCid
  recv := recv
  closed := false
  established := false
  h3Created := true

/-- A connection id of `n` bytes. -/
def repeatedId (n : ℕ) (h : n ≤ QUICHE_MAX_CONN_ID_LEN) (b : UInt8) : Dcid :=
  ⟨List.replicate n b, by simpa using h⟩

/-- A connection id of the server. -/
def repeatedConnId (b : UInt8) : ConnId :=
  ⟨List.replicate LOCAL_CONN_ID_LEN b, List.length_replicate⟩

theorem localConnIdLen_le : LOCAL_CONN_ID_LEN ≤ QUICHE_MAX_CONN_ID_LEN := by
  decide

/-- A connection gets a packet, and then someone sends an empty connection id: it fails in this
connection, which is torn down. -/
def emptyIdRun : List (ReceiverEvent Unit) :=
  [.wake Receiver.init.dcid,
    .packet 5 (clientPacket (repeatedId _ localConnIdLen_le 3) (repeatedConnId 9) 1200),
    .packet 5 (clientPacket (repeatedId _ localConnIdLen_le 9) (repeatedConnId 8) 80),
    .packet 5 { clientPacket (repeatedId 0 (Nat.zero_le _) 0) (repeatedConnId 8) (-2) with
      peerAddr := [6] }]

theorem datagrams_not_dispatched_empty : ∃ r,
    (receiverMachine ([] : List (Route Unit))).exec Receiver.init emptyIdRun = some r ∧
      r.server.table = [] ∧
      ¬ (receiverMachine ([] : List (Route Unit))).Meets HandedExactly Receiver.init emptyIdRun :=
  ⟨_, rfl, by decide +kernel, by decide +kernel⟩

/-! ## A handshake has one connection -/

/-- No two connections in the table were created for one handshake. -/
def OnePerHandshake (r : Receiver) : Prop :=
  ∀ id ∈ r.server.table, ∀ id' ∈ r.server.table, ∀ h,
    r.origins[id]? = some h → r.origins[id']? = some h → id = id'

/-- A copy of the packet a connection was created for is handed to that connection, and creates
none. -/
def CopiesHanded (r : Receiver) : ReceiverEvent Code → Prop
  | .packet _ p => p.parsed = true → ∀ id ∈ r.server.table, r.origins[id]? = some p.handshake →
      r.handedTo p = some id ∧ creates r.server (r.datagram p) = none
  | _ => True

/-- The condition on an event: a copy of the packet a connection was created for arrives only if
the random id of that connection is what is read for the copy. -/
def CopiesFound (r : Receiver) : ReceiverEvent Code → Prop
  | .packet _ p => p.parsed = true → ∀ id ∈ r.server.table, r.origins[id]? = some p.handshake →
      ∃ c ∈ r.server.conn id, c.hs.cid = r.lookedUp p
  | _ => True

instance (r : Receiver) : (e : ReceiverEvent Code) → Decidable (CopiesHanded r e)
  | .packet _ p => inferInstanceAs (Decidable (p.parsed = true → ∀ id ∈ r.server.table,
      r.origins[id]? = some p.handshake →
        r.handedTo p = some id ∧ creates r.server (r.datagram p) = none))
  | .wake _ | .server _ => .isTrue trivial

instance (r : Receiver) : (e : ReceiverEvent Code) → Decidable (CopiesFound r e)
  | .packet _ p => inferInstanceAs (Decidable (p.parsed = true → ∀ id ∈ r.server.table,
      r.origins[id]? = some p.handshake → ∃ c ∈ r.server.conn id, c.hs.cid = r.lookedUp p))
  | .wake _ | .server _ => .isTrue trivial

/-- A packet that is handed to a connection creates none. -/
theorem creates_handed {r : Receiver} {p : Packet} {id : ℕ} (h : r.handedTo p = some id) :
    creates r.server (r.datagram p) = none := by
  obtain ⟨header, hheader, hget⟩ := Option.bind_eq_some_iff.mp h
  exact creates_known hheader hget

/-- One copy. -/
theorem copiesHanded_iff {r : Receiver} (h : Tracked r) (e : ReceiverEvent Code) :
    CopiesHanded r e ↔ CopiesFound r e := by
  cases e with
  | wake stack => exact Iff.rfl
  | server e => exact Iff.rfl
  | packet sock p =>
      constructor
      · intro hhanded hparsed id hid horigin
        obtain ⟨hto, -⟩ := hhanded hparsed id hid horigin
        exact ((handedTo_eq_some_iff h).mp hto).2.2
      · intro hfound hparsed id hid horigin
        have hto := (handedTo_eq_some_iff h).mpr ⟨hparsed, hid, hfound hparsed id hid horigin⟩
        exact ⟨hto, creates_handed hto⟩

/-- A packet that creates a connection has a header. -/
theorem parsed_of_creates {r : Receiver} {p : Packet} {cid : Bytes}
    (h : creates r.server (r.datagram p) = some cid) : p.parsed = true := by
  cases hparsed : p.parsed with
  | true => rfl
  | false =>
      simp [creates, Receiver.datagram, Packet.datagram, hparsed] at h

/-- One event creates no second connection when every copy finds the first. -/
theorem OnePerHandshake.step {routes : List (Route Code)} {r r' : Receiver} {e : ReceiverEvent Code}
    (h : Tracked r) (hone : OnePerHandshake r) (hcopies : CopiesHanded r e)
    (hstep : receiverStep routes r e = some r') : OnePerHandshake r' := by
  rcases receiverStep_cases hstep with
    ⟨hkeep, horigins⟩ | ⟨sock, p, cid, rfl, hcreates, hkeep, horigins⟩
  · intro id hid id' hid' origin horigin horigin'
    rw [horigins] at horigin horigin'
    exact hone id (hkeep.table id hid) id' (hkeep.table id' hid') origin horigin horigin'
  · -- no connection in the table has the origin of the new one
    have hfresh : ∀ id ∈ r.server.table, r.origins[id]? ≠ some p.handshake := by
      intro id hid horigin
      have hnone := (hcopies (parsed_of_creates hcreates) id hid horigin).2
      rw [hcreates] at hnone
      cases hnone
    have hold : ∀ id ∈ r.server.table, r'.origins[id]? = r.origins[id]? := by
      intro id hid
      rw [horigins]
      exact List.getElem?_append_left (h.origins ▸ h.bound id hid)
    have hnew : r'.origins[r.server.objs.length]? = some p.handshake := by
      rw [horigins, ← h.origins]
      exact List.getElem?_concat_length
    -- two old connections, an old and the new one, or the new one twice
    intro id hid id' hid' origin horigin horigin'
    rcases table_addConnection (hkeep.table id hid) with hmem | ⟨rfl, -, -⟩
    · rw [hold id hmem] at horigin
      rcases table_addConnection (hkeep.table id' hid') with hmem' | ⟨rfl, -, -⟩
      · rw [hold id' hmem'] at horigin'
        exact hone id hmem id' hmem' origin horigin horigin'
      · rw [hnew] at horigin'
        exact absurd (horigin.trans horigin'.symm) (hfresh id hmem)
    · rcases table_addConnection (hkeep.table id' hid') with hmem' | ⟨rfl, -, -⟩
      · rw [hold id' hmem'] at horigin'
        rw [hnew] at horigin
        exact absurd (horigin'.trans horigin.symm) (hfresh id' hmem')
      · rfl

/-- **In every run the copies of the packet a connection was created for are handed to it, and no
second connection is created for its handshake, exactly if no copy arrives, while the connection is
in the table, for which another id is read than the random id of the connection.** -/
theorem one_connection_iff (routes : List (Route Code)) (es : List (ReceiverEvent Code)) :
    ((receiverMachine routes).Throughout OnePerHandshake Receiver.init es ∧
      (receiverMachine routes).Meets CopiesHanded Receiver.init es) ↔
      (receiverMachine routes).Meets CopiesFound Receiver.init es := by
  have hiff : (receiverMachine routes).Meets CopiesHanded Receiver.init es ↔
      (receiverMachine routes).Meets CopiesFound Receiver.init es := by
    apply (receiverMachine routes).meets_congr (I := Tracked) _ _ Tracked.init
    · intro r e r' h hstep
      exact h.step hstep
    · intro r e h
      exact copiesHanded_iff h e
  rw [← hiff]
  -- the second half of the property carries the first through the run
  apply and_iff_right_of_imp
  intro hmeets
  have hone : OnePerHandshake Receiver.init := by
    intro id hid
    cases hid
  have hall : (receiverMachine routes).Throughout (fun r => Tracked r ∧ OnePerHandshake r)
      Receiver.init es := by
    apply (receiverMachine routes).throughout_of_meets _ ⟨Tracked.init, hone⟩ hmeets
    intro r e r' h hcopies hstep
    exact ⟨h.1.step hstep, h.2.step h.1 hcopies hstep⟩
  exact Machine.Throughout.mono (receiverMachine routes) (fun r h => h.2) hall

/-- The network duplicates the first packet of a client. -/
def duplicatedRun : List (ReceiverEvent Unit) :=
  [.wake Receiver.init.dcid,
    .packet 5 (clientPacket (repeatedId _ localConnIdLen_le 3) (repeatedConnId 9) 1200),
    .packet 5 (clientPacket (repeatedId _ localConnIdLen_le 3) (repeatedConnId 8) 1200)]

/-- The copy creates a second connection. -/
theorem two_connections_duplicated : ∃ r,
    (receiverMachine ([] : List (Route Unit))).exec Receiver.init duplicatedRun = some r ∧
      r.server.table = [0, 1] ∧
      ¬ ((receiverMachine ([] : List (Route Unit))).Throughout OnePerHandshake Receiver.init
          duplicatedRun ∧
        (receiverMachine ([] : List (Route Unit))).Meets CopiesHanded Receiver.init
          duplicatedRun) := by
  refine ⟨_, rfl, by decide +kernel, fun ⟨_, hmeets⟩ => ?_⟩
  exact absurd hmeets (by decide +kernel)

end Gfhttpd.Http3
