import Gfhttpd.Http3.Connections
import Gfhttpd.Http3.Linked
import Mathlib.Data.List.Range

/-!
# The server on its hash table is the server

`Refines` relates the two: the table holds the connections of the list, the pointers of the loop
over the table are at the connections that are left, and what was freed is what is not in the list.

- `linkedStep_refines`: both take every step together
- `linked_refines`: and every run
- `all_released`: after `http3_cleanup`, every connection there has been was freed once
-/

namespace Gfhttpd.Http3

open HandleTable Http Conf Loop Modules Router Transition

variable {Code : Type} {H T : Type*}

/-! ## The relation -/

/-- The hash table holds the connections of the list, and all others were freed, each of them once. -/
structure Backed (Intact : (ℕ → Bytes) → Table ℕ H T → List ℕ → Prop) (s : LinkedServer H T)
    (t : Server) : Prop where
  objs : s.objs = t.objs
  dead : s.dead = t.dead
  intact : Intact s.cid s.links t.table
  ledger : (t.table ++ s.freed).Perm (List.range t.objs.length)

/-- The two are at the same place of `http3_event_cb`; the pointers are at the first one of those that
are left, and at the one behind it. -/
inductive AtPhase (table : List ℕ) : LinkedPhase → Phase → Prop
  | idle : AtPhase table .idle .idle
  | receiving : AtPhase table .receiving .receiving
  | polling {id : ℕ} (hid : id ∈ table) : AtPhase table (.polling id) (.polling id)
  | egress {pre left : List ℕ} (htable : table = pre ++ left) :
      AtPhase table (.egress left.head? left.tail.head?) (.egress left)

/-- The server on its hash table, and the server.  Of those that have ended nothing is said. -/
def Refines (Intact : (ℕ → Bytes) → Table ℕ H T → List ℕ → Prop) (s : LinkedServer H T)
    (t : Server) : Prop :=
  Backed Intact s t ∧ AtPhase t.table s.phase t.phase ∨ s.dead = true ∧ t.dead = true

section Refinement

variable {U : Ops ℕ Bytes H T} {next : Table ℕ H T → ℕ → Option ℕ} {garbage : ℕ → H}
  {Intact : (ℕ → Bytes) → Table ℕ H T → List ℕ → Prop} {s : LinkedServer H T} {t : Server}

namespace Backed

theorem conn (h : Backed Intact s t) (id : ℕ) : s.conn id = t.conn id := by
  rw [LinkedServer.conn, h.objs]
  rfl

/-- Only the place in `http3_event_cb` is another. -/
theorem move (h : Backed Intact s t) (p : LinkedPhase) (q : Phase) :
    Backed Intact { s with phase := p } { t with phase := q } :=
  ⟨h.objs, h.dead, h.intact, h.ledger⟩

/-- A connection of the list is there, and was not freed. -/
theorem of_mem (h : Backed Intact s t) {id : ℕ} (hid : id ∈ t.table) :
    id < t.objs.length ∧ id ∉ s.freed := by
  refine ⟨List.mem_range.mp (h.ledger.subset (List.mem_append_left _ hid)), fun hfreed => ?_⟩
  have hnodup := h.ledger.nodup_iff.mpr List.nodup_range
  exact (List.nodup_append.mp hnodup).2.2 id hid id hfreed rfl

theorem mem_freed (h : Backed Intact s t) {id : ℕ} (hlt : id < t.objs.length) :
    id ∈ s.freed ↔ id ∉ t.table := by
  refine ⟨fun hfreed hid => (h.of_mem hid).2 hfreed, fun hid => ?_⟩
  have hmem := h.ledger.symm.subset (List.mem_range.mpr hlt)
  exact (List.mem_append.mp hmem).resolve_left hid

theorem nodup (h : Backed Intact s t) : t.table.Nodup :=
  (List.nodup_append.mp (h.ledger.nodup_iff.mpr List.nodup_range)).1

/-- The key of a connection of the list is its id. -/
theorem cid_of_conn (h : Backed Intact s t) {id : ℕ} {c : Conn} (hconn : t.conn id = some c) :
    s.cid id = c.hs.cid := by
  rw [LinkedServer.cid, h.conn, hconn]
  rfl

theorem conn_of_mem (h : Backed Intact s t) {id : ℕ} (hid : id ∈ t.table) :
    ∃ c, t.conn id = some c := by
  have hlt := (h.of_mem hid).1
  exact ⟨t.objs[id].conn, by rw [Server.conn, List.getElem?_eq_getElem hlt]; rfl⟩

/-- Both find the same connections. -/
theorem getConnection (hU : Correct U Intact) (h : Backed Intact s t) (cid : Bytes) :
    s.getConnection U cid = Http3.getConnection t cid := by
  rw [LinkedServer.getConnection, hU.find h.intact, Http3.getConnection, ← List.head?_filter,
    ← List.head?_filter]
  congr 1
  apply List.filter_congr
  intro id hid
  obtain ⟨c, hconn⟩ := h.conn_of_mem hid
  rw [h.cid_of_conn hconn, hconn, Option.any_some, Bool.beq_eq_decide_eq]

/-! ## What the parts of a step keep -/

/-- A connection is stored again, under its id. -/
theorem setConn (hU : Correct U Intact) (h : Backed Intact s t) {id : ℕ} {c : Conn} (c' : Conn)
    (hconn : t.conn id = some c) (hcid : c'.hs.cid = c.hs.cid) :
    Backed Intact (s.setConn id c') (t.setConn id c') := by
  have hobjs : (s.setConn id c').objs = (t.setConn id c').objs := by
    rw [LinkedServer.setConn, Server.setConn, h.objs]
  have hkeys : ∀ id' ∈ t.table, (s.setConn id c').cid id' = s.cid id' := by
    intro id' _
    have hconn' : (s.setConn id c').conn id' = (t.setConn id c').conn id' := by
      rw [LinkedServer.conn, hobjs]
      rfl
    rw [LinkedServer.cid, LinkedServer.cid, hconn', h.conn, conn_setConn]
    split
    · next heq =>
        subst heq
        simp [hconn, hcid]
    · rfl
  refine ⟨hobjs, ?_, ?_, ?_⟩
  · show (s.dead || c'.dead) = (t.dead || c'.dead)
    rw [h.dead]
  · exact hU.frame h.intact fun id' hid' => ⟨hkeys id' hid', rfl⟩
  · show (t.table ++ s.freed).Perm (List.range (t.objs.modify id _).length)
    rw [List.length_modify]
    exact h.ledger

theorem setHttp3 (hU : Correct U Intact) (h : Backed Intact s t) (id : ℕ) :
    Backed Intact (s.setHttp3 id) (t.setHttp3 id) := by
  have hobjs : (s.setHttp3 id).objs = (t.setHttp3 id).objs := by
    rw [LinkedServer.setHttp3, Server.setHttp3, h.objs]
  refine ⟨hobjs, h.dead, hU.frame h.intact fun id' _ => ⟨?_, rfl⟩, ?_⟩
  · have hconn' : (s.setHttp3 id).conn id' = (t.setHttp3 id).conn id' := by
      rw [LinkedServer.conn, hobjs]
      rfl
    rw [LinkedServer.cid, LinkedServer.cid, hconn', h.conn, conn_setHttp3]
  · show (t.table ++ s.freed).Perm (List.range (t.objs.modify id _).length)
    rw [List.length_modify]
    exact h.ledger

/-- A connection of the list is over. -/
theorem drop (hU : Correct U Intact) (h : Backed Intact s t) {id : ℕ} (hid : id ∈ t.table) :
    Backed Intact (s.dropConnection U garbage id) (dropConnection t id) := by
  have herase : t.table.filter (· ≠ id) = t.table.erase id := by
    rw [h.nodup.erase_eq_filter]
    exact List.filter_congr fun id' _ => by rw [bne, beq_eq_decide, decide_not]
  have hobjs : (s.dropConnection U garbage id).objs = (dropConnection t id).objs := by
    show s.objs.modify id _ = t.objs.modify id _
    rw [h.objs]
  refine ⟨hobjs, h.dead, ?_, ?_⟩
  · -- the table is left by the connection first, and only then its handle is lost
    have hdel : Intact s.cid (U.del s.links id) (t.table.filter (· ≠ id)) := by
      rw [herase]
      exact hU.del h.intact hid
    refine hU.frame hdel fun id' hid' => ⟨?_, ?_⟩
    · have hconn' : (s.dropConnection U garbage id).conn id' = (dropConnection t id).conn id' := by
        rw [LinkedServer.conn, hobjs]
        rfl
      have hne : ¬ id = id' := fun heq => of_decide_eq_true (List.mem_filter.mp hid').2 heq.symm
      rw [LinkedServer.cid, LinkedServer.cid, hconn', h.conn, conn_drop, if_neg hne]
    · have hne : id' ≠ id := of_decide_eq_true (List.mem_filter.mp hid').2
      exact Function.update_of_ne hne _ _
  · show (t.table.filter (· ≠ id) ++ (s.freed ++ [id])).Perm (List.range (t.objs.modify id _).length)
    rw [List.length_modify, herase]
    refine List.Perm.trans ?_ h.ledger
    rw [← List.append_assoc]
    have hcomm : (t.table.erase id ++ s.freed ++ [id]).Perm ([id] ++ (t.table.erase id ++ s.freed)) :=
      List.perm_append_comm
    exact hcomm.trans ((List.perm_cons_erase hid).append_right s.freed).symm

/-- A new connection, with an id of its own. -/
theorem add (hU : Correct U Intact) (h : Backed Intact s t) {c : Conn}
    (hnew : Http3.getConnection t c.hs.cid = none) :
    Backed Intact (s.addConnection U c) (Http3.addConnection t c) := by
  have hget : s.getConnection U c.hs.cid = none := (h.getConnection hU _).trans hnew
  let s' : LinkedServer H T := { s with objs := s.objs ++ [⟨c, false⟩] }
  have hadd : s.addConnection U c = { s' with links := U.add s'.cid s'.links s.objs.length } := by
    unfold LinkedServer.addConnection
    rw [hget]
  -- the connections that are there keep their keys
  have hkeys : ∀ id ∈ t.table, s'.cid id = s.cid id := by
    intro id hid
    have hlt := (h.of_mem hid).1
    rw [← h.objs] at hlt
    simp [s', LinkedServer.cid, LinkedServer.conn, List.getElem?_append_left hlt]
  have hown : s'.cid s.objs.length = c.hs.cid := by
    simp [s', LinkedServer.cid, LinkedServer.conn]
  have hnot : s.objs.length ∉ t.table := by
    intro hmem
    have hlt := (h.of_mem hmem).1
    rw [h.objs] at hlt
    exact Nat.lt_irrefl _ hlt
  have hfresh : ∀ id ∈ t.table, s'.cid id ≠ s'.cid s.objs.length := by
    intro id hid heq
    obtain ⟨c₀, hconn⟩ := h.conn_of_mem hid
    rw [hkeys id hid, h.cid_of_conn hconn, hown] at heq
    have hno := List.find?_eq_none.mp hnew id hid
    rw [hconn, Option.any_some, heq, beq_self_eq_true] at hno
    exact hno rfl
  rw [hadd, addConnection_new hnew]
  refine ⟨?_, h.dead, ?_, ?_⟩
  · show s.objs ++ _ = t.objs ++ _
    rw [h.objs]
  · show Intact s'.cid (U.add s'.cid s.links s.objs.length) (t.table ++ [t.objs.length])
    rw [← h.objs]
    exact hU.add (hU.frame h.intact fun id hid => ⟨hkeys id hid, rfl⟩) hnot hfresh
  · show (t.table ++ [t.objs.length] ++ s.freed).Perm (List.range (t.objs ++ [_]).length)
    rw [List.length_append, List.length_singleton, List.range_succ, List.append_assoc]
    refine (List.perm_append_comm_assoc _ _ _).trans ?_
    exact (List.perm_append_comm.trans (List.Perm.append_right _ h.ledger))

end Backed

/-! ## One step -/

/-- The loop over the table gets to the first one of those that are left. -/
theorem Backed.walkTo (hnext : Ordered next Intact) (h : Backed Intact s t) {pre left : List ℕ}
    (htable : t.table = pre ++ left) :
    Refines Intact (s.walkTo next left.head?) { t with phase := .egress left } := by
  have halive : ¬ (left.head?.any fun id => decide (id ∈ s.freed)) = true := by
    cases left with
    | nil => exact Bool.false_ne_true
    | cons id left =>
        have hid : id ∈ t.table := htable ▸ List.mem_append_right _ (List.mem_cons_self ..)
        simpa using (h.of_mem hid).2
  have htmp : left.head?.bind (next s.links) = left.tail.head? := by
    cases left with
    | nil => rfl
    | cons id left =>
        have hintact := h.intact
        rw [htable] at hintact
        exact hnext.next hintact
  unfold LinkedServer.walkTo
  rw [if_neg halive, htmp]
  exact Or.inl ⟨h.move _ _, .egress htable⟩

/-- The loop over the table starts. -/
theorem Backed.startWalk (hnext : Ordered next Intact) (h : Backed Intact s t) :
    Refines Intact (s.walkTo next s.links.head) { t with phase := .egress t.table } := by
  rw [hnext.head h.intact]
  exact h.walkTo hnext (List.nil_append _).symm

theorem Backed.processPacket (hU : Correct U Intact) (hnext : Ordered next Intact)
    (h : Backed Intact s t) (hs : s.phase = .receiving) (ht : t.phase = .receiving) {id : ℕ}
    (hid : id ∈ t.table) (d : Datagram) :
    Refines Intact (s.processPacket U next garbage id d) (Http3.processPacket t id d) := by
  obtain ⟨hlt, halive⟩ := h.of_mem hid
  have hobj : t.objs[id]? = some t.objs[id] := List.getElem?_eq_getElem hlt
  have hconn : t.conn id = some t.objs[id].conn := by
    rw [Server.conn, hobj]
    rfl
  have hstored := h.setConn hU (t.objs[id].conn.closedBy d.closed) hconn rfl
  unfold LinkedServer.processPacket Http3.processPacket
  rw [if_neg halive, h.objs, hobj]
  dsimp only
  -- the branches of the source, the same ones on both sides
  split
  · exact hstored.startWalk hnext
  · split
    · exact Or.inl ⟨(hstored.drop hU hid).move _ _, .idle⟩
    · split
      · split
        · exact Or.inl ⟨hstored.move _ _, .polling hid⟩
        · split
          · exact Or.inl ⟨(hstored.setHttp3 hU id).move _ _, .polling hid⟩
          · exact Or.inl ⟨hstored.move _ _, .idle⟩
      · refine Or.inl ⟨hstored, ?_⟩
        rw [show (s.setConn id _).phase = s.phase from rfl, hs,
          show (t.setConn id _).phase = t.phase from rfl, ht]
        exact .receiving

/-- A connection is created for a datagram, and handed it. -/
theorem Backed.accept (hU : Correct U Intact) (hnext : Ordered next Intact) (h : Backed Intact s t)
    (hs : s.phase = .receiving) (ht : t.phase = .receiving) (sock : ℤ) (cid : Bytes) (d : Datagram) :
    Refines Intact
      (if (s.addConnection U (Conn.create sock cid)).dead then s.addConnection U (Conn.create sock cid)
      else ((s.addConnection U (Conn.create sock cid)).setConn s.objs.length
        ((Conn.create sock cid).setPeer d.peerAddr)).processPacket U next garbage s.objs.length d)
      (if (Http3.addConnection t (Conn.create sock cid)).dead then
        Http3.addConnection t (Conn.create sock cid)
      else Http3.processPacket ((Http3.addConnection t (Conn.create sock cid)).setConn t.objs.length
        ((Conn.create sock cid).setPeer d.peerAddr)) t.objs.length d) := by
  cases hnew : Http3.getConnection t (Conn.create sock cid).hs.cid with
  | some old =>
      -- an entry is overwritten: both have ended
      have hdead := (addConnection_dead hnew).1
      have hdead' : (s.addConnection U (Conn.create sock cid)).dead = true := by
        unfold LinkedServer.addConnection
        rw [h.getConnection hU, hnew]
      rw [if_pos hdead, if_pos hdead']
      exact Or.inr ⟨hdead', hdead⟩
  | none =>
      have hadded := h.add hU hnew
      rw [hadded.dead, h.objs]
      split
      · next hdead => exact Or.inr ⟨hadded.dead.trans hdead, hdead⟩
      · next hlives =>
          have hphase : (s.addConnection U (Conn.create sock cid)).phase = .receiving := by
            rw [← hs]
            unfold LinkedServer.addConnection
            rw [h.getConnection hU, hnew]
          have hmem : t.objs.length ∈ (Http3.addConnection t (Conn.create sock cid)).table := by
            rw [addConnection_new hnew]
            exact List.mem_append_right _ (List.mem_singleton.mpr rfl)
          have hstored := hadded.setConn hU ((Conn.create sock cid).setPeer d.peerAddr)
            (conn_added hlives) rfl
          exact hstored.processPacket hU hnext hphase ((phase_addConnection t _).trans ht) hmem d

theorem Backed.recvDatagram (hU : Correct U Intact) (hnext : Ordered next Intact)
    (h : Backed Intact s t) (hs : s.phase = .receiving) (ht : t.phase = .receiving) (sock : ℤ)
    (d : Datagram) :
    Refines Intact (s.recvDatagram U next garbage sock d) (Http3.recvDatagram t sock d) := by
  have hret : Refines Intact s.ret t.ret := Or.inl ⟨h.move _ _, .idle⟩
  unfold LinkedServer.recvDatagram Http3.recvDatagram
  cases d.header with
  | none => exact hret
  | some hdr =>
      dsimp only
      rw [h.getConnection hU]
      cases hget : Http3.getConnection t hdr.dcid with
      | some id => exact h.processPacket hU hnext hs ht (getConnection_mem hget) d
      | none =>
          dsimp only
          by_cases hversion : (!d.versionSupported) = true
          · rw [if_pos hversion, if_pos hversion]
            exact hret
          · rw [if_neg hversion, if_neg hversion]
            by_cases htoken : hdr.token = []
            · rw [if_pos htoken, if_pos htoken]
              exact hret
            · rw [if_neg htoken, if_neg htoken]
              cases validateToken hdr.token d.peerAddr QUICHE_MAX_CONN_ID_LEN with
              | none => exact hret
              | some odcid =>
                  cases d.newCid with
                  | none => exact hret
                  | some cid => exact h.accept hU hnext hs ht sock cid d

theorem Backed.pollEvent (hU : Correct U Intact) (h : Backed Intact s t) {id : ℕ}
    (hs : s.phase = .polling id) (ht : t.phase = .polling id) (hid : id ∈ t.table)
    (routes : List (Route Code)) (p : Poll Code) :
    Refines Intact (s.pollEvent routes id p) (Http3.pollEvent routes t id p) := by
  cases p with
  | none => exact Or.inl ⟨h.move _ _, .receiving⟩
  | other =>
      refine Or.inl ⟨h, ?_⟩
      show AtPhase t.table s.phase t.phase
      rw [hs, ht]
      exact .polling hid
  | headers streamId block io =>
      obtain ⟨c, hconn⟩ := h.conn_of_mem hid
      have hrouted := Continues.rootRouter routes io c streamId block
        (prepareRequest block c.hs).evbase
        (c.world.emit (.rootRouter streamId block (prepareRequest block c.hs).request.url))
      have hstored := h.setConn hU _ hconn hrouted.cid
      unfold LinkedServer.pollEvent Http3.pollEvent
      dsimp only
      rw [if_neg (h.of_mem hid).2, h.conn, hconn]
      dsimp only
      split
      · exact Or.inl ⟨hstored.move _ _, .idle⟩
      · refine Or.inl ⟨hstored, ?_⟩
        show AtPhase t.table s.phase t.phase
        rw [hs, ht]
        exact .polling hid

/-- A connection is stored again, and dropped if it is closed. -/
theorem Backed.storeOrDrop (hU : Correct U Intact) (garbage : ℕ → H) (h : Backed Intact s t) {id : ℕ}
    {c c' : Conn} (hid : id ∈ t.table) (hconn : t.conn id = some c) (hcid : c'.hs.cid = c.hs.cid) :
    Backed Intact (if c'.closed then (s.setConn id c').dropConnection U garbage id else s.setConn id c')
      (if c'.closed then Http3.dropConnection (t.setConn id c') id else t.setConn id c') := by
  have hstored := h.setConn hU c' hconn hcid
  split
  · exact hstored.drop hU hid
  · exact hstored

theorem table_drop {t : Server} (hnodup : t.table.Nodup) {pre left : List ℕ} {id : ℕ}
    (htable : t.table = pre ++ id :: left) : (dropConnection t id).table = pre ++ left := by
  rw [htable] at hnodup
  obtain ⟨-, hback, hdisjoint⟩ := List.nodup_append.mp hnodup
  have hpre : id ∉ pre := fun hmem => hdisjoint id hmem id (List.mem_cons_self ..) rfl
  have hkeep : ∀ l : List ℕ, id ∉ l → l.filter (· ≠ id) = l := fun l hl =>
    List.filter_eq_self.mpr fun id' hmem => decide_eq_true fun heq => hl (heq ▸ hmem)
  show t.table.filter (· ≠ id) = pre ++ left
  rw [htable, List.filter_append, List.filter_cons_of_neg (by simp), hkeep pre hpre,
    hkeep left (List.nodup_cons.mp hback).1]

theorem Backed.egress (hU : Correct U Intact) (hnext : Ordered next Intact) (h : Backed Intact s t)
    {pre left : List ℕ} {id : ℕ} (htable : t.table = pre ++ id :: left) (io : FlushIO)
    (closed : Bool) :
    Refines Intact (s.egress U next garbage id left.head? io closed)
      (Http3.egress t id left io closed) := by
  have hid : id ∈ t.table := htable ▸ List.mem_append_right _ (List.mem_cons_self ..)
  obtain ⟨c, hconn⟩ := h.conn_of_mem hid
  have hflushed := (Continues.flushEgress c io).trans (.closedBy _ closed)
  have hkept := h.storeOrDrop hU garbage hid hconn hflushed.cid
  unfold LinkedServer.egress Http3.egress
  rw [if_neg (h.of_mem hid).2, h.conn, hconn]
  dsimp only
  -- the connection may have left the table, those behind it have not
  split
  · next hclosed =>
      rw [if_pos hclosed, if_pos hclosed] at hkept
      exact hkept.walkTo hnext (table_drop (t := t.setConn id _) h.nodup htable)
  · next hopen =>
      rw [if_neg hopen, if_neg hopen] at hkept
      have hleft : t.table = (pre ++ [id]) ++ left := by
        rw [htable, List.append_assoc]
        rfl
      exact hkept.walkTo hnext hleft

/-- The callback of an event is called for the same connections, and not for those that were freed. -/
theorem Backed.dispatch (h : Backed Intact s t) (hphase : AtPhase t.table s.phase t.phase) {id : ℕ}
    {pending : Conn → Bool} {callback : Conn → Option (LinkedServer H T)}
    {callback' : Conn → Option Server}
    (hcall : ∀ c, t.conn id = some c → id ∈ t.table → s.phase = .idle → t.phase = .idle →
      Option.Rel (Refines Intact) (callback c) (callback' c)) :
    Option.Rel (Refines Intact) (s.dispatch id pending callback) (Http3.dispatch t id pending callback') := by
  unfold LinkedServer.dispatch Http3.dispatch
  have hidle : s.phase = .idle ∧ t.phase = .idle ∨ s.phase ≠ .idle ∧ t.phase ≠ .idle := by
    generalize s.phase = p, t.phase = q at hphase
    cases hphase with
    | idle => exact Or.inl ⟨rfl, rfl⟩
    | receiving => exact Or.inr ⟨nofun, nofun⟩
    | polling hid => exact Or.inr ⟨nofun, nofun⟩
    | egress htable => exact Or.inr ⟨nofun, nofun⟩
  rcases hidle with ⟨hs, ht⟩ | ⟨hs, ht⟩
  · rw [if_neg (not_not.mpr hs), if_neg (not_not.mpr ht), h.conn]
    cases hconn : t.conn id with
    | none => exact .none
    | some c =>
        have hlt : id < t.objs.length := by
          obtain ⟨o, ho, -⟩ := Option.map_eq_some_iff.mp hconn
          exact (List.getElem?_eq_some_iff.mp ho).1
        dsimp only
        split
        · exact .none
        · by_cases hid : id ∈ t.table
          · rw [if_pos hid, if_neg (h.of_mem hid).2]
            exact hcall c hconn hid hs ht
          · -- an event of a connection that was freed
            rw [if_neg hid, if_pos ((h.mem_freed hlt).mpr hid)]
            exact .some (Or.inr ⟨rfl, rfl⟩)
  · rw [if_pos hs, if_pos ht]
    exact .none

/-- A step of two that are alive, at the same place. -/
theorem Backed.step (hU : Correct U Intact) (hnext : Ordered next Intact)
    (routes : List (Route Code)) (h : Backed Intact s t) (hphase : AtPhase t.table s.phase t.phase)
    (hlives : t.dead = false) (e : ServerEvent Code) :
    Option.Rel (Refines Intact) (linkedStep U next garbage routes s e) (serverStep routes t e) := by
  -- the guards of the steps look at the phases, so these are taken apart first
  obtain ⟨objs, links, freed, p, dead⟩ := s
  obtain ⟨objs', table, q, dead'⟩ := t
  obtain rfl : dead = dead' := h.dead
  obtain rfl : dead = false := hlives
  cases hphase with
  | idle =>
      cases e with
      | wake => exact .some (Or.inl ⟨h.move _ _, .receiving⟩)
      | timeout id io closed =>
          refine h.dispatch .idle fun c hconn hid _ _ => .some (Or.inl ⟨?_, ?_⟩)
          · have hflushed := (Continues.flushEgress { c with timeoutPending := false } io).trans
              (.closedBy _ closed)
            exact h.storeOrDrop hU garbage hid hconn hflushed.cid
          · unfold LinkedServer.timeoutCb timeoutCb
            dsimp only
            split <;> exact .idle
      | writeTick id i io closed =>
          refine h.dispatch .idle fun c hconn hid _ _ => ?_
          cases hwrite : futureWriteCb c i io with
          | none => exact .none
          | some c' =>
              have hwritten := (Continues.futureWriteCb hwrite).trans (.closedBy _ closed)
              exact .some (Or.inl ⟨h.setConn hU _ hconn hwritten.cid, .idle⟩)
      | moduleTick id ev io =>
          refine h.dispatch .idle fun c hconn hid _ _ => ?_
          exact .some (Or.inl ⟨h.setConn hU _ hconn (Continues.moduleTick c ev io).cid, .idle⟩)
      | recv | poll | egress => exact .none
  | receiving =>
      cases e with
      | recv sock r =>
          cases r with
          | wouldBlock => exact .some (h.startWalk hnext)
          | failed => exact .some (Or.inl ⟨h.move _ _, .idle⟩)
          | datagram d => exact .some (h.recvDatagram hU hnext rfl rfl sock d)
      | wake | poll | egress | timeout | writeTick | moduleTick => exact .none
  | polling hid =>
      cases e with
      | poll p => exact .some (h.pollEvent hU rfl rfl hid routes p)
      | wake | recv | egress | timeout | writeTick | moduleTick => exact .none
  | @egress pre left htable =>
      cases e with
      | egress io closed =>
          cases left with
          | nil => exact .some (Or.inl ⟨h.move _ _, .idle⟩)
          | cons id left => exact .some (h.egress hU hnext htable io closed)
      | wake | recv | poll | timeout | writeTick | moduleTick => exact .none

/-- **Both take every step together.** -/
theorem linkedStep_refines (hU : Correct U Intact) (hnext : Ordered next Intact)
    (routes : List (Route Code)) (s : LinkedServer H T) (t : Server) (e : ServerEvent Code)
    (h : Refines Intact s t) :
    Option.Rel (Refines Intact) (linkedStep U next garbage routes s e) (serverStep routes t e) := by
  rcases h with ⟨h, hphase⟩ | ⟨hs, ht⟩
  · cases hdead : t.dead with
    | false => exact h.step hU hnext routes hphase hdead e
    | true =>
        have hdead' := h.dead.trans hdead
        cases e <;> simp only [linkedStep, serverStep, hdead, hdead', Bool.true_or, if_true] <;>
          exact .none
  · -- nothing happens to a process that has ended
    cases e <;> simp only [linkedStep, serverStep, hs, ht, Bool.true_or, if_true] <;> exact .none

/-! ## Runs -/

theorem Refines.init (hU : Correct U Intact) (handle : ℕ → H) :
    Refines Intact (LinkedServer.init U handle) Server.init :=
  Or.inl ⟨⟨rfl, rfl, hU.empty _ _, List.Perm.nil⟩, .idle⟩

/-- Both take every run together. -/
theorem Refines.run (hU : Correct U Intact) (hnext : Ordered next Intact)
    (routes : List (Route Code)) (garbage : ℕ → H) {s : LinkedServer H T} {t : Server}
    (h : Refines Intact s t) (es : List (ServerEvent Code)) :
    Option.Rel (Refines Intact) ((linkedMachine U next garbage routes).exec s es)
      ((serverMachine routes).exec t es) :=
  Machine.exec_rel (linkedStep_refines hU hnext routes) h es

/-- **The server on its hash table takes the runs of the server, and no other ones; whatever is written
to memory that was freed, it finds the same connections and goes over the same ones.** -/
theorem linked_refines (hU : Correct U Intact) (hnext : Ordered next Intact)
    (routes : List (Route Code)) (garbage handle : ℕ → H) (es : List (ServerEvent Code)) :
    Option.Rel (Refines Intact)
      ((linkedMachine U next garbage routes).exec (LinkedServer.init U handle) es)
      ((serverMachine routes).exec Server.init es) :=
  Refines.run hU hnext routes garbage (.init hU handle) es

/-- `HASH_BER` for the id of a connection. -/
def hashCid (cid : Bytes) : ℕ :=
  cid.foldl (fun hashv b => hashv * 33 + b.toNat) 0

/-- The table with chains, for these ids. -/
abbrev cidTable : Ops ℕ Bytes (Handle ℕ) (Buckets ℕ) := chained hashCid LOCAL_CONN_ID_LEN

/-- Two clients connect.  The first connection is closed, and freed in the loop over the table. -/
def twoClients : List (ServerEvent Unit) :=
  [.wake, .recv 5 (.datagram (clientDatagram [3] 1200 false)),
    .recv 5 (.datagram { clientDatagram [4] 1200 false with newCid := some [8] }),
    .recv 5 .wouldBlock, .egress ⟨[], true, 0⟩ true, .egress ⟨[], true, 0⟩ false,
    .egress ⟨[], true, 0⟩ false]

/-- Their connections on the table with chains. -/
theorem linked_refines_twoClients :
    Option.Rel (Refines (HandleTable.Intact hashCid LOCAL_CONN_ID_LEN))
      ((linkedMachine cidTable chainedNext (fun _ => Handle.zero) []).exec
        (LinkedServer.init cidTable fun _ => Handle.zero) twoClients)
      ((serverMachine []).exec Server.init twoClients) :=
  linked_refines (chained_correct _ _) (chained_ordered _ _) [] _ _ twoClients

/-! ## The end of the process -/

/-- The hash table holds these connections. -/
def Linked (Intact : (ℕ → Bytes) → Table ℕ H T → List ℕ → Prop) (s : LinkedServer H T)
    (table : List ℕ) : Prop :=
  ∃ t : Server, Backed Intact s t ∧ t.table = table

/-- `http3_cleanup` deletes and frees the current connection. -/
theorem cleanup_stays (hU : Correct U Intact) (hnext : Ordered next Intact) (garbage : ℕ → H) :
    Stays (Linked Intact) (fun s => s.links.head) (fun s => next s.links)
      (fun s id => s.dropConnection U garbage id) (fun _ _ => false) where
  head := by
    rintro s l ⟨t, h, rfl⟩
    exact hnext.head h.intact
  next := by
    rintro s l₁ a l₂ ⟨t, h, htable⟩
    have hintact := h.intact
    rw [htable] at hintact
    exact hnext.next hintact
  body := by
    rintro s l₁ a l₂ ⟨t, h, htable⟩
    have hmem : a ∈ t.table := htable ▸ List.mem_append_right _ (List.mem_cons_self ..)
    refine ⟨dropConnection t a, h.drop hU hmem, ?_⟩
    rw [table_drop h.nodup htable, if_neg Bool.false_ne_true, List.append_nil]

theorem length_cleanup (U : Ops ℕ Bytes H T) (garbage : ℕ → H) (s : LinkedServer H T)
    (l : List ℕ) : (l.foldl (fun s id => s.dropConnection U garbage id) s).objs.length =
      s.objs.length := by
  induction l generalizing s with
  | nil => rfl
  | cons id l ih => exact (ih _).trans (List.length_modify ..)

/-- **When `http3_cleanup` is called in a server that is alive, its loop ends; it gets to connections
only that were not freed; and after it every connection that there has been was freed, each of them
once.** -/
theorem all_released (hU : Correct U Intact) (hnext : Ordered next Intact)
    (routes : List (Route Code)) {garbage handle : ℕ → H} {es : List (ServerEvent Code)}
    {s : LinkedServer H T}
    (hexec : (linkedMachine U next garbage routes).exec (LinkedServer.init U handle) es = some s)
    (hlives : s.dead = false) :
    ∃ begins u, (http3Cleanup U next garbage).Ends
        (.start (fun s => s.links.head) (fun s => next s.links) s) begins (some ⟨none, none, u⟩) ∧
      (∀ c ∈ begins, ∀ id, c.el = some id ∨ c.tmp = some id → id ∉ c.state.freed) ∧
      u.links.head = none ∧ u.freed.Perm (List.range s.objs.length) := by
  have hrel := Refines.run hU hnext routes garbage (.init hU handle) es
  rw [hexec] at hrel
  obtain ⟨t, h⟩ : ∃ t : Server, Backed Intact s t := by
    generalize (serverMachine routes).exec Server.init es = r at hrel
    cases hrel with
    | some h =>
        rcases h with ⟨h, -⟩ | ⟨hdead, -⟩
        · exact ⟨_, h⟩
        · rw [hlives] at hdead
          cases hdead
  have hstays := cleanup_stays hU hnext garbage
  obtain ⟨begins, hends, -, hat, hlinked⟩ := hstays.sweep_ends ⟨t, h, rfl⟩
  rw [remaining_eq_nil fun _ _ => rfl] at hlinked
  refine ⟨begins, _, hends, fun c hc id hid => ?_, hstays.head hlinked, ?_⟩
  · -- the two pointers of the loop are at connections that are still in the table
    obtain ⟨l₁, a, l₂, ⟨t', h', htable⟩, hel, htmp⟩ := hat c hc
    refine (h'.of_mem ?_).2
    rw [htable]
    rcases hid with hid | hid
    · obtain rfl : a = id := Option.some.inj (hel.symm.trans hid)
      exact List.mem_append_right _ (List.mem_cons_self ..)
    · rw [htmp] at hid
      exact List.mem_append_right _ (List.mem_cons_of_mem _ (List.mem_of_head? hid))
  · -- the table is empty, so the ledger has only what was freed
    obtain ⟨t', h', hnil⟩ := hlinked
    have hledger := h'.ledger
    rwa [hnil, List.nil_append, ← h'.objs, length_cleanup] at hledger

/-- One connection is freed in the loop over the table, the other one by `http3_cleanup`. -/
theorem all_released_twoClients : ∃ s,
    (linkedMachine cidTable chainedNext (fun _ => Handle.zero) []).exec
      (LinkedServer.init cidTable fun _ => Handle.zero) twoClients = some s ∧ s.freed = [0] ∧
    ∃ begins u, (http3Cleanup cidTable chainedNext fun _ => Handle.zero).Ends
        (.start (fun s => s.links.head) (fun s => chainedNext s.links) s) begins
        (some ⟨none, none, u⟩) ∧
      u.freed.Perm [0, 1] := by
  have hexec : (linkedMachine cidTable chainedNext (fun _ => Handle.zero) []).exec
      (LinkedServer.init cidTable fun _ => Handle.zero) twoClients = some _ := rfl
  obtain ⟨begins, u, hends, -, -, hfreed⟩ :=
    all_released (chained_correct _ _) (chained_ordered _ _) [] hexec rfl
  exact ⟨_, hexec, rfl, begins, u, hends, hfreed⟩

end Refinement

end Gfhttpd.Http3
