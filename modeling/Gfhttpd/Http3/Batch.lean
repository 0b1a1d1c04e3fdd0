import Gfhttpd.Http3.Frame

/-!
# One call of `http3_event_cb`

The socket has a batch of datagrams.  The outer loop reads them, and the pass over the table, which
flushes and cleans up the connections, comes after it.  Some datagrams end the call before that.

- `http3EventCb`: a whole call; `http3EventCb_run` says that it is a run of the server
- `Rejected`: a datagram that is turned away, or that fails
- `RoundEnds`: every datagram that ends the call; `reachesTable_iff` says when none does
- `batch_independent_iff`: what such a datagram does to the connections before it in the batch
-/

namespace Gfhttpd.Http3

open Http Conf Router Modules Transition

variable {Code : Type}

/-! ## The call -/

/-- A datagram of the batch, with the events `quiche_h3_conn_poll` answers after it. -/
structure Round (Code : Type) where
  datagram : Datagram
  polls : List (Poll Code)

/-- The loop over the events of a connection, on the next answer. -/
def poll (routes : List (Route Code)) (s : Server) (p : Poll Code) : Server :=
  match s.phase with
  | .polling id => if s.dead then s else pollEvent routes s id p
  | _ => s

/-- The loop over the events of a connection. -/
def pollLoop (routes : List (Route Code)) (s : Server) (ps : List (Poll Code)) : Server :=
  (ps ++ [Poll.none]).foldl (poll routes) s

/-- The outer loop has not ended. -/
def Server.Receiving (s : Server) : Prop :=
  s.dead = false ∧ s.phase = .receiving

instance (s : Server) : Decidable s.Receiving :=
  inferInstanceAs (Decidable (_ ∧ _))

/-- The outer loop on the next datagram. -/
def receive (routes : List (Route Code)) (sock : ℤ) (s : Server) (r : Round Code) : Server :=
  if s.Receiving then pollLoop routes (recvDatagram s sock r.datagram) r.polls else s

/-- The outer loop on a batch. -/
def afterBatch (routes : List (Route Code)) (sock : ℤ) (s : Server) (batch : List (Round Code)) :
    Server :=
  batch.foldl (receive routes sock) { s with phase := .receiving }

/-- The outer loop on a batch, after which `recvfrom` would block. -/
def receiveLoop (routes : List (Route Code)) (sock : ℤ) (s : Server) (batch : List (Round Code)) :
    Server :=
  let s := afterBatch routes sock s batch
  if s.Receiving then { s with phase := .egress s.table } else s

/-- The loop over the table. -/
def egressLoop (answers : ℕ → FlushIO × Bool) : Server → List ℕ → Server
  | s, [] => s.ret
  | s, id :: left => egressLoop answers (egress s id left (answers id).1 (answers id).2) left

/-- The connections `flush_egress` is called for. -/
def flushed (s : Server) : List ℕ :=
  match s.phase with
  | .egress left => if s.dead then [] else left
  | _ => []

/-- `http3_event_cb`, on a batch. -/
def http3EventCb (routes : List (Route Code)) (sock : ℤ) (answers : ℕ → FlushIO × Bool)
    (s : Server) (batch : List (Round Code)) : Server :=
  let s := receiveLoop routes sock s batch
  match s.phase with
  | .egress left => if s.dead then s else egressLoop answers s left
  | _ => s

/-! ## The call is a run of the server -/

section Runs

variable (routes : List (Route Code))

theorem poll_run (s : Server) (p : Poll Code) :
    ∃ es, (serverMachine routes).exec s es = some (poll routes s p) := by
  unfold poll
  split
  · rename_i id hphase
    split
    · exact ⟨[], rfl⟩
    · rename_i hdead
      refine ⟨[.poll p], (serverMachine routes).exec_cons_eq_some.mpr ⟨_, ?_, rfl⟩⟩
      simp only [serverMachine, serverStep, hphase, if_neg hdead]
  · exact ⟨[], rfl⟩

theorem receive_run (sock : ℤ) (s : Server) (r : Round Code) :
    ∃ es, (serverMachine routes).exec s es = some (receive routes sock s r) := by
  unfold receive
  split
  · rename_i hreceiving
    obtain ⟨hdead, hphase⟩ := hreceiving
    obtain ⟨es, hpolls⟩ := (serverMachine routes).exec_foldl (poll_run routes)
      (recvDatagram s sock r.datagram) (r.polls ++ [Poll.none])
    refine ⟨.recv sock (.datagram r.datagram) :: es,
      (serverMachine routes).exec_cons_eq_some.mpr ⟨_, ?_, hpolls⟩⟩
    simp [serverMachine, serverStep, hdead, hphase]
  · exact ⟨[], rfl⟩

theorem afterBatch_run (sock : ℤ) {s : Server} (hidle : s.phase = .idle) (hdead : s.dead = false)
    (batch : List (Round Code)) :
    ∃ es, (serverMachine routes).exec s es = some (afterBatch routes sock s batch) := by
  have hwake : (serverMachine routes).exec s [.wake] = some { s with phase := .receiving } := by
    refine (serverMachine routes).exec_cons_eq_some.mpr ⟨_, ?_, rfl⟩
    simp [serverMachine, serverStep, hdead, hidle]
  obtain ⟨es, hbatch⟩ := (serverMachine routes).exec_foldl (receive_run routes sock)
    { s with phase := .receiving } batch
  exact ⟨_, (serverMachine routes).exec_append hwake hbatch⟩

theorem receiveLoop_run (sock : ℤ) {s : Server} (hidle : s.phase = .idle) (hdead : s.dead = false)
    (batch : List (Round Code)) :
    ∃ es, (serverMachine routes).exec s es = some (receiveLoop routes sock s batch) := by
  obtain ⟨es, hread⟩ := afterBatch_run routes sock hidle hdead batch
  unfold receiveLoop
  dsimp only
  split
  · rename_i hreceiving
    refine ⟨_, (serverMachine routes).exec_append hread
      (?_ : (serverMachine routes).exec _ [.recv sock .wouldBlock] = _)⟩
    refine (serverMachine routes).exec_cons_eq_some.mpr ⟨_, ?_, rfl⟩
    simp [serverMachine, serverStep, hreceiving.1, hreceiving.2]
  · exact ⟨_, hread⟩

/-- A round of the loop over the table. -/
theorem egress_eq {s : Server} {id : ℕ} {c : Conn} (hconn : s.conn id = some c) (left : List ℕ)
    (io : FlushIO) (closed : Bool) : ∃ c', egress s id left io closed =
      if c'.closed then dropConnection { s.setConn id c' with phase := .egress left } id
      else { s.setConn id c' with phase := .egress left } := by
  refine ⟨(flushEgress c io).closedBy closed, ?_⟩
  unfold egress
  rw [hconn]

theorem egress_phase {s : Server} {id : ℕ} (hlt : id < s.objs.length) (left : List ℕ) (io : FlushIO)
    (closed : Bool) : (egress s id left io closed).phase = .egress left := by
  have hconn : s.conn id = some s.objs[id].conn := by
    rw [Server.conn, List.getElem?_eq_getElem hlt]
    rfl
  obtain ⟨c', heq⟩ := egress_eq hconn left io closed
  rw [heq]
  split
  · rfl
  · rfl

/-- A dead process stays dead. -/
theorem egress_dead {s : Server} (hdead : s.dead = true) (id : ℕ) (left : List ℕ) (io : FlushIO)
    (closed : Bool) : (egress s id left io closed).dead = true := by
  cases hconn : s.conn id with
  | none =>
      unfold egress
      rw [hconn]
      exact hdead
  | some c =>
      obtain ⟨c', heq⟩ := egress_eq hconn left io closed
      have hset : (s.setConn id c').dead = true := by
        unfold Server.setConn
        rw [hdead]
        rfl
      rw [heq]
      split
      · exact hset
      · exact hset

theorem alive_of_egressLoop {answers : ℕ → FlushIO × Bool} {s : Server} {left : List ℕ}
    (h : (egressLoop answers s left).dead = false) : s.dead = false := by
  induction left generalizing s with
  | nil => exact h
  | cons id left ih =>
      have hafter := ih h
      cases hdead : s.dead with
      | false => rfl
      | true =>
          rw [egress_dead hdead] at hafter
          cases hafter

theorem egressLoop_run (answers : ℕ → FlushIO × Bool) {s : Server} {left : List ℕ}
    (hphase : s.phase = .egress left) (hbound : ∀ id ∈ left, id < s.objs.length)
    (hlives : (egressLoop answers s left).dead = false) :
    ∃ es, (serverMachine routes).exec s es = some (egressLoop answers s left) := by
  have halive := alive_of_egressLoop hlives
  induction left generalizing s with
  | nil =>
      refine ⟨[.egress ⟨[], true, 0⟩ false], (serverMachine routes).exec_cons_eq_some.mpr ⟨_, ?_, rfl⟩⟩
      simp only [serverMachine, serverStep, halive, hphase, Bool.false_eq_true, if_false]
      rfl
  | cons id left ih =>
      have hlt : id < s.objs.length := hbound id (List.mem_cons_self ..)
      have hlength := (egress_continues s id left (answers id).1 (answers id).2).length
      obtain ⟨es, hrest⟩ := ih (egress_phase hlt left (answers id).1 (answers id).2)
        (fun id' hid => hlength ▸ hbound id' (List.mem_cons_of_mem _ hid)) hlives
        (alive_of_egressLoop hlives)
      refine ⟨.egress (answers id).1 (answers id).2 :: es,
        (serverMachine routes).exec_cons_eq_some.mpr ⟨_, ?_, hrest⟩⟩
      simp only [serverMachine, serverStep, halive, hphase, Bool.false_eq_true, if_false]

end Runs

/-! ## What the outer loop keeps -/

/-- A loop that goes on keeps the table, and the pass over the table begins with all of it. -/
def GoesOn (s s' : Server) : Prop :=
  s'.phase ≠ .idle →
    (∀ id ∈ s.table, id ∈ s'.table) ∧ ∀ left, s'.phase = .egress left → left = s'.table

theorem processPacket_goesOn {s : Server} (hphase : s.phase = .receiving) (id : ℕ) (d : Datagram) :
    GoesOn s (processPacket s id d) := by
  have hstays : ∀ {s' : Server}, s'.table = s.table → s'.phase = .receiving → GoesOn s s' := by
    intro s' htable hrec _
    refine ⟨fun id' hid => htable ▸ hid, fun left hleft => ?_⟩
    rw [hrec] at hleft
    cases hleft
  unfold processPacket
  cases s.objs[id]? with
  | none => exact hstays rfl hphase
  | some o =>
      dsimp only
      split
      · -- the pass over the table comes next
        intro _
        refine ⟨fun id' hid => hid, fun left hleft => ?_⟩
        cases hleft
        rfl
      · split
        · intro hidle
          exact absurd rfl hidle
        · split
          · split
            · intro _
              refine ⟨fun id' hid => hid, fun left hleft => ?_⟩
              cases hleft
            · split
              · intro _
                refine ⟨fun id' hid => hid, fun left hleft => ?_⟩
                cases hleft
              · intro hidle
                exact absurd rfl hidle
          · exact hstays rfl hphase

/-- The connection whose `quiche_conn_recv` a datagram is given to. -/
def recipient (s : Server) (d : Datagram) : Option ℕ :=
  match d.header with
  | none => none
  | some h =>
      match getConnection s h.dcid with
      | some id => some id
      | none => (creates s d).bind fun cid =>
          if (getConnection s cid).isSome then none else some s.objs.length

/-- What a datagram leads to. -/
inductive ReceiveCases (s : Server) (sock : ℤ) (d : Datagram) : Server → Prop
  /-- it is turned away -/
  | refused (hto : recipient s d = none) : ReceiveCases s sock d s.ret
  | known {id : ℕ} (hmem : id ∈ s.table) (hto : recipient s d = some id) :
      ReceiveCases s sock d (processPacket s id d)
  | created {cid : Bytes} (hto : recipient s d = some s.objs.length)
      (htable : (addConnection s (Conn.create sock cid)).table = s.table ++ [s.objs.length]) :
      ReceiveCases s sock d
        (processPacket ((addConnection s (Conn.create sock cid)).setConn s.objs.length
          ((Conn.create sock cid).setPeer d.peerAddr)) s.objs.length d)
  /-- the random id is in use -/
  | overwritten {cid : Bytes} (hto : recipient s d = none)
      (hdead : (addConnection s (Conn.create sock cid)).dead = true)
      (htable : (addConnection s (Conn.create sock cid)).table = s.table) :
      ReceiveCases s sock d (addConnection s (Conn.create sock cid))

theorem recvDatagram_cases {s : Server} (hdead : s.dead = false) (sock : ℤ) (d : Datagram) :
    ReceiveCases s sock d (recvDatagram s sock d) := by
  cases hheader : d.header with
  | none =>
      rw [(recvDatagram_unread hheader s sock).2]
      apply ReceiveCases.refused
      unfold recipient
      rw [hheader]
  | some h =>
      cases hget : getConnection s h.dcid with
      | some id =>
          rw [recvDatagram_known sock hheader hget]
          apply ReceiveCases.known (getConnection_mem hget)
          unfold recipient
          rw [hheader]
          dsimp only
          rw [hget]
      | none =>
          have hto : recipient s d = (creates s d).bind fun cid =>
              if (getConnection s cid).isSome then none else some s.objs.length := by
            unfold recipient
            rw [hheader]
            dsimp only
            rw [hget]
          rcases recvDatagram_unknown sock hheader hget with ⟨hcreates, hret⟩ | ⟨cid, hcreates, hnew⟩
          · rw [hret]
            apply ReceiveCases.refused
            rw [hto, hcreates]
            rfl
          · rw [hcreates, Option.bind_some] at hto
            rw [hnew]
            cases hcid : getConnection s cid with
            | none =>
                have hadd := addConnection_new (c := Conn.create sock cid) hcid
                have hlives : ¬ (addConnection s (Conn.create sock cid)).dead = true := by
                  rw [hadd]
                  exact ne_true_of_eq_false hdead
                rw [if_neg hlives]
                apply ReceiveCases.created
                · rw [hto, hcid]
                  rfl
                · rw [hadd]
            | some old =>
                -- `add_connection` overwrites the entry of the table
                obtain ⟨hdies, htable⟩ := addConnection_dead (c := Conn.create sock cid) hcid
                rw [if_pos hdies]
                apply ReceiveCases.overwritten _ hdies htable
                rw [hto, hcid]
                rfl

/-- A datagram: the loop goes on with the table, in which its recipient is. -/
theorem recvDatagram_goesOn {s : Server} (hreceiving : s.Receiving) (sock : ℤ) (d : Datagram) :
    GoesOn s (recvDatagram s sock d) ∧ ((recvDatagram s sock d).phase ≠ .idle →
      ∀ id, recipient s d = some id → id ∈ (recvDatagram s sock d).table) := by
  obtain ⟨hdead, hphase⟩ := hreceiving
  have hcases := recvDatagram_cases hdead sock d
  generalize recvDatagram s sock d = s' at hcases ⊢
  cases hcases with
  | refused hto => exact ⟨fun hidle => absurd rfl hidle, fun hidle => absurd rfl hidle⟩
  | @known id hmem hto =>
      have hgoes := processPacket_goesOn hphase id d
      refine ⟨hgoes, fun hidle id' hid => ?_⟩
      obtain rfl : id = id' := Option.some.inj (hto.symm.trans hid)
      exact (hgoes hidle).1 id hmem
  | @created cid hto htable =>
      have hstarts := (phase_addConnection s (Conn.create sock cid)).trans hphase
      have hgoes := processPacket_goesOn (s := (addConnection s (Conn.create sock cid)).setConn
        s.objs.length ((Conn.create sock cid).setPeer d.peerAddr)) hstarts s.objs.length d
      have hadded : ∀ id ∈ s.table ++ [s.objs.length],
          id ∈ (addConnection s (Conn.create sock cid)).table := fun id hid => htable ▸ hid
      refine ⟨fun hidle => ⟨fun id hid => ?_, (hgoes hidle).2⟩, fun hidle id' hid => ?_⟩
      · exact (hgoes hidle).1 id (hadded id (List.mem_append_left _ hid))
      · obtain rfl : s.objs.length = id' := Option.some.inj (hto.symm.trans hid)
        exact (hgoes hidle).1 _ (hadded _ (List.mem_append_right _ (List.mem_singleton.mpr rfl)))
  | @overwritten cid hto hdies htable =>
      -- the process is lost, but it has not left the loop
      have hstays := (phase_addConnection s (Conn.create sock cid)).trans hphase
      refine ⟨fun _ => ⟨fun id hid => htable ▸ hid, fun left hleft => ?_⟩, fun _ id hid => ?_⟩
      · rw [hstays] at hleft
        cases hleft
      · rw [hto] at hid
        cases hid

/-- A round of the loop over the events leaves the table alone. -/
theorem poll_frame (routes : List (Route Code)) (s : Server) (p : Poll Code) :
    (poll routes s p).table = s.table ∧ (s.phase = .idle → (poll routes s p).phase = .idle) ∧
      ∀ left, (poll routes s p).phase = .egress left → s.phase = .egress left := by
  unfold poll
  cases hphase : s.phase with
  | polling id =>
      dsimp only
      split
      · exact ⟨rfl, fun h => hphase.trans h, fun left hleft => hphase.symm.trans hleft⟩
      · have hpolls : ∀ s' : Server, s'.phase = .polling id → (Phase.polling id = .idle →
            s'.phase = .idle) ∧ ∀ left, s'.phase = .egress left → Phase.polling id = .egress left :=
          fun s' h => ⟨fun h' => h.trans h', fun left hleft => h.symm.trans hleft⟩
        cases p with
        | none =>
            refine ⟨rfl, fun h => ?_, fun left hleft => ?_⟩
            · cases h
            · cases hleft
        | other => exact ⟨rfl, hpolls s hphase⟩
        | headers streamId block io =>
            unfold pollEvent
            cases s.conn id with
            | none => exact ⟨rfl, hpolls s hphase⟩
            | some c =>
                dsimp only
                split
                · refine ⟨rfl, fun h => ?_, fun left hleft => ?_⟩
                  · cases h
                  · cases hleft
                · exact ⟨rfl, hpolls _ hphase⟩
  | idle => exact ⟨rfl, fun _ => hphase, fun left hleft => hphase.symm.trans hleft⟩
  | receiving => exact ⟨rfl, fun h => hphase.trans h, fun left hleft => hphase.symm.trans hleft⟩
  | egress l => exact ⟨rfl, fun h => hphase.trans h, fun left hleft => hphase.symm.trans hleft⟩

theorem pollLoop_frame (routes : List (Route Code)) (s : Server) (ps : List (Poll Code)) :
    (pollLoop routes s ps).table = s.table ∧ (s.phase = .idle → (pollLoop routes s ps).phase = .idle) ∧
      ∀ left, (pollLoop routes s ps).phase = .egress left → s.phase = .egress left := by
  unfold pollLoop
  generalize ps ++ [Poll.none] = qs
  induction qs generalizing s with
  | nil => exact ⟨rfl, id, fun left hleft => hleft⟩
  | cons q qs ih =>
      obtain ⟨htable, hidle, hleft⟩ := poll_frame routes s q
      obtain ⟨htable', hidle', hleft'⟩ := ih (poll routes s q)
      exact ⟨htable'.trans htable, fun h => hidle' (hidle h),
        fun left h => hleft left (hleft' left h)⟩

/-- A round of the outer loop. -/
theorem receive_goesOn (routes : List (Route Code)) (sock : ℤ) {s : Server} (hreceiving : s.Receiving)
    (r : Round Code) : GoesOn s (receive routes sock s r) ∧
      ((receive routes sock s r).phase ≠ .idle →
        ∀ id, recipient s r.datagram = some id → id ∈ (receive routes sock s r).table) := by
  obtain ⟨hgoes, hto⟩ := recvDatagram_goesOn hreceiving sock r.datagram
  obtain ⟨htable, hidle, hleft⟩ := pollLoop_frame routes (recvDatagram s sock r.datagram) r.polls
  unfold receive
  rw [if_pos hreceiving]
  -- the inner loop goes on only where the datagram went on
  have hwent : (pollLoop routes (recvDatagram s sock r.datagram) r.polls).phase ≠ .idle →
      (recvDatagram s sock r.datagram).phase ≠ .idle := fun h h' => h (hidle h')
  refine ⟨fun h => ⟨fun id hid => ?_, fun left h' => ?_⟩, fun h id hid => ?_⟩
  · rw [htable]
    exact (hgoes (hwent h)).1 id hid
  · rw [htable]
    exact (hgoes (hwent h)).2 left (hleft left h')
  · rw [htable]
    exact hto (hwent h) id hid

/-! ## The connections of a batch -/

/-- The connections that receive a datagram of a batch. -/
def receivers (routes : List (Route Code)) (sock : ℤ) : Server → List (Round Code) → List ℕ
  | _, [] => []
  | s, r :: rs =>
      (if s.Receiving then (recipient s r.datagram).toList else []) ++
        receivers routes sock (receive routes sock s r) rs

section Loops

variable (routes : List (Route Code)) (sock : ℤ)

theorem receivers_append (s : Server) (rs rs' : List (Round Code)) :
    receivers routes sock s (rs ++ rs') =
      receivers routes sock s rs ++ receivers routes sock (rs.foldl (receive routes sock) s) rs' := by
  induction rs generalizing s with
  | nil => rfl
  | cons r rs ih =>
      rw [List.cons_append, receivers, ih, receivers, List.append_assoc]
      rfl

/-- After its end the loop reads nothing. -/
theorem foldl_receive_ended {s : Server} (h : ¬ s.Receiving) (rs : List (Round Code)) :
    rs.foldl (receive routes sock) s = s := by
  induction rs with
  | nil => rfl
  | cons r rs ih =>
      rw [List.foldl_cons, receive, if_neg h]
      exact ih

theorem foldl_receive_goesOn {s : Server} (hleft : ∀ left, s.phase = .egress left → left = s.table)
    (rs : List (Round Code)) : GoesOn s (rs.foldl (receive routes sock) s) ∧
      ((rs.foldl (receive routes sock) s).phase ≠ .idle →
        ∀ id ∈ receivers routes sock s rs, id ∈ (rs.foldl (receive routes sock) s).table) := by
  induction rs generalizing s with
  | nil => exact ⟨fun _ => ⟨fun id hid => hid, hleft⟩, fun _ id hid => absurd hid List.not_mem_nil⟩
  | cons r rs ih =>
      by_cases hreceiving : s.Receiving
      · -- the round keeps the table; the connection it was for is in it
        obtain ⟨hgoes, hto⟩ := receive_goesOn routes sock hreceiving r
        by_cases hidle : (receive routes sock s r).phase = .idle
        · -- the call has returned
          have hended : ¬ (receive routes sock s r).Receiving := fun h => by
            rw [h.2] at hidle
            cases hidle
          rw [List.foldl_cons, foldl_receive_ended routes sock hended]
          exact ⟨fun h => absurd hidle h, fun h => absurd hidle h⟩
        · obtain ⟨hsub, hleft'⟩ := hgoes hidle
          obtain ⟨hrest, hrest'⟩ := ih hleft'
          refine ⟨fun h => ⟨fun id hid => (hrest h).1 id (hsub id hid), (hrest h).2⟩,
            fun h id hid => ?_⟩
          rw [receivers, if_pos hreceiving] at hid
          rcases List.mem_append.mp hid with hnow | hlater
          · exact (hrest h).1 id (hto hidle id (Option.mem_toList.mp hnow))
          · exact hrest' h id hlater
      · have hsame : receive routes sock s r = s := by
          unfold receive
          rw [if_neg hreceiving]
        rw [List.foldl_cons, receivers, if_neg hreceiving, hsame, List.nil_append]
        exact ih hleft

/-- The outer loop on a batch. -/
theorem afterBatch_goesOn (s : Server) (batch : List (Round Code))
    (h : (afterBatch routes sock s batch).phase ≠ .idle) :
    (∀ left, (afterBatch routes sock s batch).phase = .egress left →
      left = (afterBatch routes sock s batch).table) ∧
    ∀ id ∈ receivers routes sock { s with phase := .receiving } batch,
      id ∈ (afterBatch routes sock s batch).table := by
  have hstart : ∀ left, ({ s with phase := .receiving } : Server).phase = .egress left →
      left = s.table := by
    intro left hleft
    cases hleft
  obtain ⟨hgoes, hto⟩ := foldl_receive_goesOn routes sock hstart batch
  exact ⟨(hgoes h).2, hto h⟩

/-- The pass over the table begins with all of it, and the connections of the batch are in it. -/
theorem receiveLoop_left (s : Server) (batch : List (Round Code)) {left : List ℕ}
    (h : (receiveLoop routes sock s batch).phase = .egress left) :
    left = (receiveLoop routes sock s batch).table ∧
      ∀ id ∈ receivers routes sock { s with phase := .receiving } batch, id ∈ left := by
  unfold receiveLoop at h ⊢
  dsimp only at h ⊢
  split at h
  · rename_i hreceiving
    rw [if_pos hreceiving]
    cases h
    have hgoes := afterBatch_goesOn routes sock s batch (by rw [hreceiving.2]; simp)
    exact ⟨rfl, hgoes.2⟩
  · rename_i hended
    rw [if_neg hended]
    obtain ⟨hleft, hto⟩ := afterBatch_goesOn routes sock s batch (by rw [h]; simp)
    exact ⟨hleft left h, fun id hid => hleft left h ▸ hto id hid⟩

end Loops

/-! ## The pass over the table -/

/-- The connection is not in the table when it is closed. -/
def Swept (s : Server) (id : ℕ) : Prop :=
  ∀ c ∈ s.conn id, c.closed = true → id ∉ s.table

/-- A round sweeps its connection, and leaves the others alone. -/
theorem egress_swept (s : Server) (id : ℕ) (left : List ℕ) (io : FlushIO) (closed : Bool) {id' : ℕ}
    (h : id = id' ∨ Swept s id') : Swept (egress s id left io closed) id' := by
  cases hconn : s.conn id with
  | none =>
      have hsame : egress s id left io closed = s := by
        unfold egress
        rw [hconn]
      rw [hsame]
      rcases h with rfl | h
      · intro c hc
        rw [hconn] at hc
        cases hc
      · exact h
  | some c =>
      obtain ⟨c', heq⟩ := egress_eq hconn left io closed
      rw [heq]
      have hstored : ∀ d, d ∈ (s.setConn id c').conn id' → id = id' ∧ d = c' ∨
          id ≠ id' ∧ d ∈ s.conn id' := by
        intro d hd
        rw [conn_setConn] at hd
        by_cases hid : id = id'
        · rw [if_pos hid, hconn] at hd
          exact Or.inl ⟨hid, (Option.some.inj hd).symm⟩
        · rw [if_neg hid] at hd
          exact Or.inr ⟨hid, hd⟩
      split
      · -- it is closed, and dropped
        intro d hd hclosed hmem
        obtain ⟨hmem, hne⟩ := List.mem_filter.mp hmem
        have hother : ¬ id = id' := fun hid => of_decide_eq_true hne hid.symm
        rw [conn_drop, if_neg hother] at hd
        rcases h with hid | h
        · exact hother hid
        · rcases hstored d hd with ⟨hid, -⟩ | ⟨-, hold⟩
          · exact hother hid
          · exact h d hold hclosed hmem
      · -- it stays in the table, and is not closed
        rename_i hopen
        intro d hd hclosed hmem
        rcases hstored d hd with ⟨-, rfl⟩ | ⟨hother, hold⟩
        · exact hopen hclosed
        · rcases h with hid | h
          · exact hother hid
          · exact h d hold hclosed hmem

theorem egressLoop_swept (answers : ℕ → FlushIO × Bool) (s : Server) (left : List ℕ) {id : ℕ}
    (h : id ∈ left ∨ Swept s id) : Swept (egressLoop answers s left) id := by
  induction left generalizing s with
  | nil =>
      rcases h with h | h
      · cases h
      · exact h
  | cons id' left ih =>
      apply ih
      rcases h with h | h
      · rcases List.mem_cons.mp h with rfl | hlater
        · exact Or.inr (egress_swept s _ left _ _ (Or.inl rfl))
        · exact Or.inl hlater
      · exact Or.inr (egress_swept s _ left _ _ (Or.inr h))

/-- A call that the process survives is a run of the server. -/
theorem http3EventCb_run (routes : List (Route Code)) (sock : ℤ) (answers : ℕ → FlushIO × Bool)
    {s : Server} (hbound : s.Bounded) (hidle : s.phase = .idle) (hdead : s.dead = false)
    {batch : List (Round Code)} (hlives : (http3EventCb routes sock answers s batch).dead = false) :
    ∃ es, (serverMachine routes).exec s es = some (http3EventCb routes sock answers s batch) := by
  obtain ⟨es, hread⟩ := receiveLoop_run routes sock hidle hdead batch
  have hbound' : (receiveLoop routes sock s batch).Bounded :=
    (serverMachine routes).exec_invariant (I := Server.Bounded) (fun _ _ _ h hstep => h.step hstep)
      hbound hread
  unfold http3EventCb at hlives ⊢
  dsimp only at hlives ⊢
  split at hlives
  · rename_i left hphase
    split at hlives
    · rename_i hdies
      rw [hdies] at hlives
      cases hlives
    · have hleft := (receiveLoop_left routes sock s batch hphase).1
      obtain ⟨fs, hpass⟩ := egressLoop_run routes answers hphase
        (fun id hid => hbound' id (hleft ▸ hid)) hlives
      rename_i halive
      rw [if_neg halive]
      exact ⟨_, (serverMachine routes).exec_append hread hpass⟩
  · exact ⟨es, hread⟩

/-! ## Datagrams that are turned away -/

/-- A datagram that the server does not take, or that fails in the connection it is given to. -/
inductive Rejected (s : Server) (d : Datagram) : Prop
  | header (hheader : d.header = none)
  | version {h : PacketHeader} (hheader : d.header = some h) (hget : getConnection s h.dcid = none)
      (hversion : d.versionSupported = false)
  | noToken {h : PacketHeader} (hheader : d.header = some h) (hget : getConnection s h.dcid = none)
      (htoken : h.token = [])
  | invalidToken {h : PacketHeader} (hheader : d.header = some h)
      (hget : getConnection s h.dcid = none)
      (hinvalid : validateToken h.token d.peerAddr QUICHE_MAX_CONN_ID_LEN = none)
  | fails {id : ℕ} (hto : recipient s d = some id) (hrecv : d.recv < QUICHE_ERR_DONE)

/-- A datagram that fails ends the call. -/
theorem processPacket_fails {s : Server} {id : ℕ} {d : Datagram} (hlt : id < s.objs.length)
    (hrecv : d.recv < QUICHE_ERR_DONE) : (processPacket s id d).phase = .idle := by
  unfold processPacket
  rw [List.getElem?_eq_getElem hlt]
  have hdone : d.recv ≠ QUICHE_ERR_DONE := Int.ne_of_lt hrecv
  have hneg : d.recv < 0 := Int.lt_trans hrecv (by decide)
  simp only [if_neg hdone, if_pos hneg]
  rfl

/-- Every datagram that is rejected ends the call. -/
theorem Rejected.returns {s : Server} {d : Datagram} (h : Rejected s d) (hbound : s.Bounded)
    (hdead : s.dead = false) (sock : ℤ) : (recvDatagram s sock d).phase = .idle := by
  cases h with
  | header hheader =>
      rw [(recvDatagram_unread hheader s sock).2]
      rfl
  | version hheader hget hversion =>
      simp only [recvDatagram, hheader, hget, hversion]
      rfl
  | noToken hheader hget htoken =>
      rcases recvDatagram_unknown sock hheader hget with ⟨-, hret⟩ | ⟨cid, hcreates, -⟩
      · rw [hret]
        rfl
      · simp [creates, hheader, htoken] at hcreates
  | invalidToken hheader hget hinvalid =>
      rcases recvDatagram_unknown sock hheader hget with ⟨-, hret⟩ | ⟨cid, hcreates, -⟩
      · rw [hret]
        rfl
      · simp [creates, hheader, hinvalid] at hcreates
  | fails hto hrecv =>
      have hcases := recvDatagram_cases hdead sock d
      generalize recvDatagram s sock d = s' at hcases ⊢
      cases hcases with
      | refused hno => rfl
      | known hmem hto' => exact processPacket_fails (hbound _ hmem) hrecv
      | @created cid hto' htable =>
          apply processPacket_fails _ hrecv
          have hlt : s.objs.length < (addConnection s (Conn.create sock cid)).objs.length := by
            rw [length_addConnection]
            exact Nat.lt_succ_self _
          exact lt_of_lt_of_eq hlt (List.length_modify ..).symm
      | overwritten hno hdies htable =>
          rw [hno] at hto
          cases hto

/-! ## The end of the loop -/

/-- The call has returned, or the process has ended. -/
def Ended (s : Server) : Prop :=
  s.dead = true ∨ s.phase = .idle

/-- An event that ends the call: a header block for which `root_router` opens nothing. -/
def EventEnds (routes : List (Route Code)) (s : Server) : Poll Code → Prop
  | .headers streamId block io => ∃ id, s.phase = .polling id ∧
      ∃ c ∈ s.conn id, (rootRouter (prepareRequest block c.hs).evbase routes io
        (prepareRequest block c.hs) (routerWorld c streamId block)).fd = -1
  | .none | .other => False

/-- A datagram that ends the call. -/
inductive DatagramEnds (s : Server) (d : Datagram) : Prop
  /-- it is given to no connection -/
  | refused (hto : recipient s d = none)
  | fails {id : ℕ} (hto : recipient s d = some id) (hrecv : d.recv < QUICHE_ERR_DONE)
  /-- no HTTP/3 connection can be created -/
  | noHttp3 {id : ℕ} (hto : recipient s d = some id) (hrecv : 0 ≤ d.recv)
      (hestablished : d.established = true) (hnew : ∀ o ∈ s.objs[id]?, o.http3 = false)
      (hcreated : d.h3Created = false)

/-- A datagram that ends the call, or that has an event which does. -/
def RoundEnds (routes : List (Route Code)) (sock : ℤ) (s : Server) (r : Round Code) : Prop :=
  DatagramEnds s r.datagram ∨ ∃ pre p post, r.polls = pre ++ p :: post ∧
    EventEnds routes (pre.foldl (poll routes) (recvDatagram s sock r.datagram)) p

theorem eventEnds_headers_iff (routes : List (Route Code)) {s : Server} {id : ℕ} {c : Conn}
    (hphase : s.phase = .polling id) (hconn : s.conn id = some c) (streamId : ℤ)
    (block : List (Bytes × Bytes)) (io : RouterIO Code) :
    EventEnds routes s (.headers streamId block io) ↔
      (rootRouter (prepareRequest block c.hs).evbase routes io (prepareRequest block c.hs)
        (routerWorld c streamId block)).fd = -1 := by
  constructor
  · rintro ⟨id', hid', c', hc', hfd⟩
    cases hphase.symm.trans hid'
    obtain rfl : c = c' := Option.some.inj (hconn.symm.trans hc')
    exact hfd
  · exact fun hfd => ⟨id, hphase, c, hconn, hfd⟩

/-- A round of the loop over the events. -/
theorem poll_ended_iff (routes : List (Route Code)) {s : Server} (hlives : s.Lives)
    (p : Poll Code) : Ended (poll routes s p) ↔ Ended s ∨ EventEnds routes s p := by
  unfold poll
  cases hphase : s.phase with
  | polling id =>
      have hbusy : ¬ s.phase = .idle := by
        rw [hphase]
        simp
      dsimp only
      split
      · rename_i hdead
        exact iff_of_true (Or.inl hdead) (Or.inl (Or.inl hdead))
      · rename_i halive
        have hnot : ¬ Ended s := fun h => h.elim halive hbusy
        cases p with
        | none =>
            refine iff_of_false (fun h => h.elim halive fun hidle => ?_)
              fun h => h.elim hnot False.elim
            cases hidle
        | other => exact iff_of_false hnot fun h => h.elim hnot False.elim
        | headers streamId block io =>
            unfold pollEvent
            cases hconn : s.conn id with
            | none =>
                refine iff_of_false hnot fun h => h.elim hnot ?_
                rintro ⟨id', hid', c, hc, -⟩
                cases hphase.symm.trans hid'
                rw [hconn] at hc
                cases hc
            | some c =>
                rw [or_iff_right hnot, eventEnds_headers_iff routes hphase hconn]
                dsimp only
                split
                · rename_i hfd
                  exact iff_of_true (Or.inr rfl) hfd
                · rename_i hfd
                  refine iff_of_false (fun h => ?_) hfd
                  -- the process lives on, and so does the loop
                  have hanswered : (onRouted c streamId (rootRouter
                      (prepareRequest block c.hs).evbase routes io (prepareRequest block c.hs)
                      (routerWorld c streamId block))).dead = false := by
                    apply (dead_onRouted c streamId _).trans
                    apply Bool.or_eq_false_iff.mpr
                    exact ⟨rootRouter_fault hfd, hlives (eq_false_of_ne_true halive) id c hconn⟩
                  rcases h with hdead | hidle
                  · rcases (Bool.or_eq_true ..).mp hdead with hold | hnew
                    · exact halive hold
                    · exact ne_true_of_eq_false hanswered hnew
                  · exact hbusy hidle
  | idle | receiving | egress left =>
      -- the loop is at its end
      refine ⟨Or.inl, fun h => h.elim id ?_⟩
      intro hends
      cases p with
      | none | other => exact hends.elim
      | headers streamId block io =>
          obtain ⟨id, hid, -⟩ := hends
          cases hphase.symm.trans hid

theorem poll_lives (routes : List (Route Code)) {s : Server} (h : s.Lives) (p : Poll Code) :
    (poll routes s p).Lives := by
  unfold poll
  split
  · split
    · exact h
    · exact h.pollEvent routes _ p
  · exact h

/-- The loop over the events. -/
theorem pollLoop_ended_iff (routes : List (Route Code)) {s : Server} (hlives : s.Lives)
    (ps : List (Poll Code)) : Ended (pollLoop routes s ps) ↔
      Ended s ∨ ∃ pre p post, ps = pre ++ p :: post ∧
        EventEnds routes (pre.foldl (poll routes) s) p := by
  have hlast : Ended (pollLoop routes s ps) ↔ Ended (ps.foldl (poll routes) s) := by
    have hkept : (ps.foldl (poll routes) s).Lives :=
      List.foldlRecOn ps (poll routes) hlives fun s h p _ => poll_lives routes h p
    unfold pollLoop
    rw [List.foldl_append, List.foldl_cons, List.foldl_nil, poll_ended_iff routes hkept]
    exact or_iff_left False.elim
  rw [hlast]
  exact foldl_ends_iff (fun s p h => poll_lives routes h p) (fun s p h => poll_ended_iff routes h p)
    hlives ps

/-- After the loop over the events none is polled. -/
theorem pollLoop_phase (routes : List (Route Code)) (s : Server) (ps : List (Poll Code))
    (h : ¬ Ended (pollLoop routes s ps)) (id : ℕ) : (pollLoop routes s ps).phase ≠ .polling id := by
  unfold pollLoop at h ⊢
  rw [List.foldl_append, List.foldl_cons, List.foldl_nil] at h ⊢
  generalize ps.foldl (poll routes) s = t at h ⊢
  unfold poll at h ⊢
  split at h
  · split at h
    · rename_i hdead
      exact absurd (Or.inl hdead) h
    · rename_i hdead
      rw [if_neg hdead]
      intro hphase
      cases hphase
  · rename_i hnot
    exact hnot id

/-- The round from `quiche_conn_recv` on. -/
theorem processPacket_ended_iff {s : Server} {id : ℕ} {o : HttpConn} {d : Datagram}
    (hobj : s.objs[id]? = some o) (hlives : s.Lives) (hreceiving : s.Receiving) :
    Ended (processPacket s id d) ↔ d.recv < QUICHE_ERR_DONE ∨
      0 ≤ d.recv ∧ d.established = true ∧ o.http3 = false ∧ d.h3Created = false := by
  obtain ⟨halive, hphase⟩ := hreceiving
  have hconn : s.conn id = some o.conn := by
    rw [Server.conn, hobj]
    rfl
  have hstored : (s.setConn id (o.conn.closedBy d.closed)).dead = false := by
    have hc := hlives halive id o.conn hconn
    unfold Server.setConn
    dsimp only [Conn.closedBy]
    rw [halive, hc]
    rfl
  have hgoes : ∀ s' : Server, s'.dead = false → s'.phase ≠ .idle → ¬ Ended s' :=
    fun s' h h' hended => hended.elim (ne_true_of_eq_false h) h'
  unfold processPacket
  rw [hobj]
  dsimp only
  split
  · -- the pass over the table comes next
    rename_i hdone
    refine iff_of_false (hgoes _ hstored (by simp)) ?_
    rw [hdone]
    rintro (hrecv | ⟨hrecv, -⟩)
    · exact Int.lt_irrefl _ hrecv
    · exact absurd hrecv (by decide)
  · rename_i hdone
    split
    · -- the connection is dropped, and the call returns
      rename_i hneg
      refine iff_of_true (Or.inr rfl) (Or.inl ?_)
      unfold QUICHE_ERR_DONE at hdone ⊢
      omega
    · rename_i hneg
      have hrecv : ¬ d.recv < QUICHE_ERR_DONE := by
        unfold QUICHE_ERR_DONE
        omega
      rw [or_iff_right hrecv, and_iff_right (Int.not_lt.mp hneg)]
      split
      · rename_i hestablished
        rw [and_iff_right hestablished]
        split
        · rename_i hhttp3
          exact iff_of_false (hgoes _ hstored (by simp)) fun h => ne_true_of_eq_false h.1 hhttp3
        · -- the first datagram of an established connection
          rename_i hhttp3
          rw [and_iff_right (eq_false_of_ne_true hhttp3)]
          split
          · rename_i hcreated
            exact iff_of_false (hgoes _ hstored (by simp)) fun h => ne_true_of_eq_false h hcreated
          · rename_i hcreated
            exact iff_of_true (Or.inr rfl) (eq_false_of_ne_true hcreated)
      · rename_i hestablished
        refine iff_of_false (hgoes _ hstored ?_) fun h => hestablished h.1
        have hstays : (s.setConn id (o.conn.closedBy d.closed)).phase = .receiving := hphase
        rw [hstays]
        simp

/-- A datagram that is given to a connection. -/
theorem datagramEnds_iff {s : Server} {d : Datagram} {id : ℕ} (hto : recipient s d = some id) :
    DatagramEnds s d ↔ d.recv < QUICHE_ERR_DONE ∨ 0 ≤ d.recv ∧ d.established = true ∧
      (∀ o ∈ s.objs[id]?, o.http3 = false) ∧ d.h3Created = false := by
  constructor
  · rintro (hnone | ⟨-, hrecv⟩ | ⟨hto', hrecv, hestablished, hnew, hcreated⟩)
    · rw [hnone] at hto
      cases hto
    · exact Or.inl hrecv
    · obtain rfl := Option.some.inj (hto.symm.trans hto')
      exact Or.inr ⟨hrecv, hestablished, hnew, hcreated⟩
  · rintro (hrecv | ⟨hrecv, hestablished, hnew, hcreated⟩)
    · exact .fails hto hrecv
    · exact .noHttp3 hto hrecv hestablished hnew hcreated

/-- A round that read a datagram. -/
theorem recvDatagram_ended_iff {s : Server} (hbound : s.Bounded) (hlives : s.Lives)
    (hreceiving : s.Receiving) (sock : ℤ) (d : Datagram) :
    Ended (recvDatagram s sock d) ↔ DatagramEnds s d := by
  have hcases := recvDatagram_cases hreceiving.1 sock d
  generalize recvDatagram s sock d = s' at hcases ⊢
  cases hcases with
  | refused hto => exact iff_of_true (Or.inr rfl) (.refused hto)
  | @known id hmem hto =>
      have hobj := List.getElem?_eq_getElem (hbound id hmem)
      rw [datagramEnds_iff hto, processPacket_ended_iff hobj hlives hreceiving, hobj]
      simp only [Option.mem_some_iff, forall_eq']
  | @created cid hto htable =>
      -- a table that grew had no connection with this id
      have hget : getConnection s cid = none := by
        cases hget : getConnection s cid with
        | none => rfl
        | some old =>
            have hsame := (addConnection_dead (c := Conn.create sock cid) hget).2
            rw [hsame] at htable
            exact absurd (congrArg List.length htable) (by simp)
      have hadd := addConnection_new (c := Conn.create sock cid) hget
      have hadded : (addConnection s (Conn.create sock cid)).Lives := hlives.add rfl
      rw [datagramEnds_iff hto, List.getElem?_eq_none (Nat.le_refl _),
        processPacket_ended_iff (o := ⟨(Conn.create sock cid).setPeer d.peerAddr, false⟩) _
          (hadded.setConn _ _)]
      · simp
      · rw [hadd]
        exact ⟨Bool.or_eq_false_iff.mpr ⟨hreceiving.1, rfl⟩, hreceiving.2⟩
      · rw [hadd]
        simp [Server.setConn]
  | overwritten hto hdies htable => exact iff_of_true (Or.inl hdies) (.refused hto)

/-- A round of the outer loop. -/
theorem receive_ended_iff (routes : List (Route Code)) (sock : ℤ) {s : Server} (hbound : s.Bounded)
    (hlives : s.Lives) (r : Round Code) :
    Ended (receive routes sock s r) ↔ Ended s ∨ s.Receiving ∧ RoundEnds routes sock s r := by
  unfold receive
  by_cases hreceiving : s.Receiving
  · have hgoes : ¬ Ended s := fun h => h.elim (ne_true_of_eq_false hreceiving.1) fun hidle => by
      rw [hreceiving.2] at hidle
      cases hidle
    rw [if_pos hreceiving, or_iff_right hgoes, and_iff_right hreceiving,
      pollLoop_ended_iff routes (hlives.recvDatagram sock r.datagram),
      recvDatagram_ended_iff hbound hlives hreceiving]
    rfl
  · rw [if_neg hreceiving]
    exact (or_iff_left fun h => hreceiving h.1).symm

/-- Every run keeps the two invariants. -/
theorem boundedLives_exec {routes : List (Route Code)} {s s' : Server}
    {es : List (ServerEvent Code)} (h : s.Bounded ∧ s.Lives)
    (hexec : (serverMachine routes).exec s es = some s') : s'.Bounded ∧ s'.Lives := by
  apply (serverMachine routes).exec_invariant (I := fun s => s.Bounded ∧ s.Lives) _ h hexec
  rintro s e s' ⟨hbound, hlives⟩ hstep
  exact ⟨hbound.step hstep, hlives.step hstep⟩

/-- The outer loop on a batch. -/
theorem foldl_receive_ended_iff (routes : List (Route Code)) (sock : ℤ) {s : Server}
    (hbound : s.Bounded) (hlives : s.Lives) (rs : List (Round Code)) :
    Ended (rs.foldl (receive routes sock) s) ↔ Ended s ∨ ∃ pre r post, rs = pre ++ r :: post ∧
      (pre.foldl (receive routes sock) s).Receiving ∧
      RoundEnds routes sock (pre.foldl (receive routes sock) s) r := by
  have hkeeps : ∀ (s : Server) (r : Round Code), s.Bounded ∧ s.Lives →
      (receive routes sock s r).Bounded ∧ (receive routes sock s r).Lives := by
    intro s r h
    obtain ⟨es, hexec⟩ := receive_run routes sock s r
    exact boundedLives_exec h hexec
  exact foldl_ends_iff hkeeps (fun s r h => receive_ended_iff routes sock h.1 h.2 r)
    ⟨hbound, hlives⟩ rs

/-- Between the rounds of the outer loop no connection is polled. -/
theorem afterBatch_phase (routes : List (Route Code)) (sock : ℤ) (s : Server)
    (batch : List (Round Code)) :
    Ended (afterBatch routes sock s batch) ∨
      ∀ id, (afterBatch routes sock s batch).phase ≠ .polling id := by
  unfold afterBatch
  refine List.foldlRecOn (motive := fun t => Ended t ∨ ∀ id, t.phase ≠ .polling id) batch
    (receive routes sock) (Or.inr fun id h => ?_) fun t ht r _ => ?_
  · cases h
  · unfold receive
    split
    · by_cases hended : Ended (pollLoop routes (recvDatagram t sock r.datagram) r.polls)
      · exact Or.inl hended
      · exact Or.inr (pollLoop_phase routes _ r.polls hended)
    · exact ht

/-- The call gets to the pass over the table. -/
def ReachesTable (routes : List (Route Code)) (sock : ℤ) (s : Server) (batch : List (Round Code)) :
    Prop :=
  (receiveLoop routes sock s batch).dead = false ∧
    ∃ left, (receiveLoop routes sock s batch).phase = .egress left

/-- The pass over the table comes when the loop before it does not end the call. -/
theorem reachesTable_iff (routes : List (Route Code)) (sock : ℤ) (s : Server)
    (batch : List (Round Code)) :
    ReachesTable routes sock s batch ↔ ¬ Ended (afterBatch routes sock s batch) := by
  have hphase := afterBatch_phase routes sock s batch
  unfold ReachesTable receiveLoop
  dsimp only
  generalize afterBatch routes sock s batch = t at hphase ⊢
  split
  · rename_i hreceiving
    refine iff_of_true ⟨hreceiving.1, _, rfl⟩ fun hended => ?_
    rcases hended with hdead | hidle
    · exact ne_true_of_eq_false hreceiving.1 hdead
    · rw [hreceiving.2] at hidle
      cases hidle
  · rename_i hnot
    constructor
    · rintro ⟨halive, left, hleft⟩ (hdead | hidle)
      · exact ne_true_of_eq_false halive hdead
      · rw [hleft] at hidle
        cases hidle
    · intro hgoes
      have halive : t.dead = false := eq_false_of_ne_true fun hdead => hgoes (Or.inl hdead)
      refine ⟨halive, ?_⟩
      cases hcase : t.phase with
      | egress left => exact ⟨left, rfl⟩
      | idle => exact absurd (Or.inr hcase) hgoes
      | receiving => exact absurd ⟨halive, hcase⟩ hnot
      -- a round ends with the poll loop, not inside it
      | polling id => exact absurd hcase ((hphase.resolve_left hgoes) id)

/-! ## Independence -/

/-- The call flushes the connection, and does not leave it in the table closed. -/
structure Served (routes : List (Route Code)) (sock : ℤ) (answers : ℕ → FlushIO × Bool) (s : Server)
    (batch : List (Round Code)) (id : ℕ) : Prop where
  flushed : id ∈ flushed (receiveLoop routes sock s batch)
  swept : Swept (http3EventCb routes sock answers s batch) id

/-- Every connection that got a datagram before `x`, other than the one `x` is for, is served with
`x` in the batch exactly as without it. -/
def BatchIndependent (routes : List (Route Code)) (sock : ℤ) (answers : ℕ → FlushIO × Bool)
    (s : Server) (before : List (Round Code)) (x : Round Code) (after : List (Round Code)) : Prop :=
  ∀ id ∈ receivers routes sock { s with phase := .receiving } before,
    recipient (afterBatch routes sock s before) x.datagram ≠ some id →
      (Served routes sock answers s (before ++ x :: after) id ↔
        Served routes sock answers s (before ++ after) id)

/-- Without `x`, a datagram of `after` is read and ends the call. -/
def LaterEnds (routes : List (Route Code)) (sock : ℤ) (s : Server)
    (before after : List (Round Code)) : Prop :=
  ∃ pre r post, after = pre ++ r :: post ∧ (afterBatch routes sock s (before ++ pre)).Receiving ∧
    RoundEnds routes sock (afterBatch routes sock s (before ++ pre)) r

/-- The condition: `x` is not read, or a datagram behind it ends the call as well, or no other
connection got a datagram before it. -/
def NothingLost (routes : List (Route Code)) (sock : ℤ) (s : Server) (before : List (Round Code))
    (x : Round Code) (after : List (Round Code)) : Prop :=
  ¬ (afterBatch routes sock s before).Receiving ∨ LaterEnds routes sock s before after ∨
    ∀ id ∈ receivers routes sock { s with phase := .receiving } before,
      recipient (afterBatch routes sock s before) x.datagram = some id

/-- A call that gets to the pass over the table serves every connection that got a datagram. -/
theorem served_of_reachesTable {routes : List (Route Code)} {sock : ℤ}
    (answers : ℕ → FlushIO × Bool) {s : Server} {batch : List (Round Code)}
    (h : ReachesTable routes sock s batch) {id : ℕ}
    (hid : id ∈ receivers routes sock { s with phase := .receiving } batch) :
    Served routes sock answers s batch id := by
  obtain ⟨halive, left, hphase⟩ := h
  have hdead : ¬ (receiveLoop routes sock s batch).dead = true := by
    rw [halive]
    exact Bool.false_ne_true
  have hmem : id ∈ left := (receiveLoop_left routes sock s batch hphase).2 id hid
  constructor
  · unfold flushed
    rw [hphase]
    dsimp only
    rw [if_neg hdead]
    exact hmem
  · unfold http3EventCb
    dsimp only
    rw [hphase]
    dsimp only
    rw [if_neg hdead]
    exact egressLoop_swept answers _ left (Or.inl hmem)

/-- A call that does not get there serves none. -/
theorem reachesTable_of_served {routes : List (Route Code)} {sock : ℤ}
    {answers : ℕ → FlushIO × Bool} {s : Server} {batch : List (Round Code)} {id : ℕ}
    (h : Served routes sock answers s batch id) : ReachesTable routes sock s batch := by
  have hflushed := h.flushed
  unfold flushed at hflushed
  split at hflushed
  · rename_i left hphase
    split at hflushed
    · cases hflushed
    · rename_i halive
      exact ⟨Bool.eq_false_iff.mpr halive, left, hphase⟩
  · cases hflushed

/-- A batch whose loop ends early. -/
theorem receiveLoop_ended {routes : List (Route Code)} {sock : ℤ} {s : Server}
    {batch : List (Round Code)} (h : ¬ (afterBatch routes sock s batch).Receiving)
    (rest : List (Round Code)) :
    receiveLoop routes sock s (batch ++ rest) = afterBatch routes sock s batch := by
  have hsame : afterBatch routes sock s (batch ++ rest) = afterBatch routes sock s batch := by
    apply List.foldl_append.trans
    exact foldl_receive_ended routes sock h rest
  unfold receiveLoop
  rw [hsame]
  exact if_neg h

/-- A call that returns at `x` serves none. -/
theorem not_served_of_returns {routes : List (Route Code)} {sock : ℤ}
    {answers : ℕ → FlushIO × Bool} {s : Server} {before after : List (Round Code)} {x : Round Code}
    (h : (receive routes sock (afterBatch routes sock s before) x).phase = .idle) (id : ℕ) :
    ¬ Served routes sock answers s (before ++ x :: after) id := by
  have hlast : afterBatch routes sock s (before ++ [x]) =
      receive routes sock (afterBatch routes sock s before) x := List.foldl_append
  have hended : ¬ (afterBatch routes sock s (before ++ [x])).Receiving := fun hrec => by
    rw [← hlast, hrec.2] at h
    cases h
  have hloop := receiveLoop_ended hended after
  rw [List.append_assoc, List.singleton_append, hlast] at hloop
  intro hserved
  obtain ⟨-, left, hphase⟩ := reachesTable_of_served hserved
  rw [hloop, h] at hphase
  cases hphase

/-- A datagram behind `x` ends the call exactly if the call without `x` does not get to the table. -/
theorem laterEnds_iff {routes : List (Route Code)} {sock : ℤ} {s : Server}
    {before : List (Round Code)} (hread : (afterBatch routes sock s before).Receiving)
    (hkept : (afterBatch routes sock s before).Bounded ∧ (afterBatch routes sock s before).Lives)
    (after : List (Round Code)) :
    LaterEnds routes sock s before after ↔ ¬ ReachesTable routes sock s (before ++ after) := by
  have hsplit : ∀ rest : List (Round Code), afterBatch routes sock s (before ++ rest) =
      rest.foldl (receive routes sock) (afterBatch routes sock s before) := fun rest =>
    List.foldl_append
  have hgoes : ¬ Ended (afterBatch routes sock s before) := by
    rintro (hdead | hidle)
    · exact ne_true_of_eq_false hread.1 hdead
    · rw [hread.2] at hidle
      cases hidle
  rw [reachesTable_iff, not_not, hsplit,
    foldl_receive_ended_iff routes sock hkept.1 hkept.2, or_iff_right hgoes]
  unfold LaterEnds
  simp only [hsplit]

/-- **In every reachable state, and for every batch, a datagram that is rejected leaves the other
connections of the batch served as they are without it, exactly if it is not read, or a datagram
behind it ends the call as well, or no other connection got a datagram before it.** -/
theorem batch_independent_iff (routes : List (Route Code)) (sock : ℤ)
    (answers : ℕ → FlushIO × Bool) {run : List (ServerEvent Code)} {s : Server}
    (hexec : (serverMachine routes).exec Server.init run = some s) (before after : List (Round Code))
    {x : Round Code} (hx : (afterBatch routes sock s before).Receiving →
      Rejected (afterBatch routes sock s before) x.datagram) :
    BatchIndependent routes sock answers s before x after ↔
      NothingLost routes sock s before x after := by
  by_cases hread : (afterBatch routes sock s before).Receiving
  · have hkept : (afterBatch routes sock s before).Bounded ∧
        (afterBatch routes sock s before).Lives := by
      obtain ⟨hbound, hlives⟩ := boundedLives_exec ⟨.init, .init⟩ hexec
      obtain ⟨es, hes⟩ := (serverMachine routes).exec_foldl (receive_run routes sock)
        { s with phase := .receiving } before
      have hstart : ({ s with phase := .receiving } : Server).Bounded := hbound
      exact boundedLives_exec ⟨hstart, hlives.of_eq rfl rfl⟩ hes
    have hreturns : (receive routes sock (afterBatch routes sock s before) x).phase = .idle := by
      have hidle := (hx hread).returns hkept.1 hread.1 sock
      unfold receive
      rw [if_pos hread]
      exact (pollLoop_frame routes _ x.polls).2.1 hidle
    have hnone : ∀ id, ¬ Served routes sock answers s (before ++ x :: after) id :=
      not_served_of_returns hreturns
    have hlater := laterEnds_iff hread hkept after
    constructor
    · intro hind
      refine Or.inr ?_
      by_cases hreaches : ReachesTable routes sock s (before ++ after)
      · refine Or.inr fun id hid => ?_
        by_contra hother
        have hall : id ∈ receivers routes sock { s with phase := .receiving } (before ++ after) := by
          rw [receivers_append]
          exact List.mem_append_left _ hid
        exact hnone id ((hind id hid hother).mpr (served_of_reachesTable answers hreaches hall))
      · exact Or.inl (hlater.mpr hreaches)
    · rintro (hended | hearly | hall) id hid hother
      · exact absurd hread hended
      · -- neither call gets to the table
        exact iff_of_false (hnone id) fun hserved =>
          hlater.mp hearly (reachesTable_of_served hserved)
      · exact absurd (hall id hid) hother
  · refine iff_of_true (fun id _ _ => ?_) (Or.inl hread)
    -- both calls end before the place of `x`
    have hsame : receiveLoop routes sock s (before ++ x :: after) =
        receiveLoop routes sock s (before ++ after) := by
      rw [receiveLoop_ended hread, receiveLoop_ended hread]
    have hcall : http3EventCb routes sock answers s (before ++ x :: after) =
        http3EventCb routes sock answers s (before ++ after) := by
      unfold http3EventCb
      rw [hsame]
    constructor
    · rintro ⟨hflushed, hswept⟩
      exact ⟨hsame ▸ hflushed, hcall ▸ hswept⟩
    · rintro ⟨hflushed, hswept⟩
      exact ⟨hsame ▸ hflushed, hcall ▸ hswept⟩

instance (s : Server) (id : ℕ) : Decidable (Swept s id) :=
  inferInstanceAs (Decidable (∀ c ∈ s.conn id, c.closed = true → id ∉ s.table))

/-- A client has connected. -/
def connectedRun : List (ServerEvent Unit) :=
  [.wake, .recv 5 (.datagram (clientDatagram [3] 1200 false)), .recv 5 .wouldBlock,
    .egress ⟨[], true, 30000000⟩ false, .egress ⟨[], true, 0⟩ false]

/-- Every packet is sent. -/
def sendsAll (_id : ℕ) : FlushIO × Bool :=
  (⟨[], true, 30000000⟩, false)

/-- A datagram of the client after which no event is there. -/
def clientRound (recv : ℤ) : Round Unit where
  datagram := clientDatagram [9] recv false
  polls := []

/-- A datagram without a header. -/
def brokenRound : Round Unit where
  datagram := { clientDatagram [9] 20 false with header := none }
  polls := []

/-- A datagram of the client that fails takes nothing from another one. -/
theorem batch_independent_own : ∃ s,
    (serverMachine []).exec Server.init connectedRun = some s ∧
      BatchIndependent [] 5 sendsAll s [clientRound 80] (clientRound (-2)) [] := by
  have hexec : (serverMachine []).exec Server.init connectedRun = some _ := rfl
  refine ⟨_, hexec, (batch_independent_iff [] 5 sendsAll hexec _ [] fun _ => ?_).mpr ?_⟩
  · refine Rejected.fails (?_ : recipient _ _ = some 0) ?_
    · rfl
    · decide
  · exact Or.inr (Or.inr (by decide))

/-- A datagram without a header ends the call before the client's connection is flushed. -/
theorem batch_not_independent_header : ∃ s,
    (serverMachine []).exec Server.init connectedRun = some s ∧
      Rejected (afterBatch [] 5 s [clientRound 80]) brokenRound.datagram ∧
      ¬ BatchIndependent [] 5 sendsAll s [clientRound 80] brokenRound [] := by
  refine ⟨_, rfl, .header rfl, fun h => ?_⟩
  have hwith := (h 0 (by decide) (by decide)).mpr ⟨by decide, by decide⟩
  exact absurd hwith.flushed (by decide)

end Gfhttpd.Http3
