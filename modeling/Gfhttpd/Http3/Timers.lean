import Gfhttpd.Http3.Frame

/-!
# The timeout of a connection (`main/http3/http3.c`, `timeout_cb.c`)

`timeout_ev` is pending once, and only the end of `flush_egress` makes it pending again.  So
`timeout_cb` is where it gets lost: a packet that is not sent whole, an error of
`quiche_conn_send` and an expired deadline, which is the answer 0, leave the connection without it.

- `timers_armed_iff`: every open connection has its timeout pending, exactly if every `timeout_cb`
  closes its connection or gets to the end of `flush_egress` with a timeout that is not 0
-/

namespace Gfhttpd.Http3

open Http Conf Router Modules Transition

variable {Code : Type}

/-! ## The property -/

/-- Every open connection in the table that has a timeout of `quiche` outstanding has its
`timeout_ev` pending. -/
def TimersArmed (outstanding : ℕ → Bool) (s : Server) : Prop :=
  ∀ id ∈ s.table, ∀ c ∈ s.conn id, c.closed = false → outstanding id = true →
    c.timeoutPending = true

/-- The callbacks have returned, and every timeout that may be outstanding is pending. -/
def ArmedOnReturn (s : Server) : Prop :=
  s.phase = .idle → ∀ outstanding, TimersArmed outstanding s

/-! ## The condition -/

/-- `flush_egress` gets to its end, and the timeout is not 0. -/
structure FlushIO.Rearms (io : FlushIO) : Prop where
  sent : ∀ p ∈ io.packets, p.2 = p.1
  done : io.done = true
  timeout : io.timeout ≠ 0

instance (io : FlushIO) : Decidable io.Rearms :=
  decidable_of_iff ((∀ p ∈ io.packets, p.2 = p.1) ∧ io.done = true ∧ io.timeout ≠ 0)
    ⟨fun h => ⟨h.1, h.2.1, h.2.2⟩, fun h => ⟨h.sent, h.done, h.timeout⟩⟩

/-- The condition on an event: the timeout of a connection closes it, or `flush_egress` sets
another. -/
def ClosesOrRearms (s : Server) : ServerEvent Code → Prop
  | .timeout id io closed => id ∈ s.table → ∀ c ∈ s.conn id, (c.closed || closed) = true ∨ io.Rearms
  | _ => True

instance (s : Server) : (e : ServerEvent Code) → Decidable (ClosesOrRearms s e)
  | .timeout id io closed => inferInstanceAs (Decidable (id ∈ s.table → ∀ c ∈ s.conn id,
      (c.closed || closed) = true ∨ io.Rearms))
  | .wake | .recv .. | .poll _ | .egress .. | .writeTick .. | .moduleTick .. => .isTrue trivial

/-! ## One step -/

/-- `flush_egress` sets the timeout again. -/
theorem timeoutPending_flushEgress {c : Conn} (hev : c.hs.timeoutEv ≠ none)
    (hexpired : c.timeoutPending = false) (io : FlushIO) :
    (flushEgress c io).timeoutPending = true ↔ io.Rearms := by
  unfold flushEgress setTimeout
  constructor
  · intro hpending
    split at hpending
    · rename_i hend
      rw [Bool.and_eq_true, List.all_eq_true] at hend
      split at hpending
      · rename_i hset
        exact ⟨fun p hp => eq_of_beq (hend.1 p hp), hend.2, hset.1⟩
      · rw [hexpired] at hpending
        cases hpending
    · rw [hexpired] at hpending
      cases hpending
  · rintro ⟨hsent, hdone, htimeout⟩
    have hend : (io.packets.all (fun p => p.2 == p.1) && io.done) = true := by
      rw [Bool.and_eq_true, List.all_eq_true]
      exact ⟨fun p hp => beq_iff_eq.mpr (hsent p hp), hdone⟩
    rw [if_pos hend, if_pos ⟨htimeout, hev⟩]

/-- Every connection in the table has its timeout event, and it is pending. -/
structure Armed (s : Server) : Prop where
  event : ∀ id ∈ s.table, ∀ c ∈ s.conn id, c.hs.timeoutEv ≠ none
  pending : ∀ id ∈ s.table, ∀ c ∈ s.conn id, c.timeoutPending = true

namespace Armed

theorem init : Armed Server.init where
  event id h := by cases h
  pending id h := by cases h

theorem keep {s s' : Server} (h : Armed s) (hgoes : s.Continues s') : Armed s' where
  event id hid c' hc' := by
    obtain ⟨c, hc, hcc'⟩ := hgoes.conn id hid c' hc'
    rw [hcc'.timeoutEv]
    exact h.event id (hgoes.table id hid) c hc
  pending id hid c' hc' := by
    obtain ⟨c, hc, hcc'⟩ := hgoes.conn id hid c' hc'
    exact hcc'.timeoutPending (h.pending id (hgoes.table id hid) c hc)

/-- A new connection has its timeout pending. -/
theorem add {s : Server} (h : Armed s) (sock : ℤ) (cid : Bytes) :
    Armed (addConnection s (Conn.create sock cid)) := by
  have hold : ∀ id ∈ (addConnection s (Conn.create sock cid)).table, ∀ c₀ ∈ s.conn id,
      id ∈ s.table := by
    intro id hid c₀ hc₀
    rcases table_addConnection hid with hmem | ⟨rfl, -, -⟩
    · exact hmem
    · obtain ⟨o, ho, -⟩ := Option.map_eq_some_iff.mp hc₀
      obtain ⟨hlt, -⟩ := List.getElem?_eq_some_iff.mp ho
      exact absurd hlt (Nat.lt_irrefl _)
  constructor
  · intro id hid c hc
    rcases conn_addConnection hc with ⟨-, rfl⟩ | ⟨c₀, hc₀, rfl | ⟨-, rfl⟩⟩
    · exact Option.some_ne_none 0
    · exact h.event id (hold id hid _ hc₀) _ hc₀
    · exact Option.some_ne_none 0
  · intro id hid c hc
    rcases conn_addConnection hc with ⟨-, rfl⟩ | ⟨c₀, hc₀, rfl | ⟨-, rfl⟩⟩
    · rfl
    · exact h.pending id (hold id hid _ hc₀) _ hc₀
    · exact h.pending id (hold id hid c₀ hc₀) c₀ hc₀

/-- A connection is stored with its timeout pending. -/
theorem store {s : Server} (h : Armed s) {id : ℕ} {c' : Conn} (hev : c'.hs.timeoutEv ≠ none)
    (hpending : c'.timeoutPending = true) : Armed (s.setConn id c') := by
  have hconn : ∀ id' ∈ s.table, ∀ d ∈ (s.setConn id c').conn id', d = c' ∨ d ∈ s.conn id' := by
    intro id' _ d hd
    rw [conn_setConn] at hd
    by_cases heq : id = id'
    · rw [if_pos heq] at hd
      obtain ⟨c, -, rfl⟩ := Option.map_eq_some_iff.mp hd
      exact Or.inl rfl
    · rw [if_neg heq] at hd
      exact Or.inr hd
  constructor
  · intro id' hid d hd
    rcases hconn id' hid d hd with rfl | hold
    · exact hev
    · exact h.event id' hid d hold
  · intro id' hid d hd
    rcases hconn id' hid d hd with rfl | hold
    · exact hpending
    · exact h.pending id' hid d hold

/-- A connection is dropped, whatever was stored for it. -/
theorem dropStored {s : Server} (h : Armed s) (id : ℕ) (c' : Conn) :
    Armed (dropConnection (s.setConn id c') id) := by
  have hconn : ∀ id' ∈ (dropConnection (s.setConn id c') id).table,
      ∀ d ∈ (dropConnection (s.setConn id c') id).conn id', id' ∈ s.table ∧ d ∈ s.conn id' := by
    intro id' hid d hd
    obtain ⟨hmem, hne⟩ := List.mem_filter.mp hid
    have hother : ¬ id = id' := fun heq => of_decide_eq_true hne heq.symm
    rw [conn_drop, if_neg hother, conn_setConn, if_neg hother] at hd
    exact ⟨hmem, hd⟩
  constructor
  · intro id' hid d hd
    obtain ⟨hmem, hold⟩ := hconn id' hid d hd
    exact h.event id' hmem d hold
  · intro id' hid d hd
    obtain ⟨hmem, hold⟩ := hconn id' hid d hd
    exact h.pending id' hmem d hold

theorem onReturn {s : Server} (h : Armed s) : ArmedOnReturn s := by
  intro _ outstanding id hid c hc _ _
  exact h.pending id hid c hc

end Armed

/-- `timeout_cb`. -/
theorem timeoutCb_armed {s : Server} {id : ℕ} {c : Conn} (h : Armed s) (hphase : s.phase = .idle)
    (hmem : id ∈ s.table) (hconn : s.conn id = some c) (io : FlushIO) (closed : Bool) :
    (ArmedOnReturn (timeoutCb s id c io closed) → Armed (timeoutCb s id c io closed)) ∧
      (ArmedOnReturn (timeoutCb s id c io closed) ↔ (c.closed || closed) = true ∨ io.Rearms) := by
  have hclosed : ((flushEgress { c with timeoutPending := false } io).closedBy closed).closed =
      (c.closed || closed) := closed_flushEgress { c with timeoutPending := false } io closed
  have hgoes := (Continues.flushEgress { c with timeoutPending := false } io).trans (.closedBy _ closed)
  have hev : ((flushEgress { c with timeoutPending := false } io).closedBy closed).hs.timeoutEv ≠
      none := by
    rw [hgoes.timeoutEv]
    exact h.event id hmem c hconn
  have hpending : ((flushEgress { c with timeoutPending := false } io).closedBy
      closed).timeoutPending = true ↔ io.Rearms :=
    timeoutPending_flushEgress (c := { c with timeoutPending := false }) (h.event id hmem c hconn)
      rfl io
  unfold timeoutCb
  generalize (flushEgress { c with timeoutPending := false } io).closedBy closed = c' at *
  dsimp only
  rw [hclosed]
  cases hend : c.closed || closed with
  | true =>
      rw [if_pos rfl]
      have harmed := h.dropStored id c'
      exact ⟨fun _ => harmed, iff_of_true harmed.onReturn (Or.inl rfl)⟩
  | false =>
      rw [if_neg Bool.false_ne_true]
      -- an open connection: only the new timeout can be pending, as the event base took the old one
      have hrearms : ArmedOnReturn (s.setConn id c') → io.Rearms := by
        intro harmed
        apply hpending.mp
        have hnow : c' ∈ (s.setConn id c').conn id := by
          rw [conn_setConn, if_pos rfl, hconn]
          rfl
        exact harmed hphase (fun _ => true) id hmem c' hnow (hclosed.trans hend) rfl
      have hkept : io.Rearms → Armed (s.setConn id c') := fun hr => h.store hev (hpending.mpr hr)
      refine ⟨fun harmed => hkept (hrearms harmed), fun harmed => Or.inr (hrearms harmed), ?_⟩
      rintro (hfalse | hr)
      · cases hfalse
      · exact (hkept hr).onReturn

/-- One event. -/
theorem serverStep_armed {routes : List (Route Code)} {s s' : Server} {e : ServerEvent Code}
    (h : Armed s) (hstep : serverStep routes s e = some s') :
    (ArmedOnReturn s' → Armed s') ∧ (ArmedOnReturn s' ↔ ClosesOrRearms s e) := by
  have hother : ClosesOrRearms s e → Armed s' →
      (ArmedOnReturn s' → Armed s') ∧ (ArmedOnReturn s' ↔ ClosesOrRearms s e) :=
    fun hcond harmed => ⟨fun _ => harmed, iff_of_true harmed.onReturn hcond⟩
  -- every other callback leaves `timeout_ev` pending, whatever way it returns
  obtain ⟨s₀, hbegins, hgoes⟩ := serverStep_continues hstep
  cases e with
  | timeout id io closed =>
      cases serverStep_cases hstep with
      | timeout hphase hmem hconn =>
          obtain ⟨hkeep, hiff⟩ := timeoutCb_armed h hphase hmem hconn io closed
          refine ⟨hkeep, hiff.trans ?_⟩
          simp only [ClosesOrRearms, hconn, Option.mem_some_iff, forall_eq', hmem, true_imp_iff]
      | freed hto hfreed hconn hevent =>
          cases hto
          exact hother (fun hmem => absurd hmem hfreed) (h.keep (.of_eq rfl rfl))
  | wake =>
      cases hbegins with
      | same hnew => exact hother trivial (h.keep hgoes)
  | recv sock r =>
      cases hbegins with
      | same hnew => exact hother trivial (h.keep hgoes)
      -- `evtimer_add` in `http3_event_cb`
      | added hcreates => exact hother trivial ((h.add sock _).keep hgoes)
  | poll p =>
      cases hbegins with
      | same hnew => exact hother trivial (h.keep hgoes)
  | egress io closed =>
      cases hbegins with
      | same hnew => exact hother trivial (h.keep hgoes)
  | writeTick id i io closed =>
      cases hbegins with
      | same hnew => exact hother trivial (h.keep hgoes)
  | moduleTick id ev io =>
      cases hbegins with
      | same hnew => exact hother trivial (h.keep hgoes)

/-! ## Runs -/

/-- **In every run every open connection in the table has its timeout pending when the callbacks
have returned, whichever timeouts of `quiche` are outstanding, exactly if every `timeout_cb` of the
run closes its connection, or sends every packet whole and is told a timeout that is not 0.** -/
theorem timers_armed_iff (routes : List (Route Code)) {run : List (ServerEvent Code)} {s : Server}
    (hexec : (serverMachine routes).exec Server.init run = some s) :
    (serverMachine routes).Throughout ArmedOnReturn Server.init run ↔
      (serverMachine routes).Meets ClosesOrRearms Server.init run := by
  apply (serverMachine routes).throughout_iff_meets (I := Armed) _ Armed.init Armed.init.onReturn hexec
  intro s e s' h _ hstep
  exact serverStep_armed h hstep

/-- A client connects, and the timeout of its connection comes. -/
def connectedThen (io : FlushIO) : List (ServerEvent Unit) :=
  [.wake, .recv 5 (.datagram (clientDatagram [3] 1200 false)), .recv 5 .wouldBlock,
    .egress ⟨[], true, 30000000⟩ false, .egress ⟨[], true, 0⟩ false, .timeout 0 io false]

theorem timers_armed_sent : ∃ s,
    (serverMachine []).exec Server.init (connectedThen ⟨[(1200, 1200)], true, 30000000⟩) = some s ∧
      (serverMachine []).Throughout ArmedOnReturn Server.init
        (connectedThen ⟨[(1200, 1200)], true, 30000000⟩) := by
  have hexec : (serverMachine []).exec Server.init
      (connectedThen ⟨[(1200, 1200)], true, 30000000⟩) = some _ := rfl
  exact ⟨_, hexec, (timers_armed_iff [] hexec).mpr (by decide)⟩

/-- One `sendto` fails, and the connection is in the table with no timeout. -/
theorem timers_not_armed_unsent : ∃ s,
    (serverMachine []).exec Server.init (connectedThen ⟨[(1200, -1)], false, 0⟩) = some s ∧
      ¬ (serverMachine []).Throughout ArmedOnReturn Server.init
        (connectedThen ⟨[(1200, -1)], false, 0⟩) := by
  have hexec : (serverMachine []).exec Server.init
      (connectedThen ⟨[(1200, -1)], false, 0⟩) = some _ := rfl
  refine ⟨_, hexec, fun hall => ?_⟩
  have harmed := Machine.Throughout.final (serverMachine []) hall hexec rfl (fun _ => true)
  exact absurd (harmed 0 (by decide) _ rfl rfl rfl) (by decide)

end Gfhttpd.Http3
